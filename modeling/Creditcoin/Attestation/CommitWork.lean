import Creditcoin.Attestation.Histories
import Creditcoin.Attestation.Weight

/-!
# The work of a commit and its declared weight

The roots of queued proofs that a commit hashes and the checkpoints it creates, against what the
declared weight charges for. The queue of a live chain is `Stacked`: each attestation starts above
the one before it, and the last one is the last attested. So its proofs have as many roots as there
are blocks from the start of the first to the last attested height, less the attestations themselves
and the blocks skipped. `commit_work_le_iff` says when the declaration covers the work: not where
the last checkpoint lies further into its cell of the grid than the attestation, nor where a queued
proof is longer than the settings now allow. -/

namespace Creditcoin

variable {H A B : Type}

/-! ## The blocks of a queue -/

/-- The first block of an attestation: that of the first root of its proof, or its own. -/
def SignedAttestation.firstBlock (q : SignedAttestation H A) : ℕ :=
  q.continuityProof.startBlockNumber q.headerNumber

/-- The blocks between attestations that none of them covers. -/
def skippedBlocks : List (SignedAttestation H A) → ℕ
  | q :: q' :: queue => (q'.firstBlock - (q.headerNumber + 1)) + skippedBlocks (q' :: queue)
  | _ => 0

theorem SignedAttestation.firstBlock_add_len {q : SignedAttestation H A}
    (h : q.continuityProof.len ≤ q.headerNumber) :
    q.firstBlock + q.continuityProof.len = q.headerNumber := by
  unfold firstBlock ContinuityProof.startBlockNumber
  unfold ContinuityProof.len at h ⊢
  omega

/-- Attestations that start one above the other have as many roots as the blocks they reach over,
less themselves and what they skip. -/
theorem sum_len_add {q : SignedAttestation H A} {queue : List (SignedAttestation H A)}
    (hsorted : (q :: queue).Pairwise fun q q' => q.headerNumber < q'.firstBlock)
    (hlen : ∀ q' ∈ q :: queue, q'.continuityProof.len ≤ q'.headerNumber)
    {top : SignedAttestation H A} (htop : (q :: queue).getLast? = some top) :
    ((q :: queue).map (·.continuityProof.len)).sum + (q :: queue).length +
      skippedBlocks (q :: queue) + q.firstBlock = top.headerNumber + 1 := by
  induction queue generalizing q with
  | nil =>
    obtain rfl : q = top := by simpa using htop
    have hfirst := SignedAttestation.firstBlock_add_len (hlen q List.mem_cons_self)
    simp only [List.map_cons, List.map_nil, List.sum_cons, List.sum_nil, List.length_singleton,
      skippedBlocks]
    omega
  | cons q' queue ih =>
    obtain ⟨habove, hrest⟩ := List.pairwise_cons.1 hsorted
    have hih := ih hrest (fun x hx => hlen x (List.mem_cons_of_mem _ hx))
      (by rwa [List.getLast?_cons_cons] at htop)
    have hfirst := SignedAttestation.firstBlock_add_len (hlen q List.mem_cons_self)
    have hlt := habove q' List.mem_cons_self
    rw [List.map_cons, List.sum_cons, List.length_cons, skippedBlocks]
    omega

variable [DecidableEq H]

def Anchors.queuedAttestations (a : Anchors H A) (queue : List H) : List (SignedAttestation H A) :=
  queue.filterMap a.attestations.lookup

/-- Each attestation of the queue starts above those before it. -/
def Anchors.Sorted (a : Anchors H A) (queue : List H) : Prop :=
  queue.Pairwise fun d d' => ∀ q q', a.attestations.lookup d = some q →
    a.attestations.lookup d' = some q' → q.headerNumber < q'.firstBlock

def Anchors.Stored (a : Anchors H A) (queue : List H) : Prop :=
  ∀ d ∈ queue, ∃ q, a.attestations.lookup d = some q

section Queue

variable {a : Anchors H A} {queue : List H}

theorem Anchors.Sorted.unique (h : a.Sorted queue) {y : ℕ} {d d' : H} {q q' : SignedAttestation H A}
    (hd : d ∈ queue) (hd' : d' ∈ queue) (hq : a.attestations.lookup d = some q)
    (hq' : a.attestations.lookup d' = some q') (hfirst : q.firstBlock ≤ y)
    (hy : y ≤ q.headerNumber) (hfirst' : q'.firstBlock ≤ y) (hy' : y ≤ q'.headerNumber) :
      q = q' := by
  have hapart : queue.Pairwise fun d d' => ∀ q q', a.attestations.lookup d = some q →
      a.attestations.lookup d' = some q' →
        q.headerNumber < q'.firstBlock ∨ q'.headerNumber < q.firstBlock :=
    h.imp fun hlt q q' hq hq' => .inl (hlt q q' hq hq')
  rcases eq_or_ne d d' with rfl | hne
  · exact Option.mem_unique hq hq'
  · have hsymm : Std.Symm fun d d' => ∀ q q', a.attestations.lookup d = some q →
        a.attestations.lookup d' = some q' →
          q.headerNumber < q'.firstBlock ∨ q'.headerNumber < q.firstBlock :=
      ⟨fun _ _ h q q' hq hq' => (h q' q hq' hq).symm⟩
    have hdisjoint := hapart.forall hd hd' hne q q' hq hq'
    omega

theorem Anchors.queuedAttestations_cons {d : H} {q : SignedAttestation H A}
    (hq : a.attestations.lookup d = some q) :
    a.queuedAttestations (d :: queue) = q :: a.queuedAttestations queue := by
  simp only [queuedAttestations, List.filterMap_cons, hq]

theorem Anchors.Stored.length (h : a.Stored queue) :
    (a.queuedAttestations queue).length = queue.length := by
  induction queue with
  | nil => rfl
  | cons d queue ih =>
    obtain ⟨q, hq⟩ := h d List.mem_cons_self
    rw [queuedAttestations_cons hq, List.length_cons, List.length_cons,
      ih fun d' hd' => h d' (List.mem_cons_of_mem _ hd')]

theorem Anchors.Stored.getLast?_eq (h : a.Stored queue) :
    (a.queuedAttestations queue).getLast? = queue.getLast?.bind a.attestations.lookup := by
  rcases List.eq_nil_or_concat queue with rfl | ⟨front, d, rfl⟩
  · rfl
  · obtain ⟨q, hq⟩ := h d (by simp)
    simp [queuedAttestations, hq]

theorem Anchors.Stored.queuedRoots_eq (h : a.Stored queue) :
    queuedRoots a queue = ((a.queuedAttestations queue).map (·.continuityProof.len)).sum := by
  induction queue with
  | nil => rfl
  | cons d queue ih =>
    obtain ⟨q, hq⟩ := h d List.mem_cons_self
    have hrest := ih fun d' hd' => h d' (List.mem_cons_of_mem _ hd')
    rw [queuedAttestations_cons hq, List.map_cons, List.sum_cons, ← hrest]
    simp only [queuedRoots, List.map_cons, List.sum_cons, hq, Option.map_some, Option.getD_some]

end Queue

/-! ## The queue of a live chain -/

/-- The queue is sorted and ends at the last attested height. -/
structure Anchors.Stacked (T : Config H A B) (a : Anchors H A) : Prop where
  sorted : a.Sorted a.checkpointingQueue
  top : ∀ d ∈ a.checkpointingQueue.getLast?, ∀ q, a.attestations.lookup d = some q →
    ∃ last ∈ a.lastDigest, last.1 = q.headerNumber
  len_le : ∀ d q, a.attestations.lookup d = some q →
    q.continuityProof.len ≤ max T.maxCatchupCeiling T.maxChainAttestationInterval
  length_le : a.checkpointingQueue.length ≤ T.maxCheckpointingQueueLen
  unstarted : a.lastCheckpoint = none → a.checkpointingQueue = []

section Stacked

variable {T : Config H A B} {a a' : Anchors H A}

theorem Anchors.stacked_of_nil (hqueue : a.checkpointingQueue = [])
    (hlen : ∀ d q, a.attestations.lookup d = some q →
      q.continuityProof.len ≤ max T.maxCatchupCeiling T.maxChainAttestationInterval) :
    a.Stacked T := by
  refine ⟨?_, ?_, hlen, ?_, fun _ => hqueue⟩
  · rw [hqueue]
    exact List.Pairwise.nil
  · simp [hqueue]
  · simp [hqueue]

theorem Anchors.Stacked.of_le (h : a.Stacked T)
    (hqueue : a'.checkpointingQueue = a.checkpointingQueue)
    (hdigest : a'.lastDigest = a.lastDigest)
    (hlast : a'.lastCheckpoint = none → a.lastCheckpoint = none)
    (hle : ∀ d q, a'.attestations.lookup d = some q → a.attestations.lookup d = some q) :
    a'.Stacked T := by
  refine ⟨?_, ?_, fun d q hq => h.len_le d q (hle d q hq), hqueue ▸ h.length_le, ?_⟩
  · rw [hqueue]
    exact h.sorted.imp fun hlt q q' hq hq' => hlt q q' (hle _ q hq) (hle _ q' hq')
  · rw [hqueue, hdigest]
    exact fun d hd q hq => h.top d hd q (hle d q hq)
  · rw [hqueue]
    exact fun hnone => h.unstarted (hlast hnone)

theorem Anchors.Stacked.le_lastDigest (h : a.Stacked T) (hstored : a.Stored a.checkpointingQueue)
    {d : H} {q : SignedAttestation H A} (hd : d ∈ a.checkpointingQueue)
    (hq : a.attestations.lookup d = some q) : ∃ last ∈ a.lastDigest, q.headerNumber ≤ last.1 := by
  rcases List.eq_nil_or_concat a.checkpointingQueue with hnil | ⟨front, t, hconcat⟩
  · simp [hnil] at hd
  · rw [List.concat_eq_append] at hconcat
    have hmem : t ∈ a.checkpointingQueue := by simp [hconcat]
    obtain ⟨top, htop⟩ := hstored t hmem
    obtain ⟨last, hlast, heq⟩ := h.top t (by simp [hconcat]) top htop
    refine ⟨last, hlast, ?_⟩
    rw [heq]
    rw [hconcat, List.mem_append, List.mem_singleton] at hd
    rcases hd with hfront | rfl
    · have hsorted := h.sorted
      rw [hconcat] at hsorted
      have hlt := (List.pairwise_append.1 hsorted).2.2 d hfront t (by simp) q top hq htop
      have hfirst : top.firstBlock ≤ top.headerNumber := Nat.sub_le _ _
      omega
    · rw [Option.mem_unique hq htop]

variable [DecidableEq A] {c : Chain H A} {supported : Bool} {now n : ℕ}
  {att : SignedAttestation H A}

theorem Accepted.lastDigest_lt_firstBlock (hlinked : c.anchors.Linked)
    (h : Accepted T supported now c att) :
    ∀ last ∈ c.anchors.lastDigest, last.1 < att.firstBlock := by
  intro last hlast
  rcases h.continues with hstart | ⟨-, m, d, hlink⟩
  · have hfirst : att.firstBlock = att.headerNumber := by
      simp [SignedAttestation.firstBlock, ContinuityProof.startBlockNumber, hstart.roots_eq]
    rw [hfirst]
    exact h.above_digest last hlast
  · have hfinal : c.anchors.lastFinalized = some last := by
      simp [Anchors.lastFinalized, Option.mem_def.1 hlast]
    obtain rfl := Option.mem_unique hfinal (hlinked.lastFinalized_eq h.cursor_eq hlink)
    have hadd := SignedAttestation.firstBlock_add_len h.len_bounded.2
    have hheader := hlink.header_eq
    omega

theorem Accepted.len_le_maxRoots (h : Accepted T supported now c att) :
    att.continuityProof.len ≤ max c.settings.maxCatchup c.settings.chainAttestationInterval := by
  rcases h.continues with hstart | ⟨-, m, d, hlink⟩
  · simp [ContinuityProof.len, hstart.roots_eq]
  · exact hlink.len_le.trans (Nat.mod_le _ _)

theorem Accepted.len_le (hst : c.settings.Bounded T) (h : Accepted T supported now c att) :
    att.continuityProof.len ≤ max T.maxCatchupCeiling T.maxChainAttestationInterval :=
  h.len_le_maxRoots.trans (max_le_max hst.catchup_le hst.interval_le)

theorem Accepted.lookup_queue_store (htracked : c.anchors.Tracked T)
    (h : Accepted T supported now c att) {d : H} (hd : d ∈ c.anchors.checkpointingQueue) :
    (storeAttestation T now c.anchors att).attestations.lookup d =
      c.anchors.attestations.lookup d := by
  obtain ⟨q, hq⟩ := htracked.stored d (List.mem_append_right _ hd)
  rw [h.lookup_store hq, hq]

/-- An attestation that is accepted starts above those listed before it. -/
theorem Anchors.Sorted.store {queue : List H} (hsorted : c.anchors.Sorted queue)
    (hqueue : ∀ d ∈ queue,
      d ∈ c.anchors.attestationRemovalQueue ++ c.anchors.checkpointingQueue)
    (htop : ∀ d ∈ queue, ∀ q, c.anchors.attestations.lookup d = some q →
      ∃ last ∈ c.anchors.lastDigest, q.headerNumber ≤ last.1)
    (htracked : c.anchors.Tracked T) (hlinked : c.anchors.Linked)
    (haccepted : Accepted T supported now c att) :
    (storeAttestation T now c.anchors att).Sorted (queue ++ [att.digest T.keccak]) := by
  have hold : ∀ d ∈ queue, (storeAttestation T now c.anchors att).attestations.lookup d =
      c.anchors.attestations.lookup d := by
    intro d hd
    obtain ⟨q, hq⟩ := htracked.stored d (hqueue d hd)
    rw [haccepted.lookup_store hq, hq]
  refine List.pairwise_append.2 ⟨?_, List.pairwise_singleton _ _, ?_⟩
  · refine hsorted.imp_of_mem fun {d d'} hd hd' hlt q q' hq hq' => ?_
    rw [hold d hd] at hq
    rw [hold d' hd'] at hq'
    exact hlt q q' hq hq'
  · intro d hd d' hd' q q' hq hq'
    obtain rfl := List.mem_singleton.1 hd'
    rw [lookup_storeAttestation, if_pos rfl, Option.some.injEq] at hq'
    rw [hold d hd] at hq
    subst hq'
    obtain ⟨last, hlast, hle⟩ := htop d hd q hq
    have hlt := haccepted.lastDigest_lt_firstBlock hlinked last hlast
    omega

theorem Anchors.Stacked.sorted_store (h : c.anchors.Stacked T) (htracked : c.anchors.Tracked T)
    (hlinked : c.anchors.Linked) (haccepted : Accepted T supported now c att) :
    (storeAttestation T now c.anchors att).Sorted
      (c.anchors.checkpointingQueue ++ [att.digest T.keccak]) := by
  have hqueue : ∀ d ∈ c.anchors.checkpointingQueue,
      d ∈ c.anchors.attestationRemovalQueue ++ c.anchors.checkpointingQueue :=
    fun _ hd => List.mem_append_right _ hd
  refine h.sorted.store hqueue (fun d hd q hq => ?_) htracked hlinked haccepted
  exact h.le_lastDigest (fun d hd => htracked.stored d (hqueue d hd)) hd hq

/-- After a commit whose queue is what is left of the old queue and the attestation, the queue is in
order. -/
theorem Anchors.Stacked.of_suffix (h : c.anchors.Stacked T) (hst : c.settings.Bounded T)
    (htracked : c.anchors.Tracked T) (hlinked : c.anchors.Linked)
    (haccepted : Accepted T supported now c att)
    (hqueue : a'.checkpointingQueue <:+ c.anchors.checkpointingQueue ++ [att.digest T.keccak])
    (hlength : a'.checkpointingQueue.length ≤ T.maxCheckpointingQueueLen)
    (hle : ∀ d q, a'.attestations.lookup d = some q →
      (storeAttestation T now c.anchors att).attestations.lookup d = some q)
    (hdigest : a'.lastDigest = some (att.headerNumber, att.digest T.keccak))
    (hlast : a'.lastCheckpoint ≠ none) : a'.Stacked T := by
  refine ⟨?_, ?_, ?_, hlength, fun hnone => absurd hnone hlast⟩
  · refine ((h.sorted_store htracked hlinked haccepted).sublist hqueue.sublist).imp ?_
    exact fun hlt q q' hq hq' => hlt q q' (hle _ q hq) (hle _ q' hq')
  · intro d hd q hq
    obtain ⟨front, hfront⟩ := hqueue
    have hd' : d = att.digest T.keccak := by
      have hgetLast : (front ++ a'.checkpointingQueue).getLast? = some d := by
        rw [List.getLast?_append, Option.mem_def.1 hd, Option.some_or]
      rw [hfront, List.getLast?_concat] at hgetLast
      exact (Option.some.inj hgetLast).symm
    have hq' := hle d q hq
    rw [lookup_storeAttestation, if_pos hd', Option.some.injEq] at hq'
    exact ⟨_, hdigest, by rw [hq']⟩
  · intro d q hq
    have hq' := hle d q hq
    rw [lookup_storeAttestation] at hq'
    split at hq'
    · obtain rfl := Option.some.inj hq'
      exact haccepted.len_le hst
    · exact h.len_le d q hq'

omit [DecidableEq A] in
theorem tryMakeCheckpoint_suffix (st : Settings) (queue : List H) (header : ℕ) :
    (tryMakeCheckpoint T st a queue header).queue <:+ queue ∧
      (tryMakeCheckpoint T st a queue header).anchors.lastDigest = a.lastDigest ∧
      (a.lastCheckpoint ≠ none →
        (tryMakeCheckpoint T st a queue header).anchors.lastCheckpoint ≠ none) ∧
      ∀ d q, (tryMakeCheckpoint T st a queue header).anchors.attestations.lookup d = some q →
        a.attestations.lookup d = some q := by
  rcases tryMakeCheckpoint_cases T st a queue header with ⟨hanchors, hqueue, -⟩ |
    ⟨last, cp, popped, hmakes⟩
  · rw [hanchors, hqueue]
    exact ⟨List.suffix_rfl, rfl, fun h => h, fun _ _ h => h⟩
  · refine ⟨⟨popped, hmakes.queue_eq.symm⟩, ?_⟩
    rw [hmakes.anchors_condensed]
    exact ⟨rfl, fun _ => by simp [Anchors.condensed], fun _ _ => lookup_of_condensed⟩

theorem Anchors.Stacked.commit (h : c.anchors.Stacked T) (hwf : c.WellFormed T)
    (hlinked : c.anchors.Linked)
    (hcommit : doCommitAttestation T supported now c att = .ok (a', n)) : a'.Stacked T := by
  obtain ⟨haccepted, hcommits⟩ := doCommitAttestation_cases hcommit
  have hstore := storeAttestation_eq (T := T) now haccepted.above_digest
  have hdigest : (storeAttestation T now c.anchors att).lastDigest =
      some (att.headerNumber, att.digest T.keccak) := by rw [hstore]
  cases hcommits with
  | first hkeys _ =>
    have hnil := h.unstarted (hwf.marked.keys_eq_nil_iff.1 hkeys)
    refine h.of_suffix hwf.bounded hwf.tracked hlinked haccepted ?_ h.length_le
      (fun _ _ hq => hq) hdigest (by simp [Anchors.reachCheckpoint])
    change c.anchors.checkpointingQueue <:+ _
    rw [hnil]
    exact List.nil_suffix
  | @caughtUp last cps _ hcatch =>
    rw [caughtUp_eq]
    refine h.of_suffix hwf.bounded hwf.tracked hlinked haccepted List.nil_suffix (Nat.zero_le _)
      (fun _ _ hq => lookup_of_condensed hq) hdigest ?_
    have hlast : c.anchors.lastCheckpoint = some last := hcatch.last_eq
    change cps.getLast?.or c.anchors.lastCheckpoint ≠ none
    simp [hlast]
  | queued hne _ =>
    obtain ⟨hsuffix, hdig, hcp, hle⟩ := tryMakeCheckpoint_suffix (T := T)
      (a := storeAttestation T now c.anchors att) c.settings
      (c.anchors.checkpointingQueue ++ [att.digest T.keccak]) att.headerNumber
    rcases queueAttestation_cases T c.settings (storeAttestation T now c.anchors att) att with
      ⟨hlength, heq⟩ | ⟨-, heq⟩
    · rw [heq]
      exact h.of_suffix hwf.bounded hwf.tracked hlinked haccepted hsuffix hlength hle
        (hdig.trans hdigest) (hcp (mt hwf.marked.keys_eq_nil_iff.2 hne))
    · rw [heq, checkpointAtAttestation_eq]
      exact h.of_suffix hwf.bounded hwf.tracked hlinked haccepted List.nil_suffix (Nat.zero_le _)
        (fun d q hq => hle d q (lookup_of_condensed hq)) (hdig.trans hdigest)
        (by simp [Anchors.condensed])

theorem AnchorStep.stacked {st : Settings} {r : Roster A}
    (hwf : (⟨a, r, st⟩ : Chain H A).WellFormed T)
    (hlinked : a.Linked) (h : a.Stacked T) (hstep : AnchorStep T supported st r a a') :
    a'.Stacked T := by
  cases hstep.effect with
  | committed now att hcommit =>
    exact Anchors.Stacked.commit (c := ⟨a, r, st⟩) h hwf hlinked hcommit
  | imported himports =>
    refine h.of_le rfl rfl (fun hnone => ?_) fun _ _ hq => hq
    rcases himports.last_cases with ⟨rfl, -⟩ | ⟨hnone', -⟩
    · exact hnone
    · exact hnone'
  | reverted kill _ _ _ | patched kill _ _ =>
    exact Anchors.stacked_of_nil rfl fun d q hq =>
      h.len_le d q (StorageMap.lookup_clearPrefix _ kill d q hq)
  | swept hsweep =>
    have hswept := Sweep.swept (T := T) hwf.marked hsweep
    refine h.of_le hswept.queue_eq hswept.lastDigest_eq (fun hnone => ?_) hswept.attestations_le
    rw [← hswept.lastCheckpoint_eq]
    exact hnone

theorem stacked_of_live {s : State H A B} {k : ChainKey}
    (hT : 0 < T.defaultAttestationRetentionDuration ∨ HeightBinding T.keccak)
    (hreach : Reachable T s) (hlive : s.Live k) : (s.chain T k).anchors.Stacked T := by
  refine (live_invariant (P := fun c => c.WellFormed T ∧ c.anchors.Linked ∧ c.anchors.Stacked T)
    hreach hlive (fun gc s₀ h => ⟨genesis_wellFormed h, genesis_linked h, ?_⟩) ?_).2.2
  · have huntouched := genesis_untouched (k := k) h
    refine Anchors.stacked_of_nil huntouched.queue_eq fun d q hq => ?_
    simp [huntouched.attestations_eq] at hq
  · rintro supported c c' ⟨hwf, hlinked, hstacked⟩ hstep
    refine ⟨hstep.wellFormed hwf, ?_⟩
    cases hstep with
    | anchors h =>
      exact ⟨h.linked hT hwf.bounded hwf.tracked hlinked, h.stacked hwf hlinked hstacked⟩
    | roster _ | settings _ => exact ⟨hlinked, hstacked⟩

end Stacked

/-! ## The roots hashed for one checkpoint -/

section Hashed

variable {T : Config H A B} {st : Settings} {a : Anchors H A} {queue : List H} {target : ℕ}

/-- The target of a checkpoint lies strictly inside the proof of an attestation. -/
def SignedAttestation.Inside (q : SignedAttestation H A) (target : ℕ) : Prop :=
  q.firstBlock ≤ target ∧ target < q.headerNumber

theorem Anchors.Sorted.condense_found (h : a.Sorted queue) (hstored : a.Stored queue)
    (hproofs : a.ProofsBounded) {q : SignedAttestation H A} (hq : a.Queued queue q)
    (hinside : q.Inside target) (removal rollback : List H) :
    ∃ cp, (condense T a target queue removal rollback).outcome = .ok cp := by
  obtain ⟨hfirst, hlt⟩ := hinside
  induction queue generalizing removal rollback with
  | nil => simp [Queued] at hq
  | cons d queue ih =>
    obtain ⟨q₀, hq₀⟩ := hstored d List.mem_cons_self
    obtain ⟨hhead, hsorted⟩ := List.pairwise_cons.1 h
    obtain ⟨d', hd', hlookup⟩ := hq
    rcases Nat.lt_trichotomy q₀.headerNumber target with hbelow | hexact | habove
    · -- The attestation is popped, and the one with the target comes later.
      have hmem : d' ∈ queue := by
        refine (List.mem_cons.1 hd').resolve_left ?_
        rintro rfl
        rw [Option.mem_unique hq₀ hlookup] at hbelow
        omega
      obtain ⟨cp, hcp⟩ := ih hsorted (fun x hx => hstored x (List.mem_cons_of_mem _ hx))
        ⟨d', hmem, hlookup⟩ (removal ++ [d]) (rollback ++ [d])
      exact ⟨cp, by simpa only [condense, hq₀, dif_pos hbelow] using hcp⟩
    · simp only [condense, hq₀, dif_neg hexact.not_lt, if_pos hexact, Except.ok.injEq, exists_eq']
    · have hself : q₀ = q := by
        rcases List.mem_cons.1 hd' with rfl | hmem
        · exact Option.mem_unique hq₀ hlookup
        · have hapart := hhead d' hmem q₀ q hq₀ hlookup
          omega
      subst hself
      obtain ⟨hlen, hle⟩ := hproofs d q₀ hq₀
      obtain ⟨e, hatt⟩ : ∃ e, q₀.Attests T.keccak target e :=
        SignedAttestation.Covers.attests T.keccak ⟨hfirst, hlt.le⟩
      have hmem := hatt.resolve_left fun heq => hlt.ne heq.1
      have hdigest : q₀.continuityProof.digestForBlock T.keccak
          (q₀.continuityProof.startBlockNumber q₀.headerNumber) target = some e :=
        (digestForBlock_eq_some hlen
          (hlt.trans_eq (SignedAttestation.firstBlock_add_len hle).symm)).2 hmem
      simp only [condense, hq₀, dif_neg habove.not_gt, if_neg habove.ne', hdigest,
        Except.ok.injEq, exists_eq']

/-- **The roots hashed by `try_make_checkpoint`** are at most `m` exactly if, where a checkpoint is
due and its target lies inside a queued proof, the target is among the first `m` roots of it. -/
theorem tryMakeCheckpoint_hashed_le_iff {last : AttestationCheckpoint H} {header m : ℕ}
    (hst : st.Bounded T) (hproofs : a.ProofsBounded) (hsorted : a.Sorted queue)
    (hstored : a.Stored queue) (hlast : a.lastCheckpoint = some last) :
    (tryMakeCheckpoint T st a queue header).hashed ≤ m ↔
      (2 * checkpointWidth st + 1 ≤ header - last.blockNumber → ∀ q, a.Queued queue q →
        q.Inside (nextCheckpointBlock (checkpointWidth st) last.blockNumber) →
        nextCheckpointBlock (checkpointWidth st) last.blockNumber < q.firstBlock + m) := by
  rcases tryMakeCheckpoint_cases T st a queue header with ⟨-, -, hhashed, hok⟩ |
    ⟨last', cp, popped, hmakes⟩
  · refine iff_of_true (by omega) fun hdue q hq hinside => ?_
    -- With the target inside a queued proof the checkpoint would have been made.
    obtain ⟨cp, hcp⟩ := hsorted.condense_found (T := T) hstored hproofs hq hinside
      a.attestationRemovalQueue []
    have hmade : (tryMakeCheckpoint T st a queue header).outcome = .ok () := by
      have hw := hst.width_pos.ne'
      have hnot : ¬ header - last.blockNumber < (checkpointWidth st * 2 + 1) % 2 ^ 64 := by
        rw [hst.due_eq]
        omega
      simp only [tryMakeCheckpoint, hlast, if_neg hw, if_neg hnot, hcp]
    have hnear := hok hmade last hlast
    rw [hst.due_eq] at hnear
    omega
  · obtain rfl : last' = last := Option.mem_unique hmakes.last_eq hlast
    have hdue := hmakes.due
    rw [hst.due_eq] at hdue
    have hblock := hmakes.block_eq
    rw [← hblock]
    rcases hmakes.condenses.inv with ⟨before, d, q, hpop, -, hd, hheader, -, hn⟩ |
      ⟨d, rest, q, hkept, -, hd, hlt, hdigest, hn⟩
    · refine iff_of_true (by omega) fun _ q' hq' hinside => ?_
      obtain ⟨d', hd', hlookup⟩ := hq'
      have hmem : d ∈ queue := by
        rw [hmakes.queue_eq, hpop]
        simp
      have hfirst : q.firstBlock ≤ q.headerNumber := Nat.sub_le _ _
      have hsame := hsorted.unique hmem hd' hd hlookup (hfirst.trans hheader.le) hheader.ge
        hinside.1 hinside.2.le
      have := hinside.2
      rw [← hsame] at this
      omega
    · have hmem : d ∈ queue := by
        rw [hmakes.queue_eq, hkept]
        simp
      obtain ⟨hlen, hle⟩ := hproofs d q hd
      have hadd := SignedAttestation.firstBlock_add_len hle
      have hinside : q.firstBlock ≤ cp.blockNumber := by
        have hattests : q.Attests T.keccak cp.blockNumber cp.digest :=
          .inr ((digestForBlock_eq_some hlen (hlt.trans_eq hadd.symm)).1 hdigest)
        exact (hattests.covers hle).1
      have hsize : (tryMakeCheckpoint T st a queue header).hashed =
          cp.blockNumber - q.firstBlock + 1 := by
        rw [hn, asUsize_of_lt]
        · rfl
        · unfold SignedAttestation.firstBlock at hadd
          omega
      rw [hsize]
      constructor
      · intro hle _ q' hq' hinside'
        obtain ⟨d', hd', hlookup⟩ := hq'
        obtain rfl := hsorted.unique hmem hd' hd hlookup hinside hlt.le hinside'.1 hinside'.2.le
        omega
      · intro h
        have := h hdue q ⟨d, hmem, hd⟩ ⟨hinside, hlt⟩
        omega

end Hashed

/-! ## The checkpoints created -/

def AnchorEvent.isCheckpointReached : AnchorEvent H → Bool
  | .checkpointReached _ => true
  | _ => false

def Anchors.reachedCheckpoints (a : Anchors H A) : ℕ := a.events.countP (·.isCheckpointReached)

theorem queueAttestation_hashed (T : Config H A B) (st : Settings) (a : Anchors H A)
    (att : SignedAttestation H A) (d : H) :
    (queueAttestation T st a att d).2 =
      (tryMakeCheckpoint T st a (a.checkpointingQueue ++ [d]) att.headerNumber).hashed := by
  unfold queueAttestation
  dsimp only
  split <;> rfl

section Created

variable {T : Config H A B} {st : Settings} {a : Anchors H A} {att : SignedAttestation H A}

omit [DecidableEq H] in
theorem Ladder.length_eq {w head last : ℕ} {cps : List (AttestationCheckpoint H)} (hw : 0 < w)
    (hle : last ≤ head) (h : Ladder w head last cps) : cps.length = head / w - last / w := by
  induction h with
  | @nil last hlast =>
    have hnext := nextCheckpointBlock_of_lt hw (hle.trans_lt hlast)
    have hlt : head / w < last / w + 1 := by
      rw [hnext, nextBoundary_eq hw] at hlast
      exact Nat.div_lt_of_lt_mul (Nat.mul_comm w _ ▸ hlast)
    rw [List.length_nil]
    omega
  | @cons last c cps hc hle' _ ih =>
    have hdiv : c.blockNumber / w = last / w + 1 := by rw [hc, div_nextBoundary hw]
    have hmono : c.blockNumber / w ≤ head / w := Nat.div_le_div_right hle'
    rw [List.length_cons, ih hle']
    omega

theorem Anchors.reachedCheckpoints_condensed (cps : List (AttestationCheckpoint H))
    (popped kept : List H) (k : ℕ) :
    (a.condensed cps popped kept k).reachedCheckpoints = a.reachedCheckpoints + cps.length := by
  have hcount : (cps.map (AnchorEvent.checkpointReached (H := H))).countP
      (·.isCheckpointReached) = cps.length := by
    rw [List.countP_eq_length.2]
    · rw [List.length_map]
    · intro e he
      obtain ⟨c, -, rfl⟩ := List.mem_map.1 he
      rfl
  rw [reachedCheckpoints, reachedCheckpoints, condensed, List.countP_append, hcount]

theorem Anchors.reachedCheckpoints_store (now : ℕ) :
    (storeAttestation T now a att).reachedCheckpoints = a.reachedCheckpoints := by
  rw [reachedCheckpoints, reachedCheckpoints, storeAttestation, List.countP_append]
  rfl

theorem reachedCheckpoints_queueAttestation_le (T : Config H A B) (st : Settings) (a : Anchors H A)
    (att : SignedAttestation H A) :
    (queueAttestation T st a att (att.digest T.keccak)).1.reachedCheckpoints ≤
      a.reachedCheckpoints + 2 := by
  have hmade : (tryMakeCheckpoint T st a (a.checkpointingQueue ++ [att.digest T.keccak])
      att.headerNumber).anchors.reachedCheckpoints ≤ a.reachedCheckpoints + 1 := by
    rcases tryMakeCheckpoint_cases T st a (a.checkpointingQueue ++ [att.digest T.keccak])
      att.headerNumber with ⟨hanchors, -⟩ | ⟨last, c, popped, hmakes⟩
    · rw [hanchors]
      omega
    · rw [hmakes.anchors_condensed, Anchors.reachedCheckpoints_condensed, List.length_singleton]
  rcases queueAttestation_cases T st a att with ⟨-, heq⟩ | ⟨-, heq⟩
  · rw [heq]
    exact hmade.trans (by omega)
  · rw [heq, checkpointAtAttestation_eq, Anchors.reachedCheckpoints_condensed,
      List.length_singleton]
    omega

end Created

/-! ## The declaration and the work -/

/-- What the declaration takes for granted about the state and the attestation. -/
structure Chain.Foreseen (T : Config H A B) (c : Chain H A) (att : SignedAttestation H A) :
    Prop where
  /-- Catching up, the last checkpoint lies no further into its cell of the grid than the
  attestation. -/
  boundaries : (commitWeightState T c att).catchingUp = true → ∀ last ∈ c.anchors.lastCheckpoint,
    last.blockNumber % checkpointWidth c.settings ≤ att.headerNumber % checkpointWidth c.settings
  /-- Catching up, the first queued proof starts so little below the last checkpoint that the charge
  for it, the queued attestations and the blocks they skip make up for it. -/
  reach : (commitWeightState T c att).catchingUp = true → ∀ last ∈ c.anchors.lastCheckpoint,
    ∀ front ∈ (c.anchors.queuedAttestations c.anchors.checkpointingQueue).head?,
      last.blockNumber < front.firstBlock + c.anchors.checkpointingQueue.length +
        skippedBlocks (c.anchors.queuedAttestations c.anchors.checkpointingQueue) +
        (commitWeightState T c att).straddle
  /-- Otherwise, a target that is due and lies inside a queued proof is among the roots charged for
  one proof. -/
  target : (commitWeightState T c att).catchingUp = false → ∀ last ∈ c.anchors.lastCheckpoint,
    2 * checkpointWidth c.settings + 1 ≤ att.headerNumber - last.blockNumber →
      ∀ q, c.anchors.Queued c.anchors.checkpointingQueue q →
        q.Inside (nextCheckpointBlock (checkpointWidth c.settings) last.blockNumber) →
        nextCheckpointBlock (checkpointWidth c.settings) last.blockNumber <
          q.firstBlock + (commitWeightState T c att).straddle

section Declared

variable {T : Config H A B} {c : Chain H A} {att : SignedAttestation H A}

section

omit [DecidableEq H]

theorem commitWeightState_width (hst : c.settings.Bounded T) :
    (commitWeightState T c att).checkpointWidth = checkpointWidth c.settings :=
  max_eq_left hst.width_pos

theorem commitWeightState_long (hst : c.settings.Bounded T) :
    satMul u64Max (commitWeightState T c att).checkpointWidth 2 =
      2 * checkpointWidth c.settings := by
  have hlt := hst.width_lt
  rw [commitWeightState_width hst, Nat.mul_comm 2]
  exact satMul_of_le (by unfold u64Max; omega)

theorem straddle_eq (hst : c.settings.Bounded T) (att : SignedAttestation H A) :
    (commitWeightState T c att).straddle = min (2 * checkpointWidth c.settings)
      (max c.settings.maxCatchup c.settings.chainAttestationInterval) := by
  rw [CommitWeightState.straddle, commitWeightState_long hst]
  rfl

theorem catchingUp_iff (hst : c.settings.Bounded T) (hlen : att.continuityProof.len < 2 ^ 32) :
    (commitWeightState T c att).catchingUp = true ↔
      2 * checkpointWidth c.settings ≤ att.continuityProof.len := by
  rw [CommitWeightState.catchingUp, decide_eq_true_iff, commitWeightState_long hst]
  change _ ≤ att.continuityProof.len % 2 ^ 32 ↔ _
  rw [Nat.mod_eq_of_lt hlen]

end

theorem Anchors.Stacked.queuedRoots_le {a : Anchors H A} (h : a.Stacked T)
    (hstored : a.Stored a.checkpointingQueue) : queuedRoots a a.checkpointingQueue ≤ u32Max := by
  have hsum : queuedRoots a a.checkpointingQueue ≤ a.checkpointingQueue.length *
      max T.maxCatchupCeiling T.maxChainAttestationInterval := by
    rw [hstored.queuedRoots_eq, ← hstored.length, ← List.length_map (·.continuityProof.len)]
    refine List.sum_le_card_nsmul _ _ fun m hm => ?_
    obtain ⟨q, hq, rfl⟩ := List.mem_map.1 hm
    obtain ⟨d, -, hd⟩ := List.mem_filterMap.1 hq
    exact h.len_le d q hd
  have hlength := Nat.mul_le_mul_right (max T.maxCatchupCeiling T.maxChainAttestationInterval)
    (h.length_le.trans (Nat.le_add_right _ 1))
  have hlt := T.queuedRoots_lt
  unfold u32Max
  omega

/-- The roots of the queued proofs are charged for exactly if the first of them starts high
enough. -/
theorem Anchors.Stacked.queuedRoots_le_iff {a : Anchors H A} {last : AttestationCheckpoint H}
    (h : a.Stacked T) (htracked : a.Tracked T) (hlinked : a.Linked)
    (hlast : a.lastCheckpoint = some last) (straddle : ℕ) :
    queuedRoots a a.checkpointingQueue ≤
        (a.lastDigest.map Prod.fst).getD last.blockNumber - last.blockNumber + straddle ↔
      ∀ front ∈ (a.queuedAttestations a.checkpointingQueue).head?,
        last.blockNumber < front.firstBlock + a.checkpointingQueue.length +
          skippedBlocks (a.queuedAttestations a.checkpointingQueue) + straddle := by
  have hstored : a.Stored a.checkpointingQueue := fun d hd =>
    htracked.stored d (List.mem_append_right _ hd)
  rw [hstored.queuedRoots_eq]
  rw [← hstored.length]
  rcases hatts : a.queuedAttestations a.checkpointingQueue with _ | ⟨front, rest⟩
  · simp
  · obtain ⟨top, htop⟩ : ∃ top, (front :: rest).getLast? = some top :=
      ⟨_, List.getLast?_eq_some_getLast (List.cons_ne_nil front rest)⟩
    obtain ⟨t, hqueue, hlookup⟩ : ∃ t, a.checkpointingQueue.getLast? = some t ∧
        a.attestations.lookup t = some top := by
      rw [← hatts, hstored.getLast?_eq, Option.bind_eq_some_iff] at htop
      exact htop
    obtain ⟨digest, hdigest, hheader⟩ := h.top t hqueue top hlookup
    have hordered := hlinked.ordered digest hdigest last hlast
    have hsorted : (front :: rest).Pairwise fun q q' => q.headerNumber < q'.firstBlock := by
      rw [← hatts, queuedAttestations, List.pairwise_filterMap]
      exact h.sorted.imp fun hlt q hq q' hq' => hlt q q' hq hq'
    have hlen : ∀ q ∈ front :: rest, q.continuityProof.len ≤ q.headerNumber := by
      rw [← hatts]
      intro q hq
      obtain ⟨d, -, hd⟩ := List.mem_filterMap.1 hq
      exact (htracked.proofsBounded d q hd).2
    have hsum := sum_len_add hsorted hlen htop
    rw [Option.mem_def.1 hdigest, Option.map_some, Option.getD_some]
    simp only [List.head?_cons, Option.mem_some_iff, forall_eq']
    omega

end Declared

section Work

variable [DecidableEq A] {T : Config H A B} {c : Chain H A} {att : SignedAttestation H A}
  {supported : Bool} {now n : ℕ} {a' : Anchors H A}

theorem Accepted.lt_headerNumber (hst : c.settings.Bounded T) (hlinked : c.anchors.Linked)
    (h : Accepted T supported now c att) {last : AttestationCheckpoint H}
    (hlast : c.anchors.lastCheckpoint = some last)
    (hlong : 2 * checkpointWidth c.settings ≤ att.continuityProof.len) :
    last.blockNumber + 2 * checkpointWidth c.settings < att.headerNumber := by
  have hw := hst.width_pos
  rcases h.continues with hstart | ⟨-, m, d, hlink⟩
  · simp only [ContinuityProof.len, hstart.roots_eq, List.length_nil] at hlong
    omega
  · have hfinal := hlinked.lastFinalized_eq h.cursor_eq hlink
    have hle : last.blockNumber ≤ m := by
      rcases hd : c.anchors.lastDigest with _ | digest
      · simp only [Anchors.lastFinalized, hd, hlast, Option.map_some, Option.none_or,
          Option.some.injEq, Prod.mk.injEq] at hfinal
        exact hfinal.1.le
      · simp only [Anchors.lastFinalized, hd, Option.some_or, Option.some.injEq] at hfinal
        have hordered := hlinked.ordered digest hd last hlast
        rwa [hfinal] at hordered
    have hheader := hlink.header_eq
    omega

/-- The queued proofs are charged for where the checkpoint that is due is made, exactly if its
target is found early enough in them. The proof of the attestation itself is always short enough. -/
theorem Accepted.hashed_le_iff (hwf : c.WellFormed T) (hlinked : c.anchors.Linked)
    (hstacked : c.anchors.Stacked T) (h : Accepted T supported now c att)
    {last : AttestationCheckpoint H} (hlast : c.anchors.lastCheckpoint = some last) {m : ℕ}
    (hm : att.continuityProof.len ≤ m) :
    (tryMakeCheckpoint T c.settings (storeAttestation T now c.anchors att)
        (c.anchors.checkpointingQueue ++ [att.digest T.keccak]) att.headerNumber).hashed ≤ m ↔
      (2 * checkpointWidth c.settings + 1 ≤ att.headerNumber - last.blockNumber →
        ∀ q, c.anchors.Queued c.anchors.checkpointingQueue q →
          q.Inside (nextCheckpointBlock (checkpointWidth c.settings) last.blockNumber) →
          nextCheckpointBlock (checkpointWidth c.settings) last.blockNumber <
            q.firstBlock + m) := by
  have hstored : (storeAttestation T now c.anchors att).Stored
      (c.anchors.checkpointingQueue ++ [att.digest T.keccak]) := by
    intro d hd
    rcases List.mem_append.1 hd with hmem | hself
    · rw [h.lookup_queue_store hwf.tracked hmem]
      exact hwf.tracked.stored d (List.mem_append_right _ hmem)
    · rw [lookup_storeAttestation, if_pos (List.mem_singleton.1 hself)]
      exact ⟨att, rfl⟩
  rw [tryMakeCheckpoint_hashed_le_iff hwf.bounded (h.proofsBounded_store hwf.tracked.proofsBounded)
    (hstacked.sorted_store hwf.tracked hlinked h) hstored hlast]
  refine forall_congr' fun _ => ⟨fun hall q hq hinside => ?_, fun hall q hq hinside => ?_⟩
  · obtain ⟨d, hd, hq⟩ := hq
    exact hall q ⟨d, List.mem_append_left _ hd, h.lookup_store hq⟩ hinside
  · obtain ⟨d, hd, hlookup⟩ := hq
    rcases List.mem_append.1 hd with hmem | hself
    · rw [h.lookup_queue_store hwf.tracked hmem] at hlookup
      exact hall q ⟨d, hmem, hlookup⟩ hinside
    · rw [lookup_storeAttestation, if_pos (List.mem_singleton.1 hself),
        Option.some.injEq] at hlookup
      subst hlookup
      have hadd := SignedAttestation.firstBlock_add_len h.len_bounded.2
      have hlt := hinside.2
      omega

/-- **The work of a commit**, path by path, is within the declaration exactly if the state is as the
declaration takes for granted. -/
theorem Commits.work_le_iff (hwf : c.WellFormed T) (hlinked : c.anchors.Linked)
    (hstacked : c.anchors.Stacked T) (haccepted : Accepted T supported now c att)
    (h : Commits T c.settings (storeAttestation T now c.anchors att) att a' n) :
    (n ≤ (commitWeightState T c att).extraRoots (attestedGap c att) ∧
      a'.reachedCheckpoints - c.anchors.reachedCheckpoints ≤
        (commitWeightState T c att).estimatedCheckpoints) ↔ c.Foreseen T att := by
  have hst := hwf.bounded
  have hlen := haccepted.len_bounded.1
  have hstored : c.anchors.Stored c.anchors.checkpointingQueue := fun d hd =>
    hwf.tracked.stored d (List.mem_append_right _ hd)
  cases h with
  | first hkeys hgenesis =>
    have hnone : c.anchors.lastCheckpoint = none := hwf.marked.keys_eq_nil_iff.1 hkeys
    have hshort : (commitWeightState T c att).catchingUp = false := by
      rw [← Bool.not_eq_true, catchingUp_iff hst hlen]
      have hw := hst.width_pos
      rcases haccepted.continues with hstart | ⟨hne, -⟩
      · simp only [ContinuityProof.len, hstart.roots_eq, List.length_nil]
        omega
      · exact absurd hgenesis.symm hne
    refine iff_of_true ⟨Nat.zero_le _, ?_⟩ ⟨?_, ?_, ?_⟩
    · change ((storeAttestation T now c.anchors att).condensed
        [⟨att.headerNumber, att.digest T.keccak, att.headerNumber_lt⟩] [att.digest T.keccak]
        c.anchors.checkpointingQueue 0).reachedCheckpoints - _ ≤ _
      rw [Anchors.reachedCheckpoints_condensed, Anchors.reachedCheckpoints_store,
        CommitWeightState.estimatedCheckpoints, hshort, Nat.add_sub_cancel_left]
      show 1 ≤ 2
      omega
    all_goals simp [hnone]
  | @caughtUp last cps hkeys hcatch =>
    have hlast : c.anchors.lastCheckpoint = some last := hcatch.last_eq
    have hlong : 2 * checkpointWidth c.settings ≤ att.continuityProof.len :=
      hst.long_eq.symm.trans_le hcatch.long
    have hcatching := (catchingUp_iff hst hlen).2 hlong
    have hpast := haccepted.lt_headerNumber hst hlinked hlast hlong
    have hspan : (commitWeightState T c att).headerSpan = att.headerNumber - last.blockNumber := by
      simp [commitWeightState, weighedCheckpoint, hlast]
    have hgap : attestedGap c att =
        (c.anchors.lastDigest.map Prod.fst).getD last.blockNumber - last.blockNumber := by
      simp [attestedGap, weighedCheckpoint, hlast]
    have hroots : queuedRoots (storeAttestation T now c.anchors att)
        (storeAttestation T now c.anchors att).checkpointingQueue =
          queuedRoots c.anchors c.anchors.checkpointingQueue := by
      refine congrArg List.sum (List.map_congr_left fun d hd => ?_)
      rw [haccepted.lookup_queue_store hwf.tracked hd]
    have hcharged := hstacked.queuedRoots_le_iff hwf.tracked hlinked hlast
      (commitWeightState T c att).straddle
    have hfits := hstacked.queuedRoots_le hstored
    have hboundaries := div_sub_div_le_iff (n := last.blockNumber) (m := att.headerNumber)
      hst.width_pos (by omega)
    have hcreated : (Creditcoin.caughtUp T c.settings (storeAttestation T now c.anchors att) att
        cps).reachedCheckpoints - c.anchors.reachedCheckpoints =
          att.headerNumber / checkpointWidth c.settings -
            last.blockNumber / checkpointWidth c.settings := by
      rw [caughtUp_eq, Anchors.reachedCheckpoints_condensed, Anchors.reachedCheckpoints_store,
        Nat.add_sub_cancel_left]
      exact hcatch.ladder.length_eq hst.width_pos (by omega)
    have hextra : queuedRoots c.anchors c.anchors.checkpointingQueue ≤
        (commitWeightState T c att).extraRoots (attestedGap c att) ↔
          queuedRoots c.anchors c.anchors.checkpointingQueue ≤
            attestedGap c att + (commitWeightState T c att).straddle := by
      rw [CommitWeightState.extraRoots, if_pos hcatching, satAdd]
      unfold u32Max u64Max at *
      omega
    rw [hroots, hcreated, hextra, hgap, hcharged, CommitWeightState.estimatedCheckpoints,
      if_pos hcatching, hspan, commitWeightState_width hst, hboundaries]
    constructor
    · rintro ⟨hreach, hcell⟩
      refine ⟨fun _ last' hlast' => ?_, fun _ last' hlast' => ?_, fun hshort => ?_⟩
      · rwa [← Option.mem_unique hlast hlast']
      · rwa [← Option.mem_unique hlast hlast']
      · simp [hcatching] at hshort
    · intro hforeseen
      exact ⟨hforeseen.reach hcatching last hlast, hforeseen.boundaries hcatching last hlast⟩
  | @queued m hkeys hnot =>
    obtain ⟨last, hlast⟩ := Option.ne_none_iff_exists'.1 (mt hwf.marked.keys_eq_nil_iff.2 hkeys)
    have hlt := hst.width_lt
    rcases hnot with ⟨hshort, rfl⟩ | ⟨⟨last', hlast', hlong, hnone⟩, -⟩
    · have hcatching : (commitWeightState T c att).catchingUp = false := by
        rw [← Bool.not_eq_true, catchingUp_iff hst hlen]
        have hw := hst.width_pos
        rcases hshort with hshort | hempty
        · rw [hst.long_eq] at hshort
          omega
        · have hzero : att.continuityProof.len = 0 := List.isEmpty_iff_length_eq_zero.1 hempty
          omega
      have hstraddle := straddle_eq hst att
      have hextra : (commitWeightState T c att).extraRoots (attestedGap c att) =
          (commitWeightState T c att).straddle := by
        rw [CommitWeightState.extraRoots, hcatching, if_neg Bool.false_ne_true, hstraddle]
        unfold u32Max
        omega
      have htwo : (queueAttestation T c.settings (storeAttestation T now c.anchors att) att
          (att.digest T.keccak)).1.reachedCheckpoints - c.anchors.reachedCheckpoints ≤ 2 := by
        have hle := reachedCheckpoints_queueAttestation_le T c.settings
          (storeAttestation T now c.anchors att) att
        rw [Anchors.reachedCheckpoints_store] at hle
        omega
      rw [hextra, CommitWeightState.estimatedCheckpoints, hcatching, if_neg Bool.false_ne_true,
        and_iff_left htwo, Nat.zero_add, queueAttestation_hashed]
      have hown : att.continuityProof.len ≤ (commitWeightState T c att).straddle := by
        rw [hstraddle]
        refine le_min ?_ haccepted.len_le_maxRoots
        rw [← Bool.not_eq_true, catchingUp_iff hst hlen] at hcatching
        omega
      refine (haccepted.hashed_le_iff hwf hlinked hstacked hlast hown).trans ?_
      constructor
      · intro htarget
        refine ⟨fun hlong => ?_, fun hlong => ?_, fun _ last' hlast' => ?_⟩
        · simp [hcatching] at hlong
        · simp [hcatching] at hlong
        · rwa [← Option.mem_unique hlast hlast']
      · exact fun hforeseen => hforeseen.target hcatching last hlast
    · -- A proof this long passes a boundary.
      obtain rfl : last' = last := Option.mem_unique hlast' hlast
      rw [hst.long_eq] at hlong
      have hpast := haccepted.lt_headerNumber hst hlinked hlast hlong
      have hle := nextCheckpointBlock_le (checkpointWidth c.settings) last'.blockNumber
      omega

variable (T)

/-- The number of roots of queued proofs that a commit hashes while it makes checkpoints. -/
def State.hashedRoots (s : State H A B) (att : SignedAttestation H A) : ℕ :=
  match doCommitAttestation T (s.isChainSupported att.chainKey) s.blockNumber
    (s.chain T att.chainKey) att with
  | .ok (_, n) => n
  | .error _ => 0

/-- The number of checkpoints that were created for a chain between two states. -/
def State.createdCheckpoints (k : ChainKey) (s s' : State H A B) : ℕ :=
  (s'.chain T k).anchors.reachedCheckpoints - (s.chain T k).anchors.reachedCheckpoints

variable {T}

/-- **The declared weight covers the work** of a commit exactly if, catching up, the last checkpoint
lies no further into its cell of the grid than the attestation and the queued proofs do not start
too far below it, and otherwise the target is among the roots charged for. -/
theorem commit_work_le_iff {s s' : State H A B} {host : Host H A} {o : Origin A}
    (hT : 0 < T.defaultAttestationRetentionDuration ∨ HeightBinding T.keccak)
    (hreach : Reachable T s) (hcommit : dispatch T host s o (.commitAttestation att) = .ok s') :
    (s.hashedRoots T att ≤ (commitWeightState T (s.chain T att.chainKey) att).extraRoots
        (attestedGap (s.chain T att.chainKey) att) ∧
      State.createdCheckpoints T att.chainKey s s' ≤
        (commitWeightState T (s.chain T att.chainKey) att).estimatedCheckpoints) ↔
      (s.chain T att.chainKey).Foreseen T att := by
  simp only [dispatch, asSigned_eq_ok, State.commitAttestation_eq_ok] at hcommit
  obtain ⟨who, -, -, a, n, hcommit, rfl⟩ := hcommit
  obtain ⟨haccepted, hcommits⟩ := doCommitAttestation_cases hcommit
  have hlive : s.Live att.chainKey := .inl haccepted.supported_eq
  rw [State.createdCheckpoints, State.hashedRoots, hcommit, State.setAnchors,
    State.chain_setChain_self]
  exact hcommits.work_le_iff (wellFormed_of_live hreach hlive) (linked_of_live hT hreach hlive)
    (stacked_of_live hT hreach hlive) haccepted

end Work

section Devnet

open Devnet

/-- A development network with a checkpoint at every second block that starts from a checkpoint at
block 1. -/
def offGrid : State Word ℕ Unit := after (genesisConfig 1 2 [checkpoint 1]) []

/-- Catching up with block 7 creates the three checkpoints that were declared. -/
theorem devnet_commit_work_le :
    offGrid.hashedRoots config (nextAttestation offGrid 7) ≤
        (commitWeightState config (offGrid.chain config 1) (nextAttestation offGrid 7)).extraRoots
          (attestedGap (offGrid.chain config 1) (nextAttestation offGrid 7)) ∧
      State.createdCheckpoints config 1 offGrid
          (step config offGrid (commit (nextAttestation offGrid 7))) ≤
        (commitWeightState config (offGrid.chain config 1)
          (nextAttestation offGrid 7)).estimatedCheckpoints := by
  have hcommit : dispatch config host offGrid (.signed 1)
      (.commitAttestation (nextAttestation offGrid 7)) =
        .ok (step config offGrid (commit (nextAttestation offGrid 7))) :=
    dispatch_eq_step (by rfl)
  have hlast : (offGrid.chain config 1).anchors.lastCheckpoint =
      some ⟨1, .root 1, by decide⟩ := by rfl
  have hqueue : (offGrid.chain config 1).anchors.queuedAttestations
      (offGrid.chain config 1).anchors.checkpointingQueue = [] := by rfl
  have hcatching : (commitWeightState config (offGrid.chain config 1)
      (nextAttestation offGrid 7)).catchingUp = true := by rfl
  have hcell : 1 % checkpointWidth (offGrid.chain config 1).settings ≤
      (nextAttestation offGrid 7).headerNumber %
        checkpointWidth (offGrid.chain config 1).settings := by rfl
  have hforeseen : (offGrid.chain config 1).Foreseen config (nextAttestation offGrid 7) := by
    refine ⟨fun _ last hmem => ?_, fun _ last _ front hfront => ?_, fun hshort => ?_⟩
    · rw [hlast] at hmem
      rwa [← Option.mem_some_iff.1 hmem]
    · simp [hqueue] at hfront
    · simp [hcatching] at hshort
  exact (commit_work_le_iff (.inl (by decide)) (reachable_after (by rfl) [])
    hcommit).2 hforeseen

/-- Catching up with block 6 from a checkpoint at block 1 creates three checkpoints, of which two
were declared. -/
theorem exists_createdCheckpoints_gt :
    Reachable config offGrid ∧
      dispatch config host offGrid (.signed 1) (.commitAttestation (nextAttestation offGrid 6)) =
        .ok (step config offGrid (commit (nextAttestation offGrid 6))) ∧
      (commitWeightState config (offGrid.chain config 1)
          (nextAttestation offGrid 6)).estimatedCheckpoints <
        State.createdCheckpoints config 1 offGrid
          (step config offGrid (commit (nextAttestation offGrid 6))) :=
  ⟨reachable_after (by rfl) [], dispatch_eq_step (by rfl), by decide +kernel⟩

end Devnet

end Creditcoin
