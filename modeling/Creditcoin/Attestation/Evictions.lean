import Creditcoin.Attestation.CommitWork
import Creditcoin.Attestation.Coverage
import Creditcoin.Attestation.Retention

/-!
# What a commit deletes

A commit that makes checkpoints deletes the oldest of the condensed attestations, and no event says
which. Each one lies at or below the new checkpoints (`commit_evicts`): the two queues list
attestations that start one above the other (`Anchors.InOrder`), and a new checkpoint lies in a
block of a queued attestation, above the removal queue. -/

namespace Creditcoin

variable {H A B : Type} [DecidableEq H]

/-! ## The order of the queues -/

/-- The attestations of both queues start one above the other, up to the last attested height. -/
structure Anchors.InOrder (a : Anchors H A) : Prop where
  sorted : a.Sorted a.retained
  top : ∀ d ∈ a.retained, ∀ q, a.attestations.lookup d = some q →
    ∃ last ∈ a.lastDigest, q.headerNumber ≤ last.1

section InOrder

variable {T : Config H A B} {a a' : Anchors H A}

theorem Anchors.inOrder_of_nil (h : a.retained = []) : a.InOrder := by
  constructor
  · rw [h]
    exact List.Pairwise.nil
  · simp [h]

theorem Anchors.InOrder.of_le (h : a.InOrder) (hretained : a'.retained = a.retained)
    (hdigest : a'.lastDigest = a.lastDigest)
    (hle : ∀ d q, a'.attestations.lookup d = some q → a.attestations.lookup d = some q) :
    a'.InOrder := by
  constructor
  · rw [hretained]
    exact h.sorted.imp fun hlt q q' hq hq' => hlt q q' (hle _ q hq) (hle _ q' hq')
  · rw [hretained, hdigest]
    exact fun d hd q hq => h.top d hd q (hle d q hq)

variable [DecidableEq A] {c : Chain H A} {supported : Bool} {now n : ℕ}
  {att : SignedAttestation H A}

theorem Anchors.InOrder.commit (hret : 1 ≤ c.settings.attestationRetentionDuration)
    (hwf : c.WellFormed T) (hlinked : c.anchors.Linked)
    (hretained : c.anchors.Retained c.settings.attestationRetentionDuration)
    (h : c.anchors.InOrder)
    (hcommit : doCommitAttestation T supported now c att = .ok (a', n)) : a'.InOrder := by
  obtain ⟨haccepted, hcommits⟩ := doCommitAttestation_cases hcommit
  have hstore := storeAttestation_eq (T := T) now haccepted.above_digest
  obtain ⟨hqueues, hstart⟩ := hretained.store hwf.marked haccepted
  obtain ⟨cps, popped, kept, k, rfl, -, hcond⟩ := hcommits.condenses hret hstart
  have hsorted := h.sorted.store (fun _ hd => hd) h.top hwf.tracked hlinked haccepted
  constructor
  · rw [hcond.retained_eq, hqueues]
    refine (hsorted.sublist (List.drop_sublist _ _)).imp ?_
    exact fun hlt q q' hq hq' => hlt q q' (lookup_of_condensed hq) (lookup_of_condensed hq')
  · intro d hd q hq
    have hq' := lookup_of_condensed hq
    refine ⟨(att.headerNumber, att.digest T.keccak), by rw [hstore]; rfl, ?_⟩
    rw [hcond.retained_eq, hqueues] at hd
    rcases List.mem_append.1 (List.mem_of_mem_drop hd) with hold | hnew
    · have hlt :=
        (List.pairwise_append.1 hsorted).2.2 d hold _ (List.mem_singleton_self _) q att hq'
        (by rw [lookup_storeAttestation, if_pos rfl])
      have hfirst : att.firstBlock ≤ att.headerNumber := Nat.sub_le _ _
      omega
    · rw [lookup_storeAttestation, if_pos (List.mem_singleton.1 hnew)] at hq'
      obtain rfl := Option.some.inj hq'
      exact le_rfl

theorem AnchorStep.inOrder {st : Settings} {r : Roster A}
    (hret : 1 ≤ st.attestationRetentionDuration) (hwf : (⟨a, r, st⟩ : Chain H A).WellFormed T)
    (hlinked : a.Linked) (hretained : a.Retained st.attestationRetentionDuration) (h : a.InOrder)
    (hstep : AnchorStep T supported st r a a') : a'.InOrder := by
  cases hstep.effect with
  | committed now att hcommit =>
    exact Anchors.InOrder.commit (c := ⟨a, r, st⟩) hret hwf hlinked hretained h hcommit
  | imported _ => exact h.of_le rfl rfl fun _ _ hq => hq
  | reverted _ _ _ _ | patched _ _ _ => exact Anchors.inOrder_of_nil rfl
  | swept hsweep =>
    rcases hsweep.attestations_cases with ⟨kill, hcursor, rfl⟩ | ⟨_, _, _, _, _, _, rfl⟩
    · obtain ⟨hremoval, hqueue⟩ := hwf.tracked.sweeping hcursor
      exact Anchors.inOrder_of_nil (List.append_eq_nil_iff.2 ⟨hremoval, hqueue⟩)
    · exact h.of_le rfl rfl fun _ _ hq => hq

theorem inOrder_of_live {s : State H A B} {k : ChainKey}
    (hret : 1 ≤ T.defaultAttestationRetentionDuration) (hreach : Reachable T s)
    (hlive : s.Live k) : (s.chain T k).anchors.InOrder := by
  refine (live_invariant (P := fun c => c.WellFormed T ∧ c.anchors.Linked ∧
    c.anchors.Retained T.defaultAttestationRetentionDuration ∧ c.anchors.InOrder) hreach hlive
    (fun gc s₀ h => ⟨genesis_wellFormed h, genesis_linked h, (genesis_untouched h).retained, ?_⟩)
    ?_).2.2.2
  · have huntouched := genesis_untouched (k := k) h
    exact Anchors.inOrder_of_nil (List.append_eq_nil_iff.2
      ⟨huntouched.removal_eq, huntouched.queue_eq⟩)
  · rintro supported c c' ⟨hwf, hlinked, hretained, horder⟩ hstep
    refine ⟨hstep.wellFormed hwf, ?_⟩
    cases hstep with
    | anchors h =>
      have hlinked' := h.linked (.inl hret) hwf.bounded hwf.tracked hlinked
      rw [← hwf.bounded.retention_eq] at hret hretained ⊢
      exact ⟨hlinked', h.retained hret hwf.marked hwf.tracked hretained,
        h.inOrder hret hwf hlinked hretained horder⟩
    | roster _ | settings _ => exact ⟨hlinked, hretained, horder⟩

end InOrder

/-! ## The attestations that are deleted -/

/-- The queue with the new digest `d` is cut in two, and of the condensed digests all but the
retention are deleted, if any. Every attestation condensed now but the new one lies at or below a
new checkpoint. -/
structure Evicts (st : Settings) (a : Anchors H A) (d : H) (cps : List (AttestationCheckpoint H))
    (popped kept : List H) (k : ℕ) : Prop where
  order : popped ++ kept = a.checkpointingQueue ++ [d]
  bound : k = 0 ∨
    k + st.attestationRetentionDuration ≤ (a.attestationRemovalQueue ++ popped).length
  made : k ≠ 0 → cps ≠ []
  covered : ∀ e ∈ popped, e ≠ d → ∀ q, a.attestations.lookup e = some q →
    ∃ c ∈ cps, q.headerNumber ≤ c.blockNumber

section Evicts

variable {T : Config H A B} {st : Settings} {a a' : Anchors H A} {att : SignedAttestation H A}

omit [DecidableEq H] in
theorem dropCount_bound (st : Settings) (queue : List H) :
    dropCount st queue = 0 ∨
      dropCount st queue + st.attestationRetentionDuration ≤ queue.length := by
  unfold dropCount
  omega

theorem CondensesTo.le_target {target : ℕ} {popped kept : List H} {digest : H} {n : ℕ}
    (h : CondensesTo T a target popped kept digest n) {e : H} (he : e ∈ popped)
    {q : SignedAttestation H A} (hq : a.attestations.lookup e = some q) :
    q.headerNumber ≤ target := by
  have hbelow : ∀ {e : H}, Below a target e → a.attestations.lookup e = some q →
      q.headerNumber ≤ target := by
    rintro e ⟨q', hq', hlt⟩ hq
    rw [Option.mem_unique hq hq']
    exact hlt.le
  cases h with
  | exact hbefore hd hheader =>
    rcases List.mem_append.1 he with hmem | hmem
    · exact hbelow (hbefore e hmem) hq
    · rw [List.mem_singleton.1 hmem] at hq
      rw [Option.mem_unique hq hd]
      exact hheader.le
  | inside hbefore _ _ _ => exact hbelow (hbefore e he) hq

theorem CatchesUp.firstBlock_lt (hst : st.Bounded T)
    (hlen : att.continuityProof.len ≤ att.headerNumber) {last : AttestationCheckpoint H}
    {cps : List (AttestationCheckpoint H)} (h : CatchesUp T st a att last cps) :
    ∃ c ∈ cps, att.firstBlock < c.blockNumber := by
  obtain ⟨top, htop⟩ := Option.ne_none_iff_exists'.1 (mt List.getLast?_eq_none_iff.1 h.ne_nil)
  obtain ⟨-, -, -, hnear⟩ := h.ladder.getLast? h.width_pos htop
  have hlong := h.long
  have hw := h.width_pos
  have hadd := SignedAttestation.firstBlock_add_len hlen
  rw [hst.long_eq] at hlong
  exact ⟨top, List.mem_of_getLast? htop, by omega⟩

variable (hsorted : a.Sorted (a.checkpointingQueue ++ [att.digest T.keccak]))
  (hhead : a.attestations.lookup (att.digest T.keccak) = some att)

include hsorted hhead

theorem Anchors.Sorted.lt_firstBlock {e : H}
    (he : e ∈ a.checkpointingQueue ++ [att.digest T.keccak]) (hne : e ≠ att.digest T.keccak)
    {q : SignedAttestation H A} (hq : a.attestations.lookup e = some q) :
    q.headerNumber < att.firstBlock := by
  have hmem : e ∈ a.checkpointingQueue := by simpa [hne] using he
  exact (List.pairwise_append.1 hsorted).2.2 e hmem _ (by simp) q att hq hhead

theorem queueAttestation_evicts :
    ∃ cps popped kept k,
      (queueAttestation T st a att (att.digest T.keccak)).1 = a.condensed cps popped kept k ∧
        Evicts st a (att.digest T.keccak) cps popped kept k := by
  -- A checkpoint at the attestation is above everything that was queued.
  have htop : ∀ e ∈ a.checkpointingQueue ++ [att.digest T.keccak], e ≠ att.digest T.keccak →
      ∀ q, a.attestations.lookup e = some q → q.headerNumber ≤ att.headerNumber := by
    intro e he hne q hq
    have hlt := hsorted.lt_firstBlock hhead he hne hq
    have hfirst : att.firstBlock ≤ att.headerNumber := Nat.sub_le _ _
    omega
  rcases queueAttestation_condensed T st a att with
    heq | heq | ⟨last, c, popped, hmakes, heq | heq⟩
  · refine ⟨_, _, _, _, heq, List.append_nil _, dropCount_bound _ _,
      fun _ => List.cons_ne_nil _ _, ?_⟩
    exact fun e he hne q hq => ⟨_, List.mem_singleton_self _, htop e he hne q hq⟩
  · refine ⟨_, _, _, _, heq, List.nil_append _, .inl rfl, fun h => absurd rfl h, ?_⟩
    exact fun e he => absurd he (List.not_mem_nil)
  · refine ⟨_, _, _, _, heq, ?_, ?_, fun _ => List.cons_ne_nil _ _, fun e he hne q hq => ?_⟩
    · rw [List.append_nil, ← hmakes.queue_eq]
    · simp only [hmakes.anchors_condensed, dropCount, Anchors.condensed, List.length_append,
        List.length_drop]
      omega
    · rw [← hmakes.queue_eq] at he
      exact ⟨⟨att.headerNumber, att.digest T.keccak, att.headerNumber_lt⟩, by simp,
        htop e he hne q hq⟩
  · refine ⟨_, _, _, _, heq, hmakes.queue_eq.symm, dropCount_bound _ _,
      fun _ => List.cons_ne_nil _ _, fun e he hne q hq => ?_⟩
    exact ⟨_, List.mem_singleton_self _, hmakes.condenses.le_target he hq⟩

theorem Commits.evicts (hst : st.Bounded T) (hlen : att.continuityProof.len ≤ att.headerNumber)
    (hstart : a.checkpoints.keys = [] → a.retained = []) {n : ℕ} (h : Commits T st a att a' n) :
    ∃ cps popped kept k, a' = a.condensed cps popped kept k ∧
      Evicts st a (att.digest T.keccak) cps popped kept k := by
  cases h with
  | first hkeys hgenesis =>
    obtain ⟨-, hqueue⟩ := List.append_eq_nil_iff.1 (hstart hkeys)
    refine ⟨[⟨att.headerNumber, att.digest T.keccak, att.headerNumber_lt⟩], [att.digest T.keccak],
      a.checkpointingQueue, 0, rfl, ?_, .inl rfl, fun h => absurd rfl h, fun e he hne => ?_⟩
    · rw [hqueue]
      rfl
    · exact absurd (List.mem_singleton.1 he) hne
  | @caughtUp last cps hkeys hcatch =>
    refine ⟨_, _, _, _, caughtUp_eq a T st att cps, List.append_nil _, dropCount_bound _ _,
      fun _ => hcatch.ne_nil, fun e he hne q hq => ?_⟩
    obtain ⟨c, hc, hlt⟩ := hcatch.firstBlock_lt hst hlen
    exact ⟨c, hc, ((hsorted.lt_firstBlock hhead he hne hq).trans hlt).le⟩
  | queued hkeys hnot => exact queueAttestation_evicts hsorted hhead

omit hsorted hhead

theorem Evicts.mem_retained {d e : H} {cps : List (AttestationCheckpoint H)}
    {popped kept : List H} {k : ℕ} (h : Evicts st a d cps popped kept k)
    (hret : 1 ≤ st.attestationRetentionDuration)
    (he : e ∈ (a.attestationRemovalQueue ++ popped).take k) : e ∈ a.retained := by
  have hall : (a.attestationRemovalQueue ++ popped) ++ kept = a.retained ++ [d] := by
    rw [List.append_assoc, h.order, Anchors.retained, List.append_assoc]
  have hlength := congrArg List.length hall
  simp only [List.length_append, List.length_singleton] at hlength
  have hbound := h.bound
  rw [List.length_append] at hbound
  have htake : (a.attestationRemovalQueue ++ popped).take k = a.retained.take k := by
    rw [← List.take_append_of_le_length (by rw [List.length_append]; omega), hall,
      List.take_append_of_le_length (by omega)]
  rw [htake] at he
  exact List.mem_of_mem_take he

theorem Evicts.le_checkpoint {d e : H} {cps : List (AttestationCheckpoint H)}
    {popped kept : List H} {k : ℕ} (h : Evicts st a d cps popped kept k)
    (hret : 1 ≤ st.attestationRetentionDuration) (hfresh : d ∉ a.retained)
    (hproofs : a.ProofsBounded) (horder : a.Sorted (a.retained ++ [d]))
    (hattested : ∀ c ∈ cps, ∃ q, a.Queued (a.checkpointingQueue ++ [d]) q ∧
      q.Attests T.keccak c.blockNumber c.digest)
    (he : e ∈ (a.attestationRemovalQueue ++ popped).take k) {q : SignedAttestation H A}
    (hq : a.attestations.lookup e = some q) : ∃ c ∈ cps, q.headerNumber ≤ c.blockNumber := by
  have hretained := h.mem_retained hret he
  rcases List.mem_append.1 (List.mem_of_mem_take he) with hremoval | hpopped
  · have hk : k ≠ 0 := by
      rintro rfl
      cases he
    obtain ⟨c, hc⟩ := List.exists_mem_of_ne_nil _ (h.made hk)
    obtain ⟨q', ⟨d', hd', hq'⟩, hattests⟩ := hattested c hc
    rw [Anchors.retained, List.append_assoc] at horder
    have hlt := (List.pairwise_append.1 horder).2.2 e hremoval d' hd' q q' hq hq'
    have hfirst : q'.firstBlock ≤ c.blockNumber := (hattests.covers (hproofs d' q' hq').2).1
    exact ⟨c, hc, by omega⟩
  · refine h.covered e hpopped ?_ q hq
    rintro rfl
    exact hfresh hretained

end Evicts

/-! ## What a commit tells of it -/

/-- What the events of a commit tell: the new checkpoints, and in them what was deleted. -/
structure Announces (T : Config H A B) (a a' : Anchors H A) (att : SignedAttestation H A)
    (cps : List (AttestationCheckpoint H)) : Prop where
  events_eq : a'.events = a.events ++
    ([.blockAttested att.headerNumber (att.digest T.keccak)] ++ cps.map .checkpointReached)
  checkpoints_eq : a'.checkpoints = insertCheckpoints a.checkpoints cps
  pruning_eq : a'.checkpointPruningState = none
  cursor_eq : a'.attestationClearingCursor = none
  stored : a'.attestations.lookup (att.digest T.keccak) = some att
  kept : ∀ d q, a.attestations.lookup d = some q → a'.attestations.lookup d = some q ∨
    (q.headerNumber < att.headerNumber ∧ ∃ c ∈ cps, q.headerNumber ≤ c.blockNumber)

/-- **What a commit deletes** lies at or below the checkpoints that it announces. -/
theorem commit_evicts [DecidableEq A] {T : Config H A B} {c : Chain H A} {supported : Bool}
    {now n : ℕ} {att : SignedAttestation H A} {a' : Anchors H A}
    (hret : 1 ≤ c.settings.attestationRetentionDuration) (hwf : c.WellFormed T)
    (hlinked : c.anchors.Linked)
    (hretained : c.anchors.Retained c.settings.attestationRetentionDuration)
    (horder : c.anchors.InOrder)
    (hcommit : doCommitAttestation T supported now c att = .ok (a', n)) :
    ∃ cps, Announces T c.anchors a' att cps := by
  obtain ⟨haccepted, hcommits⟩ := doCommitAttestation_cases hcommit
  have hstore := storeAttestation_eq (T := T) now haccepted.above_digest
  obtain ⟨hqueues, hstart⟩ := hretained.store hwf.marked haccepted
  have hproofs := haccepted.proofsBounded_store hwf.tracked.proofsBounded
  have hhead : (storeAttestation T now c.anchors att).attestations.lookup (att.digest T.keccak) =
      some att := by rw [lookup_storeAttestation, if_pos rfl]
  have hsorted := horder.sorted.store (fun _ hd => hd) horder.top hwf.tracked hlinked haccepted
  rw [← hqueues] at hsorted
  have hfresh : att.digest T.keccak ∉ (storeAttestation T now c.anchors att).retained := by
    rw [hqueues]
    exact hwf.tracked.notMem haccepted.fresh
  obtain ⟨cps, popped, kept, k, rfl, hevicts⟩ := hcommits.evicts
    (hsorted.sublist ((List.suffix_append _ _).sublist.append_right _)) hhead hwf.bounded
    haccepted.len_bounded.2 hstart
  -- The events name the checkpoints, so they are those of the effect.
  obtain ⟨-, cps', popped', kept', k', heq, heffect⟩ :=
    doCommitAttestation_effect hwf.bounded hwf.tracked.proofsBounded hcommit
  have hcps : cps' = cps := by
    have hevents := List.append_cancel_left (congrArg Anchors.events heq)
    exact (List.map_injective_iff.2 (fun _ _ h => AnchorEvent.checkpointReached.inj h) hevents).symm
  subst hcps
  have hevicted := fun {e : H} => hevicts.le_checkpoint (e := e) hret hfresh hproofs hsorted
    heffect.attested
  have hlookup := fun d => StorageMap.lookup_eraseAll
    (storeAttestation T now c.anchors att).attestations
    (((storeAttestation T now c.anchors att).attestationRemovalQueue ++ popped).take k) d
  refine ⟨cps', ?_, ?_, ?_, ?_, ?_, fun d q hq => ?_⟩
  · rw [← List.append_assoc, hstore]
    rfl
  · rw [hstore]
    rfl
  · rw [hstore]
    exact haccepted.pruning_eq
  · rw [hstore]
    exact haccepted.cursor_eq
  · refine (hlookup _).trans ((if_neg fun hmem => ?_).trans hhead)
    exact hfresh (hevicts.mem_retained hret hmem)
  · have hq' := haccepted.lookup_store hq
    by_cases hmem : d ∈
        ((storeAttestation T now c.anchors att).attestationRemovalQueue ++ popped).take k
    · refine .inr ⟨?_, hevicted hmem hq'⟩
      have hlt := (List.pairwise_append.1 hsorted).2.2 d (hevicts.mem_retained hret hmem) _
        (List.mem_singleton_self _) q att hq' hhead
      have hfirst : att.firstBlock ≤ att.headerNumber := Nat.sub_le _ _
      omega
    · exact .inl ((hlookup d).trans ((if_neg hmem).trans hq'))

end Creditcoin
