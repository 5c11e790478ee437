import Creditcoin.Attestation.Digests
import Creditcoin.Attestation.ValidateErrors

/-!
# Which blocks the queue covers

The queued attestations cover consecutive ranges of blocks, from a height `p` up to the head of the
chain (`Spans`). As long as the coverage begins below the boundary at which a checkpoint is due, its
block is found in the queue. A commit that catches up empties the queue; a smaller width may then
place the next boundary among the blocks no longer covered. -/

namespace Creditcoin

open Relation (ReflTransGen)

variable {H A B : Type} [DecidableEq H]

/-! ## Consecutive attestations -/

/-- The attestations of the queue cover the heights above `p` up to `h`, one after the other. -/
def Anchors.Spans (a : Anchors H A) : ℕ → List H → ℕ → Prop
  | p, [], h => p = h
  | p, d :: queue, h => ∃ q, a.attestations.lookup d = some q ∧
      q.headerNumber = p + q.continuityProof.len + 1 ∧ Spans a q.headerNumber queue h

section Spans

variable {T : Config H A B} {a a' : Anchors H A} {p h m y : ℕ} {queue l₁ l₂ : List H} {d : H}

theorem Anchors.Spans.le (hspans : a.Spans p queue h) : p ≤ h := by
  induction queue generalizing p with
  | nil => exact le_of_eq hspans
  | cons d queue ih =>
    obtain ⟨q, -, hq, hrest⟩ := hspans
    have := ih hrest
    omega

theorem Anchors.spans_append :
    a.Spans p (l₁ ++ l₂) h ↔ ∃ m, a.Spans p l₁ m ∧ a.Spans m l₂ h := by
  induction l₁ generalizing p with
  | nil => simp [Anchors.Spans]
  | cons d l₁ ih =>
    simp only [List.cons_append, Anchors.Spans, ih]
    constructor
    · rintro ⟨q, hd, hq, m, hm, hrest⟩
      exact ⟨m, ⟨q, hd, hq, hm⟩, hrest⟩
    · rintro ⟨m, ⟨q, hd, hq, hm⟩, hrest⟩
      exact ⟨q, hd, hq, m, hm, hrest⟩

theorem Anchors.Spans.unique {m' : ℕ} (hspans : a.Spans p queue m) (hspans' : a.Spans p queue m') :
    m = m' := by
  induction queue generalizing p with
  | nil => exact (hspans : p = m).symm.trans hspans'
  | cons d queue ih =>
    obtain ⟨q, hd, -, hrest⟩ := hspans
    obtain ⟨q', hd', -, hrest'⟩ := hspans'
    obtain rfl := Option.mem_unique hd hd'
    exact ih hrest hrest'

theorem Anchors.Spans.congr
    (heq : ∀ d ∈ queue, ∀ q, a.attestations.lookup d = some q → a'.attestations.lookup d = some q)
    (hspans : a.Spans p queue h) : a'.Spans p queue h := by
  induction queue generalizing p with
  | nil => exact hspans
  | cons d queue ih =>
    obtain ⟨q, hd, hq, hrest⟩ := hspans
    exact ⟨q, heq d List.mem_cons_self q hd, hq,
      ih (fun d' hd' => heq d' (List.mem_cons_of_mem _ hd')) hrest⟩

theorem Anchors.Spans.covers (hspans : a.Spans p queue h) (hlt : p < y) (hle : y ≤ h) :
    ∃ q, a.Queued queue q ∧ q.Covers y := by
  induction queue generalizing p with
  | nil =>
    have : p = h := hspans
    omega
  | cons d queue ih =>
    obtain ⟨q, hd, hq, hrest⟩ := hspans
    rcases Nat.lt_or_ge q.headerNumber y with hbelow | habove
    · obtain ⟨q', ⟨d', hd', hq'⟩, hcov⟩ := ih hrest hbelow
      exact ⟨q', ⟨d', List.mem_cons_of_mem _ hd', hq'⟩, hcov⟩
    · refine ⟨q, ⟨d, List.mem_cons_self, hd⟩, ?_, habove⟩
      unfold ContinuityProof.startBlockNumber
      unfold ContinuityProof.len at hq
      omega

theorem Anchors.Spans.header_bounds (hspans : a.Spans p queue h) {q : SignedAttestation H A}
    (hq : a.Queued queue q) : p < q.headerNumber ∧ q.headerNumber ≤ h := by
  induction queue generalizing p with
  | nil =>
    obtain ⟨d, hd, -⟩ := hq
    simp at hd
  | cons d queue ih =>
    obtain ⟨q₁, hd₁, hq₁, hrest⟩ := hspans
    obtain ⟨d', hd', hlookup⟩ := hq
    rcases List.mem_cons.1 hd' with rfl | hmem
    · obtain rfl := Option.mem_unique hd₁ hlookup
      exact ⟨by omega, hrest.le⟩
    · have := ih hrest ⟨d', hmem, hlookup⟩
      omega

theorem Anchors.Spans.condense_found (hproofs : a.ProofsBounded) (hspans : a.Spans p queue h)
    {target : ℕ} (hlt : p < target) (hle : target ≤ h) (removal rollback : List H) :
    ∃ c, (condense T a target queue removal rollback).outcome = .ok c := by
  induction queue generalizing p removal rollback with
  | nil =>
    have : p = h := hspans
    omega
  | cons d queue ih =>
    obtain ⟨q, hd, hq, hrest⟩ := hspans
    by_cases hbelow : q.headerNumber < target
    · obtain ⟨c, hc⟩ := ih hrest hbelow (removal ++ [d]) (rollback ++ [d])
      exact ⟨c, by simpa only [condense, hd, dif_pos hbelow] using hc⟩
    · by_cases hexact : q.headerNumber = target
      · simp only [condense, hd, dif_neg hbelow, if_pos hexact, Except.ok.injEq, exists_eq']
      · -- The target lies in the proof of the attestation that passes it.
        obtain ⟨hlen, hlenle⟩ := hproofs d q hd
        have hstart : q.continuityProof.startBlockNumber q.headerNumber = p + 1 := by
          unfold ContinuityProof.startBlockNumber
          unfold ContinuityProof.len at hq
          omega
        obtain ⟨e, hatt⟩ : ∃ e, q.Attests T.keccak target e :=
          SignedAttestation.Covers.attests T.keccak ⟨by omega, by omega⟩
        have hmem := hatt.resolve_left fun heq => hexact heq.1.symm
        have hdigest := (digestForBlock_eq_some hlen (by omega)).2 hmem
        simp only [condense, hd, dif_neg hbelow, if_neg hexact, hdigest, Except.ok.injEq,
          exists_eq']

/-- `try_make_checkpoint` does not fail where the span reaches from below the next boundary to the
header. -/
theorem Anchors.Spans.tryMakeCheckpoint_ok {st : Settings} (hst : st.Bounded T)
    (hproofs : a.ProofsBounded) {cp : AttestationCheckpoint H} (hcp : a.lastCheckpoint = some cp)
    {header : ℕ} (hheader : header < 2 ^ 64) (hspans : a.Spans p queue header)
    (hp : p < nextBoundary (checkpointWidth st) cp.blockNumber) :
    (tryMakeCheckpoint T st a queue header).outcome = .ok () := by
  unfold tryMakeCheckpoint
  rw [hcp]
  dsimp only
  split
  · next hzero => exact absurd hzero hst.width_pos.ne'
  · split
    · rfl
    · next hdue =>
      obtain ⟨hnext, -, hlt⟩ := hst.due_bounds hheader (not_lt.1 hdue)
      obtain ⟨c, hc⟩ := hspans.condense_found (T := T) hproofs (hnext ▸ hp)
        (by rw [hnext]; omega) a.attestationRemovalQueue []
      rw [hc]

end Spans

/-! ## Making a checkpoint from the queue -/

/-- What `try_make_checkpoint` does to a queue that spans the heights above `p`, for a width `w` and
the last checkpoint at `L`: it waits, or moves the last checkpoint to `L'` and the start of the
coverage to `p'`. -/
inductive MakeStage (a : Anchors H A) (w L p : ℕ) (queue : List H) (header : ℕ) :
    ℕ → ℕ → List H → Prop
  | waits (h : header ≤ L + 2 * w) : MakeStage a w L p queue header L p queue
  | condenses {popped kept : List H} {p' : ℕ} (h : L + 2 * w < header)
      (hsplit : queue = popped ++ kept) (hpopped : a.Spans p popped p')
      (hp : p' ≤ nextBoundary w L)
      (habove : ∀ q, a.Queued kept q → nextBoundary w L < q.headerNumber) :
      MakeStage a w L p queue header (nextBoundary w L) p' kept

variable {kept queue : List H} {a : Anchors H A}

theorem MakeStage.above {w L p header L' p' : ℕ} (h : MakeStage a w L p queue header L' p' kept)
    (habove : ∀ q, a.Queued queue q → L < q.headerNumber) :
    ∀ q, a.Queued kept q → L' < q.headerNumber := by
  cases h with
  | waits _ => exact habove
  | condenses _ _ _ _ h => exact h

theorem MakeStage.le {w L p header L' p' : ℕ} (h : MakeStage a w L p queue header L' p' kept)
    (hle : L ≤ header) : L' ≤ header := by
  cases h with
  | waits _ => exact hle
  | condenses hdue _ _ _ _ =>
    have := nextBoundary_le w L
    omega

section Made

variable {T : Config H A B} {st : Settings} {a : Anchors H A} {p : ℕ} {queue : List H}
  {header : ℕ} {cp : AttestationCheckpoint H}

theorem Anchors.Spans.lt_of_below {m target : ℕ} (hspans : a.Spans p queue m) (hp : p < target)
    (hbelow : ∀ d ∈ queue, Below a target d) : m < target := by
  induction queue generalizing p with
  | nil => exact hspans ▸ hp
  | cons d queue ih =>
    obtain ⟨q, hd, -, hrest⟩ := hspans
    obtain ⟨q', hd', hlt⟩ := hbelow d List.mem_cons_self
    obtain rfl := Option.mem_unique hd hd'
    exact ih hrest hlt fun d' hmem => hbelow d' (List.mem_cons_of_mem _ hmem)

/-- Where the queue is split, the coverage of what is kept starts not above the target, and every
header kept lies above it. -/
theorem CondensesTo.spans {popped kept : List H} {target n : ℕ} {digest : H}
    (h : CondensesTo T a target popped kept digest n) (hp : p < target)
    (hspans : a.Spans p (popped ++ kept) header) :
    ∃ p', a.Spans p popped p' ∧ a.Spans p' kept header ∧ p' ≤ target ∧
      ∀ q, a.Queued kept q → target < q.headerNumber := by
  obtain ⟨p', hpopped, hkept⟩ := Anchors.spans_append.1 hspans
  refine ⟨p', hpopped, hkept, ?_⟩
  rcases h.inv with ⟨before, d, q, rfl, -, hd, hheader, -⟩ | ⟨d, rest, q, rfl, hbelow, hd, hlt, -⟩
  · obtain ⟨m, -, q', hd', -, hp'⟩ := Anchors.spans_append.1 hpopped
    obtain rfl := Option.mem_unique hd hd'
    have hp' : q.headerNumber = p' := hp'
    refine ⟨by omega, fun q' hq' => ?_⟩
    have := (hkept.header_bounds hq').1
    omega
  · refine ⟨(hpopped.lt_of_below hp hbelow).le, fun q' hq' => ?_⟩
    obtain ⟨d', hd', hlookup⟩ := hq'
    obtain ⟨q₁, hd₁, -, hrest⟩ := hkept
    obtain rfl := Option.mem_unique hd hd₁
    rcases List.mem_cons.1 hd' with rfl | hmem
    · exact Option.mem_unique hd hlookup ▸ hlt
    · exact hlt.trans (hrest.header_bounds ⟨d', hmem, hlookup⟩).1

theorem tryMakeCheckpoint_stage (hst : st.Bounded T) (hproofs : a.ProofsBounded)
    (hcp : a.lastCheckpoint = some cp) (hheader : header < 2 ^ 64)
    (hspans : a.Spans p queue header)
    (hp : p < nextBoundary (checkpointWidth st) cp.blockNumber) :
    ∃ L p', MakeStage a (checkpointWidth st) cp.blockNumber p queue header L p'
        (tryMakeCheckpoint T st a queue header).queue ∧
      a.Spans p' (tryMakeCheckpoint T st a queue header).queue header ∧
      (tryMakeCheckpoint T st a queue header).anchors.lastCheckpoint.map (·.blockNumber) =
        some L := by
  rcases tryMakeCheckpoint_cases T st a queue header with
    ⟨hanchors, hqueue, -, hdue⟩ | ⟨last, c, popped, hmakes⟩
  · have hshort := hdue (hspans.tryMakeCheckpoint_ok hst hproofs hcp hheader hp) cp hcp
    rw [hst.due_eq] at hshort
    rw [hanchors, hqueue, hcp]
    exact ⟨_, _, .waits (by omega), hspans, rfl⟩
  · obtain rfl := Option.mem_unique hcp hmakes.last_eq
    obtain ⟨hnext, hgt, -⟩ := hst.due_bounds hheader hmakes.due
    have hblock : c.blockNumber = nextBoundary (checkpointWidth st) cp.blockNumber :=
      hmakes.block_eq.trans hnext
    have hdue := hmakes.due
    rw [hst.due_eq] at hdue
    obtain ⟨p', hpopped, hkept, hle, habove⟩ := hmakes.condenses.spans (hblock ▸ hp)
      (hmakes.queue_eq ▸ hspans)
    rw [hblock] at hle habove
    refine ⟨_, p', .condenses (by omega) hmakes.queue_eq hpopped hle habove, hkept, ?_⟩
    rw [hmakes.anchors_condensed, ← hblock]
    rfl

end Made

/-! ## Commits on a started chain -/

/-- The chain has been started: it has a last checkpoint `cp` and a head `h`, and the queue covers
the heights above `p` up to the head. -/
structure Chain.Started (c : Chain H A) (cp : AttestationCheckpoint H) (h p : ℕ) : Prop where
  last_eq : c.anchors.lastCheckpoint = some cp
  head_eq : ∃ d, c.anchors.lastDigest = some (h, d)
  le_head : cp.blockNumber ≤ h
  genesis_le : c.settings.attestationChainGenesisBlockNumber ≤ h
  spans : c.anchors.Spans p c.anchors.checkpointingQueue h
  above : ∀ q, c.anchors.Queued c.anchors.checkpointingQueue q → cp.blockNumber < q.headerNumber

/-- How a commit moves the last checkpoint, the start of the coverage and the queue of a started
chain. `a` is the storage with the attestation, `queue` the queue with it. -/
inductive Progress (T : Config H A B) (a : Anchors H A) (w L p : ℕ) (queue : List H)
    (att : SignedAttestation H A) : ℕ → ℕ → List H → Prop
  | queued {L' p' : ℕ} {kept : List H}
      (hshort : att.continuityProof.len < 2 * w)
      (hstage : MakeStage a w L p queue att.headerNumber L' p' kept)
      (hlen : kept.length ≤ T.maxCheckpointingQueueLen) : Progress T a w L p queue att L' p' kept
  | full {L' p' : ℕ} {kept : List H} (hshort : att.continuityProof.len < 2 * w)
      (hstage : MakeStage a w L p queue att.headerNumber L' p' kept)
      (hspans : a.Spans p' kept att.headerNumber)
      (hlen : T.maxCheckpointingQueueLen < kept.length) :
      Progress T a w L p queue att att.headerNumber att.headerNumber []
  | caughtUp {L' : ℕ} (hlong : 2 * w ≤ att.continuityProof.len) (hlt : L < L') (hgrid : L' % w = 0)
      (hle : L' ≤ att.headerNumber) (hnext : att.headerNumber < L' + w) :
      Progress T a w L p queue att L' att.headerNumber []

theorem Progress.coverage_le {T : Config H A B} {w L p L' p' : ℕ} {att : SignedAttestation H A}
    (h : Progress T a w L p queue att L' p' kept) (hp : p ≤ L)
    (hgrid : 2 * w ≤ att.continuityProof.len → att.headerNumber % w = 0) : p' ≤ L' := by
  cases h with
  | queued _ hstage _ =>
    cases hstage with
    | waits _ => exact hp
    | condenses _ _ _ hle _ => exact hle
  | full _ _ _ _ => exact le_rfl
  | caughtUp hlong _ hboundary hle hnext =>
    exact (boundary_unique hboundary (hgrid hlong) hle hnext).le

section Commits

variable {T : Config H A B} {c : Chain H A} {cp : AttestationCheckpoint H} {h p : ℕ}
  {att : SignedAttestation H A} {a' : Anchors H A}

omit [DecidableEq H] in
theorem Ladder.getLast? {w head last : ℕ} {cps : List (AttestationCheckpoint H)} (hw : 0 < w)
    (hladder : Ladder w head last cps) {l : AttestationCheckpoint H} (hl : cps.getLast? = some l) :
    last < l.blockNumber ∧ l.blockNumber % w = 0 ∧ l.blockNumber ≤ head ∧
      head < l.blockNumber + w := by
  induction hladder with
  | nil _ => simp at hl
  | @cons last c cps hc hle hrest ih =>
    have hlt : last < c.blockNumber := hc ▸ lt_nextBoundary hw
    rcases hgl : cps.getLast? with _ | l'
    · obtain rfl : c = l := by simpa [List.getLast?_cons, hgl] using hl
      obtain rfl := List.getLast?_eq_none_iff.1 hgl
      cases hrest with
      | nil hhead =>
        exact ⟨hlt, hc ▸ nextBoundary_mod w last, hle, hhead.trans_le (nextCheckpointBlock_le _ _)⟩
    · obtain rfl : l' = l := by simpa [List.getLast?_cons, hgl] using hl
      obtain ⟨hlt', hrest'⟩ := ih hgl
      exact ⟨hlt.trans hlt', hrest'⟩

variable [DecidableEq A] {now : ℕ} {supported : Bool}

theorem Chain.Started.header_eq (hs : c.Started cp h p) (hlinked : c.anchors.Linked)
    (haccepted : Accepted T supported now c att) :
    att.headerNumber = h + att.continuityProof.len + 1 := by
  obtain ⟨d, hd⟩ := hs.head_eq
  rcases haccepted.continues with hstart | ⟨-, m, e, hlink⟩
  · have hlt : h < att.headerNumber := haccepted.above_digest _ hd
    have := hstart.header_eq
    have := hs.genesis_le
    omega
  · have hlast := hlinked.lastFinalized_eq haccepted.cursor_eq hlink
    obtain rfl : h = m := by
      simp only [Anchors.lastFinalized, hd, Option.some_or, Option.some.injEq,
        Prod.mk.injEq] at hlast
      exact hlast.1
    exact hlink.header_eq

theorem Chain.Started.covers (hs : c.Started cp h p) (hlinked : c.anchors.Linked) {y : ℕ}
    (haccepted : Accepted T supported now c att) (hlt : p < y) (hle : y ≤ att.headerNumber) :
    att.Covers y ∨ ∃ q, c.anchors.Queued c.anchors.checkpointingQueue q ∧ q.Covers y := by
  rcases Nat.lt_or_ge h y with hnew | hold
  · have hheader := hs.header_eq hlinked haccepted
    refine .inl ⟨?_, hle⟩
    unfold ContinuityProof.startBlockNumber
    unfold ContinuityProof.len at hheader
    omega
  · exact .inr (hs.spans.covers hlt hold)

theorem Chain.Started.spans_store (hs : c.Started cp h p) (hlinked : c.anchors.Linked)
    (haccepted : Accepted T supported now c att) :
    (storeAttestation T now c.anchors att).Spans p
      (c.anchors.checkpointingQueue ++ [att.digest T.keccak]) att.headerNumber := by
  exact Anchors.spans_append.2 ⟨h, hs.spans.congr fun d _ q hd => haccepted.lookup_store hd, att,
    AList.lookup_insert _, hs.header_eq hlinked haccepted, rfl⟩

theorem Chain.WellFormed.lookup_queue (hwf : c.WellFormed T) {n : ℕ}
    (hcommit : doCommitAttestation T supported now c att = .ok (a', n)) {d : H}
    (hd : d ∈ a'.checkpointingQueue) {q : SignedAttestation H A}
    (hq : (storeAttestation T now c.anchors att).attestations.lookup d = some q) :
    a'.attestations.lookup d = some q := by
  have htracked : a'.Tracked T := Anchors.Tracked.commit hwf.bounded hwf.tracked hcommit
  obtain ⟨-, cps, popped, kept, k, rfl, -⟩ :=
    doCommitAttestation_effect hwf.bounded hwf.tracked.proofsBounded hcommit
  obtain ⟨q', hq'⟩ := htracked.stored d (List.mem_append_right _ hd)
  rwa [Option.mem_unique hq (lookup_of_condensed hq')]

omit [DecidableEq A] in
/-- An attestation that is not caught up with has a short proof, since a long one reaches past the
next boundary. -/
theorem Chain.Started.short_of_notCaughtUp (hs : c.Started cp h p) (hst : c.settings.Bounded T)
    (hheader : att.headerNumber = h + att.continuityProof.len + 1) {n : ℕ}
    (hnot : NotCaughtUp c.settings (storeAttestation T now c.anchors att) att n) :
    att.continuityProof.len < 2 * checkpointWidth c.settings := by
  have hw := hst.width_pos
  rcases hnot with ⟨hshort | hempty, -⟩ | ⟨⟨last, hlast, -, hlt⟩, -⟩
  · rwa [hst.long_eq] at hshort
  · have hnil : att.continuityProof.roots = [] := List.isEmpty_iff.1 hempty
    simp [ContinuityProof.len, hnil, hw]
  · obtain rfl : cp = last := Option.mem_unique hs.last_eq hlast
    have hle := nextCheckpointBlock_le (checkpointWidth c.settings) cp.blockNumber
    have := hs.le_head
    omega

/-- **What a commit does to a started chain.** -/
theorem Chain.Started.commit (hs : c.Started cp h p) (hwf : c.WellFormed T)
    (hlinked : c.anchors.Linked) (hp : p < nextBoundary (checkpointWidth c.settings) cp.blockNumber)
    {n : ℕ} (hcommit : doCommitAttestation T supported now c att = .ok (a', n)) :
    ∃ cp' p', Chain.Started { c with anchors := a' } cp' att.headerNumber p' ∧
      Progress T (storeAttestation T now c.anchors att) (checkpointWidth c.settings)
        cp.blockNumber p
        (c.anchors.checkpointingQueue ++ [att.digest T.keccak]) att cp'.blockNumber p'
        a'.checkpointingQueue := by
  obtain ⟨haccepted, cps, popped, kept, k, heq, -⟩ :=
    doCommitAttestation_effect hwf.bounded hwf.tracked.proofsBounded hcommit
  have hspans := hs.spans_store hlinked haccepted
  have hlt : cp.blockNumber < att.headerNumber := haccepted.above_checkpoint cp hs.last_eq
  have hgenesis : c.settings.attestationChainGenesisBlockNumber ≤ att.headerNumber := by
    have := hs.genesis_le
    have := hs.header_eq hlinked haccepted
    omega
  have hdigest : a'.lastDigest = some (att.headerNumber, att.digest T.keccak) := by
    rw [heq, storeAttestation_eq (T := T) now haccepted.above_digest]
    rfl
  have hsub : ∀ d q, a'.attestations.lookup d = some q →
      (storeAttestation T now c.anchors att).attestations.lookup d = some q :=
    fun d q hd => lookup_of_condensed (heq ▸ hd)
  have hspans' : ∀ {p' : ℕ}, (storeAttestation T now c.anchors att).Spans p' a'.checkpointingQueue
      att.headerNumber → a'.Spans p' a'.checkpointingQueue att.headerNumber :=
    fun hspans => hspans.congr fun d hd q hq => hwf.lookup_queue hcommit hd hq
  have habove : ∀ q, (storeAttestation T now c.anchors att).Queued
      (c.anchors.checkpointingQueue ++ [att.digest T.keccak]) q →
        cp.blockNumber < q.headerNumber := by
    rintro q ⟨d, hd, hq⟩
    replace hq := (StorageMap.lookup_insert_eq _ _ _ _).symm.trans hq
    split at hq
    · exact Option.some.inj hq ▸ hlt
    · next hne => exact hs.above q ⟨d, by simpa [hne] using hd, hq⟩
  cases (doCommitAttestation_cases hcommit).2 with
  | first hkeys _ => exact absurd hkeys (hwf.marked.keys_ne_nil hs.last_eq)
  | @caughtUp last cps _ hcatch =>
    obtain rfl := Option.mem_unique hs.last_eq hcatch.last_eq
    obtain ⟨l, hl⟩ := Option.isSome_iff_exists.1 (List.getLast?_isSome.2 hcatch.ne_nil)
    obtain ⟨hgt, hgrid, hle, hnext⟩ := hcatch.ladder.getLast? hcatch.width_pos hl
    have hlong := hcatch.long
    rw [hwf.bounded.long_eq] at hlong
    have hlast : (caughtUp T c.settings (storeAttestation T now c.anchors att) att
        cps).lastCheckpoint = some l := by
      rw [caughtUp_eq, Anchors.condensed, hl, Option.some_or]
    refine ⟨l, att.headerNumber, ⟨hlast, ⟨_, hdigest⟩, hle, hgenesis, rfl, ?_⟩,
      .caughtUp hlong hgt hgrid hle hnext⟩
    rintro q ⟨d, hd, -⟩
    exact absurd hd (by simp [caughtUp])
  | queued _ hnot =>
    have hshort := hs.short_of_notCaughtUp hwf.bounded (hs.header_eq hlinked haccepted) hnot
    obtain ⟨L, p', hstage, hkept, hlast⟩ := tryMakeCheckpoint_stage (T := T) hwf.bounded
      (haccepted.proofsBounded_store hwf.tracked.proofsBounded) hs.last_eq att.headerNumber_lt
      hspans hp
    obtain ⟨cp', hcp', rfl⟩ := Option.map_eq_some_iff.1 hlast
    rcases queueAttestation_cases T c.settings (storeAttestation T now c.anchors att) att with
      ⟨hlen, hqueued⟩ | ⟨hlen, hqueued⟩
    · have hqueue : (queueAttestation T c.settings (storeAttestation T now c.anchors att) att
          (att.digest T.keccak)).1.checkpointingQueue =
          (tryMakeCheckpoint T c.settings (storeAttestation T now c.anchors att)
            (c.anchors.checkpointingQueue ++ [att.digest T.keccak]) att.headerNumber).queue :=
        congrArg _ hqueued
      rw [hqueue] at hspans' ⊢
      refine ⟨cp', p', ⟨(congrArg _ hqueued).trans hcp', ⟨_, hdigest⟩, hstage.le hlt.le, hgenesis,
        hqueue ▸ hspans' hkept, ?_⟩, .queued hshort hstage hlen⟩
      rintro q ⟨d, hd, hq⟩
      exact hstage.above habove q ⟨d, hqueue ▸ hd, hsub d q hq⟩
    · have hqueue : (queueAttestation T c.settings (storeAttestation T now c.anchors att) att
          (att.digest T.keccak)).1.checkpointingQueue = [] := congrArg _ hqueued
      rw [hqueue] at hspans' ⊢
      refine ⟨⟨att.headerNumber, att.digest T.keccak, att.headerNumber_lt⟩, att.headerNumber,
        ⟨congrArg _ hqueued, ⟨_, hdigest⟩, le_rfl, hgenesis, hqueue ▸ hspans' rfl, ?_⟩,
        .full hshort hstage hkept hlen⟩
      rintro q ⟨d, hd, -⟩
      rw [hqueue] at hd
      simp at hd

end Commits

/-! ## Errors while catching up -/

section CreationError

variable {T : Config H A B} {st : Settings} {a : Anchors H A} {att : SignedAttestation H A}

omit [DecidableEq H] in
/-- The loop over the boundaries does not fail where every block between the first checkpoint and
the head has a digest. -/
theorem createCheckpointsLoop_ne_error {w head L : ℕ} {digests : StorageMap ℕ H}
    (hhead : head < 2 ^ 64) (hw : 0 < w) (hL : L + w ≤ u64Max)
    (hdigests : ∀ y, L < y → y ≤ head → (digests.lookup y).isSome = true) (fuel last : ℕ)
    (hlast : last = L ∨ (L < last ∧ last ≤ u64Max ∧ last % w = 0)) (a : Anchors H A) :
    createCheckpointsLoop w digests hhead fuel last a ≠ .error .checkpointCreationError := by
  induction fuel generalizing last a with
  | zero => simp [createCheckpointsLoop]
  | succ fuel ih =>
    have hnext : L < nextCheckpointBlock w last := by
      rcases hlast with rfl | ⟨hlt, hle, hgrid⟩
      · rw [nextCheckpointBlock_of_le hL]
        exact lt_nextBoundary hw
      · -- From a boundary the saturated sum does not go down.
        refine hlt.trans_le ?_
        have hsat : last ≤ satAdd u64Max last w := le_satAdd hle
        rw [nextCheckpointBlock, ← Nat.div_mul_self_eq_mod_sub_self]
        calc last = last / w * w := by rw [Nat.div_mul_cancel (Nat.dvd_of_mod_eq_zero hgrid)]
          _ ≤ satAdd u64Max last w / w * w :=
            Nat.mul_le_mul_right w (Nat.div_le_div_right hsat)
    rw [createCheckpointsLoop]
    split
    · simp
    · next hle =>
      obtain ⟨digest, hdigest⟩ := Option.isSome_iff_exists.1
        (hdigests _ hnext (not_lt.1 hle))
      simp only [hdigest]
      refine ih _ (.inr ⟨hnext, ?_, nextCheckpointBlock_mod w last⟩) _
      exact (Nat.sub_le _ _).trans (min_le_right _ _)

section Validate

variable [DecidableEq A]

omit [DecidableEq A] in
theorem createCheckpointsFromContinuityProof_creationError {d : H}
    (h : createCheckpointsFromContinuityProof T st a att d = .error .checkpointCreationError) :
    ∃ last, a.lastCheckpoint = some last ∧
      2 * asUsize (checkpointWidth st) % 2 ^ 32 ≤ att.continuityProof.len ∧
      createCheckpointsLoop (checkpointWidth st) (boundaryDigests T a att d a.checkpointingQueue)
        att.headerNumber_lt (att.headerNumber + 1) last.blockNumber a =
          .error .checkpointCreationError := by
  unfold createCheckpointsFromContinuityProof at h
  split at h
  · simp at h
  · rw [bind_eq_error, ensure_eq_error] at h
    obtain ⟨-, hzero⟩ | ⟨-, -, h⟩ := h
    · simp at hzero
    · split at h
      · simp [pure, Except.pure] at h
      · next hlong =>
        simp only [createCheckpointsFromQueue, bind_eq_error, okOr_eq_error, okOr_eq_ok,
          ensure_eq_error, reduceCtorEq, and_false, false_or] at h
        obtain ⟨last, hlast, -, -, h | ⟨_, -, h⟩⟩ := h
        · exact ⟨last, hlast, not_lt.1 hlong, h⟩
        · split at h <;> simp [pure, Except.pure] at h

/-- A commit fails to create checkpoints only while catching up with an attestation that passed all
checks. -/
theorem doCommitAttestation_creationError {c : Chain H A} {supported : Bool} {now : ℕ}
    (hkeys : c.anchors.checkpoints.keys ≠ [])
    (h : doCommitAttestation T supported now c att = .error .checkpointCreationError) :
    Accepted T supported now c att ∧
      createCheckpointsFromContinuityProof T c.settings (storeAttestation T now c.anchors att) att
        (att.digest T.keccak) = .error .checkpointCreationError := by
  simp only [doCommitAttestation, bind_eq_error, ensure_eq_error, ensure_eq_ok] at h
  obtain hvalid | ⟨keys, hvalid, ⟨-, hroom⟩ | ⟨-, hroom, h⟩⟩ := h
  · exact absurd hvalid (validateAttestation_ne_error (by decide) (by decide))
  · simp at hroom
  · refine ⟨accepted_of_validate hvalid hroom, ?_⟩
    have hstored : (storeAttestation T now c.anchors att).checkpoints.keys ≠ [] := hkeys
    rw [checkpointAttestation, if_neg hstored, bind_eq_error] at h
    obtain h | ⟨⟨created, caught, n⟩, -, h⟩ := h
    · exact h
    · cases created <;> simp [pure, Except.pure] at h

/-- **Catching up does not fail** on a started chain whose queue covers everything above the last
checkpoint. -/
theorem Chain.Started.commit_ne_error {c : Chain H A} {cp : AttestationCheckpoint H} {h p : ℕ}
    (hs : c.Started cp h p) (hwf : c.WellFormed T) (hlinked : c.anchors.Linked)
    (hp : p ≤ cp.blockNumber) {supported : Bool} {now : ℕ} :
    doCommitAttestation T supported now c att ≠ .error .checkpointCreationError := by
  intro herror
  obtain ⟨haccepted, herror⟩ :=
    doCommitAttestation_creationError (hwf.marked.keys_ne_nil hs.last_eq) herror
  obtain ⟨last, hlast, hlong, hloop⟩ := createCheckpointsFromContinuityProof_creationError herror
  obtain rfl : cp = last := Option.mem_unique hs.last_eq hlast
  rw [hwf.bounded.long_eq] at hlong
  have hheader := hs.header_eq hlinked haccepted
  have hle := hs.le_head
  have hbound := att.headerNumber_lt
  refine createCheckpointsLoop_ne_error _ hwf.bounded.width_pos (by unfold u64Max; omega)
    (fun y hlt hy => isSome_lookup_boundaryDigests ?_) _ _ (.inl rfl) _ hloop
  refine (hs.covers hlinked haccepted (hp.trans_lt hlt) hy).imp_right ?_
  rintro ⟨q, ⟨d, hd, hq⟩, hcov⟩
  exact ⟨q, ⟨d, hd, haccepted.lookup_store hq⟩, hcov⟩

end Validate

end CreationError

/-! ## Runs from the first attestation -/

section Runs

variable [DecidableEq A] {T : Config H A B} {k : ChainKey} {c c' : Chain H A}
  {cp : AttestationCheckpoint H} {h p : ℕ}

omit [DecidableEq H] [DecidableEq A] in
theorem SettingsStep.genesis_eq {st : Settings} (hblank : ¬ c.anchors.Blank)
    (hstep : SettingsStep T true c st) :
    st.attestationChainGenesisBlockNumber = c.settings.attestationChainGenesisBlockNumber := by
  rcases hstep.limits.2.2 with heq | hnew | hanchors
  · exact heq
  · cases hnew
  · exact absurd hanchors hblank

theorem IdleStep.started (hwf : c.WellFormed T) (hs : c.Started cp h p)
    (hstep : IdleStep T true k c c') : c'.Started cp h p := by
  have hwf' := ChainStep.wellFormed hwf hstep.chainStep
  cases hstep with
  | roster _ => exact ⟨hs.last_eq, hs.head_eq, hs.le_head, hs.genesis_le, hs.spans, hs.above⟩
  | settings hst =>
    refine ⟨hs.last_eq, hs.head_eq, hs.le_head, ?_, hs.spans, hs.above⟩
    rw [hst.genesis_eq (hwf.marked.not_blank hs.last_eq)]
    exact hs.genesis_le
  | @swept a hsweep =>
    have hswept := Sweep.swept hwf.marked hsweep
    refine ⟨hswept.lastCheckpoint_eq.trans hs.last_eq, ?_, hs.le_head, hs.genesis_le, ?_, ?_⟩
    · rw [hswept.lastDigest_eq]
      exact hs.head_eq
    · change a.Spans p a.checkpointingQueue h
      rw [hswept.queue_eq]
      exact hs.spans.congr fun d hd q hq => hswept.lookup_queue hwf'.tracked hd hq
    · rintro q ⟨d, hd, hq⟩
      exact hs.above q ⟨d, hswept.queue_eq ▸ hd, hswept.attestations_le d q hq⟩

theorem started_of_idle (hwf : c.WellFormed T) (hs : c.Started cp h p)
    (hidle : ReflTransGen (IdleStep T true k) c c') : c'.Started cp h p := by
  have hgen : c'.WellFormed T ∧ c'.Started cp h p := by
    induction hidle with
    | refl => exact ⟨hwf, hs⟩
    | tail _ hlast ih =>
      exact ⟨ChainStep.wellFormed ih.1 hlast.chainStep, IdleStep.started ih.1 ih.2 hlast⟩
  exact hgen.2

variable {att : SignedAttestation H A}

theorem started_of_first {supported : Bool} {now n : ℕ} {a' : Anchors H A} (hwf : c.WellFormed T)
    (hblank : c.anchors.Blank) (hcommit : doCommitAttestation T supported now c att = .ok (a', n)) :
    Chain.Started { c with anchors := a' }
        ⟨att.headerNumber, att.digest T.keccak, att.headerNumber_lt⟩ att.headerNumber
        att.headerNumber ∧ a'.checkpointingQueue = [] := by
  obtain ⟨haccepted, hcommits⟩ := doCommitAttestation_cases hcommit
  have hqueue : c.anchors.checkpointingQueue = [] := by
    refine List.eq_nil_iff_forall_not_mem.2 fun d hd => ?_
    obtain ⟨q, hq⟩ := hwf.tracked.stored d (List.mem_append_right _ hd)
    have hmem : d ∈ c.anchors.attestations.keys :=
      AList.mem_keys.1 (AList.lookup_isSome.1 (by rw [hq]; rfl))
    simp [hblank.1] at hmem
  cases hcommits with
  | first _ hgenesis =>
    refine ⟨⟨rfl, ⟨att.digest T.keccak, ?_⟩, le_rfl, hgenesis.le, ?_, ?_⟩, hqueue⟩
    · change (storeAttestation T now c.anchors att).lastDigest = _
      rw [storeAttestation_eq (T := T) now haccepted.above_digest]
    · change Anchors.Spans _ att.headerNumber c.anchors.checkpointingQueue att.headerNumber
      rw [hqueue]
      rfl
    · rintro q ⟨d, hd, -⟩
      replace hd : d ∈ c.anchors.checkpointingQueue := hd
      simp [hqueue] at hd
  | caughtUp hkeys _ => exact absurd hblank.2 hkeys
  | queued hkeys _ => exact absurd hblank.2 hkeys

theorem started_of_acceptedCommit {s : State H A B} (hreach : Reachable T s)
    (hblank : (s.chain T k).anchors.Blank) {first : Action T}
    (hfirst : acceptedCommit T k s first = some att) :
    (step T s first).isChainSupported k = true ∧
      ((step T s first).chain T k).Started
        ⟨att.headerNumber, att.digest T.keccak, att.headerNumber_lt⟩ att.headerNumber
        att.headerNumber ∧
      ((step T s first).chain T k).anchors.checkpointingQueue = [] := by
  obtain ⟨host, o, rfl, rfl, hok⟩ := acceptedCommit_eq_some hfirst
  simp only [dispatch, asSigned_eq_ok, State.commitAttestation_eq_ok] at hok
  obtain ⟨who, -, -, a, n, hcommit, heq⟩ := hok
  have hsup : s.isChainSupported att.chainKey = true :=
    (doCommitAttestation_cases hcommit).1.supported_eq
  refine ⟨isChainSupported_step hreach.keysBelow rfl hsup, ?_⟩
  rw [← heq, State.setAnchors, State.chain_setChain_self]
  exact started_of_first (wellFormed_of_live hreach (.inl hsup)) hblank hcommit

variable (T k) in
/-- An attestation with a proof long enough to catch up attests a boundary. -/
def CatchesUpOnGrid (s : State H A B) (act : Action T) : Prop :=
  ∀ att ∈ acceptedCommit T k s act,
    2 * checkpointWidth (s.chain T k).settings ≤ att.continuityProof.len →
      att.headerNumber % checkpointWidth (s.chain T k).settings = 0

instance (s : State H A B) (act : Action T) : Decidable (CatchesUpOnGrid T k s act) :=
  inferInstanceAs (Decidable (∀ att ∈ acceptedCommit T k s act, _))

/-- The chain is started, and everything above its last checkpoint is covered. -/
def Chain.Covered (c : Chain H A) : Prop :=
  ∃ cp h p, c.Started cp h p ∧ p ≤ cp.blockNumber

variable {s : State H A B}

theorem covered_step (hT : 0 < T.defaultAttestationRetentionDuration ∨ HeightBinding T.keccak)
    (hreach : Reachable T s) {act : Action T} (hsup : s.isChainSupported k = true)
    (hsteady : act.steady k = true) (hgrid : CatchesUpOnGrid T k s act)
    (hcovered : (s.chain T k).Covered) : ((step T s act).chain T k).Covered := by
  obtain ⟨cp, h, p, hs, hp⟩ := hcovered
  have hsup' := isChainSupported_step hreach.keysBelow hsteady hsup
  obtain ⟨hl, hmove⟩ := step_chainMove hreach.keysBelow (.inl hsup')
  have hwf := wellFormed_of_live hreach hl
  rcases hmove.of_steady hsteady with ⟨att, a, n, hact, hcommit, heq⟩ | ⟨-, hidle⟩
  · obtain ⟨cp', p', hs', hprogress⟩ := hs.commit hwf (linked_of_live hT hreach hl)
      (hp.trans_lt (lt_nextBoundary hwf.bounded.width_pos)) hcommit
    rw [heq]
    exact ⟨cp', _, p', hs', hprogress.coverage_le hp (hgrid att hact)⟩
  · rw [hsup] at hidle
    exact ⟨cp, h, p, started_of_idle hwf hs hidle, hp⟩

/-- What steady actions that meet a condition keep holds after a run of them. -/
theorem steady_run {P : Chain H A → Prop} {Keeps : State H A B → Action T → Prop}
    (hstep : ∀ {s act}, Reachable T s → s.isChainSupported k = true → act.steady k = true →
      Keeps s act → P (s.chain T k) → P ((step T s act).chain T k))
    (hreach : Reachable T s) {acts : List (Action T)} (hsup : s.isChainSupported k = true)
    (hsteady : ∀ act ∈ acts, act.steady k = true) (hkeeps : AlongRun Keeps s acts)
    (hp : P (s.chain T k)) : P ((run T s acts).chain T k) := by
  induction acts generalizing s with
  | nil => exact hp
  | cons act acts ih =>
    have hact := hsteady act List.mem_cons_self
    exact ih (hreach.step act) (isChainSupported_step hreach.keysBelow hact hsup)
      (fun act' hact' => hsteady act' (List.mem_cons_of_mem _ hact')) hkeeps.2
      (hstep hreach hsup hact hkeeps.1 hp)

/-- In the state `s`, commits on the chain find the blocks of the checkpoints that are due. -/
structure TargetsFound (T : Config H A B) (k : ChainKey) (s : State H A B) : Prop where
  /-- Every block after the last checkpoint up to the attested one is covered by the attestation or
  by a queued one. -/
  covered : ∀ att keys, validateAttestation T att (s.isChainSupported k) (s.chain T k) = .ok keys →
    committedThisBlock (s.chain T k).anchors s.blockNumber < T.maxAttestationsPerBlock →
    ∀ cp ∈ (s.chain T k).anchors.lastCheckpoint, ∀ y, cp.blockNumber < y → y ≤ att.headerNumber →
      att.Covers y ∨ ∃ q, (s.chain T k).anchors.Queued (s.chain T k).anchors.checkpointingQueue q ∧
        q.Covers y
  /-- `try_make_checkpoint` returns no error. -/
  made : ∀ att keys, validateAttestation T att (s.isChainSupported k) (s.chain T k) = .ok keys →
    committedThisBlock (s.chain T k).anchors s.blockNumber < T.maxAttestationsPerBlock →
    (tryMakeCheckpoint T (s.chain T k).settings
      (storeAttestation T s.blockNumber (s.chain T k).anchors att)
      ((s.chain T k).anchors.checkpointingQueue ++ [att.digest T.keccak])
      att.headerNumber).outcome = .ok ()
  /-- No commit fails to create its checkpoints. -/
  created : ∀ host o att, att.chainKey = k →
    dispatch T host s o (.commitAttestation att) ≠ .error .checkpointCreationError

theorem dispatch_ne_creationError {host : Host H A} {o : Origin A}
    (h : doCommitAttestation T (s.isChainSupported att.chainKey) s.blockNumber
      (s.chain T att.chainKey) att ≠ .error .checkpointCreationError) :
    dispatch T host s o (.commitAttestation att) ≠ .error .checkpointCreationError := by
  refine bind_ne_error ?_ fun who => bind_ne_error (ensure_ne_error (by decide)) fun _ => ?_
  · cases o <;> simp [Origin.ensureSigned]
  · rcases hc : doCommitAttestation T (s.isChainSupported att.chainKey) s.blockNumber
      (s.chain T att.chainKey) att with e | r
    · simpa [State.withAnchors, Except.map, hc] using h
    · simp [State.withAnchors, Except.map]

theorem Chain.Covered.targetsFound
    (hT : 0 < T.defaultAttestationRetentionDuration ∨ HeightBinding T.keccak)
    (hreach : Reachable T s) (hsup : s.isChainSupported k = true)
    (hcovered : (s.chain T k).Covered) : TargetsFound T k s := by
  obtain ⟨cp, h, p, hs, hp⟩ := hcovered
  have hwf := wellFormed_of_live hreach (.inl hsup)
  have hlinked := linked_of_live hT hreach (.inl hsup)
  refine ⟨fun att keys hvalid hroom cp' hcp' y hlt hle => ?_, fun att keys hvalid hroom => ?_, ?_⟩
  · obtain rfl : cp = cp' := Option.mem_unique hs.last_eq hcp'
    exact hs.covers hlinked (accepted_of_validate hvalid hroom) (hp.trans_lt hlt) hle
  · have haccepted := accepted_of_validate hvalid hroom
    exact (hs.spans_store hlinked haccepted).tryMakeCheckpoint_ok hwf.bounded
      (haccepted.proofsBounded_store hwf.tracked.proofsBounded) hs.last_eq att.headerNumber_lt
      (hp.trans_lt (lt_nextBoundary hwf.bounded.width_pos))
  · rintro host o att rfl
    exact dispatch_ne_creationError (hs.commit_ne_error hwf hlinked hp)

/-- **Due checkpoints are found.** In a run of commits and changes of settings from the first
attestation of a chain, in which every attestation that catches up attests a boundary, every commit
finds the blocks of the checkpoints that are due. -/
theorem targets_found_of_catchesUpOnGrid
    (hT : 0 < T.defaultAttestationRetentionDuration ∨ HeightBinding T.keccak)
    (hreach : Reachable T s) (hblank : (s.chain T k).anchors.Blank) {first : Action T}
    {att : SignedAttestation H A} (hfirst : acceptedCommit T k s first = some att)
    {acts : List (Action T)} (hsteady : ∀ act ∈ acts, act.steady k = true)
    (hgrid : AlongRun (CatchesUpOnGrid T k) (step T s first) acts) :
    TargetsFound T k (run T (step T s first) acts) := by
  obtain ⟨hsup, hstarted, -⟩ := started_of_acceptedCommit hreach hblank hfirst
  have hcovered := steady_run (P := Chain.Covered)
    (fun hreach hsup hsteady hgrid => covered_step hT hreach hsup hsteady hgrid)
    (hreach.step first) hsup hsteady hgrid ⟨_, _, _, hstarted, le_rfl⟩
  exact hcovered.targetsFound hT ((hreach.step first).run acts)
    (isChainSupported_run (hreach.step first).keysBelow hsteady hsup)

end Runs

section Devnet

open Devnet

/-- A development network with a checkpoint at every second block, before its first attestation. -/
def unstarted : State Word ℕ Unit := after (genesisConfig 1 2 []) []

def firstCommit : Action config := commit (attestation 0 none ⟨.zero, []⟩)

/-- After catching up with a boundary, all due checkpoints are found. -/
theorem devnet_targets_found :
    TargetsFound config 1 (run config (step config unstarted firstCommit)
      (commits (step config unstarted firstCommit) [8, 9])) :=
  targets_found_of_catchesUpOnGrid (.inl (by decide)) (reachable_after (by rfl) [])
    (by decide +kernel) (show acceptedCommit config 1 unstarted firstCommit =
      some (attestation 0 none ⟨.zero, []⟩) by rfl) (by decide +kernel)
        (by decide +kernel)

/-- An attestation of block 5 catches up, the width is lowered to one, and block 6 is attested. -/
def narrowing : List (Action config) :=
  let caught := commits (step config unstarted firstCommit) [5]
  let lowered := caught ++ [byRoot (.setAttestationsPerCheckpoint 1 1)]
  lowered ++ commits (run config (step config unstarted firstCommit) lowered) [6]

/-- Block 5 is covered by nothing, so the next attestation that would catch up is refused. -/
theorem exists_commit_creationError :
    Reachable config unstarted ∧ (unstarted.chain config 1).anchors.Blank ∧
      acceptedCommit config 1 unstarted firstCommit = some (attestation 0 none ⟨.zero, []⟩) ∧
      (∀ act ∈ narrowing, act.steady 1 = true) ∧
      dispatch config host (run config (step config unstarted firstCommit) narrowing) (.signed 1)
        (.commitAttestation
          (nextAttestation (run config (step config unstarted firstCommit) narrowing) 9)) =
        .error .checkpointCreationError :=
  ⟨reachable_after (by rfl) [], by decide +kernel, by rfl, by decide +kernel,
    eq_error_of_failure (by decide +kernel)⟩

end Devnet

end Creditcoin
