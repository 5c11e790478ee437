import Creditcoin.Attestation.Histories

/-!
# Checkpoints hold the digests of one chain

The roots of the accepted attestations and of their proofs determine a hash chain above any
checkpoint. The last digest and every queued attestation agree with the chain above the last
checkpoint (`Chained`), so every checkpoint made by a commit holds the digest of the chain,
whichever of the three paths made it. -/

namespace Creditcoin

variable {H A B : Type}

/-! ## Recorded roots -/

/-- The root that an attestation gives to a block: its own header, or a block of its proof. -/
def SignedAttestation.rootAt (att : SignedAttestation H A) (y : ℕ) : Option H :=
  if y = att.headerNumber then some att.attestation.root
  else if att.continuityProof.startBlockNumber att.headerNumber ≤ y then
    att.continuityProof.roots[y - att.continuityProof.startBlockNumber att.headerNumber]?
  else none

def recordRoots (roots : ℕ → Option H) (att : SignedAttestation H A) (y : ℕ) : Option H :=
  (att.rootAt y).or (roots y)

/-- The digest at a height of the chain above a checkpoint. -/
def chainDigest (keccak : ℕ → H → Option H → H) (c : AttestationCheckpoint H)
    (roots : ℕ → Option H) (y : ℕ) : Option H :=
  HashChain.digestAt (hashPayload keccak) c.blockNumber c.digest roots y

section Links

variable [DecidableEq H] {T : Config H A B} {st : Settings} {a : Anchors H A}
  {att : SignedAttestation H A} {n : ℕ} {d : H}

theorem Links.start_eq (h : Links T st a att n d) :
    att.continuityProof.startBlockNumber att.headerNumber = n + 1 := by
  have hheader := h.header_eq
  unfold ContinuityProof.startBlockNumber
  unfold ContinuityProof.len at hheader
  omega

theorem Links.rootAt_eq (h : Links T st a att n d) (i : ℕ) :
    att.rootAt (n + 1 + i) = (att.continuityProof.roots ++ [att.attestation.root])[i]? := by
  have hheader := h.header_eq
  unfold ContinuityProof.len at hheader
  unfold SignedAttestation.rootAt
  rw [h.start_eq]
  by_cases hi : n + 1 + i = att.headerNumber
  · have hlen : i = att.continuityProof.roots.length := by omega
    rw [if_pos hi, hlen]
    simp
  · rw [if_neg hi, if_pos (by omega), Nat.add_sub_cancel_left]
    rcases Nat.lt_or_ge i att.continuityProof.roots.length with hlt | hge
    · rw [List.getElem?_append_left hlt]
    · rw [List.getElem?_eq_none hge, List.getElem?_eq_none (by simp; omega)]

theorem Links.recordRoots_eq (h : Links T st a att n d) (roots : ℕ → Option H) {y : ℕ}
    (hy : y ≤ n) : recordRoots roots att y = roots y := by
  have hheader := h.header_eq
  unfold recordRoots SignedAttestation.rootAt
  rw [h.start_eq, if_neg (by omega), if_neg (by omega), Option.none_or]

variable {roots : ℕ → Option H} {c : AttestationCheckpoint H}

theorem Links.chainDigest_eq (h : Links T st a att n d) {y : ℕ} (hy : y ≤ n) :
    chainDigest T.keccak c (recordRoots roots att) y = chainDigest T.keccak c roots y :=
  HashChain.digestAt_congr fun _ _ hz => h.recordRoots_eq roots (hz.trans hy)

theorem Links.chainDigest_add (h : Links T st a att n d)
    (hbase : chainDigest T.keccak c roots n = some d) {l : List H}
    (hl : l <+: att.continuityProof.roots ++ [att.attestation.root]) :
    chainDigest T.keccak c (recordRoots roots att) (n + l.length) =
      some (HashChain.foldFrom (hashPayload T.keccak) (n + 1) d l) := by
  rw [← h.chainDigest_eq le_rfl] at hbase
  refine HashChain.digestAt_add_length hbase l fun i r hi => ?_
  obtain ⟨rest, hrest⟩ := hl
  obtain ⟨hlt, -⟩ := List.getElem?_eq_some_iff.1 hi
  rw [recordRoots, h.rootAt_eq, ← hrest, List.getElem?_append_left hlt, hi, Option.some_or]

/-- **An accepted attestation continues the chain**: with its roots recorded, the digests it gives
to blocks are those of the chain. -/
theorem Links.chainDigest_of_attests (h : Links T st a att n d)
    (hbase : chainDigest T.keccak c roots n = some d) {y : ℕ} {e : H}
    (hatt : att.Attests T.keccak y e) :
    chainDigest T.keccak c (recordRoots roots att) y = some e := by
  rcases hatt with ⟨rfl, rfl⟩ | hmem
  · have hall := h.chainDigest_add hbase (List.prefix_refl _)
    have hheader := h.header_eq
    unfold ContinuityProof.len at hheader
    rw [List.length_append, List.length_singleton, ← Nat.add_assoc, ← hheader,
      HashChain.foldFrom_append, HashChain.foldFrom_cons, HashChain.foldFrom_nil] at hall
    rw [hall, show n + 1 + att.continuityProof.roots.length = att.headerNumber by omega]
    have hprev : att.attestation.prevDigest = _ := h.prev_eq
    rw [SignedAttestation.digest, AttestationData.digest, hprev]
    rfl
  · rw [ContinuityProof.blockDigests, h.start_eq] at hmem
    obtain ⟨i, hi, rfl, rfl⟩ := mem_digestsFrom.1 hmem
    have hlower := h.lower_eq (List.ne_nil_of_length_pos (by omega))
    have hpart := h.chainDigest_add hbase
      ((List.take_prefix (i + 1) att.continuityProof.roots).trans (List.prefix_append _ _))
    rw [List.length_take_of_le hi] at hpart
    rw [hlower, ← hpart]
    congr 1
    omega

end Links

/-! ## The invariant -/

/-- The last digest and the queued attestations agree with the chain above the last checkpoint. -/
structure Anchors.Chained (T : Config H A B) [DecidableEq H] (roots : ℕ → Option H)
    (a : Anchors H A) : Prop where
  unstarted : a.lastCheckpoint = none → a.lastDigest = none
  unqueued : a.lastDigest = none → a.checkpointingQueue = []
  finalized : ∀ c ∈ a.lastCheckpoint, ∀ last ∈ a.lastDigest,
    chainDigest T.keccak c roots last.1 = some last.2
  queued : ∀ c ∈ a.lastCheckpoint, ∀ q, a.Queued a.checkpointingQueue q → ∀ y e,
    q.Attests T.keccak y e → c.blockNumber ≤ y → chainDigest T.keccak c roots y = some e
  below : ∀ q, a.Queued a.checkpointingQueue q → ∀ last ∈ a.lastDigest, q.headerNumber ≤ last.1

section Chained

variable [DecidableEq H] {T : Config H A B} {a a' : Anchors H A} {roots : ℕ → Option H}

/-- Without a queue, and with the last digest, if any, that of the last checkpoint, the invariant
holds. -/
theorem Anchors.chained_of_last {c : AttestationCheckpoint H} (hc : a.lastCheckpoint = some c)
    (hqueue : a.checkpointingQueue = [])
    (hlast : ∀ last ∈ a.lastDigest, last = (c.blockNumber, c.digest)) : a.Chained T roots := by
  have hnone : ∀ q, ¬ a.Queued a.checkpointingQueue q := by
    rintro q ⟨d, hd, -⟩
    simp [hqueue] at hd
  refine ⟨by simp [hc], fun _ => hqueue, fun c' hc' last hmem => ?_, fun _ _ q hq =>
    absurd hq (hnone q),
    fun q hq => absurd hq (hnone q)⟩
  obtain rfl : c = c' := Option.mem_unique hc hc'
  rw [hlast last hmem]
  exact HashChain.digestAt_base

theorem Swept.chained (hswept : Swept a a') (h : a.Chained T roots) : a'.Chained T roots := by
  have hqueued : ∀ q, a'.Queued a'.checkpointingQueue q → a.Queued a.checkpointingQueue q := by
    rintro q ⟨d, hd, hq⟩
    exact ⟨d, hswept.queue_eq ▸ hd, hswept.attestations_le d q hq⟩
  refine ⟨?_, ?_, ?_, ?_, ?_⟩
  · rw [hswept.lastCheckpoint_eq, hswept.lastDigest_eq]
    exact h.unstarted
  · rw [hswept.lastDigest_eq, hswept.queue_eq]
    exact h.unqueued
  · rw [hswept.lastCheckpoint_eq, hswept.lastDigest_eq]
    exact h.finalized
  · rw [hswept.lastCheckpoint_eq]
    exact fun c hc q hq => h.queued c hc q (hqueued q hq)
  · rw [hswept.lastDigest_eq]
    exact fun q hq => h.below q (hqueued q hq)

variable {supported : Bool}

theorem OperatorStep.chained {k : ChainKey} {call : Call H A} (h : a.Chained T roots)
    (hstep : OperatorStep T supported k call a a') : a'.Chained T roots := by
  cases hstep with
  | imports himport =>
    obtain ⟨-, cps, last, rfl, himports⟩ := doImportCheckpoints_effect himport
    rcases himports.last_cases with ⟨rfl, -⟩ | ⟨-, hnone, m, -, rfl, -⟩
    · exact { h with }
    · exact Anchors.chained_of_last (c := m) rfl (h.unqueued hnone)
        (by simp [Anchors.imported, hnone])
  | revert kill hrevert =>
    obtain ⟨-, -, -, digest, last, -, -, rfl⟩ := revertTo_effect hrevert
    exact Anchors.chained_of_last rfl rfl (by simp [Anchors.reverted])
  | patch kill hpatch =>
    obtain ⟨-, -, -, tip, -, rfl⟩ := doForwardPatchCheckpoints_effect hpatch
    exact Anchors.chained_of_last rfl rfl (by simp [Anchors.patched])

variable {n : ℕ} {cp : AttestationCheckpoint H}

theorem Anchors.Chained.lastFinalized (h : a.Chained T roots) (hcp : a.lastCheckpoint = some cp)
    {d : H} (hlast : a.lastFinalized = some (n, d)) : chainDigest T.keccak cp roots n = some d := by
  rcases hdigest : a.lastDigest with _ | last
  · simp only [Anchors.lastFinalized, hdigest, hcp, Option.map_some, Option.none_or,
      Option.some.injEq, Prod.mk.injEq] at hlast
    obtain ⟨rfl, rfl⟩ := hlast
    exact HashChain.digestAt_base
  · obtain rfl : last = (n, d) := by simpa [Anchors.lastFinalized, hdigest] using hlast
    exact h.finalized cp hcp _ hdigest

variable {att : SignedAttestation H A}

/-- Once an attestation that links to the last finalized point is stored and its roots are recorded,
it agrees with the chain, and so do those queued before it. -/
theorem Anchors.Chained.queued_store (h : a.Chained T roots) (htracked : a.Tracked T) (now : ℕ)
    {st : Settings} {d : H} (hcp : a.lastCheckpoint = some cp)
    (hlast : a.lastFinalized = some (n, d)) (hlink : Links T st a att n d)
    {q : SignedAttestation H A}
    (hq : (storeAttestation T now a att).Queued (a.checkpointingQueue ++ [att.digest T.keccak]) q) :
    q.headerNumber ≤ att.headerNumber ∧ ∀ y e, q.Attests T.keccak y e → cp.blockNumber ≤ y →
      chainDigest T.keccak cp (recordRoots roots att) y = some e := by
  obtain ⟨dq, hmem, hlookup⟩ := hq
  replace hlookup := (StorageMap.lookup_insert_eq _ _ _ _).symm.trans hlookup
  split at hlookup
  · obtain rfl := Option.some.inj hlookup
    exact ⟨le_rfl, fun y e hatt _ => hlink.chainDigest_of_attests (h.lastFinalized hcp hlast) hatt⟩
  · next hne =>
    have hold : a.Queued a.checkpointingQueue q := ⟨dq, by simpa [hne] using hmem, hlookup⟩
    obtain ⟨last, hdigest⟩ : ∃ last, a.lastDigest = some last := by
      refine Option.ne_none_iff_exists'.1 fun hnone => ?_
      obtain ⟨_, hd, -⟩ := hold
      simp [h.unqueued hnone] at hd
    obtain rfl : last = (n, d) := by simpa [Anchors.lastFinalized, hdigest] using hlast
    have hle : q.headerNumber ≤ n := h.below q hold _ hdigest
    have hheader := hlink.header_eq
    refine ⟨by omega, fun y e hatt hy => ?_⟩
    have hcovers := hatt.covers (htracked.keyed dq q hlookup).2.2
    rw [hlink.chainDigest_eq (hcovers.2.trans hle)]
    exact h.queued cp hcp q hold y e hatt hy

variable [DecidableEq A]

/-- **What a commit adds to a chain with checkpoints.** The new checkpoints hold the digests of the
chain above the last one, and the chain continues to agree with the storage. -/
theorem Anchors.Chained.commit {c : Chain H A} {now : ℕ} (h : c.anchors.Chained T roots)
    (hwf : c.WellFormed T) (hlinked : c.anchors.Linked) (hcp : c.anchors.lastCheckpoint = some cp)
    (hne : att.headerNumber ≠ c.settings.attestationChainGenesisBlockNumber)
    (hcommit : doCommitAttestation T supported now c att = .ok (a', n)) :
    a'.Chained T (recordRoots roots att) ∧ ∃ cps popped kept k,
      a' = (storeAttestation T now c.anchors att).condensed cps popped kept k ∧
        Advances c.anchors.lastCheckpoint att.headerNumber cps ∧
        (∀ c' ∈ cps, chainDigest T.keccak cp (recordRoots roots att) c'.blockNumber =
          some c'.digest) ∧
        ∀ y ≤ cp.blockNumber, recordRoots roots att y = roots y := by
  obtain ⟨haccepted, cps, popped, kept, k, rfl, heffect⟩ :=
    doCommitAttestation_effect hwf.bounded hwf.tracked.proofsBounded hcommit
  obtain hstart | ⟨-, m, d, hlink⟩ := haccepted.continues
  · exact absurd hstart.header_eq hne
  have hlast := hlinked.lastFinalized_eq haccepted.cursor_eq hlink
  have hbase := h.lastFinalized hcp hlast
  have hqueued := fun q => h.queued_store hwf.tracked now hcp hlast hlink (q := q)
  have hnew : ∀ c' ∈ cps,
      chainDigest T.keccak cp (recordRoots roots att) c'.blockNumber = some c'.digest := by
    intro c' hc'
    obtain ⟨q, hq, hatt⟩ := heffect.attested c' hc'
    exact (hqueued q hq).2 _ _ hatt (heffect.advances.above c' hc' cp hcp).le
  refine ⟨?_, cps, popped, kept, k, rfl, heffect.advances, hnew,
    fun y hy => hlink.recordRoots_eq roots (hy.trans (HashChain.le_of_digestAt hbase))⟩
  -- The new last checkpoint is a point of the chain, so the chain may be based there.
  have hrebase : ∀ cp' ∈ cps.getLast?.or c.anchors.lastCheckpoint, ∀ y e,
      chainDigest T.keccak cp (recordRoots roots att) y = some e → cp'.blockNumber ≤ y →
        chainDigest T.keccak cp' (recordRoots roots att) y = some e := by
    intro cp' hcp' y e hy hle
    have hpoint : chainDigest T.keccak cp (recordRoots roots att) cp'.blockNumber =
        some cp'.digest := by
      rcases mem_or_of_mem_getLast? hcp' with hmem | ⟨-, hold⟩
      · exact hnew cp' hmem
      · rw [Option.mem_unique hcp hold]
        exact HashChain.digestAt_base
    exact (HashChain.digestAt_rebase hpoint hle).trans hy
  have hsub :
    ∀ q, ((storeAttestation T now c.anchors att).condensed cps popped kept k).Queued kept q →
      (storeAttestation T now c.anchors att).Queued
        (c.anchors.checkpointingQueue ++ [att.digest T.keccak]) q := by
    rintro q ⟨dq, hdq, hlookup⟩
    exact ⟨dq, heffect.perm.subset (List.mem_append_right _ hdq), lookup_of_condensed hlookup⟩
  have hdigest : ((storeAttestation T now c.anchors att).condensed cps popped kept k).lastDigest =
      some (att.headerNumber, att.digest T.keccak) := by
    rw [storeAttestation_eq (T := T) now haccepted.above_digest]
    rfl
  refine ⟨?_, by simp [hdigest], ?_, ?_, ?_⟩
  · intro hnone
    simp [Anchors.condensed, storeAttestation, hcp] at hnone
  · intro cp' hcp' last hmem
    rw [hdigest] at hmem
    obtain rfl := Option.mem_some_iff.1 hmem
    refine hrebase cp' hcp' _ _ (hlink.chainDigest_of_attests hbase (.inl ⟨rfl, rfl⟩)) ?_
    exact (heffect.advances.last_bounds haccepted.above_checkpoint hcp').2
  · intro cp' hcp' q hq y e hatt hle
    have hge := (heffect.advances.last_bounds haccepted.above_checkpoint hcp').1 cp hcp
    exact hrebase cp' hcp' y e ((hqueued q (hsub q hq)).2 y e hatt (hge.trans hle)) hle
  · intro q hq last hmem
    rw [hdigest] at hmem
    obtain rfl := Option.mem_some_iff.1 hmem
    exact (hqueued q (hsub q hq)).1

theorem Anchors.Chained.start {c : Chain H A} {now : ℕ} (h : c.anchors.Chained T roots)
    (hwf : c.WellFormed T) (hblank : c.anchors.Blank)
    (hcommit : doCommitAttestation T supported now c att = .ok (a', n)) :
    a'.Chained T (recordRoots roots att) := by
  obtain ⟨haccepted, hcommits⟩ := doCommitAttestation_cases hcommit
  have hnone : c.anchors.lastCheckpoint = none := hwf.marked.keys_eq_nil_iff.1 hblank.2
  have hqueue := h.unqueued (h.unstarted hnone)
  cases hcommits with
  | first _ _ =>
    refine Anchors.chained_of_last rfl hqueue fun last hlast => ?_
    rw [storeAttestation_eq (T := T) now haccepted.above_digest] at hlast
    exact (Option.mem_some_iff.1 hlast).symm
  | caughtUp hkeys _ => exact absurd hblank.2 hkeys
  | queued hkeys _ => exact absurd hblank.2 hkeys

end Chained

/-! ## Runs -/

section Runs

variable [DecidableEq H] [DecidableEq A] (T : Config H A B) (k : ChainKey)

/-- The roots recorded for a chain along a run. -/
def recordedRoots : State H A B → List (Action T) → (ℕ → Option H) → ℕ → Option H
  | _, [], roots => roots
  | s, act :: acts, roots =>
    recordedRoots (step T s act) acts
      ((acceptedCommit T k s act).elim roots (recordRoots roots))

/-- An attestation accepted at the genesis height of the chain is its first. -/
def StartsBlank (s : State H A B) (act : Action T) : Prop :=
  ∀ att ∈ acceptedCommit T k s act,
    att.headerNumber = (s.chain T k).settings.attestationChainGenesisBlockNumber →
      (s.chain T k).anchors.Blank

instance (s : State H A B) (act : Action T) : Decidable (StartsBlank T k s act) :=
  inferInstanceAs (Decidable (∀ att ∈ acceptedCommit T k s act, _))

variable {T k} {s s₀ : State H A B} {roots : ℕ → Option H}

theorem recordedRoots_append (acts acts' : List (Action T)) :
    recordedRoots T k s (acts ++ acts') roots =
      recordedRoots T k (run T s acts) acts' (recordedRoots T k s acts roots) := by
  induction acts generalizing s roots with
  | nil => rfl
  | cons act acts ih => exact ih

variable (hT : 0 < T.defaultAttestationRetentionDuration ∨ HeightBinding T.keccak)

include hT in
theorem chained_step (hreach : Reachable T s) {act : Action T} (hstart : StartsBlank T k s act)
    (hlive : (step T s act).Live k)
    (h : s.Live k → (s.chain T k).anchors.Chained T roots) :
    ((step T s act).chain T k).anchors.Chained T
      ((acceptedCommit T k s act).elim roots (recordRoots roots)) := by
  obtain ⟨hl, hmove⟩ := step_chainMove hreach.keysBelow hlive
  have hwf := wellFormed_of_live hreach hl
  have hchained := h hl
  generalize (step T s act).chain T k = c' at hmove ⊢
  cases hmove with
  | @commit att a n hact hcommit =>
    rw [hact]
    change a.Chained T (recordRoots roots att)
    by_cases hblank : (s.chain T k).anchors.Blank
    · exact hchained.start hwf hblank hcommit
    · have hne := fun heq => hblank (hstart att hact heq)
      obtain hstarts | ⟨-, m, d, hlink⟩ := (doCommitAttestation_cases hcommit).1.continues
      · exact absurd hstarts.header_eq hne
      · obtain ⟨cp, hcp⟩ : ∃ cp, (s.chain T k).anchors.lastCheckpoint = some cp := by
          refine Option.ne_none_iff_exists'.1 fun hnone => ?_
          have hlast := hlink.last_eq
          simp [Anchors.lastFinalizedDigest, hnone, hchained.unstarted hnone] at hlast
        exact (hchained.commit hwf (linked_of_live hT hreach hl) hcp hne hcommit).1
  | operator hnone _ hop =>
    rw [hnone]
    exact hop.chained hchained
  | idle hnone hidle =>
    rw [hnone]
    exact (swept_of_idle hwf hidle).2.chained hchained

include hT in
theorem chained_run (hreach : Reachable T s) {acts : List (Action T)}
    (hstart : AlongRun (StartsBlank T k) s acts)
    (h : s.Live k → (s.chain T k).anchors.Chained T roots) (hlive : (run T s acts).Live k) :
    ((run T s acts).chain T k).anchors.Chained T (recordedRoots T k s acts roots) := by
  induction acts generalizing s roots with
  | nil => exact h hlive
  | cons act acts ih =>
    exact ih (hreach.step act) hstart.2
      (fun hl => chained_step hT hreach hstart.1 hl h) hlive

/-! ## The checkpoints created since a state -/

/-- The checkpoints announced since the storage `a₁`, whose last checkpoint was `c₀`, are stored and
hold the digests of the chain above `c₀`, and the last checkpoint is a point of that chain. -/
structure CreatedSince (T : Config H A B) (c₀ : AttestationCheckpoint H) (a₁ : Anchors H A)
    (roots : ℕ → Option H) (a : Anchors H A) : Prop where
  last : ∃ last, a.lastCheckpoint = some last ∧
    chainDigest T.keccak c₀ roots last.blockNumber = some last.digest
  created : ∃ new, a.events = a₁.events ++ new ∧ ∀ c, .checkpointReached c ∈ new →
    c₀.blockNumber < c.blockNumber ∧ (∀ last ∈ a.lastCheckpoint, c.blockNumber ≤ last.blockNumber) ∧
      a.checkpoints.lookup c.blockNumber = some c.digest ∧
      chainDigest T.keccak c₀ roots c.blockNumber = some c.digest

variable {c₀ : AttestationCheckpoint H} {a₁ : Anchors H A}

omit [DecidableEq A] in
theorem CreatedSince.swept {a a' : Anchors H A} (h : CreatedSince T c₀ a₁ roots a)
    (hswept : Swept a a') : CreatedSince T c₀ a₁ roots a' := by
  obtain ⟨last, hlast, hpoint⟩ := h.last
  obtain ⟨new, hevents, hnew⟩ := h.created
  refine ⟨⟨last, hswept.lastCheckpoint_eq.trans hlast, hpoint⟩, new,
    hswept.events_eq.trans hevents, fun c hc => ?_⟩
  obtain ⟨hlt, hle, hlookup, hdigest⟩ := hnew c hc
  refine ⟨hlt, hswept.lastCheckpoint_eq ▸ hle, ?_, hdigest⟩
  rw [hswept.checkpoints_eq last hlast _ (hle last hlast), hlookup]

theorem CreatedSince.commit {c : Chain H A} {supported : Bool} {now n : ℕ} {a' : Anchors H A}
    {att : SignedAttestation H A} (h : CreatedSince T c₀ a₁ roots c.anchors)
      (hchained : c.anchors.Chained T roots)
    (hwf : c.WellFormed T) (hlinked : c.anchors.Linked)
    (hne : att.headerNumber ≠ c.settings.attestationChainGenesisBlockNumber)
    (hcommit : doCommitAttestation T supported now c att = .ok (a', n)) :
    CreatedSince T c₀ a₁ (recordRoots roots att) a' := by
  obtain ⟨last, hlast, hpoint⟩ := h.last
  obtain ⟨new, hevents, hnew⟩ := h.created
  obtain ⟨-, cps, popped, kept, k, rfl, hadvances, hdigests, hroots⟩ :=
    hchained.commit hwf hlinked hlast hne hcommit
  have hsame : ∀ y ≤ last.blockNumber,
      chainDigest T.keccak c₀ (recordRoots roots att) y = chainDigest T.keccak c₀ roots y :=
    fun y hy => HashChain.digestAt_congr fun z _ hz => hroots z (hz.trans hy)
  have hcps : ∀ c' ∈ cps, last.blockNumber < c'.blockNumber ∧
      chainDigest T.keccak c₀ (recordRoots roots att) c'.blockNumber = some c'.digest := by
    intro c' hc'
    have hlt := hadvances.above c' hc' last hlast
    refine ⟨hlt, (HashChain.digestAt_rebase ?_ hlt.le).symm.trans (hdigests c' hc')⟩
    exact (hsame _ le_rfl).trans hpoint
  have hlast' : ∀ l ∈ cps.getLast?.or c.anchors.lastCheckpoint,
      last.blockNumber ≤ l.blockNumber ∧
        chainDigest T.keccak c₀ (recordRoots roots att) l.blockNumber = some l.digest := by
    intro l hl
    rcases mem_or_of_mem_getLast? hl with hmem | ⟨-, hold⟩
    · exact ⟨(hcps l hmem).1.le, (hcps l hmem).2⟩
    · obtain rfl := Option.mem_unique hlast hold
      exact ⟨le_rfl, (hsame _ le_rfl).trans hpoint⟩
  have hbase : c₀.blockNumber ≤ last.blockNumber := HashChain.le_of_digestAt hpoint
  constructor
  · obtain ⟨l, hl⟩ : ∃ l, cps.getLast?.or c.anchors.lastCheckpoint = some l :=
      Option.ne_none_iff_exists'.1 (by simp [hlast])
    exact ⟨l, hl, (hlast' l hl).2⟩
  · refine ⟨new ++ [.blockAttested att.headerNumber (att.digest T.keccak)] ++
      cps.map .checkpointReached, ?_, fun c' hc' => ?_⟩
    · change c.anchors.events ++ _ ++ _ = _
      rw [hevents]
      simp
    · simp only [List.mem_append, List.mem_singleton, reduceCtorEq, or_false, List.mem_map,
        AnchorEvent.checkpointReached.injEq, exists_eq_right] at hc'
      rcases hc' with hold | hmem
      · obtain ⟨hlt, hle, hlookup, hdigest⟩ := hnew c' hold
        have hle' := hle last hlast
        refine ⟨hlt, fun l hl => hle'.trans (hlast' l hl).1, ?_, (hsame _ hle').trans hdigest⟩
        refine (lookup_insertCheckpoints_of_notMem _ cps fun c'' hc'' heq => ?_).trans hlookup
        have := (hcps c'' hc'').1
        omega
      · exact ⟨hbase.trans_lt (hcps c' hmem).1, fun l hl => hadvances.le_last hmem hl,
          hadvances.lookup_insertCheckpoints _ hmem, (hcps c' hmem).2⟩

include hT in
theorem createdSince_run (hreach : Reachable T s) {acts : List (Action T)}
    (hsup : s.isChainSupported k = true) (hsteady : ∀ act ∈ acts, act.steady k = true)
    (hstart : AlongRun (StartsBlank T k) s acts)
    (hchained : (s.chain T k).anchors.Chained T roots)
    (h : CreatedSince T c₀ a₁ roots (s.chain T k).anchors) :
    CreatedSince T c₀ a₁ (recordedRoots T k s acts roots) ((run T s acts).chain T k).anchors := by
  induction acts generalizing s roots with
  | nil => exact h
  | cons act acts ih =>
    have hsup' := isChainSupported_step hreach.keysBelow (hsteady act List.mem_cons_self) hsup
    refine ih (hreach.step act) hsup' (fun act' hact' =>
      hsteady act' (List.mem_cons_of_mem _ hact'))
      hstart.2 (chained_step hT hreach hstart.1 (.inl hsup') fun _ => hchained) ?_
    obtain ⟨hl, hmove⟩ := step_chainMove hreach.keysBelow (.inl hsup')
    have hwf := wellFormed_of_live hreach hl
    rcases hmove.of_steady (hsteady act List.mem_cons_self) with
      ⟨att, a, n, hact, hcommit, heq⟩ | ⟨hnone, hidle⟩
    · obtain ⟨last, hlast, -⟩ := h.last
      have hne := fun heq => hwf.marked.not_blank hlast (hstart.1 att hact heq)
      rw [hact, heq]
      exact h.commit hchained hwf (linked_of_live hT hreach hl) hne hcommit
    · rw [hnone]
      exact h.swept (swept_of_idle hwf hidle).2

/-- **Created checkpoints hold the digests of the chain.** In a run that starts a chain only while
it has nothing, every checkpoint created after a state with last checkpoint `c₀`, by commits and
under any settings, is stored with the digest that the recorded roots give to its height above
`c₀`. -/
theorem created_checkpoints_chained
    (hT : 0 < T.defaultAttestationRetentionDuration ∨ HeightBinding T.keccak)
    {gc : GenesisConfig H A B} (hgen : genesis T gc = some s₀) (acts acts' : List (Action T))
    (hsup : (run T s₀ acts).isChainSupported k = true)
    (hlast : ((run T s₀ acts).chain T k).anchors.lastCheckpoint = some c₀)
    (hsteady : ∀ act ∈ acts', act.steady k = true)
    (hstart : AlongRun (StartsBlank T k) s₀ (acts ++ acts')) :
    ∃ new, ((run T s₀ (acts ++ acts')).chain T k).anchors.events =
        ((run T s₀ acts).chain T k).anchors.events ++ new ∧
      ∀ c, .checkpointReached c ∈ new → c₀.blockNumber < c.blockNumber ∧
        ((run T s₀ (acts ++ acts')).chain T k).anchors.checkpoints.lookup c.blockNumber =
          some c.digest ∧
        chainDigest T.keccak c₀ (recordedRoots T k s₀ (acts ++ acts') fun _ => none)
          c.blockNumber = some c.digest := by
  obtain ⟨hstart₁, hstart₂⟩ := alongRun_append.1 hstart
  have hgenesis : (s₀.chain T k).anchors.Chained T fun _ => none := by
    have huntouched := genesis_untouched (k := k) hgen
    refine ⟨fun _ => huntouched.lastDigest_eq, fun _ => huntouched.queue_eq, ?_, ?_, ?_⟩
    · simp [huntouched.lastDigest_eq]
    · rintro _ _ q ⟨d, hd, -⟩
      simp [huntouched.queue_eq] at hd
    · simp [huntouched.lastDigest_eq]
  have hreach : Reachable T s₀ := reachable_run hgen []
  have hchained := chained_run hT hreach hstart₁ (fun _ => hgenesis) (.inl hsup)
  have hinit : CreatedSince T c₀ ((run T s₀ acts).chain T k).anchors
      (recordedRoots T k s₀ acts fun _ => none) ((run T s₀ acts).chain T k).anchors :=
    ⟨⟨c₀, hlast, HashChain.digestAt_base⟩, [], by simp, by simp⟩
  have hcreated := createdSince_run hT (reachable_run hgen acts) hsup hsteady hstart₂ hchained hinit
  rw [run_append, recordedRoots_append]
  obtain ⟨new, hevents, hnew⟩ := hcreated.created
  exact ⟨new, hevents, fun c hc => ⟨(hnew c hc).1, (hnew c hc).2.2.1, (hnew c hc).2.2.2⟩⟩

end Runs

section Devnet

open Devnet

/-- The first attestation of a development network with a checkpoint at every block. -/
def firstActions : List (Action config) := setup ++ [commit (attestation 0 none ⟨.zero, []⟩)]

/-- Three more attestations, the last of which makes a checkpoint. -/
def laterActions : List (Action config) := commits (started 1 1) [1, 2, 3]

def firstCheckpoint : AttestationCheckpoint Word := .of 0 (.first 0 (.root 0))

/-- The checkpoints of three commits on a development network hold the digests of the chain. -/
theorem devnet_checkpoints_chained :
    ∃ new, ((run config (genesisState (genesisConfig 1 1 [])) (firstActions ++ laterActions)).chain
        config 1).anchors.events =
      ((run config (genesisState (genesisConfig 1 1 [])) firstActions).chain config
        1).anchors.events ++
        new ∧
      ∀ c, .checkpointReached c ∈ new → firstCheckpoint.blockNumber < c.blockNumber ∧
        ((run config (genesisState (genesisConfig 1 1 [])) (firstActions ++ laterActions)).chain
          config 1).anchors.checkpoints.lookup c.blockNumber = some c.digest ∧
        chainDigest config.keccak firstCheckpoint
          (recordedRoots config 1 (genesisState (genesisConfig 1 1 []))
            (firstActions ++ laterActions)
            fun _ => none) c.blockNumber = some c.digest :=
  created_checkpoints_chained (.inl (by decide)) (genesis_eq_genesisState (by rfl))
    firstActions laterActions (by rfl) (by rfl) (by decide +kernel)
    (by decide +kernel)

/-- A checkpoint is imported below the genesis height of the chain. -/
def importActions : List (Action config) :=
  setup ++ [byRoot (.setAttestationChainGenesisBlockNumber 1 100),
    byRoot (.importCheckpoints 1 [checkpoint 50])]

/-- The chain is started above the imported checkpoint and continued from there. -/
def restartActions : List (Action config) :=
  let start := [.block host, commit (attestation 100 none ⟨.zero, []⟩)]
  start ++ commits (run config (genesisState (genesisConfig 50 1 [])) (importActions ++ start))
    [150, 200]

/-- An attestation at the genesis height becomes a checkpoint above an imported one, with a digest
that is not on the chain of the imported one. -/
theorem exists_checkpoint_not_chained :
    ∃ c, .checkpointReached c ∈
        ((run config (genesisState (genesisConfig 50 1 [])) (importActions ++ restartActions)).chain
          config 1).anchors.events.drop
        ((run config (genesisState (genesisConfig 50 1 [])) importActions).chain
          config 1).anchors.events.length ∧
      genesis config (genesisConfig 50 1 []) = some (genesisState (genesisConfig 50 1 [])) ∧
      (run config (genesisState (genesisConfig 50 1 [])) importActions).isChainSupported 1 = true ∧
      ((run config (genesisState (genesisConfig 50 1 [])) importActions).chain
        config 1).anchors.lastCheckpoint = some ⟨50, .root 50, by decide⟩ ∧
      (∀ act ∈ restartActions, act.steady 1 = true) ∧ 50 < c.blockNumber ∧
      chainDigest config.keccak ⟨50, .root 50, by decide⟩
        (recordedRoots config 1 (genesisState (genesisConfig 50 1 []))
          (importActions ++ restartActions) fun _ => none) c.blockNumber ≠ some c.digest :=
  ⟨⟨100, .first 100 (.root 100), by decide⟩, by decide +kernel,
    genesis_eq_genesisState (by rfl), by rfl, by rfl,
    by decide +kernel, by decide, by decide +kernel⟩

end Devnet

end Creditcoin
