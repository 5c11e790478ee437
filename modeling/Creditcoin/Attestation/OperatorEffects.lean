import Creditcoin.Attestation.CommitEffect

/-!
# The effect of imports, reverts, patches and pruning

For each operator call on checkpoints, and for the pruning at the start of blocks, what it writes
and under which conditions. -/

namespace Creditcoin

variable {H A B : Type}

/-! ## Imports -/

/-- The storage after importing the checkpoints `cps`. -/
def Anchors.imported (a : Anchors H A) (cps : List (AttestationCheckpoint H))
    (last : Option (AttestationCheckpoint H)) : Anchors H A :=
  { a with
    checkpoints := insertCheckpoints a.checkpoints cps
    checkpointBuckets := insertBuckets a.checkpointBuckets cps
    events := a.events ++ cps.map .checkpointReached
    lastCheckpoint := last }

/-- Checkpoints of a batch at distinct heights that hold none yet. -/
structure StoresNew (a : Anchors H A) (batch cps : List (AttestationCheckpoint H)) : Prop where
  mem_batch : ∀ c ∈ cps, c ∈ batch
  fresh : ∀ c ∈ cps, a.checkpoints.lookup c.blockNumber = none
  nodup : (cps.map (·.blockNumber)).Nodup

/-- What is known of the checkpoints `cps` that an import stores, and of the last checkpoint it
leaves. -/
structure Imports (a : Anchors H A) (batch cps : List (AttestationCheckpoint H))
    (last : Option (AttestationCheckpoint H)) : Prop extends StoresNew a batch cps where
  last_cases : (last = a.lastCheckpoint ∧
      ∀ c ∈ cps, ∃ l, a.lastCheckpoint = some l ∧ c.blockNumber < l.blockNumber) ∨
    (a.lastCheckpoint = none ∧ a.lastDigest = none ∧
      ∃ m ∈ cps, last = some m ∧ ∀ c ∈ cps, c.blockNumber ≤ m.blockNumber)

section Import

variable {hasAttestations : Bool} {a a' : Anchors H A} {c : AttestationCheckpoint H}
  {batch cps : List (AttestationCheckpoint H)} {newLast newLast' : Option (AttestationCheckpoint H)}

theorem storesNew_nil : StoresNew a batch [] := ⟨by simp, by simp, .nil⟩

theorem StoresNew.skip (h : StoresNew a batch cps) : StoresNew a (c :: batch) cps :=
  { h with mem_batch := fun c' hc' => List.mem_cons_of_mem _ (h.mem_batch c' hc') }

theorem StoresNew.cons (hc : a.checkpoints.lookup c.blockNumber = none)
    (h : StoresNew (a.recordCheckpoint c) batch cps) : StoresNew a (c :: batch) (c :: cps) := by
  have hrest : ∀ c' ∈ cps, c'.blockNumber ≠ c.blockNumber ∧
      a.checkpoints.lookup c'.blockNumber = none := by
    intro c' hc'
    have hlookup := h.fresh c' hc'
    simp only [Anchors.recordCheckpoint, Anchors.storeCheckpoint,
      StorageMap.lookup_insert_eq] at hlookup
    split at hlookup
    · simp at hlookup
    · next hne => exact ⟨hne, hlookup⟩
  refine ⟨?_, ?_, List.nodup_cons.2 ⟨?_, h.nodup⟩⟩
  · simpa using fun c' hc' => Or.inr (h.mem_batch c' hc')
  · simpa using ⟨hc, fun c' hc' => (hrest c' hc').2⟩
  · simpa using fun c' hc' => (hrest c' hc').1

theorem importLoop_some {l : AttestationCheckpoint H}
    (h : importLoop hasAttestations (some l) batch newLast a = .ok (newLast', a')) :
    newLast' = newLast ∧ ∃ cps : List (AttestationCheckpoint H),
      a' = cps.foldl Anchors.recordCheckpoint a ∧ StoresNew a batch cps ∧
      ∀ c ∈ cps, c.blockNumber < l.blockNumber := by
  induction batch generalizing a with
  | nil =>
    simp only [importLoop, Except.ok.injEq, Prod.mk.injEq] at h
    obtain ⟨rfl, rfl⟩ := h
    exact ⟨rfl, [], rfl, storesNew_nil, by simp⟩
  | cons c batch ih =>
    simp only [importLoop] at h
    split at h
    · obtain ⟨hlast, cps, ha, hnew, hlt⟩ := ih h
      exact ⟨hlast, cps, ha, hnew.skip, hlt⟩
    · next hc =>
      split at h
      · obtain ⟨hlast, cps, ha, hnew, hlt⟩ := ih h
        exact ⟨hlast, cps, ha, hnew.skip, hlt⟩
      · next hbelow =>
        obtain ⟨hlast, cps, ha, hnew, hlt⟩ := ih h
        refine ⟨hlast, c :: cps, ha, hnew.cons (by simpa using hc), ?_⟩
        simpa using ⟨by omega, hlt⟩

theorem higherCheckpoint_spec (newLast : Option (AttestationCheckpoint H))
    (c : AttestationCheckpoint H) :
    ∃ n, higherCheckpoint newLast c = some n ∧ (n = c ∨ newLast = some n) ∧
      c.blockNumber ≤ n.blockNumber ∧ ∀ l ∈ newLast, l.blockNumber ≤ n.blockNumber := by
  rcases newLast with _ | l
  · exact ⟨c, rfl, .inl rfl, le_rfl, by simp⟩
  · by_cases hlt : l.blockNumber < c.blockNumber
    · exact ⟨c, if_pos hlt, .inl rfl, le_rfl, by simpa using hlt.le⟩
    · exact ⟨l, if_neg hlt, .inr rfl, by omega, by simp⟩

/-- With no last checkpoint and no attestation, the loop stores the new heights and finds the
highest one. -/
theorem importLoop_none
    (h : importLoop hasAttestations none batch newLast a = .ok (newLast', a')) :
    ∃ cps : List (AttestationCheckpoint H),
      a' = cps.foldl Anchors.recordCheckpoint a ∧ StoresNew a batch cps ∧
      ((cps = [] ∧ newLast' = newLast) ∨
        (hasAttestations = false ∧ ∃ m, newLast' = some m ∧ (m ∈ cps ∨ newLast = some m) ∧
          (∀ c ∈ cps, c.blockNumber ≤ m.blockNumber) ∧
          ∀ n ∈ newLast, n.blockNumber ≤ m.blockNumber)) := by
  induction batch generalizing a newLast with
  | nil =>
    simp only [importLoop, Except.ok.injEq, Prod.mk.injEq] at h
    obtain ⟨rfl, rfl⟩ := h
    exact ⟨[], rfl, storesNew_nil, .inl ⟨rfl, rfl⟩⟩
  | cons c batch ih =>
    simp only [importLoop] at h
    split at h
    · obtain ⟨cps, ha, hnew, hlast⟩ := ih h
      exact ⟨cps, ha, hnew.skip, hlast⟩
    · next hc =>
      split at h
      · simp at h
      · next hatt =>
        obtain ⟨cps, ha, hnew, hlast⟩ := ih h
        refine ⟨c :: cps, ha, hnew.cons (by simpa using hc), .inr ⟨by simpa using hatt, ?_⟩⟩
        -- The running maximum after `c` is at least `c` and at least the one before.
        obtain ⟨n, hn, hmem, hcn, hln⟩ := higherCheckpoint_spec newLast c
        rw [hn] at hlast
        rcases hlast with ⟨rfl, rfl⟩ | ⟨-, m, rfl, hm, hle, hge⟩
        · refine ⟨n, rfl, ?_, by simpa using hcn, hln⟩
          simpa using hmem
        · have hnm : n.blockNumber ≤ m.blockNumber := hge n rfl
          refine ⟨m, rfl, ?_, ?_, fun l hl => (hln l hl).trans hnm⟩
          · rcases hm with hm | hm
            · exact .inl (List.mem_cons_of_mem _ hm)
            · obtain rfl := Option.some.inj hm
              simpa using hmem.imp .inl id
          · simpa using ⟨hcn.trans hnm, hle⟩

/-- **The effect of an import.** -/
theorem doImportCheckpoints_effect {supported : Bool}
    (h : doImportCheckpoints supported a batch = .ok a') :
    supported = true ∧ ∃ cps last, a' = a.imported cps last ∧ Imports a batch cps last := by
  simp only [doImportCheckpoints, bind_eq_ok, ensure_eq_ok] at h
  obtain ⟨-, hsup, ⟨newLast, b⟩, hloop, h⟩ := h
  refine ⟨hsup, ?_⟩
  rcases hlc : a.lastCheckpoint with _ | l
  · rw [hlc] at hloop
    obtain ⟨cps, rfl, hnew, ⟨rfl, rfl⟩ | ⟨hatt, m, rfl, hm, hle, -⟩⟩ := importLoop_none hloop
    · -- Nothing was stored.
      simp only [pure_eq_ok] at h
      subst h
      refine ⟨[], none, ?_, hnew, .inl ⟨hlc.symm, by simp⟩⟩
      simp [Anchors.imported, insertCheckpoints, insertBuckets, ← hlc]
    · simp only [hlc, or_true, if_true, pure_eq_ok] at h
      subst h
      refine ⟨cps, some m, ?_, hnew, .inr ⟨hlc, ?_, m, ?_, rfl, hle⟩⟩
      · rw [foldl_recordCheckpoint]
        rfl
      · simpa using hatt
      · simpa using hm
  · rw [hlc] at hloop
    obtain ⟨rfl, cps, rfl, hnew, hlt⟩ := importLoop_some hloop
    simp only [hlc, Option.map_some, Option.getD_some, lt_irrefl, reduceCtorEq, or_self, if_false,
      pure_eq_ok] at h
    subst h
    refine ⟨cps, some l, ?_, hnew, .inl ⟨hlc.symm, fun c hc => ⟨l, hlc, hlt c hc⟩⟩⟩
    rw [foldl_recordCheckpoint, Anchors.imported, ← hlc]

end Import

/-! ## Reverts -/

section Revert

variable [DecidableEq H] {T : Config H A B} {a a' : Anchors H A}

/-- The storage after a revert to the checkpoint at `height` with the digest `digest`. -/
def Anchors.reverted (T : Config H A B) (kill : KillResult H) (a : Anchors H A) (height : U64)
    (digest : H) (last : AttestationCheckpoint H) : Anchors H A :=
  { (a.clearAttestations kill).purgeBucketAbove T height with
    checkpointingQueue := []
    attestationRemovalQueue := []
    checkpointPruningState :=
      some { stopHeight := last.blockNumber, nextPivot := Anchors.pivotAbove height }
    lastCheckpoint := some ⟨height, digest, height.isLt⟩
    lastDigest := some (height.val, digest)
    events := a.events ++ [.revertedAttestationChainTo height digest] }

/-- **The effect of a revert.** -/
theorem revertTo_effect {supported : Bool} {kill : KillResult H} {height : U64}
    (h : revertTo T supported kill a height = .ok a') :
    supported = true ∧ a.checkpointPruningState = none ∧ a.attestationClearingCursor = none ∧
      ∃ digest last, a.checkpoints.lookup height.val = some digest ∧
        a.lastCheckpoint = some last ∧ a' = a.reverted T kill height digest last := by
  simp only [revertTo, doRevertTo, bind_eq_ok, ensure_eq_ok, okOr_eq_ok, pure_eq_ok] at h
  obtain ⟨-, hsup, -, ⟨hpruning, hcursor⟩, -, ⟨digest, hdigest, last, hlast, rfl⟩, rfl⟩ := h
  exact ⟨hsup, hpruning, hcursor, digest, last, hdigest, hlast, rfl⟩

end Revert

/-! ## Forward patches -/

/-- The entry of a batch that counts for a height: the last one. -/
def lastEntry (batch : List (AttestationCheckpoint H)) (n : ℕ) :
    Option (AttestationCheckpoint H) :=
  (batch.filter fun c => c.blockNumber = n).getLast?

section Merge

variable {batch : List (AttestationCheckpoint H)}

/-- Checkpoints in the strict order of their heights. -/
def Ascending (cps : List (AttestationCheckpoint H)) : Prop :=
  cps.Pairwise fun c c' => c.blockNumber < c'.blockNumber

theorem mem_insertMerged {c x : AttestationCheckpoint H} {l : List (AttestationCheckpoint H)}
    (hl : Ascending l) :
    x ∈ insertMerged c l ↔ x = c ∨ (x ∈ l ∧ x.blockNumber ≠ c.blockNumber) := by
  induction l with
  | nil => simp [insertMerged]
  | cons y l ih =>
    obtain ⟨hy, hl⟩ := List.pairwise_cons.1 hl
    have hx : x ∈ l → y.blockNumber < x.blockNumber := hy x
    rw [insertMerged]
    split
    · next hlt =>
      rw [List.mem_cons, List.mem_cons]
      constructor
      · rintro (rfl | rfl | hmem)
        · exact .inl rfl
        · exact .inr ⟨.inl rfl, hlt.ne'⟩
        · exact .inr ⟨.inr hmem, (hlt.trans (hx hmem)).ne'⟩
      · rintro (rfl | ⟨hmem, -⟩)
        · exact .inl rfl
        · exact .inr hmem
    · split
      · next heq =>
        rw [List.mem_cons, List.mem_cons]
        constructor
        · rintro (rfl | hmem)
          · exact .inl rfl
          · exact .inr ⟨.inr hmem, (heq ▸ hx hmem).ne'⟩
        · rintro (rfl | ⟨rfl | hmem, hne⟩)
          · exact .inl rfl
          · exact absurd heq.symm hne
          · exact .inr hmem
      · next hne =>
        rw [List.mem_cons, ih hl, List.mem_cons]
        constructor
        · rintro (rfl | rfl | ⟨hmem, hxc⟩)
          · exact .inr ⟨.inl rfl, fun h => hne h.symm⟩
          · exact .inl rfl
          · exact .inr ⟨.inr hmem, hxc⟩
        · rintro (rfl | ⟨rfl | hmem, hxc⟩)
          · exact .inr (.inl rfl)
          · exact .inl rfl
          · exact .inr (.inr ⟨hmem, hxc⟩)

theorem Ascending.insertMerged {c : AttestationCheckpoint H} {l : List (AttestationCheckpoint H)}
    (hl : Ascending l) : Ascending (insertMerged c l) := by
  induction l with
  | nil => exact List.pairwise_singleton _ _
  | cons y l ih =>
    obtain ⟨hy, htail⟩ := List.pairwise_cons.1 hl
    rw [Creditcoin.insertMerged]
    split
    · next hlt =>
      refine List.pairwise_cons.2 ⟨fun x hx => ?_, hl⟩
      rcases List.mem_cons.1 hx with rfl | hmem
      · exact hlt
      · exact hlt.trans (hy x hmem)
    · split
      · next heq => exact List.pairwise_cons.2 ⟨fun x hx => heq ▸ hy x hx, htail⟩
      · next hge hne =>
        refine List.pairwise_cons.2 ⟨fun x hx => ?_, ih htail⟩
        rcases (mem_insertMerged htail).1 hx with rfl | ⟨hmem, -⟩
        · omega
        · exact hy x hmem

theorem mergeCheckpoints_spec (batch : List (AttestationCheckpoint H)) :
    Ascending (mergeCheckpoints batch) ∧
      ∀ c, c ∈ mergeCheckpoints batch ↔ lastEntry batch c.blockNumber = some c := by
  induction batch using List.reverseRecOn with
  | nil => exact ⟨.nil, by simp [mergeCheckpoints, lastEntry]⟩
  | append_singleton batch c ih =>
    obtain ⟨hasc, hmem⟩ := ih
    have hstep : mergeCheckpoints (batch ++ [c]) = insertMerged c (mergeCheckpoints batch) := by
      simp [mergeCheckpoints]
    rw [hstep]
    refine ⟨hasc.insertMerged, fun x => ?_⟩
    rw [mem_insertMerged hasc, hmem, lastEntry, lastEntry, List.filter_append]
    by_cases hx : c.blockNumber = x.blockNumber
    · simp [hx, eq_comm]
    · have hne : x ≠ c := fun h => hx (h ▸ rfl)
      simp [hx, hne, Ne.symm hx]

theorem lookup_insertCheckpoints_merge (m : StorageMap ℕ H)
    (batch : List (AttestationCheckpoint H)) (n : ℕ) :
    (insertCheckpoints m (mergeCheckpoints batch)).lookup n =
      match lastEntry batch n with
      | some c => some c.digest
      | none => m.lookup n := by
  obtain ⟨-, hmem⟩ := mergeCheckpoints_spec batch
  have hheight : ∀ c, lastEntry batch n = some c → c.blockNumber = n := fun c hc => by
    simpa using (List.mem_filter.1 (List.mem_of_getLast? hc)).2
  rcases lookup_insertCheckpoints_cases m (mergeCheckpoints batch) n with
    ⟨c, hc, rfl, hlookup⟩ | ⟨hne, hlookup⟩
  · rw [hlookup, (hmem c).1 hc]
  · rcases hlast : lastEntry batch n with _ | c
    · exact hlookup
    · have hc := hheight c hlast
      exact absurd hc (hne c ((hmem c).2 (hc ▸ hlast)))

end Merge

section Patch

variable [DecidableEq H] (T : Config H A B)

/-- What a patch that wipes the suffix leaves to be pruned. -/
def wipePruning (last : Option (AttestationCheckpoint H)) (batchMax : ℕ) :
    Option CheckpointPruningState :=
  match last with
  | some l =>
    if Anchors.pivotAbove batchMax ≤ l.blockNumber then
      some { stopHeight := l.blockNumber, nextPivot := Anchors.pivotAbove batchMax }
    else none
  | none => none

/-- The storage after a patch with the given tip. -/
def Anchors.patched (kill : KillResult H) (a : Anchors H A) (wipe : Bool)
    (batch : List (AttestationCheckpoint H)) (tip : AttestationCheckpoint H) : Anchors H A :=
  let wiped := if wipe then a.purgeBucketAbove T tip.blockNumber else a
  { a.clearAttestations kill with
    checkpoints := insertCheckpoints wiped.checkpoints (mergeCheckpoints batch)
    checkpointBuckets := insertBuckets wiped.checkpointBuckets (mergeCheckpoints batch)
    checkpointingQueue := []
    attestationRemovalQueue := []
    lastDigest := none
    checkpointPruningState :=
      if wipe then wipePruning a.lastCheckpoint tip.blockNumber else none
    lastCheckpoint := some (patchedLast wipe a.lastCheckpoint tip)
    events := a.events ++ (mergeCheckpoints batch).map .checkpointReached ++
      [.forwardCheckpointPatchApplied wipe (patchedLast wipe a.lastCheckpoint tip).blockNumber] }

variable {T} {a a' : Anchors H A}

omit [DecidableEq H] in
theorem wipeSuffix_eq (batchMax : ℕ) (h : a.checkpointPruningState = none) :
    wipeSuffix T a batchMax =
      { a.purgeBucketAbove T batchMax with
        checkpointPruningState := wipePruning a.lastCheckpoint batchMax } := by
  unfold wipeSuffix wipePruning
  rcases a.lastCheckpoint with _ | l
  · simp only [Anchors.purgeBucketAbove, Anchors.removeCheckpoints, h]
  · dsimp only
    split
    · rfl
    · simp only [Anchors.purgeBucketAbove, Anchors.removeCheckpoints, h]

/-- **The effect of a forward patch.** -/
theorem doForwardPatchCheckpoints_effect {supported : Bool} {kill : KillResult H} {wipe : Bool}
    {batch : List (AttestationCheckpoint H)}
    (h : doForwardPatchCheckpoints T supported kill a wipe batch = .ok a') :
    supported = true ∧ a.checkpointPruningState = none ∧ a.attestationClearingCursor = none ∧
      ∃ tip, (mergeCheckpoints batch).getLast? = some tip ∧
        a' = a.patched T kill wipe batch tip := by
  simp only [doForwardPatchCheckpoints, bind_eq_ok, ensure_eq_ok, okOr_eq_ok, pure_eq_ok] at h
  obtain ⟨-, hsup, -, ⟨hpruning, -, -, hcursor⟩, tip, htip, rfl⟩ := h
  refine ⟨hsup, hpruning, hcursor, tip, htip, ?_⟩
  rw [foldl_recordCheckpoint]
  cases wipe with
  | false => simp [Anchors.patched, purgeAttestationsForForwardPatch, Anchors.clearAttestations,
      hpruning]
  | true =>
    rw [if_pos rfl,
      wipeSuffix_eq _ (show (purgeAttestationsForForwardPatch kill a).checkpointPruningState
      = none from hpruning)]
    rfl

end Patch

/-! ## The steps of the anchors -/

section Effects

variable [DecidableEq H] [DecidableEq A] (T : Config H A B) (supported : Bool) (st : Settings)
  (r : Roster A) (a : Anchors H A)

/-- The steps of the anchors, with the calls of operators by their effects. -/
inductive AnchorEffect : Anchors H A → Prop
  | committed {a' : Anchors H A} {n : ℕ} (now : ℕ) (att : SignedAttestation H A)
      (h : doCommitAttestation T supported now ⟨a, r, st⟩ att = .ok (a', n)) : AnchorEffect a'
  | imported {batch cps : List (AttestationCheckpoint H)} {last : Option (AttestationCheckpoint H)}
      (h : Imports a batch cps last) : AnchorEffect (a.imported cps last)
  | reverted {height : U64} {digest : H} {last : AttestationCheckpoint H} (kill : KillResult H)
      (hpruning : a.checkpointPruningState = none)
      (hdigest : a.checkpoints.lookup height.val = some digest)
      (hlast : a.lastCheckpoint = some last) : AnchorEffect (a.reverted T kill height digest last)
  | patched {wipe : Bool} {batch : List (AttestationCheckpoint H)} {tip : AttestationCheckpoint H}
      (kill : KillResult H) (hpruning : a.checkpointPruningState = none)
      (htip : (mergeCheckpoints batch).getLast? = some tip) :
      AnchorEffect (a.patched T kill wipe batch tip)
  | swept {a' : Anchors H A} (h : Sweep T a a') : AnchorEffect a'

variable {T supported st r a} {a' : Anchors H A}

theorem AnchorStep.effect (h : AnchorStep T supported st r a a') :
    AnchorEffect T supported st r a a' := by
  cases h with
  | committed now att hcommit => exact .committed now att hcommit
  | imported batch himport =>
    obtain ⟨-, cps, last, rfl, himports⟩ := doImportCheckpoints_effect himport
    exact .imported himports
  | reverted kill height hrevert =>
    obtain ⟨-, hpruning, -, digest, last, hdigest, hlast, rfl⟩ := revertTo_effect hrevert
    exact .reverted kill hpruning hdigest hlast
  | patched kill wipe batch hpatch =>
    obtain ⟨-, hpruning, -, tip, htip, rfl⟩ := doForwardPatchCheckpoints_effect hpatch
    exact .patched kill hpruning htip
  | swept hsweep => exact .swept hsweep

end Effects

end Creditcoin
