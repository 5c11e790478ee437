import Creditcoin.Attestation.Linkage

/-!
# The last checkpoint

`Marked`: the last checkpoint is set exactly when the checkpoint map has an entry, and the map holds
its digest at its height. `Capped`: each checkpoint above it lies in a bucket still to be pruned.
Every step keeps both. The genesis build sets the last checkpoint anew with each entry, so it
establishes `Capped` only when the last entry with checkpoints has the highest one. -/

namespace Creditcoin

open Relation (ReflTransGen)

variable {H A B : Type}

/-! ## The invariants -/

/-- The last checkpoint is a stored one, and pruning stays above it. -/
structure Anchors.Marked (a : Anchors H A) : Prop where
  indexed : a.Indexed
  empty : a.lastCheckpoint = none → ∀ n, a.checkpoints.lookup n = none
  stored : ∀ c ∈ a.lastCheckpoint, a.checkpoints.lookup c.blockNumber = some c.digest
  pruning : ∀ state ∈ a.checkpointPruningState, state.OnGrid ∧
    ∃ c ∈ a.lastCheckpoint, computeBlockIndexFor c.blockNumber < state.nextPivot
  checkpointCursor : a.checkpointClearingCursor = none
  bucketCursor : a.bucketClearingCursor = none

/-- Every checkpoint above the last one lies in a bucket that is still to be pruned. -/
def Anchors.Capped (a : Anchors H A) : Prop :=
  ∀ c ∈ a.lastCheckpoint, ∀ n, c.blockNumber < n → (a.checkpoints.lookup n).isSome = true →
    ∃ state ∈ a.checkpointPruningState, state.Pending n

section Grid

theorem pivotAbove_onGrid (height stop : ℕ) :
    (⟨stop, Anchors.pivotAbove height⟩ : CheckpointPruningState).OnGrid := by
  have hmod := computeBlockIndexFor_mod height
  unfold CheckpointPruningState.OnGrid Anchors.pivotAbove satAdd
  unfold checkpointBucketSize u64Max at *
  dsimp only
  omega

theorem lt_pivotAbove {height : ℕ} (h : height < 2 ^ 64) :
    computeBlockIndexFor height < Anchors.pivotAbove height := by
  have hmod := computeBlockIndexFor_mod height
  have hle := computeBlockIndexFor_le height
  unfold Anchors.pivotAbove satAdd
  unfold checkpointBucketSize u64Max at *
  omega

theorem pivotAbove_le {height n : ℕ} (hlt : height < n)
    (hne : computeBlockIndexFor n ≠ computeBlockIndexFor height) :
    Anchors.pivotAbove height ≤ computeBlockIndexFor n := by
  have hmono := computeBlockIndexFor_mono hlt.le
  have hmod := computeBlockIndexFor_mod height
  have hmod' := computeBlockIndexFor_mod n
  refine (satAdd_le _ _ _).trans ?_
  unfold checkpointBucketSize at *
  omega

end Grid

section Steps

variable {T : Config H A B} {a : Anchors H A}

theorem Anchors.Marked.keys_ne_nil (h : a.Marked) {cp : AttestationCheckpoint H}
    (hcp : a.lastCheckpoint = some cp) : a.checkpoints.keys ≠ [] := by
  intro hkeys
  have hnone := (StorageMap.keys_eq_nil_iff _).1 hkeys cp.blockNumber
  simp [h.stored cp hcp] at hnone

theorem Anchors.Marked.keys_eq_nil_iff (h : a.Marked) :
    a.checkpoints.keys = [] ↔ a.lastCheckpoint = none := by
  refine ⟨fun hkeys => ?_, fun hnone => (StorageMap.keys_eq_nil_iff _).2 (h.empty hnone)⟩
  by_contra hsome
  obtain ⟨cp, hcp⟩ := Option.ne_none_iff_exists'.1 hsome
  exact h.keys_ne_nil hcp hkeys

theorem Anchors.Marked.not_blank (h : a.Marked) {cp : AttestationCheckpoint H}
    (hcp : a.lastCheckpoint = some cp) : ¬ a.Blank :=
  fun hblank => h.keys_ne_nil hcp hblank.2

/-! ## Commits -/

variable [DecidableEq H] {cps : List (AttestationCheckpoint H)}

theorem Anchors.Marked.condensed (h : a.Marked) (hpruning : a.checkpointPruningState = none)
    {header : ℕ} {popped kept : List H} {k : ℕ} (hadv : Advances a.lastCheckpoint header cps) :
    (a.condensed cps popped kept k).Marked where
  indexed := h.indexed.insert cps rfl rfl
  empty hnone n := by
    obtain ⟨hlast, hold⟩ := Option.or_eq_none_iff.1 hnone
    obtain rfl := List.getLast?_eq_none_iff.1 hlast
    exact h.empty hold n
  stored c hc := by
    rcases mem_or_of_mem_getLast? hc with hmem | ⟨rfl, hold⟩
    · exact hadv.lookup_insertCheckpoints _ hmem
    · exact h.stored c hold
  pruning state hstate := by
    change state ∈ a.checkpointPruningState at hstate
    simp [hpruning] at hstate
  checkpointCursor := h.checkpointCursor
  bucketCursor := h.bucketCursor

theorem Anchors.Capped.condensed (h : a.Capped) (hmarked : a.Marked)
    (hpruning : a.checkpointPruningState = none) {header : ℕ} {popped kept : List H} {k : ℕ}
    (hadv : Advances a.lastCheckpoint header cps) : (a.condensed cps popped kept k).Capped := by
  intro c hc n hlt hn
  change ((insertCheckpoints a.checkpoints cps).lookup n).isSome = true at hn
  -- A height above the new last checkpoint is not a new one.
  have hold : (a.checkpoints.lookup n).isSome = true := by
    rcases lookup_insertCheckpoints_cases a.checkpoints cps n with ⟨c', hc', rfl, -⟩ | ⟨-, heq⟩
    · exact absurd hlt (not_lt.2 (hadv.le_last hc' hc))
    · rwa [heq] at hn
  rcases hlc : a.lastCheckpoint with _ | l
  · rw [hmarked.empty hlc n] at hold
    simp at hold
  · have hle : l.blockNumber ≤ c.blockNumber := by
      rcases mem_or_of_mem_getLast? hc with hmem | ⟨-, hold⟩
      · exact (hadv.above c hmem l hlc).le
      · rw [Option.mem_unique hlc hold]
    obtain ⟨state, hstate, -⟩ := h l hlc n (by omega) hold
    simp [hpruning] at hstate

/-! ## Imports -/

variable {batch : List (AttestationCheckpoint H)}

omit [DecidableEq H] in
theorem Anchors.Marked.imported (h : a.Marked) {last : Option (AttestationCheckpoint H)}
    (himports : Imports a batch cps last) : (a.imported cps last).Marked := by
  have hlookup : ∀ c ∈ cps,
      (insertCheckpoints a.checkpoints cps).lookup c.blockNumber = some c.digest := by
    intro c hc
    obtain ⟨c', hc', hblock, heq⟩ :=
      exists_of_lookup_insertCheckpoints a.checkpoints cps ⟨c, hc, rfl⟩
    rw [heq, List.inj_on_of_nodup_map himports.nodup hc' hc hblock]
  refine ⟨h.indexed.insert cps rfl rfl, ?_, ?_, ?_, h.checkpointCursor, h.bucketCursor⟩
  · intro hnone n
    change last = none at hnone
    rcases himports.last_cases with ⟨rfl, hbelow⟩ | ⟨-, -, m, -, rfl, -⟩
    · rcases cps with _ | ⟨c, cps⟩
      · exact h.empty hnone n
      · obtain ⟨l, hl, -⟩ := hbelow c List.mem_cons_self
        simp [hnone] at hl
    · simp at hnone
  · intro c hc
    change last = some c at hc
    rcases himports.last_cases with ⟨rfl, -⟩ | ⟨-, -, m, hm, rfl, -⟩
    · -- The height of the last checkpoint is taken, so it is not imported again.
      have hold := h.stored c hc
      refine (lookup_insertCheckpoints_of_notMem _ _ fun c' hc' hblock => ?_).trans hold
      have hfresh := himports.fresh c' hc'
      rw [hblock, hold] at hfresh
      simp at hfresh
    · obtain rfl := Option.some.inj hc
      exact hlookup m hm
  · intro state hstate
    obtain ⟨hgrid, c, hc, hlt⟩ := h.pruning state hstate
    refine ⟨hgrid, ?_⟩
    rcases himports.last_cases with ⟨rfl, -⟩ | ⟨hnone, -⟩
    · exact ⟨c, hc, hlt⟩
    · simp [hnone] at hc

omit [DecidableEq H] in
theorem Anchors.Capped.imported (h : a.Capped) (hmarked : a.Marked)
    {last : Option (AttestationCheckpoint H)} (himports : Imports a batch cps last) :
    (a.imported cps last).Capped := by
  intro c hc n hlt hn
  change last = some c at hc
  change ((insertCheckpoints a.checkpoints cps).lookup n).isSome = true at hn
  rcases himports.last_cases with ⟨rfl, hbelow⟩ | ⟨hnone, -, m, hm, rfl, hle⟩
  · rcases lookup_insertCheckpoints_cases a.checkpoints cps n with ⟨c', hc', rfl, -⟩ | ⟨-, heq⟩
    · obtain ⟨l, hl, hlt'⟩ := hbelow c' hc'
      rw [hc, Option.some.injEq] at hl
      subst hl
      omega
    · exact h c hc n hlt (heq ▸ hn)
  · obtain rfl := Option.some.inj hc
    rcases lookup_insertCheckpoints_cases a.checkpoints cps n with ⟨c', hc', rfl, -⟩ | ⟨-, heq⟩
    · have := hle c' hc'
      omega
    · rw [heq, hmarked.empty hnone n] at hn
      simp at hn

/-! ## Reverts -/

theorem Anchors.Marked.reverted (h : a.Marked) (kill : KillResult H) {height : U64} {digest : H}
    {last : AttestationCheckpoint H} (hdigest : a.checkpoints.lookup height.val = some digest) :
    (a.reverted T kill height digest last).Marked := by
  have hindexed := h.indexed.purgeBucketAbove T height
  refine ⟨⟨hindexed.row_iff, hindexed.height_lt⟩, ?_, ?_, ?_, h.checkpointCursor, h.bucketCursor⟩
  · simp [Anchors.reverted]
  · intro c hc
    obtain rfl := Option.some.inj hc
    refine (h.indexed.lookup_purgeBucketAbove T height height).trans ?_
    rw [if_neg (by simp), hdigest]
  · intro state hstate
    obtain rfl := Option.some.inj hstate
    exact ⟨pivotAbove_onGrid _ _, _, rfl, lt_pivotAbove height.isLt⟩

theorem Anchors.Capped.reverted (h : a.Capped) (hmarked : a.Marked)
    (hpruning : a.checkpointPruningState = none) (kill : KillResult H) {height : U64} {digest : H}
    {last : AttestationCheckpoint H} (hlast : a.lastCheckpoint = some last) :
    (a.reverted T kill height digest last).Capped := by
  intro c hc n hlt hn
  obtain rfl := Option.some.inj hc
  have hn' := congrArg Option.isSome (hmarked.indexed.lookup_purgeBucketAbove T height n)
  rw [show ((a.purgeBucketAbove T height).checkpoints.lookup n).isSome = true from hn] at hn'
  split at hn'
  · simp at hn'
  · next hother =>
    have hne : computeBlockIndexFor n ≠ computeBlockIndexFor height := fun heq =>
      hother ⟨hlt, heq⟩
    refine ⟨_, rfl, pivotAbove_le hlt hne, ?_⟩
    -- Before the revert nothing was stored above the last checkpoint.
    have hle : n ≤ last.blockNumber := by
      by_contra hgt
      obtain ⟨state, hstate, -⟩ := h last hlast n (not_le.1 hgt) hn'.symm
      simp [hpruning] at hstate
    exact (computeBlockIndexFor_le n).trans hle

/-! ## Forward patches -/

variable {tip : AttestationCheckpoint H} {wipe : Bool}

theorem Anchors.Marked.lookup_patched (h : a.Marked) (kill : KillResult H) (n : ℕ) :
    (a.patched T kill wipe batch tip).checkpoints.lookup n =
      match lastEntry batch n with
      | some c => some c.digest
      | none =>
        if wipe = true ∧ tip.blockNumber < n ∧
            computeBlockIndexFor n = computeBlockIndexFor tip.blockNumber then none
        else a.checkpoints.lookup n := by
  refine (lookup_insertCheckpoints_merge _ batch n).trans ?_
  rcases lastEntry batch n with _ | c
  · cases wipe with
    | false => simp
    | true =>
      simp only [if_true, true_and]
      exact h.indexed.lookup_purgeBucketAbove T tip.blockNumber n
  · rfl

section

omit [DecidableEq H]

theorem blockNumber_le_tip (htip : (mergeCheckpoints batch).getLast? = some tip) {n : ℕ}
    {c : AttestationCheckpoint H} (hc : lastEntry batch n = some c) :
    c.blockNumber = n ∧ n ≤ tip.blockNumber := by
  obtain ⟨hasc, hmem⟩ := mergeCheckpoints_spec batch
  have hn : c.blockNumber = n := by
    simpa using (List.mem_filter.1 (List.mem_of_getLast? hc)).2
  have hc' : c ∈ mergeCheckpoints batch := (hmem c).2 (hn ▸ hc)
  refine ⟨hn, ?_⟩
  obtain ⟨front, heq⟩ := List.getLast?_eq_some_iff.1 htip
  rw [heq] at hc'
  rcases List.mem_append.1 hc' with hfront | hlast
  · unfold Ascending at hasc
    rw [heq] at hasc
    exact hn ▸ ((List.pairwise_append.1 hasc).2.2 c hfront tip (by simp)).le
  · rw [← hn, List.mem_singleton.1 hlast]

theorem lastEntry_tip (htip : (mergeCheckpoints batch).getLast? = some tip) :
    lastEntry batch tip.blockNumber = some tip :=
  ((mergeCheckpoints_spec batch).2 tip).1 (List.mem_of_getLast? htip)

/-- The last checkpoint after a patch is the tip, or the old one where nothing is wiped and it is
higher. -/
theorem patchedLast_cases (wipe : Bool) (last : Option (AttestationCheckpoint H))
    (tip : AttestationCheckpoint H) :
    (patchedLast wipe last tip = tip ∧
      (wipe = false → ∀ l ∈ last, l.blockNumber ≤ tip.blockNumber)) ∨
    (wipe = false ∧ ∃ l, last = some l ∧ tip.blockNumber < l.blockNumber ∧
      patchedLast wipe last tip = l) := by
  rcases last with _ | l
  · exact .inl ⟨rfl, by simp⟩
  · by_cases hkeep : wipe = false ∧ tip.blockNumber < l.blockNumber
    · exact .inr ⟨hkeep.1, l, rfl, hkeep.2, if_pos hkeep⟩
    · refine .inl ⟨if_neg hkeep, fun hwipe l' hl' => ?_⟩
      obtain rfl := Option.some.inj hl'
      exact not_lt.1 fun hlt => hkeep ⟨hwipe, hlt⟩

end

theorem Anchors.Marked.patched (h : a.Marked) (kill : KillResult H)
    (htip : (mergeCheckpoints batch).getLast? = some tip) :
    (a.patched T kill wipe batch tip).Marked := by
  refine ⟨?_, ?_, ?_, ?_, h.checkpointCursor, h.bucketCursor⟩
  · cases wipe with
    | false => exact h.indexed.insert _ rfl rfl
    | true => exact (h.indexed.purgeBucketAbove T tip.blockNumber).insert _ rfl rfl
  · simp [Anchors.patched]
  · intro c hc
    obtain rfl := Option.some.inj hc
    rw [h.lookup_patched kill]
    rcases patchedLast_cases wipe a.lastCheckpoint tip with ⟨heq, -⟩ | ⟨hwipe, l, hl, hlt, heq⟩
    · simp only [heq, lastEntry_tip htip]
    · rw [heq]
      rcases hentry : lastEntry batch l.blockNumber with _ | c
      · simp only [hwipe, Bool.false_eq_true, false_and, if_false]
        exact h.stored l hl
      · have := (blockNumber_le_tip htip hentry).2
        omega
  · intro state hstate
    change state ∈ (if wipe then wipePruning a.lastCheckpoint tip.blockNumber else none) at hstate
    cases wipe with
    | false => simp at hstate
    | true =>
      simp only [if_true, wipePruning] at hstate
      rcases hlast : a.lastCheckpoint with _ | l
      · simp [hlast] at hstate
      · simp only [hlast, Option.mem_def] at hstate
        split at hstate
        · obtain rfl := Option.some.inj hstate
          refine ⟨pivotAbove_onGrid _ _, _, rfl, ?_⟩
          simpa [patchedLast, hlast] using lt_pivotAbove tip.blockNumber_lt
        · simp at hstate

theorem Anchors.Capped.patched (h : a.Capped) (hmarked : a.Marked)
    (hpruning : a.checkpointPruningState = none) (kill : KillResult H)
    (htip : (mergeCheckpoints batch).getLast? = some tip) :
    (a.patched T kill wipe batch tip).Capped := by
  intro c hc n hlt hn
  obtain rfl := Option.some.inj hc
  rw [hmarked.lookup_patched kill] at hn
  have htiple : tip.blockNumber < n := by
    rcases patchedLast_cases wipe a.lastCheckpoint tip with ⟨heq, -⟩ | ⟨-, l, -, hle, heq⟩
    · exact heq ▸ hlt
    · exact hle.trans (heq ▸ hlt)
  rcases hentry : lastEntry batch n with _ | c
  · simp only [hentry] at hn
    split at hn
    · simp at hn
    · next hother =>
      -- The height was stored before, so it is at most the old last checkpoint.
      rcases hlast : a.lastCheckpoint with _ | l
      · rw [hmarked.empty hlast n] at hn
        simp at hn
      · have hle : n ≤ l.blockNumber := by
          by_contra hgt
          obtain ⟨state, hstate, -⟩ := h l hlast n (not_le.1 hgt) hn
          simp [hpruning] at hstate
        cases wipe with
        | false =>
          rcases patchedLast_cases false a.lastCheckpoint tip with ⟨-, hold⟩ | ⟨-, l', hl', -, heq⟩
          · have := hold rfl l hlast
            omega
          · rw [hlast, Option.some.injEq] at hl'
            rw [heq, ← hl'] at hlt
            omega
        | true =>
          have hpivot := pivotAbove_le htiple fun heq => hother ⟨rfl, htiple, heq⟩
          have hnle := computeBlockIndexFor_le n
          refine ⟨⟨l.blockNumber, Anchors.pivotAbove tip.blockNumber⟩, ?_, hpivot, hnle.trans hle⟩
          change (if true = true then wipePruning a.lastCheckpoint tip.blockNumber else none) = _
          rw [if_pos rfl, hlast, wipePruning]
          exact if_pos (by omega)
  · have := (blockNumber_le_tip htip hentry).2
    omega

/-! ## Pruning -/

omit [DecidableEq H] in
theorem Anchors.Marked.pruned (h : a.Marked) {state : CheckpointPruningState}
    (hstate : a.checkpointPruningState = some state) : (pruneCheckpoints T state a).Marked := by
  obtain ⟨hgrid, c, hc, hlt⟩ := h.pruning state hstate
  have hprunes := pruneCheckpoints_spec (T := T) h.indexed hgrid
  obtain ⟨checkpoints, buckets, pruning, heq⟩ := pruneCheckpoints_frame (T := T) state a
  rw [heq] at hprunes ⊢
  refine ⟨hprunes.indexed, fun hnone => ?_, fun c' hc' => ?_, fun state' hstate' => ?_,
    h.checkpointCursor, h.bucketCursor⟩
  · change a.lastCheckpoint = none at hnone
    simp [hnone] at hc
  · change a.lastCheckpoint = some c' at hc'
    obtain rfl : c = c' := Option.mem_unique hc hc'
    rcases hprunes.deleted c.blockNumber with hkept | ⟨-, hpending⟩
    · exact hkept.trans (h.stored c hc)
    · exact absurd hpending.1 (not_le.2 hlt)
  · obtain ⟨-, hnext, hgrid'⟩ := hprunes.left state' hstate'
    exact ⟨hgrid', c, hc, hlt.trans_le hnext⟩

omit [DecidableEq H] in
theorem Anchors.Capped.pruned (h : a.Capped) (hmarked : a.Marked) {state : CheckpointPruningState}
    (hstate : a.checkpointPruningState = some state) : (pruneCheckpoints T state a).Capped := by
  obtain ⟨hgrid, -⟩ := hmarked.pruning state hstate
  have hprunes := pruneCheckpoints_spec (T := T) hmarked.indexed hgrid
  intro c hc n hlt hn
  have hlast : a.lastCheckpoint = some c := by
    obtain ⟨checkpoints, buckets, pruning, heq⟩ := pruneCheckpoints_frame (T := T) state a
    rw [heq] at hc
    exact hc
  have hsome : (pruneCheckpoints T state a).checkpoints.lookup n ≠ none :=
    Option.isSome_iff_ne_none.1 hn
  have hold : (a.checkpoints.lookup n).isSome = true := by
    rcases hprunes.deleted n with hkept | ⟨hnone, -⟩
    · exact hkept ▸ hn
    · exact absurd hnone hsome
  obtain ⟨state', hstate', hpending⟩ := h c hlast n hlt hold
  obtain rfl : state = state' := Option.mem_unique hstate hstate'
  -- A checkpoint that is still there has not been passed.
  by_contra hnot
  refine hsome (hprunes.passed n hpending fun state' hleft => ?_)
  obtain ⟨hstop, -, -⟩ := hprunes.left state' hleft
  by_contra hge
  exact hnot ⟨state', hleft, not_lt.1 hge, hstop ▸ hpending.2⟩

/-! ## Every step -/

variable [DecidableEq A] {supported : Bool} {st : Settings} {r : Roster A} {a' : Anchors H A}

omit [DecidableEq A] in
theorem Anchors.Marked.store (h : a.Marked) (now : ℕ) (att : SignedAttestation H A) :
    (storeAttestation T now a att).Marked :=
  ⟨⟨h.indexed.row_iff, h.indexed.height_lt⟩, h.empty, h.stored, h.pruning, h.checkpointCursor,
    h.bucketCursor⟩

omit [DecidableEq A] in
theorem Anchors.Marked.sweep_cases (h : a.Marked) (hsweep : Sweep T a a') :
    (∃ state, a.checkpointPruningState = some state ∧ a' = pruneCheckpoints T state a) ∨
      ∃ kill, a.attestationClearingCursor ≠ none ∧ a' = a.clearAttestations kill := by
  cases hsweep with
  | @pruned state hstate => exact .inl ⟨state, hstate, rfl⟩
  | checkpointsCleared kill hcursor => exact absurd h.checkpointCursor hcursor
  | bucketsCleared kill hcursor => exact absurd h.bucketCursor hcursor
  | attestationsCleared kill hcursor => exact .inr ⟨kill, hcursor, rfl⟩

theorem AnchorStep.marked (hst : st.Bounded T) (hproofs : a.ProofsBounded) (h : a.Marked)
    (hstep : AnchorStep T supported st r a a') : a'.Marked := by
  cases hstep.effect with
  | committed now att hcommit =>
    obtain ⟨haccepted, cps, popped, kept, k, rfl, heffect⟩ :=
      doCommitAttestation_effect (c := ⟨a, r, st⟩) hst hproofs hcommit
    exact (h.store now att).condensed haccepted.pruning_eq heffect.advances
  | imported himports => exact h.imported himports
  | reverted kill _ hdigest _ => exact h.reverted kill hdigest
  | patched kill _ htip => exact h.patched kill htip
  | swept hsweep =>
    rcases h.sweep_cases hsweep with ⟨state, hstate, rfl⟩ | ⟨kill, -, rfl⟩
    · exact h.pruned hstate
    · exact ⟨⟨h.indexed.row_iff, h.indexed.height_lt⟩, h.empty, h.stored, h.pruning,
        h.checkpointCursor, h.bucketCursor⟩

theorem AnchorStep.capped (hst : st.Bounded T) (hproofs : a.ProofsBounded) (hmarked : a.Marked)
    (h : a.Capped) (hstep : AnchorStep T supported st r a a') : a'.Capped := by
  cases hstep.effect with
  | committed now att hcommit =>
    obtain ⟨haccepted, cps, popped, kept, k, rfl, heffect⟩ :=
      doCommitAttestation_effect (c := ⟨a, r, st⟩) hst hproofs hcommit
    have hcapped : (storeAttestation T now a att).Capped := h
    exact hcapped.condensed (hmarked.store now att) haccepted.pruning_eq heffect.advances
  | imported himports => exact h.imported hmarked himports
  | reverted kill hpruning _ hlast => exact h.reverted hmarked hpruning kill hlast
  | patched kill hpruning htip => exact h.patched hmarked hpruning kill htip
  | swept hsweep =>
    rcases hmarked.sweep_cases hsweep with ⟨state, hstate, rfl⟩ | ⟨kill, -, rfl⟩
    · exact h.pruned hmarked hstate
    · exact h

end Steps

/-! ## Genesis -/

section Genesis

/-- The checkpoints that the genesis configuration lists for a chain, entry by entry. -/
def GenesisConfig.batches (gc : GenesisConfig H A B) (k : ChainKey) :
    List (List (AttestationCheckpoint H)) :=
  (gc.attestationChainConfigurations.filter fun cfg => cfg.chainKey = k).map (·.checkpoints)

/-- The last entry with checkpoints has the highest of all. -/
def HighestLast (batches : List (List (AttestationCheckpoint H))) : Prop :=
  ∀ last ∈ (batches.filter fun b => !b.isEmpty).getLast?,
    ∀ b ∈ batches, ∀ c ∈ b, ∃ c' ∈ last, c.blockNumber ≤ c'.blockNumber

/-- The anchors a chain starts with. -/
def buildBatches (batches : List (List (AttestationCheckpoint H))) : Anchors H A :=
  batches.foldl (fun a checkpoints => buildAnchors checkpoints a) .empty

theorem highestCheckpoint_spec (cps : List (AttestationCheckpoint H)) (m : StorageMap ℕ H) :
    (highestCheckpoint cps = none ∧ cps = []) ∨
      ∃ c ∈ cps, highestCheckpoint cps = some c ∧ (∀ c' ∈ cps, c'.blockNumber ≤ c.blockNumber) ∧
        (insertCheckpoints m cps).lookup c.blockNumber = some c.digest := by
  induction cps using List.reverseRecOn with
  | nil => exact .inl ⟨rfl, rfl⟩
  | append_singleton cps c ih =>
    have hinsert : insertCheckpoints m (cps ++ [c]) =
        (insertCheckpoints m cps).insert c.blockNumber c.digest := by
      simp [insertCheckpoints]
    rw [hinsert]
    refine .inr ?_
    rcases ih with ⟨-, rfl⟩ | ⟨l, hl, hsome, hle, hlookup⟩
    · exact ⟨c, by simp, rfl, by simp, AList.lookup_insert _⟩
    · have hstep : highestCheckpoint (cps ++ [c]) =
          if l.blockNumber ≤ c.blockNumber then some c else some l := by
        rw [highestCheckpoint, List.foldl_append, ← highestCheckpoint, hsome]
        rfl
      rw [hstep]
      by_cases hlc : l.blockNumber ≤ c.blockNumber
      · refine ⟨c, by simp, if_pos hlc, ?_, AList.lookup_insert _⟩
        intro c' hc'
        rcases List.mem_append.1 hc' with hmem | hmem
        · exact (hle c' hmem).trans hlc
        · rw [List.mem_singleton.1 hmem]
      · refine ⟨l, List.mem_append_left _ hl, if_neg hlc, ?_, ?_⟩
        · intro c' hc'
          rcases List.mem_append.1 hc' with hmem | hmem
          · exact hle c' hmem
          · rw [List.mem_singleton.1 hmem]
            omega
        · rw [StorageMap.lookup_insert_eq, if_neg (by omega), hlookup]

theorem buildAnchors_eq (checkpoints : List (AttestationCheckpoint H)) (a : Anchors H A) :
    buildAnchors checkpoints a =
      { a with
        checkpoints := insertCheckpoints a.checkpoints checkpoints
        checkpointBuckets := insertBuckets a.checkpointBuckets checkpoints
        lastCheckpoint := (highestCheckpoint checkpoints).or a.lastCheckpoint } := by
  rw [buildAnchors, foldl_storeCheckpoint]

theorem Anchors.Marked.buildAnchors {a : Anchors H A} (h : a.Marked)
    (hpruning : a.checkpointPruningState = none) (checkpoints : List (AttestationCheckpoint H)) :
    (buildAnchors checkpoints a).Marked := by
  rw [buildAnchors_eq]
  rcases highestCheckpoint_spec checkpoints a.checkpoints with
    ⟨hnone, rfl⟩ | ⟨c, hc, hsome, -, hlookup⟩
  · refine ⟨h.indexed.insert [] rfl rfl, ?_, ?_, ?_, h.checkpointCursor, h.bucketCursor⟩
    · exact h.empty
    · exact h.stored
    · exact h.pruning
  · refine ⟨h.indexed.insert checkpoints rfl rfl, ?_, ?_, ?_, h.checkpointCursor, h.bucketCursor⟩
    · simp [hsome]
    · intro c' hc'
      simp only [hsome, Option.some_or, Option.mem_some_iff] at hc'
      exact hc' ▸ hlookup
    · intro state hstate
      change state ∈ a.checkpointPruningState at hstate
      simp [hpruning] at hstate

theorem Anchors.marked_empty : (Anchors.empty : Anchors H A).Marked := by
  refine ⟨Anchors.indexed_empty, ?_, ?_, ?_, rfl, rfl⟩ <;> simp [Anchors.empty]

theorem buildBatches_spec (batches : List (List (AttestationCheckpoint H))) :
    (buildBatches batches : Anchors H A).Untouched ∧ (buildBatches batches : Anchors H A).Marked ∧
      (∀ n, ((buildBatches batches : Anchors H A).checkpoints.lookup n).isSome = true ↔
        ∃ b ∈ batches, ∃ c ∈ b, c.blockNumber = n) ∧
      (buildBatches batches : Anchors H A).lastCheckpoint =
        (batches.filter fun b => !b.isEmpty).getLast?.bind highestCheckpoint := by
  induction batches using List.reverseRecOn with
  | nil =>
    refine ⟨Anchors.untouched_empty, Anchors.marked_empty, ?_, rfl⟩
    simp [buildBatches, Anchors.empty]
  | append_singleton batches b ih =>
    obtain ⟨huntouched, hmarked, hstored, hlast⟩ := ih
    have hstep : (buildBatches (batches ++ [b]) : Anchors H A) =
        buildAnchors b (buildBatches batches) := by
      simp [buildBatches]
    rw [hstep]
    refine ⟨huntouched.buildAnchors b, hmarked.buildAnchors huntouched.pruning_eq b,
      fun n => ?_, ?_⟩
    · rw [buildAnchors_eq]
      rcases lookup_insertCheckpoints_cases
        (buildBatches batches : Anchors H A).checkpoints b n with
        ⟨c, hc, hn, hlookup⟩ | ⟨hne, hlookup⟩
      · refine iff_of_true ?_ ⟨b, by simp, c, hc, hn⟩
        simp [hlookup]
      · simp only [hlookup, hstored]
        constructor
        · rintro ⟨b', hb', c, hc, hn⟩
          exact ⟨b', List.mem_append_left _ hb', c, hc, hn⟩
        · rintro ⟨b', hb', c, hc, hn⟩
          rcases List.mem_append.1 hb' with hmem | hmem
          · exact ⟨b', hmem, c, hc, hn⟩
          · exact absurd hn (hne c (List.mem_singleton.1 hmem ▸ hc))
    · rw [buildAnchors_eq]
      rcases highestCheckpoint_spec b ∅ with ⟨hnone, rfl⟩ | ⟨c, hc, hsome, -⟩
      · simpa [hnone] using hlast
      · have hne : b ≠ [] := List.ne_nil_of_mem hc
        simp [hsome, hne]

theorem capped_buildBatches (batches : List (List (AttestationCheckpoint H))) :
    (buildBatches batches : Anchors H A).Capped ↔ HighestLast batches := by
  obtain ⟨huntouched, -, hstored, hlast⟩ := buildBatches_spec (A := A) batches
  constructor
  · intro hcapped last hmem b hb c hc
    rcases highestCheckpoint_spec last ∅ with ⟨-, rfl⟩ | ⟨top, htop, hsome, -⟩
    · simpa using List.of_mem_filter (List.mem_of_getLast? hmem)
    · refine ⟨top, htop, ?_⟩
      by_contra hlt
      have hlc : (buildBatches batches : Anchors H A).lastCheckpoint = some top := by
        rw [hlast, Option.mem_def.1 hmem, Option.bind_some, hsome]
      obtain ⟨state, hstate, -⟩ := hcapped top hlc c.blockNumber (not_le.1 hlt)
        ((hstored _).2 ⟨b, hb, c, hc, rfl⟩)
      simp [huntouched.pruning_eq] at hstate
  · intro hhighest top htop n hlt hn
    obtain ⟨b, hb, c, hc, rfl⟩ := (hstored n).1 hn
    obtain ⟨last, hmem, hsome⟩ := Option.bind_eq_some_iff.1 (hlast.symm.trans htop)
    obtain ⟨c', hc', hle⟩ := hhighest last hmem b hb c hc
    rcases highestCheckpoint_spec last ∅ with ⟨-, rfl⟩ | ⟨top', -, hsome', hbelow, -⟩
    · simp at hc'
    · obtain rfl := Option.mem_unique hsome' hsome
      have := hbelow c' hc'
      omega

variable [DecidableEq A] {T : Config H A B}

theorem genesis_anchors {gc : GenesisConfig H A B} {s : State H A B}
    (h : genesis T gc = some s) (k : ChainKey) :
    (s.chain T k).anchors = buildBatches (gc.batches k) := by
  simp only [genesis, Option.bind_eq_bind, Option.bind_eq_some_iff] at h
  obtain ⟨g, -, hs⟩ := h
  have hfold : ∀ (cfgs : List (AttestationChainConfiguration H)) (s₀ : State H A B),
      buildConfigurations T gc.invulnerables cfgs s₀ = some s →
        (s.chain T k).anchors =
          ((cfgs.filter fun cfg => cfg.chainKey = k).map (·.checkpoints)).foldl
          (fun a checkpoints => buildAnchors checkpoints a) (s₀.chain T k).anchors := by
    intro cfgs
    induction cfgs with
    | nil =>
      intro s₀ h
      rw [Option.some.inj h]
      rfl
    | cons cfg cfgs ih =>
      intro s₀ h
      simp only [buildConfigurations, Option.bind_eq_bind, Option.bind_eq_some_iff] at h
      obtain ⟨c, hc, h⟩ := h
      have hanchors :
        c.anchors = buildAnchors cfg.checkpoints (s₀.chain T cfg.chainKey).anchors := by
        unfold buildChain at hc
        split at hc
        · exact Option.some.inj hc ▸ rfl
        · simp at hc
      rw [ih _ h, State.chain_setChain]
      by_cases hk : cfg.chainKey = k
      · subst hk
        rw [if_pos rfl, hanchors, List.filter_cons_of_pos (by simp)]
        rfl
      · rw [if_neg (Ne.symm hk), List.filter_cons_of_neg (by simpa using hk)]
  exact hfold _ _ hs

end Genesis

/-! ## Runs -/

section Runs

variable [DecidableEq H] [DecidableEq A] {T : Config H A B} {s s₀ : State H A B} {k : ChainKey}

/-- What holds of every live chain: settings in their bounds, queues in order, the last checkpoint
stored. -/
structure Chain.WellFormed (T : Config H A B) (c : Chain H A) : Prop where
  bounded : c.settings.Bounded T
  tracked : c.anchors.Tracked T
  marked : c.anchors.Marked

variable {c' c : Chain H A}

theorem ChainStep.wellFormed {supported : Bool} (h : c.WellFormed T)
    (hstep : ChainStep T supported k c c') : c'.WellFormed T := by
  have hbounded := hstep.bounded h.bounded
  cases hstep with
  | anchors hstep =>
    exact ⟨hbounded, hstep.tracked h.bounded h.tracked,
      hstep.marked h.bounded h.tracked.proofsBounded h.marked⟩
  | roster _ | settings _ => exact ⟨hbounded, h.tracked, h.marked⟩

theorem genesis_wellFormed {gc : GenesisConfig H A B} (h : genesis T gc = some s) :
    (s.chain T k).WellFormed T := by
  refine ⟨genesis_bounded h, (genesis_untouched h).tracked, ?_⟩
  rw [genesis_anchors h]
  exact (buildBatches_spec _).2.1

theorem wellFormed_of_live (hreach : Reachable T s) (hlive : s.Live k) :
    (s.chain T k).WellFormed T :=
  live_invariant hreach hlive (fun _ _ h => genesis_wellFormed h)
    fun _ _ _ h hstep => ChainStep.wellFormed h hstep

/-- **The index lists exactly the stored checkpoints**, each in the bucket of its height. -/
theorem checkpoint_iff_bucketed (hreach : Reachable T s) (hsup : s.isChainSupported k = true)
    (h : ℕ) :
    ((s.chain T k).anchors.checkpoints.lookup h).isSome = true ↔
      ((s.chain T k).anchors.checkpointBuckets.lookup (h - h % 1000, h)).isSome = true := by
  have hindexed := (wellFormed_of_live hreach (.inl hsup)).marked.indexed
  rw [hindexed.row_iff]
  exact (and_iff_right rfl).symm

theorem ChainStep.capped {supported : Bool} (h : c.WellFormed T) (hcapped : c.anchors.Capped)
    (hstep : ChainStep T supported k c c') : c'.anchors.Capped := by
  cases hstep with
  | anchors hstep => exact hstep.capped h.bounded h.tracked.proofsBounded h.marked hcapped
  | roster _ | settings _ => exact hcapped

/-! ## Before a chain is supported -/

theorem ChainStep.anchors_eq_of_unsupported (h : c.anchors.Untouched)
    (hstep : ChainStep T false k c c') : c'.anchors = c.anchors := by
  cases hstep with
  | roster _ | settings _ => rfl
  | anchors hstep =>
    cases hstep with
    | committed now att hcommit =>
      have hsup := (doCommitAttestation_cases hcommit).1.supported_eq
      simp at hsup
    | imported batch himport => simpa using (doImportCheckpoints_effect himport).1
    | reverted kill height hrevert => simpa using (revertTo_effect hrevert).1
    | patched kill wipe batch hpatch => simpa using (doForwardPatchCheckpoints_effect hpatch).1
    | swept hsweep =>
      cases hsweep with
      | pruned hstate => simp [h.pruning_eq] at hstate
      | checkpointsCleared kill hcursor => exact absurd h.checkpointCursor_eq hcursor
      | bucketsCleared kill hcursor => exact absurd h.bucketCursor_eq hcursor
      | attestationsCleared kill hcursor => exact absurd h.attestationCursor_eq hcursor

theorem ChainPath.anchors_eq_of_unsupported {s' : State H A B}
    (hsup : s.isChainSupported k = false) (h : (s.chain T k).anchors.Untouched)
    (hpath : ChainPath T k s s') : (s'.chain T k).anchors = (s.chain T k).anchors := by
  have hgen : ∀ c c', ReflTransGen (ChainStep T false k) c c' → c.anchors.Untouched →
      c'.anchors = c.anchors := by
    intro c c' hcc' hc
    induction hcc' with
    | refl => rfl
    | tail _ hlast ih => exact (ChainStep.anchors_eq_of_unsupported (ih ▸ hc) hlast).trans ih
  unfold ChainPath Path at hpath
  rw [hsup] at hpath
  exact hgen _ _ hpath h

/-- A chain that is live at the end of a run has kept the anchors of genesis until a state of the
run supported it. -/
theorem anchors_eq_or_supported {gc : GenesisConfig H A B} (hgen : genesis T gc = some s₀)
    (acts : List (Action T)) (hlive : (run T s₀ acts).Live k) :
    ((run T s₀ acts).isChainSupported k = false ∧
        ((run T s₀ acts).chain T k).anchors = (s₀.chain T k).anchors) ∨
      ∃ acts', (run T s₀ acts').isChainSupported k = true ∧
        ((run T s₀ acts').chain T k).anchors = (s₀.chain T k).anchors := by
  induction acts using List.reverseRecOn with
  | nil =>
    rcases hsup : (run T s₀ []).isChainSupported k with _ | _
    · exact .inl ⟨rfl, rfl⟩
    · exact .inr ⟨[], hsup, rfl⟩
  | append_singleton acts act ih =>
    have hbelow := keysBelow_run (keysBelow_genesis hgen) acts
    have hrun : run T s₀ (acts ++ [act]) = step T (run T s₀ acts) act := run_append s₀ acts [act]
    rw [hrun] at hlive
    obtain ⟨hl, hpath⟩ := step_chain hbelow hlive
    rcases ih hl with ⟨hsup, heq⟩ | hdone
    · have huntouched := genesis_untouched (k := k) hgen
      rw [← heq] at huntouched
      have heq' := (ChainPath.anchors_eq_of_unsupported hsup huntouched hpath).trans heq
      rcases hsup' : (step T (run T s₀ acts) act).isChainSupported k with _ | _
      · exact .inl ⟨by rw [hrun, hsup'], by rw [hrun, heq']⟩
      · exact .inr ⟨acts ++ [act], by rw [hrun, hsup'], by rw [hrun, heq']⟩
    · exact .inr hdone

/-! ## The last checkpoint in every state -/

/-- The last checkpoint is set exactly when the chain has a checkpoint, the map holds its digest at
its height, and every checkpoint above it lies in a bucket still to be pruned. -/
structure Anchors.LastCheckpointSound (a : Anchors H A) : Prop where
  isSome_iff : a.lastCheckpoint.isSome = true ↔ ∃ n, (a.checkpoints.lookup n).isSome = true
  stored : ∀ c ∈ a.lastCheckpoint, a.checkpoints.lookup c.blockNumber = some c.digest
  capped : ∀ c ∈ a.lastCheckpoint, ∀ n, c.blockNumber < n → (a.checkpoints.lookup n).isSome = true →
    ∃ state ∈ a.checkpointPruningState,
      state.nextPivot ≤ computeBlockIndexFor n ∧ computeBlockIndexFor n ≤ state.stopHeight

omit [DecidableEq H] [DecidableEq A] in
theorem Anchors.Marked.lastCheckpointSound {a : Anchors H A} (h : a.Marked) (hcapped : a.Capped) :
    a.LastCheckpointSound := by
  refine ⟨⟨fun hsome => ?_, fun ⟨n, hn⟩ => ?_⟩, h.stored, hcapped⟩
  · obtain ⟨c, hc⟩ := Option.isSome_iff_exists.1 hsome
    exact ⟨c.blockNumber, by rw [h.stored c hc]; rfl⟩
  · by_contra hnone
    rw [h.empty (by simpa using hnone) n] at hn
    simp at hn

/-- **The last checkpoint is sound in every state that supports the chain**, exactly when the
genesis configuration lists the highest checkpoint of the chain in the last of its entries with
checkpoints. -/
theorem lastCheckpoint_sound_iff {gc : GenesisConfig H A B} (hgen : genesis T gc = some s₀)
    (hsup : ∃ acts, (run T s₀ acts).isChainSupported k = true) :
    (∀ acts, (run T s₀ acts).isChainSupported k = true →
        ((run T s₀ acts).chain T k).anchors.LastCheckpointSound) ↔
      HighestLast (gc.batches k) := by
  rw [← capped_buildBatches (A := A), ← genesis_anchors hgen]
  constructor
  · intro hsound
    obtain ⟨acts, hacts⟩ := hsup
    rcases anchors_eq_or_supported hgen acts (.inl hacts) with ⟨hnot, -⟩ | ⟨acts', hacts', heq⟩
    · simp [hacts] at hnot
    · exact heq ▸ (hsound acts' hacts').capped
  · intro hcapped acts hacts
    have hinv := run_invariant (P := fun c => c.WellFormed T ∧ c.anchors.Capped) (k := k)
      (keysBelow_genesis hgen)
      (fun _ _ _ h hstep => ⟨ChainStep.wellFormed h.1 hstep, ChainStep.capped h.1 h.2 hstep⟩)
      (fun _ => ⟨genesis_wellFormed hgen, hcapped⟩) acts (.inl hacts)
    exact hinv.1.marked.lastCheckpointSound hinv.2

end Runs

section Devnet

open Devnet

/-- On a development network that starts with two checkpoints the last one is sound after a revert
to the first. -/
theorem reverted_lastCheckpoint_sound :
    ((after (genesisConfig 10 10 [⟨5, .root 5, by decide⟩, ⟨9, .root 9, by decide⟩])
      [byRoot (.revertTo 1 5)]).chain config 1).anchors.LastCheckpointSound := by
  refine (lastCheckpoint_sound_iff (k := 1) (genesis_eq_genesisState (by rfl))
    ⟨[], by rfl⟩).2 ?_ (setup ++ [byRoot (.revertTo 1 5)]) (by rfl)
  intro last hlast b hb c hc
  simp only [GenesisConfig.batches, genesisConfig] at hlast hb
  simp at hlast hb
  subst hb
  subst hlast
  exact ⟨c, hc, le_rfl⟩

/-- After the revert the index still lists the checkpoint that was kept. -/
theorem reverted_checkpoint_bucketed :
    ((((after (genesisConfig 10 10 [⟨5, .root 5, by decide⟩, ⟨9, .root 9, by decide⟩])
      [byRoot (.revertTo 1 5)]).chain config 1).anchors.checkpointBuckets.lookup
        (5 - 5 % 1000, 5)).isSome) = true :=
  (checkpoint_iff_bucketed (reachable_after (by rfl) _) (by rfl) 5).1
    (by rfl)

/-- A configuration that lists a chain twice, with a lower checkpoint in the second entry. -/
def relistedConfig : GenesisConfig Word ℕ Unit :=
  { genesisConfig 10 10 [] with
    attestationChainConfigurations :=
      [⟨1, 10, 10, 120, [⟨100, .root 100, by decide⟩]⟩,
        ⟨1, 10, 10, 120, [⟨50, .root 50, by decide⟩]⟩] }

/-- A chain listed twice starts with a checkpoint above its last one and nothing to prune it. -/
theorem relisted_lastCheckpoint_not_sound :
    ∃ s₀, genesis config relistedConfig = some s₀ ∧ Reachable config s₀ ∧
      s₀.isChainSupported 1 = true ∧ ¬ (s₀.chain config 1).anchors.LastCheckpointSound := by
  have hgen : genesis config relistedConfig = some (genesisState relistedConfig) :=
    genesis_eq_genesisState (by rfl)
  refine ⟨_, hgen, ⟨_, _, [], hgen, rfl⟩, by rfl, fun hsound => ?_⟩
  have hlast : ((genesisState relistedConfig).chain config 1).anchors.lastCheckpoint =
      some ⟨50, .root 50, by decide⟩ := by rfl
  obtain ⟨state, hstate, -⟩ := hsound.capped _ hlast 100 (by decide) (by rfl)
  have hpruning : ((genesisState relistedConfig).chain config 1).anchors.checkpointPruningState =
      none := by rfl
  simp [hpruning] at hstate

end Devnet

end Creditcoin
