import Creditcoin.Attestation.OperatorEffects

/-!
# Pruning the checkpoint buckets

Every checkpoint is indexed under the pivot of its bucket, and every index row is one of a
checkpoint (`Indexed`). One block of pruning deletes checkpoints only in the buckets left to prune,
and moves past a bucket only once it is empty (`pruneCheckpoints_spec`). -/

namespace Creditcoin

variable {H A B : Type}

/-! ## The index of the checkpoints -/

theorem computeBlockIndexFor_le (n : ℕ) : computeBlockIndexFor n ≤ n := Nat.sub_le _ _

theorem computeBlockIndexFor_mod (n : ℕ) :
    computeBlockIndexFor n % checkpointBucketSize = 0 := by
  rw [computeBlockIndexFor, ← Nat.div_mul_self_eq_mod_sub_self, Nat.mul_mod_left]

theorem computeBlockIndexFor_mono {m n : ℕ} (h : m ≤ n) :
    computeBlockIndexFor m ≤ computeBlockIndexFor n := by
  unfold computeBlockIndexFor checkpointBucketSize
  omega

/-- The index rows are those of the stored checkpoints. -/
structure Anchors.Indexed (a : Anchors H A) : Prop where
  row_iff : ∀ pivot n, (a.checkpointBuckets.lookup (pivot, n)).isSome = true ↔
    pivot = computeBlockIndexFor n ∧ (a.checkpoints.lookup n).isSome = true
  height_lt : ∀ n, (a.checkpoints.lookup n).isSome = true → n < 2 ^ 64

section Index

variable {a : Anchors H A}

theorem Anchors.indexed_empty : (Anchors.empty : Anchors H A).Indexed := by
  constructor <;> simp [Anchors.empty]

theorem Anchors.Indexed.insert (h : a.Indexed) (cps : List (AttestationCheckpoint H))
    {a' : Anchors H A} (hcheckpoints : a'.checkpoints = insertCheckpoints a.checkpoints cps)
    (hbuckets : a'.checkpointBuckets = insertBuckets a.checkpointBuckets cps) : a'.Indexed := by
  have hsome : ∀ n, (a'.checkpoints.lookup n).isSome = true ↔
      (∃ c ∈ cps, c.blockNumber = n) ∨ (a.checkpoints.lookup n).isSome = true := by
    intro n
    rw [hcheckpoints]
    rcases lookup_insertCheckpoints_cases a.checkpoints cps n with
      ⟨c, hc, hn, hlookup⟩ | ⟨hne, hlookup⟩
    · rw [hlookup]
      simpa using Or.inl ⟨c, hc, hn⟩
    · rw [hlookup]
      exact ⟨.inr, fun hor => hor.resolve_left fun ⟨c, hc, hn⟩ => hne c hc hn⟩
  constructor
  · intro pivot n
    rw [hsome, hbuckets, isSome_lookup_insertBuckets, h.row_iff]
    constructor
    · rintro (⟨c, hc, hrow⟩ | ⟨rfl, hn⟩)
      · obtain ⟨rfl, rfl⟩ := Prod.mk.inj hrow
        exact ⟨rfl, .inl ⟨c, hc, rfl⟩⟩
      · exact ⟨rfl, .inr hn⟩
    · rintro ⟨rfl, ⟨c, hc, rfl⟩ | hn⟩
      · exact .inl ⟨c, hc, rfl⟩
      · exact .inr ⟨rfl, hn⟩
  · intro n hn
    rcases (hsome n).1 hn with ⟨c, -, rfl⟩ | hn
    · exact c.blockNumber_lt
    · exact h.height_lt n hn

theorem Anchors.lookup_removeCheckpoints (pivot : ℕ) (heights : List ℕ) (n : ℕ) :
    (a.removeCheckpoints pivot heights).checkpoints.lookup n =
      if n ∈ heights then none else a.checkpoints.lookup n :=
  StorageMap.lookup_eraseAll _ _ _

theorem Anchors.Indexed.removeCheckpoints (h : a.Indexed) {pivot : ℕ} {heights : List ℕ}
    (hheights : ∀ n ∈ heights, computeBlockIndexFor n = pivot) :
    (a.removeCheckpoints pivot heights).Indexed := by
  constructor
  · intro pivot' n
    have hrow : (pivot', n) ∈ heights.map (fun n => (pivot, n)) ↔ pivot' = pivot ∧ n ∈ heights := by
      simp only [List.mem_map, Prod.mk.injEq]
      exact ⟨fun ⟨m, hm, hp, hn⟩ => ⟨hp.symm, hn ▸ hm⟩, fun ⟨hp, hn⟩ => ⟨n, hn, hp.symm, rfl⟩⟩
    rw [lookup_removeCheckpoints]
    simp only [Anchors.removeCheckpoints, StorageMap.lookup_eraseAll, hrow]
    by_cases hn : n ∈ heights
    · by_cases hp : pivot' = pivot
      · simp [hn, hp]
      · simp only [hn, hp, false_and, if_false, h.row_iff, if_true, Option.isSome_none,
          Bool.false_eq_true, and_false, iff_false, not_and]
        exact fun hp' => absurd (hp'.trans (hheights n hn)) hp
    · simp only [hn, and_false, if_false, h.row_iff]
  · intro n hn
    rw [lookup_removeCheckpoints] at hn
    split at hn
    · simp at hn
    · exact h.height_lt n hn

theorem Anchors.Indexed.mem_bucketHeights (h : a.Indexed) (T : Config H A B) {pivot n : ℕ} :
    n ∈ a.bucketHeights T pivot ↔
      computeBlockIndexFor n = pivot ∧ (a.checkpoints.lookup n).isSome = true := by
  have hrow : ∀ row : ℕ × ℕ, row ∈ a.checkpointBuckets.keys ↔
      (a.checkpointBuckets.lookup row).isSome = true := by
    intro row
    rw [StorageMap.mem_keys_iff, Option.isSome_iff_exists]
  simp only [Anchors.bucketHeights, List.mem_insertionSort, List.mem_map, List.mem_filter,
    decide_eq_true_eq]
  constructor
  · rintro ⟨⟨p, m⟩, ⟨hmem, rfl⟩, rfl⟩
    obtain ⟨hp, hm⟩ := (h.row_iff p m).1 ((hrow _).1 hmem)
    exact ⟨hp.symm, hm⟩
  · rintro ⟨rfl, hn⟩
    exact ⟨(computeBlockIndexFor n, n), ⟨(hrow _).2 ((h.row_iff _ n).2 ⟨rfl, hn⟩), rfl⟩, rfl⟩

theorem Anchors.Indexed.lookup_purgeBucketAbove (h : a.Indexed) (T : Config H A B) (height n : ℕ) :
    (a.purgeBucketAbove T height).checkpoints.lookup n =
      if height < n ∧ computeBlockIndexFor n = computeBlockIndexFor height then none
      else a.checkpoints.lookup n := by
  rw [Anchors.purgeBucketAbove, lookup_removeCheckpoints]
  simp only [List.mem_filter, h.mem_bucketHeights T, decide_eq_true_eq]
  rcases hn : a.checkpoints.lookup n with _ | d
  · simp
  · simp [and_comm]

theorem Anchors.Indexed.purgeBucketAbove (h : a.Indexed) (T : Config H A B) (height : ℕ) :
    (a.purgeBucketAbove T height).Indexed := by
  refine h.removeCheckpoints fun n hn => ?_
  exact ((h.mem_bucketHeights T).1 (List.mem_of_mem_filter hn)).1

end Index

/-! ## One block of pruning -/

/-- The next bucket starts on a bucket boundary, unless all of them are passed. -/
def CheckpointPruningState.OnGrid (state : CheckpointPruningState) : Prop :=
  state.nextPivot ≤ u64Max ∧
    (state.nextPivot % checkpointBucketSize = 0 ∨ state.nextPivot = u64Max)

/-- The height lies in a bucket left to prune. -/
def CheckpointPruningState.Pending (state : CheckpointPruningState) (n : ℕ) : Prop :=
  state.nextPivot ≤ computeBlockIndexFor n ∧ computeBlockIndexFor n ≤ state.stopHeight

/-- The storage `a` changes to `a'` by pruning some of the buckets left by `state`. -/
structure Prunes (state : CheckpointPruningState) (a a' : Anchors H A) : Prop where
  indexed : a'.Indexed
  deleted : ∀ n, a'.checkpoints.lookup n = a.checkpoints.lookup n ∨
    (a'.checkpoints.lookup n = none ∧ state.Pending n)
  passed : ∀ n, state.Pending n →
    (∀ state' ∈ a'.checkpointPruningState, computeBlockIndexFor n < state'.nextPivot) →
    a'.checkpoints.lookup n = none
  left : ∀ state' ∈ a'.checkpointPruningState, state'.stopHeight = state.stopHeight ∧
    state.nextPivot ≤ state'.nextPivot ∧ state'.OnGrid

section Prune

variable {T : Config H A B} {a a' : Anchors H A} {state : CheckpointPruningState}

theorem prunes_stop (h : a.Indexed) (hgrid : state.OnGrid) :
    Prunes state a { a with checkpointPruningState := some state } where
  indexed := ⟨h.row_iff, h.height_lt⟩
  deleted n := .inl rfl
  passed n hn hlt := absurd (hlt state rfl) (not_lt.2 hn.1)
  left state' hstate' := by
    obtain rfl := Option.mem_some_iff.1 hstate'
    exact ⟨rfl, le_rfl, hgrid⟩

theorem prunes_done (h : a.Indexed) (hdone : state.stopHeight < state.nextPivot) :
    Prunes state a { a with checkpointPruningState := none } where
  indexed := ⟨h.row_iff, h.height_lt⟩
  deleted n := .inl rfl
  passed n hn _ := absurd (hn.1.trans hn.2) (not_le.2 hdone)
  left state' hstate' := by simp at hstate'

theorem CheckpointPruningState.OnGrid.next_le (hgrid : state.OnGrid) {n : ℕ} (hn : n < 2 ^ 64)
    (hle : state.nextPivot ≤ computeBlockIndexFor n)
    (hne : computeBlockIndexFor n ≠ state.nextPivot) :
    satAdd u64Max state.nextPivot checkpointBucketSize ≤ computeBlockIndexFor n := by
  have hmod := computeBlockIndexFor_mod n
  have hle' := computeBlockIndexFor_le n
  refine (satAdd_le _ _ _).trans ?_
  unfold CheckpointPruningState.OnGrid at hgrid
  unfold checkpointBucketSize u64Max at *
  omega

theorem onGrid_satAdd (hgrid : state.OnGrid) (stop : ℕ) :
    (⟨stop, satAdd u64Max state.nextPivot checkpointBucketSize⟩ :
      CheckpointPruningState).OnGrid := by
  unfold CheckpointPruningState.OnGrid at *
  unfold satAdd checkpointBucketSize u64Max at *
  dsimp only
  omega

theorem Prunes.bucket (h : a.Indexed) (hgrid : state.OnGrid)
    (hmore : state.nextPivot ≤ state.stopHeight)
    (hrest : Prunes { state with nextPivot := satAdd u64Max state.nextPivot checkpointBucketSize }
      (a.removeCheckpoints state.nextPivot (a.bucketHeights T state.nextPivot)) a') :
    Prunes state a a' := by
  have hremoved : ∀ n, (a.removeCheckpoints state.nextPivot
      (a.bucketHeights T state.nextPivot)).checkpoints.lookup n =
        if computeBlockIndexFor n = state.nextPivot then none else a.checkpoints.lookup n := by
    intro n
    rw [Anchors.lookup_removeCheckpoints]
    simp only [h.mem_bucketHeights T]
    rcases a.checkpoints.lookup n <;> simp
  have hle : state.nextPivot ≤ satAdd u64Max state.nextPivot checkpointBucketSize :=
    le_satAdd hgrid.1
  refine ⟨hrest.indexed, fun n => ?_, fun n hn hlt => ?_, fun state' hstate' => ?_⟩
  · rcases hrest.deleted n with heq | ⟨hnone, hpending⟩
    · rw [hremoved] at heq
      split at heq
      · next hpivot => exact .inr ⟨heq, hpivot.ge, hpivot.le.trans hmore⟩
      · exact .inl heq
    · exact .inr ⟨hnone, hle.trans hpending.1, hpending.2⟩
  · by_contra hsome
    -- A checkpoint that is still there was there before, outside the bucket.
    have hkept : a'.checkpoints.lookup n = a.checkpoints.lookup n ∧
        computeBlockIndexFor n ≠ state.nextPivot := by
      have heq := (hrest.deleted n).resolve_right fun h => hsome h.1
      rw [hremoved] at heq
      split at heq
      · exact absurd heq hsome
      · next hne => exact ⟨heq, hne⟩
    have hn64 : n < 2 ^ 64 := by
      refine h.height_lt n ?_
      rw [← hkept.1]
      exact Option.isSome_iff_ne_none.2 hsome
    exact hsome (hrest.passed n ⟨hgrid.next_le hn64 hn.1 hkept.2, hn.2⟩ hlt)
  · obtain ⟨hstop, hnext, hgrid'⟩ := hrest.left state' hstate'
    exact ⟨hstop, hle.trans hnext, hgrid'⟩

theorem prunes_part (h : a.Indexed) (hgrid : state.OnGrid)
    (hmore : state.nextPivot ≤ state.stopHeight) {heights : List ℕ}
    (hheights : ∀ n ∈ heights, n ∈ a.bucketHeights T state.nextPivot) :
    Prunes state a { a.removeCheckpoints state.nextPivot heights with
      checkpointPruningState := some state } := by
  have hbucket : ∀ n ∈ heights, computeBlockIndexFor n = state.nextPivot := fun n hn =>
    ((h.mem_bucketHeights T).1 (hheights n hn)).1
  have hindexed := h.removeCheckpoints hbucket
  refine ⟨⟨hindexed.row_iff, hindexed.height_lt⟩, fun n => ?_, fun n hn hlt => ?_,
    fun state' hstate' => ?_⟩
  · by_cases hn : n ∈ heights
    · refine .inr ⟨?_, (hbucket n hn).ge, (hbucket n hn).le.trans hmore⟩
      exact (Anchors.lookup_removeCheckpoints state.nextPivot heights n).trans (if_pos hn)
    · exact .inl ((Anchors.lookup_removeCheckpoints state.nextPivot heights n).trans (if_neg hn))
  · exact absurd (hlt state rfl) (not_lt.2 hn.1)
  · obtain rfl := Option.mem_some_iff.1 hstate'
    exact ⟨rfl, le_rfl, hgrid⟩

theorem pruneLoop_spec (remainingPivots : ℕ) {remainingEntries : ℕ}
    (hentries : remainingEntries ≤ maxCheckpointsClearedPerBlock) (h : a.Indexed)
    (hgrid : state.OnGrid) :
      Prunes state a (pruneLoop T remainingPivots remainingEntries state a) := by
  induction remainingPivots generalizing remainingEntries state a with
  | zero => exact prunes_stop h hgrid
  | succ remainingPivots ih =>
    rw [pruneLoop]
    split
    · exact prunes_stop h hgrid
    · split
      · next hdone => exact prunes_done h hdone
      · next hmore =>
        set heights := (a.bucketHeights T state.nextPivot).take (maxCheckpointsClearedPerBlock + 1)
          with hheights
        dsimp only
        split
        · next hlimit =>
          -- The budget covers all rows that were read, so the bucket has no more.
          have hall : heights = a.bucketHeights T state.nextPivot := by
            rw [hheights, List.take_eq_self_iff]
            have hlen : heights.length ≤ maxCheckpointsClearedPerBlock := by omega
            rw [hheights, List.length_take] at hlen
            omega
          have htake : heights.take (min heights.length remainingEntries) =
              a.bucketHeights T state.nextPivot := by
            rw [← hlimit, List.take_length, hall]
          rw [htake]
          refine Prunes.bucket h hgrid (not_lt.1 hmore) (ih (by omega) ?_ (onGrid_satAdd hgrid _))
          exact h.removeCheckpoints fun n hn => ((h.mem_bucketHeights T).1 hn).1
        · exact prunes_part (T := T) h hgrid (not_lt.1 hmore) fun n hn =>
            List.mem_of_mem_take (List.mem_of_mem_take hn)

theorem pruneCheckpoints_frame (state : CheckpointPruningState) (a : Anchors H A) :
    ∃ checkpoints buckets pruning, pruneCheckpoints T state a =
      { a with
        checkpoints := checkpoints
        checkpointBuckets := buckets
        checkpointPruningState := pruning } := by
  have hloop : ∀ (remainingPivots remainingEntries : ℕ) (state : CheckpointPruningState)
      (a : Anchors H A), ∃ checkpoints buckets pruning,
        pruneLoop T remainingPivots remainingEntries state a =
          { a with
            checkpoints := checkpoints
            checkpointBuckets := buckets
            checkpointPruningState := pruning } := by
    intro remainingPivots
    induction remainingPivots with
    | zero => exact fun _ _ a => ⟨_, _, _, rfl⟩
    | succ remainingPivots ih =>
      intro remainingEntries state a
      rw [pruneLoop]
      split
      · exact ⟨_, _, _, rfl⟩
      · split
        · exact ⟨_, _, _, rfl⟩
        · dsimp only
          split
          · obtain ⟨_, _, _, heq⟩ := ih _ _ _
            exact ⟨_, _, _, heq⟩
          · exact ⟨_, _, _, rfl⟩
  exact hloop _ _ state a

/-- A sweep continues the deletion of attestations, or it changes neither the attestations with
their queues nor the last points. -/
theorem Sweep.attestations_cases [DecidableEq H] (h : Sweep T a a') :
    (∃ kill, a.attestationClearingCursor ≠ none ∧ a' = a.clearAttestations kill) ∨
      ∃ checkpoints buckets pruning cursor cursor' events, a' = { a with
        checkpoints := checkpoints
        checkpointBuckets := buckets
        checkpointPruningState := pruning
        checkpointClearingCursor := cursor
        bucketClearingCursor := cursor'
        events := events } := by
  cases h with
  | @pruned state hstate =>
    obtain ⟨checkpoints, buckets, pruning, heq⟩ := pruneCheckpoints_frame (T := T) state a
    exact .inr ⟨_, _, _, _, _, _, heq⟩
  | checkpointsCleared _ _ | bucketsCleared _ _ => exact .inr ⟨_, _, _, _, _, _, rfl⟩
  | attestationsCleared kill hcursor => exact .inl ⟨kill, hcursor, rfl⟩

/-- **One block of pruning.** -/
theorem pruneCheckpoints_spec (h : a.Indexed) (hgrid : state.OnGrid) :
    Prunes state a (pruneCheckpoints T state a) :=
  pruneLoop_spec _ le_rfl h hgrid

end Prune

end Creditcoin
