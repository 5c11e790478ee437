import Creditcoin.Attestation.Retention

/-!
# How long pruning takes

A turn of pruning deletes at most 40 checkpoints and passes at most 80 buckets, and unless it is the
last one it has used up one of the two. So the turns left are bounded by the rows still to be
visited and the number of buckets (`Anchors.turnsLeft`). The pivot moves up by a saturating sum: it
passes every stop height but the greatest one, from where the pruning never ends
(`pruning_ends_iff`). -/

namespace Creditcoin

open Relation (ReflTransGen)

variable {H A B : Type}

/-! ## One turn -/

def Anchors.rowsFrom (a : Anchors H A) (pivot : ℕ) : List (ℕ × ℕ) :=
  a.checkpointBuckets.keys.filter fun row => pivot ≤ row.1

/-- The number of buckets from the next pivot up to the stop height. -/
def CheckpointPruningState.pivotsLeft (state : CheckpointPruningState) : ℕ :=
  (state.stopHeight + checkpointBucketSize - state.nextPivot) / checkpointBucketSize

/-- The pivots that the loop of `prune_checkpoints_impl` inspects and leaves exhausted. -/
def exhaustedPivots (T : Config H A B) :
    ℕ → ℕ → CheckpointPruningState → Anchors H A → List ℕ
  | 0, _, _, _ => []
  | remainingPivots + 1, remainingEntries, state, a =>
    if remainingEntries = 0 then []
    else if state.stopHeight < state.nextPivot then []
    else
      let removalHeights :=
        (a.bucketHeights T state.nextPivot).take (maxCheckpointsClearedPerBlock + 1)
      let removalLimit := min removalHeights.length remainingEntries
      let removed := a.removeCheckpoints state.nextPivot (removalHeights.take removalLimit)
      if removalHeights.length = removalLimit then
        state.nextPivot :: exhaustedPivots T remainingPivots (remainingEntries - removalLimit)
          { state with nextPivot := satAdd u64Max state.nextPivot checkpointBucketSize } removed
      else []

section Loop

variable {T : Config H A B} {a a' : Anchors H A} {state : CheckpointPruningState}

theorem length_exhaustedPivots_le (remainingPivots remainingEntries : ℕ)
    (state : CheckpointPruningState) (a : Anchors H A) :
    (exhaustedPivots T remainingPivots remainingEntries state a).length ≤ remainingPivots := by
  induction remainingPivots generalizing remainingEntries state a with
  | zero => exact le_rfl
  | succ remainingPivots ih =>
    rw [exhaustedPivots]
    split
    · exact Nat.zero_le _
    · split
      · exact Nat.zero_le _
      · dsimp only
        split
        · exact Nat.succ_le_succ (ih _ _ _)
        · exact Nat.zero_le _

theorem Anchors.mem_bucketHeights_iff {pivot n : ℕ} :
    n ∈ a.bucketHeights T pivot ↔ (pivot, n) ∈ a.checkpointBuckets.keys := by
  simp only [Anchors.bucketHeights, List.mem_insertionSort, List.mem_map, List.mem_filter,
    decide_eq_true_eq]
  constructor
  · rintro ⟨⟨p, m⟩, ⟨hmem, rfl⟩, rfl⟩
    exact hmem
  · exact fun hmem => ⟨(pivot, n), ⟨hmem, rfl⟩, rfl⟩

theorem Anchors.nodup_bucketHeights (pivot : ℕ) : (a.bucketHeights T pivot).Nodup := by
  refine (List.perm_insertionSort _ _).nodup_iff.2 (List.Nodup.map_on ?_ ?_)
  · intro row hrow row' hrow' hsnd
    have hfst := of_decide_eq_true (List.mem_filter.1 hrow).2
    have hfst' := of_decide_eq_true (List.mem_filter.1 hrow').2
    exact Prod.ext (hfst.trans hfst'.symm) hsnd
  · exact a.checkpointBuckets.keys_nodup.filter _

/-- Deleting heights of a bucket leaves that many rows less from its pivot on, and from any pivot
above. -/
theorem Anchors.length_rowsFrom_remove {pivot pivot' : ℕ} {heights : List ℕ}
    (hnodup : heights.Nodup) (hmem : ∀ n ∈ heights, n ∈ a.bucketHeights T pivot)
    (hle : pivot ≤ pivot') :
    ((a.removeCheckpoints pivot heights).rowsFrom pivot').length + heights.length ≤
      (a.rowsFrom pivot).length := by
  set removed := heights.map fun n => (pivot, n) with hremoved
  have hkeys : ∀ row, row ∈ (a.removeCheckpoints pivot heights).checkpointBuckets.keys ↔
      row ∉ removed ∧ row ∈ a.checkpointBuckets.keys := by
    intro row
    show row ∈ (a.checkpointBuckets.eraseAll removed).keys ↔ _
    rw [← AList.mem_keys, ← AList.mem_keys, ← AList.lookup_isSome, ← AList.lookup_isSome,
      StorageMap.lookup_eraseAll]
    split
    · next h => simp [h]
    · next h => simp [h]
  have hall : ((a.removeCheckpoints pivot heights).rowsFrom pivot' ++ removed).Nodup := by
    refine List.nodup_append.2 ⟨(AList.keys_nodup _).filter _,
      hnodup.map fun m n h => (Prod.mk.inj h).2, fun row hrow row' hrow' heq => ?_⟩
    exact ((hkeys row).1 (List.mem_of_mem_filter hrow)).1 (heq ▸ hrow')
  have hsubset : (a.removeCheckpoints pivot heights).rowsFrom pivot' ++ removed ⊆
      a.rowsFrom pivot := by
    intro row hrow
    refine List.mem_filter.2 ?_
    rcases List.mem_append.1 hrow with hkept | hgone
    · obtain ⟨hkey, hpivot⟩ := List.mem_filter.1 hkept
      exact ⟨((hkeys row).1 hkey).2, decide_eq_true (hle.trans (of_decide_eq_true hpivot))⟩
    · obtain ⟨n, hn, rfl⟩ := List.mem_map.1 hgone
      exact ⟨mem_bucketHeights_iff.1 (hmem n hn), decide_eq_true le_rfl⟩
  have hlength := (List.Nodup.subperm hall hsubset).length_le
  rwa [List.length_append, hremoved, List.length_map] at hlength

theorem pivotsLeft_next (hmore : state.nextPivot ≤ state.stopHeight)
    (hstop : state.stopHeight < u64Max) :
    CheckpointPruningState.pivotsLeft
      { state with nextPivot := satAdd u64Max state.nextPivot checkpointBucketSize } + 1 ≤
        state.pivotsLeft := by
  unfold CheckpointPruningState.pivotsLeft satAdd checkpointBucketSize u64Max at *
  dsimp only
  omega

/-- **What a turn uses up.** If pruning is to go on, either all entries of the budget were deleted
or all pivots of the budget were passed. -/
theorem pruneLoop_progress (remainingPivots remainingEntries : ℕ)
    (hstop : state.stopHeight < u64Max) :
    ∀ state' ∈ (pruneLoop T remainingPivots remainingEntries state a).checkpointPruningState,
      state'.stopHeight = state.stopHeight ∧
        ((pruneLoop T remainingPivots remainingEntries state a).rowsFrom state'.nextPivot).length ≤
          (a.rowsFrom state.nextPivot).length ∧
        state'.pivotsLeft ≤ state.pivotsLeft ∧
        (((pruneLoop T remainingPivots remainingEntries state a).rowsFrom state'.nextPivot).length +
            remainingEntries ≤ (a.rowsFrom state.nextPivot).length ∨
          state'.pivotsLeft + remainingPivots ≤ state.pivotsLeft) := by
  induction remainingPivots generalizing remainingEntries state a with
  | zero =>
    intro state' hstate'
    obtain rfl := Option.mem_some_iff.1 hstate'
    exact ⟨rfl, le_rfl, le_rfl, .inr le_rfl⟩
  | succ remainingPivots ih =>
    rw [pruneLoop]
    split
    · next hzero =>
      intro state' hstate'
      obtain rfl := Option.mem_some_iff.1 hstate'
      exact ⟨rfl, le_rfl, le_rfl, .inl (by rw [hzero]; exact le_rfl)⟩
    · split
      · intro state' hstate'
        simp at hstate'
      · next hmore =>
        set heights := (a.bucketHeights T state.nextPivot).take (maxCheckpointsClearedPerBlock + 1)
        have hmem : ∀ n ∈ heights.take (min heights.length remainingEntries),
            n ∈ a.bucketHeights T state.nextPivot := fun n hn =>
          List.mem_of_mem_take (List.mem_of_mem_take hn)
        have hnodup : (heights.take (min heights.length remainingEntries)).Nodup :=
          ((Anchors.nodup_bucketHeights _).sublist (List.take_sublist _ _)).sublist
            (List.take_sublist _ _)
        have hlength : (heights.take (min heights.length remainingEntries)).length =
            min heights.length remainingEntries := by
          rw [List.length_take]
          omega
        dsimp only
        split
        · intro state' hstate'
          -- The bucket is done, and the rest of the loop starts at the next pivot.
          have hrows := Anchors.length_rowsFrom_remove (a := a) hnodup hmem
            (le_satAdd ((not_lt.1 hmore).trans hstop.le) :
              state.nextPivot ≤ satAdd u64Max state.nextPivot checkpointBucketSize)
          have hpivots := pivotsLeft_next (not_lt.1 hmore) hstop
          have hnext : CheckpointPruningState.stopHeight
              ⟨state.stopHeight, satAdd u64Max state.nextPivot checkpointBucketSize⟩ <
                u64Max := hstop
          obtain ⟨hstop', hrows', hpivots', hused⟩ := ih _ hnext state' hstate'
          dsimp only at hrows' hused
          rw [hlength] at hrows
          refine ⟨hstop', by omega, by omega, ?_⟩
          rcases hused with hentries | hpassed
          · exact .inl (by omega)
          · exact .inr (by omega)
        · next hpart =>
          intro state' hstate'
          obtain rfl := Option.mem_some_iff.1 hstate'
          have hrows :=
            Anchors.length_rowsFrom_remove (a := a) hnodup hmem (le_refl state.nextPivot)
          rw [hlength] at hrows
          have hlimit : remainingEntries ≤ min heights.length remainingEntries := by omega
          exact ⟨rfl, (Nat.le_add_right _ _).trans hrows, le_rfl,
            .inl ((Nat.add_le_add_left hlimit _).trans hrows)⟩

theorem pruneLoop_deletes (remainingPivots remainingEntries : ℕ) (state : CheckpointPruningState)
    (a : Anchors H A) :
    a.checkpoints.keys.length ≤
      (pruneLoop T remainingPivots remainingEntries state a).checkpoints.keys.length +
        remainingEntries := by
  induction remainingPivots generalizing remainingEntries state a with
  | zero => exact Nat.le_add_right _ _
  | succ remainingPivots ih =>
    rw [pruneLoop]
    split
    · exact Nat.le_add_right _ _
    · split
      · exact Nat.le_add_right _ _
      · set heights := (a.bucketHeights T state.nextPivot).take (maxCheckpointsClearedPerBlock + 1)
        have hdeleted := StorageMap.length_keys_le_eraseAll a.checkpoints
          (heights.take (min heights.length remainingEntries))
        have hlength : (heights.take (min heights.length remainingEntries)).length ≤
            min heights.length remainingEntries := List.length_take_le _ _
        dsimp only
        split
        · have hrest := ih (remainingEntries - min heights.length remainingEntries)
            ⟨state.stopHeight, satAdd u64Max state.nextPivot checkpointBucketSize⟩
            (a.removeCheckpoints state.nextPivot
              (heights.take (min heights.length remainingEntries)))
          dsimp only [Anchors.removeCheckpoints] at hrest ⊢
          omega
        · dsimp only [Anchors.removeCheckpoints]
          omega

theorem pruneLoop_left (remainingPivots remainingEntries : ℕ) (state : CheckpointPruningState)
    (a : Anchors H A) :
    ∀ state' ∈ (pruneLoop T remainingPivots remainingEntries state a).checkpointPruningState,
      state'.stopHeight = state.stopHeight ∧ state'.nextPivot ≤ max state.nextPivot u64Max := by
  have hstay : ∀ state state' : CheckpointPruningState, state' ∈ some state →
      state'.stopHeight = state.stopHeight ∧ state'.nextPivot ≤ max state.nextPivot u64Max := by
    intro state state' hstate'
    obtain rfl := Option.mem_some_iff.1 hstate'
    exact ⟨rfl, le_max_left _ _⟩
  induction remainingPivots generalizing remainingEntries state a with
  | zero => exact hstay state
  | succ remainingPivots ih =>
    rw [pruneLoop]
    split
    · exact hstay state
    · split
      · intro state' hstate'
        simp at hstate'
      · dsimp only
        split
        · intro state' hstate'
          obtain ⟨hstop, hnext⟩ := ih _ _ _ state' hstate'
          refine ⟨hstop, hnext.trans ?_⟩
          exact max_le ((min_le_right _ _).trans (le_max_right _ _)) (le_max_right _ _)
        · exact hstay state

theorem pruneLoop_stuck (remainingPivots remainingEntries : ℕ) (hnext : state.nextPivot ≤ u64Max)
    (hstop : u64Max ≤ state.stopHeight) :
    ∃ state' ∈ (pruneLoop T remainingPivots remainingEntries state a).checkpointPruningState,
      state'.nextPivot ≤ u64Max ∧ u64Max ≤ state'.stopHeight := by
  induction remainingPivots generalizing remainingEntries state a with
  | zero => exact ⟨state, rfl, hnext, hstop⟩
  | succ remainingPivots ih =>
    rw [pruneLoop]
    split
    · exact ⟨state, rfl, hnext, hstop⟩
    · split
      · next hdone => exact absurd (hnext.trans hstop) (not_le.2 hdone)
      · dsimp only
        split
        · exact ih _ (min_le_right _ _) hstop
        · exact ⟨state, rfl, hnext, hstop⟩

end Loop

/-! ## The turns that are left -/

namespace Anchors

/-- A turn of pruning, if there is something to prune. -/
def pruneTurn (T : Config H A B) (a : Anchors H A) : Anchors H A :=
  match a.checkpointPruningState with
  | some state => pruneCheckpoints T state a
  | none => a

/-- A bound on the turns that are left. -/
def turnsLeft (a : Anchors H A) : ℕ :=
  match a.checkpointPruningState with
  | some state => (a.rowsFrom state.nextPivot).length / 40 + state.pivotsLeft / 80 + 1
  | none => 0

variable {T : Config H A B} {a a' : Anchors H A} {state : CheckpointPruningState}

theorem turnsLeft_eq (h : a.checkpointPruningState = some state) :
    a.turnsLeft = (a.rowsFrom state.nextPivot).length / 40 + state.pivotsLeft / 80 + 1 := by
  rw [turnsLeft, h]

theorem pruning_eq_none (h : a.turnsLeft = 0) : a.checkpointPruningState = none := by
  rcases hstate : a.checkpointPruningState with _ | state
  · rfl
  · rw [turnsLeft_eq hstate] at h
    omega

/-- From `a` to `a'` pruning has not started, and less of it is left unless it cannot end. -/
def Wanes (a a' : Anchors H A) : Prop :=
  ∀ state' ∈ a'.checkpointPruningState, ∃ state ∈ a.checkpointPruningState,
    state'.stopHeight = state.stopHeight ∧
      (state.stopHeight < u64Max → a'.turnsLeft ≤ a.turnsLeft)

theorem Wanes.trans {a'' : Anchors H A} (h : Wanes a a') (h' : Wanes a' a'') : Wanes a a'' := by
  intro state'' hstate''
  obtain ⟨state', hstate', hstop', hle'⟩ := h' state'' hstate''
  obtain ⟨state, hstate, hstop, hle⟩ := h state' hstate'
  exact ⟨state, hstate, hstop'.trans hstop, fun hlt => (hle' (hstop ▸ hlt)).trans (hle hlt)⟩

theorem wanes_of_rows (hpruning : a'.checkpointPruningState = a.checkpointPruningState)
    (hrows : ∀ state ∈ a.checkpointPruningState,
      (a'.rowsFrom state.nextPivot).length ≤ (a.rowsFrom state.nextPivot).length) : Wanes a a' := by
  intro state hstate
  rw [hpruning] at hstate
  refine ⟨state, hstate, rfl, fun _ => ?_⟩
  rw [turnsLeft_eq hstate, turnsLeft_eq (hpruning.trans hstate)]
  have hle := Nat.div_le_div_right (c := 40) (hrows state hstate)
  omega

/-- **A turn leaves one turn less.** -/
theorem turnsLeft_pruneCheckpoints (h : a.checkpointPruningState = some state)
    (hstop : state.stopHeight < u64Max) :
    ∀ state' ∈ (pruneCheckpoints T state a).checkpointPruningState,
      state'.stopHeight = state.stopHeight ∧
        (pruneCheckpoints T state a).turnsLeft + 1 ≤ a.turnsLeft := by
  intro state' hstate'
  obtain ⟨hstop', hrows, hpivots, hused⟩ := pruneLoop_progress _ _ hstop state' hstate'
  refine ⟨hstop', ?_⟩
  rw [turnsLeft_eq h, turnsLeft_eq hstate']
  unfold pruneCheckpoints maxCheckpointsClearedPerBlock at *
  omega

/-- The record that no turn removes. -/
def Stuck (a : Anchors H A) : Prop :=
  ∃ state ∈ a.checkpointPruningState, state.nextPivot ≤ u64Max ∧ u64Max ≤ state.stopHeight

theorem Stuck.pruneTurn (h : a.Stuck) : (a.pruneTurn T).Stuck := by
  obtain ⟨state, hstate, hnext, hstop⟩ := h
  rw [Anchors.pruneTurn, Option.mem_def.1 hstate]
  exact pruneLoop_stuck _ _ hnext hstop

/-- **Turns in a row end the pruning**, unless it stops at the greatest height. -/
theorem pruning_iterate {n : ℕ} (hn : a.turnsLeft ≤ n)
    (hstop : ∀ state ∈ a.checkpointPruningState, state.stopHeight < u64Max) :
    ((Anchors.pruneTurn T)^[n] a).checkpointPruningState = none := by
  induction n generalizing a with
  | zero => exact pruning_eq_none (Nat.le_zero.1 hn)
  | succ n ih =>
    rw [Function.iterate_succ_apply]
    rcases hstate : a.checkpointPruningState with _ | state
    · have hturn : a.pruneTurn T = a := by rw [Anchors.pruneTurn, hstate]
      rw [hturn]
      refine ih ?_ hstop
      rw [turnsLeft, hstate]
      exact Nat.zero_le _
    · have hlt := hstop state hstate
      have hturn : a.pruneTurn T = pruneCheckpoints T state a := by rw [Anchors.pruneTurn, hstate]
      rw [hturn]
      rcases hleft : (pruneCheckpoints T state a).checkpointPruningState with _ | state'
      · refine ih ?_ (by simp [hleft])
        rw [turnsLeft, hleft]
        exact Nat.zero_le _
      · obtain ⟨hstop', hturns⟩ := turnsLeft_pruneCheckpoints hstate hlt state' hleft
        refine ih (by omega) fun state₁ hstate₁ => ?_
        obtain rfl := Option.mem_unique hleft hstate₁
        rw [hstop']
        exact hlt

theorem cursor_pruneTurn (a : Anchors H A) :
    (a.pruneTurn T).attestationClearingCursor = a.attestationClearingCursor := by
  unfold Anchors.pruneTurn
  split
  · next state _ =>
    obtain ⟨checkpoints, buckets, pruning, heq⟩ := pruneCheckpoints_frame (T := T) state a
    rw [heq]
  · rfl

theorem length_rowsFrom_le {pivot : ℕ}
    (h : ∀ row ∈ a'.checkpointBuckets.keys, pivot ≤ row.1 → row ∈ a.checkpointBuckets.keys) :
    (a'.rowsFrom pivot).length ≤ (a.rowsFrom pivot).length := by
  refine (List.Nodup.subperm ((AList.keys_nodup _).filter _) fun row hrow => ?_).length_le
  obtain ⟨hkey, hpivot⟩ := List.mem_filter.1 hrow
  exact List.mem_filter.2 ⟨h row hkey (of_decide_eq_true hpivot), hpivot⟩

end Anchors

/-! ## Everything else that happens to the chain -/

section Steps

open Anchors

variable [DecidableEq H] {T : Config H A B} {a a' : Anchors H A}

theorem Sweep.wanes (h : Sweep T a a') : Wanes a a' := by
  cases h with
  | @pruned state hstate =>
    intro state' hstate'
    refine ⟨state, hstate, (pruneLoop_left _ _ state a state' hstate').1, fun hlt => ?_⟩
    exact (Nat.le_succ _).trans (turnsLeft_pruneCheckpoints hstate hlt state' hstate').2
  | checkpointsCleared _ _ | attestationsCleared _ _ => exact wanes_of_rows rfl fun _ _ => le_rfl
  | bucketsCleared kill _ =>
    refine wanes_of_rows rfl fun state _ => length_rowsFrom_le fun row hrow _ => ?_
    obtain ⟨v, hv⟩ := (StorageMap.mem_keys_iff _ row).1 hrow
    exact (StorageMap.mem_keys_iff _ row).2 ⟨v, StorageMap.lookup_clearPrefix _ kill row v hv⟩

omit [DecidableEq H] in
theorem wanes_imported (hmarked : a.Marked) {batch cps : List (AttestationCheckpoint H)}
    {last : Option (AttestationCheckpoint H)} (h : Imports a batch cps last) :
    Wanes a (a.imported cps last) := by
  refine wanes_of_rows rfl fun state hstate => length_rowsFrom_le fun row hrow hpivot => ?_
  obtain ⟨-, l, hl, hbelow⟩ := hmarked.pruning state hstate
  have hsome := (isSome_lookup_insertBuckets a.checkpointBuckets cps row).1
    (AList.lookup_isSome.2 hrow)
  rcases hsome with ⟨c, hc, rfl⟩ | hold
  · rcases h.last_cases with ⟨-, hlower⟩ | ⟨hnone, -⟩
    · obtain ⟨l', hl', hlt⟩ := hlower c hc
      obtain rfl := Option.mem_unique hl hl'
      have hmono := computeBlockIndexFor_mono hlt.le
      dsimp only at hpivot
      omega
    · rw [hnone] at hl
      cases hl
  · exact AList.lookup_isSome.1 hold

variable [DecidableEq A] {supported : Bool}

/-- During a pruning, only imports and sweeps succeed. -/
theorem AnchorStep.of_pruning {st : Settings} {r : Roster A}
    (hsome : a.checkpointPruningState ≠ none) (hstep : AnchorStep T supported st r a a') :
    (∃ batch cps last, Imports a batch cps last ∧ a' = a.imported cps last) ∨ Sweep T a a' := by
  cases hstep.effect with
  | committed now att hcommit =>
    exact absurd (doCommitAttestation_cases hcommit).1.pruning_eq hsome
  | imported himports => exact .inl ⟨_, _, _, himports, rfl⟩
  | reverted _ hpruning | patched _ hpruning => exact absurd hpruning hsome
  | swept hsweep => exact .inr hsweep

theorem AnchorStep.wanes {st : Settings} {r : Roster A} (hmarked : a.Marked)
    (hsome : a.checkpointPruningState ≠ none) (hstep : AnchorStep T supported st r a a') :
    Wanes a a' := by
  rcases hstep.of_pruning hsome with ⟨batch, cps, last, himports, rfl⟩ | hsweep
  · exact wanes_imported hmarked himports
  · exact hsweep.wanes

variable {c' c : Chain H A} {k : ChainKey}

theorem wanes_of_idle (h : ReflTransGen (IdleStep T supported k) c c') :
    Wanes c.anchors c'.anchors := by
  induction h with
  | refl => exact wanes_of_rows rfl fun _ _ => le_rfl
  | tail _ hlast ih =>
    refine ih.trans ?_
    cases hlast with
    | roster _ => exact wanes_of_rows rfl fun _ _ => le_rfl
    | settings _ => exact wanes_of_rows rfl fun _ _ => le_rfl
    | swept hsweep => exact hsweep.wanes

theorem ChainStep.stuck (h : c.anchors.Stuck) (hstep : ChainStep T supported k c c') :
    c'.anchors.Stuck := by
  obtain ⟨state, hstate, hnext, hstop⟩ := h
  have hsome : c.anchors.checkpointPruningState ≠ none := by
    rw [Option.mem_def.1 hstate]
    simp
  cases hstep with
  | roster _ | settings _ => exact ⟨state, hstate, hnext, hstop⟩
  | anchors hstep =>
    rcases hstep.of_pruning hsome with ⟨batch, cps, last, -, rfl⟩ | hsweep
    · exact ⟨state, hstate, hnext, hstop⟩
    · cases hsweep with
      | @pruned state₁ hstate₁ =>
        obtain rfl := Option.mem_unique hstate hstate₁
        exact pruneLoop_stuck _ _ hnext hstop
      | checkpointsCleared kill _ => exact ⟨state, hstate, hnext, hstop⟩
      | bucketsCleared kill _ => exact ⟨state, hstate, hnext, hstop⟩
      | attestationsCleared kill _ => exact ⟨state, hstate, hnext, hstop⟩

def Anchors.PivotInRange (a : Anchors H A) : Prop :=
  ∀ state ∈ a.checkpointPruningState, state.nextPivot ≤ u64Max

omit [DecidableEq A] in
theorem Commits.pruning_eq {st : Settings} {att : SignedAttestation H A} {n : ℕ}
    (h : Commits T st a att a' n) : a'.checkpointPruningState = a.checkpointPruningState := by
  cases h with
  | first _ _ => rfl
  | @caughtUp last cps _ _ => rw [caughtUp_eq a T st att cps]; rfl
  | queued _ _ =>
    obtain ⟨cps, popped, kept, k, heq, -⟩ :=
      queueAttestation_condenses T st a att
    rw [heq]
    rfl

omit [DecidableEq A] in
theorem patched_pivotInRange (kill : KillResult H) (wipe : Bool)
    (batch : List (AttestationCheckpoint H)) (tip : AttestationCheckpoint H) :
    (a.patched T kill wipe batch tip).PivotInRange := by
  intro state hstate
  change state ∈ (if wipe then wipePruning a.lastCheckpoint tip.blockNumber else none) at hstate
  split at hstate
  · unfold wipePruning at hstate
    split at hstate
    · split at hstate
      · obtain rfl := Option.mem_some_iff.1 hstate
        exact min_le_right _ _
      · cases hstate
    · cases hstate
  · cases hstate

theorem ChainStep.pivotInRange (h : c.anchors.PivotInRange) (hstep : ChainStep T supported k c c') :
    c'.anchors.PivotInRange := by
  cases hstep with
  | roster _ | settings _ => exact h
  | anchors hstep =>
    cases hstep.effect with
    | committed now att hcommit =>
      intro state hstate
      rw [Option.mem_def, (doCommitAttestation_cases hcommit).2.pruning_eq] at hstate
      exact h state hstate
    | imported _ => exact h
    | reverted kill _ _ _ =>
      intro state hstate
      obtain rfl := Option.mem_some_iff.1 hstate
      exact min_le_right _ _
    | patched kill _ _ => exact patched_pivotInRange kill _ _ _
    | swept hsweep =>
      cases hsweep with
      | @pruned state hstate =>
        intro state' hstate'
        exact ((pruneLoop_left _ _ state _ state' hstate').2).trans (max_le (h state hstate) le_rfl)
      | checkpointsCleared kill _ => exact h
      | bucketsCleared kill _ => exact h
      | attestationsCleared kill _ => exact h

end Steps

/-! ## Runs -/

section Runs

open Anchors

variable [DecidableEq H] [DecidableEq A] {T : Config H A B} {s s' : State H A B} {k : ChainKey}

theorem removeChain_pruning {host : Host H A} {k' : ChainKey} {b : Bool}
    (h : s.removeChain T host k' b = .ok s') (k : ChainKey) :
    (s'.chain T k).anchors.checkpointPruningState = none ∨ s'.chain T k = s.chain T k := by
  rcases eq_or_ne k k' with rfl | hne
  · simp only [State.removeChain, bind_eq_ok, pure_eq_ok] at h
    obtain ⟨g, -, rfl⟩ := h
    refine .inl ?_
    show ((s.setChain k _).chain T k).anchors.checkpointPruningState = none
    rw [State.chain_setChain_self]
    rfl
  · exact .inr ((removeChain_chain h k).2.2.1 hne).1

theorem pivotInRange_of_reachable (hreach : Reachable T s) (k : ChainKey) :
    (s.chain T k).anchors.PivotInRange := by
  obtain ⟨gc, s₀, acts, hgen, rfl⟩ := hreach
  induction acts using List.reverseRecOn with
  | nil =>
    intro state hstate
    rw [run, List.foldl_nil, (genesis_untouched hgen).pruning_eq] at hstate
    cases hstate
  | append_singleton acts act ih =>
    rw [run_append, run_singleton]
    have hkeys := (reachable_run hgen acts).keysBelow
    rcases step_cases hkeys act with ⟨hpath, -⟩ | ⟨host, o, call, k', a, -, -, hcall, heq⟩ |
      ⟨host, o, k', b, -, hremove⟩
    · exact ChainPath.preserves (P := fun c => c.anchors.PivotInRange)
        (fun _ _ h hstep => hstep.pivotInRange h) (hpath k).chainPath ih
    · rw [heq]
      exact ChainPath.preserves (P := fun c => c.anchors.PivotInRange)
        (fun _ _ h hstep => hstep.pivotInRange h) (hcall.chainPath k) ih
    · rcases removeChain_pruning hremove k with hnone | hsame
      · intro state hstate
        rw [hnone] at hstate
        cases hstate
      · exact hsame ▸ ih

variable (T) in
/-- The action is a block in which the chain has its turn of pruning. -/
def Action.prunes (k : ChainKey) (s : State H A B) : Action T → Bool
  | .block _ => (firstPending T s (·.anchors.checkpointPruningState)).map Prod.fst = some k
  | _ => false

variable (T) in
/-- The number of turns that a chain has in a run. -/
def pruneTurns (k : ChainKey) : State H A B → List (Action T) → ℕ
  | _, [] => 0
  | s, act :: acts => (if act.prunes T k s then 1 else 0) + pruneTurns k (step T s act) acts

theorem AnchorCall.supported {host : Host H A} {call : Call H A} {a : Anchors H A}
    (h : AnchorCall T host s call k a) : s.isChainSupported k = true := by
  cases h with
  | commit h => exact (doCommitAttestation_cases h).1.supported_eq
  | imports h => exact (doImportCheckpoints_effect h).1
  | revert h => exact (revertTo_effect h).1
  | patch h => exact (doForwardPatchCheckpoints_effect h).1

theorem step_wanes (hreach : Reachable T s) (act : Action T)
    (hsome : (s.chain T k).anchors.checkpointPruningState ≠ none) :
    Wanes (s.chain T k).anchors ((step T s act).chain T k).anchors := by
  rcases step_cases hreach.keysBelow act with ⟨hpath, -⟩ |
    ⟨host, o, call, k', a, -, -, hcall, heq⟩ | ⟨host, o, k', b, -, hremove⟩
  · exact wanes_of_idle (hpath k)
  · rw [heq, State.setAnchors, State.chain_setChain]
    split
    · next hk =>
      subst hk
      exact hcall.anchorStep.wanes
        (wellFormed_of_live hreach (.inl hcall.supported)).marked hsome
    · exact wanes_of_rows rfl fun _ _ => le_rfl
  · rcases removeChain_pruning hremove k with hnone | hsame
    · intro state hstate
      rw [hnone] at hstate
      cases hstate
    · rw [hsame]
      exact wanes_of_rows rfl fun _ _ => le_rfl

theorem onInitialize_turnsLeft (host : Host H A) {state : CheckpointPruningState}
    (hfirst : firstPending T s (·.anchors.checkpointPruningState) = some (k, state))
    (hstop : state.stopHeight < u64Max) :
    ∀ state' ∈ ((onInitialize T host s).chain T k).anchors.checkpointPruningState,
      state'.stopHeight = state.stopHeight ∧
        ((onInitialize T host s).chain T k).anchors.turnsLeft + 1 ≤
          (s.chain T k).anchors.turnsLeft := by
  intro state' hstate'
  have hpruned : ((onInitPruneCheckpoints T s).chain T k).anchors =
      pruneCheckpoints T state (s.chain T k).anchors := by
    rw [onInitPruneCheckpoints, hfirst]
    exact State.anchors_setAnchors T s k _
  have hrest := wanes_of_idle (idlePath_afterPruning (T := T) (k := k) (s := s) host)
  rw [hpruned] at hrest
  obtain ⟨state₁, hstate₁, hstop₁, hle⟩ := hrest state' hstate'
  obtain ⟨hstop₂, hlt⟩ :=
    turnsLeft_pruneCheckpoints (pending_of_firstPending hfirst) hstop state₁ hstate₁
  refine ⟨hstop₁.trans hstop₂, ?_⟩
  have hrest := hle (hstop₂ ▸ hstop)
  omega

/-- **A turn leaves one turn less, and nothing else adds any.** -/
theorem step_turnsLeft (hreach : Reachable T s) (act : Action T) {state : CheckpointPruningState}
    (hstate : (s.chain T k).anchors.checkpointPruningState = some state)
    (hstop : state.stopHeight < u64Max) :
    ∀ state' ∈ ((step T s act).chain T k).anchors.checkpointPruningState,
      state'.stopHeight = state.stopHeight ∧
        ((step T s act).chain T k).anchors.turnsLeft + (if act.prunes T k s then 1 else 0) ≤
          (s.chain T k).anchors.turnsLeft := by
  by_cases hturn : act.prunes T k s = true
  · rw [if_pos hturn]
    cases act with
    | block host =>
      obtain ⟨⟨k', state₁⟩, hfirst, rfl⟩ := Option.map_eq_some_iff.1 (of_decide_eq_true hturn)
      obtain rfl := Option.mem_unique hstate (pending_of_firstPending hfirst)
      obtain ⟨started, hstarted⟩ : ∃ started : State H A B,
        started = { s with blockNumber := s.blockNumber + 1 } := ⟨_, rfl⟩
      have hstep : step T s (.block host) = onInitialize T host started := by
        rw [hstarted]
        rfl
      have hchain : started.chain T k' = s.chain T k' := by
        rw [hstarted]
        rfl
      have hfirst' : firstPending T started (·.anchors.checkpointPruningState) =
          some (k', state) := by
        rw [hstarted]
        exact hfirst
      rw [hstep, ← hchain]
      exact onInitialize_turnsLeft host hfirst' hstop
    | call | epoch | era | currency => cases hturn
  · rw [if_neg hturn]
    intro state' hstate'
    obtain ⟨state₁, hstate₁, hstop₁, hle⟩ :=
      step_wanes hreach act (by rw [hstate]; simp) state' hstate'
    obtain rfl := Option.mem_unique hstate hstate₁
    exact ⟨hstop₁, hle hstop⟩

theorem exists_pruned (hreach : Reachable T s) (acts : List (Action T))
    (hstop : ∀ state ∈ (s.chain T k).anchors.checkpointPruningState, state.stopHeight < u64Max)
    (hturns : (s.chain T k).anchors.turnsLeft ≤ pruneTurns T k s acts) :
    ∃ pre, pre <+: acts ∧ ((run T s pre).chain T k).anchors.checkpointPruningState = none := by
  induction acts generalizing s with
  | nil => exact ⟨[], List.prefix_rfl, pruning_eq_none (Nat.le_zero.1 hturns)⟩
  | cons act acts ih =>
    rcases hstate : (s.chain T k).anchors.checkpointPruningState with _ | state
    · exact ⟨[], List.nil_prefix, hstate⟩
    · have hlt := hstop state hstate
      rcases hnext : ((step T s act).chain T k).anchors.checkpointPruningState with _ | state'
      · exact ⟨[act], List.prefix_append [act] acts, hnext⟩
      · obtain ⟨hstop', hle⟩ := step_turnsLeft hreach act hstate hlt state' hnext
        rw [pruneTurns] at hturns
        obtain ⟨pre, hpre, hnone⟩ := ih (hreach.step act)
          (fun state₁ hstate₁ => by
            obtain rfl := Option.mem_unique hnext hstate₁
            rw [hstop']
            exact hlt) (by omega)
        exact ⟨act :: pre, List.cons_prefix_cons.2 ⟨rfl, hpre⟩, hnone⟩

omit [DecidableEq H] [DecidableEq A] in
theorem commitBlocked_of_none {a : Anchors H A} (h : a.checkpointPruningState = none) :
    a.commitBlockedByCleanup = a.attestationClearingCursor.isSome := by
  rw [Anchors.commitBlockedByCleanup, h, Option.isSome_none, Bool.or_false]

/-- **Pruning ends unless it stops at the greatest height.** A turn deletes at most 40 checkpoints
and passes at most 80 exhausted pivots. A number of turns bounded by the rows that are left and by
the number of buckets removes the record, so that only the drain of attestations can still hold up
commits, exactly if the stop height is below the greatest height. The same bound holds for the turns
of the chain in any run, whatever happens in between. -/
theorem pruning_ends_iff (hreach : Reachable T s) {state : CheckpointPruningState}
    (hstate : (s.chain T k).anchors.checkpointPruningState = some state) :
    let a := (s.chain T k).anchors
    let bound := (a.rowsFrom state.nextPivot).length / 40 +
      ((state.stopHeight - state.nextPivot) / 1000 + 1) / 80 + 1
    (a.checkpoints.keys.length ≤ (a.pruneTurn T).checkpoints.keys.length + 40 ∧
        (exhaustedPivots T (maxCheckpointsClearedPerBlock * 2) maxCheckpointsClearedPerBlock state
          a).length ≤ 80) ∧
      ((∃ n ≤ bound, ((Anchors.pruneTurn T)^[n] a).checkpointPruningState = none ∧
          ((Anchors.pruneTurn T)^[n] a).commitBlockedByCleanup =
            a.attestationClearingCursor.isSome) ↔ state.stopHeight < u64Max) ∧
      (state.stopHeight < u64Max → ∀ acts, bound ≤ pruneTurns T k s acts →
        ∃ pre, pre <+: acts ∧ ((run T s pre).chain T k).anchors.commitBlockedByCleanup =
          ((run T s pre).chain T k).anchors.attestationClearingCursor.isSome) := by
  intro a bound
  have hbound : a.turnsLeft ≤ bound := by
    have hpivots : state.pivotsLeft ≤ (state.stopHeight - state.nextPivot) / 1000 + 1 := by
      unfold CheckpointPruningState.pivotsLeft checkpointBucketSize
      omega
    have hdiv := Nat.div_le_div_right (c := 80) hpivots
    have hleft : a.turnsLeft =
      (a.rowsFrom state.nextPivot).length / 40 + state.pivotsLeft / 80 + 1 := turnsLeft_eq hstate
    show _ ≤ (a.rowsFrom state.nextPivot).length / 40 +
      ((state.stopHeight - state.nextPivot) / 1000 + 1) / 80 + 1
    omega
  have hbelow : state.stopHeight < u64Max →
      ∀ state' ∈ a.checkpointPruningState, state'.stopHeight < u64Max := by
    intro hstop state' hstate'
    obtain rfl := Option.mem_unique hstate hstate'
    exact hstop
  refine ⟨⟨?_, length_exhaustedPivots_le _ _ state a⟩, ⟨?_, fun hstop => ?_⟩,
    fun hstop acts hturns => ?_⟩
  · rw [Anchors.pruneTurn, hstate]
    exact pruneLoop_deletes _ _ state a
  · rintro ⟨n, -, hnone, -⟩
    by_contra hstop
    have hstuck : ∀ n, ((Anchors.pruneTurn T)^[n] a).Stuck := by
      intro n
      induction n with
      | zero =>
        exact ⟨state, hstate, pivotInRange_of_reachable hreach k state hstate, not_lt.1 hstop⟩
      | succ n ih =>
        rw [Function.iterate_succ_apply']
        exact ih.pruneTurn
    obtain ⟨state', hstate', -⟩ := hstuck n
    rw [hnone] at hstate'
    cases hstate'
  · have hnone := pruning_iterate (T := T) hbound (hbelow hstop)
    refine ⟨bound, le_rfl, hnone, (commitBlocked_of_none hnone).trans ?_⟩
    have hcursor : ∀ n, ((Anchors.pruneTurn T)^[n] a).attestationClearingCursor =
        a.attestationClearingCursor := by
      intro n
      induction n with
      | zero => rfl
      | succ n ih =>
        rw [Function.iterate_succ_apply', cursor_pruneTurn]
        exact ih
    rw [hcursor]
  · obtain ⟨pre, hpre, hnone⟩ := exists_pruned hreach acts (hbelow hstop) (hbound.trans hturns)
    exact ⟨pre, hpre, commitBlocked_of_none hnone⟩

end Runs

section Devnet

open Devnet

/-- A development network that is reverted from a high checkpoint to a low one. -/
def revertedFrom (height : U64) : State Word ℕ Unit :=
  after (genesisConfig 10 10 [checkpoint 5, checkpoint height])
    [byRoot (.revertTo 1 5)]

/-- On a development network the pruning after a revert ends within the bound. -/
theorem devnet_pruning_ends :
    ∃ n ≤ (((revertedFrom 5000).chain config 1).anchors.rowsFrom 1000).length / 40 +
        ((5000 - 1000) / 1000 + 1) / 80 + 1,
      ((Anchors.pruneTurn config)^[n]
        ((revertedFrom 5000).chain config 1).anchors).checkpointPruningState = none := by
  have hreach : Reachable config (revertedFrom 5000) := reachable_after (by rfl) _
  have hstate : ((revertedFrom 5000).chain config 1).anchors.checkpointPruningState =
      some ⟨5000, 1000⟩ := by decide +kernel
  obtain ⟨n, hn, hnone, -⟩ := (pruning_ends_iff hreach hstate).2.1.2 (by decide)
  exact ⟨n, hn, hnone⟩

/-- A revert from the greatest height leaves a record that stays as long as the chain is supported,
whatever happens, and so no attestation is accepted any more. -/
theorem exists_pruning_stuck :
    ∃ s state, Reachable config s ∧ s.isChainSupported 1 = true ∧
      (s.chain config 1).anchors.checkpointPruningState = some state ∧
      ∀ acts, (run config s acts).isChainSupported 1 = true →
        ((run config s acts).chain config 1).anchors.commitBlockedByCleanup = true := by
  have hstate :
    ((revertedFrom 18446744073709551615).chain config 1).anchors.checkpointPruningState =
      some ⟨u64Max, 1000⟩ := by decide +kernel
  have hreach : Reachable config (revertedFrom 18446744073709551615) :=
    reachable_after (by rfl) _
  refine ⟨_, _, hreach, by rfl, hstate, fun acts hsup => ?_⟩
  obtain ⟨state, hstuck, -⟩ := run_invariant (P := fun c => c.anchors.Stuck) hreach.keysBelow
    (fun _ _ _ h hstep => hstep.stuck h)
    (fun _ => ⟨_, hstate, by decide, le_rfl⟩) acts (.inl hsup)
  rw [Anchors.commitBlockedByCleanup, Option.mem_def.1 hstuck, Option.isSome_some, Bool.or_true]

end Devnet

end Creditcoin
