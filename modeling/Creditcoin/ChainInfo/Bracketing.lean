import Creditcoin.Attestation.Reverts
import Creditcoin.ChainInfo.Queries
import Mathlib.Data.List.Iterate

/-!
# The anchors around a target

What the two bracketing queries answer while no drain is in progress. A search of the buckets finds
the stored checkpoint nearest to the target if one lies in the five buckets searched
(`searchBuckets_found`), and a scan finds the nearest attestation. The queries choose between the
two by comparing the target with the last checkpoint; `brackets_iff` says for which targets that is
right. -/

namespace Creditcoin

open Metered

variable {H A B : Type}

/-! ## Anchors -/

namespace Anchors

variable (a : Anchors H A)

def Checkpointed (n : ℕ) : Prop := (a.checkpoints.lookup n).isSome = true

instance : DecidablePred a.Checkpointed := fun n =>
  inferInstanceAs (Decidable ((a.checkpoints.lookup n).isSome = true))

/-- There is an attestation of the height. -/
def AttestedAt [DecidableEq H] (n : ℕ) : Prop :=
  ∃ d att, a.attestations.lookup d = some att ∧ att.headerNumber = n

/-- The result names a stored anchor with its digest. -/
def Holds [DecidableEq H] (r : HeightHashResult H) : Prop :=
  match r.isAttestation with
  | true => ∃ att, a.attestations.lookup r.hash = some att ∧ att.headerNumber = r.height
  | false => a.checkpoints.lookup r.height = some r.hash

end Anchors

variable {T : Config H A B} {a : Anchors H A}

theorem commitBlockedByCleanup_eq_false : a.commitBlockedByCleanup = false ↔
    a.attestationsStable = true ∧ a.checkpointPruningState = none := by
  rw [Anchors.commitBlockedByCleanup, Bool.or_eq_false_iff, Option.isSome_eq_false_iff,
    Option.isSome_eq_false_iff, Option.isNone_iff_eq_none (o := a.checkpointPruningState)]
  rfl

section Scans

variable [DecidableEq H] {digestRank : H → ℕ}

theorem Anchors.mem_attestationRows {d : H} {att : SignedAttestation H A} :
    (d, att) ∈ a.attestationRows digestRank ↔ a.attestations.lookup d = some att := by
  simp only [attestationRows, List.mem_filterMap, StorageMap.mem_iterKeys, Option.map_eq_some_iff,
    Prod.mk.injEq]
  constructor
  · rintro ⟨d', -, att', hlookup, rfl, rfl⟩
    exact hlookup
  · intro hlookup
    exact ⟨d, ⟨att, hlookup⟩, att, hlookup, rfl, rfl⟩

theorem Anchors.exists_attestationRows {p : ℕ → Prop} :
    (∃ row ∈ a.attestationRows digestRank, p row.2.headerNumber) ↔ ∃ n, a.AttestedAt n ∧ p n := by
  constructor
  · rintro ⟨⟨d, att⟩, hmem, hp⟩
    exact ⟨_, ⟨d, att, mem_attestationRows.1 hmem, rfl⟩, hp⟩
  · rintro ⟨_, ⟨d, att, hlookup, rfl⟩, hp⟩
    exact ⟨(d, att), mem_attestationRows.2 hlookup, hp⟩

/-- The result is the attestation that comes first in the order `r` among those whose heights
satisfy `keep`, or there is none. -/
def Anchors.Nearest (a : Anchors H A) (keep : ℕ → Prop) (r : ℕ → ℕ → Prop) :
    Option (HeightHashResult H) → Prop
  | none => ∀ n, a.AttestedAt n → ¬ keep n
  | some x => x.doesExist = true ∧ a.Holds x ∧ a.AttestedAt x.height ∧ keep x.height ∧
      ∀ n, a.AttestedAt n → keep n → r x.height n

variable (digestRank) in
theorem nearest_of_extremal {keep : ℕ → Prop} [DecidablePred keep] {r : ℕ → ℕ → Prop}
    {pick : Option (H × SignedAttestation H A)}
    {rows : List (H × SignedAttestation H A)}
    (hrows : rows = (a.attestationRows digestRank).filter fun row => keep row.2.headerNumber)
    (hnone : pick = none → rows = []) (hmem : ∀ row ∈ pick, row ∈ rows)
    (hfirst : ∀ row ∈ pick, ∀ row' ∈ rows, r row.2.headerNumber row'.2.headerNumber) :
    a.Nearest keep r (pick.map .ofAttestation) := by
  have hiff : ∀ d att, (d, att) ∈ rows ↔
      a.attestations.lookup d = some att ∧ keep att.headerNumber := by
    intro d att
    rw [hrows, List.mem_filter, Anchors.mem_attestationRows, decide_eq_true_eq]
  rcases pick with _ | row
  · rintro _ ⟨d, att, hlookup, rfl⟩ hkeep
    have hin := (hiff d att).2 ⟨hlookup, hkeep⟩
    rw [hnone rfl] at hin
    cases hin
  · obtain ⟨hlookup, hkeep⟩ := (hiff _ _).1 (hmem row rfl)
    refine ⟨rfl, ⟨row.2, hlookup, rfl⟩, ⟨_, _, hlookup, rfl⟩, hkeep, ?_⟩
    rintro _ ⟨d, att, hatt, rfl⟩ hkeep'
    exact hfirst row rfl _ ((hiff d att).2 ⟨hatt, hkeep'⟩)

variable (digestRank) in
theorem highestAttestation_nearest (hstable : a.attestationsStable = true) (t : ℕ) :
    a.Nearest (· < t) (fun m n => n ≤ m) (highestAttestation digestRank a t) := by
  rw [highestAttestation, if_pos hstable]
  refine nearest_of_extremal digestRank rfl (fun h => ?_) (fun row h => ?_) fun row h row' h' => ?_
  · exact List.reverse_eq_nil_iff.1 (List.argmax_eq_none.1 h)
  · exact List.mem_reverse.1 (List.argmax_mem h)
  · have hle := List.le_of_mem_argmax (List.mem_reverse.2 h') h
    exact hle

variable (digestRank) in
theorem lowestAttestation_nearest (hstable : a.attestationsStable = true) (t : ℕ) :
    a.Nearest (t ≤ ·) (fun m n => m ≤ n) (lowestAttestation digestRank a t) := by
  rw [lowestAttestation, if_pos hstable]
  refine nearest_of_extremal digestRank rfl (fun h => ?_) (fun row h => ?_) fun row h row' h' => ?_
  · exact List.argmin_eq_none.1 h
  · exact List.argmin_mem h
  · have hle := List.le_of_mem_argmin h' h
    exact hle

end Scans

/-! ## Searches of the buckets -/

/-- The checkpoint at a height, as a result. -/
def Anchors.probe (a : Anchors H A) (n : ℕ) : Option (HeightHashResult H) :=
  (a.checkpointIfStable n).map (.ofCheckpoint n)

theorem probeCheckpoints_answers (heights : List ℕ) :
    Answers (probeCheckpoints a heights) True (heights.findSome? a.probe) := by
  induction heights with
  | nil => exact .pure none
  | cons n heights ih =>
    refine .charge _ _ ?_
    rw [List.findSome?_cons, Anchors.probe]
    rcases a.checkpointIfStable n with _ | d
    · exact ih
    · exact .pure _

section Search

variable {keep : ℕ → Bool} {r : ℕ → ℕ → Prop} [DecidableRel r] {next : ℕ → ℕ}

/-- The heights of a bucket that a search probes, in its order. -/
def Anchors.candidates (T : Config H A B) (a : Anchors H A) (keep : ℕ → Bool) (r : ℕ → ℕ → Prop)
    [DecidableRel r] (pivot : ℕ) : List ℕ :=
  ((a.bucketHeights T pivot).filter keep).insertionSort r

theorem searchBuckets_answers (attempts pivot : ℕ) :
    Answers (searchBuckets T a keep r next attempts pivot) True
      ((List.iterate next pivot attempts).findSome? fun p =>
        (a.candidates T keep r p).findSome? a.probe) := by
  induction attempts generalizing pivot with
  | zero => exact .pure none
  | succ attempts ih =>
    refine .charge _ _ (.charge _ _ ((probeCheckpoints_answers _).seq ?_))
    rw [List.iterate, List.findSome?_cons, Anchors.candidates]
    rcases List.findSome? a.probe _ with _ | result
    · exact ih (next pivot)
    · exact .pure _

variable (hindexed : a.Indexed) (hpruning : a.checkpointPruningState = none)

include hindexed

variable {n pivot : ℕ}

theorem Anchors.mem_candidates : n ∈ a.candidates T keep r pivot ↔
    computeBlockIndexFor n = pivot ∧ a.Checkpointed n ∧ keep n = true := by
  rw [candidates, List.mem_insertionSort, List.mem_filter, hindexed.mem_bucketHeights, and_assoc]
  rfl

include hpruning

omit hindexed in
theorem Anchors.probe_eq_some {x : HeightHashResult H} : a.probe n = some x ↔
    ∃ d, a.checkpoints.lookup n = some d ∧ .ofCheckpoint n d = x := by
  rw [probe, Option.map_eq_some_iff]
  simp only [checkpointIfStable_eq_some, hpruning]
  simp

theorem not_candidate_of_eq_none (h : (a.candidates T keep r pivot).findSome? a.probe = none)
    (hpivot : computeBlockIndexFor n = pivot) (hn : a.Checkpointed n) : keep n = false := by
  by_contra hkeep
  obtain ⟨d, hd⟩ := Option.isSome_iff_exists.1 hn
  have hprobe := (Anchors.probe_eq_some hpruning).2 ⟨d, hd, rfl⟩
  rw [List.findSome?_eq_none_iff] at h
  rw [h n ((Anchors.mem_candidates hindexed).2 ⟨hpivot, hn, by simpa using hkeep⟩)] at hprobe
  cases hprobe

theorem searchBuckets_none {attempts : ℕ}
    (h : ((List.iterate next pivot attempts).findSome? fun p =>
      (a.candidates T keep r p).findSome? a.probe) = none)
    (hpivot : computeBlockIndexFor n ∈ List.iterate next pivot attempts) (hn : a.Checkpointed n) :
    keep n = false := by
  rw [List.findSome?_eq_none_iff] at h
  exact not_candidate_of_eq_none hindexed hpruning (h _ hpivot) rfl hn

/-- **What is found is a checkpoint, and no other candidate comes before it**, provided that the
buckets are visited in the order of the search. -/
theorem searchBuckets_found [Std.Total r] [IsTrans ℕ r] {attempts : ℕ}
    (hvisit : ∀ m n i, a.Checkpointed m → keep m = true → a.Checkpointed n → ¬ r n m →
      computeBlockIndexFor n = next^[i] pivot → ∃ j ≤ i, computeBlockIndexFor m = next^[j] pivot)
    {x : HeightHashResult H} (h : ((List.iterate next pivot attempts).findSome? fun p =>
      (a.candidates T keep r p).findSome? a.probe) = some x) :
    ∃ n d, x = .ofCheckpoint n d ∧ a.checkpoints.lookup n = some d ∧ keep n = true ∧
      ∀ m, a.Checkpointed m → keep m = true → r n m := by
  induction attempts generalizing pivot with
  | zero => cases h
  | succ attempts ih =>
    rw [List.iterate, List.findSome?_cons] at h
    split at h
    · next y hy =>
      obtain rfl := Option.some.inj h
      obtain ⟨l₁, n, l₂, hlist, hprobe, hnone⟩ := List.findSome?_eq_some_iff.1 hy
      obtain ⟨d, hd, rfl⟩ := (Anchors.probe_eq_some hpruning).1 hprobe
      have hmem : n ∈ a.candidates T keep r pivot := by
        rw [hlist]
        simp
      obtain ⟨hpivot, hn, hkeep⟩ := (Anchors.mem_candidates hindexed).1 hmem
      refine ⟨n, d, rfl, hd, hkeep, fun m hm hkeepm => ?_⟩
      by_contra hr
      -- A candidate that comes before `n` is in the same bucket, and so before `n` in the list.
      obtain ⟨j, hj, hpivotm⟩ := hvisit m n 0 hm hkeepm hn hr hpivot
      obtain rfl : j = 0 := by omega
      have hmemm := (Anchors.mem_candidates (T := T) (r := r) hindexed).2 ⟨hpivotm, hm, hkeepm⟩
      have hsorted : (a.candidates T keep r pivot).Pairwise r := List.pairwise_insertionSort r _
      rw [Function.iterate_zero, id, hlist] at hmemm
      rw [hlist] at hsorted
      rcases List.mem_append.1 hmemm with hbefore | hafter
      · obtain ⟨e, he⟩ := Option.isSome_iff_exists.1 hm
        have hfound := (Anchors.probe_eq_some hpruning).2 ⟨e, he, rfl⟩
        rw [hnone m hbefore] at hfound
        cases hfound
      · rcases List.mem_cons.1 hafter with rfl | hafter
        · exact hr ((Std.Total.total m m).elim id id)
        · exact hr (List.rel_of_pairwise_cons (List.pairwise_append.1 hsorted).2.1 hafter)
    · next hnone =>
      refine ih (fun m n i hm hkeepm hn hr hpivot => ?_) h
      obtain ⟨j, hj, hpivotm⟩ := hvisit m n (i + 1) hm hkeepm hn hr hpivot
      cases j with
      | zero =>
        rw [not_candidate_of_eq_none hindexed hpruning hnone hpivotm hm] at hkeepm
        cases hkeepm
      | succ j => exact ⟨j, by omega, hpivotm⟩

end Search

/-! ## The buckets searched -/

theorem iterate_sub (size i pivot : ℕ) :
    (fun pivot => pivot - size)^[i] pivot = pivot - size * i := by
  induction i with
  | zero => rfl
  | succ i ih =>
    rw [Function.iterate_succ_apply', ih, Nat.sub_sub, Nat.mul_succ]

theorem iterate_satAdd {bound size pivot : ℕ} (hpivot : pivot ≤ bound) (i : ℕ) :
    (fun pivot => satAdd bound pivot size)^[i] pivot = min (pivot + size * i) bound := by
  induction i with
  | zero => exact (min_eq_left hpivot).symm
  | succ i ih =>
    rw [Function.iterate_succ_apply', ih, satAdd, Nat.mul_succ]
    omega

variable {n t : ℕ}

theorem mem_pivots_below :
    computeBlockIndexFor n ∈ List.iterate (fun pivot => pivot - checkpointBucketSize)
      (computeBlockIndexFor t) bucketSearchAttempts ↔
    computeBlockIndexFor n ≤ computeBlockIndexFor t ∧
      computeBlockIndexFor t ≤ computeBlockIndexFor n + 4000 := by
  have hn := computeBlockIndexFor_mod n
  have ht := computeBlockIndexFor_mod t
  rw [List.mem_iterate]
  simp only [iterate_sub]
  unfold checkpointBucketSize bucketSearchAttempts at *
  constructor
  · rintro ⟨i, hi, heq⟩
    omega
  · rintro ⟨hle, hge⟩
    exact ⟨(computeBlockIndexFor t - computeBlockIndexFor n) / 1000, by omega, by omega⟩

theorem mem_pivots_above (hn : n < 2 ^ 64) (ht : t < 2 ^ 64) :
    computeBlockIndexFor n ∈
      List.iterate (fun pivot => satAdd u64Max pivot checkpointBucketSize)
        (computeBlockIndexFor t) bucketSearchAttempts ↔
    computeBlockIndexFor t ≤ computeBlockIndexFor n ∧
      computeBlockIndexFor n ≤ computeBlockIndexFor t + 4000 := by
  have hmodn := computeBlockIndexFor_mod n
  have hmodt := computeBlockIndexFor_mod t
  have hlen := computeBlockIndexFor_le n
  have hlet := computeBlockIndexFor_le t
  have hbound : computeBlockIndexFor t ≤ u64Max := by
    unfold u64Max
    omega
  rw [List.mem_iterate]
  simp only [iterate_satAdd hbound]
  unfold checkpointBucketSize bucketSearchAttempts u64Max at *
  constructor
  · rintro ⟨i, hi, heq⟩
    omega
  · rintro ⟨hle, hge⟩
    exact ⟨(computeBlockIndexFor n - computeBlockIndexFor t) / 1000, by omega, by omega⟩

theorem visit_below {m i : ℕ} (hm : m < t) (hnm : n < m) (hn : computeBlockIndexFor n =
      (fun pivot => pivot - checkpointBucketSize)^[i] (computeBlockIndexFor (t - 1))) :
    ∃ j ≤ i, computeBlockIndexFor m =
      (fun pivot => pivot - checkpointBucketSize)^[j] (computeBlockIndexFor (t - 1)) := by
  have hmodm := computeBlockIndexFor_mod m
  have hmodt := computeBlockIndexFor_mod (t - 1)
  have hle : computeBlockIndexFor n ≤ computeBlockIndexFor m := computeBlockIndexFor_mono hnm.le
  have hge : computeBlockIndexFor m ≤ computeBlockIndexFor (t - 1) :=
    computeBlockIndexFor_mono (by omega)
  simp only [iterate_sub] at hn ⊢
  unfold checkpointBucketSize at *
  exact ⟨(computeBlockIndexFor (t - 1) - computeBlockIndexFor m) / 1000, by omega, by omega⟩

theorem visit_above {m i : ℕ} (hm : t ≤ m) (hmn : m < n) (hlt : n < 2 ^ 64)
    (hn : computeBlockIndexFor n =
      (fun pivot => satAdd u64Max pivot checkpointBucketSize)^[i] (computeBlockIndexFor t)) :
    ∃ j ≤ i, computeBlockIndexFor m =
      (fun pivot => satAdd u64Max pivot checkpointBucketSize)^[j] (computeBlockIndexFor t) := by
  have hmodm := computeBlockIndexFor_mod m
  have hmodt := computeBlockIndexFor_mod t
  have hle : computeBlockIndexFor m ≤ computeBlockIndexFor n := computeBlockIndexFor_mono hmn.le
  have hge : computeBlockIndexFor t ≤ computeBlockIndexFor m := computeBlockIndexFor_mono hm
  have hlem := computeBlockIndexFor_le m
  have hbound : computeBlockIndexFor t ≤ u64Max := by
    unfold u64Max
    omega
  simp only [iterate_satAdd hbound] at hn ⊢
  unfold checkpointBucketSize u64Max at *
  exact ⟨(computeBlockIndexFor m - computeBlockIndexFor t) / 1000, by omega, by omega⟩

/-! ## What the queries answer -/

section Queries

variable [DecidableEq H] {digestRank : H → ℕ} {s : State H A B} {k : ChainKey} {t : U64}

omit [DecidableEq H] in
theorem ensureChainSupported_answers :
    Answers (ensureChainSupported s k) (s.isChainSupported k = true) () :=
  .charge _ _ ⟨0, .require _ _⟩

omit [DecidableEq H] in
theorem orLastCheckpoint_answers (highest : Option (HeightHashResult H)) :
    Answers (orLastCheckpoint T a highest) True
      ((highest.or (a.lastCheckpoint.bind fun last => a.probe last.blockNumber)).getD
        (.default T.zero)) := by
  unfold orLastCheckpoint
  rcases highest with _ | highest
  · rcases a.lastCheckpoint with _ | last
    · exact .pure _
    · refine .charge _ _ ?_
      simp only [Option.none_or, Option.bind_some, Anchors.probe]
      rcases a.checkpointIfStable last.blockNumber with _ | digest
      · exact .pure _
      · exact .pure _
  · exact .pure _

/-- The highest anchor below the target, as the query finds it. -/
def Anchors.highestBefore (T : Config H A B) (digestRank : H → ℕ) (a : Anchors H A) (t : ℕ) :
    Option (HeightHashResult H) :=
  if a.lastCheckpoint.any fun last => t ≤ last.blockNumber then
    (List.iterate (fun pivot => pivot - checkpointBucketSize) (computeBlockIndexFor (t - 1))
      bucketSearchAttempts).findSome? fun p =>
        (a.candidates T (fun n => n < t) (fun m n => n ≤ m) p).findSome? a.probe
  else (highestAttestation digestRank a t).or
    (a.lastCheckpoint.bind fun last => a.probe last.blockNumber)

/-- The lowest anchor at or above the target, as the query finds it. -/
def Anchors.lowestAfter (T : Config H A B) (digestRank : H → ℕ) (a : Anchors H A) (t : ℕ) :
    Option (HeightHashResult H) :=
  if a.lastCheckpoint.any fun last => t < last.blockNumber then
    (List.iterate (fun pivot => satAdd u64Max pivot checkpointBucketSize) (computeBlockIndexFor t)
      bucketSearchAttempts).findSome? fun p =>
        (a.candidates T (fun n => t ≤ n) (fun m n => m ≤ n) p).findSome? a.probe
  else lowestAttestation digestRank a t

theorem findHighestAttestedBefore_answers :
    Answers (findHighestAttestedBefore T digestRank s k t) (s.isChainSupported k = true)
      (((s.chain T k).anchors.highestBefore T digestRank t.val).getD (.default T.zero)) := by
  refine (ensureChainSupported_answers.bind (.charge _ _ ?_)).congr (iff_of_eq (and_true _))
  unfold Anchors.highestBefore
  dsimp only
  split
  · exact (searchBuckets_answers _ _).seq (.pure _)
  · exact .charge _ _ ((orLastCheckpoint_answers _).seq (.charge _ _ (.pure _)))

theorem findLowestAttestedAfter_answers :
    Answers (findLowestAttestedAfter T digestRank s k t) (s.isChainSupported k = true)
      (((s.chain T k).anchors.lowestAfter T digestRank t.val).getD (.default T.zero)) := by
  refine (ensureChainSupported_answers.bind (.charge _ _ ?_)).congr (iff_of_eq (and_true _))
  unfold Anchors.lowestAfter
  dsimp only
  split
  · exact (searchBuckets_answers _ _).seq (.pure _)
  · exact .charge _ _ (.charge _ _ (.pure _))

end Queries

/-! ## Brackets -/

section Brackets

variable [DecidableEq H]

/-- A result is what the search for the highest anchor below `t` should find. -/
structure BracketsBelow (a : Anchors H A) (t : ℕ) (r : HeightHashResult H) : Prop where
  stored : r.doesExist = true → a.Holds r ∧ r.height < t
  nearest : r.doesExist = true → ∀ n, r.height < n → n < t → ¬ a.Checkpointed n
  found : ∀ n, a.Checkpointed n → n < t →
    computeBlockIndexFor (t - 1) ≤ computeBlockIndexFor n + 4000 → r.doesExist = true

/-- A result is what the search for the lowest anchor at or above `t` should find. -/
structure BracketsAbove (a : Anchors H A) (t : ℕ) (r : HeightHashResult H) : Prop where
  stored : r.doesExist = true → a.Holds r ∧ t ≤ r.height
  nearest : r.doesExist = true → ∀ n, t < n → n < r.height → ¬ a.Checkpointed n
  found : ∀ n, a.Checkpointed n → t ≤ n →
    computeBlockIndexFor n ≤ computeBlockIndexFor t + 4000 → r.doesExist = true

/-- If the target is above the last checkpoint, no attestation below the target is older than a
checkpoint below it, or there is none and the last checkpoint is the highest below the target. -/
def BracketableBelow (a : Anchors H A) (t : ℕ) : Prop :=
  (∀ last ∈ a.lastCheckpoint, last.blockNumber < t) → ∀ n, a.Checkpointed n → n < t →
    (∃ m, a.AttestedAt m ∧ n ≤ m ∧ m < t) ∨
      (∀ m, a.AttestedAt m → t ≤ m) ∧ ∀ last ∈ a.lastCheckpoint, n ≤ last.blockNumber

/-- If the target is at or above the last checkpoint, a checkpoint within reach at or above the
target comes with an attestation there, and none lies between the target and the attestations. -/
def BracketableAbove (a : Anchors H A) (t : ℕ) : Prop :=
  (∀ last ∈ a.lastCheckpoint, last.blockNumber ≤ t) → ∀ n, a.Checkpointed n → t ≤ n →
    (computeBlockIndexFor n ≤ computeBlockIndexFor t + 4000 → ∃ m, a.AttestedAt m ∧ t ≤ m) ∧
      (t < n → (∃ m, a.AttestedAt m ∧ t ≤ m) → ∃ m, a.AttestedAt m ∧ t ≤ m ∧ m ≤ n)

variable {digestRank : H → ℕ}

omit [DecidableEq H] in
theorem any_lastCheckpoint {p : ℕ → Prop} [DecidablePred p] :
    (a.lastCheckpoint.any fun last => p last.blockNumber) = true ↔
      ∃ last ∈ a.lastCheckpoint, p last.blockNumber := by
  cases a.lastCheckpoint <;> simp

theorem bracketsBelow_of_le (hindexed : a.Indexed) (hpruning : a.checkpointPruningState = none)
    {t : ℕ} (hlast : ∃ last ∈ a.lastCheckpoint, t ≤ last.blockNumber) :
    BracketsBelow a t ((a.highestBefore T digestRank t).getD (.default T.zero)) := by
  rw [Anchors.highestBefore, if_pos (any_lastCheckpoint.2 hlast)]
  rcases hsearch : List.findSome? _ _ with _ | x
  · refine ⟨nofun, nofun, fun n hn hlt hreach => ?_⟩
    have hmem := mem_pivots_below.2 ⟨computeBlockIndexFor_mono (by omega : n ≤ t - 1), hreach⟩
    have hkeep := searchBuckets_none hindexed hpruning hsearch hmem hn
    simp only [decide_eq_false_iff_not] at hkeep
    exact absurd hlt hkeep
  · obtain ⟨n, d, rfl, hd, hkeep, hfirst⟩ := searchBuckets_found hindexed hpruning
      (fun m n i _ hm _ hr hn => visit_below (of_decide_eq_true hm) (Nat.lt_of_not_le hr) hn)
      hsearch
    refine ⟨fun _ => ⟨hd, of_decide_eq_true hkeep⟩, fun _ m hlt hm hcp => ?_, fun _ _ _ _ => rfl⟩
    have hle : m ≤ n := hfirst m hcp (decide_eq_true hm)
    exact absurd hle (Nat.not_le_of_lt hlt)

theorem bracketsAbove_of_lt (hindexed : a.Indexed) (hpruning : a.checkpointPruningState = none)
    {t : ℕ} (ht : t < 2 ^ 64) (hlast : ∃ last ∈ a.lastCheckpoint, t < last.blockNumber) :
    BracketsAbove a t ((a.lowestAfter T digestRank t).getD (.default T.zero)) := by
  rw [Anchors.lowestAfter, if_pos (any_lastCheckpoint.2 hlast)]
  rcases hsearch : List.findSome? _ _ with _ | x
  · refine ⟨nofun, nofun, fun n hn hle hreach => ?_⟩
    have hmem := (mem_pivots_above (hindexed.height_lt n hn) ht).2
      ⟨computeBlockIndexFor_mono hle, hreach⟩
    have hkeep := searchBuckets_none hindexed hpruning hsearch hmem hn
    simp only [decide_eq_false_iff_not] at hkeep
    exact absurd hle hkeep
  · obtain ⟨n, d, rfl, hd, hkeep, hfirst⟩ := searchBuckets_found hindexed hpruning
      (fun m n i _ hm hn hr hpivot => visit_above (of_decide_eq_true hm) (Nat.lt_of_not_le hr)
        (hindexed.height_lt n hn) hpivot) hsearch
    refine ⟨fun _ => ⟨hd, of_decide_eq_true hkeep⟩, fun _ m hm hlt hcp => ?_, fun _ _ _ _ => rfl⟩
    have hle : n ≤ m := hfirst m hcp (decide_eq_true hm.le)
    exact absurd hle (Nat.not_le_of_lt hlt)

variable (hmarked : a.Marked) (hstable : a.attestationsStable = true)
  (hpruning : a.checkpointPruningState = none)

include hmarked hpruning

omit [DecidableEq H] in
theorem exists_lastCheckpoint {n : ℕ} (hn : a.Checkpointed n) :
    ∃ last ∈ a.lastCheckpoint, a.probe last.blockNumber =
      some (.ofCheckpoint last.blockNumber last.digest) := by
  rcases hlast : a.lastCheckpoint with _ | last
  · rw [Anchors.Checkpointed, hmarked.empty hlast n] at hn
    cases hn
  · exact ⟨last, rfl, (Anchors.probe_eq_some hpruning).2 ⟨_, hmarked.stored last hlast, rfl⟩⟩

include hstable

theorem bracketsBelow_iff (t : ℕ) :
    BracketsBelow a t ((a.highestBefore T digestRank t).getD (.default T.zero)) ↔
      BracketableBelow a t := by
  by_cases hlast : ∃ last ∈ a.lastCheckpoint, t ≤ last.blockNumber
  · refine iff_of_true (bracketsBelow_of_le hmarked.indexed hpruning hlast) fun habove => ?_
    obtain ⟨last, hmem, hle⟩ := hlast
    exact absurd (habove last hmem) (Nat.not_lt_of_le hle)
  rw [Anchors.highestBefore, if_neg fun h => hlast (any_lastCheckpoint.1 h)]
  have habove : ∀ last ∈ a.lastCheckpoint, last.blockNumber < t := fun last hmem =>
    Nat.lt_of_not_le fun hle => hlast ⟨last, hmem, hle⟩
  have hnearest := highestAttestation_nearest digestRank hstable t
  rcases hscan : highestAttestation digestRank a t with _ | x <;> rw [hscan] at hnearest
  · -- No attestation below the target: the answer is the last checkpoint.
    rw [Option.none_or]
    constructor
    · intro h _ n hn hlt
      obtain ⟨last, hmem, hprobe⟩ := exists_lastCheckpoint hmarked hpruning hn
      rw [Option.mem_def.1 hmem, Option.bind_some, hprobe] at h
      refine .inr ⟨fun m hm => Nat.le_of_not_lt (hnearest m hm), fun last' hmem' => ?_⟩
      obtain rfl := Option.mem_unique hmem hmem'
      exact Nat.le_of_not_lt fun hgt => h.nearest rfl n hgt hlt hn
    · intro h
      rcases hlast' : a.lastCheckpoint with _ | last
      · refine ⟨nofun, nofun, fun n hn => ?_⟩
        rw [Anchors.Checkpointed, hmarked.empty hlast' n] at hn
        cases hn
      · have hprobe := (Anchors.probe_eq_some hpruning).2 ⟨_, hmarked.stored last hlast', rfl⟩
        rw [Option.bind_some, hprobe]
        refine ⟨fun _ => ⟨hmarked.stored last hlast', habove last hlast'⟩, fun _ n hgt hlt hn => ?_,
          fun _ _ _ _ => rfl⟩
        rcases h habove n hn hlt with ⟨m, hm, -, hmt⟩ | ⟨-, hle⟩
        · exact hnearest m hm hmt
        · exact absurd (hle last hlast') (Nat.not_le_of_lt hgt)
  · -- The answer is the highest attestation below the target.
    obtain ⟨hexists, hstored, hattested, hlt, hhighest⟩ := hnearest
    rw [Option.some_or]
    constructor
    · intro h _ n hn hnt
      refine .inl ⟨_, hattested, Nat.le_of_not_lt fun hgt => ?_, hlt⟩
      exact h.nearest hexists n hgt hnt hn
    · intro h
      refine ⟨fun _ => ⟨hstored, hlt⟩, fun _ n hgt hnt hn => ?_, fun _ _ _ _ => hexists⟩
      rcases h habove n hn hnt with ⟨m, hm, hle, hmt⟩ | ⟨hnone, -⟩
      · exact absurd (hle.trans (hhighest m hm hmt)) (Nat.not_le_of_lt hgt)
      · exact absurd (hnone _ hattested) (Nat.not_le_of_lt hlt)

/-- The search for the lowest anchor at or above the target is right exactly for the targets
named. -/
theorem bracketsAbove_iff {t : ℕ} (ht : t < 2 ^ 64) :
    BracketsAbove a t ((a.lowestAfter T digestRank t).getD (.default T.zero)) ↔
      BracketableAbove a t := by
  by_cases hlast : ∃ last ∈ a.lastCheckpoint, t < last.blockNumber
  · refine iff_of_true (bracketsAbove_of_lt hmarked.indexed hpruning ht hlast) fun hbelow => ?_
    obtain ⟨last, hmem, hlt⟩ := hlast
    exact absurd (hbelow last hmem) (Nat.not_le_of_lt hlt)
  rw [Anchors.lowestAfter, if_neg fun h => hlast (any_lastCheckpoint.1 h)]
  have hbelow : ∀ last ∈ a.lastCheckpoint, last.blockNumber ≤ t := fun last hmem =>
    Nat.le_of_not_lt fun hlt => hlast ⟨last, hmem, hlt⟩
  have hnearest := lowestAttestation_nearest digestRank hstable t
  rcases hscan : lowestAttestation digestRank a t with _ | x <;> rw [hscan] at hnearest
  · constructor
    · intro h _ n hn hle
      refine ⟨fun hreach => ?_, fun _ hm => hm.elim fun m hm => absurd hm.2 (hnearest m hm.1)⟩
      cases h.found n hn hle hreach
    · intro h
      refine ⟨nofun, nofun, fun n hn hle hreach => ?_⟩
      obtain ⟨m, hm, hmt⟩ := (h hbelow n hn hle).1 hreach
      exact absurd hmt (hnearest m hm)
  · obtain ⟨hexists, hstored, hattested, hle, hlowest⟩ := hnearest
    constructor
    · intro h _ n hn _
      refine ⟨fun _ => ⟨_, hattested, hle⟩, fun hlt _ => ⟨_, hattested, hle, ?_⟩⟩
      exact Nat.le_of_not_lt fun hgt => h.nearest hexists n hlt hgt hn
    · intro h
      refine ⟨fun _ => ⟨hstored, hle⟩, fun _ n hlt hgt hn => ?_, fun _ _ _ _ => hexists⟩
      obtain ⟨m, hm, htm, hmn⟩ := (h hbelow n hn hlt.le).2 hlt ⟨_, hattested, hle⟩
      exact absurd ((hlowest m hm htm).trans hmn) (Nat.not_le_of_lt hgt)

omit hstable

end Brackets

/-- **The bracketing queries.** In a reachable state without a drain, the two queries return the
anchors around the target exactly for the targets named: where a query goes through the
attestations, no checkpoint of its side may lie nearer to the target than they do. -/
theorem brackets_iff [DecidableEq H] [DecidableEq A] {s : State H A B} {k : ChainKey}
    (digestRank : H → ℕ) (hreach : Reachable T s) (hsup : s.isChainSupported k = true)
    (hdrain : (s.chain T k).anchors.commitBlockedByCleanup = false) (t : U64) :
    ∃ prev next,
      Accepts (findHighestAttestedBefore T digestRank s k t) prev [] ∧
      Accepts (findLowestAttestedAfter T digestRank s k t) next [] ∧
      (BracketsBelow (s.chain T k).anchors t.val prev ↔
        BracketableBelow (s.chain T k).anchors t.val) ∧
      (BracketsAbove (s.chain T k).anchors t.val next ↔
        BracketableAbove (s.chain T k).anchors t.val) := by
  obtain ⟨hstable, hpruning⟩ := commitBlockedByCleanup_eq_false.1 hdrain
  have hmarked := (wellFormed_of_live hreach (.inl hsup)).marked
  exact ⟨_, _, findHighestAttestedBefore_answers.accepts_iff.2 ⟨hsup, rfl⟩,
    findLowestAttestedAfter_answers.accepts_iff.2 ⟨hsup, rfl⟩,
    bracketsBelow_iff hmarked hstable hpruning t.val,
    bracketsAbove_iff hmarked hstable hpruning t.isLt⟩

namespace Devnet

/-- The network with checkpoints at the heights 5 and 9. -/
def twoCheckpoints : State Word ℕ Unit :=
  after (genesisConfig 10 10 [checkpoint 5, checkpoint 9]) []

/-- The anchors around height 7 are found. -/
theorem brackets_twoCheckpoints :
    ∃ prev next,
      Accepts (findHighestAttestedBefore config (fun _ => 0) twoCheckpoints 1 7) prev [] ∧
      Accepts (findLowestAttestedAfter config (fun _ => 0) twoCheckpoints 1 7) next [] ∧
      BracketsBelow (twoCheckpoints.chain config 1).anchors 7 prev ∧
      BracketsAbove (twoCheckpoints.chain config 1).anchors 7 next := by
  have hreach : Reachable config twoCheckpoints := reachable_after (by rfl) []
  obtain ⟨prev, next, hprev, hnext, hbelow, habove⟩ := brackets_iff (k := 1) (fun _ => 0) hreach
    (by rfl) (by rfl) 7
  have hlast : (twoCheckpoints.chain config 1).anchors.lastCheckpoint =
      some ⟨9, .root 9, by decide⟩ := by rfl
  refine ⟨prev, next, hprev, hnext, hbelow.2 fun h => ?_, habove.2 fun h => ?_⟩
  · exact absurd (h _ hlast) (by decide)
  · exact absurd (h _ hlast) (by decide)

/-- The network after attestations of the heights 0, 1, 4 and 5, with a checkpoint at height 2. -/
def skipping : State Word ℕ Unit := run config (started 1 2) (commits (started 1 2) [1, 4, 5])

/-- **Anchors that are missed.** With attestations of the heights 0, 1, 4 and 5 and the last
checkpoint at height 2, the highest anchor found below height 3 is that of height 1. With
checkpoints at the heights 5 and 9 and no attestation, no anchor is found at or above height 9. -/
theorem exists_not_bracketed :
    (Reachable config skipping ∧ skipping.isChainSupported 1 = true ∧
      (skipping.chain config 1).anchors.commitBlockedByCleanup = false ∧
      (∃ prev, Accepts (findHighestAttestedBefore config (fun _ => 0) skipping 1 3) prev [] ∧
        prev.doesExist = true ∧ prev.height = 1) ∧
      ((skipping.chain config 1).anchors.checkpoints.lookup 2).isSome = true) ∧
    (Reachable config twoCheckpoints ∧ twoCheckpoints.isChainSupported 1 = true ∧
      (twoCheckpoints.chain config 1).anchors.commitBlockedByCleanup = false ∧
      (∃ next, Accepts (findLowestAttestedAfter config (fun _ => 0) twoCheckpoints 1 9) next [] ∧
        next.doesExist = false) ∧
      ((twoCheckpoints.chain config 1).anchors.checkpoints.lookup 9).isSome = true) := by
  have hskipping : Reachable config skipping :=
    (reachable_after (by rfl) [commit (attestation 0 none ⟨.zero, []⟩)]).run _
  refine ⟨⟨hskipping, by decide +kernel, by decide +kernel,
    ⟨_, findHighestAttestedBefore_answers.accepts_iff.2 ⟨by decide +kernel, rfl⟩,
      by decide +kernel, by decide +kernel⟩, by decide +kernel⟩,
    reachable_after (by rfl) [], by rfl, by rfl,
    ⟨_, findLowestAttestedAfter_answers.accepts_iff.2 ⟨by rfl, rfl⟩, by rfl⟩,
    by rfl⟩

end Devnet

end Creditcoin
