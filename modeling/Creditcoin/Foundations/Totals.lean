import Creditcoin.Foundations.StorageMap
import Mathlib.Algebra.Order.BigOperators.Group.Finset

/-!
# Totals and descent

`total m f` adds up `f k v` over the rows of a map; a row that is not there counts as zero. A
measure that never grows along a run and becomes smaller again and again while something is pending
shows that it does not stay pending. -/

namespace Creditcoin

theorem exists_not_pending_of_descent {α : Type*} [Preorder α] [WellFoundedLT α] (μ : ℕ → α)
    (pending : ℕ → Prop) (hle : ∀ n, μ (n + 1) ≤ μ n)
    (hlt : ∀ n, ∃ m, n ≤ m ∧ (pending m → μ (m + 1) < μ m)) : ∃ n, ¬ pending n := by
  have hanti : Antitone μ := antitone_nat_of_succ_le hle
  obtain ⟨_, ⟨n, rfl⟩, hmin⟩ := wellFounded_lt.has_min (Set.range μ) ⟨μ 0, 0, rfl⟩
  obtain ⟨m, hm, hdrop⟩ := hlt n
  refine ⟨m, fun hpending => hmin (μ (m + 1)) ⟨m + 1, rfl⟩ ?_⟩
  exact lt_of_lt_of_le (hdrop hpending) (hanti hm)

namespace StorageMap

variable {K V W : Type} [DecidableEq K]

/-- What a row adds to a total. -/
def part (m : StorageMap K V) (f : K → V → ℕ) (k : K) : ℕ := (m.lookup k).elim 0 (f k)

/-- The sum of `f` over the rows of a map. -/
def total (m : StorageMap K V) (f : K → V → ℕ) : ℕ := ∑ k ∈ m.keys.toFinset, m.part f k

variable {m : StorageMap K V} {m' : StorageMap K W} {f : K → V → ℕ} {f' : K → W → ℕ}

theorem part_of_lookup {k : K} {v : V} (h : m.lookup k = some v) : m.part f k = f k v := by
  rw [part, h, Option.elim_some]

theorem part_of_none {k : K} (h : m.lookup k = none) : m.part f k = 0 := by
  rw [part, h, Option.elim_none]

theorem total_eq_sum {S : Finset K} (h : m.keys.toFinset ⊆ S) :
    m.total f = ∑ k ∈ S, m.part f k := by
  refine Finset.sum_subset h fun k _ hk => part_of_none ?_
  rwa [List.mem_toFinset, ← AList.mem_keys, ← AList.lookup_eq_none] at hk

@[simp] theorem total_empty : (∅ : StorageMap K V).total f = 0 := by
  unfold total
  simp

theorem total_eq_zero (h : ∀ k, m.part f k = 0) : m.total f = 0 := Finset.sum_eq_zero fun k _ => h k

theorem part_le_total (m : StorageMap K V) (f : K → V → ℕ) (k : K) : m.part f k ≤ m.total f := by
  rw [total_eq_sum (Finset.subset_insert k _)]
  exact Finset.single_le_sum (fun _ _ => Nat.zero_le _) (Finset.mem_insert_self k _)

theorem exists_total_eq_sum (m : StorageMap K V) (m' : StorageMap K W) (f : K → V → ℕ)
    (f' : K → W → ℕ) (k : K) :
    ∃ S : Finset K, k ∈ S ∧ m.total f = ∑ j ∈ S, m.part f j ∧
      m'.total f' = ∑ j ∈ S, m'.part f' j := by
  refine ⟨insert k (m'.keys.toFinset ∪ m.keys.toFinset), Finset.mem_insert_self k _, ?_, ?_⟩
  · exact total_eq_sum (Finset.subset_union_right.trans (Finset.subset_insert k _))
  · exact total_eq_sum (Finset.subset_union_left.trans (Finset.subset_insert k _))

theorem total_le (h : ∀ k, m'.part f' k ≤ m.part f k) : m'.total f' ≤ m.total f := by
  have hsum : m'.total f' ≤ ∑ k ∈ m'.keys.toFinset, m.part f k := Finset.sum_le_sum fun k _ => h k
  refine hsum.trans ?_
  rw [total_eq_sum (S := m'.keys.toFinset ∪ m.keys.toFinset) Finset.subset_union_right]
  exact Finset.sum_le_sum_of_subset Finset.subset_union_left

theorem total_congr (h : ∀ k, m'.part f' k = m.part f k) : m'.total f' = m.total f :=
  le_antisymm (total_le fun k => (h k).le) (total_le fun k => (h k).ge)

theorem total_lt {k : K} (h : ∀ k, m'.part f' k ≤ m.part f k) (hk : m'.part f' k < m.part f k) :
    m'.total f' < m.total f := by
  obtain ⟨S, hkS, htotal, htotal'⟩ := exists_total_eq_sum m m' f f' k
  rw [htotal, htotal']
  exact Finset.sum_lt_sum (fun j _ => h j) ⟨k, hkS, hk⟩

theorem total_change {k : K} (h : ∀ j, j ≠ k → m'.part f' j = m.part f j) :
    m'.total f' + m.part f k = m.total f + m'.part f' k := by
  obtain ⟨S, hkS, htotal, htotal'⟩ := exists_total_eq_sum m m' f f' k
  have hold := Finset.sum_erase_add S (m.part f) hkS
  have hnew := Finset.sum_erase_add S (m'.part f') hkS
  have hrest : ∑ j ∈ S.erase k, m'.part f' j = ∑ j ∈ S.erase k, m.part f j := by
    apply Finset.sum_congr rfl
    intro j hj
    exact h j (Finset.ne_of_mem_erase hj)
  omega

theorem total_erase_add (m : StorageMap K V) (f : K → V → ℕ) (k : K) :
    total (m.erase k) f + m.part f k = m.total f := by
  have hrest : ∀ j, j ≠ k → part (m.erase k) f j = m.part f j := fun j hj => by
    rw [part, lookup_erase_eq, if_neg hj, part]
  have hgone : part (m.erase k) f k = 0 := part_of_none (by rw [lookup_erase_eq, if_pos rfl])
  rw [total_change hrest, hgone, Nat.add_zero]

theorem total_eraseAll_add {ks : List K} (hnodup : ks.Nodup) (m : StorageMap K V)
    (f : K → V → ℕ) : (m.eraseAll ks).total f + (ks.map (m.part f)).sum = m.total f := by
  induction ks generalizing m with
  | nil => rfl
  | cons k ks ih =>
    obtain ⟨hfresh, hrest⟩ := List.nodup_cons.1 hnodup
    have hparts : ks.map (m.part f) = ks.map (part (m.erase k) f) := by
      refine List.map_congr_left fun j hj => ?_
      rw [part, part, lookup_erase_eq, if_neg (ne_of_mem_of_not_mem hj hfresh)]
    have hstep : m.eraseAll (k :: ks) = eraseAll (m.erase k) ks := rfl
    have hone := total_erase_add m f k
    have hmany := ih hrest (m.erase k)
    rw [hstep, List.map_cons, List.sum_cons, hparts]
    omega

end StorageMap

end Creditcoin
