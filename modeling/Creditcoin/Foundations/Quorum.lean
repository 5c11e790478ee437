import Mathlib.Data.Finset.Card
import Mathlib.Data.List.Sort
import Mathlib.Tactic

/-!
# Sets as sorted lists, and quorums

`sortedSet rank l` is the set of the elements of `l` as a sorted list. A quorum of a set `S` has `2
* |S| / 3 + 1` of its elements, so two of them share more than a third of it. -/

namespace Creditcoin

variable {α : Type} [DecidableEq α]

/-! ## Sorted sets -/

/-- The set of the elements of `l`, in the order of their ranks. -/
def sortedSet (rank : α → ℕ) (l : List α) : List α :=
  l.dedup.insertionSort fun a b => rank a ≤ rank b

@[simp] theorem mem_sortedSet {rank : α → ℕ} {l : List α} {a : α} :
    a ∈ sortedSet rank l ↔ a ∈ l := by
  rw [sortedSet, List.mem_insertionSort, List.mem_dedup]

theorem nodup_sortedSet (rank : α → ℕ) (l : List α) : (sortedSet rank l).Nodup :=
  (List.perm_insertionSort _ _).nodup_iff.2 l.nodup_dedup

theorem length_sortedSet (rank : α → ℕ) (l : List α) :
    (sortedSet rank l).length = l.toFinset.card := by
  rw [sortedSet, List.length_insertionSort, List.card_toFinset]

/-! ## Quorums -/

structure IsQuorum (S t : Finset α) : Prop where
  subset : t ⊆ S
  card_ge : 2 * S.card / 3 + 1 ≤ t.card

theorem IsQuorum.card_lt_inter {S t u : Finset α} (ht : IsQuorum S t) (hu : IsQuorum S u) :
    S.card < 3 * (t ∩ u).card := by
  have hunion :
    (t ∪ u).card ≤ S.card := Finset.card_le_card (Finset.union_subset ht.subset hu.subset)
  have hsum := Finset.card_union_add_card_inter t u
  have h₁ := ht.card_ge
  have h₂ := hu.card_ge
  omega

end Creditcoin
