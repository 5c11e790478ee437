import Mathlib.Data.List.Perm.Basic
import Mathlib.Tactic

/-!
# Removal from a vector by swapping

`swapRemove l i` removes the element at position `i` of a vector in constant time: the last element
takes its place. As a collection of elements the result is `l` without that element.
-/

namespace Creditcoin

variable {α : Type}

/-- Remove the element at `i`, putting the last element in its place. -/
def swapRemove (l : List α) (i : ℕ) : List α :=
  match l.getLast? with
  | none => []
  | some z => (l.set i z).dropLast

theorem swapRemove_perm {l : List α} {i : ℕ} (h : i < l.length) :
    (swapRemove l i).Perm (l.eraseIdx i) := by
  rcases List.eq_nil_or_concat l with rfl | ⟨l', z, rfl⟩
  · simp at h
  · rw [List.concat_eq_append] at h ⊢
    have hlast : (l' ++ [z]).getLast? = some z := by simp
    simp only [swapRemove, hlast]
    rcases Nat.lt_or_ge i l'.length with hi | hi
    · rw [List.set_append_left _ _ hi, List.dropLast_concat, List.eraseIdx_append_of_lt_length hi]
      have hset : (l'.set i z).Perm (z :: l'.eraseIdx i) := List.set_perm_cons_eraseIdx hi z
      exact hset.trans (List.perm_append_singleton z _).symm
    · have hi' : i = l'.length := by simp at h; omega
      subst hi'
      simp [List.eraseIdx_append_of_length_le]

variable [DecidableEq α]

/-- Remove an element, if it is there, by swapping. -/
def swapErase (l : List α) (a : α) : List α :=
  if a ∈ l then swapRemove l (l.idxOf a) else l

theorem swapErase_perm (l : List α) (a : α) : (swapErase l a).Perm (l.erase a) := by
  unfold swapErase
  split
  · next h =>
    have := swapRemove_perm (List.idxOf_lt_length_of_mem h)
    rwa [List.eraseIdx_idxOf_eq_erase] at this
  · next h => rw [List.erase_of_not_mem h]

theorem mem_swapErase {l : List α} (h : l.Nodup) (a b : α) :
    b ∈ swapErase l a ↔ b ≠ a ∧ b ∈ l := by
  rw [(swapErase_perm l a).mem_iff, h.mem_erase_iff]

theorem nodup_swapErase {l : List α} (h : l.Nodup) (a : α) : (swapErase l a).Nodup :=
  (swapErase_perm l a).nodup_iff.2 (h.erase a)

theorem length_swapErase_le (l : List α) (a : α) : (swapErase l a).length ≤ l.length :=
  (swapErase_perm l a).length_eq.trans_le List.length_erase_le

end Creditcoin
