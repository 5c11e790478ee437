import Mathlib.Data.List.Perm.Basic
import Mathlib.Data.List.Range
import Mathlib.Data.List.Sort

/-!
# Consecutive numbers

Tasks that are numbered by consecutive numbers and end in any order: what is left is a permutation
of an interval, of which the least number is the first in any sorted list. -/

namespace Creditcoin

variable {α : Type*} {a b c k : ℕ}

theorem range'_sub_append (hab : a ≤ b) (hbc : b ≤ c) :
    List.range' a (b - a) ++ List.range' b (c - b) = List.range' a (c - a) := by
  have h := List.range'_append_1 (s := a) (m := b - a) (n := c - b)
  rwa [Nat.add_sub_cancel' hab, Nat.add_comm, Nat.sub_add_sub_cancel hbc hab] at h

theorem perm_eraseIdx {tasks : List α} {i : ℕ} {task : α} (h : tasks[i]? = some task) :
    (task :: tasks.eraseIdx i).Perm tasks := by
  obtain ⟨hi, rfl⟩ := List.getElem?_eq_some_iff.1 h
  exact List.getElem_cons_eraseIdx_perm hi

theorem eq_range'_of_perm {l : List ℕ} (h : l.Perm (List.range' a k)) (hl : l.Pairwise (· ≤ ·)) :
    l = List.range' a k :=
  h.eq_of_pairwise (fun _ _ _ _ => Nat.le_antisymm) hl (List.pairwise_le_range' _)

end Creditcoin
