import Mathlib.Tactic

/-!
# Boundaries of a grid

The boundaries of a grid of width `w` are the multiples of `w`. `nextBoundary w n` is the first
boundary strictly above `n`, computed by stepping one width ahead and rounding down.
-/

namespace Creditcoin

/-- The first multiple of `w` strictly above `n`. -/
def nextBoundary (w n : ℕ) : ℕ := (n + w) - (n + w) % w

variable {w n m : ℕ}

theorem nextBoundary_eq (hw : 0 < w) : nextBoundary w n = (n / w + 1) * w := by
  rw [nextBoundary, ← Nat.div_mul_self_eq_mod_sub_self, Nat.add_div_right n hw]

theorem nextBoundary_le (w n : ℕ) : nextBoundary w n ≤ n + w := Nat.sub_le _ _

theorem lt_nextBoundary (hw : 0 < w) : n < nextBoundary w n := by
  have := Nat.mod_lt (n + w) hw
  unfold nextBoundary
  omega

theorem nextBoundary_mod (w n : ℕ) : nextBoundary w n % w = 0 := by
  rw [nextBoundary, ← Nat.div_mul_self_eq_mod_sub_self, Nat.mul_mod_left]

theorem nextBoundary_of_mod_eq_zero (h : n % w = 0) : nextBoundary w n = n + w := by
  rw [nextBoundary, Nat.add_mod_right, h, Nat.sub_zero]

theorem nextBoundary_le_of_lt (hw : 0 < w) (hm : m % w = 0) (h : n < m) : nextBoundary w n ≤ m := by
  obtain ⟨q, rfl⟩ := Nat.dvd_of_mod_eq_zero hm
  rw [nextBoundary_eq hw, Nat.mul_comm w q]
  refine Nat.mul_le_mul_right w ?_
  have : n / w < q := Nat.div_lt_of_lt_mul h
  omega

theorem boundary_unique (hm : m % w = 0) (hn : n % w = 0) (hle : m ≤ n) (hlt : n < m + w) :
    n = m := by
  have hdvd : w ∣ n - m := Nat.dvd_sub (Nat.dvd_of_mod_eq_zero hn) (Nat.dvd_of_mod_eq_zero hm)
  have hzero := Nat.eq_zero_of_dvd_of_lt hdvd (by omega)
  omega

theorem div_nextBoundary (hw : 0 < w) : nextBoundary w n / w = n / w + 1 := by
  rw [nextBoundary_eq hw, Nat.mul_div_cancel _ hw]

/-- The boundaries passed on the way from `n` to `m` are no more than the whole widths in between
exactly if `n` lies no further into its cell than `m` does. -/
theorem div_sub_div_le_iff (hw : 0 < w) (h : n ≤ m) :
    m / w - n / w ≤ (m - n) / w ↔ n % w ≤ m % w := by
  have hn := Nat.div_add_mod n w
  have hm := Nat.div_add_mod m w
  have hnw := Nat.mod_lt n hw
  have hmw := Nat.mod_lt m hw
  have hdiv : n / w ≤ m / w := Nat.div_le_div_right h
  obtain ⟨q, hq⟩ := Nat.exists_eq_add_of_le hdiv
  have hsplit : w * (m / w) = w * (n / w) + w * q := by rw [hq, Nat.mul_add]
  rw [hq, Nat.add_sub_cancel_left, Nat.le_div_iff_mul_le hw, Nat.mul_comm q w]
  omega

end Creditcoin
