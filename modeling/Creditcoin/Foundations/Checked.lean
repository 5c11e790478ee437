import Mathlib.Tactic

/-!
# Fallible code and machine words

Code that returns a `Result` is written in `Except`: a guard is `ensure`, a missing value is `okOr`,
a chain of `?` is a chain of binds, and `bind_eq_ok` and its companions turn the equation `f x = .ok
r` into the guards it passed and the values it read. Unsigned machine words are natural numbers; the
operations that saturate or wrap say so. -/

namespace Creditcoin

/-! ## Guards and binds -/

section Outcome

variable {ε α β : Type}

/-- The guard `ensure!(p, e)`. -/
def ensure (p : Prop) [Decidable p] (e : ε) : Except ε Unit :=
  if p then .ok () else .error e

/-- The value of an optional read, or the error `e`. -/
def okOr (x : Option α) (e : ε) : Except ε α :=
  match x with
  | some a => .ok a
  | none => .error e

theorem bind_eq_ok {x : Except ε α} {f : α → Except ε β} {r : β} :
    (x >>= f) = .ok r ↔ ∃ a, x = .ok a ∧ f a = .ok r := by
  rcases x with e | a <;> simp [bind, Except.bind]

theorem map_eq_ok {x : Except ε α} {f : α → β} {r : β} :
    x.map f = .ok r ↔ ∃ a, x = .ok a ∧ f a = r := by
  rcases x with e | a <;> simp [Except.map]

theorem toOption_eq_some {x : Except ε α} {a : α} : x.toOption = some a ↔ x = .ok a := by
  rcases x with e | b <;> simp [Except.toOption]

theorem pure_eq_ok {a r : α} : (pure a : Except ε α) = .ok r ↔ a = r := by
  simp [pure, Except.pure]

@[simp] theorem ensure_eq_ok {p : Prop} [Decidable p] {e : ε} {u : Unit} :
    ensure p e = .ok u ↔ p := by
  unfold ensure
  split <;> simp_all

theorem ensure_eq_error {p : Prop} [Decidable p] {e e' : ε} :
    ensure p e = .error e' ↔ ¬ p ∧ e = e' := by
  unfold ensure
  split <;> simp_all

@[simp] theorem okOr_eq_ok {x : Option α} {e : ε} {a : α} : okOr x e = .ok a ↔ x = some a := by
  cases x <;> simp [okOr]

theorem okOr_eq_error {x : Option α} {e e' : ε} : okOr x e = .error e' ↔ x = none ∧ e = e' := by
  cases x <;> simp [okOr]

theorem bind_eq_error {x : Except ε α} {f : α → Except ε β} {e : ε} :
    (x >>= f) = .error e ↔ x = .error e ∨ ∃ a, x = .ok a ∧ f a = .error e := by
  rcases x with e' | a <;> simp [bind, Except.bind]

theorem bind_ne_error {x : Except ε α} {f : α → Except ε β} {e : ε} (hx : x ≠ .error e)
    (hf : ∀ a, f a ≠ .error e) : (x >>= f) ≠ .error e := by
  rw [ne_eq, bind_eq_error]
  rintro (h | ⟨a, -, h⟩)
  · exact hx h
  · exact hf a h

theorem pure_ne_error {a : α} {e : ε} : (pure a : Except ε α) ≠ .error e := by
  rintro ⟨⟩

theorem ensure_ne_error {p : Prop} [Decidable p] {e e' : ε} (h : e ≠ e') :
    ensure p e ≠ .error e' := fun heq => h (ensure_eq_error.1 heq).2

theorem okOr_ne_error {x : Option α} {e e' : ε} (h : e ≠ e') : okOr x e ≠ .error e' :=
  fun heq => h (okOr_eq_error.1 heq).2

theorem exists_of_isOk {x : Except ε α} (h : x.isOk = true) : ∃ v, x = .ok v := by
  rcases x with e | v
  · simp [Except.isOk, Except.toBool] at h
  · exact ⟨v, rfl⟩

end Outcome

/-! ## Machine words -/

/-- `u64::MAX`. -/
def u64Max : ℕ := 2 ^ 64 - 1

/-- `u32::MAX`. -/
def u32Max : ℕ := 2 ^ 32 - 1

/-- `u128::MAX`, the largest balance. -/
def u128Max : ℕ := 2 ^ 128 - 1

/-- `saturating_add` at the width whose largest value is `m`. -/
def satAdd (m a b : ℕ) : ℕ := min (a + b) m

/-- `saturating_mul` at the width whose largest value is `m`. -/
def satMul (m a b : ℕ) : ℕ := min (a * b) m

/-- `n as usize` on the 32-bit target the runtime is compiled for. -/
def asUsize (n : ℕ) : ℕ := n % 2 ^ 32

theorem satAdd_of_le {m a b : ℕ} (h : a + b ≤ m) : satAdd m a b = a + b := min_eq_left h

theorem satMul_of_le {m a b : ℕ} (h : a * b ≤ m) : satMul m a b = a * b := min_eq_left h

theorem asUsize_of_lt {n : ℕ} (h : n < 2 ^ 32) : asUsize n = n := Nat.mod_eq_of_lt h

theorem le_satAdd {m a b : ℕ} (h : a ≤ m) : a ≤ satAdd m a b :=
  le_min (Nat.le_add_right a b) h

theorem satAdd_le (m a b : ℕ) : satAdd m a b ≤ a + b := min_le_left _ _

end Creditcoin
