import Creditcoin.Foundations.Checked

/-!
# Metered calls

A metered call pays for its work from a meter, appends events to a log, and may fail. `Yields`: it
succeeds only under a condition, it then returns a given value and emits given events, and under the
condition it does succeed once the meter holds a given amount. `Yields.bind` gives this for a
sequence of calls. `Accepts` forgets the meter. -/

namespace Creditcoin

/-- What is left of the gas, and the events emitted so far. -/
structure Meter (E : Type) where
  gas : ℕ
  logs : List E
  deriving DecidableEq

/-- Calls that pay gas, emit events of type `E` and fail with an `ε`. -/
abbrev Metered (ε E : Type) := StateT (Meter E) (Except ε)

namespace Metered

variable {ε E α β : Type}

/-! ## Primitive calls -/

/-- Pay, or fail with `e`. -/
def charge (e : ε) (cost : ℕ) : Metered ε E Unit := fun h =>
  if cost ≤ h.gas then .ok ((), { h with gas := h.gas - cost }) else .error e

/-- Append an event to the log. -/
def emit (event : E) : Metered ε E Unit := fun h =>
  .ok ((), { h with logs := h.logs ++ [event] })

/-- The result of code that neither pays nor emits. -/
def ofResult (x : Except ε α) : Metered ε E α := fun h => x.map fun a => (a, h)

/-- Continue only if `p` holds. -/
def require (p : Prop) [Decidable p] (e : ε) : Metered ε E Unit := ofResult (ensure p e)

/-! ## Other failures -/

/-- The call with its failures renamed. -/
def mapFailure {ε' : Type} (f : ε → ε') (m : Metered ε E α) : Metered ε' E α := fun h =>
  (m h).mapError f

section MapFailure

variable {ε' : Type} (f : ε → ε')

@[simp] theorem mapFailure_pure (a : α) :
    mapFailure f (pure a : Metered ε E α) = pure a := rfl

@[simp] theorem mapFailure_bind (m : Metered ε E α) (g : α → Metered ε E β) :
    mapFailure f (m >>= g) = mapFailure f m >>= fun a => mapFailure f (g a) := by
  funext h
  show Except.mapError f (m h >>= fun r => g r.1 r.2) =
    Except.mapError f (m h) >>= fun r => Except.mapError f (g r.1 r.2)
  cases m h <;> rfl

@[simp] theorem mapFailure_emit (event : E) :
    mapFailure f (emit event : Metered ε E Unit) = emit event := rfl

@[simp] theorem mapFailure_ofResult (x : Except ε α) :
    mapFailure f (ofResult x : Metered ε E α) = ofResult (x.mapError f) := by
  funext h
  cases x <;> rfl

@[simp] theorem mapFailure_require (p : Prop) [Decidable p] (e : ε) :
    mapFailure f (require p e : Metered ε E Unit) = require p (f e) := by
  rw [require, mapFailure_ofResult, require]
  congr 1
  unfold ensure
  split <;> rfl

theorem mapFailure_forM {ι : Type} (g : ι → Metered ε E PUnit) (l : List ι) :
    mapFailure f (l.forM g) = l.forM fun i => mapFailure f (g i) := by
  induction l with
  | nil => rfl
  | cons i l ih =>
    show mapFailure f (g i >>= fun _ => l.forM g) = _
    rw [mapFailure_bind, ih]
    rfl

end MapFailure

theorem ofResult_error_bind (e : ε) (g : α → Metered ε E β) :
    (ofResult (.error e) : Metered ε E α) >>= g = ofResult (.error e) := rfl

theorem require_bind_congr {p : Prop} [Decidable p] {e : ε} {g g' : Unit → Metered ε E β}
    (h : p → g () = g' ()) :
    (require p e : Metered ε E Unit) >>= g = require p e >>= g' := by
  by_cases hp : p
  · rw [require, ensure, if_pos hp]
    exact h hp
  · rw [require, ensure, if_neg hp]
    rfl

theorem require_congr {p q : Prop} [Decidable p] [Decidable q] (h : p ↔ q) (e : ε) :
    (require p e : Metered ε E Unit) = require q e := by
  rw [require, require, ensure, ensure]
  simp only [h]

theorem require_pos {p : Prop} [Decidable p] (hp : p) (e : ε) (g : Unit → Metered ε E β) :
    (require p e : Metered ε E Unit) >>= g = g () := by
  rw [require, ensure, if_pos hp]
  rfl

theorem require_neg {p : Prop} [Decidable p] (hp : ¬ p) (e : ε) (g : Unit → Metered ε E β) :
    (require p e : Metered ε E Unit) >>= g = ofResult (.error e) := by
  rw [require, ensure, if_neg hp]
  rfl

theorem charge_bind_run_of_lt {h : Meter E} {cost : ℕ} (hgas : h.gas < cost) (e : ε)
    (g : Unit → Metered ε E β) : (charge e cost >>= g).run h = .error e := by
  have hcharge : (charge e cost : Metered ε E Unit).run h = .error e := by
    show (if cost ≤ h.gas then _ else _) = _
    exact if_neg (by omega)
  rw [StateT.run_bind, hcharge]
  rfl

theorem bind_run_of_error {m : Metered ε E α} {h : Meter E} {e : ε} (hm : m.run h = .error e)
    (g : α → Metered ε E β) : (m >>= g).run h = .error e := by
  rw [StateT.run_bind, hm]
  rfl

/-! ## How a call ends -/

/-- The call fails only with failures of `F` and returns only values of `R`. -/
structure Ends (m : Metered ε E α) (F : ε → Prop) (R : α → Prop) : Prop where
  failed : ∀ h e, m.run h = .error e → F e
  returned : ∀ h r, m.run h = .ok r → R r.1

namespace Ends

variable {F : ε → Prop} {R : α → Prop} {R' : β → Prop}

theorem pure {a : α} (ha : R a) : Ends (Pure.pure a : Metered ε E α) F R where
  failed := nofun
  returned h r hr := by
    obtain rfl := pure_eq_ok.1 hr
    exact ha

theorem charge {e : ε} (he : F e) (cost : ℕ) :
    Ends (charge e cost : Metered ε E Unit) F fun _ => True where
  failed h e' hrun := by
    simp only [Metered.charge, StateT.run] at hrun
    split at hrun
    · cases hrun
    · exact Except.error.inj hrun ▸ he
  returned _ _ _ := trivial

theorem ofResult {x : Except ε α} (hx : ∀ e, x = .error e → F e) :
    Ends (ofResult x : Metered ε E α) F fun _ => True where
  failed h e hrun := by
    cases x with
    | error e' => exact hx e (congrArg _ (Except.error.inj hrun))
    | ok a => cases hrun
  returned _ _ _ := trivial

theorem require {e : ε} (he : F e) (p : Prop) [Decidable p] :
    Ends (require p e : Metered ε E Unit) F fun _ => True := by
  refine ofResult fun e' h => ?_
  unfold ensure at h
  split at h
  · cases h
  · exact Except.error.inj h ▸ he

theorem bind {m : Metered ε E α} {f : α → Metered ε E β} (hm : Ends m F R)
    (hf : ∀ a, R a → Ends (f a) F R') : Ends (m >>= f) F R' where
  failed h e hrun := by
    rw [StateT.run_bind] at hrun
    rcases hstep : m.run h with e' | ⟨a, h'⟩
    · rw [hstep] at hrun
      exact Except.error.inj hrun ▸ hm.failed h e' hstep
    · rw [hstep] at hrun
      exact (hf a (hm.returned h _ hstep)).failed h' e hrun
  returned h r hrun := by
    rw [StateT.run_bind, bind_eq_ok] at hrun
    obtain ⟨⟨a, h'⟩, hstep, hrun⟩ := hrun
    exact (hf a (hm.returned h _ hstep)).returned h' r hrun

theorem ite {p : Prop} [Decidable p] {m m' : Metered ε E α} (hm : Ends m F R)
    (hm' : Ends m' F R) : Ends (if p then m else m') F R := by
  split
  · exact hm
  · exact hm'

theorem forM {ι : Type} {f : ι → Metered ε E PUnit} (hf : ∀ i, Ends (f i) F fun _ => True)
    (l : List ι) : Ends (l.forM f) F fun _ => True := by
  induction l with
  | nil => exact pure trivial
  | cons i l ih =>
    show Ends (f i >>= fun _ => l.forM f) F _
    exact (hf i).bind fun _ _ => ih

end Ends

/-! ## What a call yields -/

/-- The call succeeds only under `C`, then with value `a` and the events `es`; under `C` it succeeds
with at most `cost` gas. -/
structure Yields (m : Metered ε E α) (C : Prop) (a : α) (es : List E) (cost : ℕ) : Prop where
  of_ok : ∀ h r, m.run h = .ok r → C ∧ r.1 = a ∧ r.2.logs = h.logs ++ es
  ok : C → ∀ h, cost ≤ h.gas →
    ∃ h', m.run h = .ok (a, h') ∧ h'.logs = h.logs ++ es ∧ h.gas ≤ h'.gas + cost

/-- The call succeeds with the events `es` whenever it is given enough gas. -/
def Accepts (m : Metered ε E α) (a : α) (es : List E) : Prop :=
  ∃ gas, ∀ h, gas ≤ h.gas → ∃ h', m.run h = .ok (a, h') ∧ h'.logs = h.logs ++ es

namespace Yields

variable {m : Metered ε E α} {C C' : Prop} {a : α} {es es' : List E} {cost cost' : ℕ}

theorem pure (a : α) : Yields (Pure.pure a : Metered ε E α) True a [] 0 where
  of_ok h r hr := by
    obtain rfl := pure_eq_ok.1 hr
    exact ⟨trivial, rfl, (List.append_nil _).symm⟩
  ok _ h _ := ⟨h, rfl, (List.append_nil _).symm, le_rfl⟩

theorem charge (e : ε) (cost : ℕ) : Yields (charge e cost : Metered ε E Unit) True () [] cost where
  of_ok h r hr := by
    simp only [Metered.charge, StateT.run] at hr
    split at hr
    · obtain rfl := Except.ok.inj hr
      exact ⟨trivial, rfl, (List.append_nil _).symm⟩
    · cases hr
  ok _ h hcost := by
    refine ⟨{ h with gas := h.gas - cost }, ?_, (List.append_nil _).symm, ?_⟩
    · simp only [Metered.charge, StateT.run]
      rw [if_pos hcost]
    · show h.gas ≤ h.gas - cost + cost
      omega

theorem emit (event : E) : Yields (emit event : Metered ε E Unit) True () [event] 0 where
  of_ok h r hr := by
    obtain rfl := Except.ok.inj hr
    exact ⟨trivial, rfl, rfl⟩
  ok _ h _ := ⟨{ h with logs := h.logs ++ [event] }, rfl, rfl, le_rfl⟩

theorem ofResult {x : Except ε α} (hx : ∀ b, x = .ok b → b = a) :
    Yields (ofResult x : Metered ε E α) (x = .ok a) a [] 0 where
  of_ok h r hr := by
    cases x with
    | error e => cases hr
    | ok b =>
      obtain rfl := hx b rfl
      obtain rfl := Except.ok.inj hr
      exact ⟨rfl, rfl, (List.append_nil _).symm⟩
  ok hC h _ := by
    rw [hC]
    exact ⟨h, rfl, (List.append_nil _).symm, le_rfl⟩

theorem require (p : Prop) [Decidable p] (e : ε) :
    Yields (require p e : Metered ε E Unit) p () [] 0 := by
  have h := ofResult (E := E) (x := ensure p e) (a := ()) fun _ _ => rfl
  rwa [ensure_eq_ok] at h

theorem bind {f : α → Metered ε E β} {b : β} (hm : Yields m C a es cost)
    (hf : Yields (f a) C' b es' cost') :
    Yields (m >>= f) (C ∧ C') b (es ++ es') (cost + cost') where
  of_ok h r hr := by
    rw [StateT.run_bind, bind_eq_ok] at hr
    obtain ⟨⟨a', h₁⟩, hrun, hr⟩ := hr
    obtain ⟨hC, rfl, hlogs⟩ := hm.of_ok h _ hrun
    obtain ⟨hC', hb, hlogs'⟩ := hf.of_ok h₁ r hr
    refine ⟨⟨hC, hC'⟩, hb, ?_⟩
    rw [hlogs', hlogs, List.append_assoc]
  ok hC h hcost := by
    obtain ⟨h₁, hrun, hlogs, hgas⟩ := hm.ok hC.1 h (by omega)
    obtain ⟨h₂, hrun', hlogs', hgas'⟩ := hf.ok hC.2 h₁ (by omega)
    refine ⟨h₂, ?_, ?_, by omega⟩
    · rw [StateT.run_bind, bind_eq_ok]
      exact ⟨(a, h₁), hrun, hrun'⟩
    · rw [hlogs', hlogs, List.append_assoc]

theorem congr (hm : Yields m C a es cost) (hC : C ↔ C') (hes : es = es') (hcost : cost ≤ cost') :
    Yields m C' a es' cost' where
  of_ok h r hr := by
    obtain ⟨hc, ha, hlogs⟩ := hm.of_ok h r hr
    exact ⟨hC.1 hc, ha, hes ▸ hlogs⟩
  ok hC' h hle := by
    obtain ⟨h', hrun, hlogs, hgas⟩ := hm.ok (hC.2 hC') h (hcost.trans hle)
    exact ⟨h', hrun, hes ▸ hlogs, by omega⟩

theorem forM {ι : Type} {f : ι → Metered ε E PUnit} {D : ι → Prop} {ev : ι → List E} {c : ι → ℕ}
    (hf : ∀ i, Yields (f i) (D i) ⟨⟩ (ev i) (c i)) (l : List ι) :
    Yields (l.forM f) (∀ i ∈ l, D i) ⟨⟩ (l.flatMap ev) (l.map c).sum := by
  induction l with
  | nil => exact (pure PUnit.unit).congr (by simp) rfl le_rfl
  | cons i l ih =>
    show Yields (f i >>= fun _ => l.forM f) _ _ _ _
    exact ((hf i).bind ih).congr List.forall_mem_cons.symm List.flatMap_cons.symm (by simp)

theorem accepts_iff (hm : Yields m C a es cost) : Accepts m a es' ↔ C ∧ es' = es := by
  constructor
  · rintro ⟨gas, h⟩
    obtain ⟨h', hrun, hlogs⟩ := h ⟨gas, []⟩ le_rfl
    obtain ⟨hC, -, hlogs'⟩ := hm.of_ok _ _ hrun
    exact ⟨hC, List.append_cancel_left (hlogs.symm.trans hlogs')⟩
  · rintro ⟨hC, rfl⟩
    refine ⟨cost, fun h hgas => ?_⟩
    obtain ⟨h', hrun, hlogs, -⟩ := hm.ok hC h hgas
    exact ⟨h', hrun, hlogs⟩

end Yields

/-! ## Queries -/

/-- The call emits nothing: it succeeds only under `C`, with value `a`, and under `C` it does
succeed once the meter holds enough. -/
def Answers (m : Metered ε E α) (C : Prop) (a : α) : Prop := ∃ cost, Yields m C a [] cost

namespace Answers

variable {m : Metered ε E α} {C C' : Prop} {a : α}

theorem pure (a : α) : Answers (Pure.pure a : Metered ε E α) True a := ⟨0, .pure a⟩

theorem bind {f : α → Metered ε E β} {b : β} (hm : Answers m C a) (hf : Answers (f a) C' b) :
    Answers (m >>= f) (C ∧ C') b := by
  obtain ⟨cost, hm⟩ := hm
  obtain ⟨cost', hf⟩ := hf
  exact ⟨_, hm.bind hf⟩

theorem congr (hm : Answers m C a) (hC : C ↔ C') : Answers m C' a := by
  obtain ⟨cost, hm⟩ := hm
  exact ⟨cost, hm.congr hC rfl le_rfl⟩

theorem seq {f : α → Metered ε E β} {b : β} (hm : Answers m True a) (hf : Answers (f a) C b) :
    Answers (m >>= f) C b :=
  (hm.bind hf).congr (iff_of_eq (true_and C))

theorem charge (e : ε) (cost : ℕ) {f : Unit → Metered ε E β} {b : β} (hf : Answers (f ()) C b) :
    Answers (Metered.charge e cost >>= f) C b :=
  seq ⟨cost, .charge e cost⟩ hf

theorem accepts_iff {a' : α} (hm : Answers m C a) : Accepts m a' [] ↔ C ∧ a' = a := by
  obtain ⟨cost, hm⟩ := hm
  constructor
  · rintro ⟨gas, h⟩
    obtain ⟨h', hrun, -⟩ := h ⟨gas, []⟩ le_rfl
    obtain ⟨hC, ha, -⟩ := hm.of_ok _ _ hrun
    exact ⟨hC, ha⟩
  · rintro ⟨hC, rfl⟩
    exact hm.accepts_iff.2 ⟨hC, rfl⟩

end Answers

end Metered

end Creditcoin
