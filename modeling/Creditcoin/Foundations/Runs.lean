import Mathlib.Data.List.Infix

/-!
# States along a run

A run applies actions one after another. What is true of a state may be kept by some actions only;
then it is true in all states of a run exactly when every action of the run keeps it. -/

namespace Creditcoin

variable {S A : Type*} {step : S → A → S} {s : S}

/-- **Good along a run.** The first state is good, and an action leads from a good state to a good
one exactly when the action keeps that state good. Then all states of a run are good exactly when
every action keeps the state it meets good. -/
theorem good_along_iff (Good : S → Prop) (Keeps : S → A → Prop) (hfirst : Good s)
    (hstep : ∀ (before : List A) (action : A), Good (before.foldl step s) →
      (Good (step (before.foldl step s) action) ↔ Keeps (before.foldl step s) action))
    (actions : List A) :
    (∀ before : List A, before <+: actions → Good (before.foldl step s)) ↔
      ∀ before action, before ++ [action] <+: actions → Keeps (before.foldl step s) action := by
  constructor
  · intro h before action hinit
    have hgood := h before ((List.prefix_append _ _).trans hinit)
    have hnext := h _ hinit
    rw [List.foldl_append] at hnext
    exact (hstep before action hgood).1 hnext
  · intro h before
    induction before using List.reverseRecOn with
    | nil => exact fun _ => hfirst
    | append_singleton before action ih =>
      intro hinit
      have hgood := ih ((List.prefix_append _ _).trans hinit)
      rw [List.foldl_append]
      exact (hstep before action hgood).2 (h before action hinit)

end Creditcoin
