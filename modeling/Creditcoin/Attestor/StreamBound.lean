import Creditcoin.Attestor.StreamRuns

/-!
# The bound on catching up after changes of the settings

`StreamAttestation::new` rounds the bound on catching up to the interval, and a new interval
rebuilds the stream from the rounded bound, not from the one the chain announced. The stream still
has the bound of a new stream exactly if no multiple of the new interval, other than the interval
itself, lies between the announced bound and the bound rounded to the old interval
(`maxCatchup_eq_iff`). -/

namespace Creditcoin.Attestor

variable {H : Type}

/-! ## Rounding -/

section Aligned

variable {i j m : ℕ+}

theorem alignedCatchup_eq (hi : (i : ℕ) ≤ u64Max) (hm : (m : ℕ) ≤ u64Max) :
    (alignedCatchup i m : ℕ) = i * max ((m : ℕ) / i) 1 := by
  refine min_eq_left ?_
  rcases le_total ((m : ℕ) / i) 1 with hle | hle
  · rw [max_eq_right hle, Nat.mul_one]
    exact hi
  · rw [max_eq_left hle]
    exact (Nat.mul_div_le _ _).trans hm

theorem alignedCatchup_le_u64Max : (alignedCatchup i m : ℕ) ≤ u64Max := min_le_right _ _

/-- Two bounds are rounded to the same one when the same multiples of the interval, other than the
interval, are within them. -/
theorem alignedCatchup_eq_iff {m' : ℕ+} (hj : (j : ℕ) ≤ u64Max) (hm : (m : ℕ) ≤ u64Max)
    (hm' : (m' : ℕ) ≤ u64Max) :
    alignedCatchup j m = alignedCatchup j m' ↔
      ∀ q, 2 ≤ q → (j * q ≤ (m : ℕ) ↔ j * q ≤ (m' : ℕ)) := by
  have hmul : ∀ (x : ℕ+) (q : ℕ), j * q ≤ (x : ℕ) ↔ q ≤ (x : ℕ) / j := fun x q => by
    rw [Nat.le_div_iff_mul_le j.pos, Nat.mul_comm]
  rw [← PNat.coe_inj, alignedCatchup_eq hj hm, alignedCatchup_eq hj hm',
    Nat.mul_right_inj j.ne_zero]
  simp only [hmul]
  constructor
  · intro h q hq
    omega
  · intro h
    have hself := h ((m : ℕ) / j)
    have hself' := h ((m' : ℕ) / j)
    omega

theorem alignedCatchup_self (hi : (i : ℕ) ≤ u64Max) (hm : (m : ℕ) ≤ u64Max) :
    alignedCatchup i (alignedCatchup i m) = alignedCatchup i m := by
  rw [alignedCatchup_eq_iff hi alignedCatchup_le_u64Max hm, alignedCatchup_eq hi hm]
  intro q hq
  rw [Nat.mul_le_mul_left_iff i.pos, Nat.mul_comm, ← Nat.le_div_iff_mul_le i.pos]
  omega

end Aligned

/-! ## What the chain announced -/

/-- The interval and the bound on catching up that were announced last. -/
structure Announced where
  interval : ℕ+
  maxCatchup : ℕ+

namespace Announced

/-- An event about the settings. Zero values are ignored, as the stream does. -/
def note (p : Announced) : SettingsEvent → Announced
  | .attestationIntervalChanged raw => if h : 0 < raw then { p with interval := ⟨raw, h⟩ } else p
  | .maxCatchupChanged raw => if h : 0 < raw then { p with maxCatchup := ⟨raw, h⟩ } else p
  | _ => p

/-- What was announced by the settings events among `actions`. -/
def after (p : Announced) (actions : List (StreamAction H)) : Announced :=
  (settingsEvents actions).foldl note p

structure InRange (p : Announced) : Prop where
  interval_le : (p.interval : ℕ) ≤ u64Max
  maxCatchup_le : (p.maxCatchup : ℕ) ≤ u64Max

/-- The bound that a new stream derives. -/
def bound (p : Announced) : ℕ+ := alignedCatchup p.interval p.maxCatchup

/-- No multiple of a new interval, other than the interval, separates the announced bound from the
one rounded to the old interval. -/
def Compatible (p : Announced) : StreamAction H → Prop
  | .settings (.attestationIntervalChanged raw) =>
    ∀ q, 2 ≤ q → (raw * q ≤ (p.bound : ℕ) ↔ raw * q ≤ (p.maxCatchup : ℕ))
  | _ => True

end Announced

/-- The values of a settings event are 64-bit numbers. -/
def StreamAction.InRange : StreamAction H → Prop
  | .settings (.attestationIntervalChanged raw) => raw ≤ u64Max
  | .settings (.maxCatchupChanged raw) => raw ≤ u64Max
  | _ => True

namespace Announced

variable {p : Announced} {actions : List (StreamAction H)} {action : StreamAction H}

theorem after_concat :
    p.after (actions ++ [action]) = (action.settingsEvent.toList).foldl note (p.after actions) := by
  rw [after, settingsEvents, List.filterMap_append, List.foldl_append]
  cases h : action.settingsEvent <;> simp [h, after, settingsEvents]

theorem InRange.step (h : p.InRange) (haction : action.InRange) :
    (action.settingsEvent.toList.foldl note p).InRange := by
  cases action with
  | settings event =>
    show (p.note event).InRange
    cases event with
    | attestationIntervalChanged raw =>
      rw [note]
      split
      · exact ⟨haction, h.maxCatchup_le⟩
      · exact h
    | maxCatchupChanged raw =>
      rw [note]
      split
      · exact ⟨h.interval_le, haction⟩
      · exact h
    | _ => exact h
  | _ => exact h

theorem InRange.after (h : p.InRange) (hactions : ∀ a ∈ actions, a.InRange) :
    (p.after actions).InRange := by
  induction actions using List.reverseRecOn with
  | nil => exact h
  | append_singleton actions action ih =>
    rw [after_concat]
    exact (ih fun a ha => hactions a (List.mem_append_left _ ha)).step (hactions action (by simp))

end Announced

/-! ## Runs -/

namespace StreamAttestation

variable {keccak : ℕ → H → Option H → H} {zero : H} {source : ℕ → H × H} {p : Announced}
  {s s' : StreamAttestation H} {action : StreamAction H} {actions : List (StreamAction H)}

theorem interval_step (h : s.attestationInterval = p.interval)
    (hstep : step keccak zero source s action = some s') :
    s'.attestationInterval = (action.settingsEvent.toList.foldl Announced.note p).interval := by
  cases action with
  | poll fuel answers =>
    exact ((keeps_pollNext keccak zero source fuel s answers).of_step hstep).interval_eq.trans h
  | finalized info =>
    cases hstep
    show (s.noteAttestationFinalization info).attestationInterval = p.interval
    rw [noteAttestationFinalization]
    split <;> exact h
  | reverted info =>
    cases hstep
    exact h
  | settings event =>
    cases hstep
    show (s.noteSettings event).attestationInterval = (p.note event).interval
    cases event with
    | attestationIntervalChanged raw =>
      rw [noteSettings, Announced.note]
      split
      · rfl
      · exact h
    | maxCatchupChanged raw =>
      rw [noteSettings, Announced.note]
      split <;> exact h
    | _ => exact h

/-- **A step keeps the bound of a new stream exactly when it is compatible.** -/
theorem maxCatchup_step_iff (hinterval : s.attestationInterval = p.interval)
    (hbound : s.maxCatchup = p.bound) (hp : p.InRange) (haction : action.InRange)
    (hstep : step keccak zero source s action = some s') :
    s'.maxCatchup = (action.settingsEvent.toList.foldl Announced.note p).bound ↔
      p.Compatible action := by
  cases action with
  | poll fuel answers =>
    have hkeeps := (keeps_pollNext keccak zero source fuel s answers).of_step hstep
    exact iff_of_true (hkeeps.catchup_eq.trans hbound) trivial
  | finalized info =>
    cases hstep
    refine iff_of_true ?_ trivial
    show (s.noteAttestationFinalization info).maxCatchup = p.bound
    rw [noteAttestationFinalization]
    split <;> exact hbound
  | reverted info =>
    cases hstep
    refine iff_of_true ?_ trivial
    show alignedCatchup s.attestationInterval s.maxCatchup = p.bound
    rw [hinterval, hbound]
    exact alignedCatchup_self hp.interval_le hp.maxCatchup_le
  | settings event =>
    cases hstep
    show (s.noteSettings event).maxCatchup = (p.note event).bound ↔ _
    cases event with
    | attestationIntervalChanged raw =>
      rw [noteSettings, Announced.note]
      split
      · next hpos =>
        show alignedCatchup ⟨raw, hpos⟩ s.maxCatchup = alignedCatchup ⟨raw, hpos⟩ p.maxCatchup ↔ _
        rw [hbound]
        exact alignedCatchup_eq_iff haction alignedCatchup_le_u64Max hp.maxCatchup_le
      · next hpos =>
        have hzero : raw = 0 := by omega
        exact iff_of_true hbound fun q _ => by simp [hzero]
    | maxCatchupChanged raw =>
      refine iff_of_true ?_ trivial
      rw [noteSettings, Announced.note]
      split
      · exact congrArg (alignedCatchup · _) hinterval
      · exact hbound
    | _ => exact iff_of_true hbound trivial

theorem run_concat_eq_some :
    run keccak zero source s (actions ++ [action]) = some s' ↔
      ∃ s₁, run keccak zero source s actions = some s₁ ∧
        step keccak zero source s₁ action = some s' := by
  rw [run_append, Option.bind_eq_some_iff]
  simp [StreamAttestation.run]

theorem interval_run (h : s.attestationInterval = p.interval)
    (hrun : run keccak zero source s actions = some s') :
    s'.attestationInterval = (p.after actions).interval := by
  induction actions using List.reverseRecOn generalizing s' with
  | nil =>
    cases hrun
    exact h
  | append_singleton actions action ih =>
    obtain ⟨s₁, hrun, hstep⟩ := run_concat_eq_some.1 hrun
    rw [Announced.after_concat]
    exact interval_step (ih hrun) hstep

/-- **When the bound does not depend on the history.** A stream starts with the settings `p`. In
every state that a run reaches it has the bound that a new stream would derive from the settings
last announced, exactly when every change of the interval in the run is compatible with what was
announced before it. -/
theorem maxCatchup_eq_iff (hp : p.InRange) (k : ChainKey) (prev : AttestationInfo H)
    (startHeight : ℕ) (hactions : ∀ a ∈ actions, a.InRange) :
    (∀ before s', before <+: actions →
        run keccak zero source (new k p.interval p.maxCatchup prev startHeight) before = some s' →
        s'.maxCatchup = (new k (p.after before).interval (p.after before).maxCatchup prev
          startHeight).maxCatchup) ↔
      ∀ before action s', before ++ [action] <+: actions →
        run keccak zero source (new k p.interval p.maxCatchup prev startHeight) before = some s' →
        (p.after before).Compatible action := by
  have hrange : ∀ before action, before ++ [action] <+: actions →
      (p.after before).InRange ∧ action.InRange := by
    intro before action hinit
    have hmem : ∀ a ∈ before ++ [action], a.InRange := fun a ha => hactions a (hinit.subset ha)
    exact ⟨hp.after fun a ha => hmem a (List.mem_append_left _ ha), hmem action (by simp)⟩
  constructor
  · intro h before action s₁ hinit hrun
    obtain ⟨hbefore, haction⟩ := hrange before action hinit
    have hbound := h before s₁ ((List.prefix_append _ _).trans hinit) hrun
    rcases hstep : step keccak zero source s₁ action with _ | s'
    · -- Only a poll may fail to return, and polls are compatible.
      cases action with
      | settings event => cases hstep
      | _ => trivial
    · have hbound' := h _ s' hinit (run_concat_eq_some.2 ⟨s₁, hrun, hstep⟩)
      rw [Announced.after_concat] at hbound'
      exact (maxCatchup_step_iff (interval_run rfl hrun) hbound hbefore haction hstep).1 hbound'
  · intro h before
    induction before using List.reverseRecOn with
    | nil =>
      intro s' _ hrun
      cases hrun
      rfl
    | append_singleton before action ih =>
      intro s' hinit hrun
      obtain ⟨hbefore, haction⟩ := hrange before action hinit
      obtain ⟨s₁, hrun, hstep⟩ := run_concat_eq_some.1 hrun
      have hbound := ih s₁ ((List.prefix_append _ _).trans hinit) hrun
      rw [Announced.after_concat]
      exact (maxCatchup_step_iff (interval_run rfl hrun) hbound hbefore haction hstep).2
        (h before action s₁ hinit hrun)

/-- A chain that announces the bound `12` and moves from the interval `3` to the interval `4`. -/
theorem maxCatchup_eq_twelve :
    (Announced.mk 3 12).InRange ∧
      ∀ before s', before <+: [StreamAction.settings (.attestationIntervalChanged 4)] →
        run (H := ℕ) (fun n _ _ => n) 0 (fun n => (n, n)) (new 1 3 12 ⟨0, 0, by decide⟩ 1) before =
          some s' →
        s'.maxCatchup = (new 1 ((Announced.mk 3 12).after before).interval
          ((Announced.mk 3 12).after before).maxCatchup (⟨0, 0, by decide⟩ : AttestationInfo ℕ)
          1).maxCatchup := by
  have hp : (Announced.mk 3 12).InRange := ⟨by decide, by decide⟩
  refine ⟨hp, (maxCatchup_eq_iff hp 1 ⟨0, 0, by decide⟩ 1 ?_).2 ?_⟩
  · intro a ha
    obtain rfl := List.mem_singleton.1 ha
    show 4 ≤ u64Max
    decide
  · intro before action s' hinit hrun
    have hlen := hinit.length_le
    obtain rfl : before = [] := by
      rw [List.length_append, List.length_singleton, List.length_singleton] at hlen
      exact List.length_eq_zero_iff.1 (by omega)
    obtain rfl : action = .settings (.attestationIntervalChanged 4) := by
      simpa using hinit
    intro q _
    exact Iff.rfl

/-- A stream for the interval `3` and the bound `10` keeps the bound `5` after the interval becomes
`5`. A new stream would have the bound `10`. -/
theorem exists_maxCatchup_ne :
    ∃ s', run (H := ℕ) (fun n _ _ => n) 0 (fun n => (n, n)) (new 1 3 10 ⟨0, 0, by decide⟩ 1)
        [.settings (.attestationIntervalChanged 5)] = some s' ∧
      s'.maxCatchup = 5 ∧
      (new 1 5 10 (⟨0, 0, by decide⟩ : AttestationInfo ℕ) 1).maxCatchup = 10 :=
  ⟨_, rfl, by decide, by decide⟩

end StreamAttestation

end Creditcoin.Attestor
