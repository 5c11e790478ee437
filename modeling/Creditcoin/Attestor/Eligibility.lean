import Creditcoin.Attestor.Production

/-!
# Eligibility

Being chilled or kicked takes effect at once. An election takes effect after a warm-up: a task of
its own sleeps, compares the generation with the one it was started for, and if it is the same lets
the attestor attest. The comparison and what follows it are two operations, and a chill may come
between them.

`settles_iff`: the attestor ends up as it was told last exactly if no warm-up lets it attest after
the last chill had taken effect. -/

namespace Creditcoin.Attestor

/-! ## The state -/

/-- How far the production task has come in `apply_eligibility`, one operation on shared data after
the other. -/
inductive Applying
  | idle
  | disableBump
  | disableExpect
  | disableSend
  | enableBump
  | enableExpect (gen : U64)
  | enableSpawn (gen : U64)
  deriving DecidableEq

/-- The target and the generation while `apply_eligibility` is underway. -/
def Applying.Fits (target : Bool) (eligibilityGen : U64) : Applying → Prop
  | .idle => True
  | .disableBump | .disableExpect | .disableSend => target = false
  | .enableBump => target = true
  | .enableExpect gen | .enableSpawn gen => target = true ∧ gen = eligibilityGen

/-- How far a warm-up has come. -/
inductive WarmUpStage
  | sleeping
  /-- The generation was the one it was started for. -/
  | current
  | finished
  deriving DecidableEq

structure WarmUp where
  gen : U64
  stage : WarmUpStage
  deriving DecidableEq

/-- The data that `apply_eligibility` and the warm-ups share, and where each of them is. -/
structure Eligibility where
  attestTarget : Bool
  eligibilityGen : U64
  attestExpected : Bool
  canAttest : Bool
  /-- The token that shuts the node down. -/
  cancelled : Bool
  applying : Applying
  warmUps : List WarmUp
  deriving DecidableEq

/-- One operation on the shared data. -/
inductive EligibilityStep
  /-- `apply_eligibility` begins: the target is swapped. -/
  | apply (eligible : Bool)
  /-- The next operation of `apply_eligibility`. -/
  | advance
  /-- A warm-up has slept, and loads the generation. -/
  | wake (i : ℕ)
  /-- A warm-up lets the attestor attest. -/
  | enable (i : ℕ)
  /-- The node shuts down. -/
  | cancel
  /-- A sleeping warm-up notices that the node shuts down. -/
  | leave (i : ℕ)
  deriving DecidableEq

namespace Eligibility

/-- The node is started once it is eligible. -/
def new : Eligibility where
  attestTarget := true
  eligibilityGen := 0
  attestExpected := true
  canAttest := true
  cancelled := false
  applying := .idle
  warmUps := []

/-- The first operation of `apply_eligibility`. -/
def apply (s : Eligibility) (eligible : Bool) : Option Eligibility :=
  match s.applying with
  | .idle => some { s with
      attestTarget := eligible
      applying :=
        match eligibilityAction s.attestTarget eligible with
        | .noOp => .idle
        | .disableNow => .disableBump
        | .warmUpEnable => .enableBump }
  | _ => none

def advance (s : Eligibility) : Option Eligibility :=
  match s.applying with
  | .idle => none
  | .disableBump =>
    some { s with eligibilityGen := s.eligibilityGen + 1, applying := .disableExpect }
  | .disableExpect => some { s with attestExpected := false, applying := .disableSend }
  | .disableSend => some { s with canAttest := false, applying := .idle }
  | .enableBump => some { s with
      eligibilityGen := s.eligibilityGen + 1, applying := .enableExpect (s.eligibilityGen + 1) }
  | .enableExpect gen => some { s with attestExpected := true, applying := .enableSpawn gen }
  | .enableSpawn gen =>
    some { s with warmUps := s.warmUps ++ [⟨gen, .sleeping⟩], applying := .idle }

/-- A sleeping warm-up goes on only if its generation is the current one. -/
def wake (s : Eligibility) (i : ℕ) : Option Eligibility :=
  match s.warmUps[i]? with
  | some ⟨gen, .sleeping⟩ =>
    let stage := if s.eligibilityGen = gen then .current else .finished
    some { s with warmUps := s.warmUps.set i ⟨gen, stage⟩ }
  | _ => none

def enable (s : Eligibility) (i : ℕ) : Option Eligibility :=
  match s.warmUps[i]? with
  | some ⟨gen, .current⟩ =>
    some { s with canAttest := true, warmUps := s.warmUps.set i ⟨gen, .finished⟩ }
  | _ => none

/-- Only a warm-up that sleeps looks at the token. -/
def leave (s : Eligibility) (i : ℕ) : Option Eligibility :=
  match s.warmUps[i]? with
  | some ⟨gen, .sleeping⟩ =>
    if s.cancelled then some { s with warmUps := s.warmUps.set i ⟨gen, .finished⟩ } else none
  | _ => none

def step (s : Eligibility) : EligibilityStep → Option Eligibility
  | .apply eligible => s.apply eligible
  | .advance => s.advance
  | .wake i => s.wake i
  | .enable i => s.enable i
  | .cancel => some { s with cancelled := true }
  | .leave i => s.leave i

/-- The state after operations in the order in which they take effect. -/
def run (s : Eligibility) : List EligibilityStep → Option Eligibility
  | [] => some s
  | op :: ops => (s.step op).bind fun s' => run s' ops

/-- `apply_eligibility` has returned, and no warm-up is left. -/
def Settled (s : Eligibility) : Prop :=
  s.applying = .idle ∧ ∀ w ∈ s.warmUps, w.stage = .finished

instance (s : Eligibility) : Decidable s.Settled := inferInstanceAs (Decidable (_ ∧ _))

end Eligibility

def EligibilityStep.applied : EligibilityStep → Option Bool
  | .apply eligible => some eligible
  | _ => none

/-- The eligibility applied last. The node is started once it is eligible. -/
def lastApplied (ops : List EligibilityStep) : Bool :=
  (ops.filterMap EligibilityStep.applied).getLast?.getD true

namespace Eligibility

variable {s s' s₀ : Eligibility} {op : EligibilityStep} {ops : List EligibilityStep}

/-- A warm-up lets the attestor attest though it has been disabled, and no election comes after
that. -/
def EnabledLate (s : Eligibility) (ops : List EligibilityStep) : Prop :=
  ∃ before i after s₁, ops = before ++ .enable i :: after ∧ s.run before = some s₁ ∧
    s₁.applying = .idle ∧ s₁.attestTarget = false ∧ .apply true ∉ after

theorem run_concat : s.run (ops ++ [op]) = (s.run ops).bind (step · op) := by
  induction ops generalizing s with
  | nil => simp [run]
  | cons op' ops ih =>
    rw [List.cons_append, run, run, Option.bind_assoc]
    exact congrArg _ (funext fun s' => ih)

theorem lastApplied_concat (ops : List EligibilityStep) (op : EligibilityStep) :
    lastApplied (ops ++ [op]) = op.applied.getD (lastApplied ops) := by
  unfold lastApplied
  rw [List.filterMap_append]
  cases op <;> simp [EligibilityStep.applied]

/-! ## What an operation does -/

/-- The attestor has been told not to attest, and that has taken effect. -/
def Disabled (s : Eligibility) : Prop := s.applying = .idle ∧ s.attestTarget = false

theorem apply_eq_some {eligible : Bool} (h : s.apply eligible = some s') :
    s.applying = .idle ∧ ∃ applying, s' = { s with attestTarget := eligible, applying } ∧
      (applying = .idle ∧ eligible = s.attestTarget ∨
        applying = .disableBump ∧ eligible = false ∧ s.attestTarget = true ∨
        applying = .enableBump ∧ eligible = true ∧ s.attestTarget = false) := by
  unfold apply at h
  split at h
  · next hidle =>
    refine ⟨hidle, _, (Option.some.inj h).symm, ?_⟩
    cases s.attestTarget <;> cases eligible <;> simp [eligibilityAction]
  · cases h

theorem wake_eq_some {i : ℕ} (h : s.wake i = some s') :
    ∃ gen, s.warmUps[i]? = some ⟨gen, .sleeping⟩ ∧ s' = { s with
      warmUps := s.warmUps.set i
        ⟨gen, if s.eligibilityGen = gen then .current else .finished⟩ } := by
  unfold wake at h
  split at h
  · next gen hi => exact ⟨gen, hi, (Option.some.inj h).symm⟩
  · cases h

theorem enable_eq_some {i : ℕ} (h : s.enable i = some s') :
    ∃ gen, s.warmUps[i]? = some ⟨gen, .current⟩ ∧
      s' = { s with canAttest := true, warmUps := s.warmUps.set i ⟨gen, .finished⟩ } := by
  unfold enable at h
  split at h
  · next gen hi => exact ⟨gen, hi, (Option.some.inj h).symm⟩
  · cases h

theorem leave_eq_some {i : ℕ} (h : s.leave i = some s') :
    s.cancelled = true ∧ ∃ gen, s' = { s with warmUps := s.warmUps.set i ⟨gen, .finished⟩ } := by
  unfold leave at h
  split at h
  · next gen hi =>
    split at h
    · next hcancelled => exact ⟨hcancelled, gen, (Option.some.inj h).symm⟩
    · cases h
  · cases h

/-! ## The warm-up of the last election -/

/-- After an election the attestor attests, or a warm-up is still to let it. -/
structure Underway (s : Eligibility) : Prop where
  fits : s.applying.Fits s.attestTarget s.eligibilityGen
  warmUp : s.cancelled = false → s.applying = .idle → s.attestTarget = true →
    s.canAttest = true ∨ ∃ w ∈ s.warmUps,
      w.stage = .sleeping ∧ w.gen = s.eligibilityGen ∨ w.stage = .current

namespace Underway

theorem new : Eligibility.new.Underway := ⟨trivial, fun _ _ _ => .inl rfl⟩

theorem apply (h : s.Underway) {eligible : Bool} (hstep : s.apply eligible = some s') :
    s'.Underway := by
  obtain ⟨hidle, applying, rfl, ⟨rfl, heq⟩ | ⟨rfl, heq, -⟩ | ⟨rfl, heq, -⟩⟩ := apply_eq_some hstep
  · refine ⟨trivial, fun hlive _ htarget => h.warmUp hlive hidle ?_⟩
    rw [← heq]
    exact htarget
  · exact ⟨heq, fun _ hbusy => by cases hbusy⟩
  · exact ⟨heq, fun _ hbusy => by cases hbusy⟩

theorem advance (h : s.Underway) (hstep : s.advance = some s') : s'.Underway := by
  have hfits := h.fits
  unfold Eligibility.advance at hstep
  cases happlying : s.applying with
  | idle =>
    simp only [happlying] at hstep
    cases hstep
  | disableSend =>
    rw [happlying] at hfits
    simp only [happlying, Option.some.injEq] at hstep
    subst hstep
    refine ⟨trivial, fun _ _ htarget => ?_⟩
    exact absurd (hfits.symm.trans htarget) Bool.false_ne_true
  | enableSpawn gen =>
    rw [happlying] at hfits
    simp only [happlying, Option.some.injEq] at hstep
    subst hstep
    refine ⟨trivial, fun _ _ _ => .inr ⟨⟨gen, .sleeping⟩, ?_, .inl ⟨rfl, hfits.2⟩⟩⟩
    exact List.mem_append_right _ (List.mem_singleton.2 rfl)
  | disableBump | disableExpect | enableBump | enableExpect =>
    rw [happlying] at hfits
    simp only [happlying, Option.some.injEq] at hstep
    subst hstep
    refine ⟨?_, fun _ hbusy => by cases hbusy⟩
    first | exact hfits | exact ⟨hfits, rfl⟩

theorem set {P : WarmUp → Prop} {l : List WarmUp} {i : ℕ} {old new : WarmUp}
    (hi : l[i]? = some old) (h : ∃ w ∈ l, P w) (hnew : P old → P new) : ∃ w ∈ l.set i new, P w := by
  obtain ⟨w, hw, hP⟩ := h
  obtain ⟨j, hj⟩ := List.mem_iff_getElem?.1 hw
  have hlt : i < l.length := (List.getElem?_eq_some_iff.1 hi).1
  rcases eq_or_ne i j with rfl | hne
  · obtain rfl := Option.mem_unique hi hj
    exact ⟨new, List.mem_of_getElem? (List.getElem?_set_self hlt), hnew hP⟩
  · exact ⟨w, List.mem_of_getElem? (by rw [List.getElem?_set_ne hne, hj]), hP⟩

theorem wake (h : s.Underway) {i : ℕ} (hstep : s.wake i = some s') : s'.Underway := by
  obtain ⟨gen, hi, rfl⟩ := wake_eq_some hstep
  refine ⟨h.fits, fun hlive hidle htarget => (h.warmUp hlive hidle htarget).imp_right ?_⟩
  refine fun hpending => set hi hpending ?_
  rintro (⟨-, heq⟩ | hcurrent)
  · exact .inr (if_pos heq.symm)
  · cases hcurrent

theorem enable (h : s.Underway) {i : ℕ} (hstep : s.enable i = some s') : s'.Underway := by
  obtain ⟨gen, -, rfl⟩ := enable_eq_some hstep
  exact ⟨h.fits, fun _ _ _ => .inl rfl⟩

theorem leave (h : s.Underway) {i : ℕ} (hstep : s.leave i = some s') : s'.Underway := by
  obtain ⟨hcancelled, gen, rfl⟩ := leave_eq_some hstep
  exact ⟨h.fits, fun hlive => absurd (hlive.symm.trans hcancelled) Bool.false_ne_true⟩

theorem step (h : s.Underway) (hstep : s.step op = some s') : s'.Underway := by
  cases op with
  | apply eligible => exact h.apply hstep
  | advance => exact h.advance hstep
  | wake i => exact h.wake hstep
  | enable i => exact h.enable hstep
  | leave i => exact h.leave hstep
  | cancel =>
    cases hstep
    exact ⟨h.fits, fun hlive => by cases hlive⟩

end Underway

/-! ## Late warm-ups -/

theorem enabledLate_concat (hrun : s₀.run ops = some s) (op : EligibilityStep) :
    s₀.EnabledLate (ops ++ [op]) ↔
      op ≠ .apply true ∧ s₀.EnabledLate ops ∨ (∃ i, op = .enable i) ∧ s.Disabled := by
  constructor
  · rintro ⟨before, i, after, s₁, heq, hbefore, hidle, htarget, hafter⟩
    rcases List.eq_nil_or_concat after with rfl | ⟨after, last, rfl⟩
    · obtain ⟨rfl, hop⟩ := List.append_inj' heq rfl
      obtain rfl := Option.mem_unique hrun hbefore
      exact .inr ⟨⟨i, (List.cons.inj hop).1⟩, hidle, htarget⟩
    · rw [List.concat_eq_append] at heq hafter
      rw [← List.cons_append, ← List.append_assoc] at heq
      obtain ⟨rfl, hop⟩ := List.append_inj' heq rfl
      obtain rfl := (List.cons.inj hop).1
      rw [List.mem_append, not_or, List.mem_singleton] at hafter
      exact .inl ⟨fun h => hafter.2 h.symm, before, i, after, s₁, rfl, hbefore, hidle, htarget,
        hafter.1⟩
  · rintro (⟨hne, before, i, after, s₁, rfl, hbefore, hidle, htarget, hafter⟩ |
      ⟨⟨i, rfl⟩, hidle, htarget⟩)
    · refine ⟨before, i, after ++ [op], s₁, ?_, hbefore, hidle, htarget, ?_⟩
      · rw [List.append_assoc, List.cons_append]
      · rw [List.mem_append, not_or, List.mem_singleton]
        exact ⟨hafter, fun h => hne h.symm⟩
    · exact ⟨ops, i, [], s, rfl, hrun, hidle, htarget, List.not_mem_nil⟩

/-- The target is what was applied last, and while the attestor is disabled it attests only if a
warm-up was late. -/
structure Tracks (s₀ : Eligibility) (ops : List EligibilityStep) (s : Eligibility) : Prop where
  target : s.attestTarget = lastApplied ops
  late_iff : s₀.EnabledLate ops ↔ s.Disabled ∧ s.canAttest = true

namespace Tracks

theorem apply (h : s₀.Tracks ops s) (hrun : s₀.run ops = some s) {eligible : Bool}
    (hstep : s.apply eligible = some s') : s₀.Tracks (ops ++ [.apply eligible]) s' := by
  obtain ⟨hidle, applying, rfl, hcases⟩ := apply_eq_some hstep
  refine ⟨(lastApplied_concat ops (.apply eligible)).symm, ?_⟩
  rw [enabledLate_concat hrun, h.late_iff]
  rcases hcases with ⟨rfl, rfl⟩ | ⟨rfl, rfl, htarget⟩ | ⟨rfl, rfl, htarget⟩
  · simp [Disabled, hidle]
  · simp [Disabled, htarget]
  · simp [Disabled]

theorem advance (h : s₀.Tracks ops s) (hunderway : s.Underway) (hrun : s₀.run ops = some s)
    (hstep : s.advance = some s') : s₀.Tracks (ops ++ [.advance]) s' := by
  have hfits := hunderway.fits
  have hbefore : ¬s₀.EnabledLate (ops ++ [.advance]) := by
    rw [enabledLate_concat hrun, h.late_iff]
    rintro (⟨-, ⟨hidle, -⟩, -⟩ | ⟨⟨i, hi⟩, -⟩)
    · rw [Eligibility.advance, hidle] at hstep
      cases hstep
    · cases hi
  suffices hafter : s'.attestTarget = s.attestTarget ∧ ¬(s'.Disabled ∧ s'.canAttest = true) from
    ⟨hafter.1.trans (h.target.trans (lastApplied_concat ops .advance).symm),
      iff_of_false hbefore hafter.2⟩
  unfold Eligibility.advance at hstep
  cases happlying : s.applying with
  | idle =>
    simp only [happlying] at hstep
    cases hstep
  | disableSend =>
    simp only [happlying, Option.some.injEq] at hstep
    subst hstep
    exact ⟨rfl, fun hcan => Bool.false_ne_true hcan.2⟩
  | enableSpawn gen =>
    rw [happlying] at hfits
    simp only [happlying, Option.some.injEq] at hstep
    subst hstep
    exact ⟨rfl, fun hcan => Bool.false_ne_true (hcan.1.2.symm.trans hfits.1)⟩
  | disableBump | disableExpect | enableBump | enableExpect =>
    simp only [happlying, Option.some.injEq] at hstep
    subst hstep
    exact ⟨rfl, fun hcan => by cases hcan.1.1⟩

theorem of_eq (h : s₀.Tracks ops s) (hrun : s₀.run ops = some s)
    (hop : op.applied = none) (hne : ∀ i, op ≠ .enable i)
    (happlying : s'.applying = s.applying) (htarget : s'.attestTarget = s.attestTarget)
    (hcan : s'.canAttest = s.canAttest) : s₀.Tracks (ops ++ [op]) s' := by
  have hlast : lastApplied (ops ++ [op]) = lastApplied ops := by
    rw [lastApplied_concat, hop, Option.getD_none]
  refine ⟨htarget.trans (h.target.trans hlast.symm), ?_⟩
  rw [enabledLate_concat hrun, h.late_iff, Disabled, Disabled, happlying, htarget, hcan]
  constructor
  · rintro (⟨-, hlate⟩ | ⟨⟨i, hi⟩, -⟩)
    · exact hlate
    · exact absurd hi (hne i)
  · refine fun hlate => .inl ⟨?_, hlate⟩
    rintro rfl
    cases hop

theorem enable (h : s₀.Tracks ops s) (hrun : s₀.run ops = some s) {i : ℕ}
    (hstep : s.enable i = some s') : s₀.Tracks (ops ++ [.enable i]) s' := by
  obtain ⟨gen, -, rfl⟩ := enable_eq_some hstep
  refine ⟨h.target.trans (lastApplied_concat ops (.enable i)).symm, ?_⟩
  rw [enabledLate_concat hrun, h.late_iff]
  constructor
  · rintro (⟨-, hdisabled, -⟩ | ⟨-, hdisabled⟩)
    · exact ⟨hdisabled, rfl⟩
    · exact ⟨hdisabled, rfl⟩
  · exact fun hlate => .inr ⟨⟨i, rfl⟩, hlate.1⟩

theorem step (h : s₀.Tracks ops s) (hunderway : s.Underway) (hrun : s₀.run ops = some s)
    (hstep : s.step op = some s') : s₀.Tracks (ops ++ [op]) s' := by
  cases op with
  | apply eligible => exact h.apply hrun hstep
  | advance => exact h.advance hunderway hrun hstep
  | enable i => exact h.enable hrun hstep
  | wake i =>
    obtain ⟨gen, -, rfl⟩ := wake_eq_some hstep
    exact h.of_eq hrun rfl (by simp) rfl rfl rfl
  | leave i =>
    obtain ⟨-, gen, rfl⟩ := leave_eq_some hstep
    exact h.of_eq hrun rfl (by simp) rfl rfl rfl
  | cancel =>
    cases hstep
    exact h.of_eq hrun rfl (by simp) rfl rfl rfl

end Tracks

theorem tracks_run (hrun : new.run ops = some s) : s.Underway ∧ new.Tracks ops s := by
  induction ops using List.reverseRecOn generalizing s with
  | nil =>
    cases hrun
    refine ⟨.new, rfl, ?_⟩
    constructor
    · rintro ⟨before, i, after, -, heq, -⟩
      simp at heq
    · rintro ⟨⟨-, htarget⟩, -⟩
      cases htarget
  | append_singleton ops op ih =>
    rw [run_concat] at hrun
    obtain ⟨s₁, hrun₁, hstep⟩ := Option.bind_eq_some_iff.1 hrun
    obtain ⟨hunderway, htracks⟩ := ih hrun₁
    exact ⟨hunderway.step hstep, htracks.step hunderway hrun₁ hstep⟩

theorem cancelled_step (hop : op ≠ .cancel) (hstep : s.step op = some s') :
    s'.cancelled = s.cancelled := by
  cases op with
  | apply eligible =>
    obtain ⟨-, applying, rfl, -⟩ := apply_eq_some hstep
    rfl
  | advance =>
    rw [step, advance] at hstep
    split at hstep <;> cases hstep <;> rfl
  | wake i =>
    obtain ⟨gen, -, rfl⟩ := wake_eq_some hstep
    rfl
  | enable i =>
    obtain ⟨gen, -, rfl⟩ := enable_eq_some hstep
    rfl
  | leave i =>
    obtain ⟨-, gen, rfl⟩ := leave_eq_some hstep
    rfl
  | cancel => exact absurd rfl hop

theorem cancelled_run (hcancel : .cancel ∉ ops) (hrun : s₀.run ops = some s) :
    s.cancelled = s₀.cancelled := by
  induction ops generalizing s₀ with
  | nil =>
    cases hrun
    rfl
  | cons op ops ih =>
    rw [List.mem_cons, not_or] at hcancel
    obtain ⟨s₁, hstep, hrest⟩ := Option.bind_eq_some_iff.1 hrun
    rw [ih hcancel.2 hrest, cancelled_step (fun heq => hcancel.1 heq.symm) hstep]

/-- **Eligibility settles, unless a warm-up is late.** When no warm-up is left, and the node is not
shutting down, the attestor attests exactly if it was eligible the last time its eligibility was
applied; the one exception is a warm-up that lets the attestor attest after it was disabled, with no
election since then. -/
theorem settles_iff (hrun : new.run ops = some s) (hsettled : s.Settled)
    (hcancel : .cancel ∉ ops) :
    s.canAttest = lastApplied ops ↔ ¬new.EnabledLate ops := by
  obtain ⟨hunderway, htracks⟩ := tracks_run hrun
  obtain ⟨hidle, hfinished⟩ := hsettled
  rw [htracks.late_iff, ← htracks.target]
  cases htarget : s.attestTarget with
  | false =>
    have hdisabled : s.Disabled := ⟨hidle, htarget⟩
    simp [hdisabled]
  | true =>
    have hattests : s.canAttest = true := by
      refine (hunderway.warmUp (cancelled_run hcancel hrun) hidle htarget).resolve_right ?_
      rintro ⟨w, hw, ⟨hstage, -⟩ | hstage⟩
      · rw [hfinished w hw] at hstage
        cases hstage
      · rw [hfinished w hw] at hstage
        cases hstage
    simp [Disabled, htarget, hattests]

/-! ## A chill that meets the end of a warm-up -/

/-- The attestor is chilled and elected again, and the warm-up finds its generation current. -/
def warmedUp : List EligibilityStep :=
  [.apply false, .advance, .advance, .advance, .apply true, .advance, .advance, .advance, .wake 0]

/-- The warm-up lets the attestor attest before a second chill takes effect. -/
theorem chilled_after_warmUp : ∃ s,
    new.run (warmedUp ++ [.apply false, .advance, .enable 0, .advance, .advance]) = some s ∧
      s.Settled ∧ s.canAttest = false ∧
      ¬new.EnabledLate (warmedUp ++ [.apply false, .advance, .enable 0, .advance, .advance]) :=
  ⟨_, rfl, by decide, rfl, (settles_iff rfl (by decide) (by decide)).1 rfl⟩

/-- **Attesting after a chill.** A second chill takes effect between the comparison in the warm-up
and what follows it: the attestor goes on attesting, with nothing left to stop it. -/
theorem exists_attests_after_chill : ∃ ops s, new.run ops = some s ∧ s.Settled ∧ .cancel ∉ ops ∧
    lastApplied ops = false ∧ s.canAttest = true :=
  ⟨warmedUp ++ [.apply false, .advance, .advance, .advance, .enable 0], _, rfl, by decide,
    by decide, rfl, rfl⟩

end Eligibility

end Creditcoin.Attestor
