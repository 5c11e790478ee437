import Creditcoin.Attestor.Submissions

/-!
# Replaced submissions

Every submission task is in flight, was replaced, or has ended with a result that the loop has taken
(`Submitting.Exclusive`). So a task that was replaced never broadcasts, and one that has claimed its
broadcast is the only one and stays in flight until the loop has its result
(`submissions_exclusive`). A task is replaced only by a higher quorum that extends the same digest,
the last finalized one when the loop read the watch; the watch may have changed since
(`exists_replaced_late`). -/

namespace Creditcoin.Attestor

variable {H A : Type}

/-! ## Exclusive submissions -/

/-- Only a task that has claimed its broadcast submits, and only one that was replaced is aborted.
-/
structure SubmissionTask.Sound (task : SubmissionTask H A) : Prop where
  claimed : (task.phase = .submitting ∨ ∃ result, task.phase = .ended (.eligible result)) →
    task.state = .broadcast
  aborted : task.abort = true → task.state = .preempted

/-- A quorum may replace the task: it is higher, and both extend the given digest. -/
def SubmissionTask.Replaceable (task : SubmissionTask H A) (agg : Aggregated H A)
    (finalized : Option H) : Prop :=
  task.agg.height < agg.height ∧ ∃ anchor, finalized = some anchor ∧
    quorumAnchor task.agg.attestationSigned = some anchor ∧
    quorumAnchor agg.attestationSigned = some anchor

namespace Submitting

/-- The task was replaced by the quorum in the hands of the loop. -/
def Replaced (s : Submitting H A) (i : ℕ) : Prop :=
  ∃ (task : SubmissionTask H A) (agg : Aggregated H A) (permit : Permit H) (finalized : Option H),
    s.tasks[i]? = some task ∧ task.state = .preempted ∧
      s.loop.turn = .committing agg permit finalized ∧ task.Replaceable agg finalized

/-- What each stage says about the submission in flight. -/
def StageSound (s : Submitting H A) : ReplaceStage → Prop
  | .deciding => True
  | .aborting i => s.inFlight = some i ∧ s.Replaced i
  | .spawning replaced => s.inFlight = none ∧ (∃ agg permit finalized,
      s.loop.turn = .committing agg permit finalized) ∧ ∀ i ∈ replaced, s.Replaced i

/-- Every task is in flight, was replaced, or has ended with a result that the loop has. -/
structure Exclusive (s : Submitting H A) : Prop where
  alone : s.loop.inFlight = none
  sound : ∀ (i : ℕ) (task : SubmissionTask H A), s.tasks[i]? = some task → task.Sound
  handles : ∀ i, s.inFlight = some i → ∃ task : SubmissionTask H A, s.tasks[i]? = some task ∧
    s.inFlightHeight = some task.agg.height ∧
    s.inFlightPreempt = some ⟨quorumAnchor task.agg.attestationSigned, i⟩
  settled : s.loop.turn.isSettling = true → s.inFlight = none
  free : s.stage = .deciding → s.inFlight = none →
    s.inFlightHeight = none ∧ s.inFlightPreempt = none
  kept : ∀ (i : ℕ) (task : SubmissionTask H A), s.tasks[i]? = some task →
    task.state ≠ .preempted → i ∉ s.results → s.inFlight = some i
  taken : ∀ i ∈ s.results, ∃ (task : SubmissionTask H A) (outcome : SubmissionOutcome),
    s.tasks[i]? = some task ∧ task.phase = .ended outcome
  dropped : ∀ (i : ℕ) (task : SubmissionTask H A), s.tasks[i]? = some task →
    task.state = .preempted → s.inFlight = some i → s.stage = .aborting i
  stage : s.StageSound s.stage

namespace Exclusive

variable {s s' : Submitting H A}

theorem stage_eq (h : s.Exclusive)
    (hturn : ∀ agg permit finalized, s.loop.turn ≠ .committing agg permit finalized) :
    s.stage = .deciding := by
  have hstage := h.stage
  cases hs : s.stage with
  | deciding => rfl
  | aborting i =>
    rw [hs] at hstage
    obtain ⟨-, _, agg, permit, finalized, -, -, heq, -⟩ := hstage
    exact absurd heq (hturn agg permit finalized)
  | spawning replaced =>
    rw [hs] at hstage
    obtain ⟨-, ⟨agg, permit, finalized, heq⟩, -⟩ := hstage
    exact absurd heq (hturn agg permit finalized)

variable {loop : Validation H A}

theorem setLoop (h : s.Exclusive) (halone : loop.inFlight = none)
    (hturn : loop.turn = s.loop.turn ∨ s.stage = .deciding)
    (hsettled : loop.turn.isSettling = true → s.loop.turn.isSettling = true) :
    Exclusive { s with loop := loop } := by
  refine ⟨halone, h.sound, h.handles, fun hsettling => h.settled (hsettled hsettling), h.free,
    h.kept, h.taken, h.dropped, ?_⟩
  have hstage := h.stage
  rcases hturn with hturn | hdeciding
  · show StageSound { s with loop := loop } s.stage
    have hreplaced : ∀ i, s.Replaced i → Replaced { s with loop := loop } i := by
      rintro i ⟨task, agg, permit, finalized, hi, hstate, heq, hrest⟩
      exact ⟨task, agg, permit, finalized, hi, hstate, hturn.trans heq, hrest⟩
    cases hs : s.stage with
    | deciding => trivial
    | aborting i =>
      rw [hs] at hstage
      exact ⟨hstage.1, hreplaced i hstage.2⟩
    | spawning replaced =>
      rw [hs] at hstage
      obtain ⟨hnone, ⟨agg, permit, finalized, heq⟩, hall⟩ := hstage
      exact ⟨hnone, ⟨agg, permit, finalized, hturn.trans heq⟩, fun i hi => hreplaced i (hall i hi)⟩
  · show StageSound { s with loop := loop } s.stage
    rw [hdeciding]
    trivial

variable {i : ℕ}

theorem setTask (h : s.Exclusive) {task task' : SubmissionTask H A} (hi : s.tasks[i]? = some task)
    (hagg : task'.agg = task.agg) (hsound : task'.Sound)
    (hstate : task'.state = .preempted ↔ task.state = .preempted)
    (hphase : ∀ outcome, task.phase = .ended outcome → task'.phase = .ended outcome) :
    Exclusive { s with tasks := s.tasks.set i task' } := by
  have hself : (s.tasks.set i task')[i]? = some task' := getElem?_set_same hi
  have hother : ∀ j, i ≠ j → (s.tasks.set i task')[j]? = s.tasks[j]? := fun j hj =>
    List.getElem?_set_ne hj
  have hback : ∀ (j : ℕ) (t : SubmissionTask H A), (s.tasks.set i task')[j]? = some t →
      ∃ t₀ : SubmissionTask H A, s.tasks[j]? = some t₀ ∧ t.Sound ∧
        (t.state = .preempted ↔ t₀.state = .preempted) := by
    intro j t ht
    rcases getElem?_set_cases ht with ⟨rfl, rfl⟩ | ⟨-, ht⟩
    · exact ⟨task, hi, hsound, hstate⟩
    · exact ⟨t, ht, h.sound j t ht, Iff.rfl⟩
  have hreplaced : ∀ j, s.Replaced j → Replaced { s with tasks := s.tasks.set i task' } j := by
    rintro j ⟨t, agg, permit, finalized, ht, hpre, heq, hrest⟩
    rcases eq_or_ne i j with rfl | hne
    · obtain rfl := Option.mem_unique hi ht
      refine ⟨task', agg, permit, finalized, hself, hstate.2 hpre, heq, ?_⟩
      rw [SubmissionTask.Replaceable, hagg]
      exact hrest
    · exact ⟨t, agg, permit, finalized, (hother j hne).trans ht, hpre, heq, hrest⟩
  constructor
  · exact h.alone
  · intro j t ht
    obtain ⟨-, -, hsound, -⟩ := hback j t ht
    exact hsound
  · intro j hj
    obtain ⟨t, ht, hheight, hpreempt⟩ := h.handles j hj
    rcases eq_or_ne i j with rfl | hne
    · obtain rfl := Option.mem_unique hi ht
      exact ⟨task', hself, by rw [hagg, hheight], by rw [hagg, hpreempt]⟩
    · exact ⟨t, (hother j hne).trans ht, hheight, hpreempt⟩
  · exact h.settled
  · exact h.free
  · intro j t ht hne hnot
    obtain ⟨t₀, ht₀, -, hiff⟩ := hback j t ht
    exact h.kept j t₀ ht₀ (fun hpre => hne (hiff.2 hpre)) hnot
  · intro j hj
    obtain ⟨t, outcome, ht, hended⟩ := h.taken j hj
    rcases eq_or_ne i j with rfl | hne
    · obtain rfl := Option.mem_unique hi ht
      exact ⟨task', outcome, hself, hphase outcome hended⟩
    · exact ⟨t, outcome, (hother j hne).trans ht, hended⟩
  · intro j t ht hpre hflight
    obtain ⟨t₀, ht₀, -, hiff⟩ := hback j t ht
    exact h.dropped j t₀ ht₀ (hiff.1 hpre) hflight
  · have hstage := h.stage
    show StageSound _ s.stage
    cases hs : s.stage with
    | deciding => trivial
    | aborting j =>
      rw [hs] at hstage
      exact ⟨hstage.1, hreplaced j hstage.2⟩
    | spawning replaced =>
      rw [hs] at hstage
      exact ⟨hstage.1, hstage.2.1, fun j hj => hreplaced j (hstage.2.2 j hj)⟩

theorem claim (h : s.Exclusive) (hstep : s.claim i = some s') : s'.Exclusive := by
  obtain ⟨task, hi, hphase, hcases⟩ := claim_eq_some hstep
  have hsound := h.sound i task hi
  have hended : ∀ outcome, task.phase ≠ .ended outcome := fun outcome heq => by
    rw [hphase] at heq
    cases heq
  obtain ⟨hpending, rfl⟩ | ⟨-, rfl⟩ := hcases
  · refine h.setTask hi rfl ⟨fun _ => rfl, fun habort => ?_⟩ ?_
      fun outcome heq => absurd heq (hended outcome)
    · rw [hsound.aborted habort] at hpending
      cases hpending
    · rw [hpending]
      exact iff_of_false (by simp) (by simp)
  · refine h.setTask hi rfl ⟨fun hclaimed => ?_, hsound.aborted⟩ Iff.rfl
      fun outcome heq => absurd heq (hended outcome)
    rcases hclaimed with heq | ⟨result, heq⟩ <;> cases heq

theorem finish (h : s.Exclusive) {outcome : SubmissionOutcome}
    (hstep : s.finish i outcome = some s') : s'.Exclusive := by
  obtain ⟨task, hi, hmay, rfl⟩ := finish_eq_some hstep
  have hsound := h.sound i task hi
  have hset : Exclusive { s with
      tasks := s.tasks.set i { task with phase := .ended outcome } } := by
    refine h.setTask hi rfl ⟨fun hclaimed => ?_, hsound.aborted⟩ Iff.rfl fun o heq => ?_
    · rcases hclaimed with heq | ⟨result, heq⟩
      · cases heq
      · cases heq
        rcases phase_of_mayFinish hmay with hphase | ⟨-, hne⟩
        · exact hsound.claimed (.inl hphase)
        · exact absurd rfl (hne result)
    · rcases phase_of_mayFinish hmay with hphase | ⟨hphase, -⟩ <;> rw [heq] at hphase <;>
        cases hphase
  exact hset.setLoop h.alone (.inl rfl) id

theorem drop (h : s.Exclusive) (hstep : s.drop i = some s') : s'.Exclusive := by
  obtain ⟨task, hi, -, hphase, rfl⟩ := drop_eq_some hstep
  have hsound := h.sound i task hi
  refine h.setTask hi rfl ⟨fun hclaimed => ?_, hsound.aborted⟩ Iff.rfl fun o heq => ?_
  · rcases hclaimed with heq | ⟨result, heq⟩ <;> cases heq
  · rcases hphase with hphase | hphase <;> rw [heq] at hphase <;> cases hphase

theorem spawn (h : s.Exclusive) (hfree : s.inFlight = none) (agg : Aggregated H A)
    (halone : loop.inFlight = none) (hturn : loop.turn.isSettling = false) {stage : ReplaceStage}
    (hstage : stage = .deciding) :
    Exclusive { s.spawnSubmission agg with loop := loop, stage := stage } := by
  subst hstage
  have hold : ∀ (j : ℕ) (t : SubmissionTask H A),
      (s.tasks ++ [⟨agg, .pending, .waiting, false⟩])[j]? = some t →
        s.tasks[j]? = some t ∨ j = s.tasks.length ∧ t = ⟨agg, .pending, .waiting, false⟩ := by
    intro j t ht
    rw [List.getElem?_append] at ht
    split at ht
    · exact .inl ht
    · next hle =>
      obtain ⟨hlt, rfl⟩ := List.getElem?_eq_some_iff.1 ht
      rw [List.length_singleton] at hlt
      exact .inr ⟨by omega, by simp⟩
  have hnew : (s.tasks ++ [⟨agg, .pending, .waiting, false⟩])[s.tasks.length]? =
      some ⟨agg, .pending, .waiting, false⟩ := List.getElem?_concat_length
  constructor
  · exact halone
  · intro j t ht
    rcases hold j t ht with ht | ⟨-, rfl⟩
    · exact h.sound j t ht
    · refine ⟨fun hclaimed => ?_, fun habort => ?_⟩
      · rcases hclaimed with heq | ⟨result, heq⟩ <;> cases heq
      · cases habort
  · intro j hj
    obtain rfl := Option.some.inj hj
    exact ⟨_, hnew, rfl, rfl⟩
  · exact fun hsettling => absurd (hturn.symm.trans hsettling) Bool.false_ne_true
  · intro _ hnone
    cases hnone
  · intro j t ht hne hnot
    rcases hold j t ht with ht | ⟨rfl, -⟩
    · rw [h.kept j t ht hne hnot] at hfree
      cases hfree
    · rfl
  · intro j hj
    obtain ⟨t, outcome, ht, hended⟩ := h.taken j hj
    exact ⟨t, outcome, (List.getElem?_append_left (List.getElem?_eq_some_iff.1 ht).1).trans ht,
      hended⟩
  · intro j t ht hpre hj
    obtain rfl := Option.some.inj hj
    obtain rfl := Option.mem_unique hnew ht
    cases hpre
  · trivial

variable {permit : Permit H} {agg : Aggregated H A} {finalized : Option H}

theorem preempt (h : s.Exclusive) {task : SubmissionTask H A}
    (hturn : s.loop.turn = .committing agg permit finalized) (hflight : s.inFlight = some i)
    (hi : s.tasks[i]? = some task) (hpending : task.state = .pending)
    (hreplaceable : task.Replaceable agg finalized) :
    Exclusive { s with
      tasks := s.tasks.modify i fun task => { task with state := .preempted }
      stage := .aborting i } := by
  rw [modify_eq_set hi]
  have hself : (s.tasks.set i { task with state := .preempted })[i]? = _ := getElem?_set_same hi
  constructor
  · exact h.alone
  · intro j t ht
    rcases getElem?_set_cases ht with ⟨rfl, rfl⟩ | ⟨-, ht⟩
    · refine ⟨fun hclaimed => ?_, fun _ => rfl⟩
      rw [(h.sound i task hi).claimed hclaimed] at hpending
      cases hpending
    · exact h.sound j t ht
  · intro j hj
    obtain rfl := Option.mem_unique hflight hj
    obtain ⟨t, ht, hrest⟩ := h.handles i hflight
    obtain rfl := Option.mem_unique hi ht
    exact ⟨_, hself, hrest⟩
  · exact h.settled
  · intro hstage
    cases hstage
  · intro j t ht hne hnot
    rcases getElem?_set_cases ht with ⟨rfl, -⟩ | ⟨-, ht⟩
    · exact hflight
    · exact h.kept j t ht hne hnot
  · intro j hj
    obtain ⟨t, outcome, ht, hended⟩ := h.taken j hj
    rcases eq_or_ne i j with rfl | hne
    · obtain rfl := Option.mem_unique hi ht
      exact ⟨_, outcome, hself, hended⟩
    · exact ⟨t, outcome, (List.getElem?_set_ne hne).trans ht, hended⟩
  · intro j t _ _ hj
    obtain rfl := Option.mem_unique hflight hj
    rfl
  · exact ⟨hflight, _, agg, permit, finalized, hself, rfl, hturn, hreplaceable⟩

theorem abort (h : s.Exclusive) (hstage : s.stage = .aborting i) :
    Exclusive { s with
      tasks := s.tasks.modify i fun task => { task with abort := true }
      inFlight := none
      stage := .spawning (some i) } := by
  have hs := h.stage
  rw [hstage] at hs
  obtain ⟨hflight, task, agg, permit, finalized, hi, hpre, hturn, hreplaceable⟩ := hs
  rw [modify_eq_set hi]
  have hself : (s.tasks.set i { task with abort := true })[i]? = _ := getElem?_set_same hi
  constructor
  · exact h.alone
  · intro j t ht
    rcases getElem?_set_cases ht with ⟨rfl, rfl⟩ | ⟨-, ht⟩
    · exact ⟨(h.sound i task hi).claimed, fun _ => hpre⟩
    · exact h.sound j t ht
  · intro j hj
    cases hj
  · exact fun _ => rfl
  · intro hstage
    cases hstage
  · intro j t ht hne hnot
    rcases getElem?_set_cases ht with ⟨rfl, rfl⟩ | ⟨hij, ht⟩
    · exact absurd hpre hne
    · exact absurd (Option.mem_unique hflight (h.kept j t ht hne hnot)) hij
  · intro j hj
    obtain ⟨t, outcome, ht, hended⟩ := h.taken j hj
    rcases eq_or_ne i j with rfl | hne
    · obtain rfl := Option.mem_unique hi ht
      exact ⟨_, outcome, hself, hended⟩
    · exact ⟨t, outcome, (List.getElem?_set_ne hne).trans ht, hended⟩
  · intro j t _ _ hj
    cases hj
  · refine ⟨rfl, ⟨agg, permit, finalized, hturn⟩, fun j hj => ?_⟩
    obtain rfl := Option.some.inj hj
    exact ⟨_, agg, permit, finalized, hself, hpre, hturn, hreplaceable⟩

variable [DecidableEq H]

theorem preempted_eq_some (h : s.Exclusive) (hstage : s.stage = .deciding)
    (hpre : s.preempted agg finalized = some i) :
    s.inFlight = some i ∧ ∃ task, s.tasks[i]? = some task ∧ task.state = .pending ∧
      task.Replaceable agg finalized := by
  obtain ⟨hmap, hpending⟩ := Option.filter_eq_some_iff.1 hpre
  obtain ⟨preempt, hrival, rfl⟩ := Option.map_eq_some_iff.1 hmap
  obtain ⟨hpreempt, hcond⟩ := Option.filter_eq_some_iff.1 hrival
  simp only [decide_eq_true_eq] at hcond
  obtain ⟨hheight, hsome, hfinalized, hanchor⟩ := hcond
  cases hflight : s.inFlight with
  | none =>
    rw [(h.free hstage hflight).2] at hpreempt
    cases hpreempt
  | some j =>
    obtain ⟨task, ht, hj, hhandle⟩ := h.handles j hflight
    obtain rfl := Option.mem_unique hhandle hpreempt
    rw [ht] at hpending
    rw [hj] at hheight
    obtain ⟨anchor, heq⟩ := Option.isSome_iff_exists.1 hsome
    refine ⟨rfl, task, ht, by simpa using hpending, by simpa using hheight, anchor, ?_, heq, ?_⟩
    · rw [← hfinalized, heq]
    · rw [← hanchor, heq]

variable [DecidableEq A]

theorem commit (h : s.Exclusive) (hturn : s.loop.turn = .committing agg permit finalized) :
    (s.commit agg permit finalized).Exclusive := by
  unfold Submitting.commit
  split
  · next hstage =>
    split
    · next i hpre =>
      obtain ⟨hflight, task, hi, hpending, hreplaceable⟩ := h.preempted_eq_some hstage hpre
      exact h.preempt hturn hflight hi hpending hreplaceable
    · split
      · next hnone =>
        have hfree : s.inFlight = none := Option.isNone_iff_eq_none.1 hnone
        refine ⟨h.alone, h.sound, h.handles, h.settled, fun hs => ?_, h.kept, h.taken,
          fun i _ _ _ hi => ?_, ?_⟩
        · cases hs
        · cases hfree.symm.trans hi
        · exact ⟨hfree, ⟨agg, permit, finalized, hturn⟩, fun i hi => by cases hi⟩
      · exact h.setLoop h.alone (.inr hstage) fun hsettling => by cases hsettling
  · next i hstage => exact h.abort hstage
  · next replaced hstage =>
    have hs := h.stage
    rw [hstage] at hs
    refine h.spawn hs.1 agg ?_ ?_ rfl
    · exact h.alone
    · rfl

theorem join (h : s.Exclusive) (hstep : s.join = some s') : s'.Exclusive := by
  obtain ⟨i, task, outcome, hturn, hflight, hi, hphase, rfl⟩ := join_eq_some hstep
  have hstage : s.stage = .deciding := h.stage_eq fun agg permit finalized heq => by
    rw [hturn] at heq
    cases heq
  constructor
  · show Validation.inFlight (if _ then _ else _) = none
    split <;> exact h.alone
  · exact h.sound
  · intro j hj
    cases hj
  · exact fun _ => rfl
  · exact fun _ _ => ⟨rfl, rfl⟩
  · intro j t ht hne hnot
    rw [Finset.mem_insert, not_or] at hnot
    exact absurd (Option.mem_unique (h.kept j t ht hne hnot.2) hflight) hnot.1
  · intro j hj
    rcases Finset.mem_insert.1 hj with rfl | hj
    · exact ⟨task, outcome, hi, hphase⟩
    · exact h.taken j hj
  · intro j t _ _ hj
    cases hj
  · show StageSound _ s.stage
    rw [hstage]
    trivial

omit [DecidableEq H] [DecidableEq A] in
theorem revalidated (h : s.Exclusive) {answers : StashAnswers A}
    (hstep : s.revalidated answers = some s') : s'.Exclusive := by
  unfold Submitting.revalidated at hstep
  split at hstep
  · next stashed submission unlocked hturn =>
    have hstage : s.stage = .deciding := h.stage_eq (by simp [hturn])
    have hfree : s.inFlight = none := h.settled (by rw [hturn]; rfl)
    cases hstep
    split
    · next agg _ =>
      refine h.spawn hfree agg ?_ ?_ hstage
      · exact h.alone
      · rfl
    · exact h.setLoop h.alone (.inr hstage) fun _ => by rw [hturn]; rfl
  · cases hstep

variable {digestOrd : H → ℕ} {keccak : ℕ → H → Option H → H} {genesis : ℕ}

theorem passive (h : s.Exclusive) {action : ValidationAction H A}
    (hpassive : action.isPassive s.loop.turn = true)
    (hstep : s.loop.step digestOrd keccak genesis action = some loop) :
    Exclusive { s with loop := loop } := by
  obtain ⟨hturn, hsettling⟩ := Validation.turn_step hpassive hstep
  exact h.setLoop ((Validation.inFlight_step hpassive hstep).trans h.alone)
    (hturn.imp_right h.stage_eq) hsettling

theorem handleQuorum (h : s.Exclusive) {quorum : Quorum H A}
    (hturn : s.loop.turn = .received quorum permit) :
    Exclusive { s with loop := s.handleQuorum quorum permit } := by
  have hstage : s.stage = .deciding := h.stage_eq (by simp [hturn])
  refine h.setLoop ?_ (.inr hstage) fun hsettling => ?_
  · unfold Submitting.handleQuorum
    split <;> exact h.alone
  · unfold Submitting.handleQuorum at hsettling
    split at hsettling <;> cases hsettling

theorem loopStep (h : s.Exclusive) {action : ValidationAction H A}
    (hstep : s.loopStep digestOrd keccak genesis action = some s') : s'.Exclusive := by
  cases hpassive : action.isPassive s.loop.turn with
  | true =>
    rw [loopStep_of_isPassive hpassive] at hstep
    obtain ⟨loop, hloop, rfl⟩ := Option.map_eq_some_iff.1 hstep
    exact h.passive hpassive hloop
  | false =>
    cases action with
    | join => exact h.join hstep
    | revalidated answers => exact h.revalidated hstep
    | broadcast | resolve => cases hstep
    | proceed =>
      cases hturn : s.loop.turn with
      | received quorum permit =>
        rw [loopStep_received hturn] at hstep
        cases hstep
        exact h.handleQuorum hturn
      | committing agg permit finalized =>
        rw [loopStep_committing hturn] at hstep
        cases hstep
        exact h.commit hturn
      | _ =>
        rw [hturn] at hpassive
        cases hpassive
    | _ => cases hpassive

theorem step (h : s.Exclusive) {action : SubmittingAction H A}
    (hstep : s.step digestOrd keccak genesis action = some s') : s'.Exclusive := by
  cases action with
  | loop action => exact h.loopStep hstep
  | claim i => exact h.claim hstep
  | finish i outcome => exact h.finish hstep
  | drop i => exact h.drop hstep

end Exclusive

section Run

variable [DecidableEq H] [DecidableEq A] {s s' s₀ : Submitting H A} {digestOrd : H → ℕ}
  {keccak : ℕ → H → Option H → H} {genesis : ℕ} {action : SubmittingAction H A}
  {actions : List (SubmittingAction H A)}

omit [DecidableEq H] in
theorem exclusive_new (config : PoolConfig H A) (startAttestation : Option (AttestationInfo H)) :
    (new config startAttestation).Exclusive where
  alone := rfl
  sound i task hi := by cases hi
  handles i hi := by cases hi
  settled _ := rfl
  free _ _ := ⟨rfl, rfl⟩
  kept i task hi := by cases hi
  taken i hi := absurd hi (Finset.notMem_empty i)
  dropped i task hi := by cases hi
  stage := trivial

theorem run_concat : s.run digestOrd keccak genesis (actions ++ [action]) =
    (s.run digestOrd keccak genesis actions).bind (step · digestOrd keccak genesis action) := by
  induction actions generalizing s with
  | nil => simp [run]
  | cons first actions ih =>
    rw [List.cons_append, run, run, Option.bind_assoc]
    exact congrArg _ (funext fun s' => ih)

theorem Exclusive.run (h : s₀.Exclusive)
    (hrun : s₀.run digestOrd keccak genesis actions = some s) : s.Exclusive := by
  induction actions using List.reverseRecOn generalizing s with
  | nil =>
    cases hrun
    exact h
  | append_singleton actions action ih =>
    rw [run_concat] at hrun
    obtain ⟨s₁, hrun, hstep⟩ := Option.bind_eq_some_iff.1 hrun
    exact (ih hrun).step hstep

/-! ## When a task is replaced -/

/-- The variable of a task before and after a step. It is replaced by the loop, at the time the loop
decides what to do with a quorum. -/
def StateStep (s : Submitting H A) (i : ℕ) (task task' : SubmissionTask H A) : Prop :=
  task'.agg = task.agg ∧ (task'.state = task.state ∨ task.state = .pending ∧
    (task'.state = .broadcast ∨ task'.state = .preempted ∧ s.stage = .deciding ∧
      ∃ agg permit finalized, s.loop.turn = .committing agg permit finalized ∧
        s.preempted agg finalized = some i))

variable {i : ℕ} {task : SubmissionTask H A}

omit [DecidableEq A] in
theorem stateStep_set {j : ℕ} {t t' : SubmissionTask H A} (hi : s.tasks[i]? = some task)
    (hj : s.tasks[j]? = some t) (h : s.StateStep j t t') :
    ∃ task', (s.tasks.set j t')[i]? = some task' ∧ s.StateStep i task task' := by
  rcases eq_or_ne j i with rfl | hne
  · obtain rfl := Option.mem_unique hj hi
    exact ⟨t', getElem?_set_same hj, h⟩
  · exact ⟨task, (List.getElem?_set_ne hne).trans hi, rfl, .inl rfl⟩

variable {agg : Aggregated H A} {finalized : Option H} {permit : Permit H}

theorem stateStep_commit (hexclusive : s.Exclusive)
    (hturn : s.loop.turn = .committing agg permit finalized) (hi : s.tasks[i]? = some task) :
    ∃ task', (s.commit agg permit finalized).tasks[i]? = some task' ∧
      s.StateStep i task task' := by
  have hsame : s.StateStep i task task := ⟨rfl, .inl rfl⟩
  unfold commit
  split
  · next hstage =>
    split
    · next j hpre =>
      obtain ⟨-, t, hj, hpending, -⟩ := hexclusive.preempted_eq_some hstage hpre
      dsimp only
      rw [modify_eq_set hj]
      exact stateStep_set hi hj
        ⟨rfl, .inr ⟨hpending, .inr ⟨rfl, hstage, agg, permit, finalized, hturn, hpre⟩⟩⟩
    · split <;> exact ⟨task, hi, hsame⟩
  · next j hstage =>
    have hs := hexclusive.stage
    rw [hstage] at hs
    obtain ⟨-, t, -, -, -, hj, -⟩ := hs
    dsimp only
    rw [modify_eq_set hj]
    exact stateStep_set hi hj ⟨rfl, .inl rfl⟩
  · exact ⟨task, (List.getElem?_append_left (List.getElem?_eq_some_iff.1 hi).1).trans hi, hsame⟩

theorem stateStep_loopStep (hexclusive : s.Exclusive) {action : ValidationAction H A}
    (hstep : s.loopStep digestOrd keccak genesis action = some s') (hi : s.tasks[i]? = some task) :
    ∃ task', s'.tasks[i]? = some task' ∧ s.StateStep i task task' := by
  have hsame : s.StateStep i task task := ⟨rfl, .inl rfl⟩
  cases hpassive : action.isPassive s.loop.turn with
  | true =>
    rw [loopStep_of_isPassive hpassive] at hstep
    obtain ⟨loop, -, rfl⟩ := Option.map_eq_some_iff.1 hstep
    exact ⟨task, hi, hsame⟩
  | false =>
    cases action with
    | join =>
      obtain ⟨_, _, _, -, -, -, -, rfl⟩ := join_eq_some hstep
      exact ⟨task, hi, hsame⟩
    | revalidated answers =>
      simp only [loopStep, revalidated] at hstep
      split at hstep
      · cases hstep
        split
        · exact ⟨task, (List.getElem?_append_left (List.getElem?_eq_some_iff.1 hi).1).trans hi,
            hsame⟩
        · exact ⟨task, hi, hsame⟩
      · cases hstep
    | broadcast | resolve => cases hstep
    | proceed =>
      cases hturn : s.loop.turn with
      | received quorum permit =>
        rw [loopStep_received hturn] at hstep
        cases hstep
        exact ⟨task, hi, hsame⟩
      | committing agg permit finalized =>
        rw [loopStep_committing hturn] at hstep
        cases hstep
        exact stateStep_commit hexclusive hturn hi
      | _ =>
        rw [hturn] at hpassive
        cases hpassive
    | _ => cases hpassive

theorem stateStep_step (hexclusive : s.Exclusive)
    (hstep : s.step digestOrd keccak genesis action = some s') (hi : s.tasks[i]? = some task) :
    ∃ task', s'.tasks[i]? = some task' ∧ s.StateStep i task task' := by
  cases action with
  | loop action => exact stateStep_loopStep hexclusive hstep hi
  | claim j =>
    obtain ⟨t, hj, -, ⟨hpending, rfl⟩ | ⟨-, rfl⟩⟩ := claim_eq_some hstep
    · exact stateStep_set hi hj ⟨rfl, .inr ⟨hpending, .inl rfl⟩⟩
    · exact stateStep_set hi hj ⟨rfl, .inl rfl⟩
  | finish j outcome =>
    obtain ⟨t, hj, -, rfl⟩ := finish_eq_some hstep
    exact stateStep_set hi hj ⟨rfl, .inl rfl⟩
  | drop j =>
    obtain ⟨t, hj, -, -, rfl⟩ := drop_eq_some hstep
    exact stateStep_set hi hj ⟨rfl, .inl rfl⟩

/-! ## What the loop has read -/

theorem commit_decided {agg' : Aggregated H A} {permit' : Permit H} {finalized' : Option H}
    (hstage : (s.commit agg permit finalized).stage = .deciding) :
    (s.commit agg permit finalized).loop.turn ≠ .committing agg' permit' finalized' := by
  cases hs : s.stage with
  | deciding =>
    cases hpre : s.preempted agg finalized with
    | some i => simp [commit, hs, hpre] at hstage
    | none =>
      by_cases hflight : s.inFlight.isNone = true
      · simp [commit, hs, hpre, hflight] at hstage
      · simp [commit, hs, hpre, hflight]
  | aborting i => simp [commit, hs] at hstage
  | spawning replaced => simp [commit, hs]

/-- A step that leaves the loop with a decision to make is the one in which it reads the watch, or
one of another task. -/
theorem deciding_step (hstep : s.step digestOrd keccak genesis action = some s')
    (hstage : s'.stage = .deciding) (hturn : s'.loop.turn = .committing agg permit finalized) :
    (∃ answers, action = .loop (.validated answers) ∧
        s.loop.latestFinalized.map (·.digest) = finalized) ∨
      action.isLoop = false ∧ s.stage = .deciding ∧
        s.loop.turn = .committing agg permit finalized := by
  cases action with
  | claim j =>
    obtain ⟨t, -, -, ⟨-, rfl⟩ | ⟨-, rfl⟩⟩ := claim_eq_some hstep <;>
      exact .inr ⟨rfl, hstage, hturn⟩
  | finish j outcome =>
    obtain ⟨t, -, -, rfl⟩ := finish_eq_some hstep
    exact .inr ⟨rfl, hstage, hturn⟩
  | drop j =>
    obtain ⟨t, -, -, -, rfl⟩ := drop_eq_some hstep
    exact .inr ⟨rfl, hstage, hturn⟩
  | loop action =>
    cases hpassive : action.isPassive s.loop.turn with
    | true =>
      rw [step, loopStep_of_isPassive hpassive] at hstep
      obtain ⟨loop, hloop, rfl⟩ := Option.map_eq_some_iff.1 hstep
      obtain ⟨answers, rfl, hread⟩ | ⟨hother, hsame⟩ :=
        Validation.committing_step hpassive hloop hturn
      · exact .inl ⟨answers, rfl, hread⟩
      · exact .inr ⟨hother, hstage, hsame.trans hturn⟩
    | false =>
      exfalso
      cases action with
      | join =>
        obtain ⟨_, _, _, -, -, -, -, rfl⟩ := join_eq_some hstep
        cases hturn
      | revalidated answers =>
        simp only [step, loopStep, revalidated] at hstep
        split at hstep
        · cases hstep
          split at hturn <;> cases hturn
        · cases hstep
      | broadcast | resolve => cases hstep
      | proceed =>
        cases hs : s.loop.turn with
        | received quorum permit =>
          rw [step, loopStep_received hs] at hstep
          cases hstep
          unfold handleQuorum at hturn
          split at hturn <;> cases hturn
        | committing agg permit finalized =>
          rw [step, loopStep_committing hs] at hstep
          cases hstep
          exact commit_decided hstage hturn
        | _ =>
          rw [hs] at hpassive
          cases hpassive
      | _ => cases hpassive

theorem watch_read (hnew : ∀ agg permit finalized, s₀.loop.turn ≠ .committing agg permit finalized)
    (hrun : s₀.run digestOrd keccak genesis actions = some s) (hstage : s.stage = .deciding)
    (hturn : s.loop.turn = .committing agg permit finalized) :
    ∃ before answers after s₁, actions = before ++ .loop (.validated answers) :: after ∧
      s₀.run digestOrd keccak genesis before = some s₁ ∧
      s₁.loop.latestFinalized.map (·.digest) = finalized ∧
      ∀ other ∈ after, other.isLoop = false := by
  induction actions using List.reverseRecOn generalizing s with
  | nil =>
    cases hrun
    exact absurd hturn (hnew agg permit finalized)
  | append_singleton actions action ih =>
    rw [run_concat] at hrun
    obtain ⟨s₁, hrun₁, hstep⟩ := Option.bind_eq_some_iff.1 hrun
    obtain ⟨answers, rfl, hread⟩ | ⟨hother, hstage₁, hturn₁⟩ :=
      deciding_step hstep hstage hturn
    · exact ⟨actions, answers, [], s₁, rfl, hrun₁, hread, fun other hmem => by cases hmem⟩
    · obtain ⟨before, answers, after, s₂, rfl, hbefore, hread, hafter⟩ :=
        ih hrun₁ hstage₁ hturn₁
      refine ⟨before, answers, after ++ [action], s₂, ?_, hbefore, hread, fun other hmem => ?_⟩
      · rw [List.append_assoc, List.cons_append]
      · rcases List.mem_append.1 hmem with hmem | hmem
        · exact hafter other hmem
        · rw [List.mem_singleton.1 hmem, hother]

/-- The task has claimed its broadcast, and the loop does not have its result yet. -/
def Claimed (s : Submitting H A) (i : ℕ) : Prop :=
  ∃ task, s.tasks[i]? = some task ∧ task.state = .broadcast ∧ i ∉ s.results

/-- The loop found the digest in the watch, and has not done anything else since. -/
def WatchRead (digestOrd : H → ℕ) (keccak : ℕ → H → Option H → H) (genesis : ℕ)
    (s₀ : Submitting H A) (actions : List (SubmittingAction H A)) (digest : H) : Prop :=
  ∃ before answers after s₁, actions = before ++ .loop (.validated answers) :: after ∧
    s₀.run digestOrd keccak genesis before = some s₁ ∧
    s₁.loop.latestFinalized.map (·.digest) = some digest ∧ ∀ other ∈ after, other.isLoop = false

end Run

end Submitting

/-- **Submissions are exclusive.** In every run of the validation loop next to its submission tasks
and the other tasks: a task that was replaced does not broadcast; a task that has claimed its
broadcast is in flight until the loop has its result, so that there is at most one; neither of the
two ever changes; and a task is replaced only by a higher quorum on the same anchor, which was the
last finalized digest when the loop read the watch before. -/
theorem submissions_exclusive [DecidableEq H] [DecidableEq A] (digestOrd : H → ℕ)
    (keccak : ℕ → H → Option H → H) (genesis : ℕ) (config : PoolConfig H A)
    (startAttestation : Option (AttestationInfo H)) {actions : List (SubmittingAction H A)}
    {s : Submitting H A}
    (hrun : (Submitting.new config startAttestation).run digestOrd keccak genesis actions =
      some s) :
    (∀ (i : ℕ) (task : SubmissionTask H A), s.tasks[i]? = some task → task.state = .preempted →
      task.phase ≠ .submitting ∧ ∀ result, task.phase ≠ .ended (.eligible result)) ∧
    (∀ i, s.Claimed i → s.inFlight = some i) ∧ (∀ i j, s.Claimed i → s.Claimed j → i = j) ∧
    ∀ action s', s.step digestOrd keccak genesis action = some s' →
      ∀ (i : ℕ) (task : SubmissionTask H A), s.tasks[i]? = some task →
        ∃ task' : SubmissionTask H A, s'.tasks[i]? = some task' ∧ task'.agg = task.agg ∧
          (task.state ≠ .pending → task'.state = task.state) ∧
          (task.state ≠ .preempted → task'.state = .preempted →
            ∃ agg permit anchor, s.loop.turn = .committing agg permit (some anchor) ∧
              task.agg.height < agg.height ∧
              quorumAnchor task.agg.attestationSigned = some anchor ∧
              quorumAnchor agg.attestationSigned = some anchor ∧
              Submitting.WatchRead digestOrd keccak genesis
                (Submitting.new config startAttestation) actions anchor) := by
  have h : s.Exclusive := (Submitting.exclusive_new config startAttestation).run hrun
  have hclaimed : ∀ i, s.Claimed i → s.inFlight = some i := by
    rintro i ⟨task, hi, hstate, hnot⟩
    exact h.kept i task hi (by simp [hstate]) hnot
  refine ⟨fun i task hi hpre => ⟨fun hphase => ?_, fun result hphase => ?_⟩, hclaimed,
    fun i j hi hj => ?_, fun action s' hstep i task hi => ?_⟩
  · rw [(h.sound i task hi).claimed (.inl hphase)] at hpre
    cases hpre
  · rw [(h.sound i task hi).claimed (.inr ⟨result, hphase⟩)] at hpre
    cases hpre
  · exact Option.mem_unique (hclaimed i hi) (hclaimed j hj)
  · obtain ⟨task', hi', hagg, hstate⟩ := Submitting.stateStep_step h hstep hi
    refine ⟨task', hi', hagg, fun hne => ?_, fun hne hpre => ?_⟩
    · exact hstate.resolve_right fun hpending => hne hpending.1
    · rcases hstate with heq | ⟨-, hbroadcast | ⟨-, hstage, agg, permit, finalized, hturn, hrival⟩⟩
      · exact absurd (heq.symm.trans hpre) hne
      · cases hbroadcast.symm.trans hpre
      · obtain ⟨-, t, ht, -, hheight, anchor, rfl, hanchor, hanchor'⟩ :=
          h.preempted_eq_some hstage hrival
        obtain rfl := Option.mem_unique hi ht
        refine ⟨agg, permit, anchor, hturn, hheight, hanchor, hanchor', ?_⟩
        refine Submitting.watch_read (fun _ _ _ heq => ?_) hrun hstage hturn
        cases heq

/-! ## A race with the watch -/

namespace Race

def vote (height : ℕ) : Vote ℕ ℕ := ⟨1, height, height, 1, .zero⟩

/-- What the attestor learns about a quorum whose proof extends block 8 with digest 5. -/
def answers (height : U64) : QuorumAnswers ℕ ℕ where
  isChainSupported := some true
  containsDigest := some false
  active _ := true
  quorum := some 1
  cached := some ⟨⟨1, height.val, height.val, height.val, some (height.val - 1), height.isLt⟩,
    ⟨5, List.replicate (height.val - 9) 0⟩⟩
  fetchLastFinalized := some (some (8, 5))
  shuffle := id
  aggregate := List.head?

/-- A quorum at a height is received, and checked against what the watch says. -/
def checked (height : U64) : List (SubmittingAction ℕ ℕ) :=
  [.loop (.shared (.send (vote height))), .loop .receive, .loop .proceed,
    .loop (.validated (answers height))]

/-- Block 10 is being submitted when block 20 is ready. -/
def actions : List (SubmittingAction ℕ ℕ) :=
  checked 10 ++ [.loop .proceed, .loop .proceed] ++ checked 20

/-- Block 10 is replaced, finds that out when it tries to claim its broadcast, and block 20 claims
its own. -/
theorem twentieth_claimed : ∃ s : Submitting ℕ ℕ,
    (Submitting.new loneConfig (some (.of 8 5))).run id (fun n _ _ => n) 0
        (actions ++ [.loop .proceed, .loop .proceed, .loop .proceed, .claim 0, .claim 1]) = some s ∧
      (s.tasks.map fun task => (task.state, task.phase)) =
        [(.preempted, .ended .unresolved), (.broadcast, .submitting)] ∧
      ∀ i, s.Claimed i → i = 1 := by
  have hrun : (Submitting.new loneConfig (some (.of 8 5))).run id (fun n _ _ => n) 0 (actions ++
      [.loop .proceed, .loop .proceed, .loop .proceed, .claim 0, .claim 1]) = some _ := rfl
  obtain ⟨-, hclaimed, -⟩ := submissions_exclusive id (fun n _ _ => n) 0 loneConfig
    (some (.of 8 5)) hrun
  exact ⟨_, hrun, rfl, fun i hi => Option.mem_unique (hclaimed i hi) rfl⟩

/-- **The watch may have moved on.** The loop reads the watch when digest 5 is finalized. Block 10
is finalized in the meantime, and the watch is told. Then the loop replaces the submission of block
10, whose anchor is no longer the last finalized digest. -/
theorem exists_replaced_late : ∃ s s' : Submitting ℕ ℕ,
    (Submitting.new loneConfig (some (.of 8 5))).run id (fun n _ _ => n) 0
        (actions ++ [.loop (.attested (.of 10 10)), .loop .tell]) = some s ∧
      s.step id (fun n _ _ => n) 0 (.loop .proceed) = some s' ∧
      (s.tasks[0]?.map (·.state)) = some .pending ∧
      (s'.tasks[0]?.map (·.state)) = some .preempted ∧
      (s.tasks[0]?.map fun task => quorumAnchor task.agg.attestationSigned) = some (some 5) ∧
      s.loop.latestFinalized.map (·.digest) = some 10 :=
  ⟨_, _, rfl, rfl, rfl, rfl, rfl, rfl⟩

end Race

end Creditcoin.Attestor
