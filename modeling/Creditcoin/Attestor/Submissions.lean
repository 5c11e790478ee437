import Creditcoin.Attestor.Locks

/-!
# Submission tasks

A quorum is submitted by a task of its own. A higher rival may replace the last one that was started
as long as it has not claimed its broadcast; one atomic variable decides who comes first. Here the
tasks that were replaced are kept, and each operation on shared data of a replacement is a step. The
rest of the loop is that of `Validation` (`Validation.step_withInFlight`). -/

namespace Creditcoin.Attestor

variable {H A : Type}

/-! ## State -/

/-- The variable that decides between the broadcast and the replacement of a submission. -/
inductive SubmissionState
  | pending
  | broadcast
  | preempted
  deriving DecidableEq

/-- How far a submission task has come. -/
inductive SubmissionPhase
  /-- It waits for a while, so that not all attestors submit at once. -/
  | waiting
  /-- It has claimed the broadcast, and submits. -/
  | submitting
  | ended (outcome : SubmissionOutcome)
  /-- It noticed that it was aborted. -/
  | aborted
  deriving DecidableEq

structure SubmissionTask (H A : Type) where
  agg : Aggregated H A
  state : SubmissionState
  phase : SubmissionPhase
  abort : Bool

/-- The digest that a task extends, and the task whose state and abort handle are shared. -/
structure Preemptable (H : Type) where
  anchor : Option H
  task : ℕ

/-- How far the loop is in replacing a submission. -/
inductive ReplaceStage
  | deciding
  | aborting (task : ℕ)
  /-- There is no submission in flight, maybe because one was replaced. -/
  | spawning (replaced : Option ℕ)
  deriving DecidableEq

/-- The validation loop and the tasks it has started. -/
structure Submitting (H A : Type) where
  /-- The loop but for the submission in flight, which it has as handles. -/
  loop : Validation H A
  tasks : List (SubmissionTask H A)
  inFlight : Option ℕ
  inFlightHeight : Option ℕ
  inFlightPreempt : Option (Preemptable H)
  stage : ReplaceStage
  /-- The tasks whose results the loop has taken. No step depends on it. -/
  results : Finset ℕ

inductive SubmittingAction (H A : Type)
  /-- A step of the loop or of the other tasks. -/
  | loop (action : ValidationAction H A)
  /-- A submission task tries to claim its broadcast. -/
  | claim (task : ℕ)
  | finish (task : ℕ) (outcome : SubmissionOutcome)
  /-- A submission task notices that it was aborted. -/
  | drop (task : ℕ)

/-- Is this a step of the loop itself? -/
def SubmittingAction.isLoop : SubmittingAction H A → Bool
  | .loop (.receive) => true
  | .loop (.validated _) => true
  | .loop (.join) => true
  | .loop (.revalidated _) => true
  | .loop (.proceed) => true
  | _ => false

namespace Submitting

variable [DecidableEq H] [DecidableEq A]

def new (config : PoolConfig H A) (startAttestation : Option (AttestationInfo H)) :
    Submitting H A where
  loop := Validation.new config startAttestation
  tasks := []
  inFlight := none
  inFlightHeight := none
  inFlightPreempt := none
  stage := .deciding
  results := ∅

variable (s : Submitting H A)

/-! ## The loop -/

/-- Start a submission task and keep its handles. -/
def spawnSubmission (agg : Aggregated H A) : Submitting H A :=
  { s with
    tasks := s.tasks ++ [⟨agg, .pending, .waiting, false⟩]
    inFlight := some s.tasks.length
    inFlightHeight := some agg.height
    inFlightPreempt := some ⟨quorumAnchor agg.attestationSigned, s.tasks.length⟩ }

/-- The handle on a submission that a quorum may replace. -/
def rival (agg : Aggregated H A) (finalized : Option H) : Option (Preemptable H) :=
  s.inFlightPreempt.filter fun preempt =>
    s.inFlightHeight.any (· < agg.height) ∧ preempt.anchor.isSome ∧ preempt.anchor = finalized ∧
      preempt.anchor = quorumAnchor agg.attestationSigned

/-- A task that is still pending, at which `preempt` succeeds. -/
def preempted (agg : Aggregated H A) (finalized : Option H) : Option ℕ :=
  ((s.rival agg finalized).map (·.task)).filter fun i =>
    s.tasks[i]?.any fun task => task.state = .pending

/-- The next operation of `handle_quorum` once a quorum is checked. -/
def commit (agg : Aggregated H A) (permit : Permit H) (finalized : Option H) : Submitting H A :=
  match s.stage with
  | .deciding =>
    match s.preempted agg finalized with
    | some i =>
      { s with
        tasks := s.tasks.modify i fun task => { task with state := .preempted }
        stage := .aborting i }
    | none =>
      if s.inFlight.isNone then { s with stage := .spawning none }
      else
        let signed := ⟨agg.height, agg.digest, agg.attestationSigned, agg.votes⟩
        { s with loop := { s.loop.onPool (.markForLater permit signed) with turn := .waiting } }
  | .aborting i =>
    { s with
      tasks := s.tasks.modify i fun task => { task with abort := true }
      inFlight := none
      stage := .spawning (some i) }
  | .spawning _ =>
    { s.spawnSubmission agg with
      loop := { s.loop.onPool (.markValid permit) with turn := .waiting }
      stage := .deciding }

/-- A quorum at the height in flight is discarded. -/
def handleQuorum (quorum : Quorum H A) (permit : Permit H) : Validation H A :=
  if s.inFlightHeight = some quorum.height then
    { s.loop.onPool (.markSkipped permit) with turn := .waiting }
  else { s.loop with turn := .validating quorum permit s.loop.pool.digestLocal }

/-- Take the result of the submission in flight. -/
def join : Option (Submitting H A) :=
  match s.loop.turn, s.inFlight with
  | .waiting, some i =>
    match s.tasks[i]? with
    | some ⟨agg, _, .ended outcome, _⟩ =>
      let settled :=
        if outcome.unlocks then s.loop.onPool (.noteMajorityNotReached agg.height) else s.loop
      some { s with
        loop := { settled with turn := .settling ⟨agg.height, outcome, agg.votes⟩ outcome.unlocks }
        inFlight := none
        inFlightHeight := none
        inFlightPreempt := none
        results := insert i s.results }
    | _ => none
  | _, _ => none

/-- A stashed quorum has been checked. -/
def revalidated (answers : StashAnswers A) : Option (Submitting H A) :=
  match s.loop.turn with
  | .revalidating stashed submission unlocked =>
    some (match revalidateStashed answers stashed with
    | some agg =>
      { s.spawnSubmission agg with
        loop := { s.loop with turn := .reopening submission unlocked } }
    | none =>
      { s with loop := { s.loop with turn := .dropping stashed.height submission unlocked } })
  | _ => none

variable (digestOrd : H → ℕ) (keccak : ℕ → H → Option H → H) (genesis : ℕ)

/-- A step of the loop, or of the tasks that are not submissions. -/
def loopStep : ValidationAction H A → Option (Submitting H A)
  | .join => s.join
  | .revalidated answers => s.revalidated answers
  | .proceed =>
    match s.loop.turn with
    | .received quorum permit => some { s with loop := s.handleQuorum quorum permit }
    | .committing agg permit finalized => some (s.commit agg permit finalized)
    | _ => (s.loop.proceed genesis).map fun loop => { s with loop := loop }
  | .broadcast => none
  | .resolve _ => none
  | action =>
    (s.loop.step digestOrd keccak genesis action).map fun loop => { s with loop := loop }

/-! ## The submission tasks -/

/-- Claim the broadcast. This fails only if the task was replaced. -/
def claim (i : ℕ) : Option (Submitting H A) :=
  match s.tasks[i]? with
  | some task =>
    match task.phase with
    | .waiting =>
      some { s with tasks := s.tasks.set i (
        if task.state = .pending then { task with state := .broadcast, phase := .submitting }
        else { task with phase := .ended .unresolved }) }
    | _ => none
  | none => none

/-- Only a task that was broadcast gets an answer, and only a height in the watch is seen to be
finalized. -/
def mayFinish (task : SubmissionTask H A) (outcome : SubmissionOutcome) : Bool :=
  match task.phase, outcome with
  | .waiting, .unresolved => true
  | .waiting, .finalized => s.loop.isFinalized task.agg.height
  | .submitting, .eligible _ => true
  | .submitting, .finalized => s.loop.isFinalized task.agg.height
  | .submitting, .unresolved => true
  | _, _ => false

def finish (i : ℕ) (outcome : SubmissionOutcome) : Option (Submitting H A) :=
  match s.tasks[i]? with
  | some task =>
    if s.mayFinish task outcome then
      some { s with
        tasks := s.tasks.set i { task with phase := .ended outcome }
        loop := { s.loop with
          reported := if outcome.reportsAttested then insert task.agg.height s.loop.reported
            else s.loop.reported } }
    else none
  | none => none

/-- An aborted task goes on until it waits again. -/
def drop (i : ℕ) : Option (Submitting H A) :=
  match s.tasks[i]? with
  | some task =>
    if task.abort = true ∧ (task.phase = .waiting ∨ task.phase = .submitting) then
      some { s with tasks := s.tasks.set i { task with phase := .aborted } }
    else none
  | none => none

def step : SubmittingAction H A → Option (Submitting H A)
  | .loop action => s.loopStep digestOrd keccak genesis action
  | .claim i => s.claim i
  | .finish i outcome => s.finish i outcome
  | .drop i => s.drop i

def run : Submitting H A → List (SubmittingAction H A) → Option (Submitting H A)
  | s, [] => some s
  | s, action :: actions =>
    (s.step digestOrd keccak genesis action).bind fun s' => run s' actions

end Submitting

/-! ## Steps that leave the submission in flight alone -/

/-- The steps that neither look at the submission in flight nor change it. -/
def ValidationAction.isPassive (turn : ValidationTurn H A) : ValidationAction H A → Bool
  | .shared _ | .attested _ | .reverted _ | .tell | .receive | .validated _ => true
  | .proceed =>
    match turn with
    | .received _ _ => false
    | .committing _ _ _ => false
    | _ => true
  | _ => false

namespace Validation

variable [DecidableEq H] [DecidableEq A] {v v' : Validation H A} {digestOrd : H → ℕ}
  {keccak : ℕ → H → Option H → H} {genesis : ℕ}

def withInFlight (v : Validation H A) (inFlight : Option (InFlight H A)) : Validation H A :=
  { v with inFlight := inFlight }

section

variable (v) (inFlight : Option (InFlight H A)) (submission : Submission H A) (unlocked : Bool)

theorem blockAttested_withInFlight (info : AttestationInfo H) :
    (v.withInFlight inFlight).blockAttested info =
      (v.blockAttested info).withInFlight inFlight := by
  rw [blockAttested, blockAttested, apply_ite (withInFlight · inFlight)]
  rfl

omit [DecidableEq H] [DecidableEq A] in
theorem settle_withInFlight : (v.withInFlight inFlight).settle submission unlocked =
    (v.settle submission unlocked).withInFlight inFlight := by
  rw [settle, settle, apply_ite (withInFlight · inFlight)]
  rfl

omit [DecidableEq A] in
theorem anchor_withInFlight (stashed : SignedQuorum H A) :
    (v.withInFlight inFlight).anchor genesis stashed submission unlocked =
      (v.anchor genesis stashed submission unlocked).withInFlight inFlight := by
  rw [anchor, anchor, apply_ite (withInFlight · inFlight)]
  rfl

omit [DecidableEq H] [DecidableEq A] in
theorem reopen_withInFlight : (v.withInFlight inFlight).reopen submission unlocked =
    (v.reopen submission unlocked).withInFlight inFlight := by
  rw [reopen, reopen, apply_ite (withInFlight · inFlight)]
  rfl

theorem takeStashed_withInFlight : (v.withInFlight inFlight).takeStashed submission unlocked =
    (v.takeStashed submission unlocked).withInFlight inFlight := by
  have hnext : (v.withInFlight inFlight).nextValidated = v.nextValidated := rfl
  rw [takeStashed, takeStashed, hnext]
  cases v.nextValidated <;> rfl

end

variable {action : ValidationAction H A}

theorem step_withInFlight (h : action.isPassive v.turn = true) (inFlight : Option (InFlight H A)) :
    (v.withInFlight inFlight).step digestOrd keccak genesis action =
      (v.step digestOrd keccak genesis action).map (·.withInFlight inFlight) := by
  cases action with
  | shared action =>
    simp only [step]
    split <;> rfl
  | attested info => exact congrArg some (blockAttested_withInFlight v inFlight info)
  | reverted _ | tell => rfl
  | receive =>
    simp only [step, receive, withInFlight]
    split
    · rw [Option.map_map]
      rfl
    · rfl
  | validated answers =>
    simp only [step, validated, withInFlight]
    split
    · refine congrArg some ?_
      split <;> rfl
    · rfl
  | proceed =>
    have hturn : (v.withInFlight inFlight).turn = v.turn := rfl
    simp only [step, proceed, hturn]
    cases hv : v.turn with
    | received | committing =>
      rw [hv] at h
      cases h
    | settling => exact congrArg some (settle_withInFlight v inFlight _ _)
    | draining => exact congrArg some (takeStashed_withInFlight v inFlight _ _)
    | anchoring => exact congrArg some (anchor_withInFlight v inFlight _ _ _)
    | reopening => exact congrArg some (reopen_withInFlight v inFlight _ _)
    | reinjecting votes => cases votes <;> rfl
    | _ => rfl
  | broadcast | resolve | join | revalidated => cases h

theorem inFlight_step (h : action.isPassive v.turn = true)
    (hstep : v.step digestOrd keccak genesis action = some v') : v'.inFlight = v.inFlight := by
  have hsame : v.step digestOrd keccak genesis action =
      (v.step digestOrd keccak genesis action).map (·.withInFlight v.inFlight) :=
    step_withInFlight h v.inFlight
  rw [hstep, Option.map_some] at hsame
  rw [Option.some.inj hsame]
  rfl

/-- A passive step of a loop that is about to commit is one of another task, and no passive step
begins to deal with a submission that has ended. -/
theorem turn_step (h : action.isPassive v.turn = true)
    (hstep : v.step digestOrd keccak genesis action = some v') :
    (v'.turn = v.turn ∨ ∀ agg permit finalized, v.turn ≠ .committing agg permit finalized) ∧
      (v'.turn.isSettling = true → v.turn.isSettling = true) := by
  cases action with
  | shared action =>
    simp only [step] at hstep
    split at hstep <;> cases hstep
    exact ⟨.inl rfl, id⟩
  | attested info =>
    cases hstep
    have hturn : (v.blockAttested info).turn = v.turn := by
      unfold blockAttested
      split <;> rfl
    rw [hturn]
    exact ⟨.inl rfl, id⟩
  | reverted info | tell =>
    cases hstep
    exact ⟨.inl rfl, id⟩
  | receive =>
    simp only [step, receive] at hstep
    split at hstep
    · next hturn =>
      obtain ⟨work, -, rfl⟩ := Option.map_eq_some_iff.1 hstep
      exact ⟨.inr (by simp [hturn]), fun hsettling => by cases hsettling⟩
    · cases hstep
  | validated answers =>
    simp only [step, validated] at hstep
    split at hstep
    · next hturn =>
      cases hstep
      refine ⟨.inr (by simp [hturn]), fun hsettling => ?_⟩
      split at hsettling <;> cases hsettling
    · cases hstep
  | proceed =>
    simp only [step, proceed] at hstep
    cases hv : v.turn with
    | received | committing =>
      rw [hv] at h
      cases h
    | reopening submission unlocked =>
      rw [hv] at hstep
      cases hstep
      refine ⟨.inr (by simp), fun hsettling => ?_⟩
      unfold reopen at hsettling
      split at hsettling
      · dsimp only at hsettling
        split at hsettling <;> cases hsettling
      · cases hsettling
    | reinjecting votes =>
      rw [hv] at hstep
      refine ⟨.inr (by simp), fun hsettling => ?_⟩
      cases votes <;> cases hstep <;> cases hsettling
    | waiting | validating | exited =>
      rw [hv] at hstep
      cases hstep
    | _ => exact ⟨.inr (by simp), fun _ => rfl⟩
  | broadcast | resolve | join | revalidated => cases h

/-- A passive step after which the loop is about to commit is the one in which it reads the watch,
or one of another task. -/
theorem committing_step (h : action.isPassive v.turn = true)
    (hstep : v.step digestOrd keccak genesis action = some v') {agg : Aggregated H A}
    {permit : Permit H} {finalized : Option H}
    (hturn : v'.turn = .committing agg permit finalized) :
    (∃ answers, action = .validated answers ∧ v.latestFinalized.map (·.digest) = finalized) ∨
      (SubmittingAction.loop action).isLoop = false ∧ v.turn = v'.turn := by
  cases action with
  | shared action =>
    simp only [step] at hstep
    split at hstep <;> cases hstep
    exact .inr ⟨rfl, rfl⟩
  | attested info =>
    cases hstep
    refine .inr ⟨rfl, ?_⟩
    unfold blockAttested
    split <;> rfl
  | reverted info | tell =>
    cases hstep
    exact .inr ⟨rfl, rfl⟩
  | receive =>
    simp only [step, receive] at hstep
    split at hstep
    · obtain ⟨work, -, rfl⟩ := Option.map_eq_some_iff.1 hstep
      cases hturn
    · cases hstep
  | validated answers =>
    simp only [step, validated] at hstep
    split at hstep
    · cases hstep
      split at hturn <;> cases hturn
      exact .inl ⟨answers, rfl, rfl⟩
    · cases hstep
  | proceed =>
    simp only [step, proceed] at hstep
    cases hv : v.turn with
    | received | committing =>
      rw [hv] at h
      cases h
    | settling submission unlocked =>
      rw [hv] at hstep
      cases hstep
      unfold settle at hturn
      split at hturn <;> cases hturn
    | draining submission unlocked =>
      rw [hv] at hstep
      cases hstep
      unfold takeStashed at hturn
      split at hturn <;> cases hturn
    | anchoring stashed submission unlocked =>
      rw [hv] at hstep
      cases hstep
      unfold anchor at hturn
      split at hturn <;> cases hturn
    | reopening submission unlocked =>
      rw [hv] at hstep
      cases hstep
      unfold reopen at hturn
      split at hturn
      · dsimp only at hturn
        split at hturn <;> cases hturn
      · cases hturn
    | reinjecting votes =>
      rw [hv] at hstep
      cases votes <;> cases hstep <;> cases hturn
    | unlocking | dropping =>
      rw [hv] at hstep
      cases hstep
      cases hturn
    | waiting | validating | revalidating | exited =>
      rw [hv] at hstep
      cases hstep
  | broadcast | resolve | join | revalidated => cases h

end Validation

namespace Submitting

/-! ## What a step of a submission task does -/

section Tasks

variable {s s' : Submitting H A} {i : ℕ} {outcome : SubmissionOutcome} {task : SubmissionTask H A}

theorem claim_eq_some (h : s.claim i = some s') :
    ∃ task, s.tasks[i]? = some task ∧ task.phase = .waiting ∧
      (task.state = .pending ∧ s' = { s with
          tasks := s.tasks.set i { task with state := .broadcast, phase := .submitting } } ∨
        task.state ≠ .pending ∧ s' = { s with
          tasks := s.tasks.set i { task with phase := .ended .unresolved } }) := by
  unfold claim at h
  split at h
  · next task hi =>
    split at h
    · next hphase =>
      refine ⟨task, hi, hphase, ?_⟩
      by_cases hpending : task.state = .pending
      · rw [if_pos hpending] at h
        exact .inl ⟨hpending, (Option.some.inj h).symm⟩
      · rw [if_neg hpending] at h
        exact .inr ⟨hpending, (Option.some.inj h).symm⟩
    · cases h
  · cases h

theorem phase_of_mayFinish (h : s.mayFinish task outcome = true) :
    task.phase = .submitting ∨ task.phase = .waiting ∧ ∀ result, outcome ≠ .eligible result := by
  unfold mayFinish at h
  split at h <;> simp_all

theorem finish_eq_some (h : s.finish i outcome = some s') :
    ∃ task, s.tasks[i]? = some task ∧ s.mayFinish task outcome = true ∧ s' = { s with
      tasks := s.tasks.set i { task with phase := .ended outcome }
      loop := { s.loop with
        reported := if outcome.reportsAttested then insert task.agg.height s.loop.reported
          else s.loop.reported } } := by
  unfold finish at h
  split at h
  · next task hi =>
    split at h
    · next hmay => exact ⟨task, hi, hmay, (Option.some.inj h).symm⟩
    · cases h
  · cases h

theorem drop_eq_some (h : s.drop i = some s') :
    ∃ task, s.tasks[i]? = some task ∧ task.abort = true ∧
      (task.phase = .waiting ∨ task.phase = .submitting) ∧
      s' = { s with tasks := s.tasks.set i { task with phase := .aborted } } := by
  unfold drop at h
  split at h
  · next task hi =>
    split at h
    · next habort => exact ⟨task, hi, habort.1, habort.2, (Option.some.inj h).symm⟩
    · cases h
  · cases h

theorem getElem?_set_cases {task' t : SubmissionTask H A} {j : ℕ}
    (ht : (s.tasks.set i task')[j]? = some t) :
    i = j ∧ t = task' ∨ i ≠ j ∧ s.tasks[j]? = some t := by
  rcases eq_or_ne i j with rfl | hne
  · have hlt : i < (s.tasks.set i task').length := (List.getElem?_eq_some_iff.1 ht).1
    rw [List.length_set] at hlt
    rw [List.getElem?_set_self hlt] at ht
    exact .inl ⟨rfl, (Option.some.inj ht).symm⟩
  · rw [List.getElem?_set_ne hne] at ht
    exact .inr ⟨hne, ht⟩

theorem getElem?_set_same {task' : SubmissionTask H A} (hi : s.tasks[i]? = some task) :
    (s.tasks.set i task')[i]? = some task' :=
  List.getElem?_set_self (List.getElem?_eq_some_iff.1 hi).1

theorem modify_eq_set {f : SubmissionTask H A → SubmissionTask H A}
    (hi : s.tasks[i]? = some task) : s.tasks.modify i f = s.tasks.set i (f task) := by
  rw [List.modify_eq_set_getElem?, hi]
  rfl

theorem join_eq_some [DecidableEq H] [DecidableEq A] (h : s.join = some s') :
    ∃ i task outcome, s.loop.turn = .waiting ∧ s.inFlight = some i ∧
      s.tasks[i]? = some task ∧ task.phase = .ended outcome ∧ s' = { s with
        loop := { (if outcome.unlocks then s.loop.onPool (.noteMajorityNotReached task.agg.height)
            else s.loop) with
          turn := .settling ⟨task.agg.height, outcome, task.agg.votes⟩ outcome.unlocks }
        inFlight := none
        inFlightHeight := none
        inFlightPreempt := none
        results := insert i s.results } := by
  unfold join at h
  split at h
  · next i hturn hflight =>
    split at h
    · next agg state outcome abort hi =>
      exact ⟨i, _, outcome, hturn, hflight, hi, rfl, (Option.some.inj h).symm⟩
    · cases h
  · cases h

end Tasks

/-! ## What a step of the loop does -/

section Loop

variable [DecidableEq H] [DecidableEq A] {s : Submitting H A} {digestOrd : H → ℕ}
  {keccak : ℕ → H → Option H → H} {genesis : ℕ}

theorem loopStep_of_isPassive {action : ValidationAction H A}
    (h : action.isPassive s.loop.turn = true) :
    s.loopStep digestOrd keccak genesis action =
      (s.loop.step digestOrd keccak genesis action).map fun loop => { s with loop := loop } := by
  cases action with
  | proceed =>
    cases hturn : s.loop.turn with
    | received | committing =>
      rw [hturn] at h
      cases h
    | _ =>
      simp only [loopStep, hturn]
      rfl
  | broadcast | resolve | join | revalidated => cases h
  | _ => rfl

theorem loopStep_received {quorum : Quorum H A} {permit : Permit H}
    (h : s.loop.turn = .received quorum permit) :
    s.loopStep digestOrd keccak genesis .proceed =
      some { s with loop := s.handleQuorum quorum permit } := by
  simp only [loopStep, h]

theorem loopStep_committing {agg : Aggregated H A} {permit : Permit H} {finalized : Option H}
    (h : s.loop.turn = .committing agg permit finalized) :
    s.loopStep digestOrd keccak genesis .proceed = some (s.commit agg permit finalized) := by
  simp only [loopStep, h]

end Loop

end Submitting

end Creditcoin.Attestor
