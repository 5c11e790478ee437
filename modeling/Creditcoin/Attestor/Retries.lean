import Creditcoin.Attestor.PoolSafety
import Creditcoin.Attestor.Validation

/-!
# Votes that are sent again

When a submission fails, the validation task sends the votes that it holds to the pool again, and it
has a budget of three for doing so. It remembers the budget of one height only: a result for another
height starts a budget of its own, and the next one for the first height starts anew. -/

namespace Creditcoin.Attestor

variable {H A : Type}

/-! ## The budget -/

section Budget

variable {state : Option (ℕ × ℕ)} {height n : ℕ}

def reinjectsLeft (state : Option (ℕ × ℕ)) (height : ℕ) : ℕ :=
  ((state.filter (·.1 = height)).map (·.2)).getD maxReinjectsPerHeight

theorem takeReinjectBudget_eq_true :
    (takeReinjectBudget state height).1 = true ↔ 0 < reinjectsLeft state height := by
  unfold takeReinjectBudget reinjectsLeft maxReinjectsPerHeight
  grind

theorem reinjectsLeft_take :
    reinjectsLeft (takeReinjectBudget state height).2 n =
      if n = height then reinjectsLeft state height - 1 else maxReinjectsPerHeight := by
  unfold takeReinjectBudget reinjectsLeft maxReinjectsPerHeight
  grind

/-- The heights that are granted, out of those that ask. -/
def grants (state : Option (ℕ × ℕ)) : List ℕ → List ℕ
  | [] => []
  | height :: heights =>
    let budget := takeReinjectBudget state height
    let granted := grants budget.2 heights
    if budget.1 then height :: granted else granted

variable {heights : List ℕ}

theorem count_grants_cons :
    (grants state (height :: heights)).count n =
      (if n = height ∧ 0 < reinjectsLeft state n then 1 else 0) +
        (grants (takeReinjectBudget state height).2 heights).count n := by
  have h := @takeReinjectBudget_eq_true state height
  simp only [grants]
  grind

theorem count_grants_le : (grants state heights).count n ≤ heights.count n := by
  induction heights generalizing state with
  | nil => simp [grants]
  | cons height heights ih =>
    have h := @ih (takeReinjectBudget state height).2
    rw [count_grants_cons, List.count_cons]
    grind

theorem le_count_grants (hleft : reinjectsLeft state n ≤ maxReinjectsPerHeight) :
    min (reinjectsLeft state n) (heights.count n) ≤ (grants state heights).count n := by
  induction heights generalizing state with
  | nil => simp
  | cons height heights ih =>
    have h := @ih (takeReinjectBudget state height).2
    rw [reinjectsLeft_take] at h
    rw [count_grants_cons, List.count_cons]
    grind

/-- While the budget of a height lasts. -/
theorem count_grants_le_left_iff (hleft : reinjectsLeft state n < maxReinjectsPerHeight) :
    (grants state heights).count n ≤ reinjectsLeft state n ↔
      heights.count n ≤ reinjectsLeft state n ∨ n ∉ heights.dropWhile (· = n) := by
  induction heights generalizing state with
  | nil => simp [grants]
  | cons height heights ih =>
    have hnext := @reinjectsLeft_take state height n
    have hle := @count_grants_le (takeReinjectBudget state height).2 n heights
    have hge := @le_count_grants (takeReinjectBudget state height).2 n heights
    have h := @ih (takeReinjectBudget state height).2
    have hdrop : n ∈ heights.dropWhile (· = n) → 0 < heights.count n := fun hmem =>
      List.count_pos_iff.2 ((List.dropWhile_sublist _).mem hmem)
    rw [count_grants_cons, List.count_cons, List.dropWhile_cons]
    obtain rfl | hne := eq_or_ne n height
    · grind
    · grind

/-- **Three for each unbroken row.** -/
theorem count_grants_le_iff (hleft : reinjectsLeft state n = maxReinjectsPerHeight) :
    (grants state heights).count n ≤ maxReinjectsPerHeight ↔
      heights.count n ≤ maxReinjectsPerHeight ∨
        n ∉ (heights.dropWhile (· ≠ n)).dropWhile (· = n) := by
  induction heights generalizing state with
  | nil => simp [grants]
  | cons height heights ih =>
    have hnext := @reinjectsLeft_take state height n
    rw [count_grants_cons, List.count_cons]
    obtain rfl | hne := eq_or_ne n height
    · have h := @count_grants_le_left_iff (takeReinjectBudget state n).2 n heights
      simp only [List.dropWhile_cons, ne_eq, not_true_eq_false, decide_false, decide_true,
        Bool.false_eq_true, if_false, if_true]
      grind [maxReinjectsPerHeight]
    · have h := @ih (takeReinjectBudget state height).2
      simp only [List.dropWhile_cons, ne_eq, hne.symm, not_false_eq_true, decide_true]
      grind

end Budget

/-! ## Runs -/

namespace Validation

section Run

variable [DecidableEq H] [DecidableEq A] (digestOrd : H → ℕ) (keccak : ℕ → H → Option H → H)
  (genesis : ℕ)

/-- The height of a result that asks for its votes to be sent again: it was unlocked, and it is not
finalized. -/
def asksReinject (v : Validation H A) : ValidationAction H A → Option ℕ
  | .proceed =>
    match v.turn with
    | .reopening submission unlocked =>
      if unlocked && !v.isFinalized submission.height then some submission.height else none
    | _ => none
  | _ => none

/-- The height whose votes a step starts to send again. -/
def startsReinject (v v' : Validation H A) : Option ℕ :=
  match v.turn, v'.turn with
  | .reopening submission _, .reinjecting _ => some submission.height
  | _, _ => none

/-- The heights of the results that ask, in order. -/
def asked : Validation H A → List (ValidationAction H A) → List ℕ
  | _, [] => []
  | v, action :: actions =>
    match v.step digestOrd keccak genesis action with
    | some v' => (v.asksReinject action).toList ++ asked v' actions
    | none => []

/-- The heights whose votes are sent again, in order. -/
def reinjected : Validation H A → List (ValidationAction H A) → List ℕ
  | _, [] => []
  | v, action :: actions =>
    match v.step digestOrd keccak genesis action with
    | some v' => (v.startsReinject v').toList ++ reinjected v' actions
    | none => []

variable {digestOrd keccak genesis} {v v' : Validation H A}

omit [DecidableEq H] [DecidableEq A] in
theorem startsReinject_of_turn_eq (hturn : v'.turn = v.turn) : v.startsReinject v' = none := by
  unfold startsReinject
  grind

/-- The budget is only taken at the end of a result. -/
theorem startsReinject_step {action : ValidationAction H A}
    (hstep : v.step digestOrd keccak genesis action = some v') :
    (v.asksReinject action = none →
      v'.reinjectBudget = v.reinjectBudget ∧ v.startsReinject v' = none) ∧
    ∀ n, v.asksReinject action = some n →
      v'.reinjectBudget = (takeReinjectBudget v.reinjectBudget n).2 ∧
        v.startsReinject v' =
          if (takeReinjectBudget v.reinjectBudget n).1 then some n else none := by
  cases action
  case proceed =>
    unfold step proceed at hstep
    cases hturn : v.turn <;> simp only [hturn] at hstep
    case reopening submission unlocked =>
      unfold reopen at hstep
      grind [asksReinject, startsReinject]
    all_goals
      have hasks : v.asksReinject .proceed = none := by simp [asksReinject, hturn]
      have hstarts : v.startsReinject v' = none := by simp [startsReinject, hturn]
      grind [handleQuorum, commit, settle, takeStashed, anchor, onPool]
  case shared | attested | reverted | tell | broadcast | resolve =>
    have hsame : v'.reinjectBudget = v.reinjectBudget ∧ v'.turn = v.turn := by
      unfold step at hstep
      grind [blockAttested, claimBroadcast, resolve, onPool]
    exact ⟨fun _ => ⟨hsame.1, startsReinject_of_turn_eq hsame.2⟩, fun n hn => by cases hn⟩
  all_goals
    refine ⟨fun _ => ?_, fun n hn => by cases hn⟩
    unfold step at hstep
    grind [receive, validated, join, revalidated, onPool, startsReinject, Option.map_eq_some_iff]

theorem reinjected_eq (v : Validation H A) (actions : List (ValidationAction H A)) :
    v.reinjected digestOrd keccak genesis actions =
      grants v.reinjectBudget (v.asked digestOrd keccak genesis actions) := by
  induction actions generalizing v with
  | nil => rfl
  | cons action actions ih =>
    unfold reinjected asked
    cases hstep : v.step digestOrd keccak genesis action with
    | none => rfl
    | some v' =>
      obtain ⟨hnone, hsome⟩ := startsReinject_step hstep
      dsimp only
      rw [ih v']
      cases hasks : v.asksReinject action with
      | none =>
        obtain ⟨hbudget, hstarts⟩ := hnone hasks
        rw [hbudget, hstarts]
        rfl
      | some n =>
        obtain ⟨hbudget, hstarts⟩ := hsome n hasks
        rw [hbudget, hstarts]
        simp only [Option.toList_some, List.singleton_append, grants]
        split <;> rfl

end Run

end Validation

/-- **Re-injections of a height.** In every run of the validation task next to the others, the votes
of a height are sent again more than three times only if more than three results ask for it, with
one for another height in between. -/
theorem reinjected_le_iff [DecidableEq H] [DecidableEq A] (digestOrd : H → ℕ)
    (keccak : ℕ → H → Option H → H) (genesis : ℕ) (config : PoolConfig H A)
    (startAttestation : Option (AttestationInfo H)) (actions : List (ValidationAction H A))
    (n : ℕ) :
    let v := Validation.new config startAttestation
    let asked := v.asked digestOrd keccak genesis actions
    (v.reinjected digestOrd keccak genesis actions).count n ≤ 3 ↔
      asked.count n ≤ 3 ∨ n ∉ (asked.dropWhile (· ≠ n)).dropWhile (· = n) := by
  intro v asked
  rw [Validation.reinjected_eq]
  exact count_grants_le_iff rfl

namespace Alternating

/-- Block `9` is the last finalized one. -/
def start : Validation ℕ ℕ :=
  let height : Fin (2 ^ 64) := 9
  Validation.new loneConfig (some ⟨height, 5, height.isLt⟩)

/-- What the only attestor learns about a block. -/
def answers (height : Fin (2 ^ 64)) (prevDigest : ℕ) (roots : List ℕ) : QuorumAnswers ℕ ℕ where
  isChainSupported := some true
  containsDigest := some false
  active _ := true
  quorum := some 1
  cached := some ⟨⟨1, height, 0, 0, some prevDigest, height.isLt⟩, ⟨5, roots⟩⟩
  fetchLastFinalized := some (some (9, 5))
  shuffle := id
  aggregate := List.head?

/-- Its vote for a block becomes a quorum, and the submission is not resolved. -/
def attempt (height : ℕ) (answers : QuorumAnswers ℕ ℕ) : List (ValidationAction ℕ ℕ) :=
  [.shared (.send ⟨1, height, 7, 1, .zero⟩), .receive, .proceed, .validated answers, .proceed,
    .resolve .unresolved, .join] ++ List.replicate 6 .proceed

/-- Block `10` fails, then block `11`, and the pool is cleared for a new interval. -/
def actions : List (ValidationAction ℕ ℕ) :=
  attempt 10 (answers 10 5 []) ++ attempt 11 (answers 11 10 [0]) ++
    [.shared (.noteAttestationIntervalChange loneConfig.attestationInterval)]

/-- The votes for block `10` are sent again four times. -/
theorem exists_reinjected_four : ∃ actions v,
    start.run id (fun n _ _ => n) 0 actions = some v ∧
      (start.reinjected id (fun n _ _ => n) 0 actions).count 10 = 4 :=
  ⟨(List.replicate 4 actions).flatten, _, rfl, rfl⟩

end Alternating

end Creditcoin.Attestor
