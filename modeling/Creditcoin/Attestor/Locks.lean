import Creditcoin.Attestor.PoolSafety
import Creditcoin.Attestor.Validation

/-!
# The local validation lock

The pool turns down votes up to the greatest height that was marked as valid. The lock is raised by
submissions, by rivals that replace them, by quorums that are stashed and by quorums that turn out
to be on chain, and it is released for one height at a time. At every moment someone answers for a
lock above the finalized height (`Validation.Explains`): the submission in flight, a stashed quorum,
or the task itself. So in a run without a reversion or a change of the interval, when the task waits
with no submission and no stashed quorum, the lock is at a height that the runtime has reported as
attested (`locks_released`). -/

namespace Creditcoin.Attestor

variable {H A : Type}

/-! ## The lock and the stash of the pool -/

/-- The lock, the stash and the last finalized height are the same. -/
structure Pool.SameLocks (p p' : Pool H A) : Prop where
  lock : p'.locallyValidatedHeight = p.locallyValidatedHeight
  valid : p'.valid = p.valid
  finalized : p'.forks.lastFinalizedHeight = p.forks.lastFinalizedHeight

/-- The operations that concern votes and forks only. -/
def PoolAction.isVoting : PoolAction H A → Bool
  | .send _ => true
  | .noteAttestorsElected _ => true
  | .noteMaxCatchupChange _ => true
  | .noteQuorumChange _ => true
  | .markInvalid _ => true
  | .markSkipped _ => true
  | .defer _ => true
  | _ => false

namespace Pool

variable [DecidableEq H] [DecidableEq A] {p : Pool H A} {permit : Permit H} {n : ℕ}

theorem sameLocks_step {action : PoolAction H A} (h : action.isVoting = true) :
    p.SameLocks (p.step action) := by
  have hframe : ¬ action.Resets ∧ action.finalizes = none := by
    cases action <;> first | exact ⟨id, rfl⟩ | cases h
  have hlocks : (p.step action).locallyValidatedHeight = p.locallyValidatedHeight ∧
      (p.step action).valid = p.valid := by
    cases action with
    | send vote =>
      simp only [Pool.step]
      split
      · next hpush =>
        obtain ⟨-, -, forks, -, rfl⟩ := push_eq_ok hpush
        exact ⟨rfl, rfl⟩
      · exact ⟨rfl, rfl⟩
    | noteQuorumChange threshold =>
      simp only [Pool.step]
      split <;> exact ⟨rfl, rfl⟩
    | defer permit =>
      simp only [Pool.step, Pool.defer]
      split <;> exact ⟨rfl, rfl⟩
    | noteAttestorsElected _ | noteMaxCatchupChange _ | markInvalid _ | markSkipped _ =>
      exact ⟨rfl, rfl⟩
    | _ => cases h
  exact ⟨hlocks.1, hlocks.2, (p.step_frame hframe.1 hframe.2).2⟩

theorem lock_markValid (h : (p.markValid permit).locallyValidatedHeight = some n) :
    n = permit.height ∨ p.locallyValidatedHeight = some n ∧ permit.height ≤ n := by
  have h : some ((p.locallyValidatedHeight.map (max · permit.height)).getD permit.height) =
      some n := h
  rcases hlock : p.locallyValidatedHeight with _ | l
  · rw [hlock] at h
    exact .inl (Option.some.inj h).symm
  · rw [hlock] at h
    have h : max l permit.height = n := Option.some.inj h
    rcases max_choice l permit.height with hmax | hmax
    · exact .inr ⟨congrArg some (hmax.symm.trans h), h ▸ le_max_right _ _⟩
    · exact .inl (h.symm.trans hmax)

theorem lock_noteMajorityNotReached {height : ℕ}
    (h : (p.step (.noteMajorityNotReached height)).locallyValidatedHeight = some n) :
    p.locallyValidatedHeight = some n ∧ n ≠ height := by
  simp only [Pool.step] at h
  split at h
  · cases h
  · next hne => exact ⟨h, fun heq => hne (heq ▸ h)⟩

theorem valid_noteMajorityNotReached (p : Pool H A) (height : ℕ) :
    (p.step (.noteMajorityNotReached height)).valid = p.valid ∧
      (p.step (.noteMajorityNotReached height)).forks = p.forks := by
  simp only [Pool.step]
  split <;> exact ⟨rfl, rfl⟩

theorem lookup_takeNextValidated {stashed : SignedQuorum H A}
    (h : p.firstValidated.bind p.valid.lookup = some stashed) (height : ℕ) :
    (p.step .takeNextValidated).valid.lookup height =
      if p.firstValidated = some height then none else p.valid.lookup height := by
  obtain ⟨first, hfirst, -⟩ := Option.bind_eq_some_iff.1 h
  simp only [Pool.step, hfirst, StorageMap.lookup_erase_eq, Option.some.injEq]
  by_cases heq : height = first
  · simp [heq]
  · simp [heq, Ne.symm heq]

end Pool

/-! ## The heights of quorums -/

theorem aggregateAndValidate_height [DecidableEq H] {keccak : ℕ → H → Option H → H}
    {answers : QuorumAnswers H A} {quorum : Quorum H A} {digestLocal : Option H} {genesis : ℕ}
    {agg : Aggregated H A}
    (h : aggregateAndValidate keccak answers quorum digestLocal genesis = .ok agg) :
    agg.height = quorum.height := by
  simp only [aggregateAndValidate, bind_eq_ok, ensure_eq_ok, okOr_eq_ok, pure_eq_ok] at h
  obtain ⟨_, -, _, -, _, -, _, -, _, -, _, -, _, -, _, -, _, -, _, -, rfl⟩ := h
  rfl

theorem revalidateStashed_height {answers : StashAnswers A} {stashed : SignedQuorum H A}
    {agg : Aggregated H A} (h : revalidateStashed answers stashed = some agg) :
    agg.height = stashed.height := by
  simp only [revalidateStashed, Option.bind_eq_bind, Option.bind_eq_some_iff] at h
  obtain ⟨_, -, _, -, h⟩ := h
  split at h
  · obtain ⟨signed, -, h⟩ := Option.bind_eq_some_iff.1 h
    cases h
    rfl
  · cases h
    rfl

/-! ## Who answers for a lock -/

/-- The height that the task has in hand. -/
def ValidationTurn.holding : ValidationTurn H A → Option ℕ
  | .settling submission _ =>
    if submission.outcome.shouldUnlockIfUnfinalized then some submission.height else none
  | .unlocking submission => some submission.height
  | .anchoring stashed _ _ => some stashed.height
  | .revalidating stashed _ _ => some stashed.height
  | .dropping height _ _ => some height
  | _ => none

/-- The task deals with a submission that has ended. -/
def ValidationTurn.isSettling : ValidationTurn H A → Bool
  | .settling _ _ => true
  | .unlocking _ => true
  | .draining _ _ => true
  | .anchoring _ _ _ => true
  | .revalidating _ _ _ => true
  | .dropping _ _ _ => true
  | _ => false

/-- The permit is that of the quorum. -/
def ValidationTurn.Permitted : ValidationTurn H A → Prop
  | .received quorum permit => quorum.height = permit.height
  | .validating quorum permit _ => quorum.height = permit.height
  | .committing agg permit _ => agg.height = permit.height
  | _ => True

/-- The actions that reset the pool: a reversion, and a change of the interval. -/
def ValidationAction.Resets : ValidationAction H A → Prop
  | .shared action => action.Resets
  | .reverted _ => True
  | _ => False

namespace Validation

variable {v v' : Validation H A} {n : ℕ}

/-- The pool knows that the height is finalized. -/
def Finalized (v : Validation H A) (n : ℕ) : Prop :=
  ∃ m ∈ v.pool.forks.lastFinalizedHeight, n ≤ m

/-- A lock is finalized or attested, or someone is still at work on it. -/
def Explains (v : Validation H A) (n : ℕ) : Prop :=
  v.Finalized n ∨ n ∈ v.reported ∨ (∃ inFlight ∈ v.inFlight, inFlight.height = n) ∨
    (∃ stashed, v.pool.valid.lookup n = some stashed) ∨ v.turn.holding = some n

/-- The invariant of runs without a reversion and without a change of the interval. -/
structure Accounted (v : Validation H A) : Prop where
  told : ∀ info ∈ v.latestFinalized, v.Finalized info.height
  known : v.latestCc3.map (·.height) = v.pool.forks.lastFinalizedHeight
  keyed : ∀ {k stashed}, v.pool.valid.lookup k = some stashed → stashed.height = k
  permitted : v.turn.Permitted
  alone : v.turn.isSettling = true → v.inFlight = none
  seen : ∀ inFlight ∈ v.inFlight, inFlight.outcome = some .finalized → v.Finalized inFlight.height
  answered : ∀ inFlight ∈ v.inFlight, ∀ outcome ∈ inFlight.outcome,
    outcome.reportsAttested = true → inFlight.height ∈ v.reported
  locked : ∀ n ∈ v.pool.locallyValidatedHeight, v.Explains n

theorem Finalized.of_eq (h : v.Finalized n)
    (heq : v'.pool.forks.lastFinalizedHeight = v.pool.forks.lastFinalizedHeight) :
    v'.Finalized n := by
  unfold Finalized
  rwa [heq]

theorem Explains.mono (h : v.Explains n)
    (hfinalized : v'.pool.forks.lastFinalizedHeight = v.pool.forks.lastFinalizedHeight)
    (hreported : v.reported ⊆ v'.reported)
    (hflight : ∀ inFlight ∈ v.inFlight, inFlight.height = n → v'.Explains n)
    (hstash : ∀ stashed, v.pool.valid.lookup n = some stashed → v'.Explains n)
    (hholding : v.turn.holding = some n → v'.Explains n) : v'.Explains n := by
  obtain hfin | hrep | ⟨inFlight, hmem, hheight⟩ | ⟨stashed, hlookup⟩ | hhold := h
  · exact .inl (hfin.of_eq hfinalized)
  · exact .inr (.inl (hreported hrep))
  · exact hflight inFlight hmem hheight
  · exact hstash stashed hlookup
  · exact hholding hhold

theorem explains_of_inFlight {inFlight : InFlight H A} (h : inFlight ∈ v.inFlight)
    (hheight : inFlight.height = n) : v.Explains n :=
  .inr (.inr (.inl ⟨inFlight, h, hheight⟩))

theorem explains_of_stashed {stashed : SignedQuorum H A}
    (h : v.pool.valid.lookup n = some stashed) : v.Explains n :=
  .inr (.inr (.inr (.inl ⟨stashed, h⟩)))

theorem explains_of_holding (h : v.turn.holding = some n) : v.Explains n :=
  .inr (.inr (.inr (.inr h)))

namespace Accounted

theorem finalized_of_isFinalized (h : v.Accounted) (hfinal : v.isFinalized n = true) :
    v.Finalized n := by
  unfold isFinalized at hfinal
  rcases hinfo : v.latestFinalized with _ | info
  · rw [hinfo] at hfinal
    cases hfinal
  · rw [hinfo] at hfinal
    obtain ⟨m, hm, hle⟩ := h.told info hinfo
    exact ⟨m, hm, (of_decide_eq_true hfinal).trans hle⟩

/-- A step of the validation task: nothing is finalized, and what is in flight afterwards was so
before or has just been spawned. -/
theorem of_task (h : v.Accounted)
    (hfinalized : v'.pool.forks.lastFinalizedHeight = v.pool.forks.lastFinalizedHeight)
    (hwatch : v'.latestFinalized = v.latestFinalized) (hcc3 : v'.latestCc3 = v.latestCc3)
    (hreported : v.reported ⊆ v'.reported)
    (hflight : ∀ inFlight ∈ v'.inFlight, inFlight ∈ v.inFlight ∨ inFlight.outcome = none)
    (hkeyed : ∀ {k stashed}, v'.pool.valid.lookup k = some stashed → stashed.height = k)
    (hpermitted : v'.turn.Permitted) (halone : v'.turn.isSettling = true → v'.inFlight = none)
    (hlocked : ∀ n ∈ v'.pool.locallyValidatedHeight, v'.Explains n) : v'.Accounted where
  told info hinfo := (h.told info (hwatch ▸ hinfo)).of_eq hfinalized
  known := by rw [hcc3, hfinalized, h.known]
  keyed := hkeyed
  permitted := hpermitted
  alone := halone
  seen inFlight hmem hout := by
    rcases hflight inFlight hmem with hmem | hnone
    · exact (h.seen inFlight hmem hout).of_eq hfinalized
    · rw [hnone] at hout
      cases hout
  answered inFlight hmem outcome hout hrep := by
    rcases hflight inFlight hmem with hmem | hnone
    · exact hreported (h.answered inFlight hmem outcome hout hrep)
    · rw [hnone] at hout
      cases hout
  locked := hlocked

/-! ### Steps that leave the pool alone -/

variable {turn : ValidationTurn H A}

theorem setTurn (h : v.Accounted) (hpermitted : turn.Permitted)
    (halone : turn.isSettling = true → v.turn.isSettling = true)
    (hholding : ∀ n ∈ v.turn.holding, v.Finalized n ∨ turn.holding = some n) :
    Accounted { v with turn := turn } := by
  refine h.of_task rfl rfl rfl subset_rfl (fun _ hmem => .inl hmem) h.keyed hpermitted
    (fun hsettling => h.alone (halone hsettling)) fun n hn => ?_
  refine (h.locked n hn).mono rfl subset_rfl (fun _ hf hheight => explains_of_inFlight hf hheight)
    (fun _ hs => explains_of_stashed hs) fun hhold => ?_
  rcases hholding n hhold with hfin | hhold
  · exact .inl hfin
  · exact explains_of_holding hhold

theorem setTurn_of_free (h : v.Accounted) (hpermitted : turn.Permitted)
    (halone : turn.isSettling = true → v.turn.isSettling = true)
    (hholding : v.turn.holding = none) : Accounted { v with turn := turn } := by
  refine h.setTurn hpermitted halone fun n hn => ?_
  rw [hholding] at hn
  cases hn

theorem leave (h : v.Accounted) {inFlight : InFlight H A} {outcome : SubmissionOutcome}
    (hflight : v.inFlight = some inFlight) (hout : inFlight.outcome = some outcome)
    (hwaiting : v.turn.holding = none)
    (hlock : outcome.unlocks = true → v.pool.locallyValidatedHeight ≠ some inFlight.height)
    (unlocked : Bool) :
    Accounted { v with
      inFlight := none
      turn := .settling ⟨inFlight.height, outcome, inFlight.votes⟩ unlocked } := by
  refine h.of_task rfl rfl rfl subset_rfl nofun h.keyed trivial (fun _ => rfl) fun n hn => ?_
  refine (h.locked n hn).mono rfl subset_rfl (fun f hf hheight => ?_)
    (fun _ hs => explains_of_stashed hs) fun hhold => ?_
  · obtain rfl : inFlight = f := Option.mem_unique hflight hf
    subst hheight
    have hseen := h.seen inFlight hflight
    have hanswered := h.answered inFlight hflight outcome hout
    -- Each outcome unlocks the height, explains the lock, or leaves the height in hand.
    cases outcome with
    | finalized => exact .inl (hseen hout)
    | unresolved => exact explains_of_holding rfl
    | eligible result =>
      cases result with
      | success => exact .inr (.inl (hanswered rfl))
      | attestationExists => exact .inr (.inl (hanswered rfl))
      | invalidTransaction => exact explains_of_holding rfl
      | majorityNotReached => exact absurd hn (hlock rfl)
      | rejected => exact absurd hn (hlock rfl)
      | rpcError => exact absurd hn (hlock rfl)
  · rw [hwaiting] at hhold
    cases hhold

theorem settle (h : v.Accounted) {submission : Submission H A} {unlocked : Bool}
    (hsettling : v.turn = .settling submission unlocked) :
    (v.settle submission unlocked).Accounted := by
  have hholding : v.turn.holding = if submission.outcome.shouldUnlockIfUnfinalized then
      some submission.height else none := by rw [hsettling]; rfl
  have halone : v.turn.isSettling = true := by rw [hsettling]; rfl
  unfold Validation.settle
  cases hunlock : submission.outcome.shouldUnlockIfUnfinalized with
  | false =>
    rw [hunlock] at hholding
    exact h.setTurn_of_free trivial (fun _ => halone) hholding
  | true =>
    rw [hunlock, if_pos rfl] at hholding
    cases hfinal : v.isFinalized submission.height with
    | false => exact h.setTurn trivial (fun _ => halone) fun n hn => .inr (hholding.symm.trans hn)
    | true =>
      refine h.setTurn trivial (fun _ => halone) fun n hn => .inl ?_
      obtain rfl : submission.height = n := Option.mem_unique hholding hn
      exact h.finalized_of_isFinalized hfinal

theorem reopen (h : v.Accounted) (hholding : v.turn.holding = none) (submission : Submission H A)
    (unlocked : Bool) : (v.reopen submission unlocked).Accounted := by
  have hbudget : ∀ budget, Accounted { v with reinjectBudget := budget } := fun budget =>
    ⟨h.told, h.known, h.keyed, h.permitted, h.alone, h.seen, h.answered, h.locked⟩
  unfold Validation.reopen
  split
  · refine (hbudget (takeReinjectBudget v.reinjectBudget submission.height).2).setTurn_of_free
      ?_ ?_ hholding
    · split <;> trivial
    · split <;> nofun
  · exact h.setTurn_of_free trivial nofun hholding

theorem revalidated (h : v.Accounted) {answers : StashAnswers A}
    (hstep : v.revalidated answers = some v') : v'.Accounted := by
  unfold Validation.revalidated at hstep
  split at hstep
  · next stashed submission unlocked hturn =>
    have hholding : v.turn.holding = some stashed.height := by rw [hturn]; rfl
    cases hstep
    split
    · next agg hagg =>
      have hheight := revalidateStashed_height hagg
      have hspawned : ∀ inFlight ∈ some (spawnSubmission agg), inFlight.outcome = none := by
        rintro inFlight ⟨⟩
        rfl
      refine h.of_task rfl rfl rfl subset_rfl (fun f hf => .inr (hspawned f hf)) h.keyed trivial
        nofun fun n hn => ?_
      refine (h.locked n hn).mono rfl subset_rfl (fun f hf hn => ?_)
        (fun _ hs => explains_of_stashed hs) fun hhold => ?_
      · rw [h.alone (by rw [hturn]; rfl)] at hf
        cases hf
      · rw [hholding] at hhold
        exact explains_of_inFlight rfl (hheight.trans (Option.some.inj hhold))
    · exact h.setTurn trivial (fun _ => by rw [hturn]; rfl) fun n hn =>
        .inr (hholding.symm.trans hn)
  · cases hstep

theorem claimBroadcast (h : v.Accounted) (hstep : v.claimBroadcast = some v') : v'.Accounted := by
  unfold Validation.claimBroadcast at hstep
  split at hstep
  · next inFlight hflight =>
    split at hstep
    · next hnone =>
      cases hstep
      refine h.of_task rfl rfl rfl subset_rfl (fun f hf => ?_) h.keyed h.permitted
        (fun hsettling => ?_) fun n hn => ?_
      · cases hf
        exact .inr (Option.isNone_iff_eq_none.1 hnone)
      · exact absurd (h.alone hsettling) (by simp [hflight])
      · refine (h.locked n hn).mono rfl subset_rfl (fun f hf hheight => ?_)
          (fun _ hs => explains_of_stashed hs) fun hhold => explains_of_holding hhold
        obtain rfl : inFlight = f := Option.mem_unique hflight hf
        exact explains_of_inFlight rfl hheight
    · cases hstep
  · cases hstep

theorem resolve (h : v.Accounted) {outcome : SubmissionOutcome}
    (hstep : v.resolve outcome = some v') : v'.Accounted := by
  unfold Validation.resolve at hstep
  split at hstep
  · next inFlight hflight =>
    split at hstep
    · next hmay =>
      cases hstep
      have hmay := (Bool.and_eq_true_iff.1 hmay).2
      have hreported : v.reported ⊆
          if outcome.reportsAttested then insert inFlight.height v.reported else v.reported := by
        split
        · exact Finset.subset_insert _ _
        · exact subset_rfl
      refine ⟨h.told, h.known, h.keyed, h.permitted, fun hsettling => ?_, ?_, ?_, fun n hn => ?_⟩
      · exact absurd (h.alone hsettling) (by simp [hflight])
      · rintro f ⟨⟩ hout
        cases hout
        exact h.finalized_of_isFinalized hmay
      · rintro f ⟨⟩ o ⟨⟩ hrep
        show inFlight.height ∈ if _ then _ else _
        rw [if_pos hrep]
        exact Finset.mem_insert_self _ _
      · refine (h.locked n hn).mono rfl hreported (fun f hf hheight => ?_)
          (fun _ hs => explains_of_stashed hs) fun hhold => explains_of_holding hhold
        obtain rfl : inFlight = f := Option.mem_unique hflight hf
        exact explains_of_inFlight rfl hheight
    · cases hstep
  · cases hstep

theorem tell (h : v.Accounted) : Accounted { v with latestFinalized := v.latestCc3 } := by
  refine ⟨fun info hinfo => ⟨info.height, ?_, le_rfl⟩, h.known, h.keyed, h.permitted, h.alone,
    h.seen, h.answered, h.locked⟩
  rw [← h.known]
  exact Option.mem_map_of_mem _ hinfo

variable [DecidableEq H]

theorem receive (h : v.Accounted) {digestOrd : H → ℕ} (hstep : v.receive digestOrd = some v') :
    v'.Accounted := by
  unfold Validation.receive at hstep
  split at hstep
  · next hwaiting =>
    obtain ⟨⟨quorum, permit⟩, hpeek, rfl⟩ := Option.map_eq_some_iff.1 hstep
    obtain ⟨fork, -, heq⟩ := Option.map_eq_some_iff.1 hpeek
    cases heq
    exact h.setTurn_of_free rfl nofun (by rw [hwaiting]; rfl)
  · cases hstep

theorem anchor (h : v.Accounted) {stashed : SignedQuorum H A} {submission : Submission H A}
    {unlocked : Bool} (hanchoring : v.turn = .anchoring stashed submission unlocked)
    (genesis : ℕ) : (v.anchor genesis stashed submission unlocked).Accounted := by
  have hholding : v.turn.holding = some stashed.height := by rw [hanchoring]; rfl
  have halone : v.turn.isSettling = true := by rw [hanchoring]; rfl
  unfold Validation.anchor
  split <;> exact h.setTurn trivial (fun _ => halone) fun n hn => .inr (hholding.symm.trans hn)

/-! ### Steps that leave the lock alone -/

variable [DecidableEq A]

theorem onPool (h : v.Accounted) (action : PoolAction H A) (haction : action.isVoting = true) :
    (v.onPool action).Accounted := by
  obtain ⟨hlock, hvalid, hfinalized⟩ := v.pool.sameLocks_step haction
  refine h.of_task hfinalized rfl rfl subset_rfl (fun _ hmem => .inl hmem)
    (fun hlookup => h.keyed (hvalid ▸ hlookup)) h.permitted h.alone fun n hn => ?_
  exact (h.locked n (hlock ▸ hn)).mono hfinalized subset_rfl
    (fun _ hf hheight => explains_of_inFlight hf hheight)
    (fun _ hstash => explains_of_stashed (hvalid.symm ▸ hstash))
    fun hhold => explains_of_holding hhold

theorem waitAfter (h : v.Accounted) (action : PoolAction H A) (haction : action.isVoting = true)
    (hholding : v.turn.holding = none) :
    Accounted { v.onPool action with turn := .waiting } :=
  (h.onPool action haction).setTurn_of_free trivial nofun hholding

variable {permit : Permit H}

theorem handleQuorum (h : v.Accounted) {quorum : Quorum H A}
    (hreceived : v.turn = .received quorum permit) : (v.handleQuorum quorum permit).Accounted := by
  have hpermit := h.permitted
  rw [hreceived] at hpermit
  have hholding : v.turn.holding = none := by rw [hreceived]; rfl
  unfold Validation.handleQuorum
  split
  · exact h.waitAfter (.markSkipped permit) rfl hholding
  · exact h.setTurn_of_free hpermit nofun hholding

theorem takeStashed (h : v.Accounted) (hsettling : v.turn.isSettling = true)
    (hholding : v.turn.holding = none) (submission : Submission H A) (unlocked : Bool) :
    (v.takeStashed submission unlocked).Accounted := by
  unfold Validation.takeStashed
  split
  · next stashed hnext =>
    have hlookup := Pool.lookup_takeNextValidated hnext
    have hpool : (v.pool.step .takeNextValidated).locallyValidatedHeight =
        v.pool.locallyValidatedHeight ∧
          (v.pool.step .takeNextValidated).forks = v.pool.forks := by
      simp only [Pool.step]
      split <;> exact ⟨rfl, rfl⟩
    have hfinalized := congrArg Forks.lastFinalizedHeight hpool.2
    refine h.of_task hfinalized rfl rfl subset_rfl (fun _ hmem => .inl hmem) (fun {k q} hq => ?_)
      trivial (fun _ => h.alone hsettling) fun n hn => ?_
    · have hq : (v.pool.step .takeNextValidated).valid.lookup k = some q := hq
      rw [hlookup] at hq
      split at hq
      · cases hq
      · exact h.keyed hq
    · refine (h.locked n (hpool.1 ▸ hn)).mono hfinalized subset_rfl
        (fun _ hf hheight => explains_of_inFlight hf hheight) (fun q hq => ?_) fun hhold => ?_
      · by_cases hfirst : v.pool.firstValidated = some n
        · -- It is the one that was taken.
          have hq' : v.nextValidated = some q := by rw [nextValidated, hfirst]; exact hq
          obtain rfl : stashed = q := Option.mem_unique hnext hq'
          exact explains_of_holding (congrArg some (h.keyed hq))
        · refine .inr (.inr (.inr (.inl ⟨q, ?_⟩)))
          exact (hlookup n).trans ((if_neg hfirst).trans hq)
      · rw [hholding] at hhold
        cases hhold
  · exact h.setTurn_of_free trivial (fun _ => hsettling) hholding

theorem blockAttested (h : v.Accounted) (info : AttestationInfo H) :
    (v.blockAttested info).Accounted := by
  unfold Validation.blockAttested
  split
  · next hall =>
    have hbelow : ∀ n, v.Finalized n → n ≤ info.height := by
      rintro n ⟨m, hm, hle⟩
      rw [← h.known] at hm
      obtain ⟨latest, hlatest, rfl⟩ := Option.mem_map.1 hm
      rw [Option.mem_def.1 hlatest] at hall
      exact hle.trans (of_decide_eq_true hall).le
    have hfin : ∀ n, n ≤ info.height → Finalized { v.onPool (.noteAttestationFinalization
        info.height info.digest) with latestCc3 := some info } n :=
      fun n hle => ⟨info.height, rfl, hle⟩
    have hlookup : ∀ k, (v.pool.dropUpTo info.height).lookup k =
        if satAdd u64Max info.height 1 ≤ k then v.pool.valid.lookup k else none := by
      intro k
      rw [Pool.dropUpTo, StorageMap.lookup_retain]
      simp only [decide_eq_true_eq]
    refine ⟨fun i hi => hfin _ (hbelow _ (h.told i hi)), rfl, fun {k q} hq => ?_, h.permitted,
      h.alone, fun f hf hout => hfin _ (hbelow _ (h.seen f hf hout)), h.answered, fun n hn => ?_⟩
    · have hq : (v.pool.dropUpTo info.height).lookup k = some q := hq
      rw [hlookup] at hq
      split at hq
      · exact h.keyed hq
      · cases hq
    · obtain hfinal | hrep | hflight | ⟨q, hq⟩ | hhold := h.locked n hn
      · exact .inl (hfin n (hbelow n hfinal))
      · exact .inr (.inl hrep)
      · exact .inr (.inr (.inl hflight))
      · by_cases hle : satAdd u64Max info.height 1 ≤ n
        · refine .inr (.inr (.inr (.inl ⟨q, ?_⟩)))
          exact (hlookup n).trans ((if_pos hle).trans hq)
        · refine .inl (hfin n ?_)
          have hsat := satAdd_le u64Max info.height 1
          omega
      · exact explains_of_holding hhold
  · exact h

/-! ### Steps that release the lock -/

theorem unlock (h : v.Accounted) {height : ℕ} (hpermitted : turn.Permitted)
    (halone : turn.isSettling = true → v.turn.isSettling = true)
    (hholding : ∀ n ∈ v.turn.holding, n = height) :
    Accounted { v.onPool (.noteMajorityNotReached height) with turn := turn } := by
  obtain ⟨hvalid, hforks⟩ := v.pool.valid_noteMajorityNotReached height
  have hfinalized := congrArg Forks.lastFinalizedHeight hforks
  refine h.of_task hfinalized rfl rfl subset_rfl (fun _ hmem => .inl hmem)
    (fun hlookup => h.keyed (hvalid ▸ hlookup)) hpermitted
    (fun hsettling => h.alone (halone hsettling)) fun n hn => ?_
  obtain ⟨hn, hne⟩ := Pool.lock_noteMajorityNotReached hn
  exact (h.locked n hn).mono hfinalized subset_rfl
    (fun _ hf hheight => explains_of_inFlight hf hheight)
    (fun _ hstash => explains_of_stashed (hvalid.symm ▸ hstash))
    fun hhold => absurd (hholding n hhold) hne

theorem join (h : v.Accounted) (hstep : v.join = some v') : v'.Accounted := by
  unfold Validation.join at hstep
  split at hstep
  · next inFlight hwaiting hflight =>
    obtain ⟨outcome, hout, rfl⟩ := Option.map_eq_some_iff.1 hstep
    have hholding : v.turn.holding = none := by rw [hwaiting]; rfl
    cases hunlocks : outcome.unlocks with
    | true =>
      have hunlock : Accounted { v.onPool (.noteMajorityNotReached inFlight.height) with
          turn := v.turn } :=
        h.unlock h.permitted id fun n hn => by rw [hholding] at hn; cases hn
      exact hunlock.leave hflight hout hholding
        (fun _ hlock => (Pool.lock_noteMajorityNotReached hlock).2 rfl) true
    | false => exact h.leave hflight hout hholding (fun heq => by simp [hunlocks] at heq) false
  · cases hstep

/-! ### Steps that raise the lock -/

theorem onChain (h : v.Accounted) {quorum : Quorum H A} (hpermit : quorum.height = permit.height)
    (hholding : v.turn.holding = none) :
    Accounted { v.onPool (.markValid permit) with
      turn := .waiting
      reported := insert quorum.height v.reported } := by
  have hfinalized := (v.pool.forks.splitOff_eq permit.height).2.2.1
  refine h.of_task hfinalized rfl rfl (Finset.subset_insert _ _) (fun _ hmem => .inl hmem) h.keyed
    trivial nofun fun n hn => ?_
  rcases Pool.lock_markValid hn with rfl | ⟨hn, -⟩
  · exact .inr (.inl (hpermit ▸ Finset.mem_insert_self _ _))
  · refine (h.locked n hn).mono hfinalized (Finset.subset_insert _ _)
      (fun _ hf hheight => explains_of_inFlight hf hheight) (fun _ hs => explains_of_stashed hs)
      fun hhold => ?_
    rw [hholding] at hhold
    cases hhold

theorem submit (h : v.Accounted) {agg : Aggregated H A} (hpermit : agg.height = permit.height)
    (hholding : v.turn.holding = none)
    (hlower : ∀ inFlight ∈ v.inFlight, inFlight.height < agg.height) :
    Accounted { v.onPool (.markValid permit) with
      inFlight := some (spawnSubmission agg)
      turn := .waiting } := by
  have hfinalized := (v.pool.forks.splitOff_eq permit.height).2.2.1
  have hspawned : ∀ inFlight ∈ some (spawnSubmission agg), inFlight.outcome = none := by
    rintro inFlight ⟨⟩
    rfl
  refine h.of_task hfinalized rfl rfl subset_rfl (fun f hf => .inr (hspawned f hf)) h.keyed
    trivial nofun fun n hn => ?_
  rcases Pool.lock_markValid hn with rfl | ⟨hn, hle⟩
  · exact explains_of_inFlight rfl hpermit
  · refine (h.locked n hn).mono hfinalized subset_rfl (fun f hf hheight => ?_)
      (fun _ hs => explains_of_stashed hs) fun hhold => ?_
    · have hlt := hlower f hf
      omega
    · rw [hholding] at hhold
      cases hhold

theorem stash (h : v.Accounted) {signed : SignedQuorum H A}
    (hpermit : signed.height = permit.height) (hholding : v.turn.holding = none) :
    Accounted { v.onPool (.markForLater permit signed) with turn := .waiting } := by
  have hfinalized := (v.pool.forks.splitOff_eq permit.height).2.2.1
  have hlookup : ∀ k, (v.pool.valid.insert signed.height signed).lookup k =
      if k = signed.height then some signed else v.pool.valid.lookup k :=
    fun k => StorageMap.lookup_insert_eq _ _ _ _
  refine h.of_task hfinalized rfl rfl subset_rfl (fun _ hmem => .inl hmem) (fun {k q} hq => ?_)
    trivial nofun fun n hn => ?_
  · have hq : (v.pool.valid.insert signed.height signed).lookup k = some q := hq
    rw [hlookup] at hq
    split at hq
    · next hk =>
      cases hq
      exact hk.symm
    · exact h.keyed hq
  · have hstashed : ∀ {q}, (n = signed.height ∨ v.pool.valid.lookup n = some q) →
        Explains { v.onPool (.markForLater permit signed) with turn := .waiting } n := by
      intro q hq
      refine .inr (.inr (.inr (.inl ?_)))
      show ∃ q, (v.pool.valid.insert signed.height signed).lookup n = some q
      rw [hlookup]
      split
      · exact ⟨signed, rfl⟩
      · next hne => exact ⟨q, hq.resolve_left hne⟩
    rcases Pool.lock_markValid hn with heq | ⟨hn, -⟩
    · exact hstashed (q := signed) (.inl (heq.trans hpermit.symm))
    · refine (h.locked n hn).mono hfinalized subset_rfl
        (fun _ hf hheight => explains_of_inFlight hf hheight) (fun q hq => hstashed (.inr hq))
        fun hhold => ?_
      rw [hholding] at hhold
      cases hhold

theorem commit (h : v.Accounted) {agg : Aggregated H A} (hpermit : agg.height = permit.height)
    (hholding : v.turn.holding = none) (finalized : Option H) :
    (v.commit agg permit finalized).Accounted := by
  unfold Validation.commit
  split
  · next hall =>
    refine h.submit hpermit hholding fun inFlight hmem => ?_
    have hpreempt : inFlight.preempt agg finalized = true := by
      rw [Option.mem_def.1 hmem] at hall
      exact hall
    exact (of_decide_eq_true hpreempt).1
  · exact h.stash hpermit hholding

theorem validated (h : v.Accounted) {keccak : ℕ → H → Option H → H} {genesis : ℕ}
    {answers : QuorumAnswers H A} (hstep : v.validated keccak genesis answers = some v') :
    v'.Accounted := by
  unfold Validation.validated at hstep
  split at hstep
  · next quorum permit digestLocal hturn =>
    have hpermit := h.permitted
    rw [hturn] at hpermit
    have hholding : v.turn.holding = none := by rw [hturn]; rfl
    cases hstep
    split
    · next agg hagg =>
      exact h.setTurn_of_free ((aggregateAndValidate_height hagg).trans hpermit) nofun hholding
    · exact h.waitAfter (.markInvalid permit) rfl hholding
    · exact h.onChain hpermit hholding
    · exact h.waitAfter (.markSkipped permit) rfl hholding
    · exact h.waitAfter (.defer permit) rfl hholding
    · exact h.setTurn_of_free trivial nofun hholding
  · cases hstep

/-! ### All steps of the task -/

theorem proceed (h : v.Accounted) {genesis : ℕ} (hstep : v.proceed genesis = some v') :
    v'.Accounted := by
  have hpermitted := h.permitted
  unfold Validation.proceed at hstep
  split at hstep
  · next hturn =>
    cases hstep
    exact h.handleQuorum hturn
  · next hturn =>
    rw [hturn] at hpermitted
    cases hstep
    exact h.commit hpermitted (by rw [hturn]; rfl) _
  · next hturn =>
    cases hstep
    exact h.settle hturn
  · next hturn =>
    cases hstep
    refine h.unlock trivial (fun _ => by rw [hturn]; rfl) fun n hn => ?_
    rw [hturn] at hn
    exact (Option.some.inj hn).symm
  · next hturn =>
    cases hstep
    exact h.takeStashed (by rw [hturn]; rfl) (by rw [hturn]; rfl) _ _
  · next hturn =>
    cases hstep
    exact h.anchor hturn genesis
  · next hturn =>
    cases hstep
    refine h.unlock trivial (fun _ => by rw [hturn]; rfl) fun n hn => ?_
    rw [hturn] at hn
    exact (Option.some.inj hn).symm
  · next hturn =>
    cases hstep
    exact h.reopen (by rw [hturn]; rfl) _ _
  · next vote votes hturn =>
    cases hstep
    exact (h.onPool (.send vote) rfl).setTurn_of_free trivial nofun
      (by show v.turn.holding = none; rw [hturn]; rfl)
  · next hturn =>
    cases hstep
    exact h.setTurn_of_free trivial nofun (by rw [hturn]; rfl)
  · cases hstep

end Accounted

/-! ## Runs -/

section Run

variable [DecidableEq H] [DecidableEq A] {digestOrd : H → ℕ} {keccak : ℕ → H → Option H → H}
  {genesis : ℕ}

omit [DecidableEq H] in
theorem accounted_new (config : PoolConfig H A) (startAttestation : Option (AttestationInfo H)) :
    (new config startAttestation).Accounted where
  told info hinfo := ⟨info.height, Option.mem_map_of_mem _ hinfo, le_rfl⟩
  known := rfl
  keyed hlookup := absurd hlookup (by simp [new, Pool.new])
  permitted := trivial
  alone := nofun
  seen := nofun
  answered := nofun
  locked := nofun

/-- **Every step** keeps the accounts, unless it resets the pool. -/
theorem Accounted.step (h : v.Accounted) {action : ValidationAction H A}
    (haction : ¬ action.Resets)
    (hstep : v.step digestOrd keccak genesis action = some v') : v'.Accounted := by
  cases action with
  | shared action =>
    have hstep : (if action.isShared then some (v.onPool action) else none) = some v' := hstep
    split at hstep
    · next hshared =>
      cases hstep
      refine h.onPool action ?_
      cases action <;> first | rfl | exact absurd trivial haction | cases hshared
    · cases hstep
  | attested info =>
    cases hstep
    exact h.blockAttested info
  | reverted info => exact absurd trivial haction
  | tell =>
    cases hstep
    exact h.tell
  | broadcast => exact h.claimBroadcast hstep
  | resolve outcome => exact h.resolve hstep
  | receive => exact h.receive hstep
  | validated answers => exact h.validated hstep
  | join => exact h.join hstep
  | revalidated answers => exact h.revalidated hstep
  | proceed => exact h.proceed hstep

theorem Accounted.run (h : v.Accounted) {actions : List (ValidationAction H A)}
    (hactions : ∀ action ∈ actions, ¬ action.Resets)
    (hrun : v.run digestOrd keccak genesis actions = some v') : v'.Accounted := by
  induction actions generalizing v with
  | nil =>
    cases hrun
    exact h
  | cons action actions ih =>
    obtain ⟨v₁, hstep, hrun⟩ := Option.bind_eq_some_iff.1 hrun
    obtain ⟨haction, hactions⟩ := List.forall_mem_cons.1 hactions
    exact ih (h.step haction hstep) hactions hrun

end Run

end Validation

/-- **Locks are released.** In every run of the validation task next to the others, without a
reversion and without a change of the interval: whenever the task waits with no submission in flight
and no stashed quorum, a lock above the last finalized height is at a height that the runtime has
reported as attested. -/
theorem locks_released [DecidableEq H] [DecidableEq A] (digestOrd : H → ℕ)
    (keccak : ℕ → H → Option H → H) (genesis : ℕ) (config : PoolConfig H A)
    (startAttestation : Option (AttestationInfo H))
    {actions : List (ValidationAction H A)} {v : Validation H A} {n : ℕ}
    (hactions : ∀ action ∈ actions, ¬ action.Resets)
    (hrun : (Validation.new config startAttestation).run digestOrd keccak genesis actions = some v)
    (hwaiting : v.turn = .waiting) (hflight : v.inFlight = none) (hstash : v.pool.valid = ∅)
    (hlock : v.pool.locallyValidatedHeight = some n)
    (habove : ∀ m ∈ v.pool.forks.lastFinalizedHeight, m < n) : n ∈ v.reported := by
  have h := (Validation.accounted_new config startAttestation).run hactions hrun
  obtain ⟨m, hm, hle⟩ | hrep | ⟨f, hf, -⟩ | ⟨q, hq⟩ | hhold := h.locked n hlock
  · exact absurd (habove m hm) (not_lt.2 hle)
  · exact hrep
  · rw [hflight] at hf
    cases hf
  · rw [hstash, StorageMap.lookup_empty_eq] at hq
    cases hq
  · rw [hwaiting] at hhold
    cases hhold

/-! ## A chain that starts -/

namespace LoneValidator

/-- What the only attestor learns about the first block, which has an empty proof. -/
def answers : QuorumAnswers ℕ ℕ where
  isChainSupported := some true
  containsDigest := some false
  active _ := true
  quorum := some 1
  cached := some ⟨⟨1, 10, 10, 10, none, by decide⟩, ⟨0, []⟩⟩
  fetchLastFinalized := some none
  shuffle := id
  aggregate := List.head?

/-- The block is submitted, and the runtime accepts it. -/
def actions : List (ValidationAction ℕ ℕ) :=
  [.shared (.send loneVote), .receive, .proceed, .validated answers, .proceed, .broadcast,
    .resolve (.eligible .success), .join, .proceed, .proceed, .proceed]

/-- The lock on block `10` stays until the block is finalized. -/
theorem tenth_reported :
    ∃ v, (Validation.new loneConfig none).run id (fun n _ _ => n) 10 actions = some v ∧
      v.pool.locallyValidatedHeight = some 10 ∧ 10 ∈ v.reported := by
  have hrun : (Validation.new loneConfig none).run id (fun n _ _ => n) 10 actions = some _ := rfl
  refine ⟨_, hrun, rfl, ?_⟩
  refine locks_released id (fun n _ _ => n) 10 loneConfig none ?_ hrun rfl rfl rfl rfl nofun
  simp [actions, ValidationAction.Resets, PoolAction.Resets]

end LoneValidator

end Creditcoin.Attestor
