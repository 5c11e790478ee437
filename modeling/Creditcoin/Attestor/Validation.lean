import Creditcoin.Attestor.Pool
import Creditcoin.Attestor.Stream

/-!
# The validation task of an attestor

The validation task receives quorums from the vote pool, checks them and submits them to the chain,
one at a time. Another quorum that is ready in the meantime is stashed in the pool, or replaces the
submission if it is its rival and the submission has not been broadcast yet. Once a submission has
ended, its height is unlocked if it failed, and the next stashed quorum is checked again and
submitted.

Every access to the pool and every read of the watch is a step. The answers of the runtime, the
store of BLS keys and the cache of proofs are inputs of the steps that ask for them, and so is when
a wait for finality ends. A submission task ends with one of the outcomes. Shutting down, the
metrics and the watchdog are left out. -/

namespace Creditcoin.Attestor

variable {H A : Type}

/-! ## Checking a quorum -/

/-- A quorum with its aggregated signature. -/
structure Aggregated (H A : Type) where
  height : ℕ
  digest : H
  attestationSigned : SignedAttestation H A
  votes : List (Vote H A)

inductive ValidationError
  | invalid
  | alreadyOnChain
  | noLocalProof
  | insufficientVotes (got threshold : ℕ)
  | external
  deriving DecidableEq

/-- What the task learns about a quorum. A request that fails for good has no answer. -/
structure QuorumAnswers (H A : Type) where
  isChainSupported : Option Bool
  containsDigest : Option Bool
  /-- There is a key for the attestor. -/
  active : A → Bool
  quorum : Option ℕ
  /-- The proof for the height and digest of the quorum. -/
  cached : Option (Produced H)
  fetchLastFinalized : Option (Option (ℕ × H))
  shuffle : List (Vote H A) → List (Vote H A)
  aggregate : List BlsSignature → Option BlsSignature

/-- What the task learns about a stashed quorum. -/
structure StashAnswers (A : Type) where
  quorum : Option ℕ
  active : A → Bool
  aggregate : List BlsSignature → Option BlsSignature

section Check

variable [DecidableEq H] (keccak : ℕ → H → Option H → H)

/-- Does the proof link to the last finalized attestation, or else to the one validated here last?
-/
def validateProofChain (cached : Produced H) (height : ℕ) (lastFinalized : Option (ℕ × H))
    (digestLocal : Option H) (genesis : ℕ) : Bool :=
  let proof := cached.continuityProof
  if proof.isEmpty then
    if height = genesis then true
    else
      match lastFinalized with
      | some (lastHeight, lastDigest) =>
        cached.data.prevDigest = some lastDigest ∧ height = satAdd u64Max lastHeight 1
      | none => false
  else
    let start := proof.startBlockNumber height
    if some (proof.computeContinuityDigest keccak start) ≠ cached.data.prevDigest then false
    else
      match proof.tailPrevDigest, lastFinalized with
      | some tail, some (lastHeight, lastDigest) =>
        if tail = lastDigest then start = satAdd u64Max lastHeight 1 else digestLocal = some tail
      | some tail, none => digestLocal = some tail
      | none, _ => true

def aggregateAndValidate (answers : QuorumAnswers H A) (quorum : Quorum H A)
    (digestLocal : Option H) (genesis : ℕ) : Except ValidationError (Aggregated H A) := do
  let supported ← okOr answers.isChainSupported .external
  ensure (supported = true) .invalid
  let isDup ← okOr answers.containsDigest .external
  ensure (isDup = false) .alreadyOnChain
  let votesActive := quorum.votes.filter fun vote => answers.active vote.attestor
  let threshold ← okOr answers.quorum .external
  ensure (threshold ≤ votesActive.length) (.insufficientVotes votesActive.length threshold)
  let cached ← okOr answers.cached .noLocalProof
  let lastFinalized ← okOr answers.fetchLastFinalized .external
  ensure (validateProofChain keccak cached quorum.height lastFinalized digestLocal genesis = true)
    .invalid
  let votes := answers.shuffle votesActive
  let signature ← okOr (answers.aggregate (votes.map (·.signatureBls))) .external
  pure
    { height := quorum.height
      digest := quorum.digest
      attestationSigned :=
        ⟨cached.data, signature, votes.map (·.attestor), cached.continuityProof⟩
      votes := votes }

/-- The digest that the proof of a quorum extends. -/
def quorumAnchor (signed : SignedAttestation H A) : Option H :=
  signed.continuityProof.tailPrevDigest.or signed.prevDigest

/-- Does a stashed quorum extend the finalized digest? -/
def anchored (genesis : ℕ) (stashed : SignedQuorum H A) (finalized : Option H) : Bool :=
  stashed.height = genesis ∨
    (finalized.isSome ∧ quorumAnchor stashed.signed = finalized)

/-- Check a stashed quorum against the attestors that are active by now. -/
def revalidateStashed (answers : StashAnswers A) (stashed : SignedQuorum H A) :
    Option (Aggregated H A) := do
  let threshold ← answers.quorum
  let votes := stashed.votes.filter fun vote => answers.active vote.attestor
  guard (threshold ≤ votes.length)
  let signed ←
    if votes.length < stashed.votes.length then
      (answers.aggregate (votes.map (·.signatureBls))).map fun signature =>
        { stashed.signed with signature := signature, attestors := votes.map (·.attestor) }
    else some stashed.signed
  some ⟨stashed.height, stashed.digest, signed, votes⟩

end Check

/-! ## Submissions -/

/-- What the runtime returned. -/
inductive CommitResult
  | success
  | attestationExists
  | majorityNotReached
  /-- Another error of the runtime. -/
  | rejected
  | invalidTransaction
  | rpcError
  deriving DecidableEq

/-- How a submission ends. -/
inductive SubmissionOutcome
  | eligible (result : CommitResult)
  /-- The height was seen to be finalized. -/
  | finalized
  | unresolved
  deriving DecidableEq

namespace SubmissionOutcome

/-- The runtime reported the height as attested. -/
def reportsAttested : SubmissionOutcome → Bool
  | .eligible .success => true
  | .eligible .attestationExists => true
  | _ => false

/-- The height is unlocked at once. -/
def unlocks : SubmissionOutcome → Bool
  | .eligible .majorityNotReached => true
  | .eligible .rejected => true
  | .eligible .rpcError => true
  | _ => false

/-- The height is unlocked unless it is finalized soon. -/
def shouldUnlockIfUnfinalized : SubmissionOutcome → Bool
  | .unresolved => true
  | .eligible .invalidTransaction => true
  | _ => false

end SubmissionOutcome

structure InFlight (H A : Type) where
  height : ℕ
  votes : List (Vote H A)
  anchor : Option H
  /-- The submission has claimed the broadcast. -/
  broadcast : Bool
  /-- How it ended, if it has. -/
  outcome : Option SubmissionOutcome

/-- A submission that has ended. -/
structure Submission (H A : Type) where
  height : ℕ
  outcome : SubmissionOutcome
  votes : List (Vote H A)

def spawnSubmission (agg : Aggregated H A) : InFlight H A :=
  ⟨agg.height, agg.votes, quorumAnchor agg.attestationSigned, false, none⟩

/-- A higher quorum on the same anchor replaces a submission that was not broadcast, as long as the
anchor is the finalized digest. -/
def InFlight.preempt [DecidableEq H] (inFlight : InFlight H A) (agg : Aggregated H A)
    (finalized : Option H) : Bool :=
  inFlight.height < agg.height ∧ inFlight.anchor.isSome ∧ inFlight.anchor = finalized ∧
    inFlight.anchor = quorumAnchor agg.attestationSigned ∧ inFlight.broadcast = false

def maxReinjectsPerHeight : ℕ := 3

/-- One unit of the budget of a height, if there is one left. -/
def takeReinjectBudget (state : Option (ℕ × ℕ)) (height : ℕ) : Bool × Option (ℕ × ℕ) :=
  match state with
  | some (h, remaining) =>
    if h = height then
      if remaining = 0 then (false, state) else (true, some (h, remaining - 1))
    else (true, some (height, maxReinjectsPerHeight - 1))
  | none => (true, some (height, maxReinjectsPerHeight - 1))

/-! ## State -/

/-- Where the task is. -/
inductive ValidationTurn (H A : Type)
  | waiting
  | received (quorum : Quorum H A) (permit : Permit H)
  /-- It is being checked. -/
  | validating (quorum : Quorum H A) (permit : Permit H) (digestLocal : Option H)
  /-- It is to be submitted or stashed. -/
  | committing (agg : Aggregated H A) (permit : Permit H) (finalized : Option H)
  /-- A submission has ended, and its height may yet be finalized. -/
  | settling (submission : Submission H A) (unlocked : Bool)
  /-- Its height is to be unlocked. -/
  | unlocking (submission : Submission H A)
  /-- The next stashed quorum is looked for. -/
  | draining (submission : Submission H A) (unlocked : Bool)
  /-- Its anchor is compared with the finalized digest. -/
  | anchoring (stashed : SignedQuorum H A) (submission : Submission H A) (unlocked : Bool)
  /-- Its votes are checked again. -/
  | revalidating (stashed : SignedQuorum H A) (submission : Submission H A) (unlocked : Bool)
  /-- It is stale, and its height is to be unlocked. -/
  | dropping (height : ℕ) (submission : Submission H A) (unlocked : Bool)
  /-- No stashed quorum is left, or one has been submitted. -/
  | reopening (submission : Submission H A) (unlocked : Bool)
  /-- The votes of a height that was unlocked are sent to the pool again. -/
  | reinjecting (votes : List (Vote H A))
  /-- A request failed for good. -/
  | exited

structure Validation (H A : Type) where
  pool : Pool H A
  /-- The last finalized point that the production task knows of. -/
  latestCc3 : Option (AttestationInfo H)
  /-- The watch on the last finalized point. -/
  latestFinalized : Option (AttestationInfo H)
  inFlight : Option (InFlight H A)
  turn : ValidationTurn H A
  reinjectBudget : Option (ℕ × ℕ)
  /-- The heights that the runtime has reported as attested. No step depends on it. -/
  reported : Finset ℕ

/-- The operations that other tasks perform on the pool at any time. -/
def PoolAction.isShared : PoolAction H A → Bool
  | .send _ => true
  | .noteAttestationIntervalChange _ => true
  | .noteAttestorsElected _ => true
  | .noteMaxCatchupChange _ => true
  | .noteQuorumChange _ => true
  | _ => false

inductive ValidationAction (H A : Type)
  /-- Another task performs an operation on the pool. -/
  | shared (action : PoolAction H A)
  /-- The production task learns of an attestation on chain, and tells the pool. -/
  | attested (info : AttestationInfo H)
  /-- It learns that the chain was reverted, and tells the pool. -/
  | reverted (info : AttestationInfo H)
  | tell
  /-- The submission task claims the broadcast. -/
  | broadcast
  | resolve (outcome : SubmissionOutcome)
  /-- The validation task takes a quorum from the pool. -/
  | receive
  /-- It has checked a quorum. -/
  | validated (answers : QuorumAnswers H A)
  /-- It sees that the submission has ended. -/
  | join
  /-- It has checked a stashed quorum. -/
  | revalidated (answers : StashAnswers A)
  | proceed

namespace Validation

variable [DecidableEq H] [DecidableEq A]

def new (config : PoolConfig H A) (startAttestation : Option (AttestationInfo H)) :
    Validation H A where
  pool := Pool.new { config with
    startDigest := startAttestation.map (·.digest)
    startHeightFinalized := startAttestation.map (·.height) }
  latestCc3 := startAttestation
  latestFinalized := startAttestation
  inFlight := none
  turn := .waiting
  reinjectBudget := none
  reported := ∅

variable (v : Validation H A)

def onPool (action : PoolAction H A) : Validation H A := { v with pool := v.pool.step action }

/-- Does the watch say that a height is finalized? -/
def isFinalized (height : ℕ) : Bool := v.latestFinalized.any fun info => height ≤ info.height

/-! ## The other tasks -/

/-- An attestation on chain. One that is not above the last is ignored. -/
def blockAttested (info : AttestationInfo H) : Validation H A :=
  if v.latestCc3.all fun latest => latest.height < info.height then
    { v.onPool (.noteAttestationFinalization info.height info.digest) with latestCc3 := some info }
  else v

/-- The submission is about to be sent. It can no longer be replaced. -/
def claimBroadcast : Option (Validation H A) :=
  match v.inFlight with
  | some inFlight =>
    if inFlight.outcome.isNone then
      some { v with inFlight := some { inFlight with broadcast := true } }
    else none
  | none => none

/-- The outcomes that a submission may have: only one that was broadcast gets an answer, and only a
height in the watch is seen to be finalized. -/
def mayResolve (inFlight : InFlight H A) : SubmissionOutcome → Bool
  | .eligible _ => inFlight.broadcast
  | .finalized => v.isFinalized inFlight.height
  | .unresolved => true

def resolve (outcome : SubmissionOutcome) : Option (Validation H A) :=
  match v.inFlight with
  | some inFlight =>
    if inFlight.outcome.isNone && v.mayResolve inFlight outcome then
      some { v with
        inFlight := some { inFlight with outcome := some outcome }
        reported := if outcome.reportsAttested then insert inFlight.height v.reported
          else v.reported }
    else none
  | none => none

/-! ## The validation task -/

variable (digestOrd : H → ℕ) (keccak : ℕ → H → Option H → H) (genesis : ℕ)

def receive : Option (Validation H A) :=
  match v.turn with
  | .waiting => (v.pool.peek digestOrd).map fun work => { v with turn := .received work.1 work.2 }
  | _ => none

/-- A quorum at the height in flight is discarded. -/
def handleQuorum (quorum : Quorum H A) (permit : Permit H) : Validation H A :=
  if v.inFlight.any fun inFlight => inFlight.height = quorum.height then
    { v.onPool (.markSkipped permit) with turn := .waiting }
  else { v with turn := .validating quorum permit v.pool.digestLocal }

/-- A quorum has been checked. -/
def validated (answers : QuorumAnswers H A) : Option (Validation H A) :=
  match v.turn with
  | .validating quorum permit digestLocal =>
    some (match aggregateAndValidate keccak answers quorum digestLocal genesis with
    | .ok agg => { v with turn := .committing agg permit (v.latestFinalized.map (·.digest)) }
    | .error .invalid => { v.onPool (.markInvalid permit) with turn := .waiting }
    | .error .alreadyOnChain =>
      { v.onPool (.markValid permit) with
        turn := .waiting
        reported := insert quorum.height v.reported }
    | .error .noLocalProof => { v.onPool (.markSkipped permit) with turn := .waiting }
    | .error (.insufficientVotes _ _) => { v.onPool (.defer permit) with turn := .waiting }
    | .error .external => { v with turn := .exited })
  | _ => none

/-- Submit a quorum, or stash it while another one is in flight. -/
def commit (agg : Aggregated H A) (permit : Permit H) (finalized : Option H) : Validation H A :=
  if v.inFlight.all fun inFlight => inFlight.preempt agg finalized then
    { v.onPool (.markValid permit) with
      inFlight := some (spawnSubmission agg)
      turn := .waiting }
  else
    let signed := ⟨agg.height, agg.digest, agg.attestationSigned, agg.votes⟩
    { v.onPool (.markForLater permit signed) with turn := .waiting }

/-- The submission has ended. -/
def join : Option (Validation H A) :=
  match v.turn, v.inFlight with
  | .waiting, some inFlight =>
    inFlight.outcome.map fun outcome =>
      let settled :=
        if outcome.unlocks then v.onPool (.noteMajorityNotReached inFlight.height) else v
      { settled with
        inFlight := none
        turn := .settling ⟨inFlight.height, outcome, inFlight.votes⟩ outcome.unlocks }
  | _, _ => none

/-- The wait for finality is over. -/
def settle (submission : Submission H A) (unlocked : Bool) : Validation H A :=
  if submission.outcome.shouldUnlockIfUnfinalized && !v.isFinalized submission.height then
    { v with turn := .unlocking submission }
  else { v with turn := .draining submission unlocked }

/-- The stashed quorum at the least height. -/
def nextValidated : Option (SignedQuorum H A) := v.pool.firstValidated.bind v.pool.valid.lookup

def takeStashed (submission : Submission H A) (unlocked : Bool) : Validation H A :=
  match v.nextValidated with
  | some stashed =>
    { v.onPool .takeNextValidated with turn := .anchoring stashed submission unlocked }
  | none => { v with turn := .reopening submission unlocked }

/-- A stashed quorum that does not extend the finalized digest is stale. -/
def anchor (stashed : SignedQuorum H A) (submission : Submission H A) (unlocked : Bool) :
    Validation H A :=
  if anchored genesis stashed (v.latestFinalized.map (·.digest)) then
    { v with turn := .revalidating stashed submission unlocked }
  else { v with turn := .dropping stashed.height submission unlocked }

/-- A stashed quorum has been checked. -/
def revalidated (answers : StashAnswers A) : Option (Validation H A) :=
  match v.turn with
  | .revalidating stashed submission unlocked =>
    some (match revalidateStashed answers stashed with
    | some agg =>
      { v with inFlight := some (spawnSubmission agg), turn := .reopening submission unlocked }
    | none => { v with turn := .dropping stashed.height submission unlocked })
  | _ => none

/-- The votes of a height that was unlocked are sent again, as long as there is a budget. -/
def reopen (submission : Submission H A) (unlocked : Bool) : Validation H A :=
  if unlocked && !v.isFinalized submission.height then
    let budget := takeReinjectBudget v.reinjectBudget submission.height
    { v with
      reinjectBudget := budget.2
      turn := if budget.1 then .reinjecting submission.votes else .waiting }
  else { v with turn := .waiting }

/-- The next step of the task, if it does not wait for an answer. -/
def proceed : Option (Validation H A) :=
  match v.turn with
  | .received quorum permit => some (v.handleQuorum quorum permit)
  | .committing agg permit finalized => some (v.commit agg permit finalized)
  | .settling submission unlocked => some (v.settle submission unlocked)
  | .unlocking submission =>
    some { v.onPool (.noteMajorityNotReached submission.height) with
      turn := .draining submission true }
  | .draining submission unlocked => some (v.takeStashed submission unlocked)
  | .anchoring stashed submission unlocked => some (v.anchor genesis stashed submission unlocked)
  | .dropping height submission unlocked =>
    some { v.onPool (.noteMajorityNotReached height) with turn := .draining submission unlocked }
  | .reopening submission unlocked => some (v.reopen submission unlocked)
  | .reinjecting (vote :: votes) => some { v.onPool (.send vote) with turn := .reinjecting votes }
  | .reinjecting [] => some { v with turn := .waiting }
  | _ => none

def step : ValidationAction H A → Option (Validation H A)
  | .shared action => if action.isShared then some (v.onPool action) else none
  | .attested info => some (v.blockAttested info)
  | .reverted info =>
    some { v.onPool (.noteAttestationChainReversion info.height info.digest) with
      latestCc3 := some info }
  | .tell => some { v with latestFinalized := v.latestCc3 }
  | .broadcast => v.claimBroadcast
  | .resolve outcome => v.resolve outcome
  | .receive => v.receive digestOrd
  | .validated answers => v.validated keccak genesis answers
  | .join => v.join
  | .revalidated answers => v.revalidated answers
  | .proceed => v.proceed genesis

def run : Validation H A → List (ValidationAction H A) → Option (Validation H A)
  | v, [] => some v
  | v, action :: actions =>
    (v.step digestOrd keccak genesis action).bind fun v' => run v' actions

end Validation

end Creditcoin.Attestor
