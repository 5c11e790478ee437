import Creditcoin.Attestor.Pool
import Creditcoin.Attestor.Stream
import Creditcoin.CcClient

/-!
# The production task of an attestor

The production task follows the events of the runtime. It alone tells the attestation stream, the
vote pool and the other tasks which point is finalized. In between it polls the stream, and votes
for what the stream yields.

Requests to the runtime are answered by `Rpc`; one that fails for good ends the task. The store of
BLS keys, the cache of continuity proofs, the watchdog and the metrics are left out, and so is the
start of a chain without a finalized point. -/

namespace Creditcoin.Attestor

variable {H A : Type}

/-! ## State -/

/-- The answers to the requests made while an event is handled. -/
structure Rpc (A : Type) where
  quorum : Option ℕ
  activeAttestors : Option (List A)
  /-- The keys of the attestors could be fetched. -/
  blsKeys : Bool

/-- What the tasks of an attestor share. -/
structure Shared (H A : Type) where
  accountId : A
  pool : Pool H A
  /-- The watch on the last finalized point. -/
  latestFinalized : Option (AttestationInfo H)
  /-- The last height that was produced or reverted to. -/
  localProduced : Option ℕ
  intervalAttestation : ℕ+
  maxCatchup : ℕ+
  /-- Is the account to attest, once it has warmed up? -/
  attestTarget : Bool
  /-- Counts the changes of that, so that a warm-up that was overtaken has no effect. -/
  eligibilityGen : ℕ
  canAttest : Bool

structure Production (H A : Type) where
  shared : Shared H A
  stream : StreamAttestation H
  latestCc3 : AttestationInfo H

/-! ## The start -/

/-- What an attestor reads from the chain and its own configuration when it starts. -/
structure StartConfig (H A : Type) where
  chainKey : ChainKey
  accountId : A
  attestors : List A
  quorum : ℕ+
  interval : ℕ+
  maxCatchup : ℕ+
  startHeight : ℕ
  startAttestation : AttestationInfo H

/-- The production task on a chain with a finalized point. -/
def Production.start [DecidableEq A] (config : StartConfig H A) : Production H A where
  shared :=
    { accountId := config.accountId
      pool := Pool.new
        { attestors := config.attestors
          quorum := config.quorum
          attestationInterval := config.interval
          startHeight := config.startHeight
          maxCatchup := config.maxCatchup
          startDigest := some config.startAttestation.digest
          startHeightFinalized := some config.startAttestation.height }
      latestFinalized := some config.startAttestation
      localProduced := none
      intervalAttestation := config.interval
      maxCatchup := config.maxCatchup
      attestTarget := true
      eligibilityGen := 0
      canAttest := true }
  stream := .new config.chainKey config.interval config.maxCatchup config.startAttestation
    config.startHeight
  latestCc3 := config.startAttestation

/-! ## Eligibility -/

/-- What a change of eligibility asks for. -/
inductive EligibilityAction
  | noOp
  | disableNow
  | warmUpEnable

def eligibilityAction : Bool → Bool → EligibilityAction
  | true, true => .noOp
  | false, false => .noOp
  | false, true => .warmUpEnable
  | true, false => .disableNow

namespace Shared

variable (sh : Shared H A)

/-- Stop at once, or start to warm up. -/
def applyEligibility (eligible : Bool) : Shared H A :=
  let gen := (sh.eligibilityGen + 1) % 2 ^ 64
  match eligibilityAction sh.attestTarget eligible with
  | .noOp => { sh with attestTarget := eligible }
  | .disableNow => { sh with attestTarget := eligible, eligibilityGen := gen, canAttest := false }
  | .warmUpEnable => { sh with attestTarget := eligible, eligibilityGen := gen }

def warmedUp (gen : ℕ) : Shared H A :=
  if sh.eligibilityGen = gen then { sh with canAttest := true } else sh

variable [DecidableEq H] [DecidableEq A]

def onPool (action : PoolAction H A) : Shared H A := { sh with pool := sh.pool.step action }

/-- The quorum moves with the active attestors. -/
def refreshQuorum (rpc : Rpc A) : Option (Shared H A) :=
  rpc.quorum.map fun threshold => sh.onPool (.noteQuorumChange threshold)

/-- A new committee: its keys, the votes that count, the quorum and one's own part in it. -/
def noteCommittee (rpc : Rpc A) (attestors : List A) : Option (Shared H A) := do
  guard rpc.blsKeys
  let sh ← (sh.onPool (.noteAttestorsElected attestors)).refreshQuorum rpc
  pure (sh.applyEligibility (sh.accountId ∈ attestors))

/-- The committee as the chain has it now. -/
def reconcileCommitteeFromChain (rpc : Rpc A) : Option (Shared H A) :=
  rpc.activeAttestors.bind (sh.noteCommittee rpc)

end Shared

/-! ## Events -/

namespace Production

variable [DecidableEq H] [DecidableEq A] (p : Production H A)

/-- A point above the last finalized one was attested. Others are ignored. -/
def noteFinalized (info : AttestationInfo H) : Production H A :=
  if p.latestCc3.height < info.height then
    { latestCc3 := info
      stream := p.stream.noteAttestationFinalization info
      shared := { p.shared.onPool (.noteAttestationFinalization info.height info.digest) with
        latestFinalized := some info } }
  else p

def noteReverted (info : AttestationInfo H) : Production H A where
  latestCc3 := info
  stream := p.stream.noteAttestationChainReversion info
  shared := { p.shared.onPool (.noteAttestationChainReversion info.height info.digest) with
    latestFinalized := some info
    localProduced := some info.height }

def handleOne (rpc : Rpc A) : CcEvent H A → Option (Production H A)
  | .blockAttested headerNumber digest =>
    some (p.noteFinalized ⟨headerNumber, digest, headerNumber.isLt⟩)
  | .attestationIntervalChanged raw =>
    if h : 0 < raw then
      some { p with
        stream := p.stream.noteAttestationIntervalChange ⟨raw, h⟩
        shared := { p.shared.onPool (.noteAttestationIntervalChange ⟨raw, h⟩) with
          intervalAttestation := ⟨raw, h⟩ } }
    else some p
  | .targetSampleSizeChanged _ => (p.shared.refreshQuorum rpc).map fun sh => { p with shared := sh }
  | .maxCatchupChanged raw =>
    if h : 0 < raw then
      some { p with
        stream := p.stream.noteMaxCatchupChange ⟨raw, h⟩
        shared := { p.shared.onPool (.noteMaxCatchupChange ⟨raw, h⟩) with
          maxCatchup := ⟨raw, h⟩ } }
    else some p
  | .attestorsElected attestors =>
    (p.shared.noteCommittee rpc attestors).map fun sh => { p with shared := sh }
  | .attestorChilled _ =>
    (p.shared.reconcileCommitteeFromChain rpc).map fun sh => { p with shared := sh }
  | .attestorKicked _ =>
    (p.shared.reconcileCommitteeFromChain rpc).map fun sh => { p with shared := sh }
  | .randomnessChanged _ =>
    (p.shared.reconcileCommitteeFromChain rpc).map fun sh => { p with shared := sh }
  | .revertedAttestationChainTo height digest => some (p.noteReverted ⟨height, digest, height.isLt⟩)
  -- The rest is only logged.
  | .attestorActivated _ => some p
  | .attestationChainGenesisBlockNumberSet _ => some p
  | .checkpointReached _ => some p
  | .checkpointIntervalChanged _ => some p

end Production

/-! ## Runs -/

/-- Does the operation belong to the validation of quorums and the exchange of votes? -/
def PoolAction.isLocal : PoolAction H A → Bool
  | .send _ => true
  | .noteMajorityNotReached _ => true
  | .markValid _ => true
  | .markInvalid _ => true
  | .markSkipped _ => true
  | .defer _ => true
  | .markForLater _ _ => true
  | .takeNextValidated => true
  | _ => false

/-- What happens on a node: an event of the runtime, a poll of the attestation stream, the end of a
warm-up, or an operation of another task on the pool. -/
inductive NodeAction (H A : Type)
  | event (event : CcEvent H A) (rpc : Rpc A)
  | poll (fuel : ℕ) (answers : List Answers)
  | warmedUp (gen : ℕ)
  | pool (action : PoolAction H A) (h : action.isLocal = true)

namespace Production

variable [DecidableEq H] [DecidableEq A] (keccak : ℕ → H → Option H → H) (zero : H)
  (source : ℕ → H × H) (sign : AttestationData H → BlsSignature)

/-- Vote for an attestation that was produced here. -/
def emitLocal (p : Production H A) (x : Produced H) : Production H A :=
  { p with
    shared := { p.shared.onPool (.send ⟨x.data.chainKey, x.data.headerNumber, x.data.digest keccak,
      p.shared.accountId, sign x.data⟩) with localProduced := some x.data.headerNumber } }

/-- The task after something happened, unless it ends. -/
def step (p : Production H A) : NodeAction H A → Option (Production H A)
  | .event event rpc => p.handleOne rpc event
  | .poll fuel answers =>
    if p.shared.canAttest then
      match p.stream.pollNext keccak zero source fuel answers with
      | .done x stream => some (emitLocal keccak sign { p with stream := stream } x)
      | .pending stream => some { p with stream := stream }
      | .ended stream => some { p with stream := stream }
      | .panicked => none
      | .running => none
    else some p
  | .warmedUp gen => some { p with shared := p.shared.warmedUp gen }
  | .pool action _ => some { p with shared := p.shared.onPool action }

def run (p : Production H A) : List (NodeAction H A) → Option (Production H A)
  | [] => some p
  | action :: actions =>
    (step keccak zero source sign p action).bind fun p' => run p' actions

end Production

end Creditcoin.Attestor
