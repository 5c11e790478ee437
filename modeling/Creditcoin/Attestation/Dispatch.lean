import Creditcoin.Attestation.Bonding
import Creditcoin.Attestation.Operators
import Creditcoin.Attestation.Roster
import Creditcoin.SupportedChains

/-!
# Calls

`dispatch` performs a call of one of the two pallets. Most calls change one part of one chain;
registering and unregistering attestors also touch the bonds and the index of retired keys, and the
removal of a chain touches all of its parts. -/

namespace Creditcoin

variable {H A B : Type}

/-! ## Calls -/

/-- The calls of the two pallets. -/
inductive Call (H A : Type)
  | setChainAttestationInterval (k : ChainKey) (interval : ℕ)
  | setTargetSampleSize (k : ChainKey) (size : ℕ)
  | registerAttestor (k : ChainKey) (attestorId : A)
  | unregisterAttestor (k : ChainKey) (attestorId : A)
  | setMaxAttestors (k : ChainKey) (newMax : ℕ)
  | registerInvulnerable (k : ChainKey) (attestor : A)
  | unregisterInvulnerable (k : ChainKey) (attestor : A)
  | setMaxInvulnerables (k : ChainKey) (newMax : ℕ)
  | commitAttestation (attestation : SignedAttestation H A)
  | setAttestationsPerCheckpoint (k : ChainKey) (perCheckpoint : ℕ)
  | setMinBondRequirement (k : ChainKey) (minBond : U128)
  | attest (k : ChainKey) (blsPublicKey : BlsPublicKey) (proofOfPossession : BlsSignature)
  | chill (k : ChainKey) (attestorId : A)
  | withdrawUnbonded
  | importCheckpoints (k : ChainKey) (checkpoints : List (AttestationCheckpoint H))
  | setAttestationChainGenesisBlockNumber (k : ChainKey) (genesisBlockNumber : U64)
  | setElectionPolicy (k : ChainKey) (policy : AttestorElectionPolicy)
  | authorizeAttestor (k : ChainKey) (attestorId : A)
  | removeAuthorizedAttestor (k : ChainKey) (attestorId : A)
  | kickActiveAttestor (k : ChainKey) (attestorId : A) (unregister : Bool)
  | forceElection (k : ChainKey)
  | setMaxCatchup (k : ChainKey) (maxCatchup : ℕ)
  | forceApplyUpdates
  | revertTo (k : ChainKey) (checkpointHeight : U64)
  | forwardPatchCheckpoints (k : ChainKey) (wipeSuffix : Bool)
      (checkpoints : List (AttestationCheckpoint H))
  | registerChain (chainId : ℕ) (chainName : List UInt8) (parameters : ChainParameters)
      (encoding : ChainEncodingVersion) (maturityStrategy : Option String)
  | removeChain (k : ChainKey) (removeCheckpoints : Bool)
  | setMaturityStrategy (k : ChainKey) (maturityStrategy : String)
  | setChainName (k : ChainKey) (chainName : List UInt8)

variable [DecidableEq H] [DecidableEq A] (T : Config H A B)

/-! ## Calls that involve bonds -/

namespace State

def registerAttestor (s : State H A B) (k : ChainKey) (stash attestorId : A) :
    Except Error (State H A B) := do
  ensure (s.isChainSupported k = true) .chainNotSupported
  let c := s.chain T k
  let (r, index) ←
    c.roster.registerAttestor c.settings s.retiredAttestorKeysByStash k stash attestorId
  let bonds ← s.bonds.bondForAttestor T c.settings.minBondRequirement stash attestorId
  pure { s.setRoster T k r with retiredAttestorKeysByStash := index, bonds := bonds }

/-- Unregister an idle attestor and start unlocking its bond. -/
def removeAttestor (s : State H A B) (k : ChainKey) (stash attestorId : A) :
    Except Error (State H A B) := do
  let c := s.chain T k
  let attestor ← c.roster.removableAttestor stash attestorId
  let bond := (c.roster.attestorCollateral.lookup attestorId).getD c.settings.minBondRequirement
  let purgeAtEra := satAdd u32Max s.currentEra T.bondingDuration
  let bonds ← s.bonds.unbond T s.currentEra purgeAtEra stash bond
  let (r, index) ← c.roster.unregisterAttestor s.retiredAttestorKeysByStash k stash attestorId
    purgeAtEra attestor
  pure { s.setRoster T k r with retiredAttestorKeysByStash := index, bonds := bonds }

/-- Chill an attestor at once and, if asked, unregister it. -/
def kickAttestor (s : State H A B) (k : ChainKey) (attestorId : A) (unregister : Bool) :
    Except Error (State H A B) := do
  let r := (s.chain T k).roster
  let attestor ← okOr (r.attestors.lookup attestorId) .addressNotAttestor
  let chilled := s.setRoster T k (r.doChillAttestorImmediate attestorId)
  if unregister then chilled.removeAttestor T k attestor.stash attestorId else pure chilled

/-- The loop of `purge_retired_bls_keys_for_stash`: drop the retired keys whose era has come and
return the pairs that stay in the index. -/
def purgeRetired (stash : A) (currentEra : ℕ) :
    List (ChainKey × A) → State H A B → List (ChainKey × A) × State H A B
  | [], s => ([], s)
  | (k, attestorId) :: pairs, s =>
    let r := (s.chain T k).roster
    match r.retiredAttestorBlsKeys.lookup attestorId with
    | none => purgeRetired stash currentEra pairs s
    | some entry =>
      if entry.stash ≠ stash then purgeRetired stash currentEra pairs s
      else if entry.purgeAtEra ≤ currentEra then
        let released := r.releaseKey entry.blsPublicKey attestorId
        purgeRetired stash currentEra pairs (s.setRoster T k
          { released with
            retiredAttestorBlsKeys := released.retiredAttestorBlsKeys.erase attestorId })
      else
        let rest := purgeRetired stash currentEra pairs s
        ((k, attestorId) :: rest.1, rest.2)

/-- Drop the retired keys of a stash whose era has come. -/
def purgeRetiredBlsKeysForStash (s : State H A B) (stash : A) : State H A B :=
  let pairs := (s.retiredAttestorKeysByStash.lookup stash).getD []
  if pairs = [] then s
  else
    let purged := purgeRetired T stash s.currentEra pairs s
    { purged.2 with
      retiredAttestorKeysByStash :=
        if purged.1 = [] then purged.2.retiredAttestorKeysByStash.erase stash
        else purged.2.retiredAttestorKeysByStash.insert stash purged.1 }

/-- Release what is free of the bond of a stash, and its retired keys. -/
def withdrawUnbonded (s : State H A B) (stash : A) : Except Error (State H A B) := do
  let bonds ← s.bonds.withdrawUnbonded T s.currentEra stash
  pure { s.purgeRetiredBlsKeysForStash T stash with bonds := bonds }

/-! ## Elections, updates and removal -/

def electChain (epoch : ℕ) (s : State H A B) (k : ChainKey) : State H A B :=
  let c := s.chain T k
  s.setRoster T k (c.roster.electAttestorsForChain T c.settings.chainElectionPolicy epoch)

/-- Elect the active set of every supported chain. -/
def startElection (s : State H A B) (epoch : ℕ) : State H A B :=
  (s.registry.supportedChains.iterKeys T.chainRank).foldl (electChain T epoch) s

/-- Put the pending values of one chain into force. -/
def applyChainUpdates (s : State H A B) (k : ChainKey) : State H A B :=
  s.setSettings T k (s.chain T k).settings.applyIntervalUpdates

/-- Put every pending value into force. -/
def applyIntervalUpdates (s : State H A B) : State H A B :=
  s.chains.keys.foldl (applyChainUpdates T) s

def registerChain (s : State H A B) (chainId : ℕ) (chainName : List UInt8)
    (parameters : ChainParameters) (encoding : ChainEncodingVersion)
    (maturityStrategy : Option String) : Except Error (State H A B) := do
  let (k, registry) ← s.registry.registerChain T chainId chainName encoding maturityStrategy
  let st ← onRegisterChain T (s.chain T k).settings parameters
  pure { s.setSettings T k st with registry := registry }

def removeChain (host : Host H A) (s : State H A B) (k : ChainKey) (removeCheckpoints : Bool) :
    Except Error (State H A B) := do
  let registry ← s.registry.removeChain k
  let c := s.chain T k
  let (r, index) := removeChainRoster T host k c.roster s.retiredAttestorKeysByStash
  pure { s.setChain k
      { anchors := removeChainAnchors host removeCheckpoints c.anchors
        roster := r
        settings := removeChainSettings T c.settings } with
    registry := registry
    retiredAttestorKeysByStash := index }

/-- Replace the anchors of a chain by the result of a call. -/
def withAnchors (s : State H A B) (k : ChainKey) (x : Except Error (Anchors H A)) :
    Except Error (State H A B) := x.map (s.setAnchors T k)

/-- Replace the roster of a chain by the result of a call. -/
def withRoster (s : State H A B) (k : ChainKey) (x : Except Error (Roster A)) :
    Except Error (State H A B) := x.map (s.setRoster T k)

/-- Replace the settings of a chain by the result of a call. -/
def withSettings (s : State H A B) (k : ChainKey) (x : Except Error Settings) :
    Except Error (State H A B) := x.map (s.setSettings T k)

/-- Commit an attestation from an active attestor. -/
def commitAttestation (s : State H A B) (account : A) (att : SignedAttestation H A) :
    Except Error (State H A B) := do
  let c := s.chain T att.chainKey
  ensure (account ∈ c.roster.activeAttestors) .attestorNotActive
  s.withAnchors T att.chainKey
    ((doCommitAttestation T (s.isChainSupported att.chainKey) s.blockNumber c att).map Prod.fst)

end State

/-! ## Dispatch -/

/-- A call that any account may sign. -/
def asSigned (origin : Origin A) (call : A → Except Error (State H A B)) :
    Except Error (State H A B) := do
  let who ← origin.ensureSigned .badOrigin
  call who

def asOperator (origin : Origin A) (call : Except Error (State H A B)) :
    Except Error (State H A B) := do
  ensure (T.operatorsOrigin origin = true) .badOrigin
  call

/-- Elect the active set of one chain on the order of an operator. -/
def forceElection (s : State H A B) (k : ChainKey) : Except Error (State H A B) := do
  ensure (s.isChainSupported k = true) .chainNotSupported
  let elected := s.electChain T s.currentEpochIndex k
  let r := (elected.chain T k).roster
  pure (elected.setRoster T k
    { r with events := r.events ++ [.forcedElection s.currentEpochIndex] })

/-- Put every pending value into force on the order of an operator. -/
def forceApplyUpdates (s : State H A B) : State H A B :=
  let applied := s.applyIntervalUpdates T
  { applied with
    bonds := { applied.bonds with events := applied.bonds.events ++ [.forcedUpdatesApplied] } }

/-- A batch of checkpoints that fits the bound of the call. -/
def ensureBatch (checkpoints : List (AttestationCheckpoint H)) : Except Error Unit :=
  ensure (checkpoints.length ≤ T.maxCheckpointsImportedPerCall) .batchTooLong

def dispatch (host : Host H A) (s : State H A B) (origin : Origin A) :
    Call H A → Except Error (State H A B)
  | .setChainAttestationInterval k interval =>
    asOperator T origin (s.withSettings T k
      ((s.chain T k).settings.setChainAttestationInterval T (s.isChainSupported k) interval))
  | .setTargetSampleSize k size =>
    asOperator T origin (s.withSettings T k
      ((s.chain T k).settings.setTargetSampleSize (s.isChainSupported k) size))
  | .registerAttestor k attestorId =>
    asSigned origin fun who => s.registerAttestor T k who attestorId
  | .unregisterAttestor k attestorId =>
    asSigned origin fun who => s.removeAttestor T k who attestorId
  | .setMaxAttestors k newMax =>
    asOperator T origin (s.withSettings T k
      ((s.chain T k).settings.setMaxAttestors T (s.isChainSupported k) (s.chain T k).roster newMax))
  | .registerInvulnerable k attestor =>
    asOperator T origin (s.withRoster T k
      ((s.chain T k).roster.registerInvulnerable (s.isChainSupported k) (s.chain T k).settings
        attestor))
  | .unregisterInvulnerable k attestor =>
    asOperator T origin (s.withRoster T k
      ((s.chain T k).roster.unregisterInvulnerable attestor))
  | .setMaxInvulnerables k newMax =>
    asOperator T origin (s.withSettings T k
      ((s.chain T k).settings.setMaxInvulnerables T (s.chain T k).roster newMax))
  | .commitAttestation att => asSigned origin fun who => s.commitAttestation T who att
  | .setAttestationsPerCheckpoint k perCheckpoint =>
    asOperator T origin (s.withSettings T k
      ((s.chain T k).settings.setAttestationsPerCheckpoint T (s.isChainSupported k) perCheckpoint))
  | .setMinBondRequirement k minBond =>
    asOperator T origin (s.withSettings T k
      (.ok ((s.chain T k).settings.setMinBondRequirement minBond)))
  | .attest k key pop =>
    asSigned origin fun who => s.withRoster T k
      ((s.chain T k).roster.startAttesting T (s.isChainSupported k) k who key pop)
  | .chill k attestorId =>
    asSigned origin fun who => s.withRoster T k ((s.chain T k).roster.chill who attestorId)
  | .withdrawUnbonded => asSigned origin fun who => s.withdrawUnbonded T who
  | .importCheckpoints k checkpoints =>
    asOperator T origin (do
      ensureBatch T checkpoints
      s.withAnchors T k
        (doImportCheckpoints (s.isChainSupported k) (s.chain T k).anchors checkpoints))
  | .setAttestationChainGenesisBlockNumber k number =>
    asOperator T origin (s.withSettings T k
      ((s.chain T k).settings.setAttestationChainGenesisBlockNumber (s.isChainSupported k)
        (s.chain T k).anchors number))
  | .setElectionPolicy k policy =>
    asOperator T origin (s.withSettings T k
      ((s.chain T k).settings.setElectionPolicy (s.isChainSupported k) policy))
  | .authorizeAttestor k attestorId =>
    asOperator T origin (s.withRoster T k
      ((s.chain T k).roster.authorizeAttestor (s.isChainSupported k) attestorId))
  | .removeAuthorizedAttestor k attestorId =>
    asOperator T origin (s.withRoster T k
      ((s.chain T k).roster.removeAuthorizedAttestor attestorId))
  | .kickActiveAttestor k attestorId unregister =>
    asOperator T origin (s.kickAttestor T k attestorId unregister)
  | .forceElection k => asOperator T origin (forceElection T s k)
  | .setMaxCatchup k maxCatchup =>
    asOperator T origin (s.withSettings T k
      ((s.chain T k).settings.setMaxCatchup T (s.isChainSupported k) maxCatchup))
  | .forceApplyUpdates => asOperator T origin (.ok (forceApplyUpdates T s))
  | .revertTo k checkpointHeight =>
    asOperator T origin (s.withAnchors T k
      (revertTo T (s.isChainSupported k) host.attestations (s.chain T k).anchors
        checkpointHeight))
  | .forwardPatchCheckpoints k wipe checkpoints =>
    asOperator T origin (do
      ensureBatch T checkpoints
      s.withAnchors T k
        (doForwardPatchCheckpoints T (s.isChainSupported k) host.attestations
          (s.chain T k).anchors wipe checkpoints))
  | .registerChain chainId chainName parameters encoding maturityStrategy =>
    asOperator T origin
      (s.registerChain T chainId chainName parameters encoding maturityStrategy)
  | .removeChain k removeCheckpoints =>
    asOperator T origin (s.removeChain T host k removeCheckpoints)
  | .setMaturityStrategy k maturityStrategy =>
    asOperator T origin ((s.registry.setMaturityStrategy k maturityStrategy).map fun g =>
      { s with registry := g })
  | .setChainName k chainName =>
    asOperator T origin ((s.registry.setChainName k chainName).map fun g =>
      { s with registry := g })

end Creditcoin
