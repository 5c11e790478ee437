import Creditcoin.Attestation.Maintenance

/-!
# Settings of a chain

New attestation intervals and catch-up bounds are pending until the next epoch, or until an operator
forces them; the other settings take effect at once. -/

namespace Creditcoin

variable {H A B : Type} [DecidableEq H]

namespace Settings

variable (st : Settings)

/-- The catch-up bound once pending updates apply. -/
def effectiveMaxCatchup : ℕ := st.pendingMaxCatchup.getD st.maxCatchup

/-- The attestation interval once pending updates apply. -/
def effectiveAttestationInterval : ℕ :=
  st.pendingAttestationInterval.getD st.chainAttestationInterval

/-! ## Values that take effect at the next epoch -/

def setChainAttestationInterval (T : Config H A B) (supported : Bool) (interval : ℕ) :
    Except Error Settings := do
  ensure (0 < interval) .invalidAttestationInterval
  ensure (interval ≤ T.maxChainAttestationInterval) .invalidAttestationInterval
  ensure (interval ≤ st.effectiveMaxCatchup) .invalidAttestationInterval
  ensure (supported = true) .chainNotSupported
  pure { st with
    pendingAttestationInterval := some interval
    events := st.events ++ [.pendingAttestationIntervalSet interval] }

def setTargetSampleSize (supported : Bool) (size : ℕ) : Except Error Settings := do
  ensure (0 < size) .invalidTargetSampleSize
  ensure (supported = true) .chainNotSupported
  pure { st with
    pendingTargetSampleSize := some size
    events := st.events ++ [.pendingTargetSampleSizeSet size] }

def setMaxCatchup (T : Config H A B) (supported : Bool) (maxCatchup : ℕ) :
    Except Error Settings := do
  ensure (0 < maxCatchup) .invalidMaxCatchup
  ensure (maxCatchup ≤ T.maxCatchupCeiling) .invalidMaxCatchup
  ensure (st.effectiveAttestationInterval ≤ maxCatchup) .invalidMaxCatchup
  ensure (supported = true) .chainNotSupported
  pure { st with
    pendingMaxCatchup := some maxCatchup
    events := st.events ++ [.pendingMaxCatchupSet maxCatchup] }

/-- Put the pending values of a chain into force. -/
def applyIntervalUpdates : Settings :=
  { st with
    chainAttestationInterval := st.effectiveAttestationInterval
    pendingAttestationInterval := none
    targetSampleSize := st.pendingTargetSampleSize.getD st.targetSampleSize
    pendingTargetSampleSize := none
    maxCatchup := st.effectiveMaxCatchup
    pendingMaxCatchup := none
    events := st.events ++
      (st.pendingAttestationInterval.map .attestationIntervalChanged).toList ++
      (st.pendingTargetSampleSize.map .targetSampleSizeChanged).toList ++
      (st.pendingMaxCatchup.map .maxCatchupChanged).toList }

/-! ## Values that take effect at once -/

def setAttestationsPerCheckpoint (T : Config H A B) (supported : Bool) (perCheckpoint : ℕ) :
    Except Error Settings := do
  ensure (0 < perCheckpoint) .invalidAttestationsPerCheckpoint
  ensure (perCheckpoint ≤ T.maxAttestationCheckpointInterval) .invalidAttestationsPerCheckpoint
  ensure (supported = true) .chainNotSupported
  pure { st with
    attestationCheckpointInterval := perCheckpoint
    events := st.events ++ [.checkpointIntervalChanged perCheckpoint] }

/-- The limit may not be lower than the number of registered or of active attestors. -/
def setMaxAttestors (T : Config H A B) (supported : Bool) (r : Roster A) (newMax : ℕ) :
    Except Error Settings := do
  ensure (0 < newMax) .invalidMaxAttestors
  ensure (newMax ≤ T.maxAttestationNodes) .invalidMaxAttestors
  ensure (supported = true) .chainNotSupported
  ensure (max r.attestorsCount r.activeAttestors.length ≤ newMax) .invalidMaxAttestors
  pure { st with
    maxAttestors := newMax
    events := st.events ++ [.maxAttestorsChanged newMax] }

def setMaxInvulnerables (T : Config H A B) (r : Roster A) (newMax : ℕ) :
    Except Error Settings := do
  ensure (0 < newMax) .invalidMaxInvulnerables
  ensure (newMax ≤ T.maxAttestationNodes) .invalidMaxInvulnerables
  ensure (r.invulnerables.keys.length ≤ newMax) .maxInvulnerablesCannotBeChanged
  pure { st with maxInvulnerables := newMax }

def setMinBondRequirement (minBond : ℕ) : Settings :=
  { st with
    minBondRequirement := minBond
    events := st.events ++ [.minBondRequirementUpdated minBond] }

/-- The genesis height may change only while the chain has neither attestations nor checkpoints. -/
def setAttestationChainGenesisBlockNumber (supported : Bool) (a : Anchors H A)
    (genesisBlockNumber : U64) : Except Error Settings := do
  ensure (supported = true) .chainNotSupported
  ensure (a.attestations.keys = [] ∧ a.checkpoints.keys = []) .attestationsAlreadyExist
  pure { st with
    attestationChainGenesisBlockNumber := genesisBlockNumber
    events := st.events ++ [.attestationChainGenesisBlockNumberSet genesisBlockNumber] }

def setElectionPolicy (supported : Bool) (policy : AttestorElectionPolicy) :
    Except Error Settings := do
  ensure (supported = true) .chainNotSupported
  pure { st with
    chainElectionPolicy := policy
    events := st.events ++ [.changedElectionPolicy policy] }

end Settings

/-! ## Registration -/

/-- The optional parameters of a registration. -/
structure ChainParameters where
  targetSampleSize : Option ℕ
  chainAttestationInterval : Option ℕ
  attestationCheckpointInterval : Option ℕ
  maxAttestors : Option ℕ
  maxInvulnerables : Option ℕ
  attestationChainGenesisBlockNumber : Option U64

/-- Set up a newly registered chain. The bounds are those of the setters. -/
def onRegisterChain (T : Config H A B) (st : Settings) (p : ChainParameters) :
    Except Error Settings := do
  ensure (∀ v ∈ p.targetSampleSize, 0 < v) .invalidTargetSampleSize
  ensure (∀ v ∈ p.chainAttestationInterval,
    0 < v ∧ v ≤ T.maxChainAttestationInterval ∧ v ≤ st.maxCatchup) .invalidAttestationInterval
  ensure (∀ v ∈ p.attestationCheckpointInterval, 0 < v ∧ v ≤ T.maxAttestationCheckpointInterval)
    .invalidAttestationsPerCheckpoint
  ensure (∀ v ∈ p.maxAttestors, 0 < v ∧ v ≤ T.maxAttestationNodes) .invalidMaxAttestors
  ensure (∀ v ∈ p.maxInvulnerables, 0 < v ∧ v ≤ T.maxAttestationNodes) .invalidMaxInvulnerables
  let sampleSize := p.targetSampleSize.getD T.defaultTargetSampleSize
  let interval := p.chainAttestationInterval.getD T.defaultAttestationInterval
  let perCheckpoint := p.attestationCheckpointInterval.getD T.defaultAttestationsPerCheckpoint
  let maxAttestors := p.maxAttestors.getD T.maxAttestationNodes
  let genesis := (p.attestationChainGenesisBlockNumber.map Fin.val).getD
    T.defaultAttestationChainGenesisBlockNumber
  pure { st with
    targetSampleSize := sampleSize
    chainAttestationInterval := interval
    attestationCheckpointInterval := perCheckpoint
    maxAttestors := maxAttestors
    maxInvulnerables := p.maxInvulnerables.getD T.maxAttestationNodes
    attestationChainGenesisBlockNumber := genesis
    events := st.events ++
      [.targetSampleSizeChanged sampleSize, .attestationIntervalChanged interval,
        .checkpointIntervalChanged perCheckpoint, .maxAttestorsChanged maxAttestors,
        .attestationChainGenesisBlockNumberSet genesis] }

end Creditcoin
