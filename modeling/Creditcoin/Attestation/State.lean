import Creditcoin.Attestation.Config
import Creditcoin.Foundations.StorageMap

/-!
# The state of the pallet

The storage maps, which are keyed by chain, are regrouped by chain: the record `Chain` holds what
they have under its key, in three parts that different calls write.

* `Anchors`: attestations, checkpoints, their indexes and queues, and the progress of cleanups.
* `Roster`: attestors, their keys, and the lists that govern who may attest.
* `Settings`: the intervals, limits and policies set by operators.

Each part carries the log of the events about it. What belongs to no single chain is in `State`,
next to the registry of supported chains. -/

namespace Creditcoin

variable {H A B : Type}

/-- The errors of the two pallets. The constructors under the comment have no counterpart in the
error enumerations. -/
inductive Error
  | alreadyAttestor | attestorListFull | addressNotAttestor | invulnerableListFull
  | maxInvulnerablesCannotBeChanged | addressIsNotInvulnerable | attestationExists
  | chainNotSupported | invalidBlsPublicKey | invalidBlsSignature | invalidProofOfPossession
  | checkpointCreationError | lastCheckpointEmpty | checkpointWidthIsZero
  | checkpointingQueueDrained | attestationNotFound | checkpointTargetNotFound
  | invalidAttestorAccount | insufficientBalance | notStash | noMoreChunks | notYourAttestor
  | alreadyBonded | attestorNotIdle | invalidAttestationInterval
  | invalidAttestationsPerCheckpoint | invalidMaxCatchup | invalidTargetSampleSize
  | invalidMaxAttestors | tooManyAttestors | invalidAttestationBlockNumber
  | invalidAttestorFound | attestorNotActive | attestorWithInvalidPublicKey
  | majorityNotReached | blsKeyAlreadyRegistered | insufficientUniqueSigners
  | retiredAttestorPendingFull | attestorAlreadyAuthorized | notPreAuthorizedToRegister
  | controllerRetiredByAnotherStash | attestorNotAuthorized | noFinalizedAttestation
  | attestationsAlreadyExist | emptyContinuityProof | invalidAttestationContinuityProofTail
  | invalidAttestationContinuityProofHead | invalidAttestationPrevDigest | noSuchCheckpoint
  | lastCheckpointNotSet | triedToRevertDuringOngoingReversion | attestorAlreadyIdle
  | attestorChillAlreadyScheduled | checkpointMaintenanceInProgress | emptyCheckpointPatch
  | oversizedContinuityProof | attestationCleanupInProgress | tooManyAttestationsInBlock
  | invalidMaxInvulnerables
  | chainAlreadyRegistered | arithmetic | invalidMaturityStrategy | maturityStrategyUnchanged
  | chainNameUnchanged | tooManyChains
  -- Errors of the frame and of other pallets, and a loop that never returns.
  | badOrigin | arithmeticOverflow | transferFailed | noProviders | batchTooLong
  | nonTermination
  deriving DecidableEq

/-! ## Events -/

/-- Events about the attestations and checkpoints of a chain. -/
inductive AnchorEvent (H : Type)
  | blockAttested (headerNumber : ℕ) (digest : H)
  | checkpointReached (checkpoint : AttestationCheckpoint H)
  | checkpointsCleared
  | revertedAttestationChainTo (checkpointHeight : ℕ) (checkpointDigest : H)
  | forwardCheckpointPatchApplied (wipedSuffix : Bool) (tipBlockNumber : ℕ)
  | clearedStorageForRemovedChain
  deriving DecidableEq

inductive RosterEvent (A : Type)
  | attestorRegistered (attestorId : A)
  | attestorUnregistered (attestorId : A)
  | invulnerableRegistered (address : A)
  | invulnerableUnregistered (address : A)
  | attestorActivated (attestorId : A) (blsPublicKey : BlsPublicKey)
  | attestorChilled (attestorId : A)
  | attestorsElected (epoch : ℕ) (attestors : List A)
  | forcedElection (epoch : ℕ)
  | authorizedAttestorAdded (attestorId : A)
  | authorizedAttestorRemoved (attestorId : A)
  deriving DecidableEq

inductive AttestorElectionPolicy
  | openToAny
  | authorizedOnly
  | deniedToAll
  deriving DecidableEq

inductive SettingsEvent
  | pendingTargetSampleSizeSet (size : ℕ)
  | targetSampleSizeChanged (size : ℕ)
  | minBondRequirementUpdated (bond : ℕ)
  | attestationIntervalChanged (interval : ℕ)
  | pendingAttestationIntervalSet (interval : ℕ)
  | checkpointIntervalChanged (interval : ℕ)
  | maxCatchupChanged (maxCatchup : ℕ)
  | pendingMaxCatchupSet (maxCatchup : ℕ)
  | maxAttestorsChanged (maxAttestors : ℕ)
  | attestationChainGenesisBlockNumberSet (number : ℕ)
  | changedElectionPolicy (policy : AttestorElectionPolicy)
  deriving DecidableEq

/-- Events about no single chain. -/
inductive BondEvent (A : Type)
  | bonded (stash : A) (amount : ℕ)
  | unbonded (stash : A) (amount : ℕ)
  | withdrawn (stash : A) (amount : ℕ)
  | forcedUpdatesApplied
  deriving DecidableEq

/-! ## The parts of a chain -/

def checkpointBucketSize : ℕ := 1000

/-- The pivot of the bucket a height lies in. -/
def computeBlockIndexFor (blockNumber : ℕ) : ℕ :=
  blockNumber - blockNumber % checkpointBucketSize

/-- The buckets left to prune: those with a pivot from `nextPivot` up to `stopHeight`. -/
structure CheckpointPruningState where
  stopHeight : ℕ
  nextPivot : ℕ
  deriving DecidableEq

/-- Attestations and checkpoints of a chain, and what is in progress on them. -/
structure Anchors (H A : Type) where
  attestations : StorageMap H (SignedAttestation H A)
  checkpoints : StorageMap ℕ H
  /-- The heights of the checkpoints, each under its pivot. -/
  checkpointBuckets : StorageMap (ℕ × ℕ) Unit
  lastCheckpoint : Option (AttestationCheckpoint H)
  lastDigest : Option (ℕ × H)
  checkpointingQueue : List H
  attestationRemovalQueue : List H
  /-- The block of the last commit and the number of commits in it. -/
  attestationsInBlock : Option (ℕ × ℕ)
  checkpointPruningState : Option CheckpointPruningState
  attestationClearingCursor : Option Cursor
  checkpointClearingCursor : Option Cursor
  bucketClearingCursor : Option Cursor
  events : List (AnchorEvent H)

/-- The key of an unregistered attestor, kept until the bond is released. -/
structure RetiredAttestorBlsKeyEntry (A : Type) where
  blsPublicKey : BlsPublicKey
  purgeAtEra : ℕ
  stash : A
  deriving DecidableEq

/-- The next piece of attestor-side state to clear for a removed chain. -/
inductive RemovedChainCleanupPhase (A : Type)
  /-- Set attestors to idle, resuming after the one last handled. -/
  | chillAttestors (cursor : Option A)
  | retiredKeys
  | blsKeyOwners
  | invulnerables
  deriving DecidableEq

/-- The attestors of a chain and their keys. -/
structure Roster (A : Type) where
  attestors : StorageMap A (Attestor A)
  attestorsCount : ℕ
  activeAttestors : List A
  retiredAttestorBlsKeys : StorageMap A (RetiredAttestorBlsKeyEntry A)
  blsKeyOwner : StorageMap BlsPublicKey A
  invulnerables : StorageMap A Bool
  authorizedAttestors : StorageMap A Unit
  attestorCollateral : StorageMap A ℕ
  removedChainCleanup : Option (RemovedChainCleanupPhase A)
  events : List (RosterEvent A)

/-- What operators set for a chain. -/
structure Settings where
  chainAttestationInterval : ℕ
  pendingAttestationInterval : Option ℕ
  attestationCheckpointInterval : ℕ
  maxCatchup : ℕ
  pendingMaxCatchup : Option ℕ
  targetSampleSize : ℕ
  pendingTargetSampleSize : Option ℕ
  attestationRetentionDuration : ℕ
  attestationChainGenesisBlockNumber : ℕ
  maxAttestors : ℕ
  maxInvulnerables : ℕ
  minBondRequirement : ℕ
  chainElectionPolicy : AttestorElectionPolicy
  events : List SettingsEvent

/-- What the pallet stores under one chain key. -/
structure Chain (H A : Type) where
  anchors : Anchors H A
  roster : Roster A
  settings : Settings

/-! ## The state -/

/-- A part of a bond that is becoming free. -/
structure UnlockChunk where
  value : ℕ
  era : ℕ
  deriving DecidableEq

/-- The bond of a stash. -/
structure AttestorLedger (A : Type) where
  stash : A
  totalStaked : ℕ
  active : ℕ
  unlocking : List UnlockChunk
  deriving DecidableEq

/-- The encoding of source-chain blocks. -/
inductive ChainEncodingVersion
  | v1
  deriving DecidableEq

structure SupportedChain where
  chainId : ℕ
  chainName : List UInt8
  chainEncoding : ChainEncodingVersion
  maturityStrategy : String
  deriving DecidableEq

structure Bonds (A B : Type) where
  ledger : StorageMap A (AttestorLedger A)
  balances : B
  events : List (BondEvent A)

structure Registry where
  supportedChains : StorageMap ChainKey SupportedChain
  supportedChainsCount : ℕ
  chainIdAndNameToUniqKey : StorageMap (ℕ × List UInt8) ChainKey
  chainKeyValue : ChainKey

/-- The state of the two pallets, of the currency and of the clocks they read. -/
structure State (H A B : Type) where
  blockNumber : ℕ
  currentEpochIndex : ℕ
  currentEra : ℕ
  registry : Registry
  chains : StorageMap ChainKey (Chain H A)
  /-- The retired keys of each stash, as pairs of chain and controller. -/
  retiredAttestorKeysByStash : StorageMap A (List (ChainKey × A))
  bonds : Bonds A B

/-! ## Defaults -/

def Anchors.empty : Anchors H A where
  attestations := ∅
  checkpoints := ∅
  checkpointBuckets := ∅
  lastCheckpoint := none
  lastDigest := none
  checkpointingQueue := []
  attestationRemovalQueue := []
  attestationsInBlock := none
  checkpointPruningState := none
  attestationClearingCursor := none
  checkpointClearingCursor := none
  bucketClearingCursor := none
  events := []

def Roster.empty : Roster A where
  attestors := ∅
  attestorsCount := 0
  activeAttestors := []
  retiredAttestorBlsKeys := ∅
  blsKeyOwner := ∅
  invulnerables := ∅
  authorizedAttestors := ∅
  attestorCollateral := ∅
  removedChainCleanup := none
  events := []

/-- Every setting at its default. -/
def Settings.initial (T : Config H A B) : Settings where
  chainAttestationInterval := T.defaultAttestationInterval
  pendingAttestationInterval := none
  attestationCheckpointInterval := T.defaultAttestationsPerCheckpoint
  maxCatchup := T.defaultMaxCatchup
  pendingMaxCatchup := none
  targetSampleSize := T.defaultTargetSampleSize
  pendingTargetSampleSize := none
  attestationRetentionDuration := T.defaultAttestationRetentionDuration
  attestationChainGenesisBlockNumber := T.defaultAttestationChainGenesisBlockNumber
  maxAttestors := T.maxAttestationNodes
  maxInvulnerables := T.maxAttestationNodes
  minBondRequirement := T.defaultMinBondRequirement
  chainElectionPolicy := .openToAny
  events := []

def Chain.initial (T : Config H A B) : Chain H A where
  anchors := .empty
  roster := .empty
  settings := .initial T

/-! ## Access to one chain -/

namespace State

/-- What is stored under a chain key. -/
def chain (T : Config H A B) (s : State H A B) (k : ChainKey) : Chain H A :=
  (s.chains.lookup k).getD (.initial T)

def setChain (s : State H A B) (k : ChainKey) (c : Chain H A) : State H A B :=
  { s with chains := s.chains.insert k c }

variable (T : Config H A B) (s : State H A B)

def setAnchors (k : ChainKey) (a : Anchors H A) : State H A B :=
  s.setChain k { s.chain T k with anchors := a }

def setRoster (k : ChainKey) (r : Roster A) : State H A B :=
  s.setChain k { s.chain T k with roster := r }

def setSettings (k : ChainKey) (st : Settings) : State H A B :=
  s.setChain k { s.chain T k with settings := st }

def isChainSupported (k : ChainKey) : Bool := (s.registry.supportedChains.lookup k).isSome

theorem chain_setChain (k k' : ChainKey) (c : Chain H A) :
    (s.setChain k' c).chain T k = if k = k' then c else s.chain T k := by
  simp only [chain, setChain, StorageMap.lookup_insert_eq]
  split <;> rfl

@[simp] theorem chain_setChain_self (k : ChainKey) (c : Chain H A) :
    (s.setChain k c).chain T k = c := by
  rw [chain_setChain, if_pos rfl]

theorem chain_setChain_of_ne {k k' : ChainKey} (h : k ≠ k') (c : Chain H A) :
    (s.setChain k' c).chain T k = s.chain T k := by
  rw [chain_setChain, if_neg h]

theorem anchors_setAnchors (k : ChainKey) (a : Anchors H A) :
    ((s.setAnchors T k a).chain T k).anchors = a :=
  congrArg Chain.anchors (chain_setChain_self T s k _)

end State

end Creditcoin
