import Creditcoin.Attestation.Commit

/-!
# Cleanups that span several blocks

Deletions too large for one call are continued at the start of the following blocks. Pruning walks
the checkpoint buckets above a revert, a bounded number of rows per block. The other cleanups ask
the host to delete everything under a prefix and keep its cursor. -/

namespace Creditcoin

variable {H A B : Type} [DecidableEq H]

/-- The largest number of checkpoints cleared in a block. -/
def maxCheckpointsClearedPerBlock : ℕ := 40

/-! ## Pruning -/

/-- The loop of `prune_checkpoints_impl`, with the pivots and the entries it may still visit. It
stops in the middle of a bucket only when no entry is left, and then stores where it stopped. -/
def pruneLoop (T : Config H A B) : ℕ → ℕ → CheckpointPruningState → Anchors H A → Anchors H A
  | 0, _, state, a => { a with checkpointPruningState := some state }
  | remainingPivots + 1, remainingEntries, state, a =>
    if remainingEntries = 0 then { a with checkpointPruningState := some state }
    else if state.stopHeight < state.nextPivot then { a with checkpointPruningState := none }
    else
      let removalHeights :=
        (a.bucketHeights T state.nextPivot).take (maxCheckpointsClearedPerBlock + 1)
      let removalLimit := min removalHeights.length remainingEntries
      let removed := a.removeCheckpoints state.nextPivot (removalHeights.take removalLimit)
      if removalHeights.length = removalLimit then
        pruneLoop T remainingPivots (remainingEntries - removalLimit)
          { state with nextPivot := satAdd u64Max state.nextPivot checkpointBucketSize } removed
      else { removed with checkpointPruningState := some state }

/-- One block's worth of pruning. -/
def pruneCheckpoints (T : Config H A B) (state : CheckpointPruningState) (a : Anchors H A) :
    Anchors H A :=
  pruneLoop T (maxCheckpointsClearedPerBlock * 2) maxCheckpointsClearedPerBlock state a

/-! ## The other cleanups of a block -/

/-- Continue the deletion of the checkpoints of a removed chain. -/
def clearCheckpoints (kill : KillResult ℕ) (a : Anchors H A) : Anchors H A :=
  let cleared := a.checkpoints.clearPrefix kill
  { a with
    checkpoints := cleared.1
    checkpointClearingCursor := cleared.2
    events := a.events ++ [.checkpointsCleared] }

/-- Continue the deletion of the checkpoint buckets of a removed chain. -/
def clearBuckets (kill : KillResult (ℕ × ℕ)) (a : Anchors H A) : Anchors H A :=
  let cleared := a.checkpointBuckets.clearPrefix kill
  { a with checkpointBuckets := cleared.1, bucketClearingCursor := cleared.2 }

/-! ## Removal of a chain -/

/-- The answers of the host to the deletions one call or one block asks for. The last two deletions
come with a limit that depends on what was done before, and the answer may depend on it and on the
rows that are there. -/
structure Host (H A : Type) where
  attestations : KillResult H
  checkpoints : KillResult ℕ
  checkpointBuckets : KillResult (ℕ × ℕ)
  blsKeyOwner : ℕ → StorageMap BlsPublicKey A → KillResult BlsPublicKey
  invulnerables : ℕ → StorageMap A Bool → KillResult A

/-- Start the deletion of checkpoints and buckets of a removed chain. A deletion that is done at
once is announced here, since no block continues it. -/
def startClearingCheckpoints (host : Host H A) (a : Anchors H A) : Anchors H A :=
  let checkpoints := a.checkpoints.clearPrefix host.checkpoints
  let buckets := a.checkpointBuckets.clearPrefix host.checkpointBuckets
  { a with
    checkpoints := checkpoints.1
    checkpointBuckets := buckets.1
    checkpointClearingCursor := checkpoints.2.or a.checkpointClearingCursor
    bucketClearingCursor := buckets.2.or a.bucketClearingCursor
    events := a.events ++ if checkpoints.2.isNone then [.checkpointsCleared] else [] }

/-- What the removal of a chain does to its attestations and checkpoints. -/
def removeChainAnchors (host : Host H A) (removeCheckpoints : Bool) (a : Anchors H A) :
    Anchors H A :=
  let cleared :=
    { a.clearAttestations host.attestations with
      checkpointingQueue := []
      attestationRemovalQueue := []
      attestationsInBlock := none
      lastCheckpoint := none
      lastDigest := none }
  let started := if removeCheckpoints then startClearingCheckpoints host cleared else cleared
  { started with
    checkpointPruningState := none
    events := started.events ++ [.clearedStorageForRemovedChain] }

/-- What the removal of a chain does to its settings. The bond requirement, the election policy and
the genesis height stay. -/
def removeChainSettings (T : Config H A B) (st : Settings) : Settings :=
  { Settings.initial T with
    attestationChainGenesisBlockNumber := st.attestationChainGenesisBlockNumber
    minBondRequirement := st.minBondRequirement
    chainElectionPolicy := st.chainElectionPolicy
    events := st.events }

end Creditcoin
