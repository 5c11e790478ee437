import Creditcoin.Attestation.Validate
import Creditcoin.BlockProver.KeccakMerkleTree
import Creditcoin.Foundations.Metered

/-!
# The block prover

The precompile that verifies transactions of source chains. A Merkle proof ties the bytes of a
transaction to a root, and a continuity proof ties that root, as the root of the block at the
height, to an attestation or a stable checkpoint of the chain. A batch of queries shares one
continuity proof. Calls pay gas before they do the work, revert with a message, and emit one event
for each transaction verified. The entry points have bounds on the lengths of their arguments, and
refuse longer ones before they do anything else. -/

namespace Creditcoin

open Metered

/-! ## Results of a call -/

/-- Why a continuity chain is rejected. -/
inductive ContinuityVerificationError
  | insufficientBlocks
  | tooManyRoots
  | chainDoesNotReachQueryHeight
  | noMatchingAttestationOrCheckpoint
  | rangeOverflow
  deriving DecidableEq

def ContinuityVerificationError.message : ContinuityVerificationError → String
  | .insufficientBlocks => "Continuity chain cannot be empty"
  | .tooManyRoots => "Continuity chain exceeds maximum allowed roots"
  | .chainDoesNotReachQueryHeight => "Continuity chain does not reach query height"
  | .noMatchingAttestationOrCheckpoint =>
    "Continuity proof does not match attestation or checkpoint"
  | .rangeOverflow => "Continuity chain range overflows u64"

inductive PrecompileFailure
  | revert (message : String)
  | outOfGas
  | other (message : String)
  deriving DecidableEq

def continuityRevert (err : ContinuityVerificationError) : PrecompileFailure := .revert err.message

structure TransactionVerified where
  chainKey : ChainKey
  height : ℕ
  txIndex : ℕ
  deriving DecidableEq

/-- The result of a call, which may use gas and emit events. -/
abbrev EvmResult := Metered PrecompileFailure TransactionVerified

def recordCost (cost : ℕ) : EvmResult Unit := charge .outOfGas cost

/-! ## Constants -/

/-- Keccak of three words. -/
def continuityBlockHashCost : ℕ := 48

def gasStorageLookup : ℕ := 2600

def maxContinuityRoots : ℕ := 50000

/-- The bound on the bytes of a transaction. -/
def constU10MB : ℕ := 10485760

def maxBatchSize : ℕ := 10

def calculateTxIndexBaseCost : ℕ := 10

def calculateTxIndexIterationCost : ℕ := 18

/-! ## The index of a transaction -/

section TxIndex

variable {H : Type}

/-- Set the bit of each level at which the sibling is on the left. -/
def orBits : ℕ → ℕ → List (MerkleProofEntry H) → ℕ
  | _, txIndex, [] => txIndex
  | bitPosition, txIndex, sibling :: siblings =>
    orBits (bitPosition + 1) (if sibling.isLeft then txIndex ||| 1 <<< bitPosition else txIndex)
      siblings

def calculateTxIndexImpl (merkleProof : TransactionMerkleProof H) : Except PrecompileFailure ℕ :=
  if merkleProof.siblings.isEmpty then .ok 0
  else if 64 < merkleProof.siblings.length then
    .error (.other "Merkle proof has too many siblings (max 64)")
  else .ok (orBits 0 0 merkleProof.siblings)

def calculateTxIndex (merkleProof : TransactionMerkleProof H) : EvmResult ℕ := do
  let iterationGas := calculateTxIndexIterationCost * merkleProof.siblings.length
  require (iterationGas ≤ u64Max) .outOfGas
  require (calculateTxIndexBaseCost + iterationGas ≤ u64Max) .outOfGas
  recordCost (calculateTxIndexBaseCost + iterationGas)
  ofResult (calculateTxIndexImpl merkleProof)

end TxIndex

/-! ## Verification -/

/-- The runtime in which the precompile runs: its digests are keccak hashes of bytes. -/
structure ProverConfig (H A B : Type) extends Config H A B where
  hashing : Keccak256 H
  keccak_eq : keccak = hashing.blockDigest

section Verify

variable {H A B : Type} [DecidableEq H] (P : ProverConfig H A B) (s : State H A B)

/-- Pay for a number of hashes. -/
def recordHashes (count : ℕ) : EvmResult Unit := do
  require (continuityBlockHashCost * count ≤ u64Max) .outOfGas
  recordCost (continuityBlockHashCost * count)

def verifyMerkleProof (merkleProof : TransactionMerkleProof H) (txBytes : Bytes) :
    EvmResult Bool := do
  recordHashes merkleProof.siblings.length
  pure (merkleProof.verify P.hashing txBytes)

def getAttestation (k : ChainKey) (digest : H) : EvmResult (Option (SignedAttestation H A)) := do
  recordCost (satMul u64Max gasStorageLookup 2)
  pure ((s.chain P.toConfig k).anchors.get digest)

def getCheckpoint (k : ChainKey) (blockNumber : ℕ) : EvmResult (Option H) := do
  recordCost (satMul u64Max gasStorageLookup 1)
  if s.isChainSupported k then do
    recordCost (satMul u64Max gasStorageLookup 2)
    pure ((s.chain P.toConfig k).anchors.checkpointIfStable blockNumber)
  else pure none

/-- Does the checkpoint at a height have the digest? It is read only if no attestation matches. -/
def checkpointMatches (attestationMatches : Bool) (k : ChainKey) (blockNumber : ℕ) (digest : H) :
    EvmResult Bool :=
  if attestationMatches then pure false
  else do
    let checkpoint ← getCheckpoint P s k blockNumber
    pure ((checkpoint.map fun d => d == digest).getD false)

/-- The chain of roots must reach the queried height and end at an attestation or a checkpoint. -/
def verifyContinuityChain (continuityProof : ContinuityProof H) (startBlockNumber : ℕ)
    (k : ChainKey) (height : ℕ) : EvmResult Unit := do
  require (continuityProof.roots ≠ []) (continuityRevert .insufficientBlocks)
  require (continuityProof.roots.length ≤ maxContinuityRoots) (continuityRevert .tooManyRoots)
  let finalBlockNumber := startBlockNumber + (continuityProof.roots.length - 1)
  require (finalBlockNumber ≤ u64Max) (continuityRevert .rangeOverflow)
  require (height ≤ finalBlockNumber) (continuityRevert .chainDoesNotReachQueryHeight)
  recordHashes continuityProof.roots.length
  let finalDigest := continuityProof.computeContinuityDigest P.keccak startBlockNumber
  let attestation ← getAttestation P s k finalDigest
  let attestationMatches :=
    (attestation.map fun a => a.headerNumber == finalBlockNumber).getD false
  let checkpointMatches ← checkpointMatches P s attestationMatches k finalBlockNumber finalDigest
  require (attestationMatches || checkpointMatches)
    (continuityRevert .noMatchingAttestationOrCheckpoint)

/-- The checks made of one query, in the single call and in a batch. -/
def verifyQuery (startBlockNumber : ℕ) (height : U64) (encodedTransaction : Bytes)
    (merkleProof : TransactionMerkleProof H) (continuityProof : ContinuityProof H) :
    EvmResult Unit := do
  require (encodedTransaction ≠ []) (.revert "Transaction data cannot be empty")
  let valid ← verifyMerkleProof P merkleProof encodedTransaction
  require (valid = true) (.revert "Merkle proof validation failed")
  let queryBlockIdx ← ofResult
    (okOr (continuityProof.findQueryBlockIndex startBlockNumber height)
      (.revert "Query block not found in continuity chain"))
  require (continuityProof.roots[queryBlockIdx]? = some merkleProof.root)
    (.revert "Merkle root mismatch")

/-- Emit the event of a verified transaction, unless the call is a view. -/
def logTransactionVerified (emitEvents : Bool) (k : ChainKey) (height : U64)
    (merkleProof : TransactionMerkleProof H) : EvmResult Unit :=
  if emitEvents then do
    let txIndex ← ofResult (calculateTxIndexImpl merkleProof)
    emit ⟨k, height, txIndex⟩
  else pure ()

/-- Verify one query. The first root is that of the queried block. -/
def verifyImpl (k : ChainKey) (height : U64) (encodedTransaction : Bytes)
    (merkleProof : TransactionMerkleProof H) (continuityProof : ContinuityProof H)
    (emitEvents : Bool) : EvmResult Bool := do
  verifyQuery P height height encodedTransaction merkleProof continuityProof
  verifyContinuityChain P s continuityProof height k height
  logTransactionVerified emitEvents k height merkleProof
  pure true

/-- Verify a batch of queries. The first root is that of the lowest queried block. -/
def verifyBatchImpl (k : ChainKey) (heights : List U64) (encodedTransactions : List Bytes)
    (merkleProofs : List (TransactionMerkleProof H)) (sharedContinuityProof : ContinuityProof H)
    (emitEvents : Bool) : EvmResult Bool := do
  require (heights.length = encodedTransactions.length ∧ heights.length = merkleProofs.length)
    (.revert "Should have the same number of heights, encoded transactions, and merkle proofs")
  require (heights ≠ []) (.revert "Should have at least one height")
  let minHeight := (heights.map Fin.val).min?.getD 0
  let maxHeight := (heights.map Fin.val).max?.getD 0
  require (sharedContinuityProof.roots ≠ []) (.revert "Continuity chain cannot be empty")
  let lastBlockNumber := minHeight + (sharedContinuityProof.roots.length - 1)
  require (lastBlockNumber ≤ u64Max) (.revert "Continuity chain range overflows u64")
  require (maxHeight ≤ lastBlockNumber)
    (.revert "Continuity chain doesn't cover maximum query height")
  verifyContinuityChain P s sharedContinuityProof minHeight k maxHeight
  (heights.zip (encodedTransactions.zip merkleProofs)).forM fun q => do
    verifyQuery P minHeight q.1 q.2.1 q.2.2 sharedContinuityProof
    logTransactionVerified emitEvents k q.1 q.2.2
  pure true

/-! ## Entry points -/

/-- Decode an argument of bounded length. The texts are those of the decoder. -/
def decodeBounded {α : Type} (field : String) (bound : ℕ) (argument : List α) : EvmResult Unit :=
  require (argument.length ≤ bound) (.revert (field ++ ": Value is too large for length"))

/-- The single call: `verify`, or `verifyAndEmit` if it emits an event. -/
def verifyCall (emitEvents : Bool) (k : ChainKey) (height : U64) (encodedTransaction : Bytes)
    (merkleProof : TransactionMerkleProof H) (continuityProof : ContinuityProof H) :
    EvmResult Bool := do
  decodeBounded "encodedTransaction" constU10MB encodedTransaction
  verifyImpl P s k height encodedTransaction merkleProof continuityProof emitEvents

def verify := verifyCall P s false

def verifyAndEmit := verifyCall P s true

def decodeBatch (heights : List U64) (encodedTransactions : List Bytes)
    (merkleProofs : List (TransactionMerkleProof H)) : EvmResult Unit := do
  decodeBounded "heights" maxBatchSize heights
  decodeBounded "encodedTransactions" maxBatchSize encodedTransactions
  encodedTransactions.forM (decodeBounded "encodedTransactions" constU10MB)
  decodeBounded "merkleProofs" maxBatchSize merkleProofs

/-- The call for a batch: `verifyBatch`, or `verifyBatchAndEmit` if it emits events. -/
def verifyBatchCall (emitEvents : Bool) (k : ChainKey) (heights : List U64)
    (encodedTransactions : List Bytes) (merkleProofs : List (TransactionMerkleProof H))
    (sharedContinuityProof : ContinuityProof H) : EvmResult Bool := do
  decodeBatch heights encodedTransactions merkleProofs
  verifyBatchImpl P s k heights encodedTransactions merkleProofs sharedContinuityProof emitEvents

def verifyBatch := verifyBatchCall P s false

def verifyBatchAndEmit := verifyBatchCall P s true

end Verify

end Creditcoin
