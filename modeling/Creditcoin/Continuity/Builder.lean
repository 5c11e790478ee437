import Creditcoin.Attestation.Validate
import Creditcoin.Attestor.Stream
import Mathlib.Data.List.MinMax

/-!
# Building continuity proofs from the chain

A continuity proof for some heights is built between two points on record, attestations or
checkpoints: one below the heights and one at or above them. The bounds finder picks the closest
ones; if there is no point above yet, the next one is predicted from the attestation interval. The
builder checks that the points enclose the heights, has the source chain provider build the blocks
between and cuts them off below the lowest of the heights.

The providers are parameters: what they answer, and what is printed of their errors. Progress
messages are left out. -/

namespace Creditcoin.Continuity

open Attestor (Block)

variable {H A : Type}

/-! ## Errors -/

/-- Why no proof is built. -/
inductive ContinuityError
  | noAttestations (chainKey : ChainKey)
  | rpc (message : String)
  | invalidBounds (message : String)
  | attestationIntervalNotConfigured (chainKey : ChainKey)
  | emptyQuery
  | upperBoundNotOnSourceChain (queryBlock upperBlock currentBlock : U64)
  deriving DecidableEq

def ContinuityError.display : ContinuityError → String
  | .noAttestations chainKey => s!"No attestations available for chain_key {chainKey}"
  | .rpc message => s!"RPC error: {message}"
  | .invalidBounds message => s!"Invalid attestation bounds: {message}"
  | .attestationIntervalNotConfigured chainKey =>
    s!"Attestation interval not configured for chain_key {chainKey}. " ++
      "Cannot predict upper bound."
  | .emptyQuery => "Empty query: no block heights provided"
  | .upperBoundNotOnSourceChain queryBlock upperBlock currentBlock =>
    "Cannot build continuity proof yet: predicted upper attestation bound " ++
      s!"(block {upperBlock}) does not exist on the source chain yet. " ++
      s!"Current source chain height: {currentBlock}. Query block {queryBlock} exists, " ++
      "but the proof requires the next attestation block which hasn't been mined yet."

/-- How a call ends without a result. -/
inductive Failure
  | error (e : ContinuityError)
  | panicked
  deriving DecidableEq

abbrev ContinuityResult := Except Failure

def rpcError (message : String) : Failure := .error (.rpc message)

/-- An error that is reported as the text of an RPC error. -/
def Failure.asRpc : Failure → Failure
  | .error e => rpcError e.display
  | .panicked => .panicked

/-! ## Points -/

/-- A block of a proof, as the indexer stores it. -/
structure ContinuityBlockData (H : Type) where
  blockNumber : ℕ
  root : H
  prevDigest : Option H

/-- An attestation or a checkpoint. Its proof is known only if it comes from an indexer. -/
structure AttestationWithProof (H : Type) where
  root : H
  digest : H
  prevDigest : Option H
  blockNumber : U64
  continuityProofData : Option (List (ContinuityBlockData H))

namespace AttestationWithProof

def fromSignedAttestation (keccak : ℕ → H → Option H → H) (attestation : SignedAttestation H A) :
    AttestationWithProof H where
  root := attestation.attestation.root
  digest := attestation.digest keccak
  prevDigest := attestation.prevDigest
  blockNumber := ⟨attestation.headerNumber, attestation.headerNumber_lt⟩
  continuityProofData := none

/-- A checkpoint has no root and no previous digest. -/
def fromCheckpoint (zero : H) (checkpoint : AttestationCheckpoint H) : AttestationWithProof H where
  root := zero
  digest := checkpoint.digest
  prevDigest := none
  blockNumber := ⟨checkpoint.blockNumber, checkpoint.blockNumber_lt⟩
  continuityProofData := none

end AttestationWithProof

/-! ## Providers -/

/-- What the chain answers about one source chain. -/
structure CcRpcProvider (H A : Type) where
  getAttestationsForChain : Except String (List (SignedAttestation H A))
  getCheckpointsForChain : Except String (List (AttestationCheckpoint H))
  getAttestationInterval : Except String (Option U64)

/-- What the client reads of the storage, from the highest to the lowest. Attestations that are
being cleared it does not read. -/
def chainProvider (k : ChainKey) (a : Anchors H A) (interval : Except String (Option U64)) :
    CcRpcProvider H A where
  getAttestationsForChain :=
    if a.attestationsStable then
      .ok ((a.attestations.entries.map fun row => row.2).insertionSort
        fun x y => y.headerNumber ≤ x.headerNumber)
    else .error (s!"Failed to fetch attestations: Attestations of chain {k} are still being " ++
      "cleared on-chain, retry once that finishes")
  getCheckpointsForChain :=
    .ok ((a.checkpoints.entries.map fun row => .of (Fin.ofNat _ row.1) row.2).insertionSort
      fun x y => y.blockNumber ≤ x.blockNumber)
  getAttestationInterval := interval

/-- What builds the blocks `start` to `stop` of the source chain on a digest. -/
abbrev EthRpcProvider (H : Type) := H → ℕ → ℕ → Except String (List (Block H))

/-! ## Finding the bounds -/

/-- The last of the elements with the greatest key. -/
def maxByKey {α : Type} (key : α → ℕ) (l : List α) : Option α := l.reverse.argmax key

/-- The first of the elements with the smallest key. -/
def minByKey {α : Type} (key : α → ℕ) (l : List α) : Option α := l.argmin key

/-- The better of a checkpoint and an attestation, and the checkpoint if they are as good. -/
def closest (better : U64 → U64 → Prop) [DecidableRel better] :
    Option (AttestationWithProof H) → Option (AttestationWithProof H) →
      Option (AttestationWithProof H)
  | some c, some a => some (if better c.blockNumber a.blockNumber then c else a)
  | some c, none => some c
  | none, found => found

section Bounds

variable (keccak : ℕ → H → Option H → H) (zero : H) (chainKey : ChainKey)
  (provider : CcRpcProvider H A)

/-- The closest point at or below a height. -/
def findLowerBound (requiredBefore : ℕ) (attestations : List (SignedAttestation H A))
    (checkpoints : Option (List (AttestationCheckpoint H))) :
    ContinuityResult (AttestationWithProof H) :=
  let checkpointLower := checkpoints.bind fun cps =>
    (maxByKey (·.blockNumber) (cps.filter fun c => c.blockNumber ≤ requiredBefore)).map
      (.fromCheckpoint zero)
  let attestationLower :=
    (maxByKey (·.headerNumber) (attestations.filter fun a => a.headerNumber ≤ requiredBefore)).map
      (.fromSignedAttestation keccak)
  let queryHeight := requiredBefore + 1
  okOr (closest (fun c a => a ≤ c) checkpointLower attestationLower)
    (rpcError (s!"No consensus point found before block {requiredBefore} " ++
      s!"(query height: {queryHeight})"))

/-- The closest point at or above a height. -/
def findUpperBound (maxQuery : ℕ) (attestations : List (SignedAttestation H A))
    (checkpoints : Option (List (AttestationCheckpoint H))) : Option (AttestationWithProof H) :=
  let checkpointUpper := checkpoints.bind fun cps =>
    (minByKey (·.blockNumber) (cps.filter fun c => maxQuery ≤ c.blockNumber)).map
      (.fromCheckpoint zero)
  let attestationUpper :=
    (minByKey (·.headerNumber) (attestations.filter fun a => maxQuery ≤ a.headerNumber)).map
      (.fromSignedAttestation keccak)
  closest (fun c a => c ≤ a) checkpointUpper attestationUpper

/-- The points around the heights. Checkpoints that cannot be read are left out. -/
def findAttestationBounds (minQuery maxQuery : U64) (attestations : List (SignedAttestation H A)) :
    ContinuityResult (AttestationWithProof H × Option (AttestationWithProof H)) := do
  let requiredBefore := minQuery.val - 1
  let checkpoints := provider.getCheckpointsForChain.toOption
  let lower ← findLowerBound keccak zero requiredBefore attestations checkpoints
  pure (lower, findUpperBound keccak zero maxQuery.val attestations checkpoints)

/-- The next multiple of the interval, as a point whose digest is not known. -/
def predictNextAttestation (block : U64) : ContinuityResult (AttestationWithProof H) := do
  let interval ← okOr (← provider.getAttestationInterval.mapError rpcError)
    (.error (.attestationIntervalNotConfigured chainKey))
  -- A division by zero panics.
  ensure (interval.val ≠ 0) .panicked
  let nextAttestationBlock := (block.val / interval.val + 1) * interval.val
  pure ⟨zero, zero, none, Fin.ofNat _ nextAttestationBlock, none⟩

def validatePredictedUpperBound (predictedBlock queryBlock : U64) (currentBlock : Option U64) :
    ContinuityResult Unit :=
  match currentBlock with
  | some currentBlock =>
    ensure (predictedBlock ≤ currentBlock)
      (.error (.upperBoundNotOnSourceChain queryBlock predictedBlock currentBlock))
  | none => .ok ()

/-- The bounds of a proof, from the points on the chain. -/
def findBounds (minQuery maxQuery : U64) (currentBlock : Option U64) :
    ContinuityResult (AttestationWithProof H × AttestationWithProof H) := do
  let attestations ← provider.getAttestationsForChain.mapError fun cause =>
    rpcError s!"Failed to fetch attestations from CC3 chain: {cause}"
  ensure (attestations ≠ []) (.error (.noAttestations chainKey))
  let bounds ← (findAttestationBounds keccak zero provider minQuery maxQuery attestations).mapError
    Failure.asRpc
  match bounds.2 with
  | some upper => pure (bounds.1, upper)
  | none =>
    let predicted ← predictNextAttestation zero chainKey provider maxQuery
    validatePredictedUpperBound predicted.blockNumber maxQuery currentBlock
    pure (bounds.1, predicted)

end Bounds

/-! ## Building between the bounds -/

section Build

variable (provider : EthRpcProvider H)

/-- Build the blocks between two points, and cut them off below the lowest height. -/
def buildAndTrimContinuity (lower upper : AttestationWithProof H) (minQuery : U64) :
    ContinuityResult (List (Block H)) := do
  let requiredStart := minQuery.val
  let endHeight := upper.blockNumber.val
  let buildStart := (lower.blockNumber.val + 1) % 2 ^ 64
  ensure (buildStart ≤ endHeight) .panicked
  let allBlocks ← (provider lower.digest buildStart endHeight).mapError fun cause =>
    rpcError s!"Failed to build continuity blocks: {cause}"
  let first := (allBlocks.head?.map (·.blockNumber)).getD 0
  let last := (allBlocks.getLast?.map (·.blockNumber)).getD 0
  let startIndex ← okOr (allBlocks.findIdx? fun b => b.blockNumber = requiredStart)
    (rpcError (s!"Block {requiredStart} not found in continuity chain " ++
      s!"(range: {first}-{last})"))
  let trimmed := allBlocks.drop startIndex
  match trimmed.getLast? with
  | some lastBlock =>
    let got := lastBlock.blockNumber
    ensure (got = endHeight)
      (rpcError ("Trimmed blocks don't end at upper attestation block: " ++
        s!"expected {endHeight}, got {got}"))
  | none => pure ()
  pure trimmed

/-- The blocks and the digest below the first of them. -/
def buildFromSourceChain (lower upper : AttestationWithProof H) (minQuery : U64) :
    ContinuityResult (List (Block H) × Option H) := do
  let chainBlocks ← (buildAndTrimContinuity provider lower upper minQuery).mapError Failure.asRpc
  pure (chainBlocks, chainBlocks.head?.map (·.prevDigest))

/-- The blocks of a proof, and the digest below them if it was given. -/
structure BuiltContinuityProof (H : Type) where
  blocks : List (Block H)
  lowerEndpointDigest : Option H

/-- Build a proof for some heights between two points. No indexer is configured. -/
def buildForHeights (queryHeights : List U64)
    (lowerAttestation upperAttestation : AttestationWithProof H) :
    ContinuityResult (BuiltContinuityProof H) := do
  let minQuery ← okOr queryHeights.min? (.error .emptyQuery)
  let maxQuery ← okOr queryHeights.max? (.error .emptyQuery)
  let lower := lowerAttestation.blockNumber
  let upper := upperAttestation.blockNumber
  ensure (maxQuery ≤ upper ∧ lower < minQuery) (.error (.invalidBounds
    ("Query heights not contained by attestation bounds! " ++
      s!"min_query: {minQuery}, max_query: {maxQuery}, " ++
      s!"lower_attestation: {lower}, upper_attestation: {upper}")))
  let built ← buildFromSourceChain provider lowerAttestation upperAttestation minQuery
  pure ⟨built.1, built.2⟩

end Build

/-! ## The proof that is handed out -/

/-- The proof in the format of the prover. -/
def BuiltContinuityProof.toAttestorProof (proof : BuiltContinuityProof H) :
    Option (ContinuityProof H) :=
  match proof.blocks with
  | [] => proof.lowerEndpointDigest.map fun digest => ⟨digest, []⟩
  | first :: blocks =>
    some ⟨proof.lowerEndpointDigest.getD first.prevDigest, (first :: blocks).map (·.root)⟩

end Creditcoin.Continuity
