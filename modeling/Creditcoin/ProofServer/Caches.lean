import Creditcoin.Attestation.Validate
import Creditcoin.Attestor.Stream
import Creditcoin.CcClient

/-!
# The proof server

For each chain it serves, the proof server caches the heights and digests of checkpoints and of
attestations, loaded from the storage when it starts and kept up to date by the events. A continuity
proof is built between two cached points, from the roots that a provider returns.

The cache of Merkle proofs, its settings, the last checkpoint kept as a hint and the metrics are
left out. -/

namespace Creditcoin.ProofServer

open Attestor (Block)

variable {H A : Type}

/-! ## Ordered maps -/

/-- The row with the greatest key below `n`. -/
def lastBelow (m : StorageMap U64 H) (n : U64) : Option (U64 × H) :=
  (m.keys.filter fun key => key < n).max?.bind fun key => (m.lookup key).map fun v => (key, v)

/-- The row with the smallest key from `n` on. -/
def firstFrom (m : StorageMap U64 H) (n : U64) : Option (U64 × H) :=
  (m.keys.filter fun key => n ≤ key).min?.bind fun key => (m.lookup key).map fun v => (key, v)

/-- Remove the row with the smallest key. -/
def popFirst (m : StorageMap U64 H) : StorageMap U64 H :=
  match m.keys.min? with
  | some key => m.erase key
  | none => m

/-! ## The caches of a chain -/

/-- What is cached of a chain. -/
structure ChainState (H : Type) where
  chainKey : ChainKey
  checkpointCache : StorageMap U64 H
  attestationCache : StorageMap U64 H
  /-- How many checkpoints are cached at most. -/
  checkpointCacheMaxEntries : Option ℕ

namespace ChainState

variable (c : ChainState H)

def insertAttestation (blockNumber : U64) (digest : H) : ChainState H :=
  { c with attestationCache := c.attestationCache.insert blockNumber digest }

/-- Drop everything above a height. -/
def revertCaches (revertHeight : U64) : ChainState H :=
  let splitKey := satAdd u64Max revertHeight 1
  { c with
    attestationCache := c.attestationCache.retain fun n => n < splitKey
    checkpointCache := c.checkpointCache.retain fun n => n < splitKey }

def pruneAttestationsAtOrBelow (height : U64) : ChainState H :=
  let splitKey := satAdd u64Max height 1
  { c with attestationCache := c.attestationCache.retain fun n => splitKey ≤ n }

/-- Cache a checkpoint, and drop the oldest ones over the limit. -/
def insertCheckpoint (blockNumber : U64) (digest : H) : ChainState H :=
  let cp := c.checkpointCache.insert blockNumber digest
  { c with
    checkpointCache :=
      match c.checkpointCacheMaxEntries with
      | some maxEntries => popFirst^[cp.keys.length - maxEntries] cp
      | none => cp }

/-- Handle an event of the chain. The settings it may announce only size the cache of Merkle
proofs. -/
def processCcEvent : CcEvent H A → ChainState H
  | .blockAttested headerNumber digest => c.insertAttestation headerNumber digest
  | .checkpointReached checkpoint =>
    let blockNumber : U64 := ⟨checkpoint.blockNumber, checkpoint.blockNumber_lt⟩
    (c.insertCheckpoint blockNumber checkpoint.digest).pruneAttestationsAtOrBelow blockNumber
  | .revertedAttestationChainTo height _ => c.revertCaches height
  | _ => c

end ChainState

/-- The caches when the server starts: every checkpoint and every attestation in the storage. The
client refuses to read attestations that are being cleared; checkpoints it reads in any case. -/
def ChainState.load (keccak : ℕ → H → Option H → H) (chainKey : ChainKey)
    (checkpointCacheMaxEntries : Option ℕ) (a : Anchors H A) : Option (ChainState H) :=
  if a.attestationsStable then
    some {
      chainKey := chainKey
      checkpointCache := StorageMap.insertAll ∅
        (a.checkpoints.entries.map fun row => (Fin.ofNat _ row.1, row.2))
      attestationCache := StorageMap.insertAll ∅ (a.attestations.entries.map fun row =>
        (⟨row.2.headerNumber, row.2.headerNumber_lt⟩, row.2.digest keccak))
      checkpointCacheMaxEntries := checkpointCacheMaxEntries }
  else none

/-! ## Errors -/

/-- Why no proof is returned. -/
inductive ServiceError
  | attestationsMissing (chainKey : ChainKey)
  | blockNotReady (blockNumber lastAttestedBlock : U64)
  | internal (message : String)
  deriving DecidableEq

def debugOption : Option U64 → String
  | some n => s!"Some({n})"
  | none => "None"

/-- The first and the last key. -/
def cacheSpan (m : StorageMap U64 H) : String :=
  match m.keys.min?, m.keys.max? with
  | some lo, some hi => s!"{lo}..={hi}"
  | _, _ => "empty"

def formatBoundaryMissOpsDetail (chainKey : ChainKey) (minQuery maxQuery : U64)
    (att cp : StorageMap U64 H) : String :=
  let attLower := debugOption ((lastBelow att minQuery).map Prod.fst)
  let attUpper := debugOption ((firstFrom att maxQuery).map Prod.fst)
  let attSpan := cacheSpan att
  let attLen := att.keys.length
  let cpLower := debugOption ((lastBelow cp minQuery).map Prod.fst)
  let cpUpper := debugOption ((firstFrom cp maxQuery).map Prod.fst)
  let cpSpan := cacheSpan cp
  let cpLen := cp.keys.length
  let requestDesc :=
    if minQuery = maxQuery then s!"requested block {minQuery}"
    else s!"requested blocks {minQuery}..={maxQuery}"
  s!"no attestation or checkpoint window in cache (chain_key={chainKey}) for {requestDesc}; " ++
    s!"need greatest cached block < {minQuery} and smallest cached block >= {maxQuery}. " ++
    s!"Attestations: n={attLen} span={attSpan} greatest_strictly_before={attLower} " ++
    s!"smallest_at_or_after={attUpper}. " ++
    s!"Checkpoints: n={cpLen} span={cpSpan} greatest_strictly_before={cpLower} " ++
    s!"smallest_at_or_after={cpUpper}"

/-- The error when no two cached points enclose the heights. -/
def ChainState.boundaryLookupFailedError (c : ChainState H) (minQuery maxQuery : U64) :
    ServiceError :=
  let lastCoverage :=
    match c.attestationCache.keys.max?, c.checkpointCache.keys.max? with
    | some a, some b => some (max a b)
    | some a, none => some a
    | none, some b => some b
    | none, none => none
  match lastCoverage with
  | none => .attestationsMissing c.chainKey
  | some lastCoverage =>
    if lastCoverage < maxQuery then .blockNotReady maxQuery lastCoverage
    else .internal (formatBoundaryMissOpsDetail c.chainKey minQuery maxQuery c.attestationCache
      c.checkpointCache)

/-! ## The provider of roots -/

/-- What builds the blocks `start` to `stop` from the digest below them, or fails with the error
that is reported. -/
abbrev EthProvider (H : Type) := H → ℕ → ℕ → Except ServiceError (List (Block H))

section Archiver

variable (keccak : ℕ → H → Option H → H)

/-- The loop over the roots of the archiver, which must be at consecutive heights. -/
def archiverLoop (start stop : ℕ) : ℕ → H → List (ℕ × H) → Except ServiceError (List (Block H))
  | _, _, [] => .ok []
  | i, prevDigest, (height, root) :: roots => do
    let expectedHeight := start + i
    ensure (height = expectedHeight) (.internal
      ("failed to build continuity blocks: archiver returned out-of-order or off-by-one " ++
        s!"entry at index {i}: expected block {expectedHeight}, got {height} " ++
        s!"(range {start}..={stop})"))
    let block := Block.newFromPrevDigest keccak height root prevDigest
    let blocks ← archiverLoop start stop (i + 1) block.digest roots
    pure (block :: blocks)

/-- The provider over an archiver, of which `getRoots` is the answer. -/
def archiverProvider (getRoots : ℕ → ℕ → Except ServiceError (List (ℕ × H))) : EthProvider H :=
  fun lowerDigest start stop => do
    let roots ← getRoots start stop
    ensure (roots ≠ []) (.internal
      ("failed to build continuity blocks: archiver returned no roots for range " ++
        s!"{start}..{stop}"))
    let len := roots.length
    let expectedCount := stop - start + 1
    ensure (len = expectedCount) (.internal
      (s!"failed to build continuity blocks: archiver returned {len} roots but expected " ++
        s!"{expectedCount} for range {start}..={stop}"))
    archiverLoop keccak start stop 0 lowerDigest roots

end Archiver

/-! ## Building a proof -/

/-- The cached points between which a proof is built. -/
structure Boundaries (H : Type) where
  lower : U64
  lowerDigest : H
  upper : U64
  upperDigest : H

/-- The point of one cache below the heights and that of another at or above them. -/
def boundaries (lowerCache upperCache : StorageMap U64 H) (minQuery maxQuery : U64) :
    Option (Boundaries H) :=
  (lastBelow lowerCache minQuery).bind fun lower =>
    (firstFrom upperCache maxQuery).map fun upper => ⟨lower.1, lower.2, upper.1, upper.2⟩

namespace ChainState

variable (c : ChainState H) (minQuery maxQuery : U64)

def getAttestationBoundaries : Option (Boundaries H) :=
  boundaries c.attestationCache c.attestationCache minQuery maxQuery

def getCheckpointBoundaries : Option (Boundaries H) :=
  boundaries c.checkpointCache c.checkpointCache minQuery maxQuery

def getMixedBoundaries : Option (Boundaries H) :=
  (boundaries c.checkpointCache c.attestationCache minQuery maxQuery).or
    (boundaries c.attestationCache c.checkpointCache minQuery maxQuery)

end ChainState

section Build

-- `debug` prints digests.
variable [DecidableEq H] (provider : EthProvider H) (debug : H → String)

/-- The digest reached at the upper point has to be the cached one. -/
def verifyUpperBoundary (blocks : List (Block H)) (buildFrom upper : ℕ) (upperDigest : H) :
    Except ServiceError Unit :=
  match blocks.find? fun block => block.blockNumber = upper with
  | some block =>
    let expected := debug upperDigest
    let computed := debug block.digest
    ensure (block.digest = upperDigest) (.internal
      (s!"continuity upper-boundary digest mismatch at block {upper}: " ++
        s!"expected {expected}, computed {computed}"))
  | none =>
    let len := blocks.length
    .error (.internal
      (s!"eth provider returned no block at upper checkpoint boundary {upper} " ++
        s!"(range {buildFrom}..={upper}, got {len} blocks)"))

/-- Build the proof between two cached points. -/
def buildProofFromRoots (minQuery : U64) (b : Boundaries H) :
    Except ServiceError (ContinuityProof H) := do
  let buildFrom := b.lower.val + 1
  let blocks ← provider b.lowerDigest buildFrom b.upper.val
  verifyUpperBoundary debug blocks buildFrom b.upper.val b.upperDigest
  let below := blocks.takeWhile fun block => block.blockNumber < minQuery.val
  let proved := blocks.filter fun block => minQuery.val ≤ block.blockNumber
  pure ⟨(below.getLast?.map (·.digest)).getD b.lowerDigest, proved.map (·.root)⟩

/-- Build the continuity proof for some heights: between attestations if they enclose the heights,
or else between checkpoints, or else between one of each. The source takes the lock for each of the
three lookups; here they read the caches of one moment. -/
def buildContinuity (c : ChainState H) (headerNumbers : List U64) :
    Except ServiceError (ContinuityProof H) := do
  let query ← okOr (headerNumbers.min?.bind fun minQuery =>
    headerNumbers.max?.map fun maxQuery => (minQuery, maxQuery))
      (.internal "header_numbers is empty")
  let b ← okOr ((c.getAttestationBoundaries query.1 query.2).or
      ((c.getCheckpointBoundaries query.1 query.2).or (c.getMixedBoundaries query.1 query.2)))
    (c.boundaryLookupFailedError query.1 query.2)
  buildProofFromRoots provider debug query.1 b

end Build

end Creditcoin.ProofServer
