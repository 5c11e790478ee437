import Creditcoin.Attestation.Commit
import Creditcoin.BlockProver.Verify
import Mathlib.Data.List.MinMax

/-!
# Chain information

The precompile that tells contracts what is attested of a source chain: the highest anchor below a
target, the lowest one at or above it, and whether it lies between two of them. Below the last
checkpoint a query searches the index of checkpoints, at most five buckets away from the target, and
above it the attestations, in the order of their hashed keys (`digestRank`). Calls pay for each read
before they use it. -/

namespace Creditcoin

open Metered

variable {H A B : Type}

/-! ## Results -/

/-- An anchor that a query has found. The source calls the last field `exists`. -/
structure HeightHashResult (H : Type) where
  height : ℕ
  hash : H
  isAttestation : Bool
  doesExist : Bool
  deriving DecidableEq

namespace HeightHashResult

/-- Nothing was found. -/
def default (zero : H) : HeightHashResult H := ⟨0, zero, false, false⟩

def ofCheckpoint (blockNumber : ℕ) (digest : H) : HeightHashResult H :=
  ⟨blockNumber, digest, false, true⟩

def ofAttestation (row : H × SignedAttestation H A) : HeightHashResult H :=
  ⟨row.2.headerNumber, row.1, true, true⟩

end HeightHashResult

/-! ## Scans -/

def bucketSearchAttempts : ℕ := 5

/-- Pay for the items an iteration visits until it meets one that satisfies `p`, and say whether it
does. -/
def scanAny {α : Type} (p : α → Bool) (items : List α) : EvmResult Bool := do
  recordCost (gasStorageLookup * min (items.findIdx p + 1) items.length)
  pure (items.any p)

section Scans

variable [DecidableEq H] (T : Config H A B) (a : Anchors H A)

/-- The attestations with their digests, in the order of iteration. -/
def Anchors.attestationRows (digestRank : H → ℕ) : List (H × SignedAttestation H A) :=
  (a.attestations.iterKeys digestRank).filterMap fun digest =>
    (a.attestations.lookup digest).map (Prod.mk digest)

/-- The first of the heights with a checkpoint that is not about to be pruned. -/
def probeCheckpoints : List ℕ → EvmResult (Option (HeightHashResult H))
  | [] => pure none
  | blockNumber :: heights => do
    recordCost (satMul u64Max gasStorageLookup 2)
    match a.checkpointIfStable blockNumber with
    | some digest => pure (some (.ofCheckpoint blockNumber digest))
    | none => probeCheckpoints heights

/-- Search the heights that satisfy `keep` in a bucket, those that come first in the order `r`
before the others, and then in the buckets that follow it. -/
def searchBuckets (keep : ℕ → Bool) (r : ℕ → ℕ → Prop) [DecidableRel r] (next : ℕ → ℕ) :
    ℕ → ℕ → EvmResult (Option (HeightHashResult H))
  | 0, _ => pure none
  | attempts + 1, blockPivot => do
    recordCost gasStorageLookup
    recordCost (gasStorageLookup * (a.bucketHeights T blockPivot).length)
    let found ← probeCheckpoints a (((a.bucketHeights T blockPivot).filter keep).insertionSort r)
    match found with
    | some result => pure (some result)
    | none => searchBuckets keep r next attempts (next blockPivot)

/-- Does one of the buckets down from a pivot list a height at or below the target? -/
def searchPrev (targetHeight : ℕ) : ℕ → ℕ → EvmResult Bool
  | 0, _ => pure false
  | attempts + 1, blockPivot => do
    recordCost gasStorageLookup
    let found ← scanAny (fun blockNumber => blockNumber ≤ targetHeight)
      (a.bucketHeights T blockPivot)
    if found then pure true
    else searchPrev targetHeight attempts (blockPivot - checkpointBucketSize)

end Scans

/-! ## Queries -/

section Queries

variable [DecidableEq H] (T : Config H A B) (digestRank : H → ℕ) (s : State H A B)

def ensureChainSupported (k : ChainKey) : EvmResult Unit := do
  recordCost gasStorageLookup
  require (s.isChainSupported k = true) (.revert "chain not supported")

/-- The highest attestation below the target, the last of them in the order of iteration. -/
def highestAttestation (a : Anchors H A) (targetHeight : ℕ) : Option (HeightHashResult H) :=
  if a.attestationsStable then
    (((a.attestationRows digestRank).filter fun row =>
      row.2.headerNumber < targetHeight).reverse.argmax fun row => row.2.headerNumber).map
        .ofAttestation
  else none

/-- The lowest attestation at or above the target, the first of them in the order of iteration. -/
def lowestAttestation (a : Anchors H A) (targetHeight : ℕ) : Option (HeightHashResult H) :=
  if a.attestationsStable then
    (((a.attestationRows digestRank).filter fun row =>
      targetHeight ≤ row.2.headerNumber).argmin fun row => row.2.headerNumber).map .ofAttestation
  else none

/-- The attestations that a scan visits: none while they are being swept. -/
def scannedRows (a : Anchors H A) : ℕ :=
  if a.attestationsStable then (a.attestationRows digestRank).length else 0

/-- The attestation that was found, or the last checkpoint. -/
def orLastCheckpoint (a : Anchors H A) (highest : Option (HeightHashResult H)) :
    EvmResult (HeightHashResult H) :=
  match highest, a.lastCheckpoint with
  | some highest, _ => pure highest
  | none, some last => do
    recordCost (satMul u64Max gasStorageLookup 2)
    match a.checkpointIfStable last.blockNumber with
    | some digest => pure (.ofCheckpoint last.blockNumber digest)
    | none => pure (.default T.zero)
  | none, none => pure (.default T.zero)

def findHighestAttestedBefore (k : ChainKey) (targetHeight : U64) :
    EvmResult (HeightHashResult H) := do
  ensureChainSupported s k
  recordCost gasStorageLookup
  let a := (s.chain T k).anchors
  if a.lastCheckpoint.any fun last => targetHeight.val ≤ last.blockNumber then do
    let maybeHighest ← searchBuckets T a (fun n => n < targetHeight.val) (fun m n => n ≤ m)
      (fun pivot => pivot - checkpointBucketSize) bucketSearchAttempts
      (computeBlockIndexFor (targetHeight.val - 1))
    pure (maybeHighest.getD (.default T.zero))
  else do
    recordCost (satMul u64Max gasStorageLookup 2)
    let highest ← orLastCheckpoint T a (highestAttestation digestRank a targetHeight.val)
    recordCost (gasStorageLookup * scannedRows digestRank a)
    pure highest

def findLowestAttestedAfter (k : ChainKey) (targetHeight : U64) :
    EvmResult (HeightHashResult H) := do
  ensureChainSupported s k
  recordCost gasStorageLookup
  let a := (s.chain T k).anchors
  if a.lastCheckpoint.any fun last => targetHeight.val < last.blockNumber then do
    let maybeLowest ← searchBuckets T a (fun n => targetHeight.val ≤ n) (fun m n => m ≤ n)
      (fun pivot => satAdd u64Max pivot checkpointBucketSize) bucketSearchAttempts
      (computeBlockIndexFor targetHeight.val)
    pure (maybeLowest.getD (.default T.zero))
  else do
    recordCost (satMul u64Max gasStorageLookup 2)
    recordCost (gasStorageLookup * scannedRows digestRank a)
    pure ((lowestAttestation digestRank a targetHeight.val).getD (.default T.zero))

/-- Without a checkpoint: an attestation at the target, or one above it and one below it. -/
def isBetweenAttestations (a : Anchors H A) (targetHeight : ℕ) : EvmResult Bool := do
  recordCost (satMul u64Max gasStorageLookup 2)
  if a.attestationsStable then do
    let rows := a.attestationRows digestRank
    let foundAttestation ← scanAny (fun row => row.2.headerNumber == targetHeight) rows
    if foundAttestation then pure true
    else do
      recordCost gasStorageLookup
      let foundNextAttestation ← scanAny (fun row => targetHeight < row.2.headerNumber) rows
      recordCost gasStorageLookup
      let foundPrevAttestation ← scanAny (fun row => row.2.headerNumber < targetHeight) rows
      pure (foundNextAttestation && foundPrevAttestation)
  else pure false

/-- Is the height between two anchors, as far as the last checkpoint tells where to look? -/
def isBetweenAnchors (a : Anchors H A) (targetHeight : ℕ) : EvmResult Bool :=
  match a.lastCheckpoint with
  | some last =>
    if last.blockNumber < targetHeight then do
      recordCost (satMul u64Max gasStorageLookup 2)
      scanAny (fun row => targetHeight ≤ row.2.headerNumber)
        (if a.attestationsStable then a.attestationRows digestRank else [])
    else if targetHeight < last.blockNumber then
      searchPrev T a targetHeight bucketSearchAttempts (computeBlockIndexFor (targetHeight - 1))
    else pure true
  | none => isBetweenAttestations digestRank a targetHeight

def isHeightAttested (k : ChainKey) (targetHeight : U64) : EvmResult Bool := do
  ensureChainSupported s k
  recordCost gasStorageLookup
  isBetweenAnchors T digestRank (s.chain T k).anchors targetHeight.val

end Queries

end Creditcoin
