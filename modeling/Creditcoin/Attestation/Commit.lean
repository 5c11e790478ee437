import Creditcoin.Attestation.Checkpointing

/-!
# Committing attestations and moving checkpoints

Commits by attestors, and the imports, forward patches and reverts of operators. Each works on the
`Anchors` of one chain. What the host does when asked to delete all attestations is an argument, a
`KillResult`. -/

namespace Creditcoin

variable {H A B : Type} [DecidableEq H]

/-! ## Commits -/

/-- The number of commits already made in the block `now`. -/
def committedThisBlock (a : Anchors H A) (now : ℕ) : ℕ :=
  match a.attestationsInBlock with
  | some (block, count) => if block = now then count else 0
  | none => 0

/-- Store an accepted attestation and advance the last digest. -/
def storeAttestation (T : Config H A B) (now : ℕ) (a : Anchors H A)
    (att : SignedAttestation H A) : Anchors H A :=
  let digest := att.digest T.keccak
  { a with
    attestationsInBlock := some (now, satAdd u32Max (committedThisBlock a now) 1)
    attestations := a.attestations.insert digest att
    lastDigest :=
      match a.lastDigest with
      | some last =>
        if last.1 < att.headerNumber then some (att.headerNumber, digest) else some last
      | none => some (att.headerNumber, digest)
    events := a.events ++ [.blockAttested att.headerNumber digest] }

/-- Queue an attestation and make the checkpoint that is due, if any. A failure to make it does not
fail the commit. Returns the storage and the number of queued roots hashed. -/
def queueAttestation (T : Config H A B) (st : Settings) (a : Anchors H A)
    (att : SignedAttestation H A) (digest : H) : Anchors H A × ℕ :=
  let made := tryMakeCheckpoint T st a (a.checkpointingQueue ++ [digest]) att.headerNumber
  if T.maxCheckpointingQueueLen < made.queue.length then
    (checkpointAtAttestation st made.anchors ⟨att.headerNumber, digest, att.headerNumber_lt⟩
      made.queue, made.hashed)
  else ({ made.anchors with checkpointingQueue := made.queue }, made.hashed)

/-- The checkpoints a stored attestation gives rise to. The first attestation of a chain is a
checkpoint itself; a long proof is checkpointed at once; any other attestation is queued. -/
def checkpointAttestation (T : Config H A B) (st : Settings) (a : Anchors H A)
    (att : SignedAttestation H A) : Except Error (Anchors H A × ℕ) :=
  let digest := att.digest T.keccak
  if a.checkpoints.keys = [] then do
    ensure (st.attestationChainGenesisBlockNumber = att.headerNumber)
      .invalidAttestationBlockNumber
    let reached := a.reachCheckpoint ⟨att.headerNumber, digest, att.headerNumber_lt⟩
    pure ({ reached with attestationRemovalQueue := a.attestationRemovalQueue ++ [digest] }, 0)
  else do
    let (created, caught, hashed) ← createCheckpointsFromContinuityProof T st a att digest
    if created then pure (caught, hashed)
    else
      let queued := queueAttestation T st caught att digest
      pure (queued.1, hashed + queued.2)

/-- Commit an attestation in the block `now`. Returns the storage and the number of queued roots
hashed while making checkpoints. -/
def doCommitAttestation [DecidableEq A] (T : Config H A B) (supported : Bool) (now : ℕ)
    (c : Chain H A) (att : SignedAttestation H A) : Except Error (Anchors H A × ℕ) := do
  let _ ← validateAttestation T att supported c
  ensure (committedThisBlock c.anchors now < T.maxAttestationsPerBlock)
    .tooManyAttestationsInBlock
  checkpointAttestation T c.settings (storeAttestation T now c.anchors att) att

/-! ## Imports -/

/-- The highest checkpoint found so far, given the next one. -/
def higherCheckpoint (newLast : Option (AttestationCheckpoint H)) (c : AttestationCheckpoint H) :
    Option (AttestationCheckpoint H) :=
  match newLast with
  | some n => if n.blockNumber < c.blockNumber then some c else some n
  | none => some c

/-- The loop of `import_checkpoints`. Stored heights are skipped, and so are heights not below the
last checkpoint. With no last checkpoint, the highest one imported is to become it. -/
def importLoop (hasAttestations : Bool) (last : Option (AttestationCheckpoint H)) :
    List (AttestationCheckpoint H) → Option (AttestationCheckpoint H) → Anchors H A →
      Except Error (Option (AttestationCheckpoint H) × Anchors H A)
  | [], newLast, a => .ok (newLast, a)
  | c :: cs, newLast, a =>
    if (a.checkpoints.lookup c.blockNumber).isSome then importLoop hasAttestations last cs newLast a
    else
      match last with
      | some l =>
        if l.blockNumber ≤ c.blockNumber then importLoop hasAttestations last cs newLast a
        else importLoop hasAttestations last cs newLast (a.recordCheckpoint c)
      | none =>
        if hasAttestations then .error .lastCheckpointNotSet
        else importLoop hasAttestations last cs (higherCheckpoint newLast c) (a.recordCheckpoint c)

/-- Import checkpoints older than the last one. -/
def doImportCheckpoints (supported : Bool) (a : Anchors H A)
    (checkpoints : List (AttestationCheckpoint H)) : Except Error (Anchors H A) := do
  ensure (supported = true) .chainNotSupported
  let (newLast, imported) ←
    importLoop a.lastDigest.isSome a.lastCheckpoint checkpoints a.lastCheckpoint a
  match newLast with
  | some c =>
    if (a.lastCheckpoint.map (·.blockNumber)).getD 0 < c.blockNumber ∨ a.lastCheckpoint = none then
      pure { imported with lastCheckpoint := some c }
    else pure imported
  | none => pure imported

/-! ## Deleting the attestations and the checkpoints above a height -/

namespace Anchors

variable (T : Config H A B) (a : Anchors H A)

/-- Start or continue the deletion of all attestations. -/
def clearAttestations (kill : KillResult H) : Anchors H A :=
  let cleared := a.attestations.clearPrefix kill
  { a with attestations := cleared.1, attestationClearingCursor := cleared.2 }

/-- The checkpoint heights indexed under a pivot, in the order of iteration. -/
def bucketHeights (pivot : ℕ) : List ℕ :=
  (((a.checkpointBuckets.keys.filter fun row => row.1 = pivot).map Prod.snd).insertionSort
    fun m n => T.heightRank m ≤ T.heightRank n)

/-- Delete checkpoints of one bucket, and their index rows. -/
def removeCheckpoints (pivot : ℕ) (heights : List ℕ) : Anchors H A :=
  { a with
    checkpoints := a.checkpoints.eraseAll heights
    checkpointBuckets := a.checkpointBuckets.eraseAll (heights.map fun n => (pivot, n)) }

/-- Delete the checkpoints above `height` in the bucket of `height`. -/
def purgeBucketAbove (height : ℕ) : Anchors H A :=
  a.removeCheckpoints (computeBlockIndexFor height)
    ((a.bucketHeights T (computeBlockIndexFor height)).filter fun n => height < n)

/-- The first bucket above that of `height`. -/
def pivotAbove (height : ℕ) : ℕ :=
  satAdd u64Max (computeBlockIndexFor height) checkpointBucketSize

end Anchors

/-! ## Reverts -/

/-- Go back to the checkpoint at a height. Attestations and the checkpoints above it in its bucket
are deleted now, the buckets above are left to be pruned block by block. -/
def doRevertTo (T : Config H A B) (kill : KillResult H) (a : Anchors H A)
    (checkpointHeight : U64) : Except Error (H × Anchors H A) := do
  let digest : H ← okOr (a.checkpoints.lookup checkpointHeight.val) .noSuchCheckpoint
  let last ← okOr a.lastCheckpoint .lastCheckpointNotSet
  pure (digest,
    { (a.clearAttestations kill).purgeBucketAbove T checkpointHeight with
      checkpointingQueue := []
      attestationRemovalQueue := []
      checkpointPruningState :=
        some { stopHeight := last.blockNumber, nextPivot := Anchors.pivotAbove checkpointHeight }
      lastCheckpoint := some ⟨checkpointHeight, digest, checkpointHeight.isLt⟩
      lastDigest := some (checkpointHeight.val, digest) })

/-- The call `revert_to`, refused while an earlier revert is in progress. -/
def revertTo (T : Config H A B) (supported : Bool) (kill : KillResult H) (a : Anchors H A)
    (checkpointHeight : U64) : Except Error (Anchors H A) := do
  ensure (supported = true) .chainNotSupported
  ensure (a.checkpointPruningState = none ∧ a.attestationClearingCursor = none)
    .triedToRevertDuringOngoingReversion
  let (checkpointDigest, reverted) ← doRevertTo T kill a checkpointHeight
  pure { reverted with
    events := reverted.events ++ [.revertedAttestationChainTo checkpointHeight checkpointDigest] }

/-! ## Forward patches -/

/-- Insert a checkpoint into a list sorted by height, replacing one of the same height. -/
def insertMerged (c : AttestationCheckpoint H) :
    List (AttestationCheckpoint H) → List (AttestationCheckpoint H)
  | [] => [c]
  | x :: xs =>
    if c.blockNumber < x.blockNumber then c :: x :: xs
    else if c.blockNumber = x.blockNumber then c :: xs
    else x :: insertMerged c xs

/-- The batch by height; a later entry for a height wins. -/
def mergeCheckpoints (checkpoints : List (AttestationCheckpoint H)) :
    List (AttestationCheckpoint H) :=
  checkpoints.foldl (fun merged c => insertMerged c merged) []

/-- Forget the attestations, their queues and the last digest. -/
def purgeAttestationsForForwardPatch (kill : KillResult H) (a : Anchors H A) : Anchors H A :=
  { a.clearAttestations kill with
    checkpointingQueue := []
    attestationRemovalQueue := []
    lastDigest := none }

/-- Drop the checkpoints above the tip of the batch: those of its bucket now, the others block by
block, up to the last checkpoint. -/
def wipeSuffix (T : Config H A B) (a : Anchors H A) (batchMax : ℕ) : Anchors H A :=
  let purged := a.purgeBucketAbove T batchMax
  match a.lastCheckpoint with
  | some last =>
    if Anchors.pivotAbove batchMax ≤ last.blockNumber then
      { purged with
        checkpointPruningState :=
          some { stopHeight := last.blockNumber, nextPivot := Anchors.pivotAbove batchMax } }
    else purged
  | none => purged

/-- The last checkpoint after a patch with a given tip. -/
def patchedLast (wipe : Bool) (last : Option (AttestationCheckpoint H))
    (tip : AttestationCheckpoint H) : AttestationCheckpoint H :=
  match last with
  | some l => if wipe = false ∧ tip.blockNumber < l.blockNumber then l else tip
  | none => tip

/-- Overwrite or insert checkpoints and optionally drop every checkpoint above them. -/
def doForwardPatchCheckpoints (T : Config H A B) (supported : Bool) (kill : KillResult H)
    (a : Anchors H A) (wipe : Bool) (checkpoints : List (AttestationCheckpoint H)) :
    Except Error (Anchors H A) := do
  ensure (supported = true) .chainNotSupported
  ensure (a.checkpointPruningState = none ∧ a.checkpointClearingCursor = none ∧
    a.bucketClearingCursor = none ∧ a.attestationClearingCursor = none)
    .checkpointMaintenanceInProgress
  let merged := mergeCheckpoints checkpoints
  let tip ← okOr merged.getLast? .emptyCheckpointPatch
  let purged := purgeAttestationsForForwardPatch kill a
  let wiped := if wipe then wipeSuffix T purged tip.blockNumber else purged
  let patched := merged.foldl Anchors.recordCheckpoint wiped
  let newLast := patchedLast wipe patched.lastCheckpoint tip
  pure { patched with
    lastCheckpoint := some newLast
    events := patched.events ++ [.forwardCheckpointPatchApplied wipe newLast.blockNumber] }

end Creditcoin
