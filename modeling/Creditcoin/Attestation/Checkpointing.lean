import Creditcoin.Attestation.Validate

/-!
# Making checkpoints

Accepted attestations wait in the checkpointing queue until they are condensed into a checkpoint at
the next multiple of the width (`tryMakeCheckpoint`). An attestation with a long proof creates a
checkpoint at every boundary up to it and empties the queue (`createCheckpointsFromQueue`); with a
full queue the attested height itself is checkpointed (`checkpointAtAttestation`). Condensed
attestations move to the removal queue, which keeps the last few of them. -/

namespace Creditcoin

variable {H A B : Type} [DecidableEq H]

/-! ## Storing checkpoints -/

namespace Anchors

variable (a : Anchors H A)

/-- Store a checkpoint and index it in its bucket. -/
def storeCheckpoint (c : AttestationCheckpoint H) : Anchors H A :=
  { a with
    checkpoints := a.checkpoints.insert c.blockNumber c.digest
    checkpointBuckets :=
      a.checkpointBuckets.insert (computeBlockIndexFor c.blockNumber, c.blockNumber) () }

/-- Store a checkpoint and announce it. -/
def recordCheckpoint (c : AttestationCheckpoint H) : Anchors H A :=
  { a.storeCheckpoint c with events := a.events ++ [.checkpointReached c] }

/-- Store and announce a checkpoint that becomes the last one. -/
def reachCheckpoint (c : AttestationCheckpoint H) : Anchors H A :=
  { a.recordCheckpoint c with lastCheckpoint := some c }

/-- Pop condensed attestations until `retention` of them are left. -/
def dropCondensed (retention : ℕ) : StorageMap H (SignedAttestation H A) → List H →
    StorageMap H (SignedAttestation H A) × List H
  | attestations, [] => (attestations, [])
  | attestations, toRemove :: queue =>
    if retention < (toRemove :: queue).length then
      dropCondensed retention (attestations.erase toRemove) queue
    else (attestations, toRemove :: queue)

/-- Make `attestationRemovalQueue` the removal queue, without its oldest entries. -/
def removeAttestations (st : Settings) (attestationRemovalQueue : List H) : Anchors H A :=
  let kept := dropCondensed st.attestationRetentionDuration a.attestations attestationRemovalQueue
  { a with attestations := kept.1, attestationRemovalQueue := kept.2 }

end Anchors

/-- The distance between checkpoints. -/
def checkpointWidth (st : Settings) : ℕ :=
  satMul u64Max st.chainAttestationInterval st.attestationCheckpointInterval

/-- The boundary after a height, in saturating arithmetic. -/
def nextCheckpointBlock (width lastCheckpointBlock : ℕ) : ℕ :=
  satAdd u64Max lastCheckpointBlock width - satAdd u64Max lastCheckpointBlock width % width

/-! ## Condensing the front of the queue -/

/-- Where condensing the queue ended. -/
structure Condensed (H : Type) where
  outcome : Except Error (AttestationCheckpoint H)
  queue : List H
  attestationRemovalQueue : List H
  /-- The number of proof roots hashed. -/
  hashed : ℕ

/-- The loop of `try_make_checkpoint`: pop attestations until one reaches the target block. An
attestation beyond the target is put back, since it serves the next checkpoint too; on an error
everything popped is put back. -/
def condense (T : Config H A B) (a : Anchors H A) (target : ℕ) :
    List H → List H → List H → Condensed H
  | [], removal, rollback => ⟨.error .checkpointingQueueDrained, rollback, removal, 0⟩
  | digest :: queue, removal, rollback =>
    match a.attestations.lookup digest with
    | none => ⟨.error .attestationNotFound, rollback ++ digest :: queue, removal, 0⟩
    | some att =>
      if h : att.headerNumber < target then
        condense T a target queue (removal ++ [digest]) (rollback ++ [digest])
      else if att.headerNumber = target then
        ⟨.ok ⟨att.headerNumber, att.digest T.keccak, att.headerNumber_lt⟩, queue,
          removal ++ [digest], 0⟩
      else
        let start := att.continuityProof.startBlockNumber att.headerNumber
        match att.continuityProof.digestForBlock T.keccak start target with
        | some targetDigest =>
          ⟨.ok ⟨target, targetDigest, lt_of_le_of_lt (not_lt.1 h) att.headerNumber_lt⟩,
            digest :: queue, removal, asUsize (target - start) + 1⟩
        | none => ⟨.error .checkpointTargetNotFound, rollback ++ digest :: queue, removal, 0⟩

/-- What `try_make_checkpoint` leaves: its result, the storage and the queue. -/
structure MadeCheckpoint (H A : Type) where
  outcome : Except Error Unit
  anchors : Anchors H A
  queue : List H
  hashed : ℕ

/-- Condense the front of the queue into a checkpoint at the next boundary, once the attestation is
more than two widths past the last checkpoint. -/
def tryMakeCheckpoint (T : Config H A B) (st : Settings) (a : Anchors H A) (queue : List H)
    (attestationHeader : ℕ) : MadeCheckpoint H A :=
  match a.lastCheckpoint with
  | none => ⟨.error .lastCheckpointEmpty, a, queue, 0⟩
  | some last =>
    if checkpointWidth st = 0 then ⟨.error .checkpointWidthIsZero, a, queue, 0⟩
    else if attestationHeader - last.blockNumber < (checkpointWidth st * 2 + 1) % 2 ^ 64 then
      ⟨.ok (), a, queue, 0⟩
    else
      let condensed := condense T a (nextCheckpointBlock (checkpointWidth st) last.blockNumber)
        queue a.attestationRemovalQueue []
      match condensed.outcome with
      | .error e => ⟨.error e, a, condensed.queue, condensed.hashed⟩
      | .ok newCheckpoint =>
        ⟨.ok (),
          (a.reachCheckpoint newCheckpoint).removeAttestations st
            condensed.attestationRemovalQueue,
          condensed.queue, condensed.hashed⟩

/-! ## A full queue -/

/-- Checkpoint at the attested height and condense the whole queue. -/
def checkpointAtAttestation (st : Settings) (a : Anchors H A) (c : AttestationCheckpoint H)
    (condensed : List H) : Anchors H A :=
  Anchors.removeAttestations { a.reachCheckpoint c with checkpointingQueue := [] } st
    (a.attestationRemovalQueue ++ condensed)

/-! ## Catching up -/

/-- Add the digests of a queued attestation and of its proof, where none is known yet. -/
def addQueuedDigests (T : Config H A B) (a : Anchors H A) (blockDigests : StorageMap ℕ H)
    (queuedDigest : H) : StorageMap ℕ H :=
  match a.attestations.lookup queuedDigest with
  | none => blockDigests
  | some queued =>
    let queuedStart := queued.continuityProof.startBlockNumber queued.headerNumber
    (blockDigests.orInsert queued.headerNumber (queued.digest T.keccak)).orInsertAll
      (queued.continuityProof.blockDigests T.keccak queuedStart)

/-- The digests known for the blocks up to the attestation: those of its own proof, its own, and
those of the queued attestations and their proofs. -/
def boundaryDigests (T : Config H A B) (a : Anchors H A) (att : SignedAttestation H A)
    (attestationDigest : H) (queue : List H) : StorageMap ℕ H :=
  let start := att.continuityProof.startBlockNumber att.headerNumber
  let own := StorageMap.insertAll ∅ (att.continuityProof.blockDigests T.keccak start)
  queue.foldl (addQueuedDigests T a) (own.insert att.headerNumber attestationDigest)

/-- The number of roots in the proofs of the queued attestations. -/
def queuedRoots (a : Anchors H A) (queue : List H) : ℕ :=
  (queue.map fun d => ((a.attestations.lookup d).map (·.continuityProof.len)).getD 0).sum

/-- The loop of `create_checkpoints_from_queue`: a checkpoint at every boundary up to `head`.
Returns the last checkpoint block with the storage. The fuel bounds the number of boundaries. -/
def createCheckpointsLoop (width : ℕ) (digests : StorageMap ℕ H) {head : ℕ}
    (hhead : head < 2 ^ 64) : ℕ → ℕ → Anchors H A → Except Error (ℕ × Anchors H A)
  | 0, _, _ => .error .nonTermination
  | fuel + 1, lastCheckpointBlock, a =>
    if h : head < nextCheckpointBlock width lastCheckpointBlock then .ok (lastCheckpointBlock, a)
    else
      match digests.lookup (nextCheckpointBlock width lastCheckpointBlock) with
      | none => .error .checkpointCreationError
      | some digest =>
        createCheckpointsLoop width digests hhead fuel
          (nextCheckpointBlock width lastCheckpointBlock)
          (a.reachCheckpoint ⟨_, digest, lt_of_le_of_lt (not_lt.1 h) hhead⟩)

/-- Create a checkpoint at every boundary between the last checkpoint and the attestation. Returns
whether there was one, the storage, and the number of queued roots hashed. -/
def createCheckpointsFromQueue (T : Config H A B) (st : Settings) (a : Anchors H A)
    (att : SignedAttestation H A) (attestationDigest : H) (checkpointingQueue : List H) :
    Except Error (Bool × Anchors H A × ℕ) := do
  let last ← okOr a.lastCheckpoint .lastCheckpointEmpty
  ensure (0 < checkpointWidth st) .checkpointWidthIsZero
  let digests := boundaryDigests T a att attestationDigest checkpointingQueue
  let (lastCheckpointBlock, created) ← createCheckpointsLoop (checkpointWidth st) digests
    att.headerNumber_lt (att.headerNumber + 1) last.blockNumber a
  if lastCheckpointBlock = last.blockNumber then
    pure (false, created, queuedRoots a checkpointingQueue)
  else
    let cleared := created.removeAttestations st
      (a.attestationRemovalQueue ++ checkpointingQueue ++ [attestationDigest])
    pure (true, { cleared with checkpointingQueue := [] }, queuedRoots a checkpointingQueue)

/-- Create checkpoints from the proof of an attestation, if the proof spans two widths or more. -/
def createCheckpointsFromContinuityProof (T : Config H A B) (st : Settings) (a : Anchors H A)
    (att : SignedAttestation H A) (attestationDigest : H) :
    Except Error (Bool × Anchors H A × ℕ) :=
  if att.continuityProof.isEmpty then .ok (false, a, 0)
  else do
    ensure (0 < checkpointWidth st) .checkpointWidthIsZero
    if att.continuityProof.len < 2 * asUsize (checkpointWidth st) % 2 ^ 32 then
      pure (false, a, 0)
    else createCheckpointsFromQueue T st a att attestationDigest a.checkpointingQueue

end Creditcoin
