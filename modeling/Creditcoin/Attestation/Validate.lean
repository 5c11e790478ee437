import Creditcoin.Attestation.State
import Creditcoin.Foundations.Quorum

/-!
# Validation of attestations

What `commit_attestation` checks before it writes: the chain is supported and not being cleaned up,
the attestation is new, a quorum of the active attestors signed it, and it continues the chain.
-/

namespace Creditcoin

variable {H A B : Type} [DecidableEq H]

/-! ## Reading attestations and checkpoints -/

namespace Anchors

variable (a : Anchors H A)

/-- No cleanup is sweeping the attestations. -/
def attestationsStable : Bool := a.attestationClearingCursor.isNone

/-- The attestation with a digest, unless a cleanup is sweeping them. -/
def get (digest : H) : Option (SignedAttestation H A) :=
  if a.attestationsStable then a.attestations.lookup digest else none

/-- The digest the next attestation has to continue. -/
def lastFinalizedDigest : Option H :=
  (a.lastDigest.map Prod.snd).or (a.lastCheckpoint.map (·.digest))

/-- The checkpoint at a height, unless its bucket is still to be pruned. -/
def checkpointIfStable (blockNumber : ℕ) : Option H :=
  match a.checkpointPruningState with
  | some state =>
    if state.nextPivot ≤ computeBlockIndexFor blockNumber then none
    else a.checkpoints.lookup blockNumber
  | none => a.checkpoints.lookup blockNumber

/-- Is the digest known as that of an attestation or of the checkpoint at `blockNumber`? -/
def containsDigest (digest : H) (blockNumber : ℕ) : Bool :=
  (a.get digest).isSome || a.checkpointIfStable blockNumber = some digest

/-- Commits are rejected while a cleanup is in progress. -/
def commitBlockedByCleanup : Bool :=
  a.attestationClearingCursor.isSome || a.checkpointPruningState.isSome

/-- Is the attestation already stored, or not above what is already finalized? -/
def checkDuplicate (T : Config H A B) (att : SignedAttestation H A) : Bool :=
  (a.attestations.lookup (att.digest T.keccak)).isSome ||
    a.lastDigest.any (fun last => att.headerNumber ≤ last.1) ||
    a.lastCheckpoint.any fun checkpoint => att.headerNumber ≤ checkpoint.blockNumber

/-- The height of the finalized point with a digest: an attestation, or the last checkpoint. -/
def headerNumberOf (digest : H) (e : Error) : Except Error ℕ :=
  match a.get digest with
  | some prevAttestation => .ok prevAttestation.headerNumber
  | none =>
    match a.lastCheckpoint with
    | some checkpoint =>
      if checkpoint.digest = digest then .ok checkpoint.blockNumber else .error e
    | none => .error e

end Anchors

/-! ## Continuity -/

section Continuity

variable (T : Config H A B) (st : Settings) (a : Anchors H A) (att : SignedAttestation H A)

/-- The largest number of roots a continuity proof may have. -/
def maxRoots : ℕ := asUsize (max st.maxCatchup st.chainAttestationInterval)

/-- An attestation without a proof links directly to the last finalized digest. -/
def validateDirectLink (prevDigest : H) : Except Error Unit := do
  let prevHeaderNumber ← a.headerNumberOf prevDigest .invalidAttestationPrevDigest
  ensure (att.headerNumber = (prevHeaderNumber + 1) % 2 ^ 64) .invalidAttestationPrevDigest

/-- The proof starts right above the last finalized point and its digests, recomputed from the
roots, end at the attestation's previous digest. -/
def validateProofLink (prevDigest lastFinalizedDigest : H) : Except Error Unit := do
  ensure (att.continuityProof.isEmpty = false) .emptyContinuityProof
  ensure (att.continuityProof.len ≤ maxRoots st) .oversizedContinuityProof
  let tailBlockNumber := att.continuityProof.startBlockNumber att.headerNumber
  let tailPrevDigest ← okOr att.continuityProof.tailPrevDigest
    .invalidAttestationContinuityProofTail
  ensure (tailPrevDigest = lastFinalizedDigest) .invalidAttestationContinuityProofTail
  let tailPrevHeaderNumber ← a.headerNumberOf tailPrevDigest
    .invalidAttestationContinuityProofTail
  -- A proof as long as the height starts at block 0, which has no predecessor.
  ensure (0 < tailBlockNumber) .invalidAttestationContinuityProofTail
  ensure (tailPrevHeaderNumber = tailBlockNumber - 1) .invalidAttestationContinuityProofTail
  ensure (att.continuityProof.computeContinuityDigest T.keccak tailBlockNumber = prevDigest)
    .invalidAttestationContinuityProofHead

/-- The attestation is the first of its chain, or continues the last finalized point. -/
def validateAttestationContinuity : Except Error Unit :=
  if att.headerNumber = st.attestationChainGenesisBlockNumber then do
    ensure (att.prevDigest = none) .invalidAttestationPrevDigest
    ensure (att.continuityProof.isEmpty = true) .oversizedContinuityProof
  else do
    let prevDigest ← okOr att.prevDigest .invalidAttestationPrevDigest
    ensure (prevDigest ≠ T.zero) .invalidAttestationPrevDigest
    let lastFinalizedDigest ← okOr a.lastFinalizedDigest .noFinalizedAttestation
    if prevDigest = lastFinalizedDigest ∧ att.continuityProof.isEmpty = true then
      validateDirectLink a att prevDigest
    else validateProofLink T st a att prevDigest lastFinalizedDigest

end Continuity

/-! ## Signatures -/

section Signatures

variable [DecidableEq A] (T : Config H A B) (r : Roster A)

/-- The key of an attestor: that of its registration, or the one kept after it was retired. -/
def attestorPublicKey (attestorId : A) : Except Error T.bls.PublicKey := do
  let attestorRec := r.attestors.lookup attestorId
  let retired := r.retiredAttestorBlsKeys.lookup attestorId
  let key ← okOr ((attestorRec.bind (·.blsPublicKey)).or (retired.map (·.blsPublicKey)))
    (if attestorRec.isSome || retired.isSome then .attestorWithInvalidPublicKey
      else .invalidAttestorFound)
  okOr (T.bls.publicKeyFromBytes key.val) .attestorWithInvalidPublicKey

/-- The keys of a list of attestors, in its order. -/
def gatherAttestorPublicKeys : List A → Except Error (List T.bls.PublicKey)
  | [] => .ok []
  | attestorId :: attestors => do
    let key ← attestorPublicKey T r attestorId
    let keys ← gatherAttestorPublicKeys attestors
    pure (key :: keys)

/-- Keep the first key for each byte string. -/
def dedupPublicKeys : List (List UInt8) → List T.bls.PublicKey →
    Except Error (List T.bls.PublicKey)
  | _, [] => .ok []
  | seen, pk :: pks => do
    let bytes := T.bls.publicKeyAsBytes pk
    ensure (bytes.length = 48) .invalidBlsPublicKey
    if bytes ∈ seen then dedupPublicKeys seen pks
    else do
      let rest ← dedupPublicKeys (bytes :: seen) pks
      pure (pk :: rest)

variable (att : SignedAttestation H A)

def activeSet : List A := sortedSet T.accountOrd r.activeAttestors

/-- The attestors of the payload that are active, as a set. -/
def eligibleAttestors : List A :=
  sortedSet T.accountOrd (att.attestors.filter fun attestor => attestor ∈ activeSet T r)

/-- The quorum signed. Returns the keys that were aggregated. -/
def validateSignatures : Except Error (List T.bls.PublicKey) := do
  let threshold := calculateQuorum (activeSet T r).length
  ensure (threshold ≤ (eligibleAttestors T r att).length) .majorityNotReached
  let aggSignature ← okOr (T.bls.signatureFromBytes att.signature.val) .invalidBlsSignature
  let attestorPublicKeys ← gatherAttestorPublicKeys T r (eligibleAttestors T r att)
  let dedupedPublicKeys ← dedupPublicKeys T [] attestorPublicKeys
  ensure (threshold ≤ dedupedPublicKeys.length) .insufficientUniqueSigners
  let aggregatedPublicKey ← okOr (T.bls.aggregatePublicKeys dedupedPublicKeys)
    .invalidBlsSignature
  ensure (T.bls.verifyAggMessage aggSignature (att.attestation.serialize T.hashBytes)
    aggregatedPublicKey = true) .invalidBlsSignature
  pure dedupedPublicKeys

/-- All checks on an attestation. Returns the keys that were aggregated. -/
def validateAttestation (supported : Bool) (c : Chain H A) :
    Except Error (List T.bls.PublicKey) := do
  ensure (supported = true) .chainNotSupported
  ensure (c.anchors.commitBlockedByCleanup = false) .attestationCleanupInProgress
  ensure (att.attestors.length ≤ c.settings.maxAttestors) .tooManyAttestors
  ensure (c.anchors.checkDuplicate T att = false) .attestationExists
  ensure (∀ last ∈ c.anchors.lastDigest,
      satAdd u64Max last.1 c.settings.chainAttestationInterval ≤ att.headerNumber)
    .invalidAttestationBlockNumber
  let keys ← validateSignatures T c.roster att
  validateAttestationContinuity T c.settings c.anchors att
  pure keys

end Signatures

end Creditcoin
