import Creditcoin.Attestation.Validate

/-!
# What validation may fail with

The errors of the checks on signatures, on continuity, and of the checks before them. -/

namespace Creditcoin

variable {H A B : Type} {T : Config H A B} {att : SignedAttestation H A} {e : Error}

/-- The errors of the checks on signatures and continuity. -/
def proofErrors : List Error :=
  [.majorityNotReached, .invalidBlsSignature, .invalidAttestorFound, .attestorWithInvalidPublicKey,
    .invalidBlsPublicKey, .insufficientUniqueSigners, .invalidAttestationPrevDigest,
    .oversizedContinuityProof, .emptyContinuityProof, .noFinalizedAttestation,
    .invalidAttestationContinuityProofTail, .invalidAttestationContinuityProofHead]

/-- The errors of the checks that come before. -/
def admissionErrors : List Error :=
  [.chainNotSupported, .attestationCleanupInProgress, .tooManyAttestors, .attestationExists,
    .invalidAttestationBlockNumber]

theorem ne_of_notMem {l : List Error} {x : Error} (he : e ∉ l) (hx : x ∈ l) : x ≠ e :=
  fun h => he (h ▸ hx)

theorem ensure_bind_ne_error {α : Type} {l : List Error} {x : Error} (he : e ∉ l) (hx : x ∈ l)
    {p : Prop} [Decidable p] {f : Unit → Except Error α} (hf : ∀ u, f u ≠ .error e) :
    (ensure p x >>= f) ≠ .error e :=
  bind_ne_error (ensure_ne_error (ne_of_notMem he hx)) hf

/-! ## Signatures -/

section Signatures

variable [DecidableEq A] {r : Roster A}

theorem attestorPublicKey_ne_error (he : e ∉ proofErrors) (attestorId : A) :
    attestorPublicKey T r attestorId ≠ .error e := by
  unfold attestorPublicKey
  refine bind_ne_error (okOr_ne_error ?_) fun _ => okOr_ne_error (ne_of_notMem he (by decide))
  split
  · exact ne_of_notMem he (by decide)
  · exact ne_of_notMem he (by decide)

theorem gatherAttestorPublicKeys_ne_error (he : e ∉ proofErrors) (attestors : List A) :
    gatherAttestorPublicKeys T r attestors ≠ .error e := by
  induction attestors with
  | nil => simp [gatherAttestorPublicKeys]
  | cons attestor attestors ih =>
    exact bind_ne_error (attestorPublicKey_ne_error he attestor) fun _ =>
      bind_ne_error ih fun _ => pure_ne_error

omit [DecidableEq A] in
theorem dedupPublicKeys_ne_error (he : e ∉ proofErrors) (seen : List (List UInt8))
    (pks : List T.bls.PublicKey) : dedupPublicKeys T seen pks ≠ .error e := by
  induction pks generalizing seen with
  | nil => simp [dedupPublicKeys]
  | cons pk pks ih =>
    refine ensure_bind_ne_error he (by decide) fun _ => ?_
    split
    · exact ih seen
    · exact bind_ne_error (ih _) fun _ => pure_ne_error

theorem validateSignatures_ne_error (he : e ∉ proofErrors) :
    validateSignatures T r att ≠ .error e := by
  refine ensure_bind_ne_error he (by decide) fun _ => ?_
  refine bind_ne_error (okOr_ne_error (ne_of_notMem he (by decide))) fun _ => ?_
  refine bind_ne_error (gatherAttestorPublicKeys_ne_error he _) fun _ => ?_
  refine bind_ne_error (dedupPublicKeys_ne_error he _ _) fun _ => ?_
  refine ensure_bind_ne_error he (by decide) fun _ => ?_
  refine bind_ne_error (okOr_ne_error (ne_of_notMem he (by decide))) fun _ => ?_
  exact ensure_bind_ne_error he (by decide) fun _ => pure_ne_error

end Signatures

/-! ## Continuity -/

section Continuity

variable [DecidableEq H] {st : Settings} {a : Anchors H A}

theorem headerNumberOf_ne_error {d : H} {e' : Error} (he : e ≠ e') :
    a.headerNumberOf d e ≠ .error e' := by
  unfold Anchors.headerNumberOf
  split
  · simp
  · split
    · split
      · simp
      · simpa using he
    · simpa using he

theorem validateAttestationContinuity_ne_error (he : e ∉ proofErrors) :
    validateAttestationContinuity T st a att ≠ .error e := by
  unfold validateAttestationContinuity
  split
  · exact ensure_bind_ne_error he (by decide) fun _ =>
      ensure_ne_error (ne_of_notMem he (by decide))
  · refine bind_ne_error (okOr_ne_error (ne_of_notMem he (by decide))) fun _ => ?_
    refine ensure_bind_ne_error he (by decide) fun _ => ?_
    refine bind_ne_error (okOr_ne_error (ne_of_notMem he (by decide))) fun _ => ?_
    split
    · exact bind_ne_error (headerNumberOf_ne_error (ne_of_notMem he (by decide))) fun _ =>
        ensure_ne_error (ne_of_notMem he (by decide))
    · refine ensure_bind_ne_error he (by decide) fun _ => ?_
      refine ensure_bind_ne_error he (by decide) fun _ => ?_
      refine bind_ne_error (okOr_ne_error (ne_of_notMem he (by decide))) fun _ => ?_
      refine ensure_bind_ne_error he (by decide) fun _ => ?_
      refine bind_ne_error (headerNumberOf_ne_error (ne_of_notMem he (by decide))) fun _ => ?_
      refine ensure_bind_ne_error he (by decide) fun _ => ?_
      refine ensure_bind_ne_error he (by decide) fun _ => ?_
      exact ensure_ne_error (ne_of_notMem he (by decide))

variable [DecidableEq A] {supported : Bool} {c : Chain H A}

theorem validateAttestation_ne_error (he : e ∉ proofErrors) (he' : e ∉ admissionErrors) :
    validateAttestation T att supported c ≠ .error e := by
  refine ensure_bind_ne_error he' (by decide) fun _ => ?_
  refine ensure_bind_ne_error he' (by decide) fun _ => ?_
  refine ensure_bind_ne_error he' (by decide) fun _ => ?_
  refine ensure_bind_ne_error he' (by decide) fun _ => ?_
  refine ensure_bind_ne_error he' (by decide) fun _ => ?_
  refine bind_ne_error (validateSignatures_ne_error he) fun _ => ?_
  exact bind_ne_error (validateAttestationContinuity_ne_error he) fun _ => pure_ne_error

theorem validateAttestation_ne_tooManyAttestors
    (hlen : att.attestors.length ≤ c.settings.maxAttestors) :
    validateAttestation T att supported c ≠ .error .tooManyAttestors := by
  refine bind_ne_error (ensure_ne_error (by decide)) fun _ => ?_
  refine bind_ne_error (ensure_ne_error (by decide)) fun _ => ?_
  refine bind_ne_error (fun h => (ensure_eq_error.1 h).1 hlen) fun _ => ?_
  refine bind_ne_error (ensure_ne_error (by decide)) fun _ => ?_
  refine bind_ne_error (ensure_ne_error (by decide)) fun _ => ?_
  refine bind_ne_error (validateSignatures_ne_error (by decide)) fun _ => ?_
  exact bind_ne_error (validateAttestationContinuity_ne_error (by decide)) fun _ => pure_ne_error

end Continuity

end Creditcoin
