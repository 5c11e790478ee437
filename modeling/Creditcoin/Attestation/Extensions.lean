import Creditcoin.Attestation.CommitSpec
import Creditcoin.Devnet

/-!
# The transaction extension

`PrevalidateAttestationCommit` looks at a `commit_attestation` call before the transaction pool
takes it. It rejects what dispatch is bound to refuse, and grants the one slot the pool has for an
attestation by a `provides` tag. What dispatch validates passes the extension
(`prevalidateCommit_of_valid`), and outside block execution the tag goes to valid submissions of
active attestors only (`prevalidation_sound`). -/

namespace Creditcoin

variable {H A B : Type} [DecidableEq H] [DecidableEq A] (T : Config H A B)

/-! ## The extension -/

/-- Where a transaction comes from: the block that is executed, this node, or another one. -/
inductive TransactionSource
  | inBlock
  | «local»
  | external
  deriving DecidableEq

/-- Why a transaction is invalid. -/
inductive InvalidTransaction
  | stale
  | exhaustsResources
  | custom (code : UInt8)
  deriving DecidableEq

/-- A transaction the pool may take. Two transactions that provide the same tag exclude each
other. -/
structure ValidTransaction (H : Type) where
  provides : List (String × ChainKey × H) := []
  deriving DecidableEq

def oversizedProofCode : UInt8 := 1

def attestationCleanupInProgressCode : UInt8 := 2

def extensionIdentifier : String := "PrevalidateAttestationCommit"

def commitTag (att : SignedAttestation H A) : String × ChainKey × H :=
  (extensionIdentifier, att.chainKey, att.digest T.keccak)

/-- Does the pool get the tag? Validation is not repeated while a block is executed. -/
def grantsTag (s : State H A B) (isActive : Bool) (att : SignedAttestation H A)
    (source : TransactionSource) : Bool :=
  isActive && (source = .inBlock ||
    (validateAttestation T att (s.isChainSupported att.chainKey) (s.chain T att.chainKey)).isOk)

def prevalidateCommit (s : State H A B) (who : A) (att : SignedAttestation H A)
    (source : TransactionSource) : Except InvalidTransaction (ValidTransaction H) := do
  let c := s.chain T att.chainKey
  ensure (c.anchors.commitBlockedByCleanup = false) (.custom attestationCleanupInProgressCode)
  ensure (att.attestors.length ≤ c.settings.maxAttestors) .exhaustsResources
  ensure (att.continuityProof.len ≤ maxRoots c.settings) (.custom oversizedProofCode)
  let isActive : Bool := who ∈ c.roster.activeAttestors
  ensure (¬ (isActive = true ∧ c.anchors.checkDuplicate T att = true)) .stale
  pure (if grantsTag T s isActive att source then ⟨[commitTag T att]⟩ else {})

/-- Validation of a transaction. Other calls and other origins pass. -/
def prevalidate (s : State H A B) (origin : Origin A) (call : Call H A)
    (source : TransactionSource) : Except InvalidTransaction (ValidTransaction H) :=
  match origin, call with
  | .signed who, .commitAttestation att => prevalidateCommit T s who att source
  | _, _ => .ok {}

/-! ## Valid attestations pass -/

section Valid

variable {T} {s : State H A B} {who : A} {att : SignedAttestation H A} {supported : Bool}
  {c : Chain H A} {keys : List T.bls.PublicKey}

/-- The proof of a valid attestation is within the bound, on each of the branches of the check of
continuity. -/
theorem len_le_of_validateAttestation (h : validateAttestation T att supported c = .ok keys) :
    att.continuityProof.len ≤ maxRoots c.settings := by
  simp only [validateAttestation, bind_eq_ok, ensure_eq_ok] at h
  obtain ⟨-, -, -, -, -, -, -, hfresh, -, -, -, -, ⟨⟩, hcontinuity, -⟩ := h
  obtain ⟨-, hdigest, hcheckpoint⟩ := Anchors.checkDuplicate_eq_false.1 hfresh
  obtain hstarts | ⟨-, n, d, hlinks⟩ :=
    validateAttestationContinuity_cases hdigest hcheckpoint hcontinuity
  · simp [ContinuityProof.len, hstarts.roots_eq]
  · exact hlinks.len_le

/-- **A valid attestation of an active attestor passes**, with its tag. -/
theorem prevalidateCommit_of_valid (source : TransactionSource)
    (hwho : who ∈ (s.chain T att.chainKey).roster.activeAttestors)
    (h : validateAttestation T att (s.isChainSupported att.chainKey) (s.chain T att.chainKey) =
      .ok keys) :
    prevalidateCommit T s who att source = .ok ⟨[commitTag T att]⟩ := by
  have hlen := len_le_of_validateAttestation h
  have hgrants : grantsTag T s true att source = true := by
    simp [grantsTag, h, Except.isOk, Except.toBool]
  simp only [validateAttestation, bind_eq_ok, ensure_eq_ok] at h
  obtain ⟨-, -, -, hcleanup, -, hattestors, -, hfresh, -⟩ := h
  simp only [prevalidateCommit, bind_eq_ok, ensure_eq_ok, pure_eq_ok]
  refine ⟨(), hcleanup, (), hattestors, (), hlen, (), ?_, ?_⟩
  · simp [hfresh]
  · simp [hwho, hgrants]

theorem valid_of_prevalidateCommit {source : TransactionSource} {valid : ValidTransaction H}
    (hsource : source ≠ .inBlock) (h : prevalidateCommit T s who att source = .ok valid)
    (htag : commitTag T att ∈ valid.provides) :
    who ∈ (s.chain T att.chainKey).roster.activeAttestors ∧
      ∃ keys, validateAttestation T att (s.isChainSupported att.chainKey)
        (s.chain T att.chainKey) = .ok keys := by
  simp only [prevalidateCommit, bind_eq_ok, ensure_eq_ok, pure_eq_ok] at h
  obtain ⟨-, -, -, -, -, -, -, -, rfl⟩ := h
  split at htag
  · next hgrants =>
    simp only [grantsTag, hsource, Bool.and_eq_true, decide_eq_true_eq, decide_false,
      Bool.false_or] at hgrants
    exact ⟨hgrants.1, exists_of_isOk hgrants.2⟩
  · simp at htag

theorem prevalidate_of_dispatch {host : Host H A} {s' : State H A B}
    (h : dispatch T host s (.signed who) (.commitAttestation att) = .ok s')
    (source : TransactionSource) :
    prevalidate T s (.signed who) (.commitAttestation att) source = .ok ⟨[commitTag T att]⟩ := by
  simp only [dispatch, asSigned_eq_ok, State.commitAttestation_eq_ok] at h
  obtain ⟨_, ⟨⟩, hwho, a, n, hcommit, -⟩ := h
  simp only [doCommitAttestation, bind_eq_ok] at hcommit
  obtain ⟨keys, hvalid, -⟩ := hcommit
  exact prevalidateCommit_of_valid source hwho hvalid

end Valid

/-- **The extension agrees with dispatch.** In every state, a commit it rejects fails in dispatch;
and outside block execution it grants the tag exactly to valid attestations of active attestors. -/
theorem prevalidation_sound (s : State H A B) (who : A) (att : SignedAttestation H A)
    (source : TransactionSource) :
    (∀ host e, prevalidate T s (.signed who) (.commitAttestation att) source = .error e →
      ∃ e', dispatch T host s (.signed who) (.commitAttestation att) = .error e') ∧
    (source ≠ .inBlock →
      ((∃ valid, prevalidate T s (.signed who) (.commitAttestation att) source = .ok valid ∧
          commitTag T att ∈ valid.provides) ↔
        who ∈ (s.chain T att.chainKey).roster.activeAttestors ∧
          ∃ keys, validateAttestation T att (s.isChainSupported att.chainKey)
            (s.chain T att.chainKey) = .ok keys)) := by
  refine ⟨fun host e hreject => ?_, fun hsource => ⟨?_, ?_⟩⟩
  · cases hdispatch : dispatch T host s (.signed who) (.commitAttestation att) with
    | error e' => exact ⟨e', rfl⟩
    | ok s' => simp [prevalidate_of_dispatch hdispatch source] at hreject
  · rintro ⟨valid, hvalid, htag⟩
    exact valid_of_prevalidateCommit hsource hvalid htag
  · rintro ⟨hwho, keys, hvalid⟩
    exact ⟨_, prevalidateCommit_of_valid source hwho hvalid, List.mem_singleton_self _⟩

open Devnet in
/-- On the development network the first attestation cannot be sent again, and the next one is
given its tag. -/
theorem devnet_prevalidation : (∃ e, dispatch config host (started 10 10) (.signed 1)
      (.commitAttestation (attestation 0 none ⟨.zero, []⟩)) = .error e) ∧
    ∃ valid, prevalidate config (started 10 10) (.signed 1)
        (.commitAttestation (nextAttestation (started 10 10) 10)) .external = .ok valid ∧
      commitTag config (nextAttestation (started 10 10) 10) ∈ valid.provides := by
  constructor
  · apply (prevalidation_sound config (started 10 10) 1
      (attestation 0 none ⟨.zero, []⟩) .external).1 host .stale
    exact eq_error_of_failure (by rfl)
  · refine ((prevalidation_sound config (started 10 10) 1 _ .external).2
      (by decide)).2 ⟨by decide +kernel, ?_⟩
    exact exists_of_isOk (by rfl)

end Creditcoin
