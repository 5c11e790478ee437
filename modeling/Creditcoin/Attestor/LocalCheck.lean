import Creditcoin.Attestor.Production
import Creditcoin.Attestor.StreamRuns
import Creditcoin.Attestor.Validation

/-!
# The local check against the continuity check of the runtime

Before it submits an attestation, the validation task checks its proof against the last finalized
point, as the runtime will. What passes passes the runtime's check as well, with these exceptions
(`validateProofChain_iff`): the local check does not know the limit on the length of a proof, which
may have been lowered since (`exists_oversized`); nor that an attestation at the genesis height must
not extend anything (`exists_extends_at_genesis`); nor that the zero hash is refused; and it accepts
an empty proof at the genesis height it was started with. -/

namespace Creditcoin.Attestor

variable {H A B : Type} [DecidableEq H] {T : Config H A B} {st : Settings} {a : Anchors H A}
  {att : SignedAttestation H A} {x : Produced H} {h : ℕ} {d : H}

theorem heightOf_iff {n : ℕ} (hheight : HeightOf a d h) : HeightOf a d n ↔ n = h := by
  refine ⟨fun hn => ?_, fun hn => hn ▸ hheight⟩
  have hok := headerNumberOf_eq_ok (e := .noFinalizedAttestation).2 hheight
  rw [headerNumberOf_eq_ok.2 hn] at hok
  exact Except.ok.inj hok

/-! ## What the local check says -/

section Local

variable {digestLocal : Option H} {genesis : ℕ}

/-- An accepted proof that starts at the last finalized digest begins right above that point and
ends at the previous digest of the attestation. -/
theorem validateProofChain_proof (hroots : x.continuityProof.roots ≠ [])
    (hlower : x.continuityProof.lowerEndpointDigest = d)
    (hlocal : validateProofChain T.keccak x x.data.headerNumber (some (h, d)) digestLocal genesis =
      true) :
    x.data.prevDigest = some (x.continuityProof.computeContinuityDigest T.keccak
        (x.continuityProof.startBlockNumber x.data.headerNumber)) ∧
      x.continuityProof.startBlockNumber x.data.headerNumber = satAdd u64Max h 1 := by
  simp only [validateProofChain, ContinuityProof.isEmpty, ContinuityProof.tailPrevDigest,
    List.isEmpty_iff, hroots, hlower, if_false, if_true] at hlocal
  split at hlocal
  · cases hlocal
  · next heq => exact ⟨(not_not.1 heq).symm, of_decide_eq_true hlocal⟩

end Local

/-! ## What the runtime says -/

section Runtime

variable (hlast : a.lastFinalized = some (h, d)) (hheight : HeightOf a d h)

include hlast hheight

theorem validateAttestationContinuity_direct (hroots : att.continuityProof.roots = [])
    (hprev : att.prevDigest = some d) :
    validateAttestationContinuity T st a att = .ok () ↔
      att.headerNumber ≠ st.attestationChainGenesisBlockNumber ∧ d ≠ T.zero ∧
        att.headerNumber = (h + 1) % 2 ^ 64 := by
  have hdigest : a.lastFinalizedDigest = some d := by
    rw [Anchors.lastFinalizedDigest_eq, hlast, Option.map_some]
  have hempty : att.continuityProof.isEmpty = true := List.isEmpty_iff.2 hroots
  unfold validateAttestationContinuity
  split
  · next hgenesis => simp [hprev, hgenesis, ensure_eq_ok, bind_eq_ok]
  · next hgenesis =>
    simp only [bind_eq_ok, ensure_eq_ok, okOr_eq_ok, hprev, hdigest, hempty, Option.some.injEq,
      exists_eq_left', and_self, if_true, validateDirectLink, headerNumberOf_eq_ok,
      heightOf_iff hheight, exists_eq_left, hgenesis, ne_eq, not_false_eq_true, true_and,
      exists_const]

theorem validateAttestationContinuity_proof (hroots : att.continuityProof.roots ≠ [])
    (hlower : att.continuityProof.lowerEndpointDigest = d)
    (hstart : att.continuityProof.startBlockNumber att.headerNumber = h + 1)
    (hprev : att.prevDigest = some (att.continuityProof.computeContinuityDigest T.keccak
      (att.continuityProof.startBlockNumber att.headerNumber))) :
    validateAttestationContinuity T st a att = .ok () ↔
      att.headerNumber ≠ st.attestationChainGenesisBlockNumber ∧ att.prevDigest ≠ some T.zero ∧
        att.continuityProof.len ≤ maxRoots st := by
  have hdigest : a.lastFinalizedDigest = some d := by
    rw [Anchors.lastFinalizedDigest_eq, hlast, Option.map_some]
  constructor
  · intro hok
    unfold validateAttestationContinuity at hok
    split at hok
    · simp [hprev, ensure_eq_ok, bind_eq_ok] at hok
    · next hgenesis =>
      simp only [bind_eq_ok, ensure_eq_ok, okOr_eq_ok] at hok
      obtain ⟨prev, hprev', -, hzero, last, -, hok⟩ := hok
      rw [if_neg fun hdirect => hroots (List.isEmpty_iff.1 hdirect.2)] at hok
      simp only [validateProofLink, bind_eq_ok, ensure_eq_ok] at hok
      obtain ⟨-, -, -, hlen, -⟩ := hok
      exact ⟨hgenesis, hprev' ▸ fun heq => hzero (Option.some.inj heq), hlen⟩
  · rintro ⟨hgenesis, hzero, hlen⟩
    refine Links.validates (n := h) (d := d) ⟨hdigest, hheight, ?_, ?_, fun _ => hlower, hlen⟩
      hgenesis hzero
    · rw [hprev, hstart, ContinuityProof.computeContinuityDigest, hlower]
    · unfold ContinuityProof.startBlockNumber at hstart
      unfold ContinuityProof.len
      omega

end Runtime

/-! ## The two checks -/

/-- The attestation that is submitted for a cached proof. -/
def Produced.signed (x : Produced H) (signature : BlsSignature) (attestors : List A) :
    SignedAttestation H A :=
  ⟨x.data, signature, attestors, x.continuityProof⟩

/-- **The local check mirrors the runtime, with exceptions.** In a reachable state with the last
finalized point `(h, d)`, a cached proof passes the local check, whatever the digest validated last
and the genesis height known locally, and extends `d`. Then the runtime accepts its continuity
exactly if it is not at the genesis height of the chain, its previous digest is not the zero hash,
the proof is not too long, and without a proof it is right above `h`. -/
theorem validateProofChain_iff [DecidableEq A] (hret : 1 ≤ T.defaultAttestationRetentionDuration)
    {s : State H A B} (hreach : Reachable T s) {k : ChainKey}
    (hsup : s.isChainSupported k = true)
    (hlast : (s.chain T k).anchors.lastFinalized = some (h, d)) {digestLocal : Option H}
    {genesis : ℕ}
    (hlocal : validateProofChain T.keccak x x.data.headerNumber
      (s.chain T k).anchors.lastFinalized digestLocal genesis = true) {signature : BlsSignature}
    {attestors : List A} (hanchor : quorumAnchor (x.signed signature attestors) = some d) :
    validateAttestationContinuity T (s.chain T k).settings (s.chain T k).anchors
        (x.signed signature attestors) = .ok () ↔
      x.data.headerNumber ≠ (s.chain T k).settings.attestationChainGenesisBlockNumber ∧
        x.data.prevDigest ≠ some T.zero ∧
        x.continuityProof.len ≤ maxRoots (s.chain T k).settings ∧
        (x.continuityProof.roots = [] → x.data.headerNumber = (h + 1) % 2 ^ 64) := by
  have hheight := heightOf_lastFinalized hret hreach (.inl hsup) hlast
  rw [hlast] at hlocal
  by_cases hroots : x.continuityProof.roots = []
  · have hprev : (x.signed signature attestors).prevDigest = some d := by
      simpa [quorumAnchor, Produced.signed, ContinuityProof.tailPrevDigest, hroots] using hanchor
    have hlen : x.continuityProof.len = 0 := by rw [ContinuityProof.len, hroots, List.length_nil]
    rw [validateAttestationContinuity_direct hlast hheight hroots hprev]
    have hdata : x.data.prevDigest = some d := hprev
    simp only [hdata, hlen, hroots, Nat.zero_le, true_and, forall_const, ne_eq, Option.some.injEq]
    rfl
  · have hlower : x.continuityProof.lowerEndpointDigest = d := by
      simpa [quorumAnchor, Produced.signed, ContinuityProof.tailPrevDigest, hroots] using hanchor
    obtain ⟨hprev, hstart⟩ := validateProofChain_proof hroots hlower hlocal
    have hpos : 0 < x.continuityProof.roots.length := List.length_pos_iff.2 hroots
    have hlt := x.data.headerNumber_lt
    replace hstart : x.continuityProof.startBlockNumber x.data.headerNumber = h + 1 := by
      unfold ContinuityProof.startBlockNumber satAdd u64Max at *
      omega
    rw [validateAttestationContinuity_proof hlast hheight
      (show (x.signed signature attestors).continuityProof.roots ≠ [] from hroots) hlower hstart
      hprev]
    simp only [hroots, false_implies, and_true]
    rfl

/-! ## On a development network -/

section Devnet

open Devnet

/-- An operator changes a parameter, which comes into force, and imports the checkpoint at height
100. -/
def reconfigured (call : Call Word ℕ) : State Word ℕ Unit :=
  after (genesisConfig 10 10 []) [byRoot call, byRoot .forceApplyUpdates,
    byRoot (.importCheckpoints 1 [.of 100 (.root 7)])]

/-- The first poll of the stream above the checkpoint, when the source chain is mature up to
`tip`. -/
def firstPoll (tip : ℕ) : StreamAttestation.Outcome (Produced Word) Word :=
  (StreamAttestation.new 1 (Nat.succPNat 9) (Nat.succPNat 499) (.of 100 (.root 7)) 101).pollNext
    config.keccak config.zero numbered 2 (List.replicate (tip - 100) (ready tip))

/-- The proof for the first attestation above the checkpoint passes both checks. -/
theorem devnet_accepted :
    ∃ x stream', firstPoll 110 = .done x stream' ∧
      validateProofChain config.keccak x x.data.headerNumber
        ((checkpointed 10 100 (by decide)).chain config 1).anchors.lastFinalized none 0 = true ∧
      validateAttestationContinuity config
        ((checkpointed 10 100 (by decide)).chain config 1).settings
        ((checkpointed 10 100 (by decide)).chain config 1).anchors (x.signed .zero [1]) =
          .ok () := by
  have hreach : Reachable config (checkpointed 10 100 (by decide)) := reachable_after (by rfl) []
  refine ⟨_, _, rfl, ?accepted, (validateProofChain_iff (by decide) hreach (by rfl) (by rfl)
    ?accepted (by rfl)).2 ?_⟩
  · rfl
  · decide +kernel

/-- The catch-up is lowered after the proof was produced. -/
theorem exists_oversized :
    ∃ x stream' s, firstPoll 130 = .done x stream' ∧ Reachable config s ∧
      s.isChainSupported 1 = true ∧
      (s.chain config 1).anchors.lastFinalized = some (100, .root 7) ∧
      quorumAnchor (x.signed .zero [1]) = some (.root 7) ∧
      validateProofChain config.keccak x x.data.headerNumber
        (s.chain config 1).anchors.lastFinalized none 0 = true ∧
      validateAttestationContinuity config (s.chain config 1).settings (s.chain config 1).anchors
        (x.signed .zero [1]) = .error .oversizedContinuityProof := by
  have hreach : Reachable config (reconfigured (.setMaxCatchup 1 20)) := reachable_after (by rfl) _
  exact ⟨_, _, _, rfl, hreach, by rfl, by rfl, by rfl, by rfl, by rfl⟩

theorem exists_extends_at_genesis :
    ∃ x stream' s, firstPoll 110 = .done x stream' ∧ Reachable config s ∧
      s.isChainSupported 1 = true ∧
      (s.chain config 1).anchors.lastFinalized = some (100, .root 7) ∧
      quorumAnchor (x.signed .zero [1]) = some (.root 7) ∧
      (∀ genesis, validateProofChain config.keccak x x.data.headerNumber
        (s.chain config 1).anchors.lastFinalized none genesis = true) ∧
      ¬ validateAttestationContinuity config (s.chain config 1).settings
        (s.chain config 1).anchors (x.signed .zero [1]) = .ok () := by
  have hreach : Reachable config (reconfigured (.setAttestationChainGenesisBlockNumber 1 110)) :=
    reachable_after (by rfl) _
  refine ⟨_, _, _, rfl, hreach, by rfl, by rfl, by rfl, fun _ => by rfl, ?_⟩
  decide +kernel

end Devnet

end Creditcoin.Attestor
