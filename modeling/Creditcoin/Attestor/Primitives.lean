import Creditcoin.Foundations.Checked
import Creditcoin.Foundations.HashChain

/-!
# Attestations, continuity proofs and checkpoints

The types shared by the runtime and the attestor node. The digest of a source-chain block is the
keccak hash of its height, the root of its transactions and the digest of its predecessor (of the
first two for the block an attestation chain starts at). Keccak is a parameter: it is applied to the
triple itself, since the bytes it hashes are fields of fixed width. A continuity proof carries the
roots of consecutive blocks and the digest they chain from. -/

namespace Creditcoin

/-! ## Data types -/

/-- The key under which a source chain is registered, a `u64`. -/
abbrev ChainKey := ℕ

/-- A `u64` argument of a call. -/
abbrev U64 := Fin (2 ^ 64)

instance neZero_two_pow_64 : NeZero (2 ^ 64) := ⟨by decide⟩

theorem U64.isLt (n : U64) : n.val < 2 ^ 64 := Fin.isLt n

/-- A `u128` argument of a call. -/
abbrev U128 := Fin (2 ^ 128)

abbrev BlsPublicKey := {bytes : List UInt8 // bytes.length = 48}

abbrev BlsSignature := {bytes : List UInt8 // bytes.length = 96}

def BlsPublicKey.zero : BlsPublicKey := ⟨List.replicate 48 0, by simp⟩

def BlsSignature.zero : BlsSignature := ⟨List.replicate 96 0, by simp⟩

inductive AttestorStatus
  /-- Takes part in attestation. -/
  | active
  /-- Does not take part. -/
  | idle
  /-- Waits for the next election. -/
  | waiting
  /-- A voluntary chill is scheduled; stays in the committee until the next election. -/
  | leaving
  deriving DecidableEq

/-- A registered attestor (controller account) of a chain. -/
structure Attestor (A : Type) where
  blsPublicKey : Option BlsPublicKey
  status : AttestorStatus
  stash : A
  deriving DecidableEq

/-- The roots of consecutive blocks, and the digest of the block before the first of them. -/
structure ContinuityProof (H : Type) where
  lowerEndpointDigest : H
  roots : List H
  deriving DecidableEq

/-- What an attestation says about a source-chain block. -/
structure AttestationData (H : Type) where
  chainKey : ChainKey
  headerNumber : ℕ
  headerHash : H
  root : H
  prevDigest : Option H
  headerNumber_lt : headerNumber < 2 ^ 64
  deriving DecidableEq

/-- An attestation with the aggregated signature of its attestors. -/
structure SignedAttestation (H A : Type) where
  attestation : AttestationData H
  signature : BlsSignature
  attestors : List A
  continuityProof : ContinuityProof H
  deriving DecidableEq

structure AttestationCheckpoint (H : Type) where
  blockNumber : ℕ
  digest : H
  blockNumber_lt : blockNumber < 2 ^ 64
  deriving DecidableEq

/-- A checkpoint at a height that fits. -/
def AttestationCheckpoint.of {H : Type} (blockNumber : U64) (digest : H) :
    AttestationCheckpoint H :=
  ⟨blockNumber, digest, blockNumber.isLt⟩

/-! ## Digests -/

section Digest

variable {H A : Type} (keccak : ℕ → H → Option H → H)

/-- The digest of a block from its number, its root and the previous digest, if there is one. -/
def computeDigestFor (blockNumber : ℕ) (root : H) (prevDigest : Option H) : H :=
  keccak blockNumber root prevDigest

/-- The digest of a block that has a predecessor. -/
def hashPayload (blockNumber : ℕ) (root prevDigest : H) : H :=
  computeDigestFor keccak blockNumber root (some prevDigest)

namespace AttestationData

def digest (a : AttestationData H) : H :=
  computeDigestFor keccak a.headerNumber a.root a.prevDigest

/-- The little-endian bytes of a `u64`. -/
def leBytes (n : ℕ) : List UInt8 := (List.range 8).map fun i => UInt8.ofNat (n / 256 ^ i % 256)

/-- The signed message. -/
def serialize (hashBytes : H → List UInt8) (a : AttestationData H) : List UInt8 :=
  leBytes a.chainKey ++ leBytes a.headerNumber ++ hashBytes a.headerHash ++ hashBytes a.root ++
    (a.prevDigest.map hashBytes).getD []

end AttestationData

namespace SignedAttestation

def chainKey (a : SignedAttestation H A) : ChainKey := a.attestation.chainKey

def headerNumber (a : SignedAttestation H A) : ℕ := a.attestation.headerNumber

def prevDigest (a : SignedAttestation H A) : Option H := a.attestation.prevDigest

def digest (a : SignedAttestation H A) : H := a.attestation.digest keccak

theorem headerNumber_lt (a : SignedAttestation H A) : a.headerNumber < 2 ^ 64 :=
  a.attestation.headerNumber_lt

end SignedAttestation

/-! ## Continuity proofs -/

namespace ContinuityProof

variable (p : ContinuityProof H)

def len : ℕ := p.roots.length

def isEmpty : Bool := p.roots.isEmpty

def digestAt (startBlockNumber : ℕ) (index : ℕ) : Option H :=
  if p.roots.length ≤ index then none
  else
    some (HashChain.foldFrom (hashPayload keccak) startBlockNumber p.lowerEndpointDigest
      (p.roots.take (index + 1)))

/-- The digest of the block at a height, if the proof covers that height. -/
def digestForBlock (startBlockNumber blockNumber : ℕ) : Option H :=
  if blockNumber < startBlockNumber then none
  else p.digestAt keccak startBlockNumber (asUsize (blockNumber - startBlockNumber))

/-- The digest of the last block of the proof. -/
def computeContinuityDigest (startBlock : ℕ) : H :=
  HashChain.foldFrom (hashPayload keccak) startBlock p.lowerEndpointDigest p.roots

/-- The first block of a proof that ends right below the attested header. -/
def startBlockNumber (attestationHeaderNumber : ℕ) : ℕ :=
  attestationHeaderNumber - p.roots.length

/-- The digest the proof chains from. -/
def tailPrevDigest : Option H := if p.roots.isEmpty then none else some p.lowerEndpointDigest

/-- The digests of consecutive blocks, each under its height. -/
def digestsFrom : ℕ → H → List H → List (ℕ × H)
  | _, _, [] => []
  | blockNumber, prev, root :: roots =>
    let digest := hashPayload keccak blockNumber root prev
    (blockNumber, digest) :: digestsFrom (blockNumber + 1) digest roots

/-- The digest of every block of the proof, in the order of the heights. -/
def blockDigests (startBlockNumber : ℕ) : List (ℕ × H) :=
  digestsFrom keccak startBlockNumber p.lowerEndpointDigest p.roots

/-- The place of a height in the proof, if the proof covers it. The sum is not checked. -/
def findQueryBlockIndex (startBlockNumber queryHeight : ℕ) : Option ℕ :=
  if p.roots.isEmpty then none
  else
    let lastBlockNum := (startBlockNumber + (p.roots.length - 1)) % 2 ^ 64
    if startBlockNumber ≤ queryHeight ∧ queryHeight ≤ lastBlockNum then
      let index := asUsize (queryHeight - startBlockNumber)
      if index < p.roots.length then some index else none
    else none

end ContinuityProof

end Digest

/-! ## Quorum -/

/-- Two thirds of the active attestors, plus one. The product saturates at `u32::MAX`. -/
def calculateThreshold (activeAttestors : ℕ) : ℕ := satMul u32Max activeAttestors 2 / 3 + 1

/-- The quorum of a chain, measured against its live set of active attestors. -/
def calculateQuorum (activeAttestors : ℕ) : ℕ := calculateThreshold activeAttestors

/-! ## Proof of possession -/

/-- The domain separation tag of the proof-of-possession message. -/
def popDomainV1 : List UInt8 :=
  "CC3:ATTESTOR:POP:v1".toList.map fun c => UInt8.ofNat c.toNat

/-- The message a proof of possession signs: the key, bound to the chain and to the claimant. -/
def proofOfPossessionMessage (chainKey : ChainKey) (attestorId : List UInt8)
    (blsPublicKey : BlsPublicKey) : List UInt8 :=
  popDomainV1 ++ AttestationData.leBytes chainKey ++ attestorId ++ blsPublicKey.val

/-! ## Signed messages -/

section Messages

open AttestationData (leBytes)

@[simp] theorem length_leBytes (n : ℕ) : (leBytes n).length = 8 := by simp [leBytes]

theorem leBytes_injOn {n m : ℕ} (hn : n < 2 ^ 64) (hm : m < 2 ^ 64) (h : leBytes n = leBytes m) :
    n = m := by
  have hbyte : ∀ i < 8, n / 256 ^ i % 256 = m / 256 ^ i % 256 := fun i hi => by
    simpa using congrArg UInt8.toNat (List.map_inj_left.1 h i (List.mem_range.2 hi))
  have hmod : ∀ i ≤ 8, n % 256 ^ i = m % 256 ^ i := by
    intro i hi
    induction i with
    | zero => simp [Nat.mod_one]
    | succ i ih => rw [Nat.mod_pow_succ, Nat.mod_pow_succ, ih (by omega), hbyte i hi]
  have := hmod 8 le_rfl
  omega

/-- **Signed messages are unambiguous.** An attestation is determined by the message that is signed
for it, and a chain, a claimant and a key by that of a proof of possession; neither message is ever
the other. -/
theorem messages_unambiguous {H : Type} {hashBytes : H → List UInt8}
    (hinj : Function.Injective hashBytes) (hlen : ∀ h, (hashBytes h).length = 32)
    (a a' : AttestationData H) (ha : a.chainKey < 2 ^ 64) (ha' : a'.chainKey < 2 ^ 64)
    {k k' : ChainKey} (hk : k < 2 ^ 64) (hk' : k' < 2 ^ 64) {id id' : List UInt8}
    (hid : id.length = 32) (hid' : id'.length = 32) (key key' : BlsPublicKey) :
    (a.serialize hashBytes = a'.serialize hashBytes → a = a') ∧
      (proofOfPossessionMessage k id key = proofOfPossessionMessage k' id' key' →
        k = k' ∧ id = id' ∧ key = key') ∧
      a.serialize hashBytes ≠ proofOfPossessionMessage k id key := by
  refine ⟨fun h => ?_, fun h => ?_, fun h => ?_⟩
  · simp only [AttestationData.serialize, List.append_assoc] at h
    obtain ⟨hkey, h⟩ := List.append_inj h (by simp)
    obtain ⟨hheader, h⟩ := List.append_inj h (by simp)
    obtain ⟨hhash, h⟩ := List.append_inj h (by simp [hlen])
    obtain ⟨hroot, h⟩ := List.append_inj h (by simp [hlen])
    have hprev : a.prevDigest = a'.prevDigest := by
      rcases hd : a.prevDigest with _ | d <;> rcases hd' : a'.prevDigest with _ | d'
      · rfl
      · simpa [hd, hd', hlen] using congrArg List.length h
      · simpa [hd, hd', hlen] using congrArg List.length h
      · exact congrArg some (hinj (by simpa [hd, hd'] using h))
    replace hkey := leBytes_injOn ha ha' hkey
    replace hheader := leBytes_injOn a.headerNumber_lt a'.headerNumber_lt hheader
    cases a
    cases a'
    simp_all [hinj.eq_iff]
  · simp only [proofOfPossessionMessage, List.append_assoc] at h
    obtain ⟨hchain, h⟩ := List.append_inj (List.append_cancel_left h) (by simp)
    obtain ⟨hclaimant, hkey⟩ := List.append_inj h (hid.trans hid'.symm)
    exact ⟨leBytes_injOn hk hk' hchain, hclaimant, Subtype.ext hkey⟩
  -- Messages of 80 or 112 bytes against one of 107.
  · have hlength := congrArg List.length h
    have hdomain : popDomainV1.length = 19 := by decide
    rcases hd : a.prevDigest with _ | d <;>
      simp [AttestationData.serialize, proofOfPossessionMessage, hlen, hid, hdomain, key.2, hd]
        at hlength

/-- No attestation of block 5 passes for a proof of possession. -/
theorem messages_unambiguous_zero :
    let zero : {bytes : List UInt8 // bytes.length = 32} := ⟨List.replicate 32 0, by simp⟩
    AttestationData.serialize Subtype.val ⟨1, 5, zero, zero, none, by decide⟩ ≠
      proofOfPossessionMessage 1 zero.val .zero := by
  intro zero
  exact (messages_unambiguous Subtype.val_injective (fun h => h.2) _
    ⟨1, 5, zero, zero, none, by decide⟩ (by decide) (by decide) (by decide)
    (by decide : 1 < 2 ^ 64) zero.2 zero.2 .zero .zero).2.2

end Messages

end Creditcoin
