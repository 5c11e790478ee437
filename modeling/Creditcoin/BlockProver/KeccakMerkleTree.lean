import Creditcoin.Attestor.Primitives
import Creditcoin.Foundations.Merkle

/-!
# Transaction trees

The Merkle tree over the transactions of a source-chain block. Keccak is applied to byte strings,
whose shape separates leaves, inner nodes and block digests: a leaf starts with the byte 0, an inner
node with the byte 1, and a digest is longer when there is a predecessor. -/

namespace Creditcoin

abbrev Bytes := List UInt8

/-- Keccak-256 on byte strings, and hashes as strings of 32 bytes. -/
structure Keccak256 (H : Type) where
  keccak256 : Bytes → H
  asBytes : H → Bytes
  zero : H
  length_asBytes : ∀ h, (asBytes h).length = 32
  asBytes_injective : Function.Injective asBytes

/-! ## Hash functions -/

def leafHashPrependValue : UInt8 := 0

def innerHashPrependValue : UInt8 := 1

/-- The big-endian bytes of a `u64`. -/
def beBytes (n : ℕ) : Bytes := (List.range 8).map fun i => UInt8.ofNat (n / 256 ^ (7 - i) % 256)

def leafPreimage (input : Bytes) : Bytes := leafHashPrependValue :: input

namespace Keccak256

variable {H : Type} (K : Keccak256 H)

def hashLeaf (input : Bytes) : H := K.keccak256 (leafPreimage input)

def innerPreimage (left right : H) : Bytes :=
  innerHashPrependValue :: (K.asBytes left ++ K.asBytes right)

def hashInner (left right : H) : H := K.keccak256 (K.innerPreimage left right)

def digestPreimage (blockNumber : ℕ) (root : H) (prevDigest : Option H) : Bytes :=
  beBytes blockNumber ++ K.asBytes root ++ (prevDigest.map K.asBytes).getD []

/-- The digest of a block, as a hash of bytes. -/
def blockDigest (blockNumber : ℕ) (root : H) (prevDigest : Option H) : H :=
  K.keccak256 (K.digestPreimage blockNumber root prevDigest)

/-- Keccak has no collisions among the given strings and maps none of them to zero. -/
structure CollisionFree (inputs : List Bytes) : Prop where
  inj : ∀ x ∈ inputs, ∀ y ∈ inputs, K.keccak256 x = K.keccak256 y → x = y
  ne_zero : ∀ x ∈ inputs, K.keccak256 x ≠ K.zero

variable {K}

theorem leafPreimage_inj {x y : Bytes} : leafPreimage x = leafPreimage y ↔ x = y := by
  simp [leafPreimage]

theorem leafPreimage_ne_innerPreimage (x : Bytes) (l r : H) :
    leafPreimage x ≠ K.innerPreimage l r := by
  simp [leafPreimage, innerPreimage, leafHashPrependValue, innerHashPrependValue]

theorem innerPreimage_inj {l r l' r' : H} (h : K.innerPreimage l r = K.innerPreimage l' r') :
    l = l' ∧ r = r' := by
  have happ := (List.cons.inj h).2
  obtain ⟨hl, hr⟩ := List.append_inj happ (by rw [K.length_asBytes, K.length_asBytes])
  exact ⟨K.asBytes_injective hl, K.asBytes_injective hr⟩

theorem length_beBytes (n : ℕ) : (beBytes n).length = 8 := by
  simp [beBytes]

theorem digestPreimage_inj {n : ℕ} {r r' p p' : H}
    (h : K.digestPreimage n r (some p) = K.digestPreimage n r' (some p')) : r = r' ∧ p = p' := by
  simp only [digestPreimage, Option.map_some, Option.getD_some, List.append_assoc] at h
  have happ := List.append_cancel_left h
  obtain ⟨hr, hp⟩ := List.append_inj happ (by rw [K.length_asBytes, K.length_asBytes])
  exact ⟨K.asBytes_injective hr, K.asBytes_injective hp⟩

theorem digestPreimage_some_ne_none (n n' : ℕ) (r r' p : H) :
    K.digestPreimage n r (some p) ≠ K.digestPreimage n' r' none := by
  intro h
  have hlen := congrArg List.length h
  simp [digestPreimage, length_beBytes, K.length_asBytes] at hlen

end Keccak256

/-! ## Proofs -/

section Trees

variable {H : Type}

abbrev MerkleProofEntry (H : Type) := Merkle.Sibling H

/-- A proof that a transaction is among those of a block. -/
structure TransactionMerkleProof (H : Type) where
  root : H
  siblings : List (MerkleProofEntry H)
  deriving DecidableEq

namespace TransactionMerkleProof

/-- Does the path climb from the transaction to the root? -/
def verify [DecidableEq H] (K : Keccak256 H) (p : TransactionMerkleProof H) (txData : Bytes) :
    Bool :=
  Merkle.climb K.hashInner (K.hashLeaf txData) p.siblings == p.root

/-- The strings hashed in checking the proof. -/
def preimages (K : Keccak256 H) (p : TransactionMerkleProof H) (txData : Bytes) : List Bytes :=
  leafPreimage txData :: (Merkle.climbPairs K.hashInner (K.hashLeaf txData) p.siblings).map
    fun q => K.innerPreimage q.1 q.2

end TransactionMerkleProof

/-! ## Trees -/

/-- Why no proof is generated. -/
inductive MerkleTreeError
  | indexOutOfRange (index maxIndex : ℕ)
  deriving DecidableEq

/-- The levels of a tree, from the leaves to the root. -/
structure KeccakMerkleTree (H : Type) where
  levels : List (List H)

namespace KeccakMerkleTree

variable (K : Keccak256 H)

/-- The tree over the given items, padded with the zero hash. -/
def new (items : List Bytes) : KeccakMerkleTree H :=
  ⟨Merkle.levels K.hashInner K.zero (items.map K.hashLeaf)⟩

/-- The root, or the zero hash for a tree without items. -/
def root (t : KeccakMerkleTree H) : H := (t.levels.getLast?.bind List.head?).getD K.zero

def generateProof (t : KeccakMerkleTree H) (leafIndex : ℕ) :
    Except MerkleTreeError (TransactionMerkleProof H) :=
  let leafCount := (t.levels.head?.map List.length).getD 0
  if leafCount ≤ leafIndex then .error (.indexOutOfRange leafIndex (leafCount - 1))
  else .ok ⟨t.root K, Merkle.pathThrough K.zero t.levels.dropLast leafIndex⟩

/-- The strings hashed in building the tree. -/
def preimages (items : List Bytes) : List Bytes :=
  items.map leafPreimage ++
    (Merkle.treePairs K.hashInner K.zero (items.map K.hashLeaf)).map
      fun p => K.innerPreimage p.1 p.2

variable {K} {items : List Bytes}

theorem root_new : (new K items).root K =
    (Merkle.root K.hashInner K.zero (items.map K.hashLeaf)).getD K.zero := rfl

theorem leafCount_new : ((new K items).levels.head?.map List.length).getD 0 = items.length := by
  match items with
  | [] => rfl
  | [x] => rfl
  | x :: y :: rest =>
    rw [new, Merkle.levels_of_one_lt (by simp)]
    simp

theorem generateProof_new {i : ℕ} (hi : i < items.length) :
    (new K items).generateProof K i = .ok ⟨(new K items).root K,
      Merkle.path K.hashInner K.zero (items.map K.hashLeaf) i⟩ := by
  rw [generateProof, leafCount_new, if_neg (by omega)]
  rfl

/-- **Completeness.** The proof generated for an item verifies it. -/
theorem verify_generateProof [DecidableEq H] {i : ℕ} {tx : Bytes} (htx : items[i]? = some tx) :
    TransactionMerkleProof.verify K ⟨(new K items).root K,
      Merkle.path K.hashInner K.zero (items.map K.hashLeaf) i⟩ tx = true := by
  have hleaf : (items.map K.hashLeaf)[i]? = some (K.hashLeaf tx) := by
    rw [List.getElem?_map, htx, Option.map_some]
  rw [TransactionMerkleProof.verify, beq_iff_eq, root_new, Merkle.root_eq_climb_path hleaf,
    Option.getD_some]

/-- Where keccak has no collisions, the tree and a proof are separated in the sense of the
library. -/
theorem separated {tx : Bytes} {p : TransactionMerkleProof H} {inputs : List Bytes}
    (hcf : K.CollisionFree inputs) (htree : ∀ x ∈ preimages K items, x ∈ inputs)
    (hproof : ∀ x ∈ p.preimages K tx, x ∈ inputs) :
    Merkle.Separated K.hashInner K.zero (items.map K.hashLeaf) (K.hashLeaf tx) p.siblings := by
  have hleaf : leafPreimage tx ∈ inputs := hproof _ List.mem_cons_self
  have hitem : ∀ x ∈ items, leafPreimage x ∈ inputs := fun x hx =>
    htree _ (List.mem_append_left _ (List.mem_map_of_mem hx))
  have hpair : ∀ q ∈ Merkle.treePairs K.hashInner K.zero (items.map K.hashLeaf),
      K.innerPreimage q.1 q.2 ∈ inputs := fun q hq =>
    htree _ (List.mem_append_right _ (List.mem_map.2 ⟨q, hq, rfl⟩))
  have hclimb : ∀ q ∈ Merkle.climbPairs K.hashInner (K.hashLeaf tx) p.siblings,
      K.innerPreimage q.1 q.2 ∈ inputs := fun q hq =>
    hproof _ (List.mem_cons_of_mem _ (List.mem_map.2 ⟨q, hq, rfl⟩))
  constructor
  · intro q hq q' hq' heq
    obtain ⟨h₁, h₂⟩ := Keccak256.innerPreimage_inj
      (hcf.inj _ (hpair q hq) _ (hclimb q' hq') heq)
    exact Prod.ext h₁ h₂
  · intro q hq heq
    exact Keccak256.leafPreimage_ne_innerPreimage tx q.1 q.2
      (hcf.inj _ hleaf _ (hpair q hq) heq.symm)
  · intro q hq hmem
    obtain ⟨x, hx, heq⟩ := List.mem_map.1 hmem
    exact Keccak256.leafPreimage_ne_innerPreimage x q.1 q.2
      (hcf.inj _ (hitem x hx) _ (hclimb q hq) heq)
  · exact hcf.ne_zero _ hleaf
  · exact fun q hq => hcf.ne_zero _ (hclimb q hq)

/-- **Binding.** A proof that verifies against the root of a tree verifies the item of the tree at
the position its sides spell, and passes every level. -/
theorem getElem?_of_verify [DecidableEq H] {tx : Bytes} {p : TransactionMerkleProof H}
    {inputs : List Bytes} (hcf : K.CollisionFree inputs)
    (htree : ∀ x ∈ preimages K items, x ∈ inputs) (hproof : ∀ x ∈ p.preimages K tx, x ∈ inputs)
    (hroot : p.root = (new K items).root K) (hverify : p.verify K tx = true) :
    items[Merkle.index p.siblings]? = some tx ∧
      p.siblings.length + 1 = (new K items).levels.length := by
  have hsep := separated hcf htree hproof
  rw [TransactionMerkleProof.verify, beq_iff_eq, hroot, root_new] at hverify
  cases hr : Merkle.root K.hashInner K.zero (items.map K.hashLeaf) with
  | none =>
    rw [hr, Option.getD_none] at hverify
    exact absurd hverify hsep.ne_pad
  | some r =>
    rw [hr, Option.getD_some] at hverify
    obtain ⟨hleaf, hlen⟩ := hsep.binding (hr.trans (congrArg some hverify.symm))
    refine ⟨?_, hlen⟩
    rw [List.getElem?_map, Option.map_eq_some_iff] at hleaf
    obtain ⟨x, hx, heq⟩ := hleaf
    have hmem : leafPreimage x ∈ inputs :=
      htree _ (List.mem_append_left _ (List.mem_map_of_mem (List.mem_of_getElem? hx)))
    rw [hx, Keccak256.leafPreimage_inj.1
      (hcf.inj _ hmem _ (hproof _ List.mem_cons_self) heq)]

end KeccakMerkleTree

end Trees

end Creditcoin
