import Creditcoin.BlockProver.VerifySpec
import Creditcoin.Devnet

/-!
# Verification against a source chain

A source chain is a sequence of blocks, each a list of transactions, whose digests form a hash
chain. If the attestations and stable checkpoints on record are its digests, only transactions of
the chain are accepted, each at its own index (`verify_sound`), and every transaction below a stable
anchor that is not too long is accepted with the proofs generated for it (`verify_complete`). Keccak
should have no collisions among the strings hashed by the source chain up to the end of the
continuity proof and by the verification itself. -/

namespace Creditcoin

variable {H A B : Type}

/-! ## Source chains -/

/-- The blocks of a source chain from the height `first` on. -/
structure SourceChain where
  first : ℕ
  transactions : ℕ → List Bytes
  -- A list of transactions fits the address space.
  length_lt : ∀ n, (transactions n).length < 2 ^ 64

namespace SourceChain

variable (K : Keccak256 H) (c : SourceChain)

def root (n : ℕ) : H := (KeccakMerkleTree.new K (c.transactions n)).root K

/-- The digest of the first block, hashed without a predecessor. -/
def firstDigest : H := computeDigestFor K.blockDigest c.first (c.root K c.first) none

def digest (n : ℕ) : Option H :=
  HashChain.digestAt (hashPayload K.blockDigest) c.first (c.firstDigest K)
    (fun y => some (c.root K y)) n

/-- The strings hashed for the block at a height. -/
def blockPreimages (n : ℕ) : List Bytes :=
  K.digestPreimage n (c.root K n) (if n = c.first then none else c.digest K (n - 1)) ::
    KeccakMerkleTree.preimages K (c.transactions n)

/-- The strings hashed for the blocks up to a height. -/
def preimages (n : ℕ) : List Bytes :=
  (List.range' c.first (n + 1 - c.first)).flatMap (c.blockPreimages K)

def rootsBetween (t a : ℕ) : List H := (List.range' t (a + 1 - t)).map (c.root K)

/-- The proof that ties the root at `t` to the digest at `a`. -/
def continuityProof (t a : ℕ) : Option (ContinuityProof H) :=
  (c.digest K (t - 1)).map fun d => ⟨d, c.rootsBetween K t a⟩

variable {K c}

theorem digest_eq_some_iff_of_lt {n : ℕ} (hn : c.first < n) {d : H} :
    c.digest K n = some d ↔
      ∃ p, c.digest K (n - 1) = some p ∧ hashPayload K.blockDigest n (c.root K n) p = d := by
  obtain ⟨m, rfl⟩ : ∃ m, n = m + 1 := ⟨n - 1, by omega⟩
  rw [digest, HashChain.digestAt_succ (by omega), Option.bind_eq_some_iff]
  simp [digest]

theorem exists_digest {n : ℕ} (hn : c.first ≤ n) : ∃ d, c.digest K n = some d := by
  induction n, hn using Nat.le_induction with
  | base => exact ⟨_, HashChain.digestAt_base⟩
  | succ n hn ih =>
    obtain ⟨p, hp⟩ := ih
    exact ⟨_, (digest_eq_some_iff_of_lt (by omega)).2 ⟨p, hp, rfl⟩⟩

theorem length_rootsBetween (t a : ℕ) : (c.rootsBetween K t a).length = a + 1 - t := by
  rw [rootsBetween, List.length_map, List.length_range']

theorem getElem?_rootsBetween {t a i : ℕ} (hi : t + i ≤ a) :
    (c.rootsBetween K t a)[i]? = some (c.root K (t + i)) := by
  rw [rootsBetween, List.getElem?_map, List.getElem?_range' (by omega), Option.map_some, one_mul]

theorem length_levels_le (n : ℕ) :
    (KeccakMerkleTree.new K (c.transactions n)).levels.length ≤ 64 + 1 :=
  Merkle.length_levels_le (by
    rw [List.length_map]
    exact (c.length_lt n).le)

theorem blockPreimages_subset {n m : ℕ} (hn : c.first ≤ n) (hm : n ≤ m) :
    ∀ x ∈ c.blockPreimages K n, x ∈ c.preimages K m := by
  intro x hx
  refine List.mem_flatMap.2 ⟨n, ?_, hx⟩
  rw [List.mem_range'_1]
  omega

theorem firstPreimage_mem {m : ℕ} (hm : c.first ≤ m) :
    K.digestPreimage c.first (c.root K c.first) none ∈ c.preimages K m := by
  refine blockPreimages_subset le_rfl hm _ ?_
  rw [blockPreimages, if_pos rfl]
  exact List.mem_cons_self

theorem digestPreimage_mem {n m : ℕ} {p : H} (hn : c.first < n) (hm : n ≤ m)
    (hp : c.digest K (n - 1) = some p) :
    K.digestPreimage n (c.root K n) (some p) ∈ c.preimages K m := by
  refine blockPreimages_subset hn.le hm _ ?_
  rw [blockPreimages, if_neg (by omega), hp]
  exact List.mem_cons_self

end SourceChain

/-- The strings hashed in folding a continuity proof. -/
def ContinuityProof.preimages (K : Keccak256 H) (p : ContinuityProof H) (start : ℕ) : List Bytes :=
  (HashChain.foldInputs (hashPayload K.blockDigest) start p.lowerEndpointDigest p.roots).map
    fun q => K.digestPreimage q.1 q.2.1 (some q.2.2)

/-! ## Continuity proofs of a source chain -/

namespace SourceChain

variable {K : Keccak256 H} {c : SourceChain} {p : ContinuityProof H} {start : ℕ}

/-- Without collisions, a continuity proof that folds to a digest of the chain starts above the
first block and carries the roots of the chain. -/
theorem roots_of_continuityDigest {inputs : List Bytes} (hcf : K.CollisionFree inputs)
    (hchain : ∀ x ∈ c.preimages K (start + (p.roots.length - 1)), x ∈ inputs)
    (hproof : ∀ x ∈ p.preimages K start, x ∈ inputs) (hne : p.roots ≠ [])
    (hdigest : c.digest K (start + (p.roots.length - 1)) =
      some (p.computeContinuityDigest K.blockDigest start)) :
    c.first < start ∧ ∀ i r, p.roots[i]? = some r → c.root K (start + i) = r := by
  have hmem : ∀ q ∈ HashChain.foldInputs (hashPayload K.blockDigest) start
      p.lowerEndpointDigest p.roots, K.digestPreimage q.1 q.2.1 (some q.2.2) ∈ inputs :=
    fun q hq => hproof _ (List.mem_map.2 ⟨q, hq, rfl⟩)
  have hfirst : K.digestPreimage c.first (c.root K c.first) none ∈ inputs :=
    hchain _ (firstPreimage_mem (HashChain.le_of_digestAt hdigest))
  obtain ⟨hlt, -, hroots⟩ := HashChain.binding hne
    (fun q hq hb r prev hr hprev heq => by
      obtain rfl : c.root K q.1 = r := Option.some.inj hr
      have hle : q.1 ≤ start + (p.roots.length - 1) := by
        have := HashChain.mem_foldInputs_bounds hq
        omega
      exact Keccak256.digestPreimage_inj
        (hcf.inj _ (hchain _ (digestPreimage_mem hb hle hprev)) _ (hmem q hq) heq))
    (fun q hq heq => Keccak256.digestPreimage_some_ne_none q.1 c.first q.2.1 _ q.2.2
      (hcf.inj _ (hmem q hq) _ hfirst heq))
    hdigest
  exact ⟨hlt, fun i r hi => Option.some.inj (hroots i r hi)⟩

theorem continuityDigest_of_chain {t a : ℕ} {d : H} (ht : c.first < t) (hta : t ≤ a)
    (hd : c.digest K (t - 1) = some d) :
    c.digest K a =
      some (ContinuityProof.computeContinuityDigest K.blockDigest ⟨d, c.rootsBetween K t a⟩ t) := by
  have h := HashChain.digestAt_add_length hd (c.rootsBetween K t a) fun i r hi => by
    have hlt := (List.getElem?_eq_some_iff.1 hi).1
    rw [length_rootsBetween] at hlt
    rw [getElem?_rootsBetween (by omega)] at hi
    rw [← hi, show t - 1 + 1 + i = t + i by omega]
  rw [length_rootsBetween, show t - 1 + (a + 1 - t) = a by omega,
    show t - 1 + 1 = t by omega] at h
  exact h

end SourceChain

/-! ## Soundness -/

section Soundness

variable [DecidableEq H] (P : ProverConfig H A B)

/-- The attestations and stable checkpoints on record are digests of the source chain. -/
structure SourceChain.Recorded (c : SourceChain) (s : State H A B) (k : ChainKey) : Prop where
  attestation : ∀ d att, (s.chain P.toConfig k).anchors.get d = some att →
    c.digest P.hashing att.headerNumber = some d
  checkpoint : ∀ n d, (s.chain P.toConfig k).anchors.checkpointIfStable n = some d →
    c.digest P.hashing n = some d

variable {P} {c : SourceChain} {s : State H A B} {k : ChainKey}

theorem SourceChain.Recorded.digest_of_anchored (h : c.Recorded P s k) {n : ℕ} {d : H}
    (hd : Anchored P s k n d) : c.digest P.hashing n = some d := by
  rcases hd with ⟨att, hget, rfl⟩ | hcp
  · exact h.attestation d att hget
  · unfold supportedCheckpoint at hcp
    split at hcp
    · exact h.checkpoint n d hcp
    · cases hcp

/-- **Soundness.** If the attestations and stable checkpoints of a chain are digests of a source
chain, every accepted transaction is a transaction of the source chain's block at the queried
height, at the index computed from the Merkle proof. -/
theorem verify_sound (hrec : c.Recorded P s k) {height : U64} {tx : Bytes}
    {mp : TransactionMerkleProof H} {p : ContinuityProof H} {emitEvents : Bool}
    {h : Meter TransactionVerified} {r : Bool × Meter TransactionVerified}
    (hcf : P.hashing.CollisionFree (c.preimages P.hashing (height.val + (p.roots.length - 1)) ++
      mp.preimages P.hashing tx ++ p.preimages P.hashing height.val))
    (hok : (verifyImpl P s k height tx mp p emitEvents).run h = .ok r) :
    c.first < height.val ∧
      ∃ i, calculateTxIndexImpl mp = .ok i ∧ (c.transactions height.val)[i]? = some tx := by
  obtain ⟨⟨hquery, hcont, -⟩, -, -⟩ :=
    (verifyImpl_yields P s k height tx mp p emitEvents).of_ok h r hok
  have hdigest := hrec.digest_of_anchored hcont.anchored
  rw [P.keccak_eq] at hdigest
  obtain ⟨hfirst, hroots⟩ := SourceChain.roots_of_continuityDigest hcf
    (fun x hx => List.mem_append_left _ (List.mem_append_left _ hx))
    (fun x hx => List.mem_append_right _ hx) hcont.ne_nil hdigest
  -- The queried block is the first of the proof, so its root is that of the source chain.
  obtain ⟨i, hfind, hroot⟩ := hquery.root_eq
  obtain ⟨-, -, rfl, -⟩ :=
    (ContinuityProof.findQueryBlockIndex_eq_some height.isLt hcont.length_le).1 hfind
  have hblock : mp.root = c.root P.hashing height.val := by
    rw [← hroots _ _ hroot, Nat.sub_self, Nat.add_zero]
  obtain ⟨hitem, hlen⟩ := KeccakMerkleTree.getElem?_of_verify hcf
    (fun x hx => List.mem_append_left _ (List.mem_append_left _
      (SourceChain.blockPreimages_subset hfirst.le (Nat.le_add_right _ _) x
        (List.mem_cons_of_mem _ hx))))
    (fun x hx => List.mem_append_left _ (List.mem_append_right _ hx)) hblock hquery.verifies
  refine ⟨hfirst, _, calculateTxIndexImpl_eq_ok.2 ⟨?_, rfl⟩, hitem⟩
  have hlevels := c.length_levels_le (K := P.hashing) height.val
  omega

end Soundness

namespace Devnet

/-! ### A small source chain -/

/-- Hashes as strings of 32 bytes. -/
abbrev H256 := {bytes : Bytes // bytes.length = 32}

/-- A hash function on strings that is easily evaluated. -/
def keccak256 (input : Bytes) : H256 :=
  let value := input.foldl (fun acc x => (acc * 257 + x.toNat + 1) % (2 ^ 255 - 19)) 1
  ⟨(List.range 32).map fun i => UInt8.ofNat (value / 256 ^ i % 256), by simp⟩

def hashing : Keccak256 H256 where
  keccak256 := keccak256
  asBytes := Subtype.val
  zero := ⟨List.replicate 32 0, by simp⟩
  length_asBytes := Subtype.property
  asBytes_injective := Subtype.val_injective

def proverConfig : ProverConfig H256 ℕ Unit where
  toConfig := configOver hashing.blockDigest hashing.zero hashing.asBytes
  hashing := hashing
  keccak_eq := rfl

/-- Block 1 has one transaction, block 2 has three. -/
def sourceChain : SourceChain where
  first := 1
  transactions n := if n = 1 then [[9]] else if n = 2 then [[1, 1], [1, 2], [1, 3]] else []
  length_lt n := by
    split
    · decide
    · split <;> decide

def anchorDigest : H256 := (sourceChain.digest hashing 3).getD hashing.zero

/-- The chain is supported and has a checkpoint at block 3. -/
def anchoredAt3 (digest : H256) : State H256 ℕ Unit :=
  (emptyState { Registry.empty with
      supportedChains := AList.insert 1 ⟨1, [], .v1, "EvmSafe"⟩ ∅ } ()).setAnchors
    proverConfig.toConfig 1 { Anchors.empty with checkpoints := AList.insert 3 digest ∅ }

def anchoredState : State H256 ℕ Unit := anchoredAt3 anchorDigest

/-- The continuity proof from block 2 to block 3. -/
def proofTo3 : ContinuityProof H256 :=
  (sourceChain.continuityProof hashing 2 3).getD ⟨hashing.zero, []⟩

/-- The Merkle proof of the third transaction of block 2. -/
def proofOf2 : TransactionMerkleProof H256 :=
  ⟨sourceChain.root hashing 2, Merkle.path hashing.hashInner hashing.zero
    ((sourceChain.transactions 2).map hashing.hashLeaf) 2⟩

theorem recorded_anchoredState : sourceChain.Recorded proverConfig anchoredState 1 := by
  have hanchors : (anchoredState.chain proverConfig.toConfig 1).anchors =
      { Anchors.empty with checkpoints := AList.insert 3 anchorDigest ∅ } := by
    rw [anchoredState, anchoredAt3, State.anchors_setAnchors]
  constructor
  · intro d att hget
    rw [hanchors] at hget
    cases hget
  · intro n d hcp
    rw [hanchors] at hcp
    have hlookup : (if n = 3 then some anchorDigest else none) = some d := by
      rw [← hcp]
      exact (StorageMap.lookup_insert_eq ∅ n 3 anchorDigest).symm
    split at hlookup
    · next hn =>
      rw [hn, ← hlookup]
      rfl
    · cases hlookup

theorem collisionFree_hashing : proverConfig.hashing.CollisionFree
    (sourceChain.preimages proverConfig.hashing ((2 : U64).val + (proofTo3.roots.length - 1)) ++
      proofOf2.preimages proverConfig.hashing [1, 3] ++
      proofTo3.preimages proverConfig.hashing (2 : U64).val) := by
  constructor <;> decide +kernel

end Devnet

open Devnet in
/-- The third transaction of a block of three. -/
theorem devnet_verify_sound : ∃ r, (verifyImpl proverConfig anchoredState 1 2 [1, 3] proofOf2
        proofTo3 true).run ⟨20000, []⟩ = .ok r ∧ sourceChain.first < 2 ∧
      ∃ i, calculateTxIndexImpl proofOf2 = .ok i ∧
        (sourceChain.transactions 2)[i]? = some [1, 3] := by
  obtain ⟨r, hr⟩ := exists_of_isOk (x := (verifyImpl proverConfig
    anchoredState 1 2 [1, 3] proofOf2 proofTo3 true).run ⟨20000, []⟩)
    (by decide +kernel)
  exact ⟨r, hr, verify_sound recorded_anchoredState collisionFree_hashing hr⟩

/-! ## Completeness -/

section Completeness

variable [DecidableEq H] {P : ProverConfig H A B} {c : SourceChain} {s : State H A B} {k : ChainKey}

theorem SourceChain.continuityValid {t a : U64} {low d : H} (ht : c.first < t.val)
    (hta : t.val ≤ a.val) (hgap : a.val - t.val < 50000) (hanchor : Anchored P s k a.val d)
    (hd : c.digest P.hashing a.val = some d) (hlow : c.digest P.hashing (t.val - 1) = some low) :
    ContinuityValid P s k ⟨low, c.rootsBetween P.hashing t.val a.val⟩ t.val t.val := by
  have hlen := c.length_rootsBetween (K := P.hashing) t.val a.val
  have hfinal : t.val + ((c.rootsBetween P.hashing t.val a.val).length - 1) = a.val := by omega
  have ha := a.isLt
  constructor
  · apply List.ne_nil_of_length_pos
    show 0 < (c.rootsBetween P.hashing t.val a.val).length
    omega
  · show (c.rootsBetween P.hashing t.val a.val).length ≤ 50000
    omega
  · show t.val + ((c.rootsBetween P.hashing t.val a.val).length - 1) ≤ 2 ^ 64 - 1
    omega
  · exact Nat.le_add_right _ _
  · have hfold := SourceChain.continuityDigest_of_chain ht hta hlow
    rw [hd, Option.some.injEq, ← P.keccak_eq] at hfold
    show Anchored P s k (t.val + ((c.rootsBetween P.hashing t.val a.val).length - 1)) _
    rw [hfinal, ← hfold]
    exact hanchor

/-- The siblings of a transaction in the tree of its block. -/
def SourceChain.siblings (K : Keccak256 H) (c : SourceChain) (n i : ℕ) :
    List (MerkleProofEntry H) :=
  Merkle.path K.hashInner K.zero ((c.transactions n).map K.hashLeaf) i

omit [DecidableEq H] in
theorem SourceChain.length_siblings_le (K : Keccak256 H) (n i : ℕ) :
    (c.siblings K n i).length ≤ 64 := by
  have hlevels : (Merkle.levels K.hashInner K.zero
      ((c.transactions n).map K.hashLeaf)).length ≤ 64 + 1 := c.length_levels_le n
  rw [siblings, Merkle.length_path]
  omega

theorem SourceChain.queryValid {t a : U64} {low : H} (hta : t.val ≤ a.val)
    (hgap : a.val - t.val < 50000) {i : ℕ} {tx : Bytes}
    (htx : (c.transactions t.val)[i]? = some tx) (hne : tx ≠ []) :
    QueryValid P t.val t tx ⟨c.root P.hashing t.val, c.siblings P.hashing t.val i⟩
      ⟨low, c.rootsBetween P.hashing t.val a.val⟩ := by
  have hlen := c.length_rootsBetween (K := P.hashing) t.val a.val
  have ha := a.isLt
  refine ⟨hne, ?_, KeccakMerkleTree.verify_generateProof htx, 0, ?_, ?_⟩
  · have hdepth := c.length_siblings_le P.hashing t.val i
    show 48 * (c.siblings P.hashing t.val i).length ≤ 2 ^ 64 - 1
    omega
  · rw [ContinuityProof.findQueryBlockIndex_eq_some t.isLt
      (show (c.rootsBetween P.hashing t.val a.val).length ≤ 50000 by omega)]
    simp only [hlen, u64Max]
    omega
  · exact SourceChain.getElem?_rootsBetween hta

/-- **Completeness.** Let `a` be an anchor of the chain with the digest of the source chain, and `t`
a height above the first block and less than 50000 below the anchor. Every non-empty transaction of
the block at `t` with at most 10485760 bytes is accepted with its Merkle proof and the continuity
proof from `t` to `a`, given enough gas, and its index is computed from the Merkle proof. -/
theorem verify_complete {t a : U64} {d : H} (ht : c.first < t.val) (hta : t.val ≤ a.val)
    (hgap : a.val - t.val < 50000) (hanchor : Anchored P s k a.val d)
    (hd : c.digest P.hashing a.val = some d) {i : ℕ} {tx : Bytes}
    (htx : (c.transactions t.val)[i]? = some tx) (hne : tx ≠ []) (hlen : tx.length ≤ constU10MB)
    (emitEvents : Bool) :
    ∃ p mp, c.continuityProof P.hashing t.val a.val = some p ∧
      (KeccakMerkleTree.new P.hashing (c.transactions t.val)).generateProof P.hashing i =
        .ok mp ∧
      (∀ h, verifyCost mp p ≤ h.gas →
        ∃ h', (verifyCall P s emitEvents k t tx mp p).run h = .ok (true, h')) ∧
      ∀ h, calculateTxIndexBaseCost + calculateTxIndexIterationCost * mp.siblings.length ≤ h.gas →
        ∃ h', (calculateTxIndex mp).run h = .ok (i, h') := by
  obtain ⟨low, hlow⟩ := SourceChain.exists_digest (K := P.hashing) (c := c) (n := t.val - 1)
    (by omega)
  have hi : i < (c.transactions t.val).length := (List.getElem?_eq_some_iff.1 htx).1
  have hdepth := c.length_siblings_le P.hashing t.val i
  have hindex : Merkle.index (c.siblings P.hashing t.val i) = i :=
    Merkle.index_path (by rw [List.length_map]; exact hi)
  refine ⟨⟨low, c.rootsBetween P.hashing t.val a.val⟩,
    ⟨c.root P.hashing t.val, c.siblings P.hashing t.val i⟩, ?_, ?_, ?_, ?_⟩
  · rw [SourceChain.continuityProof, hlow, Option.map_some]
  · exact KeccakMerkleTree.generateProof_new hi
  · intro h hgas
    obtain ⟨h', hrun, -⟩ := (verifyCall_yields P s k t tx _ _ emitEvents).ok
      ⟨hlen, SourceChain.queryValid hta hgap htx hne,
        SourceChain.continuityValid ht hta hgap hanchor hd hlow, fun _ => hdepth⟩ h hgas
    exact ⟨h', hrun⟩
  · intro h hgas
    obtain ⟨h', hrun, -⟩ := (calculateTxIndex_yields hdepth).ok trivial h hgas
    rw [hindex] at hrun
    exact ⟨h', hrun⟩

end Completeness

namespace Devnet

/-- The third transaction of a block of three, whose tree is padded. -/
theorem devnet_verify_complete :
    (sourceChain.transactions 2)[2]? = some [1, 3] ∧
      ∃ p mp, sourceChain.continuityProof hashing 2 3 = some p ∧
        (KeccakMerkleTree.new hashing (sourceChain.transactions 2)).generateProof hashing 2 =
          .ok mp ∧
        (∀ h, verifyCost mp p ≤ h.gas →
          ∃ h', (verifyAndEmit proverConfig anchoredState 1 2 [1, 3] mp p).run h = .ok (true, h')) ∧
        ∀ h, calculateTxIndexBaseCost + calculateTxIndexIterationCost * mp.siblings.length ≤ h.gas →
          ∃ h', (calculateTxIndex mp).run h = .ok (2, h') :=
  ⟨by decide, verify_complete (P := proverConfig) (c := sourceChain) (s := anchoredState) (k := 1)
    (t := 2) (a := 3) (d := anchorDigest) (by decide) (by decide) (by decide) (.inr (by rfl))
    (by rfl) (by decide) (by decide) (by decide) true⟩

/-- Every block has one transaction, which is one byte too long. -/
def longChain : SourceChain := ⟨1, fun _ => [List.replicate (constU10MB + 1) 0], fun _ => by simp⟩

/-- **A transaction that is too long.** It is in a block below an anchor with the digest of the
source chain, but no call for it is accepted, whatever the proofs and the gas. -/
theorem exists_transaction_refused :
    ∃ d tx, Anchored proverConfig (anchoredAt3 d) 1 3 d ∧ longChain.digest hashing 3 = some d ∧
      (longChain.transactions 2)[0]? = some tx ∧ tx ≠ [] ∧ ∀ emitEvents mp p h r,
        (verifyCall proverConfig (anchoredAt3 d) emitEvents 1 2 tx mp p).run h ≠ .ok r := by
  obtain ⟨d, hd⟩ := SourceChain.exists_digest (K := hashing) (c := longChain) (n := 3) (by decide)
  refine ⟨d, _, .inr rfl, hd, rfl, List.cons_ne_nil 0 (List.replicate constU10MB 0), ?_⟩
  intro emitEvents mp p h r hrun
  have hlen := ((verifyCall_yields _ _ _ _ _ _ _ _).of_ok h r hrun).1.1
  rw [List.length_replicate] at hlen
  omega

end Devnet

end Creditcoin
