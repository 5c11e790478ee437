import Creditcoin.BlockProver.KeccakMerkleTree
import Creditcoin.Foundations.Runs
import Creditcoin.Foundations.Totals

/-!
# The cache of Merkle proofs

The proof server keeps the transactions of source-chain blocks with a Merkle tree for each block, an
index from transaction hashes to blocks, and a counter of the bytes they take. What the index says
is always right (`Indexed`): it leads to a cached block that has the transaction, and the proof made
from its tree verifies. It may say too little, since a block that is dropped takes its hashes out of
the index whichever block they lead to: `correct_iff_keeps` says for which runs every transaction of
a cached block is found and the counter is exact. -/

namespace Creditcoin.ProofServer

variable {H : Type}

/-! ## Cached blocks -/

/-- The greatest `usize` on the machines the server runs on. -/
def usizeMax : ℕ := u64Max

def sizeOfH256 : ℕ := 32

/-- The size of the header of a vector. -/
def sizeOfVec : ℕ := 24

/-- What a transaction takes in the index, rounded up. -/
def perTxIndexOverheadBytes : ℕ := 64

/-- What the levels of a tree take. -/
def treeHeapBytes (tree : KeccakMerkleTree H) : ℕ :=
  let headers := satMul usizeMax sizeOfVec tree.levels.length
  tree.levels.foldl (fun acc level => satAdd usizeMax acc (satMul usizeMax sizeOfH256 level.length))
    headers

/-- What a block takes. -/
def measureHeapBytes (txHashes : List H) (txBytes : List Bytes) (tree : KeccakMerkleTree H) : ℕ :=
  let hashes := satMul usizeMax sizeOfH256 txHashes.length
  let payloads := txBytes.foldl
    (fun acc tx => satAdd usizeMax (satAdd usizeMax acc tx.length) sizeOfVec) 0
  let index := satMul usizeMax perTxIndexOverheadBytes txHashes.length
  satAdd usizeMax (satAdd usizeMax (satAdd usizeMax hashes payloads) index) (treeHeapBytes tree)

/-- A cached block. The tree is that of its transactions. -/
structure CachedMerkleBlock (K : Keccak256 H) where
  headerNumber : U64
  txHashes : List H
  txBytes : List Bytes
  tree : KeccakMerkleTree H
  heapBytes : ℕ
  length_txBytes : txBytes.length = txHashes.length
  tree_eq : tree = KeccakMerkleTree.new K txBytes

/-- What is served of a transaction. -/
structure MerkleProofItem (H : Type) where
  chainKey : ℕ
  headerNumber : U64
  txIndex : Option ℕ
  txHash : Option H
  txBytes : Option Bytes
  merkleRoot : H
  merkleProof : TransactionMerkleProof H
  deriving DecidableEq

namespace CachedMerkleBlock

variable {K : Keccak256 H}

theorem length_unzip (txs : List (H × Bytes)) : txs.unzip.2.length = txs.unzip.1.length := by
  rw [List.unzip_snd, List.unzip_fst, List.length_map, List.length_map]

def new (K : Keccak256 H) (headerNumber : U64) (txs : List (H × Bytes)) : CachedMerkleBlock K where
  headerNumber := headerNumber
  txHashes := txs.unzip.1
  txBytes := txs.unzip.2
  tree := KeccakMerkleTree.new K txs.unzip.2
  heapBytes := measureHeapBytes txs.unzip.1 txs.unzip.2 (KeccakMerkleTree.new K txs.unzip.2)
  length_txBytes := length_unzip txs
  tree_eq := rfl

def proofItem (b : CachedMerkleBlock K) (chainKey txIndex : ℕ) : Option (MerkleProofItem H) := do
  let txHash ← b.txHashes[txIndex]?
  let txBytes ← b.txBytes[txIndex]?
  let merkleProof ← (b.tree.generateProof K txIndex).toOption
  some {
    chainKey := chainKey
    headerNumber := b.headerNumber
    txIndex := some txIndex
    txHash := some txHash
    txBytes := some txBytes
    merkleRoot := merkleProof.root
    merkleProof := merkleProof }

end CachedMerkleBlock

/-! ## The cache -/

structure ChainMerkleCache (K : Keccak256 H) where
  byBlock : StorageMap U64 (CachedMerkleBlock K)
  byTxHash : StorageMap H (U64 × ℕ)
  /-- The heights that need not be fetched again, with a cached block or empty. -/
  processedBlocks : Finset U64
  cachedBytes : ℕ

/-- How full the cache is. -/
structure MerkleCacheStats where
  blocks : ℕ
  txs : ℕ
  bytes : ℕ
  deriving DecidableEq

namespace ChainMerkleCache

variable {K : Keccak256 H} [DecidableEq H] (c : ChainMerkleCache K)

def default (K : Keccak256 H) : ChainMerkleCache K := ⟨∅, ∅, ∅, 0⟩

/-- Take blocks that are no longer cached off the counter and out of the index. -/
def release (removed : List (CachedMerkleBlock K)) : ChainMerkleCache K :=
  removed.foldl (fun c block => { c with
    cachedBytes := c.cachedBytes - block.heapBytes
    byTxHash := c.byTxHash.eraseAll block.txHashes }) c

/-- Drop a block, and say if there was one. -/
def dropBlock (headerNumber : U64) : ChainMerkleCache K × Bool :=
  match c.byBlock.lookup headerNumber with
  | none => (c, false)
  | some old => (release { c with byBlock := c.byBlock.erase headerNumber } [old], true)

def getByTxHash (chainKey : ℕ) (txHash : H) : Option (MerkleProofItem H) := do
  let entry ← c.byTxHash.lookup txHash
  let block ← c.byBlock.lookup entry.1
  block.proofItem chainKey entry.2

/-- Index a block and cache it. -/
def put (headerNumber : U64) (block : CachedMerkleBlock K) : ChainMerkleCache K where
  byTxHash := c.byTxHash.insertAll
    (block.txHashes.zipIdx.map fun tx => (tx.1, (headerNumber, tx.2)))
  processedBlocks := insert headerNumber c.processedBlocks
  cachedBytes := satAdd u64Max c.cachedBytes block.heapBytes
  byBlock := c.byBlock.insert headerNumber block

/-- Cache a block in the place of the one with its number. -/
def insertCachedBlock (headerNumber : U64) (block : CachedMerkleBlock K) : ChainMerkleCache K :=
  (c.dropBlock headerNumber).1.put headerNumber block

/-- Cache the transactions of a block, and return how many there are. -/
def insertBlock (headerNumber : U64) (txs : List (H × Bytes)) : ChainMerkleCache K × ℕ :=
  let block := CachedMerkleBlock.new K headerNumber txs
  (c.insertCachedBlock headerNumber block, block.txHashes.length)

def markProcessedEmpty (headerNumber : U64) : ChainMerkleCache K :=
  let c := (c.dropBlock headerNumber).1
  { c with processedBlocks := insert headerNumber c.processedBlocks }

def sizeStats : MerkleCacheStats :=
  ⟨c.byBlock.keys.length, c.byTxHash.keys.length, c.cachedBytes⟩

/-- The cached blocks with a number that satisfies `p`, in order. -/
def blocksWhere (p : U64 → Bool) : List (CachedMerkleBlock K) :=
  ((c.byBlock.iterKeys Fin.val).filter p).filterMap c.byBlock.lookup

/-- Drop the blocks with a number that satisfies `p`, and return how many there were. -/
def prune (p : U64 → Bool) : ChainMerkleCache K × ℕ :=
  let removed := c.blocksWhere p
  (release { c with
    byBlock := c.byBlock.retain fun n => !p n
    processedBlocks := c.processedBlocks.filter fun n => !p n } removed, removed.length)

def pruneBelow (minHeight : U64) : ChainMerkleCache K × ℕ :=
  c.prune fun n => n < minHeight

def pruneAbove (maxHeight : U64) : ChainMerkleCache K × ℕ :=
  let splitKey := satAdd u64Max maxHeight 1
  c.prune fun n => splitKey ≤ n

end ChainMerkleCache

/-! ## Proofs of cached transactions -/

section Items

variable {K : Keccak256 H} [DecidableEq H] {b : CachedMerkleBlock K}

/-- An item that proves the transaction with a hash, which is in the block. -/
structure MerkleProofItem.Proves (item : MerkleProofItem H) (K : Keccak256 H)
    (b : CachedMerkleBlock K) (txHash : H) : Prop where
  headerNumber_eq : item.headerNumber = b.headerNumber
  txHash_eq : item.txHash = some txHash
  exists_tx : ∃ i tx, item.txIndex = some i ∧ b.txHashes[i]? = some txHash ∧
    b.txBytes[i]? = some tx ∧ item.txBytes = some tx ∧ item.merkleProof.root = b.tree.root K ∧
    item.merkleProof.verify K tx = true

theorem CachedMerkleBlock.proofItem_proves {txHash : H} {i : ℕ} (chainKey : ℕ)
    (h : b.txHashes[i]? = some txHash) :
    ∃ item, b.proofItem chainKey i = some item ∧ item.Proves K b txHash := by
  have hlt : i < b.txBytes.length := by
    rw [b.length_txBytes]
    exact (List.getElem?_eq_some_iff.1 h).1
  have htx : b.txBytes[i]? = some b.txBytes[i] := List.getElem?_eq_getElem hlt
  have hproof := KeccakMerkleTree.generateProof_new (K := K) hlt
  have hverify := KeccakMerkleTree.verify_generateProof (K := K) htx
  rw [← b.tree_eq] at hproof hverify
  have hitem : b.proofItem chainKey i = some {
      chainKey := chainKey
      headerNumber := b.headerNumber
      txIndex := some i
      txHash := some txHash
      txBytes := some b.txBytes[i]
      merkleRoot := b.tree.root K
      merkleProof := ⟨b.tree.root K,
        Merkle.path K.hashInner K.zero (b.txBytes.map K.hashLeaf) i⟩ } := by
    rw [CachedMerkleBlock.proofItem, h, htx, hproof]
    rfl
  exact ⟨_, hitem, rfl, rfl, i, b.txBytes[i], rfl, h, htx, rfl, rfl, hverify⟩

end Items

/-! ## What a removal does -/

namespace ChainMerkleCache

variable {K : Keccak256 H} {c c' : ChainMerkleCache K}

/-- The bytes of all cached blocks. -/
def heap (c : ChainMerkleCache K) : ℕ := c.byBlock.total fun _ b => b.heapBytes

/-- The hash is that of a transaction in a cached block with a number that satisfies `p`. -/
def Holds (c : ChainMerkleCache K) (p : U64 → Prop) (h : H) : Prop :=
  ∃ n b, p n ∧ c.byBlock.lookup n = some b ∧ h ∈ b.txHashes

variable [DecidableEq H]

@[simp] theorem byBlock_release (c : ChainMerkleCache K) (removed : List (CachedMerkleBlock K)) :
    (c.release removed).byBlock = c.byBlock := by
  induction removed generalizing c with
  | nil => rfl
  | cons b removed ih => exact ih _

theorem lookup_byTxHash_release (c : ChainMerkleCache K) (removed : List (CachedMerkleBlock K))
    (h : H) : (c.release removed).byTxHash.lookup h =
      if ∃ b ∈ removed, h ∈ b.txHashes then none else c.byTxHash.lookup h := by
  induction removed generalizing c with
  | nil => simp [release]
  | cons b removed ih =>
    refine (ih _).trans ?_
    rw [StorageMap.lookup_eraseAll]
    by_cases hb : h ∈ b.txHashes <;> simp [hb]

theorem cachedBytes_release (c : ChainMerkleCache K) (removed : List (CachedMerkleBlock K)) :
    (c.release removed).cachedBytes = c.cachedBytes - (removed.map (·.heapBytes)).sum := by
  induction removed generalizing c with
  | nil => rfl
  | cons b removed ih =>
    refine (ih _).trans ?_
    rw [List.map_cons, List.sum_cons, Nat.sub_add_eq]

/-- The blocks with a number that satisfies `p` are gone, with their bytes and with all their
hashes. -/
structure Removes (p : U64 → Prop) (c c' : ChainMerkleCache K) : Prop where
  byBlock_of : ∀ n, p n → c'.byBlock.lookup n = none
  byBlock_of_not : ∀ n, ¬p n → c'.byBlock.lookup n = c.byBlock.lookup n
  byTxHash_of : ∀ h, c.Holds p h → c'.byTxHash.lookup h = none
  byTxHash_of_not : ∀ h, ¬c.Holds p h → c'.byTxHash.lookup h = c.byTxHash.lookup h
  cachedBytes_eq : c'.cachedBytes = c.cachedBytes - (c.heap - c'.heap)
  heap_le : c'.heap ≤ c.heap

variable {p : U64 → Prop}

theorem Removes.release {ks : List U64} (hks : ks.Nodup)
    (hp : ∀ n b, c.byBlock.lookup n = some b → (n ∈ ks ↔ p n))
    (hblock : ∀ n, c'.byBlock.lookup n = (c.byBlock.eraseAll ks).lookup n)
    (hindex : c'.byTxHash = c.byTxHash) (hbytes : c'.cachedBytes = c.cachedBytes) :
    Removes p c (c'.release (ks.filterMap c.byBlock.lookup)) := by
  have hheap : (c'.release (ks.filterMap c.byBlock.lookup)).heap +
      ((ks.filterMap c.byBlock.lookup).map (·.heapBytes)).sum = c.heap := by
    have hsum : ((ks.filterMap c.byBlock.lookup).map (·.heapBytes)).sum =
        (ks.map (c.byBlock.part fun _ b => b.heapBytes)).sum := by
      clear hks hp hblock
      induction ks with
      | nil => rfl
      | cons k ks ih =>
        rw [List.map_cons, List.sum_cons, ← ih]
        rcases hk : c.byBlock.lookup k with _ | b
        · rw [List.filterMap_cons, hk, StorageMap.part_of_none hk, Nat.zero_add]
        · rw [List.filterMap_cons, hk, StorageMap.part_of_lookup hk, List.map_cons,
            List.sum_cons]
    rw [hsum, heap, byBlock_release,
      StorageMap.total_congr fun n => congrArg (Option.elim · 0 _) (hblock n)]
    exact StorageMap.total_eraseAll_add hks _ _
  have hholds : ∀ h, (∃ b ∈ ks.filterMap c.byBlock.lookup, h ∈ b.txHashes) ↔ c.Holds p h := by
    intro h
    constructor
    · rintro ⟨b, hb, hh⟩
      obtain ⟨n, hn, hlookup⟩ := List.mem_filterMap.1 hb
      exact ⟨n, b, (hp n b hlookup).1 hn, hlookup, hh⟩
    · rintro ⟨n, b, hn, hlookup, hh⟩
      exact ⟨b, List.mem_filterMap.2 ⟨n, (hp n b hlookup).2 hn, hlookup⟩, hh⟩
  have hlookup : ∀ n, (c'.release (ks.filterMap c.byBlock.lookup)).byBlock.lookup n =
      if n ∈ ks then none else c.byBlock.lookup n := fun n => by
    rw [byBlock_release, hblock, StorageMap.lookup_eraseAll]
  constructor
  · intro n hn
    rw [hlookup, ite_eq_left_iff]
    intro hks
    refine Option.eq_none_iff_forall_ne_some.2 fun b hb => hks ((hp n b hb).2 hn)
  · intro n hn
    rw [hlookup, ite_eq_right_iff]
    intro hks
    exact (Option.eq_none_iff_forall_ne_some.2 fun b hb => hn ((hp n b hb).1 hks)).symm
  · intro h hh
    rw [lookup_byTxHash_release, if_pos ((hholds h).2 hh)]
  · intro h hh
    rw [lookup_byTxHash_release, if_neg (fun hex => hh ((hholds h).1 hex)), hindex]
  · rw [cachedBytes_release, hbytes]
    omega
  · omega

theorem removes_dropBlock (c : ChainMerkleCache K) (n : U64) :
    Removes (· = n) c (c.dropBlock n).1 := by
  unfold dropBlock
  rcases hn : c.byBlock.lookup n with _ | old
  · constructor
    · rintro _ rfl
      exact hn
    · exact fun _ _ => rfl
    · rintro h ⟨_, b, rfl, hb, -⟩
      rw [hn] at hb
      cases hb
    · exact fun _ _ => rfl
    · exact (by rw [Nat.sub_self, Nat.sub_zero])
    · exact le_rfl
  · have h : Removes (· = n) c (ChainMerkleCache.release { c with byBlock := c.byBlock.erase n }
        ([n].filterMap c.byBlock.lookup)) :=
      Removes.release (List.nodup_singleton n) (fun _ _ _ => List.mem_singleton) (fun _ => rfl) rfl
        rfl
    rwa [List.filterMap_cons, hn, List.filterMap_nil] at h

theorem removes_prune (c : ChainMerkleCache K) (p : U64 → Bool) :
    Removes (fun n => p n = true) c (c.prune p).1 := by
  have hmem : ∀ n b, c.byBlock.lookup n = some b →
      (n ∈ (c.byBlock.iterKeys Fin.val).filter p ↔ p n = true) := by
    intro n b hb
    rw [List.mem_filter, StorageMap.mem_iterKeys]
    exact and_iff_right ⟨b, hb⟩
  refine Removes.release ((StorageMap.nodup_iterKeys _ _).filter p) hmem (fun n => ?_) rfl rfl
  rw [StorageMap.lookup_retain, StorageMap.lookup_eraseAll]
  rcases hn : c.byBlock.lookup n with _ | b
  · simp
  · rw [if_congr (hmem n b hn) rfl rfl]
    cases p n <;> rfl

/-! ## The index -/

/-- The index leads to cached blocks that have the transactions. -/
structure Indexed (c : ChainMerkleCache K) : Prop where
  headerNumber : ∀ n b, c.byBlock.lookup n = some b → b.headerNumber = n
  byTxHash : ∀ h n i, c.byTxHash.lookup h = some (n, i) →
    ∃ b, c.byBlock.lookup n = some b ∧ b.txHashes[i]? = some h

theorem Indexed.default : (default K).Indexed := by
  refine ⟨fun n b hb => ?_, fun h n i hi => ?_⟩
  · exact absurd hb (by simp [ChainMerkleCache.default])
  · exact absurd hi (by simp [ChainMerkleCache.default])

theorem Indexed.removes (hc : c.Indexed) (hr : Removes p c c') : c'.Indexed := by
  have hold : ∀ n b, c'.byBlock.lookup n = some b → c.byBlock.lookup n = some b := by
    intro n b hb
    by_cases hn : p n
    · rw [hr.byBlock_of n hn] at hb
      cases hb
    · rwa [hr.byBlock_of_not n hn] at hb
  refine ⟨fun n b hb => hc.headerNumber n b (hold n b hb), fun h n i hi => ?_⟩
  have hfree : ¬c.Holds p h := fun hh => by
    rw [hr.byTxHash_of h hh] at hi
    cases hi
  rw [hr.byTxHash_of_not h hfree] at hi
  obtain ⟨b, hb, hget⟩ := hc.byTxHash h n i hi
  have hn : ¬p n := fun hn => hfree ⟨n, b, hn, hb, List.mem_of_getElem? hget⟩
  exact ⟨b, by rw [hr.byBlock_of_not n hn, hb], hget⟩

section Put

variable {n : U64} {b : CachedMerkleBlock K}

theorem lookup_byTxHash_put {h : H} {n' : U64} {i : ℕ}
    (hlookup : (c.put n b).byTxHash.lookup h = some (n', i)) :
    n' = n ∧ b.txHashes[i]? = some h ∨ c.byTxHash.lookup h = some (n', i) := by
  refine (StorageMap.mem_of_lookup_insertAll hlookup).imp_left fun hmem => ?_
  obtain ⟨⟨_, j⟩, htx, heq⟩ := List.mem_map.1 hmem
  obtain ⟨rfl, hentry⟩ := Prod.mk.inj heq
  obtain ⟨rfl, rfl⟩ := Prod.mk.inj hentry
  exact ⟨rfl, List.mem_zipIdx_iff_getElem?.1 htx⟩

theorem isSome_byTxHash_put (h : H) : ((c.put n b).byTxHash.lookup h).isSome = true ↔
    h ∈ b.txHashes ∨ (c.byTxHash.lookup h).isSome = true := by
  refine StorageMap.isSome_lookup_insertAll.trans (or_congr_left ?_)
  constructor
  · rintro ⟨⟨n', i⟩, hmem⟩
    obtain ⟨⟨_, j⟩, htx, heq⟩ := List.mem_map.1 hmem
    obtain ⟨rfl, -⟩ := Prod.mk.inj heq
    exact List.mem_of_getElem? (List.mem_zipIdx_iff_getElem?.1 htx)
  · intro hmem
    obtain ⟨i, hi⟩ := List.mem_iff_getElem?.1 hmem
    exact ⟨(n, i), List.mem_map.2 ⟨(h, i), List.mem_zipIdx_iff_getElem?.2 hi, rfl⟩⟩

theorem lookup_byBlock_put (n' : U64) :
    (c.put n b).byBlock.lookup n' = if n' = n then some b else c.byBlock.lookup n' :=
  StorageMap.lookup_insert_eq _ _ _ _

theorem Indexed.put (hc : c.Indexed) (hn : c.byBlock.lookup n = none)
    (hb : b.headerNumber = n) : (c.put n b).Indexed := by
  refine ⟨fun n' b' hb' => ?_, fun h n' i hi => ?_⟩
  · rw [lookup_byBlock_put] at hb'
    split at hb'
    · next heq =>
      cases hb'
      rw [hb, heq]
    · exact hc.headerNumber n' b' hb'
  · rw [lookup_byBlock_put]
    rcases lookup_byTxHash_put hi with ⟨rfl, hget⟩ | hold
    · exact ⟨b, if_pos rfl, hget⟩
    · obtain ⟨b', hb', hget⟩ := hc.byTxHash h n' i hold
      have hne : n' ≠ n := by
        rintro rfl
        rw [hn] at hb'
        cases hb'
      exact ⟨b', by rw [if_neg hne, hb'], hget⟩

theorem heap_put (hn : c.byBlock.lookup n = none) : (c.put n b).heap = c.heap + b.heapBytes := by
  have hrest : ∀ j, j ≠ n → (c.put n b).byBlock.part (fun _ b => b.heapBytes) j =
      c.byBlock.part (fun _ b => b.heapBytes) j := fun j hj => by
    rw [StorageMap.part, lookup_byBlock_put, if_neg hj, StorageMap.part]
  have hchange := StorageMap.total_change hrest
  rw [StorageMap.part_of_none hn, StorageMap.part_of_lookup
    (by rw [lookup_byBlock_put, if_pos rfl])] at hchange
  exact hchange

end Put

/-! ## Runs -/

/-- What the server asks of the cache. -/
inductive CacheOp (H : Type)
  | insertBlock (headerNumber : U64) (txs : List (H × Bytes))
  | markProcessedEmpty (headerNumber : U64)
  | pruneBelow (minHeight : U64)
  | pruneAbove (maxHeight : U64)

/-- The heights whose blocks are dropped. -/
def CacheOp.Drops : CacheOp H → U64 → Prop
  | .insertBlock headerNumber _ => fun n => n = headerNumber
  | .markProcessedEmpty headerNumber => fun n => n = headerNumber
  | .pruneBelow minHeight => fun n => decide (n < minHeight) = true
  | .pruneAbove maxHeight => fun n => decide (satAdd u64Max maxHeight 1 ≤ n) = true

/-- The hashes of the block that is inserted. -/
def CacheOp.inserted : CacheOp H → List H
  | .insertBlock _ txs => txs.unzip.1
  | _ => []

def apply (c : ChainMerkleCache K) : CacheOp H → ChainMerkleCache K
  | .insertBlock headerNumber txs => (c.insertBlock headerNumber txs).1
  | .markProcessedEmpty headerNumber => c.markProcessedEmpty headerNumber
  | .pruneBelow minHeight => (c.pruneBelow minHeight).1
  | .pruneAbove maxHeight => (c.pruneAbove maxHeight).1

theorem apply_cases (c : ChainMerkleCache K) (op : CacheOp H) :
    (∃ n txs c₁, op = .insertBlock n txs ∧ Removes op.Drops c c₁ ∧
        c.apply op = c₁.put n (CachedMerkleBlock.new K n txs)) ∨
      (∀ n txs, op ≠ .insertBlock n txs) ∧ op.inserted = [] ∧ Removes op.Drops c (c.apply op) := by
  cases op with
  | insertBlock n txs => exact .inl ⟨n, txs, _, rfl, removes_dropBlock c n, rfl⟩
  | markProcessedEmpty n =>
    have h := removes_dropBlock c n
    exact .inr ⟨nofun, rfl, h.byBlock_of, h.byBlock_of_not, h.byTxHash_of, h.byTxHash_of_not,
      h.cachedBytes_eq, h.heap_le⟩
  | pruneBelow _ | pruneAbove _ => exact .inr ⟨nofun, rfl, removes_prune c _⟩

theorem Indexed.apply (hc : c.Indexed) (op : CacheOp H) : (c.apply op).Indexed := by
  rcases apply_cases c op with ⟨n, txs, c₁, rfl, hr, heq⟩ | ⟨-, -, hr⟩
  · rw [heq]
    exact (hc.removes hr).put (hr.byBlock_of n rfl) rfl
  · exact hc.removes hr

def run (K : Keccak256 H) (ops : List (CacheOp H)) : ChainMerkleCache K :=
  ops.foldl apply (default K)

theorem indexed_run (ops : List (CacheOp H)) : (run K ops).Indexed := by
  induction ops using List.reverseRecOn with
  | nil => exact Indexed.default
  | append_singleton ops op ih =>
    rw [run, List.foldl_append]
    exact ih.apply op

/-! ## Correct caches -/

/-- Every transaction of a cached block is found, what is found proves a transaction with the hash
in a cached block, and the counter is the sum over the cached blocks. -/
structure Correct (c : ChainMerkleCache K) (chainKey : ℕ) : Prop where
  found : ∀ n b h, c.byBlock.lookup n = some b → h ∈ b.txHashes →
    (c.getByTxHash chainKey h).isSome = true
  proves : ∀ h item, c.getByTxHash chainKey h = some item →
    ∃ b, c.byBlock.lookup item.headerNumber = some b ∧ item.Proves K b h
  bytes : c.sizeStats.bytes = c.heap

/-- No hash of a block that is dropped is that of a transaction in another cached block, unless it
is indexed again; and the bytes of a block that is inserted and those of the other cached blocks are
together not too many for the counter. -/
structure CacheOp.Keeps (c : ChainMerkleCache K) (op : CacheOp H) : Prop where
  unshared : ∀ h, c.Holds op.Drops h → c.Holds (fun n => ¬op.Drops n) h → h ∈ op.inserted
  fits : ∀ n txs, op = .insertBlock n txs → StorageMap.total (c.byBlock.erase n)
    (fun _ b => b.heapBytes) + (CachedMerkleBlock.new K n txs).heapBytes ≤ u64Max

theorem Indexed.getByTxHash (hc : c.Indexed) (chainKey : ℕ) {h : H} {n : U64} {i : ℕ}
    (hi : c.byTxHash.lookup h = some (n, i)) :
    ∃ b item, c.byBlock.lookup n = some b ∧ c.getByTxHash chainKey h = some item ∧
      item.headerNumber = n ∧ item.Proves K b h := by
  obtain ⟨b, hb, hget⟩ := hc.byTxHash h n i hi
  obtain ⟨item, hitem, hproves⟩ := CachedMerkleBlock.proofItem_proves chainKey hget
  have hfound : c.getByTxHash chainKey h = some item := by
    rw [ChainMerkleCache.getByTxHash, hi]
    simp only [Option.bind_eq_bind, Option.bind_some, hb, hitem]
  exact ⟨b, item, hb, hfound, hproves.headerNumber_eq.trans (hc.headerNumber n b hb), hproves⟩

theorem Indexed.isSome_getByTxHash (hc : c.Indexed) (chainKey : ℕ) (h : H) :
    (c.getByTxHash chainKey h).isSome = (c.byTxHash.lookup h).isSome := by
  rcases hi : c.byTxHash.lookup h with _ | ⟨n, i⟩
  · rw [ChainMerkleCache.getByTxHash, hi]
    rfl
  · obtain ⟨b, item, -, hitem, -, -⟩ := hc.getByTxHash chainKey hi
    rw [hitem]
    rfl

theorem Indexed.correct_iff (hc : c.Indexed) (chainKey : ℕ) :
    c.Correct chainKey ↔ (∀ h, c.Holds (fun _ => True) h → (c.byTxHash.lookup h).isSome = true) ∧
      c.cachedBytes = c.heap := by
  constructor
  · intro h
    refine ⟨?_, h.bytes⟩
    rintro hash ⟨n, b, -, hb, hmem⟩
    rw [← hc.isSome_getByTxHash chainKey]
    exact h.found n b hash hb hmem
  · rintro ⟨hfound, hbytes⟩
    refine ⟨fun n b h hb hmem => ?_, fun h item hitem => ?_, hbytes⟩
    · rw [hc.isSome_getByTxHash chainKey]
      exact hfound h ⟨n, b, trivial, hb, hmem⟩
    · rcases hi : c.byTxHash.lookup h with _ | ⟨n, i⟩
      · have hnone := hc.isSome_getByTxHash chainKey h
        rw [hitem, hi] at hnone
        cases hnone
      · obtain ⟨b, item', hb, hitem', hn, hproves⟩ := hc.getByTxHash chainKey hi
        obtain rfl := Option.mem_unique hitem hitem'
        exact ⟨b, by rw [hn, hb], hproves⟩

/-- After a removal the hashes of the blocks that stay are indexed, or are among `fresh`, exactly
when those that left the index are among `fresh`. -/
theorem Removes.indexed_iff (hr : Removes p c c')
    (hc : ∀ h, c.Holds (fun _ => True) h → (c.byTxHash.lookup h).isSome = true) (fresh : List H) :
    (∀ h, c'.Holds (fun _ => True) h → h ∈ fresh ∨ (c'.byTxHash.lookup h).isSome = true) ↔
      ∀ h, c.Holds p h → c.Holds (fun n => ¬p n) h → h ∈ fresh := by
  constructor
  · rintro h hash hgone ⟨n, b, hn, hb, hmem⟩
    have hstays : c'.Holds (fun _ => True) hash :=
      ⟨n, b, trivial, by rw [hr.byBlock_of_not n hn, hb], hmem⟩
    refine (h hash hstays).resolve_right fun hsome => ?_
    rw [hr.byTxHash_of hash hgone] at hsome
    cases hsome
  · rintro h hash ⟨n, b, -, hb, hmem⟩
    have hn : ¬p n := fun hn => by
      rw [hr.byBlock_of n hn] at hb
      cases hb
    rw [hr.byBlock_of_not n hn] at hb
    by_cases hgone : c.Holds p hash
    · exact .inl (h hash hgone ⟨n, b, hn, hb, hmem⟩)
    · rw [hr.byTxHash_of_not hash hgone]
      exact .inr (hc hash ⟨n, b, trivial, hb, hmem⟩)

theorem Removes.bytes (hr : Removes p c c') (hc : c.cachedBytes = c.heap) :
    c'.cachedBytes = c'.heap := by
  rw [hr.cachedBytes_eq, hc, Nat.sub_sub_self hr.heap_le]

theorem Removes.heap_eq_erase {n : U64} (hr : Removes (· = n) c c') :
    c'.heap = StorageMap.total (c.byBlock.erase n) fun _ b => b.heapBytes := by
  refine StorageMap.total_congr fun j => ?_
  rw [StorageMap.part, StorageMap.part, StorageMap.lookup_erase_eq]
  split
  · next hj => rw [hr.byBlock_of j hj]
  · next hj => rw [hr.byBlock_of_not j hj]

/-- **One operation.** It leads from a correct cache to a correct one exactly when it keeps the
index and the counter. -/
theorem Indexed.correct_apply_iff (hc : c.Indexed) {chainKey : ℕ} (hcorrect : c.Correct chainKey)
    (op : CacheOp H) : (c.apply op).Correct chainKey ↔ op.Keeps c := by
  obtain ⟨hfound, hbytes⟩ := (hc.correct_iff chainKey).1 hcorrect
  rw [(hc.apply op).correct_iff]
  rcases apply_cases c op with ⟨n, txs, c₁, rfl, hr, heq⟩ | ⟨hinsert, hnone, hr⟩
  · replace hr : Removes (· = n) c c₁ := hr
    have hfree : c₁.byBlock.lookup n = none := hr.byBlock_of n rfl
    have hkeeps : CacheOp.Keeps c (.insertBlock n txs) ↔ (∀ h, c.Holds (· = n) h →
        c.Holds (fun m => ¬m = n) h → h ∈ txs.unzip.1) ∧
          c₁.heap + (CachedMerkleBlock.new K n txs).heapBytes ≤ u64Max := by
      rw [hr.heap_eq_erase]
      exact ⟨fun h => ⟨h.unshared, h.fits n txs rfl⟩, fun h => ⟨h.1, by rintro _ _ ⟨⟩; exact h.2⟩⟩
    rw [hkeeps, heq, heap_put hfree, ← hr.indexed_iff hfound]
    refine and_congr ⟨fun h hash hholds => ?_, fun h hash hholds => ?_⟩ ?_
    · obtain ⟨n', b', -, hb', hmem⟩ := hholds
      have hne : n' ≠ n := by
        rintro rfl
        rw [hfree] at hb'
        cases hb'
      refine (isSome_byTxHash_put hash).1 (h hash ⟨n', b', trivial, ?_, hmem⟩)
      rw [lookup_byBlock_put, if_neg hne, hb']
    · refine (isSome_byTxHash_put hash).2 ?_
      obtain ⟨n', b', -, hb', hmem⟩ := hholds
      rw [lookup_byBlock_put] at hb'
      split at hb'
      · cases hb'
        exact .inl hmem
      · exact h hash ⟨n', b', trivial, hb', hmem⟩
    · show satAdd u64Max c₁.cachedBytes _ = _ ↔ _
      rw [hr.bytes hbytes, satAdd, min_eq_left_iff]
  · have hkeeps : op.Keeps c ↔ ∀ h, c.Holds op.Drops h → c.Holds (fun n => ¬op.Drops n) h →
        h ∈ op.inserted :=
      ⟨fun h => h.unshared, fun h => ⟨h, fun n txs heq => absurd heq (hinsert n txs)⟩⟩
    rw [hkeeps, ← hr.indexed_iff hfound, hnone, and_iff_left (hr.bytes hbytes)]
    simp

/-- **Correct along a run.** A transaction may be in several cached blocks. After every operation of
a run the cache is correct exactly when each operation that drops a block with a hash of another
cached block indexes the hash again, and the bytes of the cached blocks fit the counter. -/
theorem correct_iff_keeps (chainKey : ℕ) (ops : List (CacheOp H)) :
    (∀ before, before <+: ops → (run K before).Correct chainKey) ↔
      ∀ before op, before ++ [op] <+: ops → op.Keeps (run K before) := by
  refine good_along_iff (Correct · chainKey) (fun c op => op.Keeps c) ?_ (fun before op => ?_) ops
  · refine (Indexed.default.correct_iff chainKey).2 ⟨?_, rfl⟩
    rintro h ⟨n, b, -, hb, -⟩
    cases hb
  · exact fun hcorrect => (indexed_run before).correct_apply_iff hcorrect op

end ChainMerkleCache

/-! ### A transaction that a reorganization moves -/

namespace Moved

/-- A hash function on strings, as far as it matters here. -/
def keccak : Keccak256 UInt8 where
  keccak256 := fun input => input.headD 0
  asBytes := List.replicate 32
  zero := 0
  length_asBytes := fun _ => List.length_replicate
  asBytes_injective := fun _ _ h => (List.replicate_inj.1 h).2.resolve_left (Nat.succ_ne_zero 31)

/-- The transaction 7 is cached in block 11. The source chain is reorganized: the transaction is in
block 10, which is inserted again, and the blocks above are pruned. -/
def moves : List (ChainMerkleCache.CacheOp UInt8) :=
  [.insertBlock 11 [(7, [1, 2])], .insertBlock 10 [(7, [1, 2])], .pruneAbove 10]

/-- **A cached transaction is not found.** Block 10 has the transaction and stays, but the
transaction leaves the index with block 11. -/
theorem exists_not_found : ∃ (ops : List (ChainMerkleCache.CacheOp UInt8)) (n : U64)
    (b : CachedMerkleBlock keccak) (h : UInt8),
    (ChainMerkleCache.run keccak ops).byBlock.lookup n = some b ∧ h ∈ b.txHashes ∧
      (ChainMerkleCache.run keccak ops).getByTxHash 1 h = none :=
  ⟨moves, 10, .new keccak 10 [(7, [1, 2])], 7, rfl, List.mem_singleton.2 rfl, rfl⟩

end Moved

end Creditcoin.ProofServer
