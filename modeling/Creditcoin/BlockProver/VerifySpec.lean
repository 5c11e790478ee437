import Creditcoin.BlockProver.Verify

/-!
# What the block prover accepts

For each call the condition under which it succeeds, the events it then emits and a bound on its
gas: `ContinuityValid` for the chain of roots, `QueryValid` for one query, `SingleValid` for the
single call. -/

namespace Creditcoin

open Metered

variable {H A B : Type}

/-! ## The index of a transaction -/

theorem orBits_eq {pos x : ℕ} (siblings : List (MerkleProofEntry H)) (hx : x < 2 ^ pos) :
    orBits pos x siblings = x + 2 ^ pos * Merkle.index siblings := by
  induction siblings generalizing pos x with
  | nil => simp [orBits, Merkle.index]
  | cons e es ih =>
    cases he : e.isLeft with
    | false =>
      rw [orBits, he, if_neg Bool.false_ne_true, ih (by rw [pow_succ]; omega), Merkle.index, he,
        Bool.toNat_false, pow_succ]
      ring
    | true =>
      have hor : x ||| 1 <<< pos = 2 ^ pos + x := by
        have := Nat.two_pow_add_eq_or_of_lt hx 1
        rw [mul_one] at this
        rw [Nat.shiftLeft_eq, one_mul, Nat.or_comm, this]
      rw [orBits, he, if_pos rfl, hor, ih (by rw [pow_succ]; omega), Merkle.index, he,
        Bool.toNat_true, pow_succ]
      ring

theorem calculateTxIndexImpl_eq_ok {mp : TransactionMerkleProof H} {i : ℕ} :
    calculateTxIndexImpl mp = .ok i ↔ mp.siblings.length ≤ 64 ∧ Merkle.index mp.siblings = i := by
  unfold calculateTxIndexImpl
  rw [orBits_eq mp.siblings (by norm_num)]
  cases hs : mp.siblings with
  | nil => simp [Merkle.index, eq_comm]
  | cons e es =>
    rw [if_neg (by simp)]
    by_cases hlen : 64 < (e :: es).length
    · rw [if_pos hlen]
      simp only [reduceCtorEq, false_iff, not_and]
      omega
    · rw [if_neg hlen]
      simp only [pow_zero, one_mul, Nat.zero_add, Except.ok.injEq]
      omega

theorem calculateTxIndex_yields {mp : TransactionMerkleProof H} (hlen : mp.siblings.length ≤ 64) :
    Yields (calculateTxIndex mp) True (Merkle.index mp.siblings) []
      (calculateTxIndexBaseCost + calculateTxIndexIterationCost * mp.siblings.length) := by
  have hindex : Yields (ofResult (calculateTxIndexImpl mp) : EvmResult ℕ) _
      (Merkle.index mp.siblings) [] 0 :=
    Yields.ofResult fun i hi => (calculateTxIndexImpl_eq_ok.1 hi).2.symm
  refine Yields.congr ((Yields.require _ _).bind <| (Yields.require _ _).bind <|
    (Yields.charge _ _).bind hindex) ?_ rfl ?_
  · simp only [calculateTxIndexImpl_eq_ok, calculateTxIndexBaseCost,
      calculateTxIndexIterationCost, u64Max, iff_true, true_and, and_true]
    omega
  · omega

def verifiedEvents (emitEvents : Bool) (k : ChainKey) (height : U64)
    (mp : TransactionMerkleProof H) : List TransactionVerified :=
  if emitEvents then [⟨k, height, Merkle.index mp.siblings⟩] else []

theorem logTransactionVerified_yields (emitEvents : Bool) (k : ChainKey) (height : U64)
    (mp : TransactionMerkleProof H) :
    Yields (logTransactionVerified emitEvents k height mp)
      (emitEvents = true → mp.siblings.length ≤ 64) () (verifiedEvents emitEvents k height mp)
      0 := by
  unfold logTransactionVerified verifiedEvents
  cases emitEvents with
  | false => exact Yields.congr (Yields.pure _) (by simp) rfl le_rfl
  | true =>
    have hindex : Yields (ofResult (calculateTxIndexImpl mp) : EvmResult ℕ) _
        (Merkle.index mp.siblings) [] 0 :=
      Yields.ofResult fun i hi => (calculateTxIndexImpl_eq_ok.1 hi).2.symm
    exact Yields.congr (hindex.bind (Yields.emit _)) (by simp [calculateTxIndexImpl_eq_ok]) rfl
      le_rfl

/-! ## Finding a block in a proof -/

theorem ContinuityProof.findQueryBlockIndex_eq_some {p : ContinuityProof H} {start q i : ℕ}
    (hstart : start < 2 ^ 64) (hlen : p.roots.length ≤ maxContinuityRoots) :
    p.findQueryBlockIndex start q = some i ↔
      start + (p.roots.length - 1) ≤ u64Max ∧ start ≤ q ∧ q - start = i ∧
        i < p.roots.length := by
  simp only [maxContinuityRoots] at hlen
  unfold ContinuityProof.findQueryBlockIndex
  by_cases hnil : p.roots = []
  · simp [hnil]
  rw [if_neg (by simpa using hnil)]
  have hpos : 0 < p.roots.length := List.length_pos_of_ne_nil hnil
  simp only [u64Max]
  by_cases hover : start + (p.roots.length - 1) < 2 ^ 64
  · rw [Nat.mod_eq_of_lt hover]
    by_cases hq : start ≤ q ∧ q ≤ start + (p.roots.length - 1)
    · rw [if_pos hq, asUsize_of_lt (by omega), if_pos (by omega), Option.some.injEq]
      omega
    · rw [if_neg hq]
      simp only [reduceCtorEq, false_iff]
      omega
  · -- The sum wraps to a height below the start.
    have hwrap : (start + (p.roots.length - 1)) % 2 ^ 64 < start := by omega
    rw [if_neg (by omega)]
    simp only [reduceCtorEq, false_iff]
    omega

/-! ## The continuity chain -/

theorem recordHashes_yields (count : ℕ) :
    Yields (recordHashes count) (continuityBlockHashCost * count ≤ u64Max) () []
      (continuityBlockHashCost * count) :=
  Yields.congr ((Yields.require _ _).bind (Yields.charge _ _)) (by simp) rfl (by omega)

section Anchors

variable (P : ProverConfig H A B) (s : State H A B)

/-- The checkpoint that a verification may rely on: only supported chains have any. -/
def supportedCheckpoint (k : ChainKey) (n : ℕ) : Option H :=
  if s.isChainSupported k then (s.chain P.toConfig k).anchors.checkpointIfStable n else none

theorem getCheckpoint_yields (k : ChainKey) (n : ℕ) :
    Yields (getCheckpoint P s k n) True (supportedCheckpoint P s k n) [] 7800 := by
  unfold getCheckpoint supportedCheckpoint
  by_cases hk : s.isChainSupported k = true
  · simp only [if_pos hk]
    exact Yields.congr ((Yields.charge _ _).bind ((Yields.charge _ _).bind (Yields.pure _)))
      (by simp) rfl (by decide)
  · simp only [if_neg hk]
    exact Yields.congr ((Yields.charge _ _).bind (Yields.pure _)) (by simp) rfl (by decide)

variable [DecidableEq H]

theorem getAttestation_yields (k : ChainKey) (d : H) :
    Yields (getAttestation P s k d) True ((s.chain P.toConfig k).anchors.get d) [] 5200 :=
  Yields.congr ((Yields.charge _ _).bind (Yields.pure _)) (by simp) rfl (by decide)

theorem checkpointMatches_yields (attested : Bool) (k : ChainKey) (n : ℕ) (d : H) :
    Yields (checkpointMatches P s attested k n d) True
      (!attested && supportedCheckpoint P s k n == some d) [] 7800 := by
  unfold checkpointMatches
  cases attested with
  | true => exact Yields.congr (Yields.pure _) Iff.rfl rfl (Nat.zero_le _)
  | false =>
    have hread : ((supportedCheckpoint P s k n).map fun d' => d' == d).getD false =
        (!false && supportedCheckpoint P s k n == some d) := by
      cases supportedCheckpoint P s k n <;> simp
    rw [← hread]
    exact Yields.congr ((getCheckpoint_yields P s k n).bind (Yields.pure _)) (by simp) rfl le_rfl

/-- An attestation or a stable checkpoint of the chain has the digest `d` at the height `n`. -/
def Anchored (k : ChainKey) (n : ℕ) (d : H) : Prop :=
  (∃ att, (s.chain P.toConfig k).anchors.get d = some att ∧ att.headerNumber = n) ∨
    supportedCheckpoint P s k n = some d

/-- When a continuity chain is accepted. -/
structure ContinuityValid (k : ChainKey) (p : ContinuityProof H) (start height : ℕ) : Prop where
  ne_nil : p.roots ≠ []
  length_le : p.roots.length ≤ maxContinuityRoots
  final_le : start + (p.roots.length - 1) ≤ u64Max
  reaches : height ≤ start + (p.roots.length - 1)
  anchored : Anchored P s k (start + (p.roots.length - 1))
    (p.computeContinuityDigest P.keccak start)

/-- What a continuity chain of a given length costs at most. -/
def continuityCost (length : ℕ) : ℕ := continuityBlockHashCost * length + 5 * gasStorageLookup

theorem verifyContinuityChain_yields (k : ChainKey) (p : ContinuityProof H) (start height : ℕ) :
    Yields (verifyContinuityChain P s p start k height) (ContinuityValid P s k p start height) ()
      [] (continuityCost p.roots.length) := by
  set final := start + (p.roots.length - 1) with hfinal
  set digest := p.computeContinuityDigest P.keccak start with hdigest
  set attested := (((s.chain P.toConfig k).anchors.get digest).map
    fun a => a.headerNumber == final).getD false with hattested
  have hmatch : (attested || (!attested && supportedCheckpoint P s k final == some digest)) = true ↔
      Anchored P s k final digest := by
    have hatt : attested = true ↔
        ∃ att, (s.chain P.toConfig k).anchors.get digest = some att ∧ att.headerNumber = final := by
      rw [hattested]
      cases (s.chain P.toConfig k).anchors.get digest <;> simp
    rw [Anchored, ← hatt, ← beq_iff_eq]
    cases attested <;> simp
  refine Yields.congr ((Yields.require _ _).bind <| (Yields.require _ _).bind <|
    (Yields.require _ _).bind <| (Yields.require _ _).bind <| (recordHashes_yields _).bind <|
    (getAttestation_yields P s k digest).bind <|
    (checkpointMatches_yields P s attested k final digest).bind <| Yields.require _ _) ?_ rfl ?_
  · rw [hmatch]
    constructor
    · rintro ⟨h₁, h₂, h₃, h₄, -, -, -, h₅⟩
      exact ⟨h₁, h₂, h₃, h₄, h₅⟩
    · intro h
      refine ⟨h.ne_nil, h.length_le, h.final_le, h.reaches, ?_, trivial, trivial, h.anchored⟩
      have := h.length_le
      simp only [continuityBlockHashCost, u64Max, maxContinuityRoots] at this ⊢
      omega
  · simp only [continuityCost, gasStorageLookup]
    omega

/-! ## Queries -/

theorem verifyMerkleProof_yields (mp : TransactionMerkleProof H) (tx : Bytes) :
    Yields (verifyMerkleProof P mp tx) (continuityBlockHashCost * mp.siblings.length ≤ u64Max)
      (mp.verify P.hashing tx) [] (continuityBlockHashCost * mp.siblings.length) :=
  Yields.congr ((recordHashes_yields _).bind (Yields.pure _)) (by simp) rfl le_rfl

/-- When the checks of a query pass, given a proof that starts at `start`. -/
structure QueryValid (start : ℕ) (height : U64) (tx : Bytes) (mp : TransactionMerkleProof H)
    (p : ContinuityProof H) : Prop where
  ne_nil : tx ≠ []
  cost_le : continuityBlockHashCost * mp.siblings.length ≤ u64Max
  verifies : mp.verify P.hashing tx = true
  root_eq : ∃ i, p.findQueryBlockIndex start height = some i ∧ p.roots[i]? = some mp.root

theorem verifyQuery_yields (start : ℕ) (height : U64) (tx : Bytes)
    (mp : TransactionMerkleProof H) (p : ContinuityProof H) :
    Yields (verifyQuery P start height tx mp p) (QueryValid P start height tx mp p) () []
      (continuityBlockHashCost * mp.siblings.length) := by
  set idx := (p.findQueryBlockIndex start height).getD 0 with hidx
  have hfind : Yields (ofResult (okOr (p.findQueryBlockIndex start height)
      (.revert "Query block not found in continuity chain")) : EvmResult ℕ) _ idx [] 0 :=
    Yields.ofResult fun i hi => by rw [hidx, okOr_eq_ok.1 hi, Option.getD_some]
  refine Yields.congr ((Yields.require _ _).bind <|
    (verifyMerkleProof_yields P mp tx).bind <| (Yields.require _ _).bind <| hfind.bind <|
    Yields.require _ _) ?_ rfl ?_
  · constructor
    · rintro ⟨h₁, h₂, h₃, h₄, h₅⟩
      exact ⟨h₁, h₂, h₃, idx, okOr_eq_ok.1 h₄, h₅⟩
    · rintro ⟨h₁, h₂, h₃, i, h₄, h₅⟩
      obtain rfl : idx = i := by rw [hidx, h₄, Option.getD_some]
      exact ⟨h₁, h₂, h₃, okOr_eq_ok.2 h₄, h₅⟩
  · omega

/-! ## The single call -/

/-- When a single call accepts. -/
structure SingleValid (k : ChainKey) (height : U64) (tx : Bytes) (mp : TransactionMerkleProof H)
    (p : ContinuityProof H) (emitEvents : Bool) : Prop where
  query : QueryValid P height height tx mp p
  continuity : ContinuityValid P s k p height height
  index : emitEvents = true → mp.siblings.length ≤ 64

/-- What a single call costs at most. -/
def verifyCost (mp : TransactionMerkleProof H) (p : ContinuityProof H) : ℕ :=
  continuityBlockHashCost * mp.siblings.length + continuityCost p.roots.length

/-- **The single call**: when it accepts, what it emits and what it costs. -/
theorem verifyImpl_yields (k : ChainKey) (height : U64) (tx : Bytes)
    (mp : TransactionMerkleProof H) (p : ContinuityProof H) (emitEvents : Bool) :
    Yields (verifyImpl P s k height tx mp p emitEvents)
      (SingleValid P s k height tx mp p emitEvents) true (verifiedEvents emitEvents k height mp)
      (verifyCost mp p) := by
  refine Yields.congr ((verifyQuery_yields P height height tx mp p).bind <|
    (verifyContinuityChain_yields P s k p height height).bind <|
    (logTransactionVerified_yields emitEvents k height mp).bind <| Yields.pure true) ?_ (by simp)
    le_rfl
  constructor
  · rintro ⟨hq, hc, hi, -⟩
    exact ⟨hq, hc, hi⟩
  · rintro ⟨hq, hc, hi⟩
    exact ⟨hq, hc, hi, trivial⟩

theorem verifyCall_yields (k : ChainKey) (height : U64) (tx : Bytes)
    (mp : TransactionMerkleProof H) (p : ContinuityProof H) (emitEvents : Bool) :
    Yields (verifyCall P s emitEvents k height tx mp p)
      (tx.length ≤ constU10MB ∧ SingleValid P s k height tx mp p emitEvents) true
      (verifiedEvents emitEvents k height mp) (verifyCost mp p) :=
  Yields.congr ((Yields.require _ _).bind (verifyImpl_yields P s k height tx mp p emitEvents))
    Iff.rfl rfl (Nat.zero_add _).le

end Anchors

end Creditcoin
