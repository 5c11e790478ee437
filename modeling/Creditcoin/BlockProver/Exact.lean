import Creditcoin.BlockProver.SourceChain

/-!
# Overflow in the block prover

The calls of the block prover with every operation on machine integers written out. An operation
whose exact result its type cannot hold ends the run with `overflow`: there a build that checks
overflow panics, and one that does not goes on with a wrapped value, as the functions of `Verify`
do. A batch never overflows, since it checks its range first. The single call looks for the queried
block before that, and overflows exactly for the queries of `SingleOverflows`
(`verify_endsCleanly_iff`). -/

namespace Creditcoin

open Metered

/-! ## Exact operations -/

/-- How an exact run fails. -/
inductive ExactFailure
  | failure (reason : PrecompileFailure)
  | overflow
  deriving DecidableEq

abbrev ExactResult := Metered ExactFailure TransactionVerified

/-- A call without operations on machine integers. -/
def exactly {α : Type} (m : EvmResult α) : ExactResult α := mapFailure .failure m

namespace Exact

def addU64 (a b : ℕ) : ExactResult ℕ := do
  require (a + b ≤ u64Max) .overflow
  pure (a + b)

def sub (a b : ℕ) : ExactResult ℕ := do
  require (b ≤ a) .overflow
  pure (a - b)

/-- The cast of a `u64` to `usize`, which has 32 bits in the runtime. -/
def castUsize (n : ℕ) : ExactResult ℕ := do
  require (n < 2 ^ 32) .overflow
  pure n

def shiftOne (bitPosition : ℕ) : ExactResult ℕ := do
  require (bitPosition < 64) .overflow
  pure (1 <<< bitPosition)

def unwrap {α : Type} (x : Option α) : ExactResult α := ofResult (okOr x .overflow)

section Operations

variable {β : Type} {a b : ℕ}

theorem addU64_bind (h : a + b ≤ u64Max) (f : ℕ → ExactResult β) :
    addU64 a b >>= f = f (a + b) := by
  rw [addU64, bind_assoc, require_pos h, pure_bind]

theorem addU64_bind_overflow (h : u64Max < a + b) (f : ℕ → ExactResult β) :
    addU64 a b >>= f = ofResult (.error .overflow) := by
  rw [addU64, bind_assoc, require_neg (by omega)]

theorem sub_bind (h : b ≤ a) (f : ℕ → ExactResult β) : sub a b >>= f = f (a - b) := by
  rw [sub, bind_assoc, require_pos h, pure_bind]

theorem castUsize_bind (h : a < 2 ^ 32) (f : ℕ → ExactResult β) : castUsize a >>= f = f a := by
  rw [castUsize, bind_assoc, require_pos h, pure_bind]

theorem shiftOne_bind (h : a < 64) (f : ℕ → ExactResult β) :
    shiftOne a >>= f = f (1 <<< a) := by
  rw [shiftOne, bind_assoc, require_pos h, pure_bind]

theorem unwrap_bind {α : Type} {x : Option α} {v : α} (h : x = some v) (f : α → ExactResult β) :
    unwrap x >>= f = f v := by
  rw [h]
  rfl

end Operations

/-! ## The functions -/

section Index

variable {H : Type}

def findQueryBlockIndex (p : ContinuityProof H) (startBlockNumber queryHeight : ℕ) :
    ExactResult (Option ℕ) :=
  if p.roots.isEmpty then pure none
  else do
    let lenMinusOne ← sub p.roots.length 1
    let lastBlockNum ← addU64 startBlockNumber lenMinusOne
    if startBlockNumber ≤ queryHeight ∧ queryHeight ≤ lastBlockNum then do
      let offset ← sub queryHeight startBlockNumber
      let index ← castUsize offset
      pure (if index < p.roots.length then some index else none)
    else pure none

/-- The loop of `compute_continuity_digest`, at the index `i`. -/
def digestFrom (keccak : ℕ → H → Option H → H) (startBlock : ℕ) : ℕ → H → List H → ExactResult H
  | _, digest, [] => pure digest
  | i, digest, root :: roots => do
    let blockNumber ← addU64 startBlock i
    digestFrom keccak startBlock (i + 1) (hashPayload keccak blockNumber root digest) roots

def computeContinuityDigest (keccak : ℕ → H → Option H → H) (p : ContinuityProof H)
    (startBlock : ℕ) : ExactResult H :=
  digestFrom keccak startBlock 0 p.lowerEndpointDigest p.roots

/-- The loop of `calculate_tx_index_impl`. -/
def orBits : ℕ → ℕ → List (MerkleProofEntry H) → ExactResult ℕ
  | _, txIndex, [] => pure txIndex
  | bitPosition, txIndex, sibling :: siblings =>
    if sibling.isLeft then do
      let bit ← shiftOne bitPosition
      orBits (bitPosition + 1) (txIndex ||| bit) siblings
    else orBits (bitPosition + 1) txIndex siblings

def calculateTxIndexImpl (merkleProof : TransactionMerkleProof H) : ExactResult ℕ :=
  if merkleProof.siblings.isEmpty then pure 0
  else if 64 < merkleProof.siblings.length then
    ofResult (.error (.failure (.other "Merkle proof has too many siblings (max 64)")))
  else orBits 0 0 merkleProof.siblings

def logTransactionVerified (emitEvents : Bool) (k : ChainKey) (height : U64)
    (merkleProof : TransactionMerkleProof H) : ExactResult Unit :=
  if emitEvents then do
    let txIndex ← calculateTxIndexImpl merkleProof
    emit ⟨k, height, txIndex⟩
  else pure ()

/-- The root of the queried block must be that of the transaction. -/
def locateRoot [DecidableEq H] (startBlockNumber : ℕ) (height : U64)
    (merkleProof : TransactionMerkleProof H) (continuityProof : ContinuityProof H) :
    ExactResult Unit := do
  let found ← findQueryBlockIndex continuityProof startBlockNumber height
  let queryBlockIdx ← ofResult (okOr found
    (.failure (.revert "Query block not found in continuity chain")))
  let queryRoot ← unwrap continuityProof.roots[queryBlockIdx]?
  require (queryRoot = merkleProof.root) (.failure (.revert "Merkle root mismatch"))

end Index

section Verify

variable {H A B : Type} [DecidableEq H] (P : ProverConfig H A B) (s : State H A B)

def verifyContinuityChain (continuityProof : ContinuityProof H) (startBlockNumber : ℕ)
    (k : ChainKey) (height : ℕ) : ExactResult Unit := do
  require (continuityProof.roots ≠ []) (.failure (continuityRevert .insufficientBlocks))
  require (continuityProof.roots.length ≤ maxContinuityRoots)
    (.failure (continuityRevert .tooManyRoots))
  -- `checked_add`, of a length less one that is not negative
  let finalBlockNumber := startBlockNumber + (continuityProof.roots.length - 1)
  require (finalBlockNumber ≤ u64Max) (.failure (continuityRevert .rangeOverflow))
  require (height ≤ finalBlockNumber) (.failure (continuityRevert .chainDoesNotReachQueryHeight))
  exactly (recordHashes continuityProof.roots.length)
  let finalDigest ← computeContinuityDigest P.keccak continuityProof startBlockNumber
  let attestation ← exactly (getAttestation P s k finalDigest)
  let attestationMatches :=
    (attestation.map fun a => a.headerNumber == finalBlockNumber).getD false
  let checkpointMatches ←
    exactly (checkpointMatches P s attestationMatches k finalBlockNumber finalDigest)
  require (attestationMatches || checkpointMatches)
    (.failure (continuityRevert .noMatchingAttestationOrCheckpoint))

/-- The checks made of the transaction, before the queried block is looked for. -/
def checkTransaction (encodedTransaction : Bytes) (merkleProof : TransactionMerkleProof H) :
    EvmResult Unit := do
  require (encodedTransaction ≠ []) (.revert "Transaction data cannot be empty")
  let valid ← verifyMerkleProof P merkleProof encodedTransaction
  require (valid = true) (.revert "Merkle proof validation failed")

def verifyQuery (startBlockNumber : ℕ) (height : U64) (encodedTransaction : Bytes)
    (merkleProof : TransactionMerkleProof H) (continuityProof : ContinuityProof H) :
    ExactResult Unit := do
  exactly (checkTransaction P encodedTransaction merkleProof)
  locateRoot startBlockNumber height merkleProof continuityProof

def verifyImpl (k : ChainKey) (height : U64) (encodedTransaction : Bytes)
    (merkleProof : TransactionMerkleProof H) (continuityProof : ContinuityProof H)
    (emitEvents : Bool) : ExactResult Bool := do
  verifyQuery P height height encodedTransaction merkleProof continuityProof
  verifyContinuityChain P s continuityProof height k height
  logTransactionVerified emitEvents k height merkleProof
  pure true

def verifyBatchImpl (k : ChainKey) (heights : List U64) (encodedTransactions : List Bytes)
    (merkleProofs : List (TransactionMerkleProof H)) (sharedContinuityProof : ContinuityProof H)
    (emitEvents : Bool) : ExactResult Bool := do
  require (heights.length = encodedTransactions.length ∧ heights.length = merkleProofs.length)
    (.failure (.revert
      "Should have the same number of heights, encoded transactions, and merkle proofs"))
  require (heights ≠ []) (.failure (.revert "Should have at least one height"))
  let minHeight ← unwrap (heights.map Fin.val).min?
  let maxHeight ← unwrap (heights.map Fin.val).max?
  require (sharedContinuityProof.roots ≠ []) (.failure (.revert "Continuity chain cannot be empty"))
  -- `checked_add`, as in `verifyContinuityChain`
  let lastBlockNumber := minHeight + (sharedContinuityProof.roots.length - 1)
  require (lastBlockNumber ≤ u64Max) (.failure (.revert "Continuity chain range overflows u64"))
  require (maxHeight ≤ lastBlockNumber)
    (.failure (.revert "Continuity chain doesn't cover maximum query height"))
  verifyContinuityChain P s sharedContinuityProof minHeight k maxHeight
  (heights.zip (encodedTransactions.zip merkleProofs)).forM fun q => do
    verifyQuery P minHeight q.1 q.2.1 q.2.2 sharedContinuityProof
    logTransactionVerified emitEvents k q.1 q.2.2
  pure true

def verify (k : ChainKey) (height : U64) (encodedTransaction : Bytes)
    (merkleProof : TransactionMerkleProof H) (continuityProof : ContinuityProof H) :
    ExactResult Bool := do
  exactly (decodeBounded "encodedTransaction" constU10MB encodedTransaction)
  verifyImpl P s k height encodedTransaction merkleProof continuityProof false

def verifyBatch (k : ChainKey) (heights : List U64) (encodedTransactions : List Bytes)
    (merkleProofs : List (TransactionMerkleProof H)) (sharedContinuityProof : ContinuityProof H) :
    ExactResult Bool := do
  exactly (decodeBatch heights encodedTransactions merkleProofs)
  verifyBatchImpl P s k heights encodedTransactions merkleProofs sharedContinuityProof false

end Verify

/-! ## Runs without overflow -/

section Agrees

variable {H A B : Type} {start : ℕ}

theorem findQueryBlockIndex_eq {p : ContinuityProof H} {q : ℕ}
    (hrange : start + (p.roots.length - 1) ≤ u64Max)
    (hcast : p.roots.length ≤ maxContinuityRoots ∨ q = start) :
    findQueryBlockIndex p start q = pure (p.findQueryBlockIndex start q) := by
  unfold findQueryBlockIndex ContinuityProof.findQueryBlockIndex
  by_cases hnil : p.roots.isEmpty = true
  · rw [if_pos hnil, if_pos hnil]
  · have hpos : 1 ≤ p.roots.length := by
      rw [List.isEmpty_iff] at hnil
      exact List.length_pos_of_ne_nil hnil
    have hmod : (start + (p.roots.length - 1)) % 2 ^ 64 = start + (p.roots.length - 1) := by
      rw [Nat.mod_eq_of_lt]
      unfold u64Max at hrange
      omega
    rw [if_neg hnil, if_neg hnil, sub_bind hpos, addU64_bind hrange]
    simp only [hmod]
    by_cases hq : start ≤ q ∧ q ≤ start + (p.roots.length - 1)
    · have hsmall : q - start < 2 ^ 32 := by
        unfold maxContinuityRoots at hcast
        omega
      rw [if_pos hq, if_pos hq, sub_bind hq.1, castUsize_bind hsmall, asUsize_of_lt hsmall]
    · rw [if_neg hq, if_neg hq]

theorem findQueryBlockIndex_overflow {p : ContinuityProof H} (q : ℕ) (hstart : start ≤ u64Max)
    (hrange : u64Max < start + (p.roots.length - 1)) :
    findQueryBlockIndex p start q = ofResult (.error .overflow) := by
  have hpos : 1 ≤ p.roots.length := by omega
  have hnil : ¬ p.roots.isEmpty = true := by
    rw [List.isEmpty_iff]
    exact List.ne_nil_of_length_pos hpos
  rw [findQueryBlockIndex, if_neg hnil, sub_bind hpos, addU64_bind_overflow hrange]

theorem digestFrom_eq (keccak : ℕ → H → Option H → H) {i : ℕ} {d : H} {roots : List H}
    (hrange : start + (i + roots.length - 1) ≤ u64Max) :
    digestFrom keccak start i d roots =
      pure (HashChain.foldFrom (hashPayload keccak) (start + i) d roots) := by
  induction roots generalizing i d with
  | nil => rfl
  | cons root roots ih =>
    rw [List.length_cons] at hrange
    rw [digestFrom, addU64_bind (by omega), ih (by omega)]
    rfl

theorem orBits_eq {pos x : ℕ} {siblings : List (MerkleProofEntry H)}
    (hlen : pos + siblings.length ≤ 64) :
    orBits pos x siblings = pure (Creditcoin.orBits pos x siblings) := by
  induction siblings generalizing pos x with
  | nil => rfl
  | cons e es ih =>
    rw [List.length_cons] at hlen
    rw [orBits, Creditcoin.orBits]
    split
    · rw [shiftOne_bind (by omega), ih (by omega)]
    · exact ih (by omega)

theorem logTransactionVerified_eq (emitEvents : Bool) (k : ChainKey) (height : U64)
    (mp : TransactionMerkleProof H) :
    logTransactionVerified emitEvents k height mp =
      exactly (Creditcoin.logTransactionVerified emitEvents k height mp) := by
  have hindex : calculateTxIndexImpl mp =
      exactly (ofResult (Creditcoin.calculateTxIndexImpl mp)) := by
    unfold calculateTxIndexImpl Creditcoin.calculateTxIndexImpl
    split
    · rfl
    · split
      · rfl
      · next hlen => exact orBits_eq (by omega)
  unfold logTransactionVerified Creditcoin.logTransactionVerified
  cases emitEvents
  · rfl
  · simp only [if_true, hindex, exactly, mapFailure_bind, mapFailure_emit]

variable [DecidableEq H] {height : U64} {cp : ContinuityProof H}

theorem locateRoot_eq {mp : TransactionMerkleProof H}
    (hrange : start + (cp.roots.length - 1) ≤ u64Max)
    (hcast : cp.roots.length ≤ maxContinuityRoots ∨ height.val = start) :
    locateRoot start height mp cp = exactly (do
      let queryBlockIdx ← ofResult (okOr (cp.findQueryBlockIndex start height)
        (.revert "Query block not found in continuity chain"))
      require (cp.roots[queryBlockIdx]? = some mp.root) (.revert "Merkle root mismatch")) := by
  rw [locateRoot, findQueryBlockIndex_eq hrange hcast, pure_bind]
  rcases hfind : cp.findQueryBlockIndex start height with _ | i
  · rfl
  · have hlt : i < cp.roots.length := by
      unfold ContinuityProof.findQueryBlockIndex at hfind
      dsimp only at hfind
      split_ifs at hfind with _ _ hlt
      rw [← Option.some.inj hfind]
      exact hlt
    have hget : cp.roots[i]? = some cp.roots[i] := List.getElem?_eq_getElem hlt
    show (unwrap cp.roots[i]? >>= fun queryRoot => require (queryRoot = mp.root) _) =
      mapFailure .failure (require (cp.roots[i]? = some mp.root) _)
    rw [unwrap_bind hget, mapFailure_require]
    exact require_congr (by rw [hget, Option.some.injEq]) _

variable (P : ProverConfig H A B) (s : State H A B)

theorem verifyContinuityChain_eq (cp : ContinuityProof H) (start : ℕ) (k : ChainKey)
    (height : ℕ) :
    verifyContinuityChain P s cp start k height =
      exactly (Creditcoin.verifyContinuityChain P s cp start k height) := by
  unfold verifyContinuityChain Creditcoin.verifyContinuityChain exactly
  simp only [mapFailure_bind, mapFailure_require]
  refine require_bind_congr fun hnil => require_bind_congr fun _ => require_bind_congr fun hrange =>
    require_bind_congr fun _ => ?_
  have hpos : 1 ≤ cp.roots.length := List.length_pos_of_ne_nil hnil
  rw [computeContinuityDigest, digestFrom_eq P.keccak (by omega), pure_bind]
  rfl

theorem verifyQuery_eq_checkTransaction (start : ℕ) (height : U64) (tx : Bytes)
    (mp : TransactionMerkleProof H) (cp : ContinuityProof H) :
    Creditcoin.verifyQuery P start height tx mp cp = (do
      checkTransaction P tx mp
      let queryBlockIdx ← ofResult (okOr (cp.findQueryBlockIndex start height)
        (.revert "Query block not found in continuity chain"))
      require (cp.roots[queryBlockIdx]? = some mp.root) (.revert "Merkle root mismatch")) := by
  simp only [checkTransaction, bind_assoc]
  rfl

theorem verifyQuery_eq (tx : Bytes) {mp : TransactionMerkleProof H}
    (hrange : start + (cp.roots.length - 1) ≤ u64Max)
    (hcast : cp.roots.length ≤ maxContinuityRoots ∨ height.val = start) :
    verifyQuery P start height tx mp cp =
      exactly (Creditcoin.verifyQuery P start height tx mp cp) := by
  rw [verifyQuery, locateRoot_eq hrange hcast, verifyQuery_eq_checkTransaction]
  simp only [exactly, ← mapFailure_bind]

/-- **A batch never overflows.** -/
theorem verifyBatchImpl_eq (k : ChainKey) (heights : List U64) (txs : List Bytes)
    (mps : List (TransactionMerkleProof H)) (cp : ContinuityProof H) (emitEvents : Bool) :
    verifyBatchImpl P s k heights txs mps cp emitEvents =
      exactly (Creditcoin.verifyBatchImpl P s k heights txs mps cp emitEvents) := by
  unfold verifyBatchImpl Creditcoin.verifyBatchImpl exactly
  simp only [mapFailure_bind, mapFailure_require]
  refine require_bind_congr fun _ => require_bind_congr fun hne => ?_
  obtain ⟨lo, hlo⟩ : ∃ lo, (heights.map Fin.val).min? = some lo := by
    refine Option.ne_none_iff_exists'.1 fun hnone => hne ?_
    simpa using hnone
  obtain ⟨hi, hhi⟩ : ∃ hi, (heights.map Fin.val).max? = some hi := by
    refine Option.ne_none_iff_exists'.1 fun hnone => hne ?_
    simpa using hnone
  rw [unwrap_bind hlo, unwrap_bind hhi, hlo, hhi, Option.getD_some, Option.getD_some]
  refine require_bind_congr fun hnil => require_bind_congr fun hrange =>
    require_bind_congr fun _ => ?_
  rw [verifyContinuityChain_eq]
  by_cases hlen : cp.roots.length ≤ maxContinuityRoots
  · -- The loop, whose offsets fit the index type.
    have hquery : ∀ q : U64 × Bytes × TransactionMerkleProof H,
        (do
          verifyQuery P lo q.1 q.2.1 q.2.2 cp
          logTransactionVerified emitEvents k q.1 q.2.2) =
        mapFailure .failure (do
          Creditcoin.verifyQuery P lo q.1 q.2.1 q.2.2 cp
          Creditcoin.logTransactionVerified emitEvents k q.1 q.2.2) := fun q => by
      rw [verifyQuery_eq P q.2.1 hrange (.inl hlen), logTransactionVerified_eq, mapFailure_bind]
      rfl
    simp only [hquery, mapFailure_forM]
    rfl
  · -- The chain is refused.
    have hrefused : Creditcoin.verifyContinuityChain P s cp lo k hi =
        ofResult (.error (continuityRevert .tooManyRoots)) := by
      rw [Creditcoin.verifyContinuityChain, require_pos hnil, require_neg hlen]
    simp only [hrefused, exactly, mapFailure_ofResult]
    rfl

/-- The single call overflows when it has checked the transaction and the range of the proof leaves
the 64-bit numbers. -/
def SingleOverflows (height : U64) (tx : Bytes) (mp : TransactionMerkleProof H)
    (cp : ContinuityProof H) (gas : ℕ) : Prop :=
  tx ≠ [] ∧ continuityBlockHashCost * mp.siblings.length ≤ min u64Max gas ∧
    mp.verify P.hashing tx = true ∧ u64Max < height.val + (cp.roots.length - 1)

theorem verifyImpl_eq {k : ChainKey} (hrange : height.val + (cp.roots.length - 1) ≤ u64Max)
    (tx : Bytes) (mp : TransactionMerkleProof H) (emitEvents : Bool) :
    verifyImpl P s k height tx mp cp emitEvents =
      exactly (Creditcoin.verifyImpl P s k height tx mp cp emitEvents) := by
  rw [verifyImpl, verifyQuery_eq P tx hrange (.inr rfl), verifyContinuityChain_eq,
    logTransactionVerified_eq]
  simp only [exactly, Creditcoin.verifyImpl, mapFailure_bind, mapFailure_pure]

theorem checkTransaction_run (tx : Bytes) (mp : TransactionMerkleProof H)
    (h : Meter TransactionVerified) :
    (∃ r, (checkTransaction P tx mp).run h = .ok r) ↔
      tx ≠ [] ∧ continuityBlockHashCost * mp.siblings.length ≤ min u64Max h.gas ∧
        mp.verify P.hashing tx = true := by
  have hyields : Yields (checkTransaction P tx mp) (tx ≠ [] ∧
      continuityBlockHashCost * mp.siblings.length ≤ u64Max ∧ mp.verify P.hashing tx = true) () []
      (continuityBlockHashCost * mp.siblings.length) := by
    refine Yields.congr ((Yields.require _ _).bind ((verifyMerkleProof_yields P mp tx).bind
      (Yields.require _ _))) Iff.rfl rfl (by omega)
  constructor
  · rintro ⟨r, hr⟩
    obtain ⟨⟨htx, hcost, hverify⟩, -⟩ := hyields.of_ok h r hr
    refine ⟨htx, le_min hcost ?_, hverify⟩
    -- Without the gas the charge fails.
    by_contra hgas
    rw [checkTransaction, require_pos htx, verifyMerkleProof, recordHashes, bind_assoc, bind_assoc,
      require_pos hcost] at hr
    rw [recordCost, charge_bind_run_of_lt (by omega)] at hr
    cases hr
  · rintro ⟨htx, hcost, hverify⟩
    obtain ⟨hmax, hgas⟩ := le_min_iff.1 hcost
    obtain ⟨h', hrun, -⟩ := hyields.ok ⟨htx, hmax, hverify⟩ h hgas
    exact ⟨_, hrun⟩

/-- **How the single call runs.** It overflows as `SingleOverflows` says, and otherwise it is the
call in every build. -/
theorem verifyImpl_run (k : ChainKey) (height : U64) (tx : Bytes) (mp : TransactionMerkleProof H)
    (cp : ContinuityProof H) (emitEvents : Bool) (h : Meter TransactionVerified) :
    (SingleOverflows P height tx mp cp h.gas ∧
        (verifyImpl P s k height tx mp cp emitEvents).run h = .error .overflow) ∨
      (¬ SingleOverflows P height tx mp cp h.gas ∧
        (verifyImpl P s k height tx mp cp emitEvents).run h =
          ((Creditcoin.verifyImpl P s k height tx mp cp emitEvents).run h).mapError .failure) := by
  rcases Nat.lt_or_ge u64Max (height.val + (cp.roots.length - 1)) with hover | hrange
  · have hheight : height.val ≤ u64Max := Nat.le_of_lt_succ height.isLt
    have hcheck := checkTransaction_run P tx mp h
    have hexact : verifyImpl P s k height tx mp cp emitEvents =
        exactly (checkTransaction P tx mp) >>= fun _ => ofResult (.error .overflow) := by
      rw [verifyImpl, verifyQuery, locateRoot, findQueryBlockIndex_overflow _ hheight hover]
      simp only [ofResult_error_bind, bind_assoc]
    rcases hrun : (checkTransaction P tx mp).run h with e | r
    · -- The checks fail before the search, in every build.
      refine .inr ⟨fun hsingle => ?_, ?_⟩
      · obtain ⟨r, hr⟩ := hcheck.2 ⟨hsingle.1, hsingle.2.1, hsingle.2.2.1⟩
        rw [hrun] at hr
        cases hr
      · have hcall : (Creditcoin.verifyImpl P s k height tx mp cp emitEvents).run h =
            .error e := by
          rw [Creditcoin.verifyImpl, verifyQuery_eq_checkTransaction, bind_assoc]
          exact bind_run_of_error hrun _
        have hlift : (exactly (checkTransaction P tx mp)).run h = .error (.failure e) :=
          congrArg (Except.mapError ExactFailure.failure) hrun
        rw [hexact, hcall]
        exact bind_run_of_error hlift _
    · obtain ⟨htx, hcost, hverify⟩ := hcheck.1 ⟨r, hrun⟩
      refine .inl ⟨⟨htx, hcost, hverify, hover⟩, ?_⟩
      have hlift : (exactly (checkTransaction P tx mp)).run h = .ok r :=
        congrArg (Except.mapError ExactFailure.failure) hrun
      rw [hexact, StateT.run_bind, hlift]
      rfl
  · refine .inr ⟨fun hsingle => absurd hsingle.2.2.2 (by omega), ?_⟩
    rw [verifyImpl_eq P s hrange]
    rfl

end Agrees

end Exact

/-! ## The calls -/

section Calls

variable {H A B : Type} [DecidableEq H] (P : ProverConfig H A B) (s : State H A B)

/-- A failure that is a revert or a lack of gas. -/
def PrecompileFailure.Clean : PrecompileFailure → Prop
  | .revert _ => True
  | .outOfGas => True
  | .other _ => False

theorem verifyContinuityChain_ends (cp : ContinuityProof H) (start : ℕ) (k : ChainKey)
    (height : ℕ) :
    Ends (verifyContinuityChain P s cp start k height) (·.Clean) fun _ => True := by
  have hcharge : ∀ cost, Ends (recordCost cost) (·.Clean) fun _ => True := .charge trivial
  have hcheckpoint : ∀ n, Ends (getCheckpoint P s k n) (·.Clean) fun _ => True := fun n =>
    (hcharge _).bind fun _ _ => .ite ((hcharge _).bind fun _ _ => .pure trivial) (.pure trivial)
  have hattestation : ∀ d, Ends (getAttestation P s k d) (·.Clean) fun _ => True := fun d =>
    (hcharge _).bind fun _ _ => .pure trivial
  refine (Ends.require trivial _).bind fun _ _ => (Ends.require trivial _).bind fun _ _ =>
    (Ends.require trivial _).bind fun _ _ => (Ends.require trivial _).bind fun _ _ =>
    ((Ends.require trivial _).bind fun _ _ => hcharge _).bind fun _ _ =>
    (hattestation _).bind fun _ _ => ?_
  refine Ends.bind (R := fun _ => True) ?_ fun _ _ => .require trivial _
  exact .ite (.pure trivial) ((hcheckpoint _).bind fun _ _ => .pure trivial)

theorem verifyQuery_ends (start : ℕ) (height : U64) (tx : Bytes)
    (mp : TransactionMerkleProof H) (cp : ContinuityProof H) :
    Ends (verifyQuery P start height tx mp cp) (·.Clean) fun _ => True := by
  refine (Ends.require trivial _).bind fun _ _ => Ends.bind (R := fun _ => True)
    (((Ends.require trivial _).bind fun _ _ => .charge trivial _).bind fun _ _ => .pure trivial)
      fun _ _ => (Ends.require trivial _).bind fun _ _ => ?_
  refine Ends.bind (.ofResult fun e he => ?_) fun _ _ => .require trivial _
  unfold okOr at he
  split at he
  · cases he
  · rw [← Except.error.inj he]
    trivial

theorem verify_ends (k : ChainKey) (height : U64) (tx : Bytes)
    (mp : TransactionMerkleProof H) (cp : ContinuityProof H) :
    Ends (verify P s k height tx mp cp) (·.Clean) (· = true) :=
  (Ends.require trivial _).bind fun _ _ => (verifyQuery_ends P _ _ _ _ _).bind fun _ _ =>
    (verifyContinuityChain_ends P s _ _ _ _).bind fun _ _ =>
      (Ends.pure (R := fun _ => True) trivial).bind fun _ _ => .pure rfl

omit [DecidableEq H] in
theorem decodeBatch_ends (heights : List U64) (txs : List Bytes)
    (mps : List (TransactionMerkleProof H)) :
    Ends (decodeBatch heights txs mps) (·.Clean) fun _ => True :=
  (Ends.require trivial _).bind fun _ _ => (Ends.require trivial _).bind fun _ _ =>
    (Ends.forM (fun _ => .require trivial _) _).bind fun _ _ => .require trivial _

theorem verifyBatch_ends (k : ChainKey) (heights : List U64) (txs : List Bytes)
    (mps : List (TransactionMerkleProof H)) (cp : ContinuityProof H) :
    Ends (verifyBatch P s k heights txs mps cp) (·.Clean) (· = true) :=
  (decodeBatch_ends heights txs mps).bind fun _ _ =>
    (Ends.require trivial _).bind fun _ _ => (Ends.require trivial _).bind fun _ _ =>
    (Ends.require trivial _).bind fun _ _ => (Ends.require trivial _).bind fun _ _ =>
    (Ends.require trivial _).bind fun _ _ =>
    (verifyContinuityChain_ends P s _ _ _ _).bind fun _ _ =>
    (Ends.forM (fun _ => (verifyQuery_ends P _ _ _ _ _).bind fun _ _ => .pure trivial) _).bind
      fun _ _ => .pure rfl

/-- The call is accepted, reverts or lacks gas, and it does so in the same way in every build: no
operation wraps or panics. -/
structure EndsCleanly (call : EvmResult Bool) (exactCall : ExactResult Bool)
    (h : Meter TransactionVerified) : Prop where
  exact : exactCall.run h = (call.run h).mapError .failure
  outcome : (∃ h', call.run h = .ok (true, h')) ∨
    (∃ message, call.run h = .error (.revert message)) ∨
    call.run h = .error .outOfGas

variable {P s} in
theorem endsCleanly_iff {call : EvmResult Bool} {exactCall : ExactResult Bool}
    (hends : Ends call (·.Clean) (· = true)) (h : Meter TransactionVerified) :
    EndsCleanly call exactCall h ↔ exactCall.run h = (call.run h).mapError .failure := by
  refine ⟨EndsCleanly.exact, fun hexact => ⟨hexact, ?_⟩⟩
  rcases hrun : call.run h with e | ⟨a, h'⟩
  · have hclean := hends.failed h e hrun
    cases e with
    | revert message => exact .inr (.inl ⟨message, rfl⟩)
    | outOfGas => exact .inr (.inr rfl)
    | other message => exact hclean.elim
  · obtain rfl : a = true := hends.returned h _ hrun
    exact .inl ⟨h', rfl⟩

/-- **When verification neither wraps nor panics.** A single call is accepted, reverts or lacks gas,
with no operation that wraps or panics, exactly when it does not reach the search for the queried
block with a proof whose range leaves the 64-bit numbers. A call for a batch always ends so. -/
theorem verify_endsCleanly_iff (k : ChainKey) (h : Meter TransactionVerified) :
    (∀ (height : U64) (tx : Bytes) (mp : TransactionMerkleProof H) (cp : ContinuityProof H),
      EndsCleanly (verify P s k height tx mp cp) (Exact.verify P s k height tx mp cp) h ↔
        ¬ (tx.length ≤ constU10MB ∧ Exact.SingleOverflows P height tx mp cp h.gas)) ∧
    ∀ (heights : List U64) (txs : List Bytes) (mps : List (TransactionMerkleProof H))
      (cp : ContinuityProof H),
      EndsCleanly (verifyBatch P s k heights txs mps cp)
        (Exact.verifyBatch P s k heights txs mps cp) h := by
  constructor
  · intro height tx mp cp
    rw [endsCleanly_iff (verify_ends P s k height tx mp cp), Exact.verify, decodeBounded, exactly,
      mapFailure_require, verify, verifyCall, decodeBounded]
    by_cases hlen : tx.length ≤ constU10MB
    · rw [require_pos hlen, require_pos hlen]
      rcases Exact.verifyImpl_run P s k height tx mp cp false h with ⟨hover, hrun⟩ | ⟨hover, hrun⟩
      · refine iff_of_false ?_ (not_not_intro ⟨hlen, hover⟩)
        rw [hrun]
        rcases (verifyImpl P s k height tx mp cp false).run h with e | r <;> exact nofun
      · exact iff_of_true hrun fun hsingle => hover hsingle.2
    · rw [require_neg hlen, require_neg hlen]
      exact iff_of_true rfl fun hsingle => hlen hsingle.1
  · intro heights txs mps cp
    rw [endsCleanly_iff (verifyBatch_ends P s k heights txs mps cp), Exact.verifyBatch,
      Exact.verifyBatchImpl_eq, exactly, exactly, ← mapFailure_bind]
    rfl

end Calls

namespace Devnet

/-- The proof of a transaction that is alone in its block. -/
def loneProof : TransactionMerkleProof H256 := ⟨hashing.hashLeaf [7], []⟩

/-- Two roots from the greatest height on. -/
def proofPastTop : ContinuityProof H256 := ⟨hashing.zero, [loneProof.root, loneProof.root]⟩

/-- **A query that overflows.** A transaction with its proof at the greatest height, and a
continuity proof with two roots. The sum of the height and one is computed before the range is
checked. A build that checks overflow panics; without the check the sum is zero and the call reverts
as if the block were not in the proof. -/
theorem exists_verify_overflow :
    (Exact.verify proverConfig anchoredState 1 (Fin.last _) [7] loneProof proofPastTop).run
        ⟨0, []⟩ = .error .overflow ∧
      (verify proverConfig anchoredState 1 (Fin.last _) [7] loneProof proofPastTop).run ⟨0, []⟩ =
        .error (.revert "Query block not found in continuity chain") ∧
      ¬ EndsCleanly (verify proverConfig anchoredState 1 (Fin.last _) [7] loneProof proofPastTop)
        (Exact.verify proverConfig anchoredState 1 (Fin.last _) [7] loneProof proofPastTop)
        ⟨0, []⟩ := by
  refine ⟨eq_error_of_failure (by rfl), eq_error_of_failure (by rfl), fun hclean => ?_⟩
  have hfailure : some ExactFailure.overflow = some (.failure _) := congrArg failure hclean.exact
  cases hfailure

end Devnet

end Creditcoin
