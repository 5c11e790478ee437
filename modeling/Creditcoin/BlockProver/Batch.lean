import Creditcoin.BlockProver.SourceChain

/-!
# Batches

A batch checks one continuity proof, which starts at the smallest height, for all its queries. A
single call for one of them would come with the suffix of the proof that starts at its height. The
batch accepts exactly if it has at most ten queries and all these single calls accept, and emits
their events in the order of the queries (`verifyBatch_accepts_iff`). -/

namespace Creditcoin

open Metered

variable {H A B : Type}

structure Query (H : Type) where
  height : U64
  encodedTransaction : Bytes
  merkleProof : TransactionMerkleProof H

def minHeight (queries : List (Query H)) : ℕ :=
  ((queries.map Query.height).map Fin.val).min?.getD 0

def maxHeight (queries : List (Query H)) : ℕ :=
  ((queries.map Query.height).map Fin.val).max?.getD 0

/-- The part of a proof from a height on. The roots before it are folded into the digest. -/
def ContinuityProof.suffixFrom (keccak : ℕ → H → Option H → H) (p : ContinuityProof H)
    (start height : ℕ) : ContinuityProof H where
  lowerEndpointDigest := HashChain.foldFrom (hashPayload keccak) start p.lowerEndpointDigest
    (p.roots.take (height - start))
  roots := p.roots.drop (height - start)

/-! ## Heights -/

section Heights

variable {queries : List (Query H)}

theorem exists_minHeight (h : queries ≠ []) : ∃ q ∈ queries, q.height.val = minHeight queries := by
  unfold minHeight
  cases hmin : ((queries.map Query.height).map Fin.val).min? with
  | none => exact absurd (List.min?_eq_none_iff.1 hmin) (by simpa using h)
  | some n =>
    have hmem := List.min?_mem hmin
    simpa using hmem

theorem minHeight_le {q : Query H} (hq : q ∈ queries) : minHeight queries ≤ q.height.val := by
  unfold minHeight
  cases hmin : ((queries.map Query.height).map Fin.val).min? with
  | none => exact Nat.zero_le _
  | some n =>
    exact (List.le_min?_iff hmin).1 le_rfl _ (by simpa using ⟨q, hq, rfl⟩)

theorem exists_maxHeight (h : queries ≠ []) : ∃ q ∈ queries, q.height.val = maxHeight queries := by
  unfold maxHeight
  cases hmax : ((queries.map Query.height).map Fin.val).max? with
  | none => exact absurd (List.max?_eq_none_iff.1 hmax) (by simpa using h)
  | some n =>
    have hmem := List.max?_mem hmax
    simpa using hmem

theorem le_maxHeight {q : Query H} (hq : q ∈ queries) : q.height.val ≤ maxHeight queries := by
  unfold maxHeight
  cases hmax : ((queries.map Query.height).map Fin.val).max? with
  | none => simp_all
  | some n =>
    exact (List.max?_le_iff hmax).1 le_rfl _ (by simpa using ⟨q, hq, rfl⟩)

end Heights

/-! ## What a batch accepts -/

section Batch

variable [DecidableEq H] (P : ProverConfig H A B) (s : State H A B)

/-- When a batch is accepted. -/
structure BatchValid (k : ChainKey) (queries : List (Query H)) (p : ContinuityProof H)
    (emitEvents : Bool) : Prop where
  continuity : ContinuityValid P s k p (minHeight queries) (maxHeight queries)
  query : ∀ q ∈ queries, QueryValid P (minHeight queries) q.height q.encodedTransaction
    q.merkleProof p
  index : ∀ q ∈ queries, emitEvents = true → q.merkleProof.siblings.length ≤ 64

/-- The events of the queries, one after the other. -/
def batchEvents (emitEvents : Bool) (k : ChainKey) (queries : List (Query H)) :
    List TransactionVerified :=
  queries.flatMap fun q => verifiedEvents emitEvents k q.height q.merkleProof

/-- **The batch call**: when it accepts, what it emits and what it costs. -/
theorem verifyBatchImpl_yields (k : ChainKey) {queries : List (Query H)} (hne : queries ≠ [])
    (p : ContinuityProof H) (emitEvents : Bool) :
    Yields (verifyBatchImpl P s k (queries.map Query.height)
        (queries.map Query.encodedTransaction) (queries.map Query.merkleProof) p emitEvents)
      (BatchValid P s k queries p emitEvents) true (batchEvents emitEvents k queries)
      (continuityCost p.roots.length + (queries.map fun q =>
        continuityBlockHashCost * q.merkleProof.siblings.length).sum) := by
  have hloop := Yields.forM
    (f := fun q : U64 × Bytes × TransactionMerkleProof H => do
      verifyQuery P (minHeight queries) q.1 q.2.1 q.2.2 p
      logTransactionVerified emitEvents k q.1 q.2.2)
    (fun q => (verifyQuery_yields P (minHeight queries) q.1 q.2.1 q.2.2 p).bind
      (logTransactionVerified_yields emitEvents k q.1 q.2.2))
    ((queries.map Query.height).zip
      ((queries.map Query.encodedTransaction).zip (queries.map Query.merkleProof)))
  refine Yields.congr ((Yields.require _ _).bind <| (Yields.require _ _).bind <|
    (Yields.require _ _).bind <| (Yields.require _ _).bind <| (Yields.require _ _).bind <|
    (verifyContinuityChain_yields P s k p (minHeight queries) (maxHeight queries)).bind <|
    hloop.bind <| Yields.pure true) ?_ ?_ ?_
  · rw [List.zip_map', List.zip_map', List.forall_mem_map]
    constructor
    · rintro ⟨-, -, -, -, -, hc, hq, -⟩
      exact ⟨hc, fun q hmem => (hq q hmem).1, fun q hmem => (hq q hmem).2⟩
    · rintro ⟨hc, hq, hi⟩
      refine ⟨by simp, by simpa using hne, hc.ne_nil, hc.final_le, hc.reaches, hc,
        fun q hmem => ⟨hq q hmem, hi q hmem⟩, trivial⟩
  · rw [List.zip_map', List.zip_map', List.flatMap_map]
    simp [batchEvents]
  · rw [List.zip_map', List.zip_map', List.map_map]
    simp [Function.comp_def]

/-- When the arguments of a batch are short enough. -/
structure BatchDecodes (queries : List (Query H)) : Prop where
  length_le : queries.length ≤ maxBatchSize
  transaction_le : ∀ q ∈ queries, q.encodedTransaction.length ≤ constU10MB

omit [DecidableEq H] in
theorem decodeBatch_yields (queries : List (Query H)) :
    Yields (decodeBatch (queries.map Query.height) (queries.map Query.encodedTransaction)
      (queries.map Query.merkleProof)) (BatchDecodes queries) () [] 0 := by
  refine Yields.congr ((Yields.require _ _).bind <| (Yields.require _ _).bind <|
    (Yields.forM (fun _ => Yields.require _ _) _).bind <| Yields.require _ _) ?_ (by simp)
    (by simp [Function.comp_def])
  rw [List.length_map, List.length_map, List.length_map, List.forall_mem_map]
  exact ⟨fun h => ⟨h.1, h.2.2.1⟩, fun h => ⟨h.1, h.1, h.2, h.1⟩⟩

theorem verifyBatchCall_yields (k : ChainKey) {queries : List (Query H)} (hne : queries ≠ [])
    (p : ContinuityProof H) (emitEvents : Bool) : ∃ cost,
    Yields (verifyBatchCall P s emitEvents k (queries.map Query.height)
        (queries.map Query.encodedTransaction) (queries.map Query.merkleProof) p)
      (BatchDecodes queries ∧ BatchValid P s k queries p emitEvents) true
      (batchEvents emitEvents k queries) cost :=
  ⟨_, (decodeBatch_yields queries).bind (verifyBatchImpl_yields P s k hne p emitEvents)⟩

end Batch

/-! ## Suffixes -/

section Suffix

variable {p : ContinuityProof H} {start height : ℕ}

theorem computeContinuityDigest_suffixFrom (keccak : ℕ → H → Option H → H) (hle : start ≤ height)
    (hcover : height ≤ start + (p.roots.length - 1)) :
    (p.suffixFrom keccak start height).computeContinuityDigest keccak height =
      p.computeContinuityDigest keccak start := by
  unfold ContinuityProof.computeContinuityDigest ContinuityProof.suffixFrom
  conv_rhs => rw [← List.take_append_drop (height - start) p.roots]
  rw [HashChain.foldFrom_append, List.length_take, Nat.min_eq_left (by omega),
    Nat.add_sub_cancel' hle]

theorem exists_queryRoot_iff {r : H} (hstart : start < 2 ^ 64)
    (hlen : p.roots.length ≤ maxContinuityRoots) (hfinal : start + (p.roots.length - 1) ≤ u64Max)
    (hle : start ≤ height) :
    (∃ i, p.findQueryBlockIndex start height = some i ∧ p.roots[i]? = some r) ↔
      p.roots[height - start]? = some r := by
  constructor
  · rintro ⟨i, hfind, hr⟩
    obtain ⟨-, -, rfl, -⟩ := (ContinuityProof.findQueryBlockIndex_eq_some hstart hlen).1 hfind
    exact hr
  · intro hr
    refine ⟨height - start, ?_, hr⟩
    rw [ContinuityProof.findQueryBlockIndex_eq_some hstart hlen]
    exact ⟨hfinal, hle, rfl, (List.getElem?_eq_some_iff.1 hr).1⟩

variable [DecidableEq H] {P : ProverConfig H A B} {s : State H A B} {k : ChainKey}

theorem ContinuityValid.suffixFrom {h : ℕ} (hc : ContinuityValid P s k p start h)
    (hle : start ≤ height) (hcover : height ≤ start + (p.roots.length - 1)) :
    ContinuityValid P s k (p.suffixFrom P.keccak start height) height height := by
  have hpos := List.length_pos_of_ne_nil hc.ne_nil
  have hlen : (p.suffixFrom P.keccak start height).roots.length =
      p.roots.length - (height - start) := List.length_drop
  have hlast : height + ((p.suffixFrom P.keccak start height).roots.length - 1) =
      start + (p.roots.length - 1) := by omega
  constructor
  · exact List.ne_nil_of_length_pos (by omega)
  · exact hlen ▸ (Nat.sub_le _ _).trans hc.length_le
  · exact hlast ▸ hc.final_le
  · exact Nat.le_add_right _ _
  · rw [hlast, computeContinuityDigest_suffixFrom P.keccak hle hcover]
    exact hc.anchored

theorem queryValid_suffixFrom_iff {q : U64} {tx : Bytes} {mp : TransactionMerkleProof H} {h : ℕ}
    (hc : ContinuityValid P s k p start h) (hle : start ≤ q.val)
    (hcover : q.val ≤ start + (p.roots.length - 1)) :
    QueryValid P q.val q tx mp (p.suffixFrom P.keccak start q.val) ↔
      QueryValid P start q tx mp p := by
  have hs := hc.suffixFrom hle hcover
  have hroot : (p.suffixFrom P.keccak start q.val).roots[q.val - q.val]? =
      p.roots[q.val - start]? := by
    rw [Nat.sub_self]
    exact (List.getElem?_drop ..).trans (by rw [Nat.add_zero])
  have hiff : ∀ r, (∃ i, (p.suffixFrom P.keccak start q.val).findQueryBlockIndex q.val q.val =
      some i ∧ (p.suffixFrom P.keccak start q.val).roots[i]? = some r) ↔
      ∃ i, p.findQueryBlockIndex start q.val = some i ∧ p.roots[i]? = some r := fun r => by
    rw [exists_queryRoot_iff q.isLt hs.length_le hs.final_le le_rfl, hroot,
      exists_queryRoot_iff (lt_of_le_of_lt hle q.isLt) hc.length_le hc.final_le hle]
  constructor
  · rintro ⟨h₁, h₂, h₃, h₄⟩
    exact ⟨h₁, h₂, h₃, (hiff _).1 h₄⟩
  · rintro ⟨h₁, h₂, h₃, h₄⟩
    exact ⟨h₁, h₂, h₃, (hiff _).2 h₄⟩

end Suffix

/-! ## Batches and single calls -/

section Equivalence

variable [DecidableEq H] {P : ProverConfig H A B} {s : State H A B} {k : ChainKey}
  {queries : List (Query H)} {p : ContinuityProof H} {emitEvents : Bool}

/-- The single call for a query of a batch. -/
def singleCall (P : ProverConfig H A B) (s : State H A B) (k : ChainKey)
    (p : ContinuityProof H) (emitEvents : Bool) (start : ℕ) (q : Query H) : EvmResult Bool :=
  verifyCall P s emitEvents k q.height q.encodedTransaction q.merkleProof
    (p.suffixFrom P.keccak start q.height.val)

theorem batchValid_iff (hne : queries ≠ []) :
    BatchValid P s k queries p emitEvents ↔ ∀ q ∈ queries,
      SingleValid P s k q.height q.encodedTransaction q.merkleProof
        (p.suffixFrom P.keccak (minHeight queries) q.height.val) emitEvents := by
  constructor
  · intro h q hq
    have hle := minHeight_le hq
    have hcover := (le_maxHeight hq).trans h.continuity.reaches
    exact ⟨(queryValid_suffixFrom_iff h.continuity hle hcover).2 (h.query q hq),
      h.continuity.suffixFrom hle hcover, h.index q hq⟩
  · intro h
    -- The query with the smallest height comes with the whole proof.
    obtain ⟨q₀, hq₀, hmin⟩ := exists_minHeight hne
    have hwhole : p.suffixFrom P.keccak (minHeight queries) q₀.height.val = p := by
      rw [hmin, ContinuityProof.suffixFrom, Nat.sub_self]
      rfl
    have hc := (h q₀ hq₀).continuity
    rw [hwhole, hmin] at hc
    have hcover : ∀ q ∈ queries, q.height.val ≤ minHeight queries + (p.roots.length - 1) := by
      intro q hq
      have hsuffix := (h q hq).continuity.ne_nil
      have hlen : (p.suffixFrom P.keccak (minHeight queries) q.height.val).roots.length =
          p.roots.length - (q.height.val - minHeight queries) := List.length_drop
      have := List.length_pos_of_ne_nil hsuffix
      omega
    obtain ⟨q₁, hq₁, hmax⟩ := exists_maxHeight hne
    refine ⟨⟨hc.ne_nil, hc.length_le, hc.final_le, hmax ▸ hcover q₁ hq₁, hc.anchored⟩, ?_, ?_⟩
    · exact fun q hq =>
        (queryValid_suffixFrom_iff hc (minHeight_le hq) (hcover q hq)).1 (h q hq).query
    · exact fun q hq => (h q hq).index

theorem forall₂_and_eq_iff {α β : Type} {C : α → Prop} {f : α → β} {l : List α} {l' : List β} :
    List.Forall₂ (fun a b => C a ∧ b = f a) l l' ↔ (∀ a ∈ l, C a) ∧ l' = l.map f := by
  induction l generalizing l' with
  | nil => simp
  | cons a l ih =>
    cases l' with
    | nil => simp
    | cons b l' =>
      rw [List.forall₂_cons, ih, List.forall_mem_cons, List.map_cons, List.cons.injEq]
      tauto

/-- **Batch equivalence.** With enough gas, a batch accepts exactly if it has at most ten queries
and each of them is accepted on its own with the suffix of the shared proof that starts at its
height, and it then emits the events of the single calls in their order. -/
theorem verifyBatch_accepts_iff (q₀ : Query H) (rest : List (Query H)) (p : ContinuityProof H)
    (emitEvents : Bool) (events : List TransactionVerified) :
    Accepts (verifyBatchCall P s emitEvents k ((q₀ :: rest).map Query.height)
        ((q₀ :: rest).map Query.encodedTransaction) ((q₀ :: rest).map Query.merkleProof) p) true
        events ↔
      (q₀ :: rest).length ≤ maxBatchSize ∧ ∃ eventss, List.Forall₂ (fun q es =>
          Accepts (singleCall P s k p emitEvents (minHeight (q₀ :: rest)) q) true es)
        (q₀ :: rest) eventss ∧ events = eventss.flatten := by
  have hne : q₀ :: rest ≠ [] := List.cons_ne_nil _ _
  have hsingle :
    ∀ q es, Accepts (singleCall P s k p emitEvents (minHeight (q₀ :: rest)) q) true es ↔
      (q.encodedTransaction.length ≤ constU10MB ∧
        SingleValid P s k q.height q.encodedTransaction q.merkleProof
          (p.suffixFrom P.keccak (minHeight (q₀ :: rest)) q.height.val) emitEvents) ∧
      es = verifiedEvents emitEvents k q.height q.merkleProof := fun q es =>
    (verifyCall_yields P s k q.height q.encodedTransaction q.merkleProof _ emitEvents).accepts_iff
  obtain ⟨cost, hbatch⟩ := verifyBatchCall_yields P s k hne p emitEvents
  rw [hbatch.accepts_iff, batchValid_iff hne]
  simp only [hsingle, forall₂_and_eq_iff]
  constructor
  · rintro ⟨⟨hdecodes, hvalid⟩, rfl⟩
    exact ⟨hdecodes.length_le, _, ⟨fun q hq => ⟨hdecodes.transaction_le q hq, hvalid q hq⟩, rfl⟩,
      List.flatMap_def⟩
  · rintro ⟨hlen, _, ⟨hvalid, rfl⟩, rfl⟩
    exact ⟨⟨⟨hlen, fun q hq => (hvalid q hq).1⟩, fun q hq => (hvalid q hq).2⟩,
      List.flatMap_def.symm⟩

end Equivalence

namespace Devnet

/-- The third transaction of block 2, eleven times. -/
def elevenQueries : List (Query H256) := List.replicate 11 ⟨2, [1, 3], proofOf2⟩

/-- **Eleven queries.** Each is accepted on its own with the proof from block 2 to block 3, but a
batch of them never is. -/
theorem exists_batch_refused :
    (∀ q ∈ elevenQueries, Accepts (singleCall proverConfig anchoredState 1 proofTo3 true
      (minHeight elevenQueries) q) true [⟨1, 2, 2⟩]) ∧
    ∀ events, ¬ Accepts (verifyBatchCall proverConfig anchoredState true 1
      (elevenQueries.map Query.height) (elevenQueries.map Query.encodedTransaction)
      (elevenQueries.map Query.merkleProof) proofTo3) true events := by
  constructor
  · intro q hq
    obtain rfl := List.eq_of_mem_replicate hq
    have hyields := verifyCall_yields proverConfig anchoredState 1 2 [1, 3] proofOf2 proofTo3 true
    obtain ⟨r, hr⟩ := exists_of_isOk (x := (verifyCall proverConfig anchoredState true 1 2 [1, 3]
      proofOf2 proofTo3).run ⟨20000, []⟩) (by decide +kernel)
    exact hyields.accepts_iff.2 ⟨(hyields.of_ok _ r hr).1, by decide +kernel⟩
  · intro events hbatch
    have hne : elevenQueries ≠ [] := List.cons_ne_nil _ _
    obtain ⟨cost, hyields⟩ := verifyBatchCall_yields proverConfig anchoredState 1 hne proofTo3 true
    exact absurd (hyields.accepts_iff.1 hbatch).1.1.length_le (by decide)

end Devnet

end Creditcoin
