import Creditcoin.ProofServer.Caches

/-!
# What a built proof proves

A provider builds blocks whose digests chain from the digest it is given (`Chains`), as the
archiver's does (`archiverProvider_chains`). A proof has the roots of the blocks from the lowest of
the heights to a cached point at or above the highest, and folds to its digest
(`buildContinuity_eq_ok`). Roots that do not lead to the cached digest are refused. -/

namespace Creditcoin.ProofServer

open Attestor (Block)

variable {H : Type}

/-! ## Blocks that chain -/

section Blocks

variable (keccak : ℕ → H → Option H → H)

/-- The blocks with the given roots from height `n` on, above the digest `prevDigest`. -/
def blocksFrom : ℕ → H → List H → List (Block H)
  | _, _, [] => []
  | n, prevDigest, root :: roots =>
    Block.newFromPrevDigest keccak n root prevDigest ::
      blocksFrom (n + 1) (hashPayload keccak n root prevDigest) roots

/-- The provider returns all blocks it is asked for, and their digests chain. -/
def Chains (provider : EthProvider H) : Prop :=
  ∀ lowerDigest start stop blocks, provider lowerDigest start stop = .ok blocks → start ≤ stop →
    ∃ roots, blocks = blocksFrom keccak start lowerDigest roots ∧ roots.length = stop + 1 - start

variable {keccak}

theorem blocksFrom_append (n : ℕ) (d : H) (l₁ l₂ : List H) :
    blocksFrom keccak n d (l₁ ++ l₂) = blocksFrom keccak n d l₁ ++
      blocksFrom keccak (n + l₁.length) (HashChain.foldFrom (hashPayload keccak) n d l₁) l₂ := by
  induction l₁ generalizing n d with
  | nil => rfl
  | cons root roots ih =>
    rw [List.cons_append, blocksFrom, ih, blocksFrom, HashChain.foldFrom_cons, List.length_cons,
      Nat.add_assoc, Nat.add_comm 1 roots.length]
    rfl

theorem blockNumber_of_mem_blocksFrom {n : ℕ} {d : H} {roots : List H} {block : Block H}
    (h : block ∈ blocksFrom keccak n d roots) :
    n ≤ block.blockNumber ∧ block.blockNumber < n + roots.length := by
  induction roots generalizing n d with
  | nil => cases h
  | cons root roots ih =>
    rw [List.length_cons]
    rcases List.mem_cons.1 h with rfl | hmem
    · exact ⟨le_rfl, by show n < _; omega⟩
    · have := ih hmem
      omega

theorem map_root_blocksFrom (n : ℕ) (d : H) (roots : List H) :
    (blocksFrom keccak n d roots).map (·.root) = roots := by
  induction roots generalizing n d with
  | nil => rfl
  | cons root roots ih =>
    rw [blocksFrom, List.map_cons, ih]
    rfl

theorem getLast?_blocksFrom (n : ℕ) (d : H) (roots : List H) :
    ((blocksFrom keccak n d roots).getLast?.map (·.digest)).getD d =
      HashChain.foldFrom (hashPayload keccak) n d roots := by
  induction roots using List.reverseRecOn with
  | nil => rfl
  | append_singleton roots root ih =>
    rw [blocksFrom_append, List.getLast?_append, HashChain.foldFrom_append]
    rfl

theorem digest_of_find?_blocksFrom {n : ℕ} {d : H} {roots : List H} {block : Block H}
    (hne : roots ≠ []) (h : (blocksFrom keccak n d roots).find? (fun block =>
      block.blockNumber = n + (roots.length - 1)) = some block) :
    block.digest = HashChain.foldFrom (hashPayload keccak) n d roots := by
  obtain ⟨front, root, rfl⟩ := List.eq_nil_or_concat roots |>.resolve_left hne
  rw [List.concat_eq_append] at h ⊢
  have hfront : (blocksFrom keccak n d front).find? (fun block =>
      block.blockNumber = n + ((front ++ [root]).length - 1)) = none := by
    refine List.find?_eq_none.2 fun block hblock => ?_
    have := blockNumber_of_mem_blocksFrom hblock
    rw [List.length_append, List.length_singleton]
    simp only [decide_eq_true_eq]
    omega
  rw [blocksFrom_append, List.find?_append, hfront, Option.none_or] at h
  have hmem := List.mem_of_find?_eq_some h
  rw [List.mem_singleton.1 hmem, HashChain.foldFrom_append]
  rfl

theorem split_blocksFrom (n : ℕ) (d : H) (l₁ l₂ : List H) :
    (blocksFrom keccak n d (l₁ ++ l₂)).takeWhile (fun block => block.blockNumber < n + l₁.length) =
        blocksFrom keccak n d l₁ ∧
      (blocksFrom keccak n d (l₁ ++ l₂)).filter (fun block => n + l₁.length ≤ block.blockNumber) =
        blocksFrom keccak (n + l₁.length)
          (HashChain.foldFrom (hashPayload keccak) n d l₁) l₂ := by
  have hlow : ∀ block ∈ blocksFrom keccak n d l₁, block.blockNumber < n + l₁.length :=
    fun block hblock => (blockNumber_of_mem_blocksFrom hblock).2
  have hhigh : ∀ block ∈ blocksFrom keccak (n + l₁.length)
      (HashChain.foldFrom (hashPayload keccak) n d l₁) l₂, n + l₁.length ≤ block.blockNumber :=
    fun block hblock => (blockNumber_of_mem_blocksFrom hblock).1
  rw [blocksFrom_append]
  constructor
  · have hstop : (blocksFrom keccak (n + l₁.length) (HashChain.foldFrom (hashPayload keccak) n d l₁)
        l₂).takeWhile (fun block => block.blockNumber < n + l₁.length) = [] := by
      cases l₂ with
      | nil => rfl
      | cons root roots => simp [blocksFrom, Block.newFromPrevDigest]
    rw [List.takeWhile_append_of_pos (by simpa using hlow), hstop, List.append_nil]
  · rw [List.filter_append, List.filter_eq_nil_iff.2 (by simpa using hlow), List.nil_append,
      List.filter_eq_self.2 (by simpa using hhigh)]

end Blocks

/-! ## The archiver -/

theorem archiverLoop_eq_ok {keccak : ℕ → H → Option H → H} {start stop i : ℕ} {d : H}
    {rows : List (ℕ × H)} {blocks : List (Block H)}
    (h : archiverLoop keccak start stop i d rows = .ok blocks) :
    blocks = blocksFrom keccak (start + i) d (rows.map Prod.snd) := by
  induction rows generalizing i d blocks with
  | nil =>
    cases h
    rfl
  | cons row rows ih =>
    simp only [archiverLoop, bind_eq_ok, ensure_eq_ok, pure_eq_ok] at h
    obtain ⟨-, hheight, rest, hrest, rfl⟩ := h
    rw [ih hrest, List.map_cons, blocksFrom, hheight, Nat.add_assoc]
    rfl

theorem archiverProvider_chains (keccak : ℕ → H → Option H → H)
    (getRoots : ℕ → ℕ → Except ServiceError (List (ℕ × H))) :
    Chains keccak (archiverProvider keccak getRoots) := by
  intro lowerDigest start stop blocks h hle
  simp only [archiverProvider, bind_eq_ok, ensure_eq_ok] at h
  obtain ⟨rows, -, -, -, -, hcount, hloop⟩ := h
  refine ⟨rows.map Prod.snd, archiverLoop_eq_ok hloop, ?_⟩
  rw [List.length_map, hcount]
  omega

/-! ## Boundaries -/

section Boundaries

variable {m : StorageMap U64 H} {n key : U64} {d : H}

theorem lastBelow_eq_some (h : lastBelow m n = some (key, d)) :
    key < n ∧ m.lookup key = some d := by
  obtain ⟨key', hkey, hrow⟩ := Option.bind_eq_some_iff.1 h
  obtain ⟨d', hd, heq⟩ := Option.map_eq_some_iff.1 hrow
  obtain ⟨rfl, rfl⟩ := Prod.mk.inj heq
  have hmem := List.mem_filter.1 (List.max?_mem hkey)
  exact ⟨of_decide_eq_true hmem.2, hd⟩

theorem firstFrom_eq_some (h : firstFrom m n = some (key, d)) :
    n ≤ key ∧ m.lookup key = some d := by
  obtain ⟨key', hkey, hrow⟩ := Option.bind_eq_some_iff.1 h
  obtain ⟨d', hd, heq⟩ := Option.map_eq_some_iff.1 hrow
  obtain ⟨rfl, rfl⟩ := Prod.mk.inj heq
  have hmem := List.mem_filter.1 (List.min?_mem hkey)
  exact ⟨of_decide_eq_true hmem.2, hd⟩

/-- The points enclose the heights, and the upper one is cached. -/
structure Boundaries.Encloses (b : Boundaries H) (c : ChainState H) (minQuery maxQuery : U64) :
    Prop where
  lower_lt : b.lower < minQuery
  le_upper : maxQuery ≤ b.upper
  cached : c.attestationCache.lookup b.upper = some b.upperDigest ∨
    c.checkpointCache.lookup b.upper = some b.upperDigest

theorem exists_lastBelow (h : m.lookup key = some d) (hlt : key < n) :
    ∃ row, lastBelow m n = some row := by
  have hmem : key ∈ m.keys.filter fun key => key < n :=
    List.mem_filter.2 ⟨(StorageMap.mem_keys_iff _ _).2 ⟨d, h⟩, decide_eq_true hlt⟩
  obtain ⟨top, htop⟩ := Option.ne_none_iff_exists'.1
    (List.max?_eq_none_iff.not.2 (List.ne_nil_of_mem hmem))
  obtain ⟨v, hv⟩ := (StorageMap.mem_keys_iff _ _).1 (List.mem_filter.1 (List.max?_mem htop)).1
  exact ⟨(top, v), by rw [lastBelow, htop, Option.bind_some, hv, Option.map_some]⟩

theorem exists_firstFrom (h : m.lookup key = some d) (hle : n ≤ key) :
    ∃ row, firstFrom m n = some row := by
  have hmem : key ∈ m.keys.filter fun key => n ≤ key :=
    List.mem_filter.2 ⟨(StorageMap.mem_keys_iff _ _).2 ⟨d, h⟩, decide_eq_true hle⟩
  obtain ⟨low, hlow⟩ := Option.ne_none_iff_exists'.1
    (List.min?_eq_none_iff.not.2 (List.ne_nil_of_mem hmem))
  obtain ⟨v, hv⟩ := (StorageMap.mem_keys_iff _ _).1 (List.mem_filter.1 (List.min?_mem hlow)).1
  exact ⟨(low, v), by rw [firstFrom, hlow, Option.bind_some, hv, Option.map_some]⟩

/-- A point that one of the caches holds. -/
def ChainState.Caches (c : ChainState H) (n : U64) (d : H) : Prop :=
  c.attestationCache.lookup n = some d ∨ c.checkpointCache.lookup n = some d

section Lookups

variable {lowerCache upperCache : StorageMap U64 H} {minQuery maxQuery : U64} {b : Boundaries H}
  {c : ChainState H}

theorem boundaries_eq_some (h : boundaries lowerCache upperCache minQuery maxQuery = some b) :
    (b.lower < minQuery ∧ lowerCache.lookup b.lower = some b.lowerDigest) ∧
      maxQuery ≤ b.upper ∧ upperCache.lookup b.upper = some b.upperDigest := by
  obtain ⟨lower, hlower, hrest⟩ := Option.bind_eq_some_iff.1 h
  obtain ⟨upper, hupper, rfl⟩ := Option.map_eq_some_iff.1 hrest
  exact ⟨lastBelow_eq_some hlower, firstFrom_eq_some hupper⟩

theorem exists_boundaries {l u : U64} {d e : H} (hlower : lowerCache.lookup l = some d)
    (hlt : l < minQuery) (hupper : upperCache.lookup u = some e) (hle : maxQuery ≤ u) :
    (boundaries lowerCache upperCache minQuery maxQuery).isSome = true := by
  obtain ⟨lower, hl⟩ := exists_lastBelow hlower hlt
  obtain ⟨upper, hu⟩ := exists_firstFrom hupper hle
  rw [boundaries, hl, Option.bind_some, hu]
  rfl

theorem encloses_of_boundaries (h : (c.getAttestationBoundaries minQuery maxQuery).or
      ((c.getCheckpointBoundaries minQuery maxQuery).or (c.getMixedBoundaries minQuery maxQuery)) =
        some b) : b.Encloses c minQuery maxQuery ∧ c.Caches b.lower b.lowerDigest := by
  have hfound : ∀ {lowerCache upperCache : StorageMap U64 H},
      (lowerCache = c.attestationCache ∨ lowerCache = c.checkpointCache) →
      (upperCache = c.attestationCache ∨ upperCache = c.checkpointCache) →
      boundaries lowerCache upperCache minQuery maxQuery = some b →
        b.Encloses c minQuery maxQuery ∧ c.Caches b.lower b.lowerDigest := by
    intro lowerCache upperCache hlower hupper hb
    obtain ⟨⟨hlt, hl⟩, hle, hu⟩ := boundaries_eq_some hb
    refine ⟨⟨hlt, hle, ?_⟩, ?_⟩
    · rcases hupper with rfl | rfl
      · exact .inl hu
      · exact .inr hu
    · rcases hlower with rfl | rfl
      · exact .inl hl
      · exact .inr hl
  rcases Option.or_eq_some_iff.1 h with h | ⟨-, h⟩
  · exact hfound (.inl rfl) (.inl rfl) h
  · rcases Option.or_eq_some_iff.1 h with h | ⟨-, h⟩
    · exact hfound (.inr rfl) (.inr rfl) h
    · rcases Option.or_eq_some_iff.1 h with h | ⟨-, h⟩
      · exact hfound (.inr rfl) (.inl rfl) h
      · exact hfound (.inl rfl) (.inr rfl) h

theorem exists_enclosing {l u : U64} {d e : H} (hlower : c.Caches l d) (hlt : l < minQuery)
    (hupper : c.Caches u e) (hle : maxQuery ≤ u) :
    ∃ b, (c.getAttestationBoundaries minQuery maxQuery).or
      ((c.getCheckpointBoundaries minQuery maxQuery).or (c.getMixedBoundaries minQuery maxQuery)) =
        some b := by
  refine Option.isSome_iff_exists.1 ?_
  simp only [ChainState.getMixedBoundaries, Option.isSome_or, Bool.or_eq_true]
  rcases hlower with hl | hl <;> rcases hupper with hu | hu
  · exact .inl (exists_boundaries hl hlt hu hle)
  · exact .inr (.inr (.inr (exists_boundaries hl hlt hu hle)))
  · exact .inr (.inr (.inl (exists_boundaries hl hlt hu hle)))
  · exact .inr (.inl (exists_boundaries hl hlt hu hle))

end Lookups

end Boundaries

/-! ## The proof -/

section Proof

variable [DecidableEq H] {keccak : ℕ → H → Option H → H} {provider : EthProvider H}
  {debug : H → String} {c : ChainState H} {p : ContinuityProof H}

theorem buildProofFromRoots_spec (hchains : Chains keccak provider) {minQuery : U64}
    {b : Boundaries H} (hlower : b.lower < minQuery) (hupper : minQuery ≤ b.upper)
    (h : buildProofFromRoots provider debug minQuery b = .ok p) :
    ∃ roots, provider b.lowerDigest (b.lower.val + 1) b.upper.val =
        .ok (blocksFrom keccak (b.lower.val + 1) b.lowerDigest roots) ∧
      p.roots = roots.drop (minQuery.val - (b.lower.val + 1)) ∧
      p.roots.length = b.upper.val + 1 - minQuery.val ∧
      p.computeContinuityDigest keccak minQuery.val = b.upperDigest := by
  simp only [buildProofFromRoots, bind_eq_ok, pure_eq_ok] at h
  obtain ⟨blocks, hblocks, u, hcheck, rfl⟩ := h
  have hlt : b.lower.val < minQuery.val := hlower
  have hle : minQuery.val ≤ b.upper.val := hupper
  obtain ⟨roots, rfl, hlen⟩ := hchains _ _ _ _ hblocks (by omega)
  have hne : roots ≠ [] := by
    rintro rfl
    rw [List.length_nil] at hlen
    omega
  have hlast : b.upper.val = b.lower.val + 1 + (roots.length - 1) := by omega
  have hdigest : HashChain.foldFrom (hashPayload keccak) (b.lower.val + 1) b.lowerDigest roots =
      b.upperDigest := by
    unfold verifyUpperBoundary at hcheck
    split at hcheck
    · next block hfind =>
      rw [hlast] at hfind
      rw [← digest_of_find?_blocksFrom hne hfind]
      exact ensure_eq_ok.1 hcheck
    · cases hcheck
  -- The roots are cut where the lowest height is.
  set m := minQuery.val - (b.lower.val + 1) with hm
  have htake : (roots.take m).length = m := by
    rw [List.length_take]
    omega
  have hquery : b.lower.val + 1 + (roots.take m).length = minQuery.val := by omega
  obtain ⟨hbelow, hproved⟩ := @split_blocksFrom H keccak (b.lower.val + 1) b.lowerDigest
    (roots.take m) (roots.drop m)
  rw [List.take_append_drop, hquery] at hbelow hproved
  rw [hbelow, hproved, getLast?_blocksFrom, map_root_blocksFrom]
  refine ⟨roots, hblocks, rfl, ?_, ?_⟩
  · show (roots.drop m).length = _
    rw [List.length_drop]
    omega
  · show HashChain.foldFrom (hashPayload keccak) minQuery.val (HashChain.foldFrom
      (hashPayload keccak) (b.lower.val + 1) b.lowerDigest (roots.take m)) (roots.drop m) = _
    rw [← hdigest, ← hquery, ← HashChain.foldFrom_append, List.take_append_drop]

theorem buildContinuity_eq_ok (hchains : Chains keccak provider) {headerNumbers : List U64}
    (h : buildContinuity provider debug c headerNumbers = .ok p) :
    ∃ (minQuery maxQuery : U64) (b : Boundaries H) (roots : List H),
      headerNumbers.min? = some minQuery ∧ headerNumbers.max? = some maxQuery ∧
      minQuery ≤ maxQuery ∧ b.Encloses c minQuery maxQuery ∧ c.Caches b.lower b.lowerDigest ∧
      provider b.lowerDigest (b.lower.val + 1) b.upper.val =
        .ok (blocksFrom keccak (b.lower.val + 1) b.lowerDigest roots) ∧
      p.roots = roots.drop (minQuery.val - (b.lower.val + 1)) ∧
      p.roots.length = b.upper.val + 1 - minQuery.val ∧
      p.computeContinuityDigest keccak minQuery.val = b.upperDigest := by
  simp only [buildContinuity, bind_eq_ok, okOr_eq_ok] at h
  obtain ⟨⟨minQuery, maxQuery⟩, hquery, b, hb, hproof⟩ := h
  obtain ⟨lo, hlo, hrest⟩ := Option.bind_eq_some_iff.1 hquery
  obtain ⟨hi, hhi, heq⟩ := Option.map_eq_some_iff.1 hrest
  obtain ⟨rfl, rfl⟩ := Prod.mk.inj heq
  have hle : lo ≤ hi := (List.max?_eq_some_iff.1 hhi).2 lo (List.min?_mem hlo)
  obtain ⟨hencloses, hlower⟩ := encloses_of_boundaries hb
  obtain ⟨roots, hspec⟩ := buildProofFromRoots_spec hchains hencloses.lower_lt
    (hle.trans hencloses.le_upper) hproof
  exact ⟨lo, hi, b, roots, hlo, hhi, hle, hencloses, hlower, hspec⟩

/-- **What is built is anchored.** A proof has the roots that the provider returned from the lowest
height to a cached point at or above the highest, and folds to the digest of that point. The lookups
find points whenever the caches hold one below the lowest height and one at or above the highest:
what fails after that is the provider or the comparison of the digests. -/
theorem buildContinuity_anchored (hchains : Chains keccak provider) (debug : H → String)
    (c : ChainState H) (headerNumbers : List U64) :
    (∀ p, buildContinuity provider debug c headerNumbers = .ok p →
      ∃ (minQuery maxQuery : U64) (b : Boundaries H) (roots : List H),
        headerNumbers.min? = some minQuery ∧ headerNumbers.max? = some maxQuery ∧
        minQuery ≤ maxQuery ∧ b.Encloses c minQuery maxQuery ∧ c.Caches b.lower b.lowerDigest ∧
        provider b.lowerDigest (b.lower.val + 1) b.upper.val =
          .ok (blocksFrom keccak (b.lower.val + 1) b.lowerDigest roots) ∧
        p.roots = roots.drop (minQuery.val - (b.lower.val + 1)) ∧
        p.roots.length = b.upper.val + 1 - minQuery.val ∧
        p.computeContinuityDigest keccak minQuery.val = b.upperDigest) ∧
      ∀ minQuery maxQuery, headerNumbers.min? = some minQuery →
        headerNumbers.max? = some maxQuery →
        (∃ n d, n < minQuery ∧ c.Caches n d) → (∃ n d, maxQuery ≤ n ∧ c.Caches n d) →
        ∃ b : Boundaries H, b.Encloses c minQuery maxQuery ∧ c.Caches b.lower b.lowerDigest ∧
          buildContinuity provider debug c headerNumbers =
            buildProofFromRoots provider debug minQuery b := by
  constructor
  · exact fun p h => buildContinuity_eq_ok hchains h
  · rintro minQuery maxQuery hmin hmax ⟨l, d, hlt, hlower⟩ ⟨u, e, hle, hupper⟩
    obtain ⟨b, hb⟩ := exists_enclosing hlower hlt hupper hle
    obtain ⟨hencloses, hcached⟩ := encloses_of_boundaries hb
    have hquery : (headerNumbers.min?.bind fun minQuery =>
        headerNumbers.max?.map fun maxQuery => (minQuery, maxQuery)) =
          some (minQuery, maxQuery) := by
      rw [hmin, hmax]
      rfl
    refine ⟨b, hencloses, hcached, ?_⟩
    rw [buildContinuity, hquery]
    exact congrArg (fun found => (okOr found _).bind _) hb

end Proof

/-! ### A lower point in one cache and an upper one in the other -/

namespace Mixed

/-- Digests that add up. -/
def keccak (n root : ℕ) (prev : Option ℕ) : ℕ := n + root + prev.getD 0

/-- An archiver with root zero at every height. -/
def archiver : EthProvider ℕ :=
  archiverProvider keccak fun start stop =>
    .ok ((List.range' start (stop + 1 - start)).map fun n => (n, 0))

/-- An attestation at height 5 and a checkpoint at height 8. -/
def caches : ChainState ℕ where
  chainKey := 1
  checkpointCache := StorageMap.insertAll ∅ [(8, 21)]
  attestationCache := StorageMap.insertAll ∅ [(5, 0)]
  checkpointCacheMaxEntries := none

/-- The proof for height 7 starts from the digest of block 6 and leads to the checkpoint. -/
theorem seventh_anchored :
    buildContinuity archiver (fun _ => "") caches [7] = .ok ⟨6, [0, 0]⟩ ∧
      ∃ b : Boundaries ℕ, b.Encloses caches 7 7 ∧ caches.Caches b.lower b.lowerDigest ∧
        HashChain.foldFrom (hashPayload keccak) 7 6 [0, 0] = b.upperDigest := by
  have hbuilt : buildContinuity archiver (fun _ => "") caches [7] = .ok ⟨6, [0, 0]⟩ := by rfl
  obtain ⟨lo, hi, b, -, hlo, hhi, -, hencloses, hlower, -, -, -, hdigest⟩ :=
    (buildContinuity_anchored (archiverProvider_chains keccak _) (fun _ => "") caches [7]).1 _
      hbuilt
  obtain rfl := Option.some.inj hlo
  obtain rfl := Option.some.inj hhi
  exact ⟨hbuilt, b, hencloses, hlower, hdigest⟩

end Mixed

end Creditcoin.ProofServer
