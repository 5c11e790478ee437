import Creditcoin.BlockProver.Batch
import Creditcoin.ChainInfo.Attested
import Creditcoin.Continuity.Blocks

/-!
# Bounds on the chain and the prover

Whenever the chain has a point below some heights and one at or above them, the bounds finder should
find the closest ones, and the proof built between them should convince the block prover.
`bounds_provable_iff` says when: the finder gives up on a chain without attestations
(`exists_enclosed_not_found`) and reads nothing while attestations are being cleared; the prover
takes at most 50000 roots, and no checkpoint that is about to be pruned. -/

namespace Creditcoin.Continuity

open Attestor (Block)
open Metered

variable {H A B : Type}

/-! ## The nearest point -/

section Nearest

variable (keep : ℕ → Prop) (r : ℕ → ℕ → Prop)

/-- What is found in a list of points, among those at heights to keep. -/
def Nearest (points : List (AttestationWithProof H)) : Option (AttestationWithProof H) → Prop
  | none => ∀ p ∈ points, ¬ keep p.blockNumber.val
  | some p => p ∈ points ∧ keep p.blockNumber.val ∧
      ∀ p' ∈ points, keep p'.blockNumber.val → r p.blockNumber.val p'.blockNumber.val

variable {keep r}

theorem Nearest.append [IsTrans ℕ r] [Std.Total r] {b : U64 → U64 → Prop} [DecidableRel b]
    (hbetter : ∀ m n : U64, b m n ↔ r m.val n.val)
    {points points' : List (AttestationWithProof H)}
    {found found' : Option (AttestationWithProof H)}
    (h : Nearest keep r points found) (h' : Nearest keep r points' found') :
    Nearest keep r (points ++ points') (closest b found found') := by
  rcases found with _ | c <;> rcases found' with _ | a
  · exact fun p hp => (List.mem_append.1 hp).elim (h p) (h' p)
  · refine ⟨List.mem_append_right _ h'.1, h'.2.1, fun p hp hkeep => ?_⟩
    exact (List.mem_append.1 hp).elim (fun hp => absurd hkeep (h p hp)) (h'.2.2 p · hkeep)
  · refine ⟨List.mem_append_left _ h.1, h.2.1, fun p hp hkeep => ?_⟩
    exact (List.mem_append.1 hp).elim (h.2.2 p · hkeep) fun hp => absurd hkeep (h' p hp)
  · by_cases hca : b c.blockNumber a.blockNumber
    · rw [closest, if_pos hca]
      refine ⟨List.mem_append_left _ h.1, h.2.1, fun p hp hkeep => ?_⟩
      rcases List.mem_append.1 hp with hp | hp
      · exact h.2.2 p hp hkeep
      · exact IsTrans.trans _ _ _ ((hbetter _ _).1 hca) (h'.2.2 p hp hkeep)
    · rw [closest, if_neg hca]
      have hac := (Std.Total.total (r := r) c.blockNumber.val a.blockNumber.val).resolve_left
        fun hr => hca ((hbetter _ _).2 hr)
      refine ⟨List.mem_append_right _ h'.1, h'.2.1, fun p hp hkeep => ?_⟩
      rcases List.mem_append.1 hp with hp | hp
      · exact IsTrans.trans _ _ _ hac (h.2.2 p hp hkeep)
      · exact h'.2.2 p hp hkeep

section Extremes

variable {α : Type} {key : α → ℕ} {f : α → AttestationWithProof H}
  (hkey : ∀ x, (f x).blockNumber.val = key x)

include hkey

theorem nearest_map [DecidablePred keep] {l : List α} {found : Option α}
    (hnone : found = none → l.filter (fun x => keep (key x)) = [])
    (hsome : ∀ x ∈ found, x ∈ l.filter (fun x => keep (key x)) ∧
      ∀ y ∈ l.filter (fun x => keep (key x)), r (key x) (key y)) :
    Nearest keep r (l.map f) (found.map f) := by
  rcases found with _ | x
  · intro p hp hkeep
    obtain ⟨y, hy, rfl⟩ := List.mem_map.1 hp
    rw [hkey] at hkeep
    exact List.not_mem_nil (hnone rfl ▸ List.mem_filter.2 ⟨hy, decide_eq_true hkeep⟩)
  · obtain ⟨hmem, hbest⟩ := hsome x rfl
    obtain ⟨hx, hkeep⟩ := List.mem_filter.1 hmem
    refine ⟨List.mem_map_of_mem hx, hkey x ▸ of_decide_eq_true hkeep, fun p hp hkeep => ?_⟩
    obtain ⟨y, hy, rfl⟩ := List.mem_map.1 hp
    rw [hkey] at hkeep
    rw [hkey, hkey]
    exact hbest y (List.mem_filter.2 ⟨hy, decide_eq_true hkeep⟩)

theorem nearest_maxByKey (n : ℕ) (l : List α) : Nearest (· ≤ n) (· ≥ ·) (l.map f)
    ((maxByKey key (l.filter fun x => key x ≤ n)).map f) := by
  refine nearest_map hkey (fun hnone => ?_) fun x hx => ⟨?_, fun y hy => ?_⟩
  · exact List.reverse_eq_nil_iff.1 (List.argmax_eq_none.1 hnone)
  · exact List.mem_reverse.1 (List.argmax_mem hx)
  · exact List.le_of_mem_argmax (List.mem_reverse.2 hy) hx

theorem nearest_minByKey (n : ℕ) (l : List α) : Nearest (n ≤ ·) (· ≤ ·) (l.map f)
    ((minByKey key (l.filter fun x => n ≤ key x)).map f) := by
  refine nearest_map hkey (fun hnone => ?_) fun x hx => ⟨?_, fun y hy => ?_⟩
  · exact List.argmin_eq_none.1 hnone
  · exact List.argmin_mem hx
  · exact List.le_of_mem_argmin hy hx

end Extremes

end Nearest

/-! ## The bounds finder -/

section Finder

variable (keccak : ℕ → H → Option H → H) (zero : H)

/-- All points, as the builder represents them. -/
def points (attestations : List (SignedAttestation H A))
    (checkpoints : List (AttestationCheckpoint H)) : List (AttestationWithProof H) :=
  checkpoints.map (.fromCheckpoint zero) ++ attestations.map (.fromSignedAttestation keccak)

variable {keccak zero} {attestations : List (SignedAttestation H A)}
  {checkpoints : List (AttestationCheckpoint H)}

theorem exists_findLowerBound {n : ℕ}
    (h : ∃ p ∈ points keccak zero attestations checkpoints, p.blockNumber.val ≤ n) :
    ∃ p, findLowerBound keccak zero n attestations (some checkpoints) = .ok p ∧
      Nearest (· ≤ n) (· ≥ ·) (points keccak zero attestations checkpoints) (some p) := by
  have hnearest : Nearest (· ≤ n) (· ≥ ·) (points keccak zero attestations checkpoints)
      (closest (fun c a => a ≤ c)
        ((maxByKey (·.blockNumber) (checkpoints.filter fun c => c.blockNumber ≤ n)).map
          (.fromCheckpoint zero))
        ((maxByKey (·.headerNumber) (attestations.filter fun a => a.headerNumber ≤ n)).map
          (.fromSignedAttestation keccak))) :=
    (nearest_maxByKey (fun _ => rfl) n checkpoints).append (fun _ _ => Iff.rfl)
      (nearest_maxByKey (fun _ => rfl) n attestations)
  simp only [findLowerBound, Option.bind_some]
  rcases hfound : closest (fun c a : U64 => a ≤ c) _ _ with _ | p
  · rw [hfound] at hnearest
    obtain ⟨p, hp, hle⟩ := h
    exact absurd hle (hnearest p hp)
  · exact ⟨p, rfl, hfound ▸ hnearest⟩

theorem findUpperBound_nearest (n : ℕ) :
    Nearest (n ≤ ·) (· ≤ ·) (points keccak zero attestations checkpoints)
      (findUpperBound keccak zero n attestations (some checkpoints)) :=
  (nearest_minByKey (fun _ => rfl) n checkpoints).append (fun _ _ => Iff.rfl)
    (nearest_minByKey (fun _ => rfl) n attestations)

end Finder

/-! ## Points on record -/

section Record

variable [DecidableEq H]

/-- An attestation or a checkpoint with the digest is stored at the height. -/
def Stored (a : Anchors H A) (n : ℕ) (d : H) : Prop :=
  (∃ att, a.attestations.lookup d = some att ∧ att.headerNumber = n) ∨
    a.checkpoints.lookup n = some d

/-- All points on record have the digests that the attested roots determine. -/
def AttestedRoots.Records (keccak : ℕ → H → Option H → H) (c : AttestedRoots H)
    (a : Anchors H A) : Prop :=
  ∀ n d, Stored a n d → c.first ≤ n ∧ c.digest keccak n = d

/-- The closest points around the heights. -/
structure Closest (a : Anchors H A) (minQuery maxQuery : U64)
    (lower upper : AttestationWithProof H) : Prop where
  lower_stored : Stored a lower.blockNumber.val lower.digest
  lower_lt : lower.blockNumber < minQuery
  le_lower : ∀ n d, Stored a n d → n < minQuery.val → n ≤ lower.blockNumber.val
  upper_stored : Stored a upper.blockNumber.val upper.digest
  le_upper : maxQuery ≤ upper.blockNumber
  upper_le : ∀ n d, Stored a n d → maxQuery.val ≤ n → upper.blockNumber.val ≤ n

variable {keccak : ℕ → H → Option H → H} {zero : H} {k : ChainKey} {a : Anchors H A}
  {interval : Except String (Option U64)} {attestations : List (SignedAttestation H A)}
  {checkpoints : List (AttestationCheckpoint H)} {minQuery maxQuery : U64}

theorem getAttestationsForChain_eq_ok :
    (chainProvider k a interval).getAttestationsForChain = .ok attestations →
      a.attestationsStable = true ∧
        ∀ att, att ∈ attestations ↔ ∃ d, a.attestations.lookup d = some att := by
  unfold chainProvider
  split
  · next hstable =>
    rintro ⟨⟩
    refine ⟨hstable, fun att => ?_⟩
    rw [List.mem_insertionSort, List.mem_map]
    constructor
    · rintro ⟨⟨d, _⟩, hrow, rfl⟩
      exact ⟨d, AList.mem_lookup_iff.2 hrow⟩
    · rintro ⟨d, hd⟩
      exact ⟨⟨d, att⟩, AList.mem_lookup_iff.1 hd, rfl⟩
  · rintro ⟨⟩

omit [DecidableEq H] in
theorem mem_getCheckpointsForChain (k : ChainKey) (interval : Except String (Option U64))
    (hlt : ∀ n, (a.checkpoints.lookup n).isSome = true → n < 2 ^ 64) :
    ∃ checkpoints, (chainProvider k a interval).getCheckpointsForChain = .ok checkpoints ∧
      ∀ cp, cp ∈ checkpoints ↔ a.checkpoints.lookup cp.blockNumber = some cp.digest := by
  refine ⟨_, rfl, fun cp => ?_⟩
  rw [List.mem_insertionSort, List.mem_map]
  constructor
  · rintro ⟨⟨n, d⟩, hrow, rfl⟩
    have hlookup : a.checkpoints.lookup n = some d := AList.mem_lookup_iff.2 hrow
    have hn : n % 2 ^ 64 = n := Nat.mod_eq_of_lt (hlt n (by rw [hlookup]; rfl))
    show a.checkpoints.lookup (n % 2 ^ 64) = some d
    rw [hn, hlookup]
  · intro hlookup
    refine ⟨⟨_, cp.digest⟩, AList.mem_lookup_iff.1 hlookup, ?_⟩
    obtain ⟨n, d, hn⟩ := cp
    simp only [AttestationCheckpoint.of, Fin.ofNat, Nat.mod_eq_of_lt hn]

theorem exists_mem_points
    (hkeyed : ∀ d att, a.attestations.lookup d = some att → att.digest keccak = d)
    (hlt : ∀ n, (a.checkpoints.lookup n).isSome = true → n < 2 ^ 64)
    (hatt : ∀ att, att ∈ attestations ↔ ∃ d, a.attestations.lookup d = some att)
    (hcp : ∀ cp, cp ∈ checkpoints ↔ a.checkpoints.lookup cp.blockNumber = some cp.digest)
    (n : ℕ) (d : H) :
    (∃ p ∈ points keccak zero attestations checkpoints,
      p.blockNumber.val = n ∧ p.digest = d) ↔ Stored a n d := by
  unfold points Stored
  constructor
  · rintro ⟨p, hp, rfl, rfl⟩
    rcases List.mem_append.1 hp with hp | hp
    · obtain ⟨cp, hmem, rfl⟩ := List.mem_map.1 hp
      exact .inr ((hcp cp).1 hmem)
    · obtain ⟨att, hmem, rfl⟩ := List.mem_map.1 hp
      obtain ⟨d, hd⟩ := (hatt att).1 hmem
      refine .inl ⟨att, ?_, rfl⟩
      show a.attestations.lookup (att.digest keccak) = some att
      rw [hkeyed d att hd, hd]
  · rintro (⟨att, hd, rfl⟩ | hd)
    · exact ⟨_, List.mem_append_right _ (List.mem_map_of_mem ((hatt att).2 ⟨d, hd⟩)), rfl,
        hkeyed d att hd⟩
    · have hn := hlt n (by rw [hd]; rfl)
      exact ⟨_, List.mem_append_left _ (List.mem_map_of_mem ((hcp ⟨n, d, hn⟩).2 hd)), rfl, rfl⟩

theorem findBounds_eq_ok {currentBlock : Option U64} {bounds : _ × _}
    (h : findBounds keccak zero k (chainProvider k a interval) minQuery maxQuery currentBlock =
      .ok bounds) :
    a.attestationsStable = true ∧ ∃ d att, a.attestations.lookup d = some att := by
  obtain ⟨attestations, hatts, h⟩ := bind_eq_ok.1 h
  obtain ⟨_, hne, -⟩ := bind_eq_ok.1 h
  rcases hread : (chainProvider k a interval).getAttestationsForChain with e | attestations'
  · rw [hread] at hatts
    cases hatts
  · rw [hread] at hatts
    cases hatts
    obtain ⟨hstable, hmem⟩ := getAttestationsForChain_eq_ok hread
    obtain ⟨att, hatt⟩ := List.exists_mem_of_ne_nil _ (ensure_eq_ok.1 hne)
    obtain ⟨d, hd⟩ := (hmem att).1 hatt
    exact ⟨hstable, d, att, hd⟩

/-- If some points enclose the heights, one of them is an attestation and attestations are not being
cleared, the closest points are found. -/
theorem exists_findBounds
    (hkeyed : ∀ d att, a.attestations.lookup d = some att → att.digest keccak = d)
    (hlt : ∀ n, (a.checkpoints.lookup n).isSome = true → n < 2 ^ 64)
    (hbelow : ∃ n d, Stored a n d ∧ n < minQuery.val)
    (habove : ∃ n d, Stored a n d ∧ maxQuery.val ≤ n)
    (hstable : a.attestationsStable = true) (hatts : ∃ d att, a.attestations.lookup d = some att)
    (currentBlock : Option U64) :
    ∃ lower upper, findBounds keccak zero k (chainProvider k a interval) minQuery maxQuery
      currentBlock = .ok (lower, upper) ∧ Closest a minQuery maxQuery lower upper := by
  obtain ⟨attestations, hread⟩ :
      ∃ l, (chainProvider k a interval).getAttestationsForChain = .ok l := ⟨_, if_pos hstable⟩
  obtain ⟨-, hatt⟩ := getAttestationsForChain_eq_ok hread
  obtain ⟨checkpoints, hcps, hcp⟩ := mem_getCheckpointsForChain k interval hlt
  have hmem : ∀ n d, (∃ p ∈ points keccak zero attestations checkpoints,
      p.blockNumber.val = n ∧ p.digest = d) ↔ Stored a n d :=
    exists_mem_points hkeyed hlt hatt hcp
  have hne : attestations ≠ [] := by
    obtain ⟨d, att, hd⟩ := hatts
    exact List.ne_nil_of_mem ((hatt att).2 ⟨d, hd⟩)
  have hstored : ∀ p ∈ points keccak zero attestations checkpoints,
      Stored a p.blockNumber.val p.digest := fun p hp => (hmem _ _).1 ⟨p, hp, rfl, rfl⟩
  have hlow : ∃ p ∈ points keccak zero attestations checkpoints,
      p.blockNumber.val ≤ minQuery.val - 1 := by
    obtain ⟨n, d, hd, hn⟩ := hbelow
    obtain ⟨p, hp, rfl, -⟩ := (hmem n d).2 hd
    exact ⟨p, hp, Nat.le_sub_one_of_lt hn⟩
  obtain ⟨lower, hlower, hlowerMem, hlowerLe, hlowerMax⟩ := exists_findLowerBound hlow
  have hupper : Nearest (maxQuery.val ≤ ·) (· ≤ ·) (points keccak zero attestations checkpoints)
      (findUpperBound keccak zero maxQuery.val attestations (some checkpoints)) :=
    findUpperBound_nearest maxQuery.val
  rcases hfound : findUpperBound keccak zero maxQuery.val attestations (some checkpoints) with
    _ | upper
  · rw [hfound] at hupper
    obtain ⟨n, d, hd, hn⟩ := habove
    obtain ⟨p, hp, rfl, -⟩ := (hmem n d).2 hd
    exact absurd hn (hupper p hp)
  rw [hfound] at hupper
  obtain ⟨hupperMem, hupperLe, hupperMin⟩ := hupper
  refine ⟨lower, upper, ?_, hstored _ hlowerMem, ?_, ?_, hstored _ hupperMem, hupperLe, ?_⟩
  · simp only [findBounds, hread, ensure, if_pos hne, findAttestationBounds, hcps, Except.toOption,
      hlower, hfound, Except.mapError, bind, Except.bind, pure, Except.pure]
  · obtain ⟨n, -, -, hn⟩ := hbelow
    show lower.blockNumber.val < minQuery.val
    omega
  · intro n d hd hn
    obtain ⟨p, hp, rfl, -⟩ := (hmem n d).2 hd
    exact hlowerMax p hp (Nat.le_sub_one_of_lt hn)
  · intro n d hd hn
    obtain ⟨p, hp, rfl, -⟩ := (hmem n d).2 hd
    exact hupperMin p hp hn

end Record

/-! ## The prover -/

section Prover

variable [DecidableEq H] {P : ProverConfig H A B} {s : State H A B} {k : ChainKey}
  {c : AttestedRoots H} {minQuery maxQuery : U64} {heights : List U64}

/-- The transaction is proved to be in the attested block. -/
structure Included (P : ProverConfig H A B) (c : AttestedRoots H) (q : Query H) : Prop where
  ne_nil : q.encodedTransaction ≠ []
  transaction_le : q.encodedTransaction.length ≤ constU10MB
  root_eq : q.merkleProof.root = c.root q.height.val
  verifies : q.merkleProof.verify P.hashing q.encodedTransaction = true
  length_le : q.merkleProof.siblings.length ≤ 64

/-- The prover accepts the continuity proof for all of the heights, and with it every batch of
transactions of the attested blocks that is not too long. -/
structure Accepted (P : ProverConfig H A B) (s : State H A B) (k : ChainKey)
    (c : AttestedRoots H) (minQuery : U64) (heights : List U64) (p : ContinuityProof H) : Prop where
  continuity : ∀ q ∈ heights, Accepts (verifyContinuityChain P s p minQuery.val k q.val) () []
  batch : ∀ queries : List (Query H), queries.map Query.height = heights →
    queries.length ≤ maxBatchSize → (∀ q ∈ queries, Included P c q) → ∀ emitEvents,
      Accepts (verifyBatchCall P s emitEvents k heights (queries.map Query.encodedTransaction)
        (queries.map Query.merkleProof) p) true (batchEvents emitEvents k queries)

omit [DecidableEq H] in
theorem minHeight_eq {queries : List (Query H)} (h : queries.map Query.height = heights)
    (hmin : heights.min? = some minQuery) : minHeight queries = minQuery.val := by
  have hmem : minQuery ∈ queries.map Query.height := h ▸ List.min?_mem hmin
  obtain ⟨q, hq, rfl⟩ := List.mem_map.1 hmem
  obtain ⟨q', hq', heq⟩ := exists_minHeight (List.ne_nil_of_mem hq)
  have hle : q.height ≤ q'.height :=
    (List.le_min?_iff hmin).1 le_rfl _ (h ▸ List.mem_map_of_mem hq')
  exact le_antisymm (minHeight_le hq) (heq ▸ hle)

omit [DecidableEq H] in
theorem maxHeight_eq {queries : List (Query H)} (h : queries.map Query.height = heights)
    (hmax : heights.max? = some maxQuery) : maxHeight queries = maxQuery.val := by
  have hmem : maxQuery ∈ queries.map Query.height := h ▸ List.max?_mem hmax
  obtain ⟨q, hq, rfl⟩ := List.mem_map.1 hmem
  obtain ⟨q', hq', heq⟩ := exists_maxHeight (List.ne_nil_of_mem hq)
  have hle : q'.height ≤ q.height :=
    (List.max?_le_iff hmax).1 le_rfl _ (h ▸ List.mem_map_of_mem hq')
  exact le_antisymm (heq ▸ hle) (le_maxHeight hq)

theorem continuityValid_iff {t u q : ℕ} (hu : u < 2 ^ 64) (hfirst : c.first < t) (htq : t ≤ q)
    (hqu : q ≤ u) :
    ContinuityValid P s k (c.proof P.keccak t u) t q ↔
      u < t + 50000 ∧ Anchored P s k u (c.digest P.keccak u) := by
  have hlen := c.length_proof P.keccak t u
  have hfinal : t + ((c.proof P.keccak t u).roots.length - 1) = u := by omega
  have hdigest : (c.proof P.keccak t u).computeContinuityDigest P.keccak t =
      c.digest P.keccak u := AttestedRoots.computeContinuityDigest_proof hfirst (htq.trans hqu)
  constructor
  · intro h
    have hle := h.length_le
    have hanchored := h.anchored
    rw [hlen, maxContinuityRoots] at hle
    rw [hfinal, hdigest] at hanchored
    exact ⟨by omega, hanchored⟩
  · rintro ⟨hlt, hanchored⟩
    refine ⟨List.ne_nil_of_length_pos (by omega), ?_, ?_, by omega, ?_⟩
    · rw [hlen, maxContinuityRoots]
      omega
    · rw [hfinal, u64Max]
      omega
    · rw [hfinal, hdigest]
      exact hanchored

theorem queryValid_proof {t u : ℕ} (hu : u < 2 ^ 64) (hlt : u < t + 50000) {q : Query H}
    (htq : t ≤ q.height.val) (hqu : q.height.val ≤ u) (hq : Included P c q) :
    QueryValid P t q.height q.encodedTransaction q.merkleProof (c.proof P.keccak t u) := by
  have hlen := c.length_proof P.keccak t u
  refine ⟨hq.ne_nil, ?_, hq.verifies, q.height.val - t, ?_, ?_⟩
  · have := hq.length_le
    simp only [continuityBlockHashCost, u64Max]
    omega
  · rw [ContinuityProof.findQueryBlockIndex_eq_some (by omega)
      (by rw [hlen, maxContinuityRoots]; omega), hlen, u64Max]
    omega
  · rw [AttestedRoots.proof, AttestedRoots.rootsFrom, List.getElem?_map,
      List.getElem?_range' (by omega), Option.map_some, one_mul, Nat.add_sub_cancel' htq,
      hq.root_eq]

theorem accepted_iff {u : ℕ} (hu : u < 2 ^ 64) (hfirst : c.first < minQuery.val)
    (hmin : heights.min? = some minQuery) (hmax : heights.max? = some maxQuery)
    (hle : maxQuery.val ≤ u) :
    Accepted P s k c minQuery heights (c.proof P.keccak minQuery.val u) ↔
      u < minQuery.val + 50000 ∧ Anchored P s k u (c.digest P.keccak u) := by
  have hrange : ∀ q ∈ heights, minQuery.val ≤ q.val ∧ q.val ≤ maxQuery.val := fun q hq =>
    ⟨(List.le_min?_iff hmin).1 le_rfl q hq, (List.max?_le_iff hmax).1 le_rfl q hq⟩
  have hvalid : ∀ q ∈ heights,
      (ContinuityValid P s k (c.proof P.keccak minQuery.val u) minQuery.val q.val ↔
        u < minQuery.val + 50000 ∧ Anchored P s k u (c.digest P.keccak u)) := fun q hq =>
    continuityValid_iff hu hfirst (hrange q hq).1 ((hrange q hq).2.trans hle)
  constructor
  · intro h
    have hmem := List.min?_mem hmin
    exact (hvalid _ hmem).1
      ((verifyContinuityChain_yields P s k _ _ _).accepts_iff.1 (h.continuity _ hmem)).1
  · intro h
    constructor
    · exact fun q hq =>
        (verifyContinuityChain_yields P s k _ _ _).accepts_iff.2 ⟨(hvalid q hq).2 h, rfl⟩
    · rintro queries rfl hlen hqueries emitEvents
      have hne : queries ≠ [] := by
        rintro rfl
        cases hmin
      obtain ⟨cost, hyields⟩ := verifyBatchCall_yields P s k hne _ emitEvents
      refine hyields.accepts_iff.2
        ⟨⟨⟨hlen, fun q hq => (hqueries q hq).transaction_le⟩, ?_, ?_, ?_⟩, rfl⟩
      · rw [minHeight_eq rfl hmin, maxHeight_eq rfl hmax]
        exact (hvalid _ (List.max?_mem hmax)).2 h
      · intro q hq
        obtain ⟨htq, hqu⟩ := hrange _ (List.mem_map_of_mem hq)
        rw [minHeight_eq rfl hmin]
        exact queryValid_proof hu h.1 htq (hqu.trans hle) (hqueries q hq)
      · exact fun q hq _ => (hqueries q hq).length_le

theorem stored_of_anchored {n : ℕ} {d : H} (h : Anchored P s k n d) :
    Stored (s.chain P.toConfig k).anchors n d := by
  rcases h with ⟨att, hget, hn⟩ | hcp
  · exact .inl ⟨att, (get_eq_some.1 hget).2, hn⟩
  · unfold supportedCheckpoint at hcp
    split at hcp
    · exact .inr (checkpointIfStable_eq_some.1 hcp).1
    · cases hcp

/-- **The proof between the closest points.** For heights of a source chain that points on record
enclose, the closest points are found and the prover accepts the proof between them, for all of the
heights, exactly if attestations are not being cleared, some attestation is stored, and the closest
point at or above the heights is less than 50000 blocks above the lowest of them and is known to the
prover. -/
theorem bounds_provable_iff [DecidableEq A] (hreach : Reachable P.toConfig s)
    (hsup : s.isChainSupported k = true)
    (hrec : c.Records P.keccak (s.chain P.toConfig k).anchors) {provider : EthRpcProvider H}
    (hprovider : c.Supplies P.keccak provider) (interval : Except String (Option U64))
    (currentBlock : Option U64) (zero : H) (hmin : heights.min? = some minQuery)
    (hmax : heights.max? = some maxQuery)
    (hbelow : ∃ n d, Stored (s.chain P.toConfig k).anchors n d ∧ n < minQuery.val)
    (habove : ∃ n d, Stored (s.chain P.toConfig k).anchors n d ∧ maxQuery.val ≤ n) :
    (∃ lower upper proof p,
      findBounds P.keccak zero k (chainProvider k (s.chain P.toConfig k).anchors interval)
        minQuery maxQuery currentBlock = .ok (lower, upper) ∧
      Closest (s.chain P.toConfig k).anchors minQuery maxQuery lower upper ∧
      buildForHeights provider heights lower upper = .ok proof ∧
      proof.blocks.head?.map (·.blockNumber) = some minQuery.val ∧
      proof.toAttestorProof = some p ∧
      Accepted P s k c minQuery heights p) ↔
    (s.chain P.toConfig k).anchors.attestationsStable = true ∧
      (∃ d att, (s.chain P.toConfig k).anchors.attestations.lookup d = some att) ∧
      ∃ u, IsLeast {n | (∃ d, Stored (s.chain P.toConfig k).anchors n d) ∧ maxQuery.val ≤ n} u ∧
        u < minQuery.val + 50000 ∧ AnchoredAt P s k u := by
  set a := (s.chain P.toConfig k).anchors with ha
  have hkeyed : ∀ d att, a.attestations.lookup d = some att → att.digest P.keccak = d :=
    fun d att hd => ((tracked_of_live hreach (.inl hsup)).keyed d att hd).1
  have hlt : ∀ n, (a.checkpoints.lookup n).isSome = true → n < 2 ^ 64 :=
    (wellFormed_of_live hreach (.inl hsup)).marked.indexed.height_lt
  -- Between the closest points the attested blocks are built.
  have hbuild : ∀ lower upper, Closest a minQuery maxQuery lower upper →
      c.first < minQuery.val ∧ minQuery.val ≤ upper.blockNumber.val ∧
        buildForHeights provider heights lower upper =
          .ok ⟨c.blocks P.keccak minQuery.val upper.blockNumber.val,
            some (c.digest P.keccak (minQuery.val - 1))⟩ := by
    intro lower upper h
    obtain ⟨hfirst, hdigest⟩ := hrec _ _ h.lower_stored
    have hle : minQuery ≤ upper.blockNumber :=
      ((List.le_min?_iff hmin).1 le_rfl _ (List.max?_mem hmax)).trans h.le_upper
    exact ⟨hfirst.trans_lt h.lower_lt, hle,
      buildForHeights_eq hprovider hfirst hdigest.symm hmin hmax h.lower_lt h.le_upper⟩
  constructor
  · rintro ⟨lower, upper, proof, p, hfind, hclosest, hbuilt, -, hproof, haccepted⟩
    obtain ⟨hfirst, hle, heq⟩ := hbuild lower upper hclosest
    cases hbuilt.symm.trans heq
    cases hproof.symm.trans (toAttestorProof_blocks hle)
    obtain ⟨hnear, hanchored⟩ :=
      (accepted_iff upper.blockNumber.isLt hfirst hmin hmax hclosest.le_upper).1 haccepted
    obtain ⟨hstable, hatt⟩ := findBounds_eq_ok hfind
    refine ⟨hstable, hatt, upper.blockNumber.val,
      ⟨⟨⟨_, hclosest.upper_stored⟩, hclosest.le_upper⟩, ?_⟩, hnear, _, hanchored⟩
    rintro n ⟨⟨d, hd⟩, hn⟩
    exact hclosest.upper_le n d hd hn
  · rintro ⟨hstable, hatt, u, hleast, hnear, d, hanchored⟩
    obtain ⟨lower, upper, hfind, hclosest⟩ :=
      exists_findBounds (k := k) hkeyed hlt hbelow habove hstable hatt currentBlock
    obtain ⟨hfirst, hle, heq⟩ := hbuild lower upper hclosest
    obtain rfl : upper.blockNumber.val = u := by
      obtain ⟨⟨e, he⟩, hu⟩ := hleast.1
      exact le_antisymm (hclosest.upper_le u e he hu)
        (hleast.2 ⟨⟨_, hclosest.upper_stored⟩, hclosest.le_upper⟩)
    obtain rfl : c.digest P.keccak upper.blockNumber.val = d :=
      (hrec _ _ (stored_of_anchored hanchored)).2
    refine ⟨lower, upper, _, _, hfind, hclosest, heq, ?_, toAttestorProof_blocks hle,
      (accepted_iff upper.blockNumber.isLt hfirst hmin hmax hclosest.le_upper).2
        ⟨hnear, hanchored⟩⟩
    rw [AttestedRoots.head?_blocks hle]
    rfl

end Prover

/-! ## A network with two checkpoints -/

namespace Enclosed

open Devnet (H256 hashing proverConfig clearUpTo reachable_genesisRun)

/-- The attested roots above block 1. -/
def roots : AttestedRoots H256 := ⟨1, hashing.zero, fun _ => hashing.zero⟩

def provider : EthRpcProvider H256 := fun d start stop =>
  .ok (ProofServer.blocksFrom proverConfig.keccak start d
    (roots.rootsFrom start (stop + 1 - start)))

/-- One source chain with checkpoints at the blocks 1 and 3. -/
def genesisConfig : GenesisConfig H256 ℕ Unit where
  supportedChains := [(1, [], .v1, "EvmSafe")]
  invulnerables := []
  attestationChainConfigurations := [⟨1, 1, 10, 120,
    [.of 1 (roots.digest proverConfig.keccak 1), .of 3 (roots.digest proverConfig.keccak 3)]⟩]
  balances := ()

def checkpointed : State H256 ℕ Unit :=
  (genesis proverConfig.toConfig genesisConfig).getD (emptyState .empty ())

def host : Host H256 ℕ := ⟨.allRemoved, .allRemoved, .allRemoved, clearUpTo, clearUpTo⟩

/-- An attestor is elected and attests block 4. -/
def attesting : List (Action proverConfig.toConfig) :=
  [.call host (.signed 10) (.registerAttestor 1 1), .call host (.signed 1) (.attest 1 .zero .zero),
    .call host .root (.forceElection 1),
    .call host (.signed 1) (.commitAttestation
      { attestation := ⟨1, 4, hashing.zero, roots.root 4,
          some (roots.digest proverConfig.keccak 3), by decide⟩
        signature := .zero
        attestors := [1]
        continuityProof := ⟨roots.digest proverConfig.keccak 3, []⟩ })]

def attested : State H256 ℕ Unit := run proverConfig.toConfig checkpointed attesting

theorem reachable_checkpointed : Reachable proverConfig.toConfig checkpointed :=
  reachable_genesisRun (by rfl) []

/-- The points on record, as a list. -/
def rows (s : State H256 ℕ Unit) : List (ℕ × H256) :=
  ((s.chain proverConfig.toConfig 1).anchors.attestations.entries.map fun row =>
      (row.2.headerNumber, row.1)) ++
    (s.chain proverConfig.toConfig 1).anchors.checkpoints.entries.map fun row => (row.1, row.2)

theorem mem_rows {s : State H256 ℕ Unit} {n : ℕ} {d : H256} :
    (n, d) ∈ rows s ↔ Stored (s.chain proverConfig.toConfig 1).anchors n d := by
  simp only [rows, Stored, List.mem_append, List.mem_map, Prod.mk.injEq]
  refine or_congr ⟨?_, ?_⟩ ⟨?_, ?_⟩
  · rintro ⟨⟨_, att⟩, hrow, hn, rfl⟩
    exact ⟨att, AList.mem_lookup_iff.2 hrow, hn⟩
  · rintro ⟨att, hd, hn⟩
    exact ⟨⟨d, att⟩, AList.mem_lookup_iff.1 hd, hn, rfl⟩
  · rintro ⟨_, hrow, rfl, rfl⟩
    exact AList.mem_lookup_iff.2 hrow
  · intro hd
    exact ⟨⟨n, d⟩, AList.mem_lookup_iff.1 hd, rfl, rfl⟩

def point (n : ℕ) : ℕ × H256 := (n, roots.digest proverConfig.keccak n)

theorem rows_checkpointed : rows checkpointed = [point 3, point 1] := rfl

theorem rows_attested : rows attested = [point 4, point 3, point 1] := by decide +kernel

theorem records {s : State H256 ℕ Unit} {l : List ℕ} (hs : rows s = l.map point)
    (h : ∀ n ∈ l, 1 ≤ n) :
    roots.Records proverConfig.keccak (s.chain proverConfig.toConfig 1).anchors := by
  intro n d hd
  rw [← mem_rows, hs, List.mem_map] at hd
  obtain ⟨m, hm, heq⟩ := hd
  cases heq
  exact ⟨h _ hm, rfl⟩

/-- With an attestation above them, the blocks 3 and 2 are proved between the two checkpoints. -/
theorem enclosed_provable : ∃ lower upper proof p,
    findBounds proverConfig.keccak hashing.zero 1 (chainProvider 1
        (attested.chain proverConfig.toConfig 1).anchors (.ok none)) 2 3 none =
      .ok (lower, upper) ∧
    Closest (attested.chain proverConfig.toConfig 1).anchors 2 3 lower upper ∧
    buildForHeights provider [3, 2, 3] lower upper = .ok proof ∧
    proof.blocks.head?.map (·.blockNumber) = some 2 ∧
    proof.toAttestorProof = some p ∧
    Accepted proverConfig attested 1 roots 2 [3, 2, 3] p := by
  have hreach : Reachable proverConfig.toConfig attested := reachable_checkpointed.run attesting
  have hsup : attested.isChainSupported 1 = true := by decide +kernel
  obtain ⟨hstable, hpruning⟩ := commitBlockedByCleanup_eq_false.1 (show
    (attested.chain proverConfig.toConfig 1).anchors.commitBlockedByCleanup = false by
      decide +kernel)
  have hstored : ∀ n ∈ [4, 3, 1], Stored (attested.chain proverConfig.toConfig 1).anchors n
      (roots.digest proverConfig.keccak n) := fun n hn => by
    rw [← mem_rows, rows_attested]
    exact List.mem_map_of_mem hn
  have hleast : IsLeast {n | (∃ d, Stored (attested.chain proverConfig.toConfig 1).anchors n d) ∧
      (3 : U64).val ≤ n} 3 := by
    refine ⟨⟨⟨_, hstored 3 (by decide)⟩, by decide⟩, ?_⟩
    rintro n ⟨⟨d, hd⟩, hn⟩
    rw [← mem_rows, rows_attested] at hd
    simp only [point, List.mem_cons, Prod.mk.injEq, List.not_mem_nil, or_false] at hd
    have h3 : (3 : U64).val = 3 := rfl
    omega
  refine (bounds_provable_iff hreach hsup (records (l := [4, 3, 1]) rows_attested (by decide))
    (fun _ _ _ => rfl) (.ok none) none hashing.zero rfl rfl ⟨1, _, hstored 1 (by decide), by decide⟩
    ⟨3, _, hstored 3 (by decide), by decide⟩).2 ⟨hstable, ?_, 3, hleast, by decide, ?_⟩
  · have hsome : ((attested.chain proverConfig.toConfig 1).anchors.attestations.lookup
        (roots.digest proverConfig.keccak 4)).isSome = true := by decide +kernel
    exact ⟨roots.digest proverConfig.keccak 4, Option.isSome_iff_exists.1 hsome⟩
  · exact anchoredAt_of_checkpointed hsup hpruning (by decide +kernel)

/-- **Two checkpoints are not enough.** The checkpoints at the blocks 1 and 3 enclose block 2, but
no bounds are found as long as nothing is attested. -/
theorem exists_enclosed_not_found :
    Reachable proverConfig.toConfig checkpointed ∧ checkpointed.isChainSupported 1 = true ∧
      roots.Records proverConfig.keccak (checkpointed.chain proverConfig.toConfig 1).anchors ∧
      roots.Supplies proverConfig.keccak provider ∧
      (∀ n, n = 1 ∨ n = 3 → AnchoredAt proverConfig checkpointed 1 n) ∧
      ∀ interval currentBlock,
        findBounds proverConfig.keccak hashing.zero 1 (chainProvider 1
            (checkpointed.chain proverConfig.toConfig 1).anchors interval) 2 2 currentBlock =
          .error (.error (.noAttestations 1)) := by
  refine ⟨reachable_checkpointed, rfl,
    records (l := [3, 1]) rows_checkpointed (by decide), fun _ _ _ => rfl, ?_,
    fun _ _ => rfl⟩
  rintro n (rfl | rfl)
  · exact anchoredAt_of_checkpointed rfl rfl rfl
  · exact anchoredAt_of_checkpointed rfl rfl rfl

end Enclosed

end Creditcoin.Continuity
