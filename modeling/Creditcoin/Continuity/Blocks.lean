import Creditcoin.Continuity.Builder
import Creditcoin.ProofServer.Build

/-!
# Attested roots

A digest and the root of every attested block above it determine the digest of every block. A
provider that supplies the attested roots lets the builder return exactly the blocks from the lowest
height to the upper point (`buildForHeights_eq`). -/

namespace Creditcoin.Continuity

open Attestor (Block)
open ProofServer (blocksFrom)

variable {H : Type}

/-- The digest at the height `first`, and the roots of the blocks above. -/
structure AttestedRoots (H : Type) where
  first : ℕ
  firstDigest : H
  root : ℕ → H

namespace AttestedRoots

/-- The roots of `k` blocks from the height `t` on. -/
def rootsFrom (c : AttestedRoots H) (t k : ℕ) : List H := (List.range' t k).map c.root

variable (keccak : ℕ → H → Option H → H) (c : AttestedRoots H)

def digest (n : ℕ) : H :=
  HashChain.foldFrom (hashPayload keccak) (c.first + 1) c.firstDigest
    (c.rootsFrom (c.first + 1) (n - c.first))

/-- The block at a height above the first. -/
def block (n : ℕ) : Block H := ⟨n, c.root n, c.digest keccak (n - 1), c.digest keccak n⟩

/-- The blocks from the height `t` to the height `u`. -/
def blocks (t u : ℕ) : List (Block H) := (List.range' t (u + 1 - t)).map (c.block keccak)

/-- The continuity proof of these blocks. -/
def proof (t u : ℕ) : ContinuityProof H := ⟨c.digest keccak (t - 1), c.rootsFrom t (u + 1 - t)⟩

/-- The provider builds on the attested roots. -/
def Supplies (provider : EthRpcProvider H) : Prop :=
  ∀ d start stop, provider d start stop =
    .ok (blocksFrom keccak start d (c.rootsFrom start (stop + 1 - start)))

/-! ## Digests -/

variable {keccak c}

theorem rootsFrom_add (t k l : ℕ) :
    c.rootsFrom t (k + l) = c.rootsFrom t k ++ c.rootsFrom (t + k) l := by
  rw [rootsFrom, rootsFrom, rootsFrom, ← List.map_append]
  congr 1
  have := @List.range'_append t k l 1
  rw [one_mul] at this
  rw [this]

variable {n : ℕ}

theorem foldFrom_rootsFrom (hn : c.first ≤ n) (k : ℕ) :
    HashChain.foldFrom (hashPayload keccak) (n + 1) (c.digest keccak n) (c.rootsFrom (n + 1) k) =
      c.digest keccak (n + k) := by
  rw [digest, digest, show n + k - c.first = n - c.first + k by omega, rootsFrom_add,
    HashChain.foldFrom_append, rootsFrom, List.length_map, List.length_range',
    show c.first + 1 + (n - c.first) = n + 1 by omega]

theorem digest_succ (hn : c.first ≤ n) :
    c.digest keccak (n + 1) = hashPayload keccak (n + 1) (c.root (n + 1)) (c.digest keccak n) :=
  (foldFrom_rootsFrom hn 1).symm

variable {t u : ℕ}

theorem computeContinuityDigest_proof (hfirst : c.first < t) (hle : t ≤ u) :
    (c.proof keccak t u).computeContinuityDigest keccak t = c.digest keccak u := by
  obtain ⟨m, rfl⟩ : ∃ m, t = m + 1 := ⟨t - 1, by omega⟩
  rw [ContinuityProof.computeContinuityDigest, proof, Nat.add_sub_cancel,
    foldFrom_rootsFrom (by omega), show m + (u + 1 - (m + 1)) = u by omega]

/-! ## Blocks -/

theorem blocksFrom_rootsFrom (hn : c.first ≤ n) (k : ℕ) :
    blocksFrom keccak (n + 1) (c.digest keccak n) (c.rootsFrom (n + 1) k) =
      (List.range' (n + 1) k).map (c.block keccak) := by
  induction k generalizing n with
  | zero => rfl
  | succ k ih =>
    rw [rootsFrom, List.range'_succ, List.map_cons, List.map_cons, blocksFrom, ← digest_succ hn]
    refine congrArg₂ List.cons ?_ (ih (n := n + 1) (by omega))
    rw [Block.newFromPrevDigest, ← digest_succ hn]
    rfl

variable (keccak c) in
theorem length_proof (t u : ℕ) : (c.proof keccak t u).roots.length = u + 1 - t := by
  rw [proof, rootsFrom, List.length_map, List.length_range']

theorem blocks_append {m : ℕ} (htm : t ≤ m + 1) (hmu : m ≤ u) :
    c.blocks keccak t m ++ c.blocks keccak (m + 1) u = c.blocks keccak t u := by
  rw [blocks, blocks, blocks, ← List.map_append]
  have := @List.range'_append t (m + 1 - t) (u + 1 - (m + 1)) 1
  rw [one_mul, show t + (m + 1 - t) = m + 1 by omega,
    show m + 1 - t + (u + 1 - (m + 1)) = u + 1 - t by omega] at this
  rw [this]

theorem blocks_self (t : ℕ) : c.blocks keccak t t = [c.block keccak t] := by
  rw [blocks, show t + 1 - t = 1 by omega]
  rfl

theorem drop_blocks (t u i : ℕ) : (c.blocks keccak t u).drop i = c.blocks keccak (t + i) u := by
  rw [blocks, ← List.map_drop, List.drop_range', blocks, mul_one,
    show u + 1 - t - i = u + 1 - (t + i) by omega]

theorem getLast?_blocks (h : t ≤ u) : (c.blocks keccak t u).getLast? = some (c.block keccak u) := by
  rcases Nat.eq_or_lt_of_le h with rfl | hlt
  · rw [blocks_self]
    rfl
  · obtain ⟨m, rfl⟩ : ∃ m, u = m + 1 := ⟨u - 1, by omega⟩
    rw [← blocks_append (m := m) (by omega) (by omega), blocks_self]
    exact List.getLast?_concat

theorem head?_blocks (h : t ≤ u) : (c.blocks keccak t u).head? = some (c.block keccak t) := by
  rw [← blocks_append (m := t) (by omega) h, blocks_self]
  rfl

theorem findIdx?_blocks {q : ℕ} (htq : t ≤ q) (hqu : q ≤ u) :
    (c.blocks keccak t u).findIdx? (fun b => b.blockNumber = q) = some (q - t) := by
  have hsplit : c.blocks keccak t u =
      (List.range' t (q - t)).map (c.block keccak) ++ c.blocks keccak q u := by
    rw [blocks, blocks, ← List.map_append]
    have := @List.range'_append t (q - t) (u + 1 - q) 1
    rw [one_mul, show t + (q - t) = q by omega,
      show q - t + (u + 1 - q) = u + 1 - t by omega] at this
    rw [this]
  have hbelow : ((List.range' t (q - t)).map (c.block keccak)).findIdx?
      (fun b => b.blockNumber = q) = none := by
    rw [List.findIdx?_eq_none_iff]
    intro b hb
    obtain ⟨n, hn, rfl⟩ := List.mem_map.1 hb
    rw [List.mem_range'_1] at hn
    have hne : n ≠ q := by omega
    simp [block, hne]
  obtain ⟨rest, hrest⟩ : ∃ rest, c.blocks keccak q u = c.block keccak q :: rest :=
    List.head?_eq_some_iff.1 (head?_blocks hqu)
  rw [hsplit, List.findIdx?_append, hbelow, Option.none_or, hrest, List.findIdx?_cons,
    if_pos (by simp [block]), Option.map_some, List.length_map, List.length_range', Nat.zero_add]

end AttestedRoots

/-! ## The builder -/

section Build

variable {keccak : ℕ → H → Option H → H} {c : AttestedRoots H} {provider : EthRpcProvider H}
  {lower upper : AttestationWithProof H} {minQuery : U64}

theorem buildAndTrimContinuity_eq (hprovider : c.Supplies keccak provider)
    (hfirst : c.first ≤ lower.blockNumber.val)
    (hdigest : lower.digest = c.digest keccak lower.blockNumber.val)
    (hlower : lower.blockNumber < minQuery) (hupper : minQuery ≤ upper.blockNumber) :
    buildAndTrimContinuity provider lower upper minQuery =
      .ok (c.blocks keccak minQuery.val upper.blockNumber.val) := by
  have hlt : lower.blockNumber.val < minQuery.val := hlower
  have hle : minQuery.val ≤ upper.blockNumber.val := hupper
  have hbound := minQuery.isLt
  have hmod : (lower.blockNumber.val + 1) % 2 ^ 64 = lower.blockNumber.val + 1 :=
    Nat.mod_eq_of_lt (by omega)
  have hblocks : provider lower.digest (lower.blockNumber.val + 1) upper.blockNumber.val =
      .ok (c.blocks keccak (lower.blockNumber.val + 1) upper.blockNumber.val) := by
    rw [hprovider, hdigest, AttestedRoots.blocksFrom_rootsFrom hfirst]
    rfl
  have hidx : (c.blocks keccak (lower.blockNumber.val + 1) upper.blockNumber.val).findIdx?
      (fun b => b.blockNumber = minQuery.val) =
        some (minQuery.val - (lower.blockNumber.val + 1)) :=
    AttestedRoots.findIdx?_blocks hlt hle
  have hdrop : (c.blocks keccak (lower.blockNumber.val + 1) upper.blockNumber.val).drop
      (minQuery.val - (lower.blockNumber.val + 1)) =
        c.blocks keccak minQuery.val upper.blockNumber.val := by
    rw [AttestedRoots.drop_blocks, Nat.add_sub_cancel' hlt]
  unfold buildAndTrimContinuity
  simp only [hmod, hblocks, hidx, hdrop, AttestedRoots.getLast?_blocks hle, ensure, okOr,
    Except.mapError, AttestedRoots.block, bind, Except.bind, pure, Except.pure,
    if_pos (show lower.blockNumber.val + 1 ≤ upper.blockNumber.val by omega), if_true]

theorem buildFromSourceChain_eq (hprovider : c.Supplies keccak provider)
    (hfirst : c.first ≤ lower.blockNumber.val)
    (hdigest : lower.digest = c.digest keccak lower.blockNumber.val)
    (hlower : lower.blockNumber < minQuery) (hupper : minQuery ≤ upper.blockNumber) :
    buildFromSourceChain provider lower upper minQuery =
      .ok (c.blocks keccak minQuery.val upper.blockNumber.val,
        some (c.digest keccak (minQuery.val - 1))) := by
  rw [buildFromSourceChain, buildAndTrimContinuity_eq hprovider hfirst hdigest hlower hupper]
  simp only [Except.mapError, bind, Except.bind, pure, Except.pure,
    AttestedRoots.head?_blocks (show minQuery.val ≤ upper.blockNumber.val from hupper),
    Option.map_some, AttestedRoots.block]

theorem buildForHeights_eq {heights : List U64} {maxQuery : U64}
    (hprovider : c.Supplies keccak provider) (hfirst : c.first ≤ lower.blockNumber.val)
    (hdigest : lower.digest = c.digest keccak lower.blockNumber.val)
    (hmin : heights.min? = some minQuery) (hmax : heights.max? = some maxQuery)
    (hlower : lower.blockNumber < minQuery) (hupper : maxQuery ≤ upper.blockNumber) :
    buildForHeights provider heights lower upper =
      .ok ⟨c.blocks keccak minQuery.val upper.blockNumber.val,
        some (c.digest keccak (minQuery.val - 1))⟩ := by
  have hle : minQuery ≤ maxQuery := (List.le_min?_iff hmin).1 le_rfl _ (List.max?_mem hmax)
  rw [buildForHeights, hmin, hmax]
  simp only [okOr, ensure, hlower, hupper, and_self, if_true, bind, Except.bind, pure, Except.pure,
    buildFromSourceChain_eq hprovider hfirst hdigest hlower (hle.trans hupper)]

theorem toAttestorProof_blocks {t u : ℕ} (hle : t ≤ u) :
    BuiltContinuityProof.toAttestorProof ⟨c.blocks keccak t u, some (c.digest keccak (t - 1))⟩ =
      some (c.proof keccak t u) := by
  obtain ⟨rest, hrest⟩ : ∃ rest, c.blocks keccak t u = c.block keccak t :: rest :=
    List.head?_eq_some_iff.1 (AttestedRoots.head?_blocks hle)
  rw [BuiltContinuityProof.toAttestorProof, hrest]
  simp only [Option.getD_some]
  rw [← hrest, AttestedRoots.blocks, List.map_map]
  rfl

end Build

end Creditcoin.Continuity
