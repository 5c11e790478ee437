import Mathlib.Tactic

/-!
# Padded Merkle trees

A tree is built level by level. Adjacent nodes are joined by `node`, the last node of a level of odd
length is joined with the padding `pad`. A path lists the siblings from a leaf to the root, each
with its side: `climb` recomputes the root, and `index` reads the position off the sides. The path
of a leaf climbs to the root and spells its position (`root_eq_climb_path`, `index_path`).
Conversely a path of any origin that climbs to the root starts at the leaf it spells (`binding`), if
`node` has no collisions, and avoids leaves and padding, on the pairs that the tree and the path
join. -/

namespace Creditcoin

namespace Merkle

variable {H : Type}

/-! ## Trees -/

/-- The adjacent pairs of a level. A node that is left over is paired with `pad`. -/
def pairs (pad : H) : List H → List (H × H)
  | [] => []
  | [x] => [(x, pad)]
  | x :: y :: level => (x, y) :: pairs pad level

section Trees

variable (node : H → H → H) (pad : H)

def nextLevel (level : List H) : List H := (pairs pad level).map fun p => node p.1 p.2

/-- The levels from `level` up to the root, at most `fuel` of them. -/
def levelsFrom : ℕ → List H → List (List H)
  | 0, _ => []
  | fuel + 1, level =>
    if level.isEmpty then []
    else level :: levelsFrom fuel (if 1 < level.length then nextLevel node pad level else [])

/-- All levels of the tree over the given leaves. Every level but the last is longer than the next
one, so there are at most as many levels as leaves. -/
def levels (leaves : List H) : List (List H) := levelsFrom node pad leaves.length leaves

/-- The root, unless there are no leaves. -/
def root (leaves : List H) : Option H := (levels node pad leaves).getLast?.bind List.head?

/-- The pairs joined in building the tree. -/
def treePairs (leaves : List H) : List (H × H) :=
  (levels node pad leaves).dropLast.flatMap (pairs pad)

end Trees

/-! ## Paths -/

/-- A node on the way to the root that is joined from the left or from the right. -/
structure Sibling (H : Type) where
  hash : H
  isLeft : Bool
  deriving DecidableEq

/-- The sibling of the node at an index of a level. -/
def siblingOf (pad : H) (level : List H) (i : ℕ) : Sibling H :=
  let siblingOffset := 1 - i % 2
  ⟨(level[i + 2 * siblingOffset - 1]?).getD pad, siblingOffset == 0⟩

/-- The siblings met when climbing through the given levels from an index of the first. -/
def pathThrough (pad : H) : List (List H) → ℕ → List (Sibling H)
  | [], _ => []
  | level :: levels, i => siblingOf pad level i :: pathThrough pad levels (i / 2)

/-- The path of a leaf. The root level has no sibling. -/
def path (node : H → H → H) (pad : H) (leaves : List H) (i : ℕ) : List (Sibling H) :=
  pathThrough pad (levels node pad leaves).dropLast i

/-- A node and its sibling in their order. -/
def join (x : H) (e : Sibling H) : H × H := if e.isLeft then (e.hash, x) else (x, e.hash)

/-- The node reached from `x` along a path. -/
def climb (node : H → H → H) (x : H) : List (Sibling H) → H
  | [] => x
  | e :: es => climb node (node (join x e).1 (join x e).2) es

/-- The pairs joined on the way. -/
def climbPairs (node : H → H → H) (x : H) : List (Sibling H) → List (H × H)
  | [] => []
  | e :: es => join x e :: climbPairs node (node (join x e).1 (join x e).2) es

/-- The position spelled by the sides, the lowest bit first. -/
def index : List (Sibling H) → ℕ
  | [] => 0
  | e :: es => e.isLeft.toNat + 2 * index es

/-! ## Pairs and levels -/

theorem getElem?_pairs (pad : H) (level : List H) (i : ℕ) :
    (pairs pad level)[i]? = level[2 * i]?.map fun x => (x, (level[2 * i + 1]?).getD pad) := by
  fun_induction pairs pad level generalizing i with
  | case1 => simp
  | case2 x => cases i <;> simp [Nat.mul_succ]
  | case3 x y level ih =>
    cases i with
    | zero => simp
    | succ i => simpa [Nat.mul_succ] using ih i

theorem length_pairs (pad : H) (level : List H) :
    (pairs pad level).length = (level.length + 1) / 2 := by
  fun_induction pairs pad level with
  | case1 => simp
  | case2 x => simp
  | case3 x y level ih =>
    simp only [List.length_cons, ih]
    omega

section Levels

variable {node : H → H → H} {pad : H} {leaves : List H}

theorem length_nextLevel (node : H → H → H) (pad : H) (level : List H) :
    (nextLevel node pad level).length = (level.length + 1) / 2 := by
  rw [nextLevel, List.length_map, length_pairs]

theorem levelsFrom_eq {level : List H} {m n : ℕ} (hm : level.length ≤ m) (hn : level.length ≤ n) :
    levelsFrom node pad m level = levelsFrom node pad n level := by
  induction m generalizing n level with
  | zero =>
    obtain rfl := List.length_eq_zero_iff.1 (Nat.le_zero.1 hm)
    cases n <;> rfl
  | succ m ih =>
    cases n with
    | zero =>
      obtain rfl := List.length_eq_zero_iff.1 (Nat.le_zero.1 hn)
      rfl
    | succ n =>
      simp only [levelsFrom]
      congr 2
      by_cases h : 1 < level.length
      · rw [if_pos h]
        have hlen := length_nextLevel node pad level
        exact ih (by omega) (by omega)
      · rw [if_neg h]
        exact ih (Nat.zero_le _) (Nat.zero_le _)

@[simp] theorem levels_nil : levels node pad [] = [] := rfl

@[simp] theorem levels_singleton (x : H) : levels node pad [x] = [[x]] := rfl

theorem levels_of_one_lt (h : 1 < leaves.length) :
    levels node pad leaves = leaves :: levels node pad (nextLevel node pad leaves) := by
  obtain ⟨n, hn⟩ : ∃ n, leaves.length = n + 1 := ⟨leaves.length - 1, by omega⟩
  have hempty : ¬ leaves.isEmpty := fun he => by simp [List.isEmpty_iff.1 he] at h
  have hlen := length_nextLevel node pad leaves
  rw [levels, hn, levelsFrom, if_neg hempty, if_pos h, levels]
  exact congrArg _ (levelsFrom_eq (by omega) le_rfl)

theorem levels_induction (node : H → H → H) (pad : H) {motive : List H → Prop}
    (nil : motive []) (singleton : ∀ x, motive [x])
    (step : ∀ leaves, 1 < leaves.length → motive (nextLevel node pad leaves) → motive leaves)
    (leaves : List H) : motive leaves := by
  induction hn : leaves.length using Nat.strong_induction_on generalizing leaves with
  | _ n ih =>
    match leaves, hn with
    | [], _ => exact nil
    | [x], _ => exact singleton x
    | x :: y :: rest, hn =>
      refine step _ (by simp) (ih _ ?_ _ rfl)
      rw [length_nextLevel, ← hn, List.length_cons, List.length_cons]
      omega

theorem levels_ne_nil (h : leaves ≠ []) : levels node pad leaves ≠ [] := by
  match leaves, h with
  | [x], _ => simp
  | x :: y :: rest, _ =>
    have hlt : 1 < (x :: y :: rest).length := by simp
    rw [levels_of_one_lt hlt]
    exact List.cons_ne_nil _ _

theorem nextLevel_ne_nil (h : 1 < leaves.length) : nextLevel node pad leaves ≠ [] := by
  intro hnil
  have hlen := length_nextLevel node pad leaves
  rw [hnil, List.length_nil] at hlen
  omega

theorem levels_dropLast_of_one_lt (h : 1 < leaves.length) :
    (levels node pad leaves).dropLast =
      leaves :: (levels node pad (nextLevel node pad leaves)).dropLast := by
  rw [levels_of_one_lt h, List.dropLast_cons_of_ne_nil (levels_ne_nil (nextLevel_ne_nil h))]

theorem length_levels_le {k : ℕ} (h : leaves.length ≤ 2 ^ k) :
    (levels node pad leaves).length ≤ k + 1 := by
  induction leaves using levels_induction node pad generalizing k with
  | nil | singleton _ => simp
  | step leaves hlt ih =>
    cases k with
    | zero => omega
    | succ k =>
      rw [levels_of_one_lt hlt, List.length_cons]
      refine Nat.succ_le_succ (ih ?_)
      rw [length_nextLevel]
      omega

@[simp] theorem root_nil : root node pad [] = none := rfl

@[simp] theorem root_singleton (x : H) : root node pad [x] = some x := rfl

theorem root_of_one_lt (h : 1 < leaves.length) :
    root node pad leaves = root node pad (nextLevel node pad leaves) := by
  rw [root, levels_of_one_lt h, root]
  cases hl : levels node pad (nextLevel node pad leaves) with
  | nil => exact absurd hl (levels_ne_nil (nextLevel_ne_nil h))
  | cons l ls => rw [List.getLast?_cons_cons]

/-! ## The path of a leaf -/

@[simp] theorem path_singleton (x : H) (i : ℕ) : path node pad [x] i = [] := rfl

theorem path_of_one_lt (h : 1 < leaves.length) (i : ℕ) :
    path node pad leaves i =
      siblingOf pad leaves i :: path node pad (nextLevel node pad leaves) (i / 2) := by
  rw [path, levels_dropLast_of_one_lt h, pathThrough, path]

theorem getElem?_pairs_div {x : H} {i : ℕ} (hx : leaves[i]? = some x) :
    (pairs pad leaves)[i / 2]? = some (join x (siblingOf pad leaves i)) := by
  rw [getElem?_pairs]
  rcases Nat.mod_two_eq_zero_or_one i with hi | hi
  · have heven : 2 * (i / 2) = i := by omega
    simp [heven, hx, join, siblingOf, hi]
  · have hodd : 2 * (i / 2) = i - 1 := by omega
    have hlt : i - 1 < leaves.length := by
      have := (List.getElem?_eq_some_iff.1 hx).1
      omega
    simp [hodd, show i - 1 + 1 = i by omega, hx, join, siblingOf, hi, List.getElem?_eq_getElem hlt]

theorem getElem?_nextLevel_div {x : H} {i : ℕ} (hx : leaves[i]? = some x) :
    (nextLevel node pad leaves)[i / 2]? = some
      (node (join x (siblingOf pad leaves i)).1 (join x (siblingOf pad leaves i)).2) := by
  rw [nextLevel, List.getElem?_map, getElem?_pairs_div hx, Option.map_some]

/-- **Completeness.** The path of a leaf climbs to the root. -/
theorem root_eq_climb_path {x : H} {i : ℕ} (hx : leaves[i]? = some x) :
    root node pad leaves = some (climb node x (path node pad leaves i)) := by
  induction leaves using levels_induction node pad generalizing x i with
  | nil => simp at hx
  | singleton y =>
    have hi : i = 0 := by
      have := (List.getElem?_eq_some_iff.1 hx).1
      simpa using this
    simpa [hi, climb] using hx
  | step leaves hlt ih =>
    rw [root_of_one_lt hlt, path_of_one_lt hlt, climb]
    exact ih (getElem?_nextLevel_div hx)

theorem index_path {i : ℕ} (hi : i < leaves.length) : index (path node pad leaves i) = i := by
  induction leaves using levels_induction node pad generalizing i with
  | nil => simp at hi
  | singleton x =>
    rw [List.length_singleton] at hi
    simp [index, Nat.lt_one_iff.1 hi]
  | step leaves hlt ih =>
    have hnext : i / 2 < (nextLevel node pad leaves).length := by
      rw [length_nextLevel]
      omega
    rw [path_of_one_lt hlt, index, ih hnext]
    rcases Nat.mod_two_eq_zero_or_one i with h | h <;> simp [siblingOf, h] <;> omega

theorem length_pathThrough (levels : List (List H)) (i : ℕ) :
    (pathThrough pad levels i).length = levels.length := by
  induction levels generalizing i with
  | nil => rfl
  | cons level levels ih => rw [pathThrough, List.length_cons, ih, List.length_cons]

theorem length_path (i : ℕ) :
    (path node pad leaves i).length = (levels node pad leaves).length - 1 := by
  rw [path, length_pathThrough, List.length_dropLast]

end Levels

/-! ## Climbing from below -/

section Climb

variable {node : H → H → H} {x : H}

theorem climb_append (es : List (Sibling H)) (e : Sibling H) :
    climb node x (es ++ [e]) =
      node (join (climb node x es) e).1 (join (climb node x es) e).2 := by
  induction es generalizing x with
  | nil => rfl
  | cons e' es ih => exact ih

theorem climbPairs_append (es : List (Sibling H)) (e : Sibling H) :
    climbPairs node x (es ++ [e]) = climbPairs node x es ++ [join (climb node x es) e] := by
  induction es generalizing x with
  | nil => rfl
  | cons e' es ih => exact congrArg _ ih

theorem index_append (es : List (Sibling H)) (e : Sibling H) :
    index (es ++ [e]) = index es + 2 ^ es.length * e.isLeft.toNat := by
  induction es with
  | nil => simp [index]
  | cons e' es ih =>
    rw [List.cons_append, index, ih, index, List.length_cons, pow_succ]
    ring

theorem climb_eq_or_mem (node : H → H → H) (x : H) (es : List (Sibling H)) :
    climb node x es = x ∨ ∃ q ∈ climbPairs node x es, climb node x es = node q.1 q.2 := by
  induction es using List.reverseRecOn with
  | nil => exact .inl rfl
  | append_singleton es e _ =>
    right
    refine ⟨join (climb node x es) e, ?_, climb_append es e⟩
    rw [climbPairs_append]
    exact List.mem_append_right _ (List.mem_singleton_self _)

end Climb

/-! ## Binding -/

section Binding

variable {node : H → H → H} {pad : H} {leaves : List H} {x : H} {es : List (Sibling H)}

/-- The level at a height above the leaves. -/
def levelAt (node : H → H → H) (pad : H) (leaves : List H) : ℕ → List H
  | 0 => leaves
  | j + 1 => nextLevel node pad (levelAt node pad leaves j)

theorem levelAt_nextLevel (j : ℕ) :
    levelAt node pad (nextLevel node pad leaves) j = levelAt node pad leaves (j + 1) := by
  induction j with
  | zero => rfl
  | succ j ih => exact congrArg (nextLevel node pad) ih

/-- The root is the first node of the level at the depth of the tree, and the levels below it are
those whose pairs are joined. -/
theorem exists_depth_of_root {r : H} (h : root node pad leaves = some r) :
    ∃ d, (levels node pad leaves).length = d + 1 ∧ (levelAt node pad leaves d)[0]? = some r ∧
      ∀ j < d, levelAt node pad leaves j ∈ (levels node pad leaves).dropLast := by
  induction leaves using levels_induction node pad with
  | nil => simp at h
  | singleton x => exact ⟨0, rfl, by simpa [levelAt] using h, fun j hj => by omega⟩
  | step leaves hlt ih =>
    rw [root_of_one_lt hlt] at h
    obtain ⟨d, hlen, hroot, hmem⟩ := ih h
    refine ⟨d + 1, ?_, ?_, ?_⟩
    · rw [levels_of_one_lt hlt, List.length_cons, hlen]
    · rw [← levelAt_nextLevel, hroot]
    · intro j hj
      rw [levels_dropLast_of_one_lt hlt]
      cases j with
      | zero => exact List.mem_cons_self
      | succ j =>
        rw [← levelAt_nextLevel]
        exact List.mem_cons_of_mem _ (hmem j (by omega))

/-- On the pairs joined by the tree and by the path, `node` has no collisions and yields neither a
leaf of the other side nor the padding. -/
structure Separated (node : H → H → H) (pad : H) (leaves : List H) (x : H)
    (es : List (Sibling H)) : Prop where
  inj : ∀ p ∈ treePairs node pad leaves, ∀ q ∈ climbPairs node x es,
    node p.1 p.2 = node q.1 q.2 → p = q
  tree_ne : ∀ p ∈ treePairs node pad leaves, node p.1 p.2 ≠ x
  climb_notMem : ∀ q ∈ climbPairs node x es, node q.1 q.2 ∉ leaves
  start_ne_pad : x ≠ pad
  climb_ne_pad : ∀ q ∈ climbPairs node x es, node q.1 q.2 ≠ pad

namespace Separated

theorem dropLast {e : Sibling H} (h : Separated node pad leaves x (es ++ [e])) :
    Separated node pad leaves x es := by
  have hsub : ∀ q ∈ climbPairs node x es, q ∈ climbPairs node x (es ++ [e]) := fun q hq => by
    rw [climbPairs_append]
    exact List.mem_append_left _ hq
  exact ⟨fun p hp q hq => h.inj p hp q (hsub q hq), h.tree_ne,
    fun q hq => h.climb_notMem q (hsub q hq), h.start_ne_pad,
    fun q hq => h.climb_ne_pad q (hsub q hq)⟩

theorem ne_pad (h : Separated node pad leaves x es) : climb node x es ≠ pad := by
  obtain heq | ⟨q, hq, heq⟩ := climb_eq_or_mem node x es
  · rw [heq]
    exact h.start_ne_pad
  · rw [heq]
    exact h.climb_ne_pad q hq

/-- A path that reaches a node of the tree starts at a leaf below that node, at the position it
spells. -/
theorem of_levelAt {d i : ℕ} (h : Separated node pad leaves x es)
    (hmem : ∀ j < d, levelAt node pad leaves j ∈ (levels node pad leaves).dropLast)
    (hreach : (levelAt node pad leaves d)[i]? = some (climb node x es)) :
    es.length = d ∧ leaves[2 ^ d * i + index es]? = some x := by
  -- Both sides are taken apart from the top, so that a node is compared with a node above it only
  -- after everything over the two has been found equal.
  induction d generalizing i es with
  | zero =>
    cases es using List.reverseRecOn with
    | nil => exact ⟨rfl, by simpa [index, climb, levelAt] using hreach⟩
    | append_singleton es e =>
      refine absurd (List.mem_of_getElem? hreach) ?_
      rw [climb_append]
      refine h.climb_notMem _ ?_
      rw [climbPairs_append]
      exact List.mem_append_right _ (List.mem_singleton_self _)
  | succ d ih =>
    rw [levelAt, nextLevel, List.getElem?_map, Option.map_eq_some_iff] at hreach
    obtain ⟨p, hp, hnode⟩ := hreach
    have htree : p ∈ treePairs node pad leaves :=
      List.mem_flatMap.2 ⟨_, hmem d (Nat.lt_succ_self d), List.mem_of_getElem? hp⟩
    cases es using List.reverseRecOn with
    | nil => exact absurd hnode (h.tree_ne p htree)
    | append_singleton es e =>
      rw [climb_append] at hnode
      have hjoin : p = join (climb node x es) e := by
        refine h.inj p htree _ ?_ hnode
        rw [climbPairs_append]
        exact List.mem_append_right _ (List.mem_singleton_self _)
      rw [getElem?_pairs, Option.map_eq_some_iff] at hp
      obtain ⟨y, hy, hpair⟩ := hp
      have hmem' : ∀ j < d, levelAt node pad leaves j ∈ (levels node pad leaves).dropLast :=
        fun j hj => hmem j (by omega)
      rw [hjoin, join] at hpair
      cases hside : e.isLeft with
      | false =>
        rw [hside, if_neg Bool.false_ne_true, Prod.mk.injEq] at hpair
        obtain ⟨hlen, hleaf⟩ := ih h.dropLast hmem' (hpair.1 ▸ hy)
        refine ⟨by rw [List.length_append, hlen, List.length_singleton], ?_⟩
        rw [index_append, hside, ← hleaf, pow_succ]
        congr 1
        simp only [Bool.toNat_false]
        ring
      | true =>
        rw [hside, if_pos rfl, Prod.mk.injEq] at hpair
        -- The right half is a node of the level below: it cannot be the padding.
        have hright : (levelAt node pad leaves d)[2 * i + 1]? = some (climb node x es) := by
          cases hr : (levelAt node pad leaves d)[2 * i + 1]? with
          | some r => rw [← hpair.2, hr, Option.getD_some]
          | none => exact absurd (by rw [← hpair.2, hr, Option.getD_none]) h.dropLast.ne_pad
        obtain ⟨hlen, hleaf⟩ := ih h.dropLast hmem' hright
        refine ⟨by rw [List.length_append, hlen, List.length_singleton], ?_⟩
        rw [index_append, hside, ← hleaf, pow_succ, hlen]
        congr 1
        simp only [Bool.toNat_true]
        ring

/-- **Binding.** A path that climbs to the root starts at a leaf of the tree, at the position it
spells, and passes every level. -/
theorem binding (h : Separated node pad leaves x es)
    (hroot : root node pad leaves = some (climb node x es)) :
    leaves[index es]? = some x ∧ es.length + 1 = (levels node pad leaves).length := by
  obtain ⟨d, hlen, htop, hmem⟩ := exists_depth_of_root hroot
  obtain ⟨hes, hleaf⟩ := h.of_levelAt hmem htop
  refine ⟨by simpa using hleaf, ?_⟩
  rw [hlen, hes]

end Separated

end Binding

end Merkle

end Creditcoin
