import Mathlib.Tactic

/-!
# Hash chains over numbered blocks

A hash chain starts at a base `(b, d)` and absorbs one root per height: the digest at `n + 1` hashes
the height, its root and the digest at `n`. `foldFrom` absorbs a list of roots at consecutive
heights; `digestAt` reads the roots from a partial function on heights (`digestAt_add_length`,
`digestAt_rebase`). Roots that fold to a digest of the chain are the roots of the chain, provided
the hash has no collisions on what the two of them hash (`binding`). -/

namespace Creditcoin

namespace HashChain

variable {R D : Type} (hash : ℕ → R → D → D)

/-! ## Folding a list of roots -/

/-- The digest after absorbing `roots` at the heights `s`, `s + 1`, … from the digest `d`. -/
def foldFrom : ℕ → D → List R → D
  | _, d, [] => d
  | s, d, r :: rs => foldFrom (s + 1) (hash s r d) rs

@[simp] theorem foldFrom_nil (s : ℕ) (d : D) : foldFrom hash s d [] = d := rfl

@[simp] theorem foldFrom_cons (s : ℕ) (d : D) (r : R) (rs : List R) :
    foldFrom hash s d (r :: rs) = foldFrom hash (s + 1) (hash s r d) rs := rfl

theorem foldFrom_append (s : ℕ) (d : D) (l₁ l₂ : List R) :
    foldFrom hash s d (l₁ ++ l₂) = foldFrom hash (s + l₁.length) (foldFrom hash s d l₁) l₂ := by
  induction l₁ generalizing s d with
  | nil => simp
  | cons r rs ih =>
    simp only [List.cons_append, foldFrom_cons, List.length_cons, ih]
    rw [Nat.add_assoc, Nat.add_comm 1 rs.length]

/-! ## The digest at a height -/

/-- The digest at a height of the chain with base `(b, d)` and roots `root`. There is none below
the base, nor above the first height without a root. -/
def digestAt (b : ℕ) (d : D) (root : ℕ → Option R) : ℕ → Option D
  | 0 => if b = 0 then some d else none
  | n + 1 =>
    if b = n + 1 then some d
    else (digestAt b d root n).bind fun p => (root (n + 1)).map fun r => hash (n + 1) r p

variable {hash} {b : ℕ} {d : D} {root : ℕ → Option R}

@[simp] theorem digestAt_base : digestAt hash b d root b = some d := by
  cases b <;> simp [digestAt]

theorem digestAt_succ {n : ℕ} (h : b ≤ n) :
    digestAt hash b d root (n + 1) =
      (digestAt hash b d root n).bind fun p => (root (n + 1)).map fun r => hash (n + 1) r p := by
  simp only [digestAt]
  rw [if_neg (by omega)]

theorem digestAt_of_lt {n : ℕ} (h : n < b) : digestAt hash b d root n = none := by
  induction n with
  | zero => rw [digestAt, if_neg (by omega)]
  | succ n ih => rw [digestAt, if_neg (by omega), ih (by omega), Option.bind_none]

theorem le_of_digestAt {n : ℕ} {e : D} (h : digestAt hash b d root n = some e) : b ≤ n := by
  by_contra hlt
  rw [digestAt_of_lt (by omega)] at h
  simp at h

theorem digestAt_congr {root' : ℕ → Option R} {n : ℕ}
    (h : ∀ y, b < y → y ≤ n → root y = root' y) :
    digestAt hash b d root n = digestAt hash b d root' n := by
  rcases Nat.lt_or_ge n b with hlt | hle
  · rw [digestAt_of_lt hlt, digestAt_of_lt hlt]
  · induction n, hle using Nat.le_induction with
    | base => simp
    | succ n hn ih =>
      rw [digestAt_succ hn, digestAt_succ hn, ih fun y hy hyn => h y hy (by omega),
        h (n + 1) (by omega) le_rfl]

theorem digestAt_rebase {c n : ℕ} {e : D} (hc : digestAt hash b d root c = some e) (hn : c ≤ n) :
    digestAt hash c e root n = digestAt hash b d root n := by
  have hb : b ≤ c := le_of_digestAt hc
  induction n, hn using Nat.le_induction with
  | base => simp [hc]
  | succ n hn ih => rw [digestAt_succ hn, digestAt_succ (hb.trans hn), ih]

theorem digestAt_add_length {n : ℕ} {e : D} (he : digestAt hash b d root n = some e)
    (roots : List R) (hroots : ∀ i r, roots[i]? = some r → root (n + 1 + i) = some r) :
    digestAt hash b d root (n + roots.length) = some (foldFrom hash (n + 1) e roots) := by
  induction roots generalizing n e with
  | nil => simpa using he
  | cons r rs ih =>
    have hb : b ≤ n := le_of_digestAt he
    have hstep : digestAt hash b d root (n + 1) = some (hash (n + 1) r e) := by
      rw [digestAt_succ hb, he]
      simp [hroots 0 r (by simp)]
    have htail : ∀ i r', rs[i]? = some r' → root (n + 1 + 1 + i) = some r' := fun i r' hi => by
      have := hroots (i + 1) r' (by simpa using hi)
      rwa [show n + 1 + (i + 1) = n + 1 + 1 + i by omega] at this
    rw [List.length_cons, foldFrom_cons, ← ih hstep htail]
    congr 1
    omega

/-! ## Binding -/

/-- What is hashed in absorbing `roots`: each height with its root and the digest below it. -/
def foldInputs (hash : ℕ → R → D → D) : ℕ → D → List R → List (ℕ × R × D)
  | _, _, [] => []
  | s, d, r :: rs => (s, r, d) :: foldInputs hash (s + 1) (hash s r d) rs

theorem foldInputs_append (s : ℕ) (d : D) (rs : List R) (r : R) :
    foldInputs hash s d (rs ++ [r]) =
      foldInputs hash s d rs ++ [(s + rs.length, r, foldFrom hash s d rs)] := by
  induction rs generalizing s d with
  | nil => rfl
  | cons r' rs ih =>
    simp only [List.cons_append, foldInputs, ih, foldFrom_cons, List.length_cons]
    rw [Nat.add_assoc, Nat.add_comm 1 rs.length]

theorem mem_foldInputs_bounds {s : ℕ} {low : D} {roots : List R} {q : ℕ × R × D}
    (hq : q ∈ foldInputs hash s low roots) : s ≤ q.1 ∧ q.1 < s + roots.length := by
  induction roots generalizing s low with
  | nil => simp [foldInputs] at hq
  | cons r rs ih =>
    rw [List.length_cons]
    rcases List.mem_cons.1 hq with rfl | hq
    · exact ⟨le_rfl, by omega⟩
    · have := ih hq
      omega

/-- **Backward uniqueness.** Roots that fold to a digest of the chain are the chain's own, and they
were absorbed from the chain's own digest. In particular they start above the base, whose digest is
not the hash of a predecessor. -/
theorem binding {s : ℕ} {low : D} {roots : List R} (hne : roots ≠ [])
    (hinj : ∀ q ∈ foldInputs hash s low roots, b < q.1 → ∀ r p, root q.1 = some r →
      digestAt hash b d root (q.1 - 1) = some p → hash q.1 r p = hash q.1 q.2.1 q.2.2 →
      r = q.2.1 ∧ p = q.2.2)
    (hbase : ∀ q ∈ foldInputs hash s low roots, hash q.1 q.2.1 q.2.2 ≠ d)
    (h : digestAt hash b d root (s + (roots.length - 1)) = some (foldFrom hash s low roots)) :
    b < s ∧ digestAt hash b d root (s - 1) = some low ∧
      ∀ i r, roots[i]? = some r → root (s + i) = some r := by
  induction roots using List.reverseRecOn with
  | nil => exact absurd rfl hne
  | append_singleton rs r ih =>
    have hlast : (s + rs.length, r, foldFrom hash s low rs) ∈
        foldInputs hash s low (rs ++ [r]) := by
      rw [foldInputs_append]
      exact List.mem_append_right _ (List.mem_singleton_self _)
    rw [foldFrom_append, List.length_append, List.length_singleton, Nat.add_sub_cancel] at h
    have hb : b < s + rs.length := by
      refine lt_of_le_of_ne (le_of_digestAt h) fun heq => hbase _ hlast ?_
      rw [← heq, digestAt_base, Option.some.injEq] at h
      rw [← heq]
      exact h.symm
    obtain ⟨m, hm⟩ : ∃ m, s + rs.length = m + 1 := ⟨s + rs.length - 1, by omega⟩
    rw [hm, digestAt_succ (by omega), Option.bind_eq_some_iff] at h
    obtain ⟨p, hp, h⟩ := h
    obtain ⟨r', hr', hhash⟩ := Option.map_eq_some_iff.1 h
    obtain ⟨rfl, rfl⟩ : r' = r ∧ p = foldFrom hash s low rs := by
      refine hinj _ hlast hb r' p (by rw [hm]; exact hr') (by rw [hm]; exact hp) ?_
      rw [hm]
      exact hhash
    rcases List.eq_nil_or_concat rs with rfl | ⟨rs', r₀, rfl⟩
    · rw [List.length_nil, Nat.add_zero] at hm hb
      refine ⟨hb, by rw [hm]; exact hp, fun i r hi => ?_⟩
      obtain ⟨rfl, rfl⟩ : i = 0 ∧ r' = r := by
        cases i <;> simp_all
      rw [Nat.add_zero, hm]
      exact hr'
    · have hsub : ∀ q ∈ foldInputs hash s low (rs'.concat r₀),
          q ∈ foldInputs hash s low (rs'.concat r₀ ++ [r']) := fun q hq => by
        rw [foldInputs_append]
        exact List.mem_append_left _ hq
      have hlen : (rs'.concat r₀).length = rs'.length + 1 := by simp
      obtain ⟨hbs, hlow, hroots⟩ := ih (by simp) (fun q hq => hinj q (hsub q hq))
        (fun q hq => hbase q (hsub q hq)) (by
          rw [show s + ((rs'.concat r₀).length - 1) = m by omega]
          exact hp)
      refine ⟨hbs, hlow, fun i r hi => ?_⟩
      rcases Nat.lt_or_ge i (rs'.concat r₀).length with hlt | hge
      · exact hroots i r (by rwa [List.getElem?_append_left hlt] at hi)
      · rw [List.getElem?_append_right hge, List.getElem?_singleton] at hi
        split at hi
        · next hi0 =>
          obtain rfl : r' = r := by simpa using hi
          rw [show s + i = m + 1 by omega]
          exact hr'
        · simp at hi

end HashChain

end Creditcoin
