import Mathlib.Data.List.AList
import Mathlib.Data.List.Sort
import Mathlib.Tactic

/-!
# Storage maps

A storage map is a finite association list with distinct keys; every operation has one lemma that
says what `lookup` returns after it. `iterKeys` sorts the keys by a rank supplied by the host, as
maps are iterated in the order of hashed keys. The host deletes some of many rows and hands back a
cursor, or deletes all of them; `KillResult` is its answer. -/

namespace Creditcoin

/-- A finite map with distinct keys. -/
abbrev StorageMap (K V : Type) := AList (fun _ : K => V)

/-- An opaque marker handed back by an unfinished deletion. -/
abbrev Cursor := List UInt8

/-- The answer of the host to a bounded deletion of all rows under a prefix. -/
inductive KillResult (K : Type)
  /-- No row is left. -/
  | allRemoved
  /-- The rows under `removed` are gone and others may be left. -/
  | someRemaining (cursor : Cursor) (removed : List K)

namespace StorageMap

variable {K V : Type} [DecidableEq K]

/-! ## Single rows -/

theorem lookup_insert_eq (m : StorageMap K V) (k k' : K) (v : V) :
    (m.insert k' v).lookup k = if k = k' then some v else m.lookup k := by
  split
  · next h => rw [h, AList.lookup_insert]
  · next h => rw [AList.lookup_insert_ne h]

theorem lookup_erase_eq (m : StorageMap K V) (k k' : K) :
    (m.erase k').lookup k = if k = k' then none else m.lookup k := by
  split
  · next h => rw [h, AList.lookup_erase]
  · next h => rw [AList.lookup_erase_ne h]

theorem erase_eq_self {m : StorageMap K V} {k : K} (h : m.lookup k = none) : m.erase k = m :=
  AList.ext (List.kerase_of_notMem_keys (AList.lookup_eq_none.1 h))

/-- `entry(k).or_insert(v)`. -/
def orInsert (m : StorageMap K V) (k : K) (v : V) : StorageMap K V :=
  if (m.lookup k).isSome then m else m.insert k v

theorem lookup_orInsert (m : StorageMap K V) (k k' : K) (v : V) :
    (m.orInsert k' v).lookup k = if k = k' then some ((m.lookup k).getD v) else m.lookup k := by
  unfold orInsert
  rcases hm : m.lookup k' with _ | w
  · simp only [Option.isSome_none, Bool.false_eq_true, if_false, lookup_insert_eq]
    split
    · next h => rw [h, hm, Option.getD_none]
    · rfl
  · simp only [Option.isSome_some, if_true]
    split
    · next h => rw [h, hm, Option.getD_some]
    · rfl

/-! ## Many rows -/

/-- Remove the rows under every key of `ks`. -/
def eraseAll (m : StorageMap K V) (ks : List K) : StorageMap K V :=
  ks.foldl (fun m k => m.erase k) m

theorem lookup_eraseAll (m : StorageMap K V) (ks : List K) (k : K) :
    (m.eraseAll ks).lookup k = if k ∈ ks then none else m.lookup k := by
  induction ks generalizing m with
  | nil => simp [eraseAll]
  | cons k' ks ih =>
    have hstep : m.eraseAll (k' :: ks) = eraseAll (m.erase k') ks := rfl
    rw [hstep, ih, lookup_erase_eq]
    by_cases hk : k ∈ ks <;> by_cases hk' : k = k' <;> simp [hk, hk']

/-- Keep the rows whose key satisfies `p`. -/
def retain (m : StorageMap K V) (p : K → Bool) : StorageMap K V :=
  m.eraseAll (m.keys.filter fun k => !p k)

theorem lookup_retain (m : StorageMap K V) (p : K → Bool) (k : K) :
    (m.retain p).lookup k = if p k then m.lookup k else none := by
  rw [retain, lookup_eraseAll]
  cases hp : p k with
  | true => simp [hp]
  | false =>
    rw [if_neg Bool.false_ne_true, ite_eq_left_iff]
    intro hk
    refine AList.lookup_eq_none.2 fun hmem => hk ?_
    simpa [hp, AList.mem_keys] using hmem

theorem keys_eq_nil_iff (m : StorageMap K V) : m.keys = [] ↔ ∀ k, m.lookup k = none := by
  rw [List.eq_nil_iff_forall_not_mem]
  simp only [AList.lookup_eq_none, AList.mem_keys]

theorem mem_keys_iff (m : StorageMap K V) (k : K) : k ∈ m.keys ↔ ∃ v, m.lookup k = some v := by
  rw [← AList.mem_keys, ← AList.lookup_isSome, Option.isSome_iff_exists]

theorem length_keys_congr {W : Type} {m : StorageMap K V} {m' : StorageMap K W}
    (h : ∀ k, (m'.lookup k).isSome = (m.lookup k).isSome) : m'.keys.length = m.keys.length := by
  refine ((List.perm_ext_iff_of_nodup m'.keys_nodup m.keys_nodup).2 fun k => ?_).length_eq
  rw [← AList.mem_keys, ← AList.mem_keys, ← AList.lookup_isSome, ← AList.lookup_isSome, h]

theorem length_keys_le {W : Type} {m : StorageMap K V} {m' : StorageMap K W}
    (h : ∀ k v, m'.lookup k = some v → ∃ w, m.lookup k = some w) :
    m'.keys.length ≤ m.keys.length := by
  refine (List.Nodup.subperm m'.keys_nodup fun k hk => ?_).length_le
  obtain ⟨v, hv⟩ := (mem_keys_iff m' k).1 hk
  exact (mem_keys_iff m k).2 (h k v hv)

theorem length_keys_insert {m : StorageMap K V} {k : K} (h : m.lookup k = none) (v : V) :
    (m.insert k v).keys.length = m.keys.length + 1 := by
  rw [AList.keys_insert, List.length_cons, List.erase_of_not_mem (AList.lookup_eq_none.1 h)]

theorem length_keys_erase {m : StorageMap K V} {k : K} {v : V} (h : m.lookup k = some v) :
    (m.erase k).keys.length = m.keys.length - 1 := by
  rw [AList.keys_erase, List.length_erase_of_mem ((mem_keys_iff m k).2 ⟨v, h⟩)]

theorem length_keys_insert_le (m : StorageMap K V) (k : K) (v : V) :
    (m.insert k v).keys.length ≤ m.keys.length + 1 := by
  rw [AList.keys_insert, List.length_cons]
  exact Nat.succ_le_succ List.length_erase_le

theorem length_keys_erase_le (m : StorageMap K V) (k : K) :
    (m.erase k).keys.length ≤ m.keys.length := by
  rw [AList.keys_erase]
  exact List.length_erase_le

theorem length_keys_le_eraseAll (m : StorageMap K V) (ks : List K) :
    m.keys.length ≤ (m.eraseAll ks).keys.length + ks.length := by
  induction ks generalizing m with
  | nil => exact le_rfl
  | cons k ks ih =>
    have hstep : m.eraseAll (k :: ks) = eraseAll (m.erase k) ks := rfl
    have hrest := ih (m.erase k)
    have herase : m.keys.length ≤ (m.erase k).keys.length + 1 := by
      rw [AList.keys_erase, List.length_erase]
      split <;> omega
    rw [hstep, List.length_cons]
    omega

theorem length_keys_eraseAll {m : StorageMap K V} {ks : List K} (hnodup : ks.Nodup)
    (h : ∀ k ∈ ks, ∃ v, m.lookup k = some v) :
    (m.eraseAll ks).keys.length + ks.length = m.keys.length := by
  induction ks generalizing m with
  | nil => rfl
  | cons k ks ih =>
    obtain ⟨hfresh, hrest⟩ := List.nodup_cons.1 hnodup
    obtain ⟨v, hv⟩ := h k List.mem_cons_self
    have hstep : m.eraseAll (k :: ks) = eraseAll (m.erase k) ks := rfl
    have hpos : 0 < m.keys.length := List.length_pos_of_mem ((mem_keys_iff m k).2 ⟨v, hv⟩)
    have hlen := length_keys_erase hv
    have := ih (m := m.erase k) hrest fun j hj => by
      rw [lookup_erase_eq, if_neg (ne_of_mem_of_not_mem hj hfresh)]
      exact h j (List.mem_cons_of_mem _ hj)
    rw [hstep, List.length_cons]
    omega

theorem eq_empty_iff (m : StorageMap K V) : m = ∅ ↔ ∀ k, m.lookup k = none := by
  constructor
  · rintro rfl k
    exact AList.lookup_empty k
  · intro h
    refine AList.ext ?_
    have hkeys := (keys_eq_nil_iff m).2 h
    exact List.map_eq_nil_iff.1 hkeys

theorem lookup_empty_eq (k : K) : (∅ : StorageMap K V).lookup k = none := AList.lookup_empty k

/-! ## Many insertions -/

/-- Insert every row of a list, later rows first overwriting earlier ones. -/
def insertAll (m : StorageMap K V) (rows : List (K × V)) : StorageMap K V :=
  rows.foldl (fun m row => m.insert row.1 row.2) m

/-- Insert the rows of a list whose keys are not there yet. -/
def orInsertAll (m : StorageMap K V) (rows : List (K × V)) : StorageMap K V :=
  rows.foldl (fun m row => orInsert m row.1 row.2) m

theorem mem_of_lookup_insertAll {m : StorageMap K V} {rows : List (K × V)} {k : K} {v : V}
    (h : (m.insertAll rows).lookup k = some v) : (k, v) ∈ rows ∨ m.lookup k = some v := by
  induction rows generalizing m with
  | nil => exact .inr h
  | cons row rows ih =>
    rcases ih (m := m.insert row.1 row.2) h with hmem | hlookup
    · exact .inl (List.mem_cons_of_mem _ hmem)
    · rw [lookup_insert_eq] at hlookup
      split at hlookup
      · next hk =>
        have hrow : (k, v) = row := Prod.ext hk (Option.some.inj hlookup).symm
        exact .inl (hrow ▸ List.mem_cons_self)
      · exact .inr hlookup

theorem isSome_lookup_insertAll {m : StorageMap K V} {rows : List (K × V)} {k : K} :
    ((m.insertAll rows).lookup k).isSome = true ↔
      (∃ v, (k, v) ∈ rows) ∨ (m.lookup k).isSome = true := by
  induction rows generalizing m with
  | nil => simp [insertAll]
  | cons row rows ih =>
    have hstep : m.insertAll (row :: rows) = insertAll (m.insert row.1 row.2) rows := rfl
    rw [hstep, ih, lookup_insert_eq]
    obtain ⟨k', v'⟩ := row
    by_cases hk : k = k' <;> simp [hk]

theorem mem_of_lookup_orInsertAll {m : StorageMap K V} {rows : List (K × V)} {k : K} {v : V}
    (h : (m.orInsertAll rows).lookup k = some v) : (k, v) ∈ rows ∨ m.lookup k = some v := by
  induction rows generalizing m with
  | nil => exact .inr h
  | cons row rows ih =>
    rcases ih (m := m.orInsert row.1 row.2) h with hmem | hlookup
    · exact .inl (List.mem_cons_of_mem _ hmem)
    · rw [lookup_orInsert] at hlookup
      split at hlookup
      · next hk =>
        rcases hm : m.lookup k with _ | w
        · have hrow : (k, v) = row := by
            refine Prod.ext hk ?_
            rw [hm] at hlookup
            exact (Option.some.inj hlookup).symm
          exact .inl (hrow ▸ List.mem_cons_self)
        · rw [hm] at hlookup
          exact .inr hlookup
      · exact .inr hlookup

theorem isSome_lookup_orInsertAll {m : StorageMap K V} {rows : List (K × V)} {k : K} :
    ((m.orInsertAll rows).lookup k).isSome = true ↔
      (∃ v, (k, v) ∈ rows) ∨ (m.lookup k).isSome = true := by
  induction rows generalizing m with
  | nil => simp [orInsertAll]
  | cons row rows ih =>
    have hstep : m.orInsertAll (row :: rows) = orInsertAll (m.orInsert row.1 row.2) rows := rfl
    rw [hstep, ih, lookup_orInsert]
    obtain ⟨k', v'⟩ := row
    by_cases hk : k = k' <;> simp [hk]

/-! ## Iteration -/

/-- The keys of the map in the order of their ranks. -/
def iterKeys (m : StorageMap K V) (rank : K → ℕ) : List K :=
  m.keys.insertionSort (fun a b => rank a ≤ rank b)

theorem mem_iterKeys (m : StorageMap K V) (rank : K → ℕ) (k : K) :
    k ∈ m.iterKeys rank ↔ ∃ v, m.lookup k = some v := by
  rw [iterKeys, List.mem_insertionSort, mem_keys_iff]

section

omit [DecidableEq K]

theorem nodup_iterKeys (m : StorageMap K V) (rank : K → ℕ) : (m.iterKeys rank).Nodup :=
  (List.perm_insertionSort _ _).nodup_iff.2 m.keys_nodup

theorem pairwise_iterKeys (m : StorageMap K V) (rank : K → ℕ) :
    (m.iterKeys rank).Pairwise fun a b => rank a ≤ rank b :=
  List.pairwise_insertionSort (fun a b => rank a ≤ rank b) m.keys

theorem length_iterKeys (m : StorageMap K V) (rank : K → ℕ) :
    (m.iterKeys rank).length = m.keys.length :=
  List.length_insertionSort _ _

end

/-! ## Bounded deletion -/

/-- The map and the cursor left by a bounded deletion. -/
def clearPrefix (m : StorageMap K V) : KillResult K → StorageMap K V × Option Cursor
  | .allRemoved => (∅, none)
  | .someRemaining cursor removed => (m.eraseAll removed, some cursor)

theorem lookup_clearPrefix (m : StorageMap K V) (r : KillResult K) (k : K) (v : V)
    (h : (m.clearPrefix r).1.lookup k = some v) : m.lookup k = some v := by
  cases r with
  | allRemoved => simp [clearPrefix] at h
  | someRemaining cursor removed =>
    simp only [clearPrefix, lookup_eraseAll] at h
    split at h
    · simp at h
    · exact h

theorem clearPrefix_eq_empty (m : StorageMap K V) (r : KillResult K)
    (h : (m.clearPrefix r).2 = none) : (m.clearPrefix r).1 = ∅ := by
  cases r with
  | allRemoved => rfl
  | someRemaining cursor removed => simp [clearPrefix] at h

theorem length_keys_clearPrefix_le (m : StorageMap K V) (r : KillResult K) :
    (m.clearPrefix r).1.keys.length ≤ m.keys.length :=
  length_keys_le fun k v hv => ⟨v, lookup_clearPrefix m r k v hv⟩

/-- The number of rows that a deletion removed. -/
def removedBy (m m' : StorageMap K V) : ℕ := m.keys.length - m'.keys.length

omit [DecidableEq K]

@[simp] theorem removedBy_self (m : StorageMap K V) : m.removedBy m = 0 := Nat.sub_self _

theorem removedBy_le_add (m m' m'' : StorageMap K V) :
    m.removedBy m'' ≤ m.removedBy m' + m'.removedBy m'' := tsub_le_tsub_add_tsub

end StorageMap

end Creditcoin
