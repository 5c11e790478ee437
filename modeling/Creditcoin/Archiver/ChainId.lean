import Creditcoin.Attestor.Primitives
import Mathlib.Data.List.Perm.Basic

/-!
# The chain id of merged shards

`merge-shards` pins its output to the expected chain id, or to the one that the shards share. It
goes through the shards once. A shard without an id is refused only as long as no id is known, so
the order of the shards matters when some have the id and others have none. -/

namespace Creditcoin.Archiver

variable {P : Type} {display : P → String} {pins pins' : List (P × Option U64)}
  {expected : Option U64} {n : U64}

/-- `resolve_chain_id`, with the id that is known so far. -/
def resolveChainId (display : P → String) : List (P × Option U64) → Option U64 → Except String U64
  | [], resolved => okOr resolved "no inputs"
  | (path, some id) :: pins, some want =>
    if id ≠ want then .error s!"{display path} is pinned to chain id {id}, expected {want}"
    else resolveChainId display pins (some want)
  | (_, some id) :: pins, none => resolveChainId display pins (some id)
  | (path, none) :: _, none =>
    .error s!"{display path} has no chain id pinned; pass --chain-id to set the output's"
  | (_, none) :: pins, some want => resolveChainId display pins (some want)

/-- The expected id and those of the shards. -/
def knownIds (pins : List (P × Option U64)) (expected : Option U64) : List U64 :=
  expected.toList ++ pins.filterMap (·.2)

theorem resolveChainId_eq_ok : resolveChainId display pins expected = .ok n ↔
    expected.or (pins.head?.bind (·.2)) = some n ∧ ∀ i ∈ knownIds pins expected, i = n := by
  induction pins generalizing expected with
  | nil => cases expected <;> simp [resolveChainId, knownIds]
  | cons pin pins ih =>
    obtain ⟨path, _ | i⟩ := pin
    · cases expected <;> simp [resolveChainId, ih, knownIds]
    · cases expected with
      | none => simp [resolveChainId, ih, knownIds]
      | some want =>
        simp only [resolveChainId, ne_eq, ite_not]
        split
        · next heq => simp [ih, knownIds, heq]
        · next hne =>
          simp only [knownIds, reduceCtorEq, false_iff]
          rintro ⟨hwant, hall⟩
          have hi : i = n := hall i (by simp)
          exact hne (hi.trans (Option.some.inj hwant).symm)

/-- A shard without an id stands next to shards that agree on one, and none is expected. -/
def Ambiguous (pins : List (P × Option U64)) (expected : Option U64) : Prop :=
  expected = none ∧ ∃ path path' n, (path, none) ∈ pins ∧ (path', some n) ∈ pins ∧
    ∀ i ∈ knownIds pins none, i = n

theorem resolveChainId_of_perm (hperm : pins'.Perm pins) (h : ¬ Ambiguous pins expected)
    (hok : resolveChainId display pins' expected = .ok n) :
    resolveChainId display pins expected = .ok n := by
  have hmem : ∀ i, i ∈ knownIds pins' expected ↔ i ∈ knownIds pins expected := fun i =>
    ((hperm.filterMap _).append_left _).mem_iff
  obtain ⟨hfirst, hall⟩ := resolveChainId_eq_ok.1 hok
  simp only [hmem] at hall
  refine resolveChainId_eq_ok.2 ⟨?_, hall⟩
  cases expected with
  | some want => exact hfirst
  | none =>
    -- The first shard of the other list has the id, so the first one here has it, too.
    obtain ⟨⟨path', _⟩, hhead, rfl⟩ := Option.bind_eq_some_iff.1 hfirst
    have hpin := hperm.subset (List.mem_of_head? hhead)
    cases pins with
    | nil => cases hpin
    | cons pin pins =>
      obtain ⟨path, _ | i⟩ := pin
      · exact absurd ⟨rfl, path, path', n, List.mem_cons_self, hpin, hall⟩ h
      · exact congrArg some (hall i (by simp [knownIds]))

/-- **When the order of the shards does not matter.** For a list of shards and an expected id, all
orders give the same id or fail, two ids that differ are refused, and without an expected id so is
a shard without one: exactly unless none is expected and a shard without an id stands next to shards
that agree on one. -/
theorem resolveChainId_order_iff (display : P → String) (pins : List (P × Option U64))
    (expected : Option U64) :
    ((∀ pins', pins'.Perm pins → (resolveChainId display pins' expected).toOption =
        (resolveChainId display pins expected).toOption) ∧
      (∀ i ∈ knownIds pins expected, ∀ j ∈ knownIds pins expected, i ≠ j →
        (resolveChainId display pins expected).toOption = none) ∧
      (expected = none → ∀ path, (path, none) ∈ pins →
        (resolveChainId display pins expected).toOption = none)) ↔ ¬ Ambiguous pins expected := by
  constructor
  · -- The shard with the id may come first, and so may the one without.
    rintro ⟨hperm, -, -⟩ ⟨rfl, path, path', n, hnone, hsome, hall⟩
    have hfirst : ∀ pin ∈ pins, ∃ rest, (pin :: rest).Perm pins := fun pin hpin => by
      obtain ⟨before, after, rfl⟩ := List.append_of_mem hpin
      exact ⟨before ++ after, List.perm_middle.symm⟩
    obtain ⟨rest, hrest⟩ := hfirst _ hnone
    obtain ⟨rest', hrest'⟩ := hfirst _ hsome
    have hok : resolveChainId display ((path', some n) :: rest') none = .ok n :=
      resolveChainId_eq_ok.2 ⟨rfl, fun i hi => hall i ((hrest'.filterMap _).subset hi)⟩
    have hfails := hperm _ hrest
    rw [← hperm _ hrest', hok] at hfails
    cases hfails
  · intro h
    have hambiguous : ∀ {pins'}, pins'.Perm pins → ¬ Ambiguous pins' expected := by
      rintro pins' hperm ⟨rfl, path, path', n, hnone, hsome, hall⟩
      exact h ⟨rfl, path, path', n, hperm.subset hnone, hperm.subset hsome, fun i hi =>
        hall i ((hperm.filterMap _).symm.subset hi)⟩
    refine ⟨fun pins' hperm => Option.ext fun n => ?_, fun i hi j hj hne => ?_,
      fun hexpected path hpath => ?_⟩
    · rw [toOption_eq_some, toOption_eq_some]
      exact ⟨resolveChainId_of_perm hperm h, resolveChainId_of_perm hperm.symm (hambiguous hperm)⟩
    · refine Option.eq_none_iff_forall_ne_some.2 fun n hok => hne ?_
      obtain ⟨-, hall⟩ := resolveChainId_eq_ok.1 (toOption_eq_some.1 hok)
      exact (hall i hi).trans (hall j hj).symm
    · refine Option.eq_none_iff_forall_ne_some.2 fun n hok => h ?_
      subst hexpected
      obtain ⟨hfirst, hall⟩ := resolveChainId_eq_ok.1 (toOption_eq_some.1 hok)
      obtain ⟨⟨path', _⟩, hhead, rfl⟩ := Option.bind_eq_some_iff.1 hfirst
      exact ⟨rfl, path, path', n, hpath, List.mem_of_head? hhead, hall⟩

/-- Of two shards the first is pinned to chain 56 and the second is not pinned. In the other order
they are refused. -/
theorem exists_order_dependent : ∃ pins pins' : List (String × Option U64), pins'.Perm pins ∧
    resolveChainId id pins none = .ok 56 ∧ resolveChainId id pins' none =
      .error "b has no chain id pinned; pass --chain-id to set the output's" :=
  ⟨[("a", some 56), ("b", none)], [("b", none), ("a", some 56)], .swap .., rfl, rfl⟩

end Creditcoin.Archiver
