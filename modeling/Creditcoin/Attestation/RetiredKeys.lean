import Creditcoin.Attestation.BondEffects
import Creditcoin.Devnet

/-!
# The index of retired keys

The index lists the retired keys by stash, over all chains. It is exact (`State.Indexed`): a pair is
listed for a stash, once, if and only if there is a row under it that the stash has retired. A
registered controller has no such row. -/

namespace Creditcoin

variable {H A B : Type} [DecidableEq A]

/-! ## The index -/

namespace RetiredIndex

variable {index index' : RetiredIndex A} {rows rows' : ChainKey → A → Option A} {k : ChainKey}
  {stash a : A}

def pairs (index : RetiredIndex A) (stash : A) : List (ChainKey × A) := (index.lookup stash).getD []

/-- The index lists each row, given by the stash that retired it, once. -/
structure Exact (index : RetiredIndex A) (rows : ChainKey → A → Option A) : Prop where
  mem_iff : ∀ stash k a, (k, a) ∈ index.pairs stash ↔ rows k a = some stash
  nodup : ∀ stash, (index.pairs stash).Nodup

theorem pairs_remove (index : RetiredIndex A) (stash : A) (k : ChainKey) (a x : A) :
    pairs (removeStashRetiredIndexPair index stash k a) x =
      if x = stash then swapErase (index.pairs stash) (k, a) else index.pairs x := by
  unfold removeStashRetiredIndexPair
  split
  · next hnone =>
    split
    · next heq =>
      have hnil : index.pairs stash = [] := by rw [pairs, hnone, Option.getD_none]
      have hperm := swapErase_perm ([] : List (ChainKey × A)) (k, a)
      rw [heq, hnil]
      exact (List.perm_nil.1 hperm).symm
    · rfl
  · next l hl =>
    have hpairs : index.pairs stash = l := by rw [pairs, hl, Option.getD_some]
    rw [hpairs]
    split
    · next hnil =>
      rw [pairs, StorageMap.lookup_erase_eq, hnil]
      split <;> rfl
    · rw [pairs, StorageMap.lookup_insert_eq]
      split <;> rfl

theorem Exact.congr (h : index.Exact rows) (hrows : ∀ k a, rows' k a = rows k a) :
    index.Exact rows' :=
  ⟨fun stash k a => (h.mem_iff stash k a).trans (by rw [hrows]), h.nodup⟩

theorem Exact.remove (h : index.Exact rows) (hrow : rows k a = some stash)
    (hrows : ∀ j b, rows' j b = if j = k ∧ b = a then none else rows j b) :
    Exact (removeStashRetiredIndexPair index stash k a) rows' := by
  refine ⟨fun x j b => ?_, fun x => ?_⟩
  · rw [pairs_remove, hrows]
    by_cases hpair : j = k ∧ b = a
    · rw [if_pos hpair]
      obtain ⟨rfl, rfl⟩ := hpair
      refine iff_of_false (fun hmem => ?_) (by simp)
      split at hmem
      · exact ((mem_swapErase (h.nodup stash) _ _).1 hmem).1 rfl
      · next hne =>
        have hother := (h.mem_iff x j b).1 hmem
        rw [hrow] at hother
        exact hne (Option.some.inj hother).symm
    · rw [if_neg hpair, ← h.mem_iff]
      split
      · next heq =>
        rw [mem_swapErase (h.nodup stash), heq]
        exact and_iff_right fun heq => hpair (Prod.mk.inj heq)
      · rfl
  · rw [pairs_remove]
    split
    · exact nodup_swapErase (h.nodup stash) _
    · exact h.nodup x

theorem Exact.push (h : index.Exact rows) (hrow : rows k a = none)
    (hpush : Roster.pushRetired index stash (k, a) = .ok index')
    (hrows : ∀ j b, rows' j b = if j = k ∧ b = a then some stash else rows j b) :
    index'.Exact rows' := by
  simp only [Roster.pushRetired, bind_eq_ok, ensure_eq_ok, pure_eq_ok] at hpush
  obtain ⟨-, -, rfl⟩ := hpush
  have hpairs : ∀ x, pairs (index.insert stash (index.pairs stash ++ [(k, a)])) x =
      if x = stash then index.pairs stash ++ [(k, a)] else index.pairs x := by
    intro x
    rw [pairs, StorageMap.lookup_insert_eq]
    split <;> rfl
  have hfresh : ∀ x, (k, a) ∉ index.pairs x := by
    intro x hmem
    rw [h.mem_iff, hrow] at hmem
    cases hmem
  refine ⟨fun x j b => ?_, fun x => ?_⟩
  · change (j, b) ∈ pairs (index.insert stash (index.pairs stash ++ [(k, a)])) x ↔ _
    rw [hpairs, hrows]
    by_cases hpair : j = k ∧ b = a
    · rw [if_pos hpair, Option.some.injEq]
      obtain ⟨rfl, rfl⟩ := hpair
      split
      · next heq => simp [heq]
      · next hne => exact iff_of_false (hfresh x) (Ne.symm hne)
    · rw [if_neg hpair, ← h.mem_iff]
      split
      · next heq =>
        rw [heq, List.mem_append, List.mem_singleton, Prod.mk.injEq]
        exact or_iff_left hpair
      · rfl
  · change (pairs (index.insert stash (index.pairs stash ++ [(k, a)])) x).Nodup
    rw [hpairs]
    split
    · rw [List.nodup_append]
      refine ⟨h.nodup stash, List.nodup_singleton _, fun p hp q hq heq => ?_⟩
      rw [heq, List.mem_singleton.1 hq] at hp
      exact hfresh stash hp
    · exact h.nodup x

end RetiredIndex

/-! ## Rows -/

section Rows

variable {T : Config H A B} {s s' : State H A B} {k : ChainKey} {stash a : A} {r r' : Roster A}
  {index index' : RetiredIndex A}

def Roster.retiredStash (r : Roster A) (a : A) : Option A :=
  (r.retiredAttestorBlsKeys.lookup a).map (·.stash)

/-- The rows of all chains, by the stash that retired them. -/
def State.retiredStash (T : Config H A B) (s : State H A B) (k : ChainKey) (a : A) : Option A :=
  (s.chain T k).roster.retiredStash a

/-- The index is exact, and registered controllers have no retired key. -/
structure State.Indexed (T : Config H A B) (s : State H A B) : Prop where
  exact : RetiredIndex.Exact s.retiredAttestorKeysByStash (s.retiredStash T)
  apart : ∀ k a, (s.chain T k).roster.attestors.lookup a = none ∨
    (s.chain T k).roster.retiredAttestorBlsKeys.lookup a = none

theorem Roster.retiredStash_eq_none :
    r.retiredStash a = none ↔ r.retiredAttestorBlsKeys.lookup a = none :=
  Option.map_eq_none_iff

theorem RetiredIndex.Exact.forget {rows rows' : ChainKey → A → Option A} (h : index.Exact rows)
    (hrow : ∀ b, rows k b = r.retiredStash b)
    (hrows : ∀ j b, rows' j b = if j = k ∧ b = a then none else rows j b) :
    (r.forgetPair index k a).Exact rows' := by
  unfold Roster.forgetPair
  split
  · next hnone =>
    refine h.congr fun j b => ?_
    rw [hrows]
    split
    · next heq => rw [heq.1, heq.2, hrow, Roster.retiredStash, hnone, Option.map_none]
    · rfl
  · next entry hentry =>
    refine h.remove ?_ hrows
    rw [hrow, Roster.retiredStash, hentry, Option.map_some]

theorem cleanup_retired (T : Config H A B) (host : Host H A) (k : ChainKey)
    (phase : RemovedChainCleanupPhase A) (r : Roster A) (index : RetiredIndex A)
    (rows : ChainKey → A → Option A) (hrows : ∀ a, rows k a = r.retiredStash a)
    (h : index.Exact rows) :
    (∀ a, (continueRemovedChainCleanup T host k phase r index).1.retiredAttestorBlsKeys.lookup a =
        none ∨
      (continueRemovedChainCleanup T host k phase r index).1.retiredAttestorBlsKeys.lookup a =
        r.retiredAttestorBlsKeys.lookup a) ∧
    (continueRemovedChainCleanup T host k phase r index).2.Exact fun j a =>
      if j = k then (continueRemovedChainCleanup T host k phase r index).1.retiredStash a
      else rows j a := by
  refine cleanup_induction (P := fun r' index' =>
    (∀ a, r'.retiredAttestorBlsKeys.lookup a = none ∨
      r'.retiredAttestorBlsKeys.lookup a = r.retiredAttestorBlsKeys.lookup a) ∧
    index'.Exact fun j a => if j = k then r'.retiredStash a else rows j a)
    ?_ ?_ ?_ ?_ ?_ phase r index ⟨fun _ => .inr rfl, h.congr fun j a => ?_⟩
  · intro r' index' a hr'
    have hsame : (chillRemoved r' a).retiredAttestorBlsKeys = r'.retiredAttestorBlsKeys :=
      (Roster.restatus_setStatus r' a .idle).retired
    refine ⟨fun b => hsame ▸ hr'.1 b, hr'.2.congr fun j b => ?_⟩
    rw [Roster.retiredStash, Roster.retiredStash, hsame]
  · intro r' index' a hr'
    unfold clearRetired
    split
    · exact hr'
    · next entry hentry =>
      refine ⟨fun b => ?_, hr'.2.remove (k := k) (a := a) ?_ fun j b => ?_⟩
      · dsimp only
        rw [StorageMap.lookup_erase_eq]
        split
        · exact .inl rfl
        · exact hr'.1 b
      · rw [if_pos rfl, Roster.retiredStash, hentry, Option.map_some]
      · by_cases hj : j = k
        · rw [if_pos hj, if_pos hj, Roster.retiredStash, StorageMap.lookup_erase_eq]
          split
          · next heq => rw [if_pos ⟨hj, heq⟩, Option.map_none]
          · next hne =>
            rw [if_neg fun hand => hne hand.2]
            rfl
        · rw [if_neg hj, if_neg hj, if_neg fun hand => hj hand.1]
  · exact fun _ _ _ h => h
  · exact fun _ _ _ h => h
  · exact fun _ _ _ h => h
  · split
    · next heq => rw [heq, hrows]
    · rfl

/-! ## Purges -/

theorem Purged.lookup (h : Purged r r') (a : A) :
    r'.retiredAttestorBlsKeys.lookup a = none ∨
      r'.retiredAttestorBlsKeys.lookup a = r.retiredAttestorBlsKeys.lookup a := by
  induction h with
  | refl => exact .inr rfl
  | tail _ b ih =>
    rw [Roster.lookup_forgetRetired]
    split
    · exact .inl rfl
    · exact ih

theorem Purged.released {entry : RetiredAttestorBlsKeyEntry A} (h : Purged r r')
    (ha : r.retiredAttestorBlsKeys.lookup a = some entry)
    (hgone : r'.retiredAttestorBlsKeys.lookup a = none) :
    r'.blsKeyOwner.lookup entry.blsPublicKey ≠ some a := by
  induction h with
  | refl =>
    rw [ha] at hgone
    cases hgone
  | @tail r' h b ih =>
    rcases h.lookup a with hnone | hsame
    · -- The claim was given up before, and claims are only given up.
      have hbefore := ih hnone
      unfold Roster.forgetRetired
      split
      · exact hbefore
      · rw [Roster.releaseKey_eq]
        dsimp only
        split
        · rw [StorageMap.lookup_erase_eq]
          split
          · simp
          · exact hbefore
        · exact hbefore
    · rw [ha] at hsame
      rw [Roster.lookup_forgetRetired] at hgone
      split at hgone
      · next heq =>
        subst heq
        simp only [Roster.forgetRetired, hsame, Roster.releaseKey_eq]
        split
        · rw [StorageMap.lookup_erase_eq, if_pos rfl]
          simp
        · next hother => exact hother
      · rw [hsame] at hgone
        cases hgone

namespace State

/-- Has the stash retired the key of the controller, and has its era come? -/
def matured (T : Config H A B) (s : State H A B) (stash : A) (era : ℕ)
    (pair : ChainKey × A) : Bool :=
  ((s.chain T pair.1).roster.retiredAttestorBlsKeys.lookup pair.2).any fun entry =>
    entry.stash = stash ∧ entry.purgeAtEra ≤ era

/-- Has the stash retired the key of the controller, with an era that has not come? -/
def pending (T : Config H A B) (s : State H A B) (stash : A) (era : ℕ)
    (pair : ChainKey × A) : Bool :=
  ((s.chain T pair.1).roster.retiredAttestorBlsKeys.lookup pair.2).any fun entry =>
    entry.stash = stash ∧ era < entry.purgeAtEra

/-- **The loop of a purge.** It drops the rows of the listed pairs whose era has come, and returns
the pairs whose era has not. -/
theorem purgeRetired_spec (T : Config H A B) (stash : A) (era : ℕ) {pairs : List (ChainKey × A)}
    (hnodup : pairs.Nodup) (s : State H A B) :
    (purgeRetired T stash era pairs s).1 = pairs.filter (s.pending T stash era) ∧
      ∀ k a, ((purgeRetired T stash era pairs s).2.chain T
        k).roster.retiredAttestorBlsKeys.lookup a =
        if (k, a) ∈ pairs ∧ s.matured T stash era (k, a) = true then none
        else (s.chain T k).roster.retiredAttestorBlsKeys.lookup a := by
  induction pairs generalizing s with
  | nil => exact ⟨rfl, fun k a => (if_neg (by simp)).symm⟩
  | cons pair pairs ih =>
    obtain ⟨hfresh, hrest⟩ := List.nodup_cons.1 hnodup
    -- A pair whose era has not come makes no difference to the rows.
    have hstay : s.matured T stash era pair = false → ∀ k a,
        ((k, a) ∈ pair :: pairs ∧ s.matured T stash era (k, a) = true) ↔
          (k, a) ∈ pairs ∧ s.matured T stash era (k, a) = true := by
      intro hfalse k a
      rw [List.mem_cons]
      refine and_congr_left fun htrue => or_iff_right fun heq => ?_
      rw [heq, hfalse] at htrue
      cases htrue
    obtain ⟨j, b⟩ := pair
    simp only [purgeRetired]
    rw [List.filter_cons]
    rcases hrow : (s.chain T j).roster.retiredAttestorBlsKeys.lookup b with _ | entry
    · have hpending : s.pending T stash era (j, b) = false := by simp [pending, hrow]
      have hmatured : s.matured T stash era (j, b) = false := by simp [matured, hrow]
      simp only [hpending, Bool.false_eq_true, if_false, hstay hmatured]
      exact ih hrest s
    · by_cases hstash : entry.stash = stash
      · by_cases hera : entry.purgeAtEra ≤ era
        · have hpending : s.pending T stash era (j, b) = false := by
            simp [pending, hrow, hstash, hera]
          have hmatured : s.matured T stash era (j, b) = true := by
            simp [matured, hrow, hstash, hera]
          simp only [hstash, hera, hpending, ne_eq, not_true, if_false, if_true, Bool.false_eq_true]
          rw [Roster.purged_eq hrow]
          have hlookup : ∀ k a, ((s.setRoster T j ((s.chain T j).roster.forgetRetired b)).chain T
              k).roster.retiredAttestorBlsKeys.lookup a = if (k, a) = (j, b) then none
                else (s.chain T k).roster.retiredAttestorBlsKeys.lookup a := by
            intro k a
            rw [State.setRoster, State.chain_setChain]
            by_cases hk : k = j
            · rw [if_pos hk, Roster.lookup_forgetRetired]
              simp [hk]
            · rw [if_neg hk, if_neg (by simp [hk])]
          obtain ⟨hpairs, hrows⟩ :=
            ih hrest (s.setRoster T j ((s.chain T j).roster.forgetRetired b))
          refine ⟨hpairs.trans (List.filter_congr fun pair hpair => ?_), fun k a => ?_⟩
          · have hne : pair ≠ (j, b) := fun heq => hfresh (heq ▸ hpair)
            rw [pending, pending, hlookup, if_neg hne]
          · rw [hrows, hlookup, matured, hlookup]
            by_cases hpair : (k, a) = (j, b)
            · have hcond : (k, a) ∈ (j, b) :: pairs ∧ s.matured T stash era (k, a) = true := by
                rw [hpair]
                exact ⟨List.mem_cons_self, hmatured⟩
              rw [if_pos hpair, if_pos hcond, ite_self]
            · have hmem : (k, a) ∈ (j, b) :: pairs ↔ (k, a) ∈ pairs :=
                List.mem_cons.trans (or_iff_right hpair)
              simp only [if_neg hpair, hmem]
              rfl
        · have hpending : s.pending T stash era (j, b) = true := by
            simp [pending, hrow, hstash, not_le.1 hera]
          have hmatured : s.matured T stash era (j, b) = false := by simp [matured, hrow, hera]
          simp only [hstash, hera, hpending, ne_eq, not_true, if_false, if_true, hstay hmatured]
          exact ⟨congrArg _ (ih hrest s).1, (ih hrest s).2⟩
      · have hpending : s.pending T stash era (j, b) = false := by simp [pending, hrow, hstash]
        have hmatured : s.matured T stash era (j, b) = false := by simp [matured, hrow, hstash]
        simp only [hstash, hpending, ne_eq, not_false_eq_true, if_true, Bool.false_eq_true,
          if_false,
          hstay hmatured]
        exact ih hrest s

theorem retiredStash_of_matured {era : ℕ} {pair : ChainKey × A}
    (h : s.matured T stash era pair = true) : s.retiredStash T pair.1 pair.2 = some stash := by
  rw [matured, Option.any_eq_true] at h
  obtain ⟨entry, hentry, hcond⟩ := h
  rw [retiredStash, Roster.retiredStash, hentry, Option.map_some, (of_decide_eq_true hcond).1]

theorem pending_eq_not_matured {era : ℕ} {pair : ChainKey × A}
    (h : s.retiredStash T pair.1 pair.2 = some stash) :
    s.pending T stash era pair = !s.matured T stash era pair := by
  obtain ⟨entry, hentry, hstash⟩ := Option.map_eq_some_iff.1 h
  rw [pending, matured, hentry, Option.any_some, Option.any_some, hstash]
  by_cases hera : entry.purgeAtEra ≤ era
  · simp [hera]
  · simp [hera, not_le.1 hera]

/-- **A withdrawal drops the retired keys of the stash whose era has come**, and their pairs. -/
theorem withdrawUnbonded_rows (h : s.Indexed T) (hwithdraw : s.withdrawUnbonded T stash = .ok s') :
    (∀ k a, (s'.chain T k).roster.retiredAttestorBlsKeys.lookup a =
        if s.matured T stash s.currentEra (k, a) = true then none
        else (s.chain T k).roster.retiredAttestorBlsKeys.lookup a) ∧
      ∀ x, RetiredIndex.pairs s'.retiredAttestorKeysByStash x =
        if x = stash then
          (RetiredIndex.pairs s.retiredAttestorKeysByStash stash).filter
            (s.pending T stash s.currentEra)
        else RetiredIndex.pairs s.retiredAttestorKeysByStash x := by
  simp only [State.withdrawUnbonded, bind_eq_ok, pure_eq_ok] at hwithdraw
  obtain ⟨bonds, -, rfl⟩ := hwithdraw
  have hlisted : ∀ k a, s.matured T stash s.currentEra (k, a) = true →
      (k, a) ∈ RetiredIndex.pairs s.retiredAttestorKeysByStash stash :=
    fun k a hmatured => (h.exact.mem_iff stash k a).2 (retiredStash_of_matured hmatured)
  obtain ⟨hpairs, hrows⟩ :=
    purgeRetired_spec T stash s.currentEra (h.exact.nodup stash) s
  have hframe := purgeRetired_frame (T := T) stash s.currentEra
    (RetiredIndex.pairs s.retiredAttestorKeysByStash stash) s
  have hfold : (s.retiredAttestorKeysByStash.lookup stash).getD [] =
      RetiredIndex.pairs s.retiredAttestorKeysByStash stash := rfl
  simp only [purgeRetiredBlsKeysForStash, hfold]
  split
  · next hnil =>
    refine ⟨fun k a => ?_, fun x => ?_⟩
    · rw [if_neg]
      · rfl
      · intro hmatured
        have hmem := hlisted k a hmatured
        rw [hnil] at hmem
        cases hmem
    · rw [hnil, List.filter_nil]
      split
      · next heq => exact heq ▸ hnil
      · rfl
  · refine ⟨fun k a => ?_, fun x => ?_⟩
    · refine (hrows k a).trans ?_
      by_cases hmatured : s.matured T stash s.currentEra (k, a) = true
      · rw [if_pos hmatured, if_pos ⟨hlisted k a hmatured, hmatured⟩]
      · rw [if_neg hmatured, if_neg fun hand => hmatured hand.2]
    · dsimp only
      rw [hframe.2.2, ← hpairs, RetiredIndex.pairs]
      split
      · next hnil =>
        rw [StorageMap.lookup_erase_eq, hnil]
        split <;> rfl
      · rw [StorageMap.lookup_insert_eq]
        split <;> rfl

end State

/-! ## Every action keeps the index exact -/

theorem State.Indexed.withdraw (h : s.Indexed T) (hwithdraw : s.withdrawUnbonded T stash = .ok s') :
    s'.Indexed T := by
  obtain ⟨hrows, hpairs⟩ := State.withdrawUnbonded_rows h hwithdraw
  have hstashes : ∀ k a, s'.retiredStash T k a =
      if s.matured T stash s.currentEra (k, a) = true then none else s.retiredStash T k a := by
    intro k a
    rw [State.retiredStash, Roster.retiredStash, hrows]
    split <;> rfl
  refine ⟨⟨fun x k a => ?_, fun x => ?_⟩, fun k a => ?_⟩
  · rw [hpairs, hstashes]
    by_cases hx : x = stash
    · rw [if_pos hx, List.mem_filter, h.exact.mem_iff, hx]
      constructor
      · rintro ⟨hrow, hpending⟩
        rw [State.pending_eq_not_matured hrow] at hpending
        rw [if_neg (by simpa using hpending)]
        exact hrow
      · intro hrow
        split at hrow
        · cases hrow
        · next hmatured =>
          refine ⟨hrow, ?_⟩
          rw [State.pending_eq_not_matured hrow]
          simpa using hmatured
    · rw [if_neg hx, h.exact.mem_iff]
      split
      · next hmatured =>
        -- The row is one of the withdrawing stash.
        rw [State.retiredStash_of_matured hmatured, Option.some.injEq]
        exact iff_of_false (Ne.symm hx) (by simp)
      · rfl
  · rw [hpairs]
    split
    · exact (h.exact.nodup stash).filter _
    · exact h.exact.nodup x
  · rw [((State.withdrawUnbonded_effect hwithdraw).2.2 k).attestors.1, hrows]
    refine (h.apart k a).imp_right fun hnone => ?_
    rw [hnone, ite_self]

theorem State.Indexed.congr (h : s.Indexed T)
    (hindex : s'.retiredAttestorKeysByStash = s.retiredAttestorKeysByStash)
    (hrosters : ∀ k, (s.chain T k).roster.SameStakes (s'.chain T k).roster) : s'.Indexed T := by
  refine ⟨?_, fun k a => ?_⟩
  · rw [hindex]
    refine h.exact.congr fun k a => ?_
    rw [State.retiredStash, Roster.retiredStash, (hrosters k).retired]
    rfl
  · rw [(hrosters k).retired]
    refine (h.apart k a).imp_left fun hnone => ?_
    have hstashes := (hrosters k).stashes a
    rw [hnone, Option.map_none] at hstashes
    exact Option.map_eq_none_iff.1 hstashes

theorem State.Indexed.register (h : s.Indexed T)
    (hregister : s.registerAttestor T k stash a = .ok s') : s'.Indexed T := by
  obtain ⟨-, -, hothers, hroster, -⟩ := State.registerAttestor_effect hregister
  obtain ⟨hnone, -, -, -, hr, hindex⟩ := Roster.registerAttestor_effect hroster
  have hretired : ∀ b, (s'.chain T k).roster.retiredAttestorBlsKeys.lookup b =
      if b = a then none else (s.chain T k).roster.retiredAttestorBlsKeys.lookup b := by
    intro b
    rw [hr]
    exact Roster.lookup_forgetRetired _ a b
  refine ⟨?_, fun j b => ?_⟩
  · rw [hindex]
    refine h.exact.forget (fun _ => rfl) fun j b => ?_
    by_cases hj : j = k
    · subst hj
      rw [State.retiredStash, Roster.retiredStash, hretired]
      split
      · next heq => rw [if_pos ⟨rfl, heq⟩, Option.map_none]
      · next hne =>
        rw [if_neg fun hand => hne hand.2]
        rfl
    · rw [if_neg fun hand => hj hand.1, State.retiredStash, hothers j hj]
      rfl
  · by_cases hj : j = k
    · subst hj
      rw [hretired]
      split
      · exact .inr rfl
      · next hne =>
        have hattestors : (s'.chain T j).roster.attestors =
            (s.chain T j).roster.attestors.insert a ⟨none, .idle, stash⟩ :=
              congrArg Roster.attestors hr
        rw [hattestors, StorageMap.lookup_insert_eq, if_neg hne]
        exact h.apart j b
    · rw [hothers j hj]
      exact h.apart j b

theorem State.Indexed.unregister (h : s.Indexed T)
    (hremove : s.removeAttestor T k stash a = .ok s') : s'.Indexed T := by
  obtain ⟨-, hothers, attestor, hown, hroster, -⟩ := State.removeAttestor_effect hremove
  obtain ⟨hlookup, -, -⟩ := Roster.removableAttestor_eq_ok hown
  obtain ⟨hr, hindex⟩ := Roster.unregisterAttestor_effect hroster
  have hretired : (s'.chain T k).roster.retiredAttestorBlsKeys =
      (s.chain T k).roster.retiredWith a stash (satAdd u32Max s.currentEra T.bondingDuration)
        attestor.blsPublicKey := congrArg Roster.retiredAttestorBlsKeys hr
  have hattestors : (s'.chain T k).roster.attestors = (s.chain T k).roster.attestors.erase a :=
    congrArg Roster.attestors hr
  have hfresh : (s.chain T k).roster.retiredAttestorBlsKeys.lookup a = none := by
    refine (h.apart k a).resolve_left ?_
    rw [hlookup]
    simp
  refine ⟨?_, fun j b => ?_⟩
  · rcases hindex with ⟨hkey, hsame⟩ | ⟨hkey, hpush⟩
    · rw [hsame]
      refine h.exact.congr fun j b => ?_
      by_cases hj : j = k
      · subst hj
        rw [State.retiredStash, Roster.retiredStash, hretired, hkey]
        rfl
      · rw [State.retiredStash, hothers j hj]
        rfl
    · obtain ⟨key, hkey⟩ := Option.ne_none_iff_exists'.1 hkey
      refine h.exact.push (Roster.retiredStash_eq_none.2 hfresh) hpush fun j b => ?_
      by_cases hj : j = k
      · subst hj
        rw [State.retiredStash, Roster.retiredStash, hretired, hkey, Roster.retiredWith,
          StorageMap.lookup_insert_eq]
        split
        · next heq => rw [if_pos ⟨rfl, heq⟩, Option.map_some]
        · next hne =>
          rw [if_neg fun hand => hne hand.2]
          rfl
      · rw [if_neg fun hand => hj hand.1, State.retiredStash, hothers j hj]
        rfl
  · by_cases hj : j = k
    · subst hj
      rw [hattestors, StorageMap.lookup_erase_eq]
      split
      · exact .inl rfl
      · next hne =>
        refine (h.apart j b).imp_right fun hnone => ?_
        rw [hretired]
        unfold Roster.retiredWith
        split
        · exact hnone
        · rw [StorageMap.lookup_insert_eq, if_neg hne]
          exact hnone
    · rw [hothers j hj]
      exact h.apart j b

theorem State.Indexed.cleanedUp {host : Host H A} {phase : RemovedChainCleanupPhase A}
    (h : s.Indexed T) (hcleaned : CleanedUp T k host phase r s s') : s'.Indexed T := by
  have hbefore : ∀ a, s.retiredStash T k a = r.retiredStash a := by
    intro a
    rw [State.retiredStash, Roster.retiredStash, ← hcleaned.before.retired]
    rfl
  obtain ⟨hrows, hexact⟩ := cleanup_retired T host k phase r s.retiredAttestorKeysByStash
    (s.retiredStash T) hbefore h.exact
  obtain ⟨hstashes, -⟩ := cleanup_stashes T host k phase r s.retiredAttestorKeysByStash
  rw [← hcleaned.roster] at hrows hstashes
  refine ⟨?_, fun j a => ?_⟩
  · rw [hcleaned.index]
    refine hexact.congr fun j a => ?_
    by_cases hj : j = k
    · rw [if_pos hj, hj, State.retiredStash, hcleaned.roster]
    · rw [if_neg hj, State.retiredStash, Roster.retiredStash, (hcleaned.others j hj).retired]
      rfl
  · by_cases hj : j = k
    · subst hj
      rcases h.apart j a with hnone | hnone
      · refine .inl (Option.map_eq_none_iff.1 ((hstashes a).trans ?_))
        rw [hcleaned.before.stashes, hnone, Option.map_none]
      · refine .inr ((hrows a).elim id fun hsame => ?_)
        rw [hsame, hcleaned.before.retired, hnone]
    · have hsame := hcleaned.others j hj
      rw [hsame.retired]
      refine (h.apart j a).imp_left fun hnone => ?_
      have hstash := hsame.stashes a
      rw [hnone, Option.map_none] at hstash
      exact Option.map_eq_none_iff.1 hstash

/-- **Every action keeps the index of retired keys exact.** -/
theorem State.Indexed.move {act : Action T} (h : s.Indexed T) (hmove : StakeMove T act s s') :
    s'.Indexed T := by
  cases hmove with
  | quiet hquiet => exact h.congr hquiet.index hquiet.rosters
  | registered host o k stash a _ hregister => exact h.register hregister
  | unregistered k stash a hquiet hremove =>
    exact (h.congr hquiet.index hquiet.rosters).unregister hremove
  | withdrawn stash hwithdraw => exact h.withdraw hwithdraw
  | cleanedUp hcleaned => exact h.cleanedUp hcleaned
  | era _ _ | currency _ => exact h.congr rfl fun _ => .refl _

end Rows

theorem indexed_of_reachable [DecidableEq H] {T : Config H A B} {s : State H A B}
    (hreach : Reachable T s) : s.Indexed T := by
  obtain ⟨gc, s₀, acts, hgen, rfl⟩ := hreach
  induction acts using List.reverseRecOn with
  | nil =>
    have hindex : s₀.retiredAttestorKeysByStash = ∅ := (genesis_frame hgen).2.2
    have hnone : ∀ k a, (s₀.chain T k).roster.retiredAttestorBlsKeys.lookup a = none := by
      intro k a
      rw [genesis_roster hgen]
      exact AList.lookup_empty a
    refine ⟨⟨fun x k a => ?_, fun x => ?_⟩, fun k a => .inr (hnone k a)⟩
    · refine iff_of_false ?_ ?_
      · rw [run, List.foldl_nil, hindex, RetiredIndex.pairs, AList.lookup_empty]
        exact List.not_mem_nil
      · rw [State.retiredStash, Roster.retiredStash, run, List.foldl_nil, hnone]
        simp
    · rw [run, List.foldl_nil, hindex, RetiredIndex.pairs, AList.lookup_empty]
      exact List.nodup_nil
  | append_singleton acts act ih =>
    rw [run_append]
    exact ih.move (step_stakeMove _ act)

/-! ## The length of the lists -/

section Within

/-- No stash has more pairs listed than it may have. -/
def RetiredIndex.Within (index : RetiredIndex A) : Prop :=
  ∀ stash, (index.pairs stash).length ≤ maxRetiredPerStash

variable {index index' : RetiredIndex A} {k : ChainKey} {stash a : A}

theorem RetiredIndex.Within.remove (h : index.Within) (stash : A) (k : ChainKey) (a : A) :
    Within (removeStashRetiredIndexPair index stash k a) := by
  intro x
  rw [pairs_remove]
  split
  · exact (length_swapErase_le _ _).trans (h stash)
  · exact h x

theorem RetiredIndex.Within.push (h : index.Within)
    (hpush : Roster.pushRetired index stash (k, a) = .ok index') : index'.Within := by
  simp only [Roster.pushRetired, bind_eq_ok, ensure_eq_ok, pure_eq_ok] at hpush
  obtain ⟨-, hroom, rfl⟩ := hpush
  intro x
  rw [pairs, StorageMap.lookup_insert_eq]
  split
  · rw [Option.getD_some, List.length_append, List.length_singleton]
    exact hroom
  · exact h x

theorem RetiredIndex.Within.forgetPair (h : index.Within) (r : Roster A) (k : ChainKey) (a : A) :
    (r.forgetPair index k a).Within := by
  unfold Roster.forgetPair
  split
  · exact h
  · exact h.remove _ k a

theorem RetiredIndex.Within.cleanup (h : index.Within) (T : Config H A B) (host : Host H A)
    (k : ChainKey) (phase : RemovedChainCleanupPhase A) (r : Roster A) :
    (continueRemovedChainCleanup T host k phase r index).2.Within := by
  refine cleanup_induction (P := fun _ index => index.Within) (fun _ _ _ h => h) ?_
    (fun _ _ _ h => h) (fun _ _ _ h => h) (fun _ _ _ h => h) phase r index h
  intro r index a h
  unfold clearRetired
  split
  · exact h
  · exact h.remove _ k a

variable {T : Config H A B} {s s' : State H A B}

theorem RetiredIndex.Within.move {act : Action T} (hindexed : s.Indexed T)
    (h : RetiredIndex.Within s.retiredAttestorKeysByStash) (hmove : StakeMove T act s s') :
    RetiredIndex.Within s'.retiredAttestorKeysByStash := by
  cases hmove with
  | quiet hquiet => exact hquiet.index ▸ h
  | registered host o k stash a _ hregister =>
    obtain ⟨-, -, -, hroster, -⟩ := State.registerAttestor_effect hregister
    obtain ⟨-, -, -, -, -, hindex⟩ := Roster.registerAttestor_effect hroster
    rw [hindex]
    exact h.forgetPair _ k a
  | unregistered k stash a hquiet hremove =>
    obtain ⟨-, -, attestor, -, hroster, -⟩ := State.removeAttestor_effect hremove
    rw [hquiet.index] at hroster
    rcases (Roster.unregisterAttestor_effect hroster).2 with ⟨-, hsame⟩ | ⟨-, hpush⟩
    · exact hsame ▸ h
    · exact h.push hpush
  | withdrawn stash hwithdraw =>
    intro x
    rw [(State.withdrawUnbonded_rows hindexed hwithdraw).2]
    split
    · exact (List.length_filter_le _ _).trans (h stash)
    · exact h x
  | cleanedUp hcleaned =>
    rw [hcleaned.index]
    exact h.cleanup T _ _ _ _
  | era _ _ | currency _ => exact h

theorem within_of_reachable [DecidableEq H] (hreach : Reachable T s) :
    RetiredIndex.Within s.retiredAttestorKeysByStash := by
  obtain ⟨gc, s₀, acts, hgen, rfl⟩ := hreach
  induction acts using List.reverseRecOn with
  | nil =>
    intro x
    rw [run, List.foldl_nil, (genesis_frame hgen).2.2, RetiredIndex.pairs, AList.lookup_empty]
    exact Nat.zero_le _
  | append_singleton acts act ih =>
    rw [run_append]
    exact ih.move (indexed_of_reachable (reachable_run hgen acts)) (step_stakeMove _ act)

/-- **The index of retired keys mirrors their rows.** A pair is listed once for the stash that its
row names, and never for another or without a row; no stash has more than 64 pairs. -/
theorem retiredIndex_count [DecidableEq H] (hreach : Reachable T s) (stash : A) :
    (∀ k a, ((s.retiredAttestorKeysByStash.lookup stash).getD []).count (k, a) =
        if ((s.chain T k).roster.retiredAttestorBlsKeys.lookup a).map (·.stash) = some stash
        then 1 else 0) ∧
      ((s.retiredAttestorKeysByStash.lookup stash).getD []).length ≤ 64 := by
  obtain ⟨hmem, hnodup⟩ := (indexed_of_reachable hreach).exact
  refine ⟨fun k a => ?_, within_of_reachable hreach stash⟩
  change (RetiredIndex.pairs s.retiredAttestorKeysByStash stash).count (k, a) = _
  split
  · next hrow => exact List.count_eq_one_of_mem (hnodup stash) ((hmem stash k a).2 hrow)
  · next hrow => exact List.count_eq_zero.2 fun hlisted => hrow ((hmem stash k a).1 hlisted)

end Within

section Devnet

open Devnet

/-- Of the four keys of a stash the two that are retired are listed once, the others are not. -/
theorem devnet_retiredIndex_count :
    [1, 2, 3, 4].map (fun a =>
      ((resigned.retiredAttestorKeysByStash.lookup 10).getD []).count (1, a)) = [1, 1, 0, 0] := by
  simp only [(retiredIndex_count reachable_resigned 10).1 1]
  decide +kernel

end Devnet

end Creditcoin
