import Creditcoin.Attestation.StakeMoves

/-!
# What bonding does to a ledger

The effect of bonding, unbonding and withdrawing on the ledger and the balance of the stash. -/

namespace Creditcoin

variable {H A B : Type}

/-! ## Chunks -/

namespace AttestorLedger

/-- What the chunks add up to. -/
def unlockingTotal (unlocking : List UnlockChunk) : ℕ := (unlocking.map (·.value)).sum

/-- The ledger from which a bond is released: at the bound of chunks, without those that are
free. -/
def released (T : Config H A B) (currentEra : ℕ) (l : AttestorLedger A) : AttestorLedger A :=
  if T.maxUnlockingChunks ≤ l.unlocking.length then l.consolidateUnlocked currentEra else l

/-- The ledger after a withdrawal. Nothing is free in the first era. -/
def withdrawn (currentEra : ℕ) (l : AttestorLedger A) : AttestorLedger A :=
  if 0 < currentEra then l.consolidateUnlocked currentEra else l

theorem released_cases (T : Config H A B) (currentEra : ℕ) (l : AttestorLedger A) :
    l.released T currentEra = l.consolidateUnlocked currentEra ∨
      l.released T currentEra = l ∧ l.unlocking.length < T.maxUnlockingChunks := by
  unfold released
  split
  · exact .inl rfl
  · next h => exact .inr ⟨rfl, not_le.1 h⟩

theorem withdrawn_cases (currentEra : ℕ) (l : AttestorLedger A) :
    l.withdrawn currentEra = l.consolidateUnlocked currentEra ∨ l.withdrawn currentEra = l := by
  unfold withdrawn
  split
  · exact .inl rfl
  · exact .inr rfl

@[simp] theorem released_stash (T : Config H A B) (currentEra : ℕ) (l : AttestorLedger A) :
    (l.released T currentEra).stash = l.stash := by
  unfold released
  split <;> rfl

@[simp] theorem released_active (T : Config H A B) (currentEra : ℕ) (l : AttestorLedger A) :
    (l.released T currentEra).active = l.active := by
  unfold released
  split <;> rfl

@[simp] theorem withdrawn_stash (currentEra : ℕ) (l : AttestorLedger A) :
    (l.withdrawn currentEra).stash = l.stash := by
  unfold withdrawn
  split <;> rfl

@[simp] theorem withdrawn_active (currentEra : ℕ) (l : AttestorLedger A) :
    (l.withdrawn currentEra).active = l.active := by
  unfold withdrawn
  split <;> rfl

end AttestorLedger

/-! ## Ledgers -/

variable [DecidableEq A]

namespace Bonds

variable {T : Config H A B} {b b' : Bonds A B} {stash attestorId : A} {bond minBond : ℕ}
  {currentEra purgeAtEra : ℕ}

/-- The ledger `l` is written, and the lock set to its total. -/
structure Writes (T : Config H A B) (b b' : Bonds A B) (l : AttestorLedger A) : Prop where
  ledger : ∀ a, b'.ledger.lookup a = if a = l.stash then some l else b.ledger.lookup a
  balances : b'.balances = T.currency.setLock b.balances l.stash l.totalStaked

theorem update_eq_ok {l : AttestorLedger A} (h : b.update T l = .ok b') :
    (b.ledger.lookup l.stash).isSome = true ∧ Writes T b b' l ∧ b'.events = b.events := by
  simp only [update, bind_eq_ok, ensure_eq_ok, pure_eq_ok] at h
  obtain ⟨-, hsome, rfl⟩ := h
  exact ⟨hsome, ⟨fun a => StorageMap.lookup_insert_eq _ _ _ _, rfl⟩, rfl⟩

/-- Bonding for an attestor opens the ledger of the stash, with a reference to the account, or adds
to it. -/
theorem bondForAttestor_effect (h : b.bondForAttestor T minBond stash attestorId = .ok b') :
    ∃ funded, T.currency.transfer b.balances stash attestorId oneTenthCtc = some funded ∧
      ((b.ledger.lookup stash = none ∧
          (∀ a, b'.ledger.lookup a =
            if a = stash then some (.new stash minBond) else b.ledger.lookup a) ∧
          T.currency.incConsumers (T.currency.setLock funded stash minBond) stash =
            some b'.balances) ∨
        ∃ l, b.ledger.lookup stash = some l ∧ l.totalStaked + minBond ≤ u128Max ∧
          Writes T { b with balances := funded } b'
            { l with totalStaked := l.totalStaked + minBond, active := l.active + minBond }) := by
  simp only [bondForAttestor, bind_eq_ok, okOr_eq_ok] at h
  obtain ⟨-, -, funded, hfunded, h⟩ := h
  refine ⟨funded, hfunded, ?_⟩
  rcases hledger : b.ledger.lookup stash with _ | l
  · refine .inl ⟨rfl, ?_⟩
    -- The ledger is there when its lock is set.
    have hbond : Bonds.bond T { b with balances := funded } (.new stash minBond) =
        .ok { b with
          balances := T.currency.setLock funded stash minBond
          ledger := (b.ledger.insert stash (.new stash minBond)).insert stash
            (.new stash minBond) } := by
      simp [Bonds.bond, update, AttestorLedger.new, hledger, ensure, bind, Except.bind, pure,
        Except.pure]
    rw [hbond] at h
    simp only [bind_eq_ok, okOr_eq_ok, pure_eq_ok] at h
    obtain ⟨consumed, hconsumed, rfl⟩ := h
    refine ⟨fun a => ?_, hconsumed⟩
    dsimp only
    rw [AList.insert_insert]
    exact StorageMap.lookup_insert_eq _ _ _ _
  · have hbond : Bonds.bond T { b with balances := funded } (.new stash minBond) =
        .error .alreadyBonded := by
      simp [Bonds.bond, AttestorLedger.new, hledger, ensure, bind, Except.bind]
    rw [hbond] at h
    simp only [bondExtra, bind_eq_ok, okOr_eq_ok, ensure_eq_ok, pure_eq_ok, hledger,
      Option.some.injEq] at h
    obtain ⟨_, rfl, -, -, -, -, -, hmax, -, -, b₁, hupdate, rfl⟩ := h
    obtain ⟨-, hwrites, -⟩ := update_eq_ok hupdate
    exact .inr ⟨l, rfl, hmax, { hwrites with }⟩

omit [DecidableEq A] in
theorem releaseMatured_fst (T : Config H A B) (b : Bonds A B) (currentEra : ℕ)
    (l : AttestorLedger A) : (b.releaseMatured T currentEra l).1 = l.released T currentEra := by
  unfold releaseMatured AttestorLedger.released
  split <;> rfl

omit [DecidableEq A] in
theorem releaseMatured_frame (T : Config H A B) (b : Bonds A B) (currentEra : ℕ)
    (l : AttestorLedger A) :
    (b.releaseMatured T currentEra l).2.ledger = b.ledger ∧
      (b.releaseMatured T currentEra l).2.balances = b.balances ∧
      ∃ events, (b.releaseMatured T currentEra l).2.events = b.events ++ events := by
  unfold releaseMatured
  split
  · dsimp only
    split
    · exact ⟨rfl, rfl, [], (List.append_nil _).symm⟩
    · exact ⟨rfl, rfl, _, rfl⟩
  · exact ⟨rfl, rfl, [], (List.append_nil _).symm⟩

theorem unbond_effect (h : b.unbond T currentEra purgeAtEra stash bond = .ok b') :
    ∃ l, b.ledger.lookup stash = some l ∧
      ((min bond l.active = 0 ∧ b' = b) ∨
        min bond l.active ≠ 0 ∧ ∃ unlocking value rest,
          (T.currency.minimumBalance ≤ l.active - min bond l.active ∧
              value = min bond l.active ∧ rest = l.active - min bond l.active ∨
            l.active - min bond l.active < T.currency.minimumBalance ∧
              value = l.active ∧ rest = 0) ∧
          AttestorLedger.pushChunk T.maxUnlockingChunks (l.released T currentEra).unlocking value
            purgeAtEra = .ok unlocking ∧
          Writes T b b' { l.released T currentEra with active := rest, unlocking := unlocking } ∧
          ∃ events, b'.events = b.events ++ events ++ [.unbonded stash value]) := by
  simp only [unbond, bind_eq_ok, okOr_eq_ok] at h
  obtain ⟨l, hl, h⟩ := h
  refine ⟨l, hl, ?_⟩
  split at h
  · next hzero =>
    rw [pure_eq_ok] at h
    exact .inl ⟨hzero, h.symm⟩
  · next hpos =>
    obtain ⟨hledger, hbalances, events, hevents⟩ := releaseMatured_frame T b currentEra l
    simp only [bind_eq_ok, pure_eq_ok, releaseMatured_fst, AttestorLedger.released_active] at h
    obtain ⟨unlocking, hpush, b₁, hupdate, rfl⟩ := h
    obtain ⟨-, hwrites, hevents₁⟩ := update_eq_ok hupdate
    refine .inr ⟨hpos, unlocking, _, if l.active - min bond l.active < T.currency.minimumBalance
      then 0 else l.active - min bond l.active, ?_, hpush, ⟨fun a => ?_, ?_⟩, events, ?_⟩
    · by_cases hdust : l.active - min bond l.active < T.currency.minimumBalance
      · rw [if_pos hdust, if_pos hdust]
        exact .inr ⟨hdust, by omega, rfl⟩
      · rw [if_neg hdust, if_neg hdust]
        exact .inl ⟨not_lt.1 hdust, rfl, rfl⟩
    · exact hledger ▸ hwrites.ledger a
    · exact hbalances ▸ hwrites.balances
    · rw [hevents₁, hevents]

theorem withdrawUnbonded_effect (h : b.withdrawUnbonded T currentEra stash = .ok b') :
    ∃ l, b.ledger.lookup stash = some l ∧
      (((l.withdrawn currentEra).unlocking = [] ∧
          (l.active < T.currency.minimumBalance ∨ l.active = 0) ∧
          (∀ a, b'.ledger.lookup a = if a = l.stash then none else b.ledger.lookup a) ∧
          b'.balances =
            T.currency.decConsumers (T.currency.removeLock b.balances l.stash) l.stash) ∨
        ¬ ((l.withdrawn currentEra).unlocking = [] ∧
            (l.active < T.currency.minimumBalance ∨ l.active = 0)) ∧
          Writes T b b' (l.withdrawn currentEra)) := by
  simp only [withdrawUnbonded, bind_eq_ok, okOr_eq_ok] at h
  obtain ⟨l, hl, h⟩ := h
  refine ⟨l, hl, ?_⟩
  have hframe : ∀ (p : Prop) [Decidable p] (b₁ : Bonds A B) (event : BondEvent A),
      (if p then { b₁ with events := b₁.events ++ [event] } else b₁).ledger = b₁.ledger ∧
        (if p then { b₁ with events := b₁.events ++ [event] } else b₁).balances = b₁.balances := by
    intro p _ b₁ event
    split <;> exact ⟨rfl, rfl⟩
  have hfold : (if 0 < currentEra then l.consolidateUnlocked currentEra else l) =
      l.withdrawn currentEra := rfl
  rw [hfold, AttestorLedger.withdrawn_active, AttestorLedger.withdrawn_stash] at h
  split at h
  · next hempty =>
    simp only [killStash, bind_eq_ok, ensure_eq_ok, pure_eq_ok] at h
    obtain ⟨_, ⟨-, -, rfl⟩, rfl⟩ := h
    refine .inl ⟨hempty.1, hempty.2, fun a => ?_, ?_⟩
    · rw [(hframe _ _ _).1]
      exact StorageMap.lookup_erase_eq _ _ _
    · rw [(hframe _ _ _).2]
  · next hleft =>
    simp only [bind_eq_ok, pure_eq_ok] at h
    obtain ⟨b₁, hupdate, rfl⟩ := h
    obtain ⟨-, hwrites, -⟩ := update_eq_ok hupdate
    refine .inr ⟨hleft, fun a => ?_, ?_⟩
    · rw [(hframe _ _ _).1]
      exact hwrites.ledger a
    · rw [(hframe _ _ _).2]
      exact hwrites.balances

end Bonds

/-! ## Calls -/

section Calls

variable {T : Config H A B} {s s' : State H A B} {k : ChainKey} {stash a : A}

theorem State.registerAttestor_effect (h : s.registerAttestor T k stash a = .ok s') :
    s.isChainSupported k = true ∧ s'.currentEra = s.currentEra ∧
      (∀ j, j ≠ k → (s'.chain T j).roster = (s.chain T j).roster) ∧
      (s.chain T k).roster.registerAttestor (s.chain T k).settings s.retiredAttestorKeysByStash k
        stash a = .ok ((s'.chain T k).roster, s'.retiredAttestorKeysByStash) ∧
      s.bonds.bondForAttestor T (s.chain T k).settings.minBondRequirement stash a =
        .ok s'.bonds := by
  simp only [State.registerAttestor, bind_eq_ok, ensure_eq_ok, pure_eq_ok] at h
  obtain ⟨-, hsup, ⟨r, index⟩, hr, bonds, hbonds, rfl⟩ := h
  have hself : (s.setRoster T k r).chain T k = { s.chain T k with roster := r } :=
    State.chain_setChain_self T s k _
  refine ⟨hsup, rfl, fun j hj => ?_, ?_, hbonds⟩
  · exact congrArg Chain.roster (State.chain_setChain_of_ne T s hj _)
  · exact hr.trans (congrArg (fun c : Chain H A => Except.ok (c.roster, index)) hself.symm)

theorem State.removeAttestor_effect (h : s.removeAttestor T k stash a = .ok s') :
    s'.currentEra = s.currentEra ∧
      (∀ j, j ≠ k → (s'.chain T j).roster = (s.chain T j).roster) ∧
      ∃ attestor, (s.chain T k).roster.removableAttestor stash a = .ok attestor ∧
        (s.chain T k).roster.unregisterAttestor s.retiredAttestorKeysByStash k stash a
          (satAdd u32Max s.currentEra T.bondingDuration) attestor =
            .ok ((s'.chain T k).roster, s'.retiredAttestorKeysByStash) ∧
        s.bonds.unbond T s.currentEra (satAdd u32Max s.currentEra T.bondingDuration) stash
          (((s.chain T k).roster.attestorCollateral.lookup a).getD
            (s.chain T k).settings.minBondRequirement) = .ok s'.bonds := by
  simp only [State.removeAttestor, bind_eq_ok, pure_eq_ok] at h
  obtain ⟨attestor, hown, bonds, hbonds, ⟨r, index⟩, hr, rfl⟩ := h
  have hself : (s.setRoster T k r).chain T k = { s.chain T k with roster := r } :=
    State.chain_setChain_self T s k _
  refine ⟨rfl, fun j hj => ?_, attestor, hown, ?_, hbonds⟩
  · exact congrArg Chain.roster (State.chain_setChain_of_ne T s hj _)
  · exact hr.trans (congrArg (fun c : Chain H A => Except.ok (c.roster, index)) hself.symm)

/-- The retired keys of a chain after a purge: some are gone, each with the claim on its key. -/
inductive Purged : Roster A → Roster A → Prop
  | refl (r : Roster A) : Purged r r
  | tail {r r' : Roster A} (h : Purged r r') (a : A) : Purged r (r'.forgetRetired a)

theorem State.purgeRetired_frame (stash : A) (era : ℕ) (pairs : List (ChainKey × A))
    (s : State H A B) :
    (State.purgeRetired T stash era pairs s).2.bonds = s.bonds ∧
      (State.purgeRetired T stash era pairs s).2.currentEra = s.currentEra ∧
      (State.purgeRetired T stash era pairs s).2.retiredAttestorKeysByStash =
        s.retiredAttestorKeysByStash := by
  induction pairs generalizing s with
  | nil => exact ⟨rfl, rfl, rfl⟩
  | cons pair pairs ih =>
    obtain ⟨j, a⟩ := pair
    simp only [State.purgeRetired]
    split
    · exact ih s
    · split
      · exact ih s
      · split
        · exact ih _
        · exact ih s

theorem Purged.trans {r r' r'' : Roster A} (h : Purged r r') (h' : Purged r' r'') :
    Purged r r'' := by
  induction h' with
  | refl => exact h
  | tail _ a ih => exact .tail ih a

theorem State.purgeRetired_purged (stash : A) (era : ℕ) (pairs : List (ChainKey × A))
    (s : State H A B) (k : ChainKey) :
    Purged (s.chain T k).roster ((State.purgeRetired T stash era pairs s).2.chain T k).roster := by
  induction pairs generalizing s with
  | nil => exact .refl _
  | cons pair pairs ih =>
    obtain ⟨j, a⟩ := pair
    simp only [State.purgeRetired]
    split
    · exact ih s
    · next entry hentry =>
      split
      · exact ih s
      · split
        · rw [Roster.purged_eq hentry]
          refine Purged.trans ?_ (ih _)
          rw [State.setRoster, State.chain_setChain]
          split
          · next heq => exact heq ▸ .tail (.refl _) a
          · exact .refl _
        · exact ih s

theorem Purged.attestors {r r' : Roster A} (h : Purged r r') :
    r'.attestors = r.attestors ∧ r'.attestorCollateral = r.attestorCollateral := by
  induction h with
  | refl => exact ⟨rfl, rfl⟩
  | tail _ a ih =>
    rw [Roster.forgetRetired_eq]
    exact ih

theorem State.withdrawUnbonded_effect (h : s.withdrawUnbonded T stash = .ok s') :
    s'.currentEra = s.currentEra ∧
      s.bonds.withdrawUnbonded T s.currentEra stash = .ok s'.bonds ∧
      ∀ j, Purged (s.chain T j).roster (s'.chain T j).roster := by
  simp only [State.withdrawUnbonded, bind_eq_ok, pure_eq_ok] at h
  obtain ⟨bonds, hbonds, rfl⟩ := h
  refine ⟨?_, hbonds, fun j => ?_⟩
  · simp only [State.purgeRetiredBlsKeysForStash]
    split
    · rfl
    · exact (State.purgeRetired_frame stash _ _ s).2.1
  · simp only [State.purgeRetiredBlsKeysForStash]
    split
    · exact .refl _
    · exact State.purgeRetired_purged stash _ _ s j

end Calls

end Creditcoin
