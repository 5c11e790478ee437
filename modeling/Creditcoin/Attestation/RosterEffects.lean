import Creditcoin.Attestation.Invariants

/-!
# What the roster functions do

What registering, unregistering and attesting write, and what chilling and elections do to the
statuses. -/

namespace Creditcoin

variable {H A B : Type} [DecidableEq A]

namespace Roster

variable {r r' : Roster A} {a stash : A} {k : ChainKey} {index index' : RetiredIndex A}

/-! ## Retired keys -/

/-- The roster without the retired key of a controller. -/
def forgetRetired (r : Roster A) (a : A) : Roster A :=
  match r.retiredAttestorBlsKeys.lookup a with
  | none => r
  | some entry =>
    { r.releaseKey entry.blsPublicKey a with
      retiredAttestorBlsKeys := r.retiredAttestorBlsKeys.erase a }

/-- The index without the pair of the retired key of a controller. -/
def forgetPair (r : Roster A) (index : RetiredIndex A) (k : ChainKey) (a : A) : RetiredIndex A :=
  match r.retiredAttestorBlsKeys.lookup a with
  | none => index
  | some entry => removeStashRetiredIndexPair index entry.stash k a

theorem releaseKey_eq (r : Roster A) (key : BlsPublicKey) (a : A) :
    r.releaseKey key a =
      { r with
        blsKeyOwner := if r.blsKeyOwner.lookup key = some a then r.blsKeyOwner.erase key
          else r.blsKeyOwner } := by
  unfold releaseKey
  split <;> rfl

theorem forgetRetired_eq (r : Roster A) (a : A) :
    r.forgetRetired a = { r with
      retiredAttestorBlsKeys := r.retiredAttestorBlsKeys.erase a
      blsKeyOwner := (r.forgetRetired a).blsKeyOwner } := by
  unfold forgetRetired
  split
  · next hnone => rw [StorageMap.erase_eq_self hnone]
  · rw [releaseKey_eq]

theorem forgetRetired_attestors (r : Roster A) (a : A) :
    (r.forgetRetired a).attestors = r.attestors := by
  rw [forgetRetired_eq]

theorem lookup_forgetRetired (r : Roster A) (a b : A) :
    (r.forgetRetired a).retiredAttestorBlsKeys.lookup b =
      if b = a then none else r.retiredAttestorBlsKeys.lookup b := by
  rw [forgetRetired_eq]
  exact StorageMap.lookup_erase_eq _ b a

theorem purged_eq {entry : RetiredAttestorBlsKeyEntry A}
    (h : r.retiredAttestorBlsKeys.lookup a = some entry) :
    { r.releaseKey entry.blsPublicKey a with
      retiredAttestorBlsKeys :=
        (r.releaseKey entry.blsPublicKey a).retiredAttestorBlsKeys.erase a } =
          r.forgetRetired a := by
  simp only [forgetRetired, h, releaseKey_eq]

theorem clearRetired_eq_ok
    (h : r.clearRetiredBlsEntryForController index k a stash = .ok (r', index')) :
    (∀ entry ∈ r.retiredAttestorBlsKeys.lookup a, entry.stash = stash) ∧
      r' = r.forgetRetired a ∧ index' = r.forgetPair index k a := by
  unfold clearRetiredBlsEntryForController at h
  split at h
  · next hnone =>
    simp only [Except.ok.injEq, Prod.mk.injEq] at h
    obtain ⟨rfl, rfl⟩ := h
    simp [forgetRetired, forgetPair, hnone]
  · next entry hentry =>
    simp only [bind_eq_ok, ensure_eq_ok, pure_eq_ok, Prod.mk.injEq] at h
    obtain ⟨-, hstash, rfl, rfl⟩ := h
    refine ⟨?_, ?_, by rw [forgetPair, hentry]⟩
    · intro entry' hentry'
      rwa [← Option.mem_unique hentry hentry']
    · simp only [forgetRetired, hentry, releaseKey_eq]

/-! ## Registration -/

theorem registerAttestor_effect {st : Settings}
    (h : r.registerAttestor st index k stash a = .ok (r', index')) :
    r.attestors.lookup a = none ∧ r.attestorsCount < st.maxAttestors ∧ a ≠ stash ∧
      (∀ entry ∈ r.retiredAttestorBlsKeys.lookup a, entry.stash = stash) ∧
      r' = { r.forgetRetired a with
        attestors := r.attestors.insert a ⟨none, .idle, stash⟩
        attestorsCount := satAdd u32Max r.attestorsCount 1
        attestorCollateral := r.attestorCollateral.insert a st.minBondRequirement
        events := r.events ++ [.attestorRegistered a] } ∧
      index' = r.forgetPair index k a := by
  simp only [registerAttestor, bind_eq_ok, ensure_eq_ok, pure_eq_ok, Prod.mk.injEq] at h
  obtain ⟨-, -, -, hnone, ⟨cleared, index''⟩, hclear, -, hcount, -, hne, rfl, rfl⟩ := h
  obtain ⟨hstash, rfl, rfl⟩ := clearRetired_eq_ok hclear
  rw [congrArg Roster.attestorsCount (forgetRetired_eq r a)] at hcount
  refine ⟨hnone, hcount, hne, hstash, ?_, rfl⟩
  rw [congrArg Roster.attestorsCount (forgetRetired_eq r a), forgetRetired_attestors,
    congrArg Roster.attestorCollateral (forgetRetired_eq r a),
    congrArg Roster.events (forgetRetired_eq r a)]

theorem removableAttestor_eq_ok {attestor : Attestor A}
    (h : r.removableAttestor stash a = .ok attestor) :
    r.attestors.lookup a = some attestor ∧ attestor.stash = stash ∧ attestor.status = .idle := by
  simp only [removableAttestor, bind_eq_ok, ensure_eq_ok, okOr_eq_ok, pure_eq_ok] at h
  obtain ⟨attestor, hlookup, -, hstash, -, hidle, rfl⟩ := h
  exact ⟨hlookup, hstash, hidle⟩

/-- The retired keys once the key of a controller, if it has one, is retired. -/
def retiredWith (r : Roster A) (a stash : A) (purgeAtEra : ℕ) (key : Option BlsPublicKey) :
    StorageMap A (RetiredAttestorBlsKeyEntry A) :=
  match key with
  | none => r.retiredAttestorBlsKeys
  | some blsPublicKey => r.retiredAttestorBlsKeys.insert a ⟨blsPublicKey, purgeAtEra, stash⟩

theorem unregisterAttestor_effect {attestor : Attestor A} {purgeAtEra : ℕ}
    (h : r.unregisterAttestor index k stash a purgeAtEra attestor = .ok (r', index')) :
    r' = { r with
        retiredAttestorBlsKeys := r.retiredWith a stash purgeAtEra attestor.blsPublicKey
        activeAttestors := swapErase r.activeAttestors a
        attestorCollateral := r.attestorCollateral.erase a
        attestors := r.attestors.erase a
        attestorsCount := r.attestorsCount - 1
        events := r.events ++ [.attestorUnregistered a] } ∧
      (attestor.blsPublicKey = none ∧ index' = index ∨
        attestor.blsPublicKey ≠ none ∧ pushRetired index stash (k, a) = .ok index') := by
  simp only [unregisterAttestor, bind_eq_ok, pure_eq_ok, Prod.mk.injEq] at h
  obtain ⟨⟨retired, index''⟩, hretire, rfl, rfl⟩ := h
  unfold retireKey at hretire
  split at hretire
  · next hnone =>
    simp only [Except.ok.injEq, Prod.mk.injEq] at hretire
    obtain ⟨rfl, rfl⟩ := hretire
    exact ⟨by rw [hnone]; rfl, .inl ⟨hnone, rfl⟩⟩
  · next key hkey =>
    simp only [bind_eq_ok, pure_eq_ok, Prod.mk.injEq] at hretire
    obtain ⟨index'', hpush, rfl, rfl⟩ := hretire
    exact ⟨by rw [hkey]; rfl, .inr ⟨by simp [hkey], hpush⟩⟩

/-! ## Attesting -/

/-- The owners of keys once a controller has given up one key and claimed another. -/
def ownersWith (r : Roster A) (a : A) (old : Option BlsPublicKey) (key : BlsPublicKey) :
    StorageMap BlsPublicKey A :=
  (match old with
    | some oldKey => if oldKey = key then r.blsKeyOwner else r.blsKeyOwner.erase oldKey
    | none => r.blsKeyOwner).insert key a

theorem startAttesting_effect {T : Config H A B} {supported : Bool} {key : BlsPublicKey}
    {pop : BlsSignature} (h : r.startAttesting T supported k a key pop = .ok r') :
    supported = true ∧ ∃ attestor, r.attestors.lookup a = some attestor ∧
      (attestor.blsPublicKey.isSome = true → attestor.status = .idle) ∧
      (∀ owner ∈ r.blsKeyOwner.lookup key, owner = a) ∧
      r' = { r with
        blsKeyOwner := r.ownersWith a attestor.blsPublicKey key
        attestors := r.attestors.insert a
          { attestor with status := .waiting, blsPublicKey := some key }
        events := r.events ++ [.attestorActivated a key] } := by
  simp only [startAttesting, bind_eq_ok, ensure_eq_ok, okOr_eq_ok, pure_eq_ok] at h
  obtain ⟨-, hsup, attestor, hlookup, -, hidle, -, -, -, -, -, -, -, howner, rfl⟩ := h
  exact ⟨hsup, attestor, hlookup, hidle, howner, rfl⟩

/-! ## Statuses -/

/-- The rosters differ in statuses, the active set and events only: each attestor of the first has
the status `f` gives in the second. -/
structure Restatus (f : A → AttestorStatus → AttestorStatus) (r r' : Roster A) : Prop where
  attestors : ∀ a, r'.attestors.lookup a =
    (r.attestors.lookup a).map fun attestor => { attestor with status := f a attestor.status }
  count : r'.attestorsCount = r.attestorsCount
  retired : r'.retiredAttestorBlsKeys = r.retiredAttestorBlsKeys
  owners : r'.blsKeyOwner = r.blsKeyOwner
  invulnerables : r'.invulnerables = r.invulnerables
  authorized : r'.authorizedAttestors = r.authorizedAttestors
  collateral : r'.attestorCollateral = r.attestorCollateral
  cleanup : r'.removedChainCleanup = r.removedChainCleanup

/-- Set the status of one attestor. -/
def onlyAt (a : A) (status : AttestorStatus) (a' : A) (old : AttestorStatus) : AttestorStatus :=
  if a' = a then status else old

theorem onlyAt_of_ne {a a' : A} (h : a' ≠ a) (status : AttestorStatus) :
    onlyAt a status a' = id := by
  funext old
  rw [onlyAt, if_neg h, id_eq]

theorem restatus_setStatus (r : Roster A) (a : A) (status : AttestorStatus) :
    Restatus (onlyAt a status) r (r.setStatus a status) := by
  unfold setStatus
  rcases hlookup : r.attestors.lookup a with _ | attestor
  · refine ⟨fun a' => ?_, rfl, rfl, rfl, rfl, rfl, rfl, rfl⟩
    rcases hlookup' : r.attestors.lookup a' with _ | attestor'
    · rw [Option.map_none]
    · have hne : a' ≠ a := by
        rintro rfl
        rw [hlookup] at hlookup'
        cases hlookup'
      rw [Option.map_some, onlyAt, if_neg hne]
  · refine ⟨fun a' => ?_, rfl, rfl, rfl, rfl, rfl, rfl, rfl⟩
    dsimp only
    rw [StorageMap.lookup_insert_eq]
    split
    · next heq => rw [heq, hlookup, Option.map_some, onlyAt, if_pos rfl]
    · next hne =>
      rcases r.attestors.lookup a' with _ | attestor'
      · rw [Option.map_none]
      · rw [Option.map_some, onlyAt, if_neg hne]

theorem setStatus_activeAttestors (r : Roster A) (a : A) (status : AttestorStatus) :
    (r.setStatus a status).activeAttestors = r.activeAttestors := by
  unfold setStatus
  split <;> rfl

theorem restatus_doChillAttestorImmediate (r : Roster A) (a : A) :
    Restatus (onlyAt a .idle) r (r.doChillAttestorImmediate a) := by
  have h := restatus_setStatus r a .idle
  exact { h with }

theorem doChillAttestorImmediate_activeAttestors (r : Roster A) (a : A) :
    (r.doChillAttestorImmediate a).activeAttestors = swapErase r.activeAttestors a :=
  congrArg (swapErase · a) (setStatus_activeAttestors r a .idle)

/-- What `chill` does: a waiting attestor becomes idle and leaves the set at once, an active one is
marked as leaving. -/
theorem chill_effect {who : A} (h : r.chill who a = .ok r') :
    ∃ attestor, r.attestors.lookup a = some attestor ∧
      (attestor.status = .waiting ∧ r' = r.doChillAttestorImmediate a ∨
        attestor.status = .active ∧ r' = r.scheduleVoluntaryChill a) := by
  simp only [chill, bind_eq_ok, ensure_eq_ok, okOr_eq_ok] at h
  obtain ⟨attestor, hlookup, -, -, h⟩ := h
  refine ⟨attestor, hlookup, ?_⟩
  split at h
  · simp at h
  · simp at h
  · next hwaiting => exact .inl ⟨hwaiting, (pure_eq_ok.1 h).symm⟩
  · next hactive => exact .inr ⟨hactive, (pure_eq_ok.1 h).symm⟩

/-! ## Elections -/

/-- The status after an election, for those it passes over. -/
def electedStatus (r : Roster A) (policy : AttestorElectionPolicy) (a : A) :
    AttestorStatus → AttestorStatus
  | .active => .active
  | .waiting => if r.admits policy a then .active else .waiting
  | .leaving => .idle
  | .idle => .idle

/-- The election goes over the accounts of a list. -/
def electedIn (r : Roster A) (policy : AttestorElectionPolicy) (accounts : List A) (a : A)
    (old : AttestorStatus) : AttestorStatus :=
  if a ∈ accounts then r.electedStatus policy a old else old

variable {f : A → AttestorStatus → AttestorStatus}

theorem Restatus.trans {g : A → AttestorStatus → AttestorStatus} {r'' : Roster A}
    (h : Restatus f r r') (h' : Restatus g r' r'') :
    Restatus (fun a old => g a (f a old)) r r'' where
  attestors a := by
    rw [h'.attestors, h.attestors, Option.map_map]
    rfl
  count := h'.count.trans h.count
  retired := h'.retired.trans h.retired
  owners := h'.owners.trans h.owners
  invulnerables := h'.invulnerables.trans h.invulnerables
  authorized := h'.authorized.trans h.authorized
  collateral := h'.collateral.trans h.collateral
  cleanup := h'.cleanup.trans h.cleanup

theorem Restatus.congr {g : A → AttestorStatus → AttestorStatus} (h : Restatus f r r')
    (hfg : ∀ a attestor, r.attestors.lookup a = some attestor →
      f a attestor.status = g a attestor.status) : Restatus g r r' where
  attestors a := by
    rw [h.attestors]
    rcases hlookup : r.attestors.lookup a with _ | attestor
    · rfl
    · rw [Option.map_some, Option.map_some, hfg a attestor hlookup]
  count := h.count
  retired := h.retired
  owners := h.owners
  invulnerables := h.invulnerables
  authorized := h.authorized
  collateral := h.collateral
  cleanup := h.cleanup

theorem Restatus.refl (r : Roster A) : Restatus (fun _ old => old) r r :=
  ⟨fun a => by rcases r.attestors.lookup a with _ | attestor <;> rfl,
    rfl, rfl, rfl, rfl, rfl, rfl, rfl⟩

theorem Restatus.admits (h : Restatus f r r') (policy : AttestorElectionPolicy) (a : A) :
    r'.admits policy a = r.admits policy a := by
  unfold Roster.admits
  rw [h.authorized]

theorem Restatus.attestorStatus (h : Restatus f r r') (a : A) :
    r'.attestorStatus a = (r.attestorStatus a).map (f a) := by
  unfold Roster.attestorStatus
  rw [h.attestors, Option.map_map, Option.map_map]
  rfl

/-- **The loop of an election.** It returns those who are active after it among the accounts it goes
over, and changes their statuses. -/
theorem electLoop_spec (policy : AttestorElectionPolicy) {accounts : List A}
    (hnodup : accounts.Nodup)
    (r : Roster A) :
    Restatus (r.electedIn policy accounts) r (electLoop policy accounts r).2 ∧
      (electLoop policy accounts r).2.activeAttestors = r.activeAttestors ∧
      (electLoop policy accounts r).1 = accounts.filter fun a =>
        (r.attestorStatus a).map (r.electedStatus policy a) = some .active := by
  induction accounts generalizing r with
  | nil => exact ⟨(Restatus.refl r).congr fun _ _ _ => rfl, rfl, rfl⟩
  | cons account accounts ih =>
    obtain ⟨hnotin, hnodup⟩ := List.nodup_cons.1 hnodup
    -- The election of the rest, from a roster in which only the first account has changed.
    have hrest : ∀ (status : AttestorStatus) (r₁ : Roster A),
        Restatus (onlyAt account status) r r₁ → r₁.activeAttestors = r.activeAttestors →
        (∀ old, r.attestorStatus account = some old → r.electedStatus policy account old = status) →
        Restatus (r.electedIn policy (account :: accounts)) r (electLoop policy accounts r₁).2 ∧
          (electLoop policy accounts r₁).2.activeAttestors = r.activeAttestors ∧
          (electLoop policy accounts r₁).1 = accounts.filter fun a =>
            (r.attestorStatus a).map (r.electedStatus policy a) = some .active := by
      intro status r₁ h₁ hactive hstatus
      obtain ⟨hre, hact, hfilter⟩ := ih hnodup r₁
      have hsame : ∀ a, r₁.electedStatus policy a = r.electedStatus policy a := by
        intro a
        funext old
        cases old <;> simp only [electedStatus, h₁.admits]
      refine ⟨(h₁.trans hre).congr fun a attestor hlookup => ?_, hact.trans hactive, ?_⟩
      · dsimp only [electedIn]
        rcases eq_or_ne a account with rfl | hne
        · rw [if_neg hnotin, if_pos List.mem_cons_self, onlyAt, if_pos rfl]
          exact (hstatus _ (by rw [attestorStatus, hlookup]; rfl)).symm
        · rw [onlyAt_of_ne hne, id_eq, hsame]
          simp only [List.mem_cons, hne, false_or]
      · rw [hfilter]
        refine List.filter_congr fun a ha => ?_
        have hne : a ≠ account := fun heq => hnotin (heq ▸ ha)
        rw [h₁.attestorStatus, hsame, onlyAt_of_ne hne, Option.map_id, id_eq]
    have hself : ∀ status, (∀ old, r.attestorStatus account = some old → old = status) →
        Restatus (onlyAt account status) r r := by
      intro status hstatus
      refine (Restatus.refl r).congr fun a attestor hlookup => ?_
      rw [onlyAt]
      split
      · next heq => exact hstatus _ (by rw [attestorStatus, ← heq, hlookup]; rfl)
      · rfl
    simp only [electLoop]
    rcases hold : r.attestorStatus account with _ | old
    · obtain ⟨hre, hact, hfilter⟩ := hrest .idle r (hself _ (by simp [hold])) rfl (by simp [hold])
      exact ⟨hre, hact, by rw [hfilter, List.filter_cons_of_neg (by simp [hold])]⟩
    · cases old with
      | active =>
        obtain ⟨hre, hact, hfilter⟩ := hrest .active r (hself _ (by simp [hold])) rfl
          (by simp [hold, electedStatus])
        exact ⟨hre, hact, by rw [hfilter, List.filter_cons_of_pos (by simp [hold, electedStatus])]⟩
      | waiting =>
        dsimp only
        split
        · next hadmits =>
          obtain ⟨hre, hact, hfilter⟩ := hrest .active (r.setStatus account .active)
            (restatus_setStatus r account .active) (setStatus_activeAttestors _ _ _)
            (by simp [hold, electedStatus, hadmits])
          exact ⟨hre, hact, by
            rw [hfilter, List.filter_cons_of_pos (by simp [hold, electedStatus, hadmits])]⟩
        · next hadmits =>
          obtain ⟨hre, hact, hfilter⟩ := hrest .waiting r (hself _ (by simp [hold])) rfl
            (by simp [hold, electedStatus, hadmits])
          exact ⟨hre, hact, by
            rw [hfilter, List.filter_cons_of_neg (by simp [hold, electedStatus, hadmits])]⟩
      | leaving =>
        have hidle := restatus_setStatus r account .idle
        obtain ⟨hre, hact, hfilter⟩ := hrest .idle { r.setStatus account .idle with
            events := (r.setStatus account .idle).events ++ [.attestorChilled account] }
          { hidle with } (setStatus_activeAttestors _ _ _) (by simp [hold, electedStatus])
        exact ⟨hre, hact, by rw [hfilter, List.filter_cons_of_neg (by simp [hold, electedStatus])]⟩
      | idle =>
        obtain ⟨hre, hact, hfilter⟩ := hrest .idle r (hself _ (by simp [hold])) rfl
          (by simp [hold, electedStatus])
        exact ⟨hre, hact, by rw [hfilter, List.filter_cons_of_neg (by simp [hold, electedStatus])]⟩

theorem electLoop_all (T : Config H A B) (policy : AttestorElectionPolicy) (r : Roster A) :
    Restatus (r.electedStatus policy) r
        (electLoop policy (r.attestors.iterKeys T.accountRank) r).2 ∧
      (electLoop policy (r.attestors.iterKeys T.accountRank) r).2.activeAttestors =
        r.activeAttestors ∧
      (electLoop policy (r.attestors.iterKeys T.accountRank) r).1.Nodup ∧
      ∀ a, a ∈ (electLoop policy (r.attestors.iterKeys T.accountRank) r).1 ↔
        (r.attestorStatus a).map (r.electedStatus policy a) = some .active := by
  have hkeys := r.attestors.nodup_iterKeys T.accountRank
  obtain ⟨hre, hactive, hfilter⟩ := electLoop_spec policy hkeys r
  refine ⟨hre.congr fun a attestor hlookup => ?_, hactive, ?_, fun a => ?_⟩
  · rw [electedIn, if_pos ((StorageMap.mem_iterKeys _ _ _).2 ⟨attestor, hlookup⟩)]
  · rw [hfilter]
    exact hkeys.filter _
  · rw [hfilter, List.mem_filter, decide_eq_true_iff, StorageMap.mem_iterKeys,
      and_iff_right_iff_imp]
    intro hstatus
    rcases hlookup : r.attestors.lookup a with _ | attestor
    · simp [attestorStatus, hlookup] at hstatus
    · exact ⟨attestor, rfl⟩

theorem restatus_electAttestorsForChain (T : Config H A B) (policy : AttestorElectionPolicy)
    (epoch : ℕ) (r : Roster A) :
    Restatus (r.electedStatus policy) r (r.electAttestorsForChain T policy epoch) := by
  have hall := (electLoop_all T policy r).1
  unfold electAttestorsForChain
  dsimp only
  split
  · exact hall
  · exact { hall with }

/-- **The elected set**: those who are active after the election, each once. The set is left as it
was when it has the same members, so it must have been free of duplicates. -/
theorem mem_electAttestorsForChain (T : Config H A B) (policy : AttestorElectionPolicy) (epoch : ℕ)
    (hnodup : r.activeAttestors.Nodup) :
    (r.electAttestorsForChain T policy epoch).activeAttestors.Nodup ∧
      ∀ a, a ∈ (r.electAttestorsForChain T policy epoch).activeAttestors ↔
        (r.attestorStatus a).map (r.electedStatus policy a) = some .active := by
  obtain ⟨-, hactive, helected, hmem⟩ := electLoop_all T policy r
  unfold electAttestorsForChain
  dsimp only
  split
  · next hsame =>
    -- Two lists of the same length without duplicates, one contained in the other.
    rw [sameMembership, Bool.and_eq_true, decide_eq_true_iff, List.all_eq_true] at hsame
    obtain ⟨hlength, hsub⟩ := hsame
    rw [hactive] at hlength hsub ⊢
    have hperm := (List.subperm_of_subset helected fun a ha => by
      simpa using hsub a ha).perm_of_length_le hlength.ge
    exact ⟨hnodup, fun a => (hperm.mem_iff.symm).trans (hmem a)⟩
  · exact ⟨helected, hmem⟩

end Roster

end Creditcoin
