import Creditcoin.Attestation.RosterEffects

/-!
# What an action does to stakes

A `StakeMove` is what an action can do to bonds, attestors and retired keys: register or unregister
an attestor, withdraw, clean up after a removed chain, move to another era or change balances. Every
other action is `Quiet`. -/

namespace Creditcoin

variable {H A B : Type} [DecidableEq A]

/-! ## Rosters -/

namespace Roster

variable {r r' r'' : Roster A}

/-- The same stashes stand behind the attestors, with the same collateral, and the same keys are
retired. -/
structure SameStakes (r r' : Roster A) : Prop where
  stashes : ∀ a, (r'.attestors.lookup a).map (·.stash) = (r.attestors.lookup a).map (·.stash)
  collateral : r'.attestorCollateral = r.attestorCollateral
  retired : r'.retiredAttestorBlsKeys = r.retiredAttestorBlsKeys

theorem SameStakes.refl (r : Roster A) : r.SameStakes r := ⟨fun _ => rfl, rfl, rfl⟩

theorem SameStakes.trans (h : r.SameStakes r') (h' : r'.SameStakes r'') : r.SameStakes r'' :=
  ⟨fun a => (h'.stashes a).trans (h.stashes a), h'.collateral.trans h.collateral,
    h'.retired.trans h.retired⟩

theorem Restatus.sameStakes {f : A → AttestorStatus → AttestorStatus} (h : Restatus f r r') :
    r.SameStakes r' where
  stashes a := by
    rw [h.attestors, Option.map_map]
    rfl
  collateral := h.collateral
  retired := h.retired

theorem startAttesting_sameStakes {T : Config H A B} {supported : Bool} {k : ChainKey} {a : A}
    {key : BlsPublicKey} {pop : BlsSignature} (h : r.startAttesting T supported k a key pop =
      .ok r') :
    r.SameStakes r' := by
  obtain ⟨-, attestor, hlookup, -, -, rfl⟩ := startAttesting_effect h
  refine ⟨fun b => ?_, rfl, rfl⟩
  dsimp only
  rw [StorageMap.lookup_insert_eq]
  split
  · next heq => rw [heq, hlookup, Option.map_some, Option.map_some]
  · rfl

theorem chill_sameStakes {who a : A} (h : r.chill who a = .ok r') : r.SameStakes r' := by
  obtain ⟨attestor, -, ⟨-, rfl⟩ | ⟨-, rfl⟩⟩ := chill_effect h
  · exact (restatus_doChillAttestorImmediate r a).sameStakes
  · exact (restatus_setStatus r a .leaving).sameStakes

end Roster

/-! ## Cleanup of a removed chain -/

section Cleanup

variable {T : Config H A B} {host : Host H A} {k : ChainKey}

/-- **Induction over a batch of the cleanup.** What chilling an attestor, dropping a retired key and
clearing key owners and invulnerables preserve, a batch preserves. -/
theorem cleanup_induction {P : Roster A → RetiredIndex A → Prop}
    (hchill : ∀ r index a, P r index → P (chillRemoved r a) index)
    (hrow : ∀ r index a, P r index →
      P (clearRetired k (r, index) a).1 (clearRetired k (r, index) a).2)
    (howners : ∀ r index owners, P r index → P { r with blsKeyOwner := owners } index)
    (hinvulnerables : ∀ r index invulnerables, P r index →
      P { r with invulnerables := invulnerables } index)
    (hrecord : ∀ r index next, P r index → P { r with removedChainCleanup := next } index)
    (phase : RemovedChainCleanupPhase A) (r : Roster A) (index : RetiredIndex A) (h : P r index) :
    P (continueRemovedChainCleanup T host k phase r index).1
      (continueRemovedChainCleanup T host k phase r index).2 := by
  have hinv : ∀ budget r index, P r index → P (cleanupInvulnerables host budget r).1 index :=
    fun budget r index h => hinvulnerables r index _ h
  have hown : ∀ budget r index, P r index → P (cleanupBlsKeyOwners host budget r).1 index := by
    intro budget r index h
    unfold cleanupBlsKeyOwners
    dsimp only
    split
    · exact howners r index _ h
    · exact hinv _ _ index (howners r index _ h)
  have hretired : ∀ budget r index, P r index →
      P (cleanupRetiredKeys T host k budget r index).1
        (cleanupRetiredKeys T host k budget r index).2.1 := by
    intro budget r index h
    have hfold : ∀ (rows : List A) (p : Roster A × RetiredIndex A), P p.1 p.2 →
        P (rows.foldl (clearRetired k) p).1 (rows.foldl (clearRetired k) p).2 := by
      intro rows
      induction rows with
      | nil => exact fun p hp => hp
      | cons a rows ih => exact fun p hp => ih _ (hrow p.1 p.2 a hp)
    unfold cleanupRetiredKeys
    dsimp only
    split
    · exact hown _ _ _ (hfold _ (r, index) h)
    · exact hfold _ (r, index) h
  have hrun : P (runRemovedChainCleanup T host k phase r index).1
      (runRemovedChainCleanup T host k phase r index).2.1 := by
    cases phase with
    | chillAttestors cursor =>
      have hfold :
        ∀ (ids : List A) (r : Roster A), P r index → P (ids.foldl chillRemoved r) index := by
        intro ids
        induction ids with
        | nil => exact fun r h => h
        | cons a ids ih => exact fun r h => ih _ (hchill r index a h)
      simp only [runRemovedChainCleanup, cleanupChill]
      split
      · exact hretired _ _ index (hfold _ r h)
      · exact hfold _ r h
    | retiredKeys => exact hretired _ r index h
    | blsKeyOwners => exact hown _ r index h
    | invulnerables => exact hinv _ r index h
  exact hrecord _ _ _ hrun

theorem cleanup_stashes (T : Config H A B) (host : Host H A) (k : ChainKey)
    (phase : RemovedChainCleanupPhase A) (r : Roster A) (index : RetiredIndex A) :
    (∀ a, ((continueRemovedChainCleanup T host k phase r index).1.attestors.lookup a).map
        (·.stash) = (r.attestors.lookup a).map (·.stash)) ∧
      (continueRemovedChainCleanup T host k phase r index).1.attestorCollateral =
        r.attestorCollateral := by
  refine cleanup_induction (P := fun r' _ =>
    (∀ a, (r'.attestors.lookup a).map (·.stash) = (r.attestors.lookup a).map (·.stash)) ∧
      r'.attestorCollateral = r.attestorCollateral) ?_ ?_ ?_ ?_ ?_ phase r index ⟨fun _ => rfl, rfl⟩
  · intro r' index' a h
    have hsame := (Roster.restatus_setStatus r' a .idle).sameStakes
    exact ⟨fun b => (hsame.stashes b).trans (h.1 b), hsame.collateral.trans h.2⟩
  · intro r' index' a h
    unfold clearRetired
    split <;> exact h
  · exact fun _ _ _ h => h
  · exact fun _ _ _ h => h
  · exact fun _ _ _ h => h

end Cleanup

/-! ## Moves -/

section Moves

variable (T : Config H A B)

/-- Nothing changes that bonds and stakes depend on. -/
structure Quiet (s s' : State H A B) : Prop where
  ledger : s'.bonds.ledger = s.bonds.ledger
  balances : s'.bonds.balances = s.bonds.balances
  era : s'.currentEra = s.currentEra
  index : s'.retiredAttestorKeysByStash = s.retiredAttestorKeysByStash
  rosters : ∀ k, (s.chain T k).roster.SameStakes (s'.chain T k).roster

/-- One batch of the cleanup of the chain `k`, on a roster with the stakes it has in `s`. -/
structure CleanedUp (k : ChainKey) (host : Host H A) (phase : RemovedChainCleanupPhase A)
    (r : Roster A) (s s' : State H A B) : Prop where
  ledger : s'.bonds.ledger = s.bonds.ledger
  balances : s'.bonds.balances = s.bonds.balances
  era : s'.currentEra = s.currentEra
  others : ∀ j, j ≠ k → (s.chain T j).roster.SameStakes (s'.chain T j).roster
  before : (s.chain T k).roster.SameStakes r
  roster : (s'.chain T k).roster =
    (continueRemovedChainCleanup T host k phase r s.retiredAttestorKeysByStash).1
  index : s'.retiredAttestorKeysByStash =
    (continueRemovedChainCleanup T host k phase r s.retiredAttestorKeysByStash).2

/-- What an action can do to bonds, attestors and retired keys. -/
inductive StakeMove (act : Action T) (s : State H A B) : State H A B → Prop
  | quiet {s' : State H A B} (h : Quiet T s s') : StakeMove act s s'
  | registered {s' : State H A B} (host : Host H A) (o : Origin A) (k : ChainKey)
      (stash attestorId : A) (hact : act = .call host o (.registerAttestor k attestorId))
      (h : s.registerAttestor T k stash attestorId = .ok s') : StakeMove act s s'
  | unregistered {s₁ s' : State H A B} (k : ChainKey) (stash attestorId : A) (hquiet : Quiet T s s₁)
      (h : s₁.removeAttestor T k stash attestorId = .ok s') : StakeMove act s s'
  | withdrawn {s' : State H A B} (stash : A) (h : s.withdrawUnbonded T stash = .ok s') :
      StakeMove act s s'
  | cleanedUp {s' : State H A B} {k : ChainKey} {host : Host H A}
      {phase : RemovedChainCleanupPhase A} {r : Roster A} (h : CleanedUp T k host phase r s s') :
      StakeMove act s s'
  | era (era : ℕ) (hact : act = .era era) : StakeMove act s { s with currentEra := era }
  | currency (tx : T.currency.Transaction) : StakeMove act s
      { s with bonds := { s.bonds with balances := T.currency.exec tx s.bonds.balances } }

end Moves

section Inversion

variable {T : Config H A B} {act : Action T} {s s' s'' : State H A B} {k : ChainKey}

theorem Quiet.refl (s : State H A B) : Quiet T s s := ⟨rfl, rfl, rfl, rfl, fun _ => .refl _⟩

theorem Quiet.trans (h : Quiet T s s') (h' : Quiet T s' s'') : Quiet T s s'' :=
  ⟨h'.ledger.trans h.ledger, h'.balances.trans h.balances, h'.era.trans h.era,
    h'.index.trans h.index, fun k => (h.rosters k).trans (h'.rosters k)⟩

theorem quiet_setChain {c : Chain H A} (h : (s.chain T k).roster.SameStakes c.roster) :
    Quiet T s (s.setChain k c) := by
  refine ⟨rfl, rfl, rfl, rfl, fun j => ?_⟩
  rw [State.chain_setChain]
  split
  · next heq => exact heq ▸ h
  · exact .refl _

theorem quiet_setAnchors (a : Anchors H A) : Quiet T s (s.setAnchors T k a) :=
  quiet_setChain (.refl _)

theorem quiet_setSettings (st : Settings) : Quiet T s (s.setSettings T k st) :=
  quiet_setChain (.refl _)

variable {r : Roster A}

theorem quiet_setRoster (h : (s.chain T k).roster.SameStakes r) : Quiet T s (s.setRoster T k r) :=
  quiet_setChain h

theorem quiet_foldl (f : State H A B → ChainKey → State H A B) (hf : ∀ s k, Quiet T s (f s k))
    (ks : List ChainKey) (s : State H A B) : Quiet T s (ks.foldl f s) := by
  induction ks generalizing s with
  | nil => exact .refl s
  | cons k ks ih => exact (hf s k).trans (ih _)

theorem quiet_electChain (epoch : ℕ) (s : State H A B) (k : ChainKey) :
    Quiet T s (s.electChain T epoch k) :=
  quiet_setRoster (Roster.restatus_electAttestorsForChain T _ epoch _).sameStakes

theorem quiet_applyIntervalUpdates (s : State H A B) : Quiet T s (s.applyIntervalUpdates T) :=
  quiet_foldl _ (fun _ _ => quiet_setSettings _) _ s

theorem stakeMove_kickAttestor {a : A} {unregister : Bool}
    (h : s.kickAttestor T k a unregister = .ok s') : StakeMove T act s s' := by
  simp only [State.kickAttestor, bind_eq_ok, okOr_eq_ok] at h
  obtain ⟨attestor, -, h⟩ := h
  have hchill : Quiet T s (s.setRoster T k ((s.chain T k).roster.doChillAttestorImmediate a)) :=
    quiet_setRoster (Roster.restatus_doChillAttestorImmediate _ a).sameStakes
  split at h
  · exact .unregistered k attestor.stash a hchill h
  · rw [pure_eq_ok] at h
    exact .quiet (h ▸ hchill)

theorem quiet_forceElection (h : forceElection T s k = .ok s') : Quiet T s s' := by
  simp only [forceElection, bind_eq_ok, pure_eq_ok] at h
  obtain ⟨-, -, rfl⟩ := h
  exact (quiet_electChain s.currentEpochIndex s k).trans (quiet_setRoster ⟨fun _ => rfl, rfl, rfl⟩)

theorem quiet_withSettings {x : Except Error Settings} (h : s.withSettings T k x = .ok s') :
    Quiet T s s' := by
  obtain ⟨st, -, rfl⟩ := withSettings_eq_ok.1 h
  exact quiet_setSettings st

theorem quiet_withAnchors {x : Except Error (Anchors H A)} (h : s.withAnchors T k x = .ok s') :
    Quiet T s s' := by
  obtain ⟨a, -, rfl⟩ := withAnchors_eq_ok.1 h
  exact quiet_setAnchors a

theorem quiet_withRoster {x : Except Error (Roster A)}
    (hx : ∀ r, x = .ok r → (s.chain T k).roster.SameStakes r) (h : s.withRoster T k x = .ok s') :
    Quiet T s s' := by
  obtain ⟨r, hr, rfl⟩ := withRoster_eq_ok.1 h
  exact quiet_setRoster (hx r hr)

variable [DecidableEq H]

omit [DecidableEq A] in
theorem onInit_induction {P : State H A B → Prop}
    (hset : ∀ s k a, P s → P (s.setAnchors T k a)) (host : Host H A) (h : P s) :
    P (onInitClearAttestations T host (onInitClearBuckets T host
      (onInitClearCheckpoints T host (onInitPruneCheckpoints T s)))) := by
  have hprune : P (onInitPruneCheckpoints T s) := by
    unfold onInitPruneCheckpoints
    split
    · exact hset _ _ _ h
    · exact h
  have hcheckpoints : ∀ s, P s → P (onInitClearCheckpoints T host s) := by
    intro s h
    unfold onInitClearCheckpoints
    split
    · exact hset _ _ _ h
    · exact h
  have hbuckets : ∀ s, P s → P (onInitClearBuckets T host s) := by
    intro s h
    unfold onInitClearBuckets
    split
    · exact hset _ _ _ h
    · exact h
  have hattestations : ∀ s, P s → P (onInitClearAttestations T host s) := by
    intro s h
    unfold onInitClearAttestations
    split
    · exact hset _ _ _ h
    · exact h
  exact hattestations _ (hbuckets _ (hcheckpoints _ hprune))

theorem quiet_onInit (host : Host H A) (s : State H A B) :
    Quiet T s (onInitClearAttestations T host (onInitClearBuckets T host
      (onInitClearCheckpoints T host (onInitPruneCheckpoints T s)))) :=
  onInit_induction (fun _ _ a h => h.trans (quiet_setAnchors a)) host (.refl s)

variable {host : Host H A}

omit [DecidableEq H] in
theorem Quiet.cleanedUp {s₁ : State H A B} {phase : RemovedChainCleanupPhase A}
    (hquiet : Quiet T s s₁) (h : CleanedUp T k host phase r s₁ s') :
    CleanedUp T k host phase r s s' where
  ledger := h.ledger.trans hquiet.ledger
  balances := h.balances.trans hquiet.balances
  era := h.era.trans hquiet.era
  others j hj := (hquiet.rosters j).trans (h.others j hj)
  before := (hquiet.rosters k).trans h.before
  roster := hquiet.index ▸ h.roster
  index := hquiet.index ▸ h.index

omit [DecidableEq H] in
theorem cleanedUp_setChain {phase : RemovedChainCleanupPhase A} (g : Registry) (c : Chain H A)
    (hbefore : (s.chain T k).roster.SameStakes r) (hc : c.roster =
      (continueRemovedChainCleanup T host k phase r s.retiredAttestorKeysByStash).1) :
    CleanedUp T k host phase r s
      { s.setChain k c with
        registry := g
        retiredAttestorKeysByStash :=
          (continueRemovedChainCleanup T host k phase r s.retiredAttestorKeysByStash).2 } := by
  refine ⟨rfl, rfl, rfl, fun j hj => ?_, hbefore, ?_, rfl⟩
  · have hsame : (s.setChain k c).chain T j = s.chain T j := State.chain_setChain_of_ne T s hj c
    exact hsame ▸ Roster.SameStakes.refl _
  · exact (congrArg Chain.roster (State.chain_setChain_self T s k c)).trans hc

theorem stakeMove_onInitialize (host : Host H A) (hs : Quiet T s' s) :
    StakeMove T act s' (onInitialize T host s) := by
  have hquiet := hs.trans (quiet_onInit host s)
  unfold onInitialize
  generalize onInitClearAttestations T host (onInitClearBuckets T host
    (onInitClearCheckpoints T host (onInitPruneCheckpoints T s))) = s₁ at hquiet
  unfold onInitCleanupRemovedChains
  split
  · next k phase _ =>
    exact .cleanedUp (hquiet.cleanedUp (cleanedUp_setChain s₁.registry
      { s₁.chain T k with
        roster := (continueRemovedChainCleanup T host k phase (s₁.chain T k).roster
          s₁.retiredAttestorKeysByStash).1 } (.refl _) rfl))
  · exact .quiet hquiet

theorem stakeMove_removeChain {b : Bool} (h : s.removeChain T host k b = .ok s') :
    StakeMove T act s s' := by
  simp only [State.removeChain, bind_eq_ok, pure_eq_ok] at h
  obtain ⟨g, -, rfl⟩ := h
  exact .cleanedUp (cleanedUp_setChain g _ ⟨fun _ => rfl, rfl, rfl⟩ rfl)

/-- **Inversion of a call for stakes.** -/
theorem dispatch_stakeMove {o : Origin A} {call : Call H A}
    (h : dispatch T host s o call = .ok s') :
    StakeMove T (.call host o call) s s' := by
  cases call with
  | registerAttestor k a =>
    obtain ⟨who, -, h⟩ := asSigned_eq_ok.1 h
    exact .registered host o k who a rfl h
  | unregisterAttestor k a =>
    obtain ⟨who, -, h⟩ := asSigned_eq_ok.1 h
    exact .unregistered k who a (.refl s) h
  | kickActiveAttestor k a unregister => exact stakeMove_kickAttestor (asOperator_eq_ok.1 h).2
  | withdrawUnbonded =>
    obtain ⟨who, -, h⟩ := asSigned_eq_ok.1 h
    exact .withdrawn who h
  | removeChain k b => exact stakeMove_removeChain (asOperator_eq_ok.1 h).2
  | commitAttestation att =>
    obtain ⟨who, -, h⟩ := asSigned_eq_ok.1 h
    obtain ⟨-, a, n, -, rfl⟩ := State.commitAttestation_eq_ok.1 h
    exact .quiet (quiet_setAnchors a)
  | attest k key pop =>
    obtain ⟨who, -, h⟩ := asSigned_eq_ok.1 h
    exact .quiet (quiet_withRoster (fun r => Roster.startAttesting_sameStakes) h)
  | chill k a =>
    obtain ⟨who, -, h⟩ := asSigned_eq_ok.1 h
    exact .quiet (quiet_withRoster (fun r => Roster.chill_sameStakes) h)
  | forceElection k => exact .quiet (quiet_forceElection (asOperator_eq_ok.1 h).2)
  | forceApplyUpdates =>
    simp only [dispatch, asOperator_eq_ok, Except.ok.injEq] at h
    obtain ⟨-, rfl⟩ := h
    have hquiet := quiet_applyIntervalUpdates (T := T) s
    exact .quiet ⟨hquiet.ledger, hquiet.balances, hquiet.era, hquiet.index, hquiet.rosters⟩
  | registerChain chainId name p encoding strategy =>
    simp only [dispatch, asOperator_eq_ok, State.registerChain, bind_eq_ok, pure_eq_ok] at h
    obtain ⟨-, ⟨k, g⟩, -, st, -, rfl⟩ := h
    have hquiet := quiet_setSettings (T := T) (s := s) (k := k) st
    exact .quiet ⟨rfl, rfl, rfl, rfl, hquiet.rosters⟩
  | setMaturityStrategy _ _ | setChainName _ _ =>
    simp only [dispatch, asOperator_eq_ok, map_eq_ok] at h
    obtain ⟨-, g, -, rfl⟩ := h
    exact .quiet ⟨rfl, rfl, rfl, rfl, fun _ => .refl _⟩
  | registerInvulnerable _ _ | authorizeAttestor _ _ =>
    refine .quiet (quiet_withRoster (fun r hr => ?_) (asOperator_eq_ok.1 h).2)
    simp only [Roster.registerInvulnerable, Roster.authorizeAttestor, bind_eq_ok, pure_eq_ok] at hr
    obtain ⟨-, -, -, -, rfl⟩ := hr
    exact ⟨fun _ => rfl, rfl, rfl⟩
  | unregisterInvulnerable _ _ | removeAuthorizedAttestor _ _ =>
    refine .quiet (quiet_withRoster (fun r hr => ?_) (asOperator_eq_ok.1 h).2)
    simp only [Roster.unregisterInvulnerable, Roster.removeAuthorizedAttestor, bind_eq_ok,
      pure_eq_ok] at hr
    obtain ⟨-, -, rfl⟩ := hr
    exact ⟨fun _ => rfl, rfl, rfl⟩
  | importCheckpoints _ _ | forwardPatchCheckpoints _ _ _ =>
    simp only [dispatch, asOperator_eq_ok, bind_eq_ok] at h
    obtain ⟨-, -, -, h⟩ := h
    exact .quiet (quiet_withAnchors h)
  | revertTo k height => exact .quiet (quiet_withAnchors (asOperator_eq_ok.1 h).2)
  | setChainAttestationInterval _ _ | setTargetSampleSize _ _ | setMaxAttestors _ _
  | setMaxInvulnerables _ _ | setAttestationsPerCheckpoint _ _ | setMinBondRequirement _ _
  | setAttestationChainGenesisBlockNumber _ _ | setElectionPolicy _ _ | setMaxCatchup _ _ =>
    exact .quiet (quiet_withSettings (asOperator_eq_ok.1 h).2)

/-- **Inversion of an action for stakes.** -/
theorem step_stakeMove (s : State H A B) (act : Action T) : StakeMove T act s (step T s act) := by
  cases act with
  | call host o call =>
    rcases h : dispatch T host s o call with e | s'
    · simp only [step, h]
      exact .quiet (.refl s)
    · simp only [step, h]
      exact dispatch_stakeMove h
  | block host =>
    have hblock : Quiet T s { s with blockNumber := s.blockNumber + 1 } :=
      ⟨rfl, rfl, rfl, rfl, fun _ => .refl _⟩
    exact stakeMove_onInitialize host hblock
  | epoch epoch =>
    have hepoch : Quiet T s { s with currentEpochIndex := epoch } :=
      ⟨rfl, rfl, rfl, rfl, fun _ => .refl _⟩
    refine .quiet (hepoch.trans (Quiet.trans ?_ (quiet_applyIntervalUpdates _)))
    exact quiet_foldl _ (quiet_electChain epoch) _ _
  | era era => exact .era era rfl
  | currency tx => exact .currency tx

end Inversion

end Creditcoin
