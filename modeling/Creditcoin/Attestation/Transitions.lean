import Creditcoin.Attestation.Runtime
import Mathlib.Logic.Relation

/-!
# What an action can do to one chain

An action changes the record of a chain by elementary steps (`AnchorStep`, `RosterStep`,
`SettingsStep`), each by one function of the model under its guard. `step_cases` is the inversion of
`step` that all invariants of a chain rest on. -/

namespace Creditcoin

open Relation (ReflTransGen)

variable {H A B : Type}

/-! ## Successful calls -/

section Calls

variable {T : Config H A B} {k : ChainKey} {s s' : State H A B}

theorem withAnchors_eq_ok {x : Except Error (Anchors H A)} :
    s.withAnchors T k x = .ok s' ↔ ∃ a, x = .ok a ∧ s.setAnchors T k a = s' := by
  cases x <;> simp [State.withAnchors, Except.map]

theorem withRoster_eq_ok {x : Except Error (Roster A)} :
    s.withRoster T k x = .ok s' ↔ ∃ r, x = .ok r ∧ s.setRoster T k r = s' := by
  cases x <;> simp [State.withRoster, Except.map]

theorem withSettings_eq_ok {x : Except Error Settings} :
    s.withSettings T k x = .ok s' ↔ ∃ st, x = .ok st ∧ s.setSettings T k st = s' := by
  cases x <;> simp [State.withSettings, Except.map]

theorem asOperator_eq_ok {o : Origin A} {x : Except Error (State H A B)} :
    asOperator T o x = .ok s' ↔ T.operatorsOrigin o = true ∧ x = .ok s' := by
  simp [asOperator, bind_eq_ok]

theorem asSigned_eq_ok {o : Origin A} {f : A → Except Error (State H A B)} :
    asSigned o f = .ok s' ↔ ∃ who, o = .signed who ∧ f who = .ok s' := by
  simp [asSigned, bind_eq_ok]

end Calls

variable [DecidableEq H] [DecidableEq A] (T : Config H A B)

/-! ## Elementary steps -/

/-- What the start of a block may do to the anchors of a chain. -/
inductive Sweep : Anchors H A → Anchors H A → Prop
  | pruned {a : Anchors H A} {state : CheckpointPruningState}
      (h : a.checkpointPruningState = some state) : Sweep a (pruneCheckpoints T state a)
  | checkpointsCleared {a : Anchors H A} (kill : KillResult ℕ)
      (h : a.checkpointClearingCursor ≠ none) : Sweep a (clearCheckpoints kill a)
  | bucketsCleared {a : Anchors H A} (kill : KillResult (ℕ × ℕ))
      (h : a.bucketClearingCursor ≠ none) : Sweep a (clearBuckets kill a)
  | attestationsCleared {a : Anchors H A} (kill : KillResult H)
      (h : a.attestationClearingCursor ≠ none) : Sweep a (a.clearAttestations kill)

/-- A step of the anchors of a chain with the given settings and roster. -/
inductive AnchorStep (supported : Bool) (st : Settings) (r : Roster A) :
    Anchors H A → Anchors H A → Prop
  | committed {a a' : Anchors H A} {n : ℕ} (now : ℕ) (att : SignedAttestation H A)
      (h : doCommitAttestation T supported now ⟨a, r, st⟩ att = .ok (a', n)) :
      AnchorStep supported st r a a'
  | imported {a a' : Anchors H A} (checkpoints : List (AttestationCheckpoint H))
      (h : doImportCheckpoints supported a checkpoints = .ok a') : AnchorStep supported st r a a'
  | reverted {a a' : Anchors H A} (kill : KillResult H) (checkpointHeight : U64)
      (h : revertTo T supported kill a checkpointHeight = .ok a') : AnchorStep supported st r a a'
  | patched {a a' : Anchors H A} (kill : KillResult H) (wipe : Bool)
      (checkpoints : List (AttestationCheckpoint H))
      (h : doForwardPatchCheckpoints T supported kill a wipe checkpoints = .ok a') :
      AnchorStep supported st r a a'
  | swept {a a' : Anchors H A} (h : Sweep T a a') : AnchorStep supported st r a a'

inductive RosterStep (supported : Bool) (k : ChainKey) (st : Settings) : Roster A → Roster A → Prop
  | registered {r r' : Roster A} (hsup : supported = true) (index index' : RetiredIndex A)
      (stash attestorId : A) (h : r.registerAttestor st index k stash attestorId =
        .ok (r', index')) :
      RosterStep supported k st r r'
  | unregistered {r r' : Roster A} {attestor : Attestor A} (index index' : RetiredIndex A)
      (stash attestorId : A) (purgeAtEra : ℕ)
      (hown : r.removableAttestor stash attestorId = .ok attestor)
      (h : r.unregisterAttestor index k stash attestorId purgeAtEra attestor = .ok (r', index')) :
      RosterStep supported k st r r'
  | activated {r r' : Roster A} (who : A) (key : BlsPublicKey) (pop : BlsSignature)
      (h : r.startAttesting T supported k who key pop = .ok r') : RosterStep supported k st r r'
  | chilled {r r' : Roster A} (who attestorId : A) (h : r.chill who attestorId = .ok r') :
      RosterStep supported k st r r'
  | kicked {r : Roster A} (attestorId : A) :
      RosterStep supported k st r (r.doChillAttestorImmediate attestorId)
  | elected {r : Roster A} (hsup : supported = true) (epoch : ℕ) :
      RosterStep supported k st r (r.electAttestorsForChain T st.chainElectionPolicy epoch)
  | announced {r : Roster A} (events : List (RosterEvent A)) :
      RosterStep supported k st r { r with events := events }
  | invulnerable {r r' : Roster A} (address : A)
      (h : r.registerInvulnerable supported st address = .ok r') : RosterStep supported k st r r'
  | vulnerable {r r' : Roster A} (address : A) (h : r.unregisterInvulnerable address = .ok r') :
      RosterStep supported k st r r'
  | authorized {r r' : Roster A} (attestorId : A)
      (h : r.authorizeAttestor supported attestorId = .ok r') : RosterStep supported k st r r'
  | unauthorized {r r' : Roster A} (attestorId : A)
      (h : r.removeAuthorizedAttestor attestorId = .ok r') : RosterStep supported k st r r'
  | purged {r : Roster A} {entry : RetiredAttestorBlsKeyEntry A} (attestorId : A)
      (h : r.retiredAttestorBlsKeys.lookup attestorId = some entry) :
      RosterStep supported k st r
        { r.releaseKey entry.blsPublicKey attestorId with
          retiredAttestorBlsKeys :=
            (r.releaseKey entry.blsPublicKey attestorId).retiredAttestorBlsKeys.erase attestorId }
  | cleanedUp {r : Roster A} {phase : RemovedChainCleanupPhase A} (host : Host H A)
      (index : RetiredIndex A) (h : r.removedChainCleanup = some phase) :
      RosterStep supported k st r (continueRemovedChainCleanup T host k phase r index).1

inductive SettingsStep (supported : Bool) (c : Chain H A) : Settings → Prop
  | interval {st : Settings} (v : ℕ)
      (h : c.settings.setChainAttestationInterval T supported v = .ok st) :
      SettingsStep supported c st
  | sampleSize {st : Settings} (v : ℕ) (h : c.settings.setTargetSampleSize supported v = .ok st) :
      SettingsStep supported c st
  | maxCatchup {st : Settings} (v : ℕ) (h : c.settings.setMaxCatchup T supported v = .ok st) :
      SettingsStep supported c st
  | perCheckpoint {st : Settings} (v : ℕ)
      (h : c.settings.setAttestationsPerCheckpoint T supported v = .ok st) :
      SettingsStep supported c st
  | maxAttestors {st : Settings} (v : ℕ)
      (h : c.settings.setMaxAttestors T supported c.roster v = .ok st) :
      SettingsStep supported c st
  | maxInvulnerables {st : Settings} (v : ℕ)
      (h : c.settings.setMaxInvulnerables T c.roster v = .ok st) : SettingsStep supported c st
  | minBond (v : U128) : SettingsStep supported c (c.settings.setMinBondRequirement v)
  | genesisHeight {st : Settings} (v : U64)
      (h : c.settings.setAttestationChainGenesisBlockNumber supported c.anchors v = .ok st) :
      SettingsStep supported c st
  | policy {st : Settings} (v : AttestorElectionPolicy)
      (h : c.settings.setElectionPolicy supported v = .ok st) : SettingsStep supported c st
  | applied : SettingsStep supported c c.settings.applyIntervalUpdates
  | registered {st : Settings} (p : ChainParameters) (hnew : supported = false)
      (h : onRegisterChain T c.settings p = .ok st) : SettingsStep supported c st

inductive ChainStep (supported : Bool) (k : ChainKey) : Chain H A → Chain H A → Prop
  | anchors {c : Chain H A} {a : Anchors H A}
      (h : AnchorStep T supported c.settings c.roster c.anchors a) :
      ChainStep supported k c { c with anchors := a }
  | roster {c : Chain H A} {r : Roster A} (h : RosterStep T supported k c.settings c.roster r) :
      ChainStep supported k c { c with roster := r }
  | settings {c : Chain H A} {st : Settings} (h : SettingsStep T supported c st) :
      ChainStep supported k c { c with settings := st }

/-- An elementary step other than a call on the anchors. -/
inductive IdleStep (supported : Bool) (k : ChainKey) : Chain H A → Chain H A → Prop
  | roster {c : Chain H A} {r : Roster A} (h : RosterStep T supported k c.settings c.roster r) :
      IdleStep supported k c { c with roster := r }
  | settings {c : Chain H A} {st : Settings} (h : SettingsStep T supported c st) :
      IdleStep supported k c { c with settings := st }
  | swept {c : Chain H A} {a : Anchors H A} (h : Sweep T c.anchors a) :
      IdleStep supported k c { c with anchors := a }

/-- A sequence of steps leads a chain from its record in `s` to its record in `s'`. -/
def Path (step : Bool → ChainKey → Chain H A → Chain H A → Prop) (k : ChainKey)
    (s s' : State H A B) : Prop :=
  ReflTransGen (step (s.isChainSupported k) k) (s.chain T k) (s'.chain T k)

abbrev ChainPath := Path T (ChainStep T)

/-- A path of elementary steps other than calls on the anchors. -/
abbrev IdlePath := Path T (IdleStep T)

/-! ## Writing one part of one chain -/

section Paths

variable {T} {k k' : ChainKey} {s s' s'' : State H A B}
  {step : Bool → ChainKey → Chain H A → Chain H A → Prop}

section

omit [DecidableEq H] [DecidableEq A]

theorem Path.refl : Path T step k s s := ReflTransGen.refl

theorem Path.trans (h : Path T step k s s') (hreg : s'.registry = s.registry)
    (h' : Path T step k s' s'') : Path T step k s s'' := by
  have hsup : s'.isChainSupported k = s.isChainSupported k := by
    simp only [State.isChainSupported, hreg]
  unfold Path at h'
  rw [hsup] at h'
  exact ReflTransGen.trans h h'

theorem Path.of_chain_eq (h : s'.chain T k = s.chain T k) : Path T step k s s' := by
  unfold Path
  rw [h]

theorem path_setChain {c : Chain H A} (h : step (s.isChainSupported k') k' (s.chain T k') c) :
    Path T step k s (s.setChain k' c) := by
  by_cases hk : k = k'
  · subst hk
    unfold Path
    rw [State.chain_setChain_self]
    exact ReflTransGen.single h
  · exact Path.of_chain_eq (State.chain_setChain_of_ne T s hk c)

end

theorem IdleStep.chainStep {supported : Bool} {c c' : Chain H A}
    (h : IdleStep T supported k c c') : ChainStep T supported k c c' := by
  cases h with
  | roster h => exact .roster h
  | settings h => exact .settings h
  | swept h => exact .anchors (.swept h)

theorem IdlePath.chainPath (h : IdlePath T k s s') : ChainPath T k s s' :=
  ReflTransGen.mono (fun _ _ => IdleStep.chainStep) _ _ h

theorem idlePath_setAnchors {a : Anchors H A} (h : Sweep T (s.chain T k').anchors a) :
    IdlePath T k s (s.setAnchors T k' a) :=
  path_setChain (.swept h)

theorem idlePath_setRoster {r : Roster A}
    (h : RosterStep T (s.isChainSupported k') k' (s.chain T k').settings (s.chain T k').roster r) :
    IdlePath T k s (s.setRoster T k' r) :=
  path_setChain (.roster h)

theorem idlePath_setSettings {st : Settings}
    (h : SettingsStep T (s.isChainSupported k') (s.chain T k') st) :
    IdlePath T k s (s.setSettings T k' st) :=
  path_setChain (.settings h)

/-! ## The functions on states -/

variable {attestorId stash : A}

theorem idlePath_registerAttestor (h : s.registerAttestor T k' stash attestorId = .ok s') :
    IdlePath T k s s' := by
  simp only [State.registerAttestor, bind_eq_ok, ensure_eq_ok, pure_eq_ok] at h
  obtain ⟨-, hsup, ⟨r, index⟩, hr, bonds, -, rfl⟩ := h
  exact idlePath_setRoster (.registered hsup _ index stash attestorId hr)

theorem idlePath_removeAttestor (h : s.removeAttestor T k' stash attestorId = .ok s') :
    IdlePath T k s s' := by
  simp only [State.removeAttestor, bind_eq_ok, pure_eq_ok] at h
  obtain ⟨attestor, hown, bonds, -, ⟨r, index⟩, hr, rfl⟩ := h
  exact idlePath_setRoster (.unregistered _ index stash attestorId _ hown hr)

theorem idlePath_kickAttestor {unregister : Bool}
    (h : s.kickAttestor T k' attestorId unregister = .ok s') : IdlePath T k s s' := by
  simp only [State.kickAttestor, bind_eq_ok, okOr_eq_ok] at h
  obtain ⟨attestor, -, h⟩ := h
  have hkick : IdlePath T k s
      (s.setRoster T k' ((s.chain T k').roster.doChillAttestorImmediate attestorId)) :=
    idlePath_setRoster (.kicked attestorId)
  split at h
  · exact hkick.trans rfl (idlePath_removeAttestor h)
  · rw [pure_eq_ok] at h
    exact h ▸ hkick

omit [DecidableEq H] in
theorem purgeRetired_registry {era : ℕ} (pairs : List (ChainKey × A)) (s : State H A B) :
    (State.purgeRetired T stash era pairs s).2.registry = s.registry := by
  induction pairs generalizing s with
  | nil => rfl
  | cons pair pairs ih =>
    obtain ⟨k', attestorId⟩ := pair
    simp only [State.purgeRetired]
    split
    · exact ih s
    · split
      · exact ih s
      · split
        · exact ih _
        · exact ih s

theorem idlePath_purgeRetired {era : ℕ} (pairs : List (ChainKey × A)) (s : State H A B) :
    IdlePath T k s (State.purgeRetired T stash era pairs s).2 := by
  induction pairs generalizing s with
  | nil => exact Path.refl
  | cons pair pairs ih =>
    obtain ⟨k', attestorId⟩ := pair
    simp only [State.purgeRetired]
    split
    · exact ih s
    · next entry hentry =>
      split
      · exact ih s
      · split
        · exact (idlePath_setRoster (.purged attestorId hentry)).trans rfl (ih _)
        · exact ih s

theorem idlePath_purgeRetiredBlsKeysForStash (stash : A) :
    IdlePath T k s (s.purgeRetiredBlsKeysForStash T stash) := by
  simp only [State.purgeRetiredBlsKeysForStash]
  split
  · exact Path.refl
  · exact idlePath_purgeRetired _ s

theorem idlePath_withdrawUnbonded (h : s.withdrawUnbonded T stash = .ok s') :
    IdlePath T k s s' := by
  simp only [State.withdrawUnbonded, bind_eq_ok, pure_eq_ok] at h
  obtain ⟨bonds, -, rfl⟩ := h
  exact (idlePath_purgeRetiredBlsKeysForStash stash : IdlePath T k s _)

omit [DecidableEq H] in
theorem State.withdrawUnbonded_registry (h : s.withdrawUnbonded T stash = .ok s') :
    s'.registry = s.registry := by
  simp only [State.withdrawUnbonded, bind_eq_ok, pure_eq_ok] at h
  obtain ⟨bonds, -, rfl⟩ := h
  simp only [State.purgeRetiredBlsKeysForStash]
  split
  · rfl
  · exact purgeRetired_registry _ s

omit [DecidableEq H] in
theorem State.kickAttestor_registry {unregister : Bool}
    (h : s.kickAttestor T k' attestorId unregister = .ok s') : s'.registry = s.registry := by
  simp only [State.kickAttestor, bind_eq_ok, okOr_eq_ok] at h
  obtain ⟨attestor, -, h⟩ := h
  split at h
  · simp only [State.removeAttestor, bind_eq_ok, pure_eq_ok] at h
    obtain ⟨-, -, -, -, -, -, rfl⟩ := h
    rfl
  · rw [pure_eq_ok] at h
    exact h ▸ rfl

theorem idlePath_foldl (f : State H A B → ChainKey → State H A B)
    (hreg : ∀ s k', (f s k').registry = s.registry) (ks : List ChainKey) (s : State H A B)
    (hf : ∀ s' : State H A B, s'.registry = s.registry → ∀ k' ∈ ks, IdlePath T k s' (f s' k')) :
    IdlePath T k s (ks.foldl f s) := by
  induction ks generalizing s with
  | nil => exact Path.refl
  | cons k' ks ih =>
    refine (hf s rfl k' List.mem_cons_self).trans (hreg s k') (ih _ fun s' hs' j hj => ?_)
    exact hf s' (hs'.trans (hreg s k')) j (List.mem_cons_of_mem _ hj)

omit [DecidableEq H] [DecidableEq A] in
theorem isChainSupported_of_mem_iterKeys
    (h : k' ∈ s.registry.supportedChains.iterKeys T.chainRank) : s.isChainSupported k' = true := by
  rw [StorageMap.mem_iterKeys] at h
  obtain ⟨chain, hchain⟩ := h
  rw [State.isChainSupported, hchain]
  rfl

omit [DecidableEq H] [DecidableEq A] in
theorem foldl_registry (f : State H A B → ChainKey → State H A B)
    (hreg : ∀ s k', (f s k').registry = s.registry) (ks : List ChainKey) (s : State H A B) :
    (ks.foldl f s).registry = s.registry := by
  induction ks generalizing s with
  | nil => rfl
  | cons k' ks ih => exact (ih _).trans (hreg s k')

theorem idlePath_electChain {epoch : ℕ} (h : s.isChainSupported k' = true) :
    IdlePath T k s (s.electChain T epoch k') :=
  idlePath_setRoster (.elected h epoch)

theorem idlePath_startElection {epoch : ℕ} : IdlePath T k s (s.startElection T epoch) := by
  refine idlePath_foldl (State.electChain T epoch) (fun _ _ => rfl) _ s fun s' hreg k' hk => ?_
  refine idlePath_electChain ?_
  rw [State.isChainSupported, hreg]
  exact isChainSupported_of_mem_iterKeys hk

theorem idlePath_applyIntervalUpdates : IdlePath T k s (s.applyIntervalUpdates T) :=
  idlePath_foldl (State.applyChainUpdates T) (fun _ _ => rfl) _ s fun _ _ _ _ =>
    idlePath_setSettings .applied

theorem idlePath_forceElection (h : forceElection T s k' = .ok s') : IdlePath T k s s' := by
  simp only [forceElection, bind_eq_ok, ensure_eq_ok, pure_eq_ok] at h
  obtain ⟨-, hsup, rfl⟩ := h
  exact (idlePath_electChain hsup).trans rfl (idlePath_setRoster (.announced _))

theorem State.commitAttestation_eq_ok {who : A} {att : SignedAttestation H A} :
    s.commitAttestation T who att = .ok s' ↔
      who ∈ (s.chain T att.chainKey).roster.activeAttestors ∧
        ∃ a n, doCommitAttestation T (s.isChainSupported att.chainKey) s.blockNumber
          (s.chain T att.chainKey) att = .ok (a, n) ∧ s.setAnchors T att.chainKey a = s' := by
  simp only [State.commitAttestation, bind_eq_ok, ensure_eq_ok, withAnchors_eq_ok, exists_const]
  refine and_congr_right fun _ => ?_
  rcases doCommitAttestation T (s.isChainSupported att.chainKey) s.blockNumber
      (s.chain T att.chainKey) att with e | ⟨a, n⟩ <;> simp [Except.map]

/-! ## The start of a block -/

omit [DecidableEq H] [DecidableEq A] in
theorem pending_of_firstPending {X : Type} {pending : Chain H A → Option X} {x : X}
    (h : firstPending T s pending = some (k', x)) : pending (s.chain T k') = some x := by
  obtain ⟨k'', -, hk⟩ := List.exists_of_findSome?_eq_some h
  obtain ⟨y, hy, hpair⟩ := Option.map_eq_some_iff.1 hk
  obtain ⟨rfl, rfl⟩ := Prod.mk.inj hpair
  exact hy

theorem idlePath_onInitPruneCheckpoints : IdlePath T k s (onInitPruneCheckpoints T s) := by
  unfold onInitPruneCheckpoints
  split
  · next h => exact idlePath_setAnchors (.pruned (pending_of_firstPending h))
  · exact Path.refl

theorem idlePath_onInitClearCheckpoints (host : Host H A) :
    IdlePath T k s (onInitClearCheckpoints T host s) := by
  unfold onInitClearCheckpoints
  split
  · next h =>
    have hcursor := pending_of_firstPending h
    exact idlePath_setAnchors (.checkpointsCleared _ (by simp [hcursor]))
  · exact Path.refl

theorem idlePath_onInitClearBuckets (host : Host H A) :
    IdlePath T k s (onInitClearBuckets T host s) := by
  unfold onInitClearBuckets
  split
  · next h =>
    have hcursor := pending_of_firstPending h
    exact idlePath_setAnchors (.bucketsCleared _ (by simp [hcursor]))
  · exact Path.refl

theorem idlePath_onInitClearAttestations (host : Host H A) :
    IdlePath T k s (onInitClearAttestations T host s) := by
  unfold onInitClearAttestations
  split
  · next h =>
    have hcursor := pending_of_firstPending h
    exact idlePath_setAnchors (.attestationsCleared _ (by simp [hcursor]))
  · exact Path.refl

theorem idlePath_onInitCleanupRemovedChains (host : Host H A) :
    IdlePath T k s (onInitCleanupRemovedChains T host s) := by
  unfold onInitCleanupRemovedChains
  split
  · next h =>
    exact idlePath_setRoster (.cleanedUp host _ (pending_of_firstPending h))
  · exact Path.refl

theorem onInitialize_registry (host : Host H A) :
    (onInitPruneCheckpoints T s).registry = s.registry ∧
      (onInitClearCheckpoints T host s).registry = s.registry ∧
      (onInitClearBuckets T host s).registry = s.registry ∧
      (onInitClearAttestations T host s).registry = s.registry ∧
      (onInitCleanupRemovedChains T host s).registry = s.registry := by
  refine ⟨?_, ?_, ?_, ?_, ?_⟩
  · unfold onInitPruneCheckpoints; split <;> rfl
  · unfold onInitClearCheckpoints; split <;> rfl
  · unfold onInitClearBuckets; split <;> rfl
  · unfold onInitClearAttestations; split <;> rfl
  · unfold onInitCleanupRemovedChains; split <;> rfl

theorem idlePath_afterPruning (host : Host H A) :
    IdlePath T k (onInitPruneCheckpoints T s) (onInitialize T host s) := by
  refine Path.trans (idlePath_onInitClearCheckpoints host)
    (onInitialize_registry host).2.1 ?_
  refine Path.trans (idlePath_onInitClearBuckets host)
    (onInitialize_registry host).2.2.1 ?_
  refine Path.trans (idlePath_onInitClearAttestations host)
    (onInitialize_registry host).2.2.2.1 ?_
  exact idlePath_onInitCleanupRemovedChains host

theorem idlePath_onInitialize (host : Host H A) : IdlePath T k s (onInitialize T host s) :=
  idlePath_onInitPruneCheckpoints.trans (onInitialize_registry host).1 (idlePath_afterPruning host)

end Paths

/-! ## The registry -/

/-- Every supported chain has a key below the next one to be given out. -/
def Registry.KeysBelow (g : Registry) : Prop :=
  ∀ k, (g.supportedChains.lookup k).isSome = true → k < g.chainKeyValue

/-- A change of the registry other than the removal of a chain: at most the next key is added. -/
structure Registry.Grows (g g' : Registry) : Prop where
  key_le : g.chainKeyValue ≤ g'.chainKeyValue
  supported : ∀ k, (g'.supportedChains.lookup k).isSome = true →
    (g.supportedChains.lookup k).isSome = true ∨
      (g.chainKeyValue = k ∧ g.chainKeyValue < g'.chainKeyValue)
  kept : ∀ k, (g.supportedChains.lookup k).isSome = true →
    (g'.supportedChains.lookup k).isSome = true

/-- No key is given out unless a chain is registered. -/
structure Registry.GrowsBy (registers : Bool) (g g' : Registry) : Prop extends g.Grows g' where
  key_eq : registers = false → g'.chainKeyValue = g.chainKeyValue

def Call.registersChain : Call H A → Bool
  | .registerChain .. => true
  | _ => false

/-- The chain is supported, or may still be registered. -/
def State.Live (s : State H A B) (k : ChainKey) : Prop :=
  s.isChainSupported k = true ∨ s.registry.chainKeyValue ≤ k

section Registry

variable {T} {g g' : Registry} {k : ChainKey}

theorem Registry.Grows.refl : g.Grows g := ⟨le_rfl, fun _ h => .inl h, fun _ h => h⟩

variable {registers : Bool}

theorem Registry.GrowsBy.refl : g.GrowsBy registers g :=
  ⟨.refl, fun _ => rfl⟩

theorem Registry.Grows.keysBelow (h : g.Grows g') (hg : g.KeysBelow) : g'.KeysBelow := by
  intro k hk
  rcases h.supported k hk with hsup | ⟨rfl, hlt⟩
  · exact lt_of_lt_of_le (hg k hsup) h.key_le
  · exact hlt

theorem Registry.grows_of_insert {chain chain' : SupportedChain}
    (hk : g.supportedChains.lookup k = some chain)
    (hsup : g'.supportedChains = g.supportedChains.insert k chain')
    (hkey : g'.chainKeyValue = g.chainKeyValue) : g.GrowsBy registers g' := by
  refine ⟨⟨hkey.ge, fun k' hk' => ?_, fun k' hk' => ?_⟩, fun _ => hkey⟩
  · rw [hsup, StorageMap.lookup_insert_eq] at hk'
    split at hk'
    · next h => exact .inl (by rw [h, hk]; rfl)
    · exact .inl hk'
  · rw [hsup, StorageMap.lookup_insert_eq]
    split
    · rfl
    · exact hk'

theorem Registry.grows_setMaturityStrategy {strategy : String}
    (h : g.setMaturityStrategy k strategy = .ok g') : g.GrowsBy registers g' := by
  simp only [Registry.setMaturityStrategy, bind_eq_ok, ensure_eq_ok, okOr_eq_ok, pure_eq_ok] at h
  obtain ⟨-, -, chain, hk, -, -, rfl⟩ := h
  exact Registry.grows_of_insert hk rfl rfl

theorem Registry.grows_setChainName {name : List UInt8} (h : g.setChainName k name = .ok g') :
    g.GrowsBy registers g' := by
  simp only [Registry.setChainName, bind_eq_ok, ensure_eq_ok, okOr_eq_ok, pure_eq_ok] at h
  obtain ⟨chain, hk, -, -, -, -, rfl⟩ := h
  exact Registry.grows_of_insert hk rfl rfl

omit [DecidableEq H] [DecidableEq A] in
theorem Registry.grows_registerChain {chainId : ℕ} {name : List UInt8}
    {encoding : ChainEncodingVersion} {strategy : Option String}
    (h : g.registerChain T chainId name encoding strategy = .ok (k, g')) :
    k = g.chainKeyValue ∧ g.Grows g' := by
  simp only [Registry.registerChain, bind_eq_ok, ensure_eq_ok, pure_eq_ok, Prod.mk.injEq] at h
  obtain ⟨-, -, -, -, -, -, -, -, rfl, rfl⟩ := h
  refine ⟨rfl, Nat.le_succ _, fun k' hk' => ?_, fun k' hk' => ?_⟩
  · rw [StorageMap.lookup_insert_eq] at hk'
    split at hk'
    · next h => exact .inr ⟨h.symm, Nat.lt_succ_self _⟩
    · exact .inl hk'
  · rw [StorageMap.lookup_insert_eq]
    split
    · rfl
    · exact hk'

theorem Registry.removeChain_supported (h : g.removeChain k = .ok g') (k' : ChainKey) :
    (g.supportedChains.lookup k).isSome = true ∧ g'.chainKeyValue = g.chainKeyValue ∧
      (g'.supportedChains.lookup k' = if k' = k then none else g.supportedChains.lookup k') := by
  simp only [Registry.removeChain, bind_eq_ok, okOr_eq_ok, pure_eq_ok] at h
  obtain ⟨item, hk, rfl⟩ := h
  exact ⟨by rw [hk]; rfl, rfl, StorageMap.lookup_erase_eq _ _ _⟩

theorem Registry.length_removeChain_lt (h : g.removeChain k = .ok g') :
    g'.supportedChains.keys.length < g.supportedChains.keys.length := by
  simp only [Registry.removeChain, bind_eq_ok, okOr_eq_ok, pure_eq_ok] at h
  obtain ⟨item, hk, rfl⟩ := h
  have hpos := List.length_pos_of_mem ((StorageMap.mem_keys_iff _ k).2 ⟨item, hk⟩)
  have hlen := StorageMap.length_keys_erase hk
  dsimp only
  omega

end Registry

/-! ## Inversion of a call and of an action -/

section Inversion

variable {T} {s s' : State H A B}

/-- The call `call` writes the anchors `a` of the chain `k`. -/
inductive AnchorCall (T : Config H A B) (host : Host H A) (s : State H A B) :
    Call H A → ChainKey → Anchors H A → Prop
  | commit {att : SignedAttestation H A} {a : Anchors H A} {n : ℕ}
      (h : doCommitAttestation T (s.isChainSupported att.chainKey) s.blockNumber
        (s.chain T att.chainKey) att = .ok (a, n)) :
      AnchorCall T host s (.commitAttestation att) att.chainKey a
  | imports {k : ChainKey} {batch : List (AttestationCheckpoint H)} {a : Anchors H A}
      (h : doImportCheckpoints (s.isChainSupported k) (s.chain T k).anchors batch = .ok a) :
      AnchorCall T host s (.importCheckpoints k batch) k a
  | revert {k : ChainKey} {height : U64} {a : Anchors H A}
      (h : revertTo T (s.isChainSupported k) host.attestations (s.chain T k).anchors height =
        .ok a) : AnchorCall T host s (.revertTo k height) k a
  | patch {k : ChainKey} {wipe : Bool} {batch : List (AttestationCheckpoint H)} {a : Anchors H A}
      (h : doForwardPatchCheckpoints T (s.isChainSupported k) host.attestations
        (s.chain T k).anchors wipe batch = .ok a) :
      AnchorCall T host s (.forwardPatchCheckpoints k wipe batch) k a

variable {host : Host H A} {call : Call H A}

theorem AnchorCall.anchorStep {k : ChainKey} {a : Anchors H A} (h : AnchorCall T host s call k a) :
    AnchorStep T (s.isChainSupported k) (s.chain T k).settings (s.chain T k).roster
      (s.chain T k).anchors a := by
  cases h with
  | commit h => exact .committed _ _ h
  | imports h => exact .imported _ h
  | revert h => exact .reverted _ _ h
  | patch h => exact .patched _ _ _ h

theorem AnchorCall.chainPath {k' : ChainKey} {a : Anchors H A} (h : AnchorCall T host s call k' a)
    (k : ChainKey) : ChainPath T k s (s.setAnchors T k' a) :=
  path_setChain (.anchors h.anchorStep)

theorem idle_withSettings {k : ChainKey} {x : Except Error Settings} {registers : Bool}
    (hx : ∀ st, x = .ok st → SettingsStep T (s.isChainSupported k) (s.chain T k) st)
    (h : s.withSettings T k x = .ok s') :
    (∀ k', IdlePath T k' s s') ∧ s.registry.GrowsBy registers s'.registry := by
  obtain ⟨st, hst, rfl⟩ := withSettings_eq_ok.1 h
  exact ⟨fun _ => idlePath_setSettings (hx st hst), .refl⟩

theorem idle_withRoster {k : ChainKey} {x : Except Error (Roster A)} {registers : Bool}
    (hx : ∀ r, x = .ok r →
      RosterStep T (s.isChainSupported k) k (s.chain T k).settings (s.chain T k).roster r)
    (h : s.withRoster T k x = .ok s') :
    (∀ k', IdlePath T k' s s') ∧ s.registry.GrowsBy registers s'.registry := by
  obtain ⟨r, hr, rfl⟩ := withRoster_eq_ok.1 h
  exact ⟨fun _ => idlePath_setRoster (hx r hr), .refl⟩

/-- **Inversion of a call.** A call that succeeds takes every chain along an idle path, or writes
the anchors of one chain, or removes a chain. -/
theorem dispatch_cases (hs : s.registry.KeysBelow) {o : Origin A}
    (h : dispatch T host s o call = .ok s') :
    ((∀ k, IdlePath T k s s') ∧ s.registry.GrowsBy call.registersChain s'.registry) ∨
      (∃ k a, AnchorCall T host s call k a ∧ s' = s.setAnchors T k a) ∨
      ∃ k b, call = .removeChain k b ∧ s.removeChain T host k b = .ok s' := by
  cases call with
  | setChainAttestationInterval k v =>
    exact .inl (idle_withSettings (fun _ => .interval v) (asOperator_eq_ok.1 h).2)
  | setTargetSampleSize k v =>
    exact .inl (idle_withSettings (fun _ => .sampleSize v) (asOperator_eq_ok.1 h).2)
  | registerAttestor k attestorId =>
    obtain ⟨who, -, h⟩ := asSigned_eq_ok.1 h
    refine .inl ⟨fun _ => idlePath_registerAttestor h, ?_⟩
    simp only [State.registerAttestor, bind_eq_ok, pure_eq_ok] at h
    obtain ⟨-, -, -, -, -, -, rfl⟩ := h
    exact .refl
  | unregisterAttestor k attestorId =>
    obtain ⟨who, -, h⟩ := asSigned_eq_ok.1 h
    refine .inl ⟨fun _ => idlePath_removeAttestor h, ?_⟩
    simp only [State.removeAttestor, bind_eq_ok, pure_eq_ok] at h
    obtain ⟨-, -, -, -, -, -, rfl⟩ := h
    exact .refl
  | setMaxAttestors k v =>
    exact .inl (idle_withSettings (fun _ => .maxAttestors v) (asOperator_eq_ok.1 h).2)
  | registerInvulnerable k address =>
    exact .inl (idle_withRoster (fun _ => .invulnerable address) (asOperator_eq_ok.1 h).2)
  | unregisterInvulnerable k address =>
    exact .inl (idle_withRoster (fun _ => .vulnerable address) (asOperator_eq_ok.1 h).2)
  | setMaxInvulnerables k v =>
    exact .inl (idle_withSettings (fun _ => .maxInvulnerables v) (asOperator_eq_ok.1 h).2)
  | commitAttestation att =>
    obtain ⟨who, -, h⟩ := asSigned_eq_ok.1 h
    obtain ⟨-, a, n, hcommit, rfl⟩ := State.commitAttestation_eq_ok.1 h
    exact .inr (.inl ⟨_, a, .commit hcommit, rfl⟩)
  | setAttestationsPerCheckpoint k v =>
    exact .inl (idle_withSettings (fun _ => .perCheckpoint v) (asOperator_eq_ok.1 h).2)
  | setMinBondRequirement k v =>
    refine .inl (idle_withSettings (fun st hst => ?_) (asOperator_eq_ok.1 h).2)
    exact Except.ok.inj hst ▸ .minBond v
  | attest k key pop =>
    obtain ⟨who, -, h⟩ := asSigned_eq_ok.1 h
    exact .inl (idle_withRoster (fun _ => .activated who key pop) h)
  | chill k attestorId =>
    obtain ⟨who, -, h⟩ := asSigned_eq_ok.1 h
    exact .inl (idle_withRoster (fun _ => .chilled who attestorId) h)
  | withdrawUnbonded =>
    obtain ⟨who, -, h⟩ := asSigned_eq_ok.1 h
    refine .inl ⟨fun _ => idlePath_withdrawUnbonded h, ?_⟩
    rw [State.withdrawUnbonded_registry h]
    exact .refl
  | importCheckpoints k checkpoints =>
    simp only [dispatch, asOperator_eq_ok, bind_eq_ok, withAnchors_eq_ok] at h
    obtain ⟨-, -, -, a, ha, rfl⟩ := h
    exact .inr (.inl ⟨k, a, .imports ha, rfl⟩)
  | setAttestationChainGenesisBlockNumber k v =>
    exact .inl (idle_withSettings (fun _ => .genesisHeight v) (asOperator_eq_ok.1 h).2)
  | setElectionPolicy k v =>
    exact .inl (idle_withSettings (fun _ => .policy v) (asOperator_eq_ok.1 h).2)
  | authorizeAttestor k attestorId =>
    exact .inl (idle_withRoster (fun _ => .authorized attestorId) (asOperator_eq_ok.1 h).2)
  | removeAuthorizedAttestor k attestorId =>
    exact .inl (idle_withRoster (fun _ => .unauthorized attestorId) (asOperator_eq_ok.1 h).2)
  | kickActiveAttestor k attestorId unregister =>
    simp only [dispatch, asOperator_eq_ok] at h
    refine .inl ⟨fun _ => idlePath_kickAttestor h.2, ?_⟩
    rw [State.kickAttestor_registry h.2]
    exact .refl
  | forceElection k =>
    simp only [dispatch, asOperator_eq_ok] at h
    refine .inl ⟨fun _ => idlePath_forceElection h.2, ?_⟩
    obtain ⟨-, h⟩ := h
    simp only [forceElection, bind_eq_ok, pure_eq_ok] at h
    obtain ⟨-, -, rfl⟩ := h
    exact .refl
  | setMaxCatchup k v =>
    exact .inl (idle_withSettings (fun _ => .maxCatchup v) (asOperator_eq_ok.1 h).2)
  | forceApplyUpdates =>
    simp only [dispatch, asOperator_eq_ok, Except.ok.injEq] at h
    obtain ⟨-, rfl⟩ := h
    refine .inl ⟨fun k => (idlePath_applyIntervalUpdates : IdlePath T k s _), ?_⟩
    have hreg : (forceApplyUpdates T s).registry = s.registry :=
      foldl_registry (State.applyChainUpdates T) (fun _ _ => rfl) _ s
    rw [hreg]
    exact .refl
  | revertTo k checkpointHeight =>
    simp only [dispatch, asOperator_eq_ok, withAnchors_eq_ok] at h
    obtain ⟨-, a, ha, rfl⟩ := h
    exact .inr (.inl ⟨k, a, .revert ha, rfl⟩)
  | forwardPatchCheckpoints k wipe checkpoints =>
    simp only [dispatch, asOperator_eq_ok, bind_eq_ok, withAnchors_eq_ok] at h
    obtain ⟨-, -, -, a, ha, rfl⟩ := h
    exact .inr (.inl ⟨k, a, .patch ha, rfl⟩)
  | registerChain chainId name p encoding strategy =>
    simp only [dispatch, asOperator_eq_ok, State.registerChain, bind_eq_ok, pure_eq_ok] at h
    obtain ⟨-, ⟨k, g⟩, hg, st, hst, rfl⟩ := h
    obtain ⟨rfl, hgrows⟩ := Registry.grows_registerChain hg
    have hnew : s.isChainSupported s.registry.chainKeyValue = false := by
      by_contra hsup
      exact lt_irrefl _ (hs _ (Bool.eq_true_of_not_eq_false hsup))
    refine .inl ⟨fun k' => ?_, hgrows, fun h => Bool.noConfusion h⟩
    exact (idlePath_setSettings (.registered p hnew hst) : IdlePath T k' s _)
  | removeChain k b =>
    simp only [dispatch, asOperator_eq_ok] at h
    exact .inr (.inr ⟨k, b, rfl, h.2⟩)
  | setMaturityStrategy k strategy =>
    simp only [dispatch, asOperator_eq_ok, map_eq_ok] at h
    obtain ⟨-, g, hg, rfl⟩ := h
    exact .inl ⟨fun _ => Path.of_chain_eq rfl, Registry.grows_setMaturityStrategy hg⟩
  | setChainName k name =>
    simp only [dispatch, asOperator_eq_ok, map_eq_ok] at h
    obtain ⟨-, g, hg, rfl⟩ := h
    exact .inl ⟨fun _ => Path.of_chain_eq rfl, Registry.grows_setChainName hg⟩

def Action.registersChain : Action T → Bool
  | .call _ _ c => c.registersChain
  | _ => false

theorem block_registry (T : Config H A B) (host : Host H A) (s : State H A B) :
    (step T s (.block host)).registry = s.registry := by
  simp only [step, onInitialize, (onInitialize_registry (T := T) host).1,
    (onInitialize_registry (T := T) host).2.1, (onInitialize_registry (T := T) host).2.2.1,
    (onInitialize_registry (T := T) host).2.2.2.1, (onInitialize_registry (T := T) host).2.2.2.2]

/-- **Inversion of an action.** -/
theorem step_cases (hs : s.registry.KeysBelow) (act : Action T) :
    ((∀ k, IdlePath T k s (step T s act)) ∧
        s.registry.GrowsBy act.registersChain (step T s act).registry) ∨
      (∃ host o call k a, act = .call host o call ∧ dispatch T host s o call = .ok (step T s act) ∧
        AnchorCall T host s call k a ∧ step T s act = s.setAnchors T k a) ∨
      ∃ host o k b, act = .call host o (.removeChain k b) ∧
        s.removeChain T host k b = .ok (step T s act) := by
  cases act with
  | call host o call =>
    rcases h : dispatch T host s o call with e | s'
    · simp only [step, h]
      exact .inl ⟨fun _ => Path.refl, .refl⟩
    · simp only [step, h]
      rcases dispatch_cases hs h with hpath | ⟨k, a, hcall, rfl⟩ | ⟨k, b, rfl, hremove⟩
      · exact .inl hpath
      · exact .inr (.inl ⟨host, o, call, k, a, rfl, h, hcall, rfl⟩)
      · exact .inr (.inr ⟨host, o, k, b, rfl, hremove⟩)
  | block host =>
    refine .inl ⟨fun k => ?_, ?_⟩
    · exact (idlePath_onInitialize host :
        IdlePath T k { s with blockNumber := s.blockNumber + 1 } _)
    · rw [block_registry]
      exact .refl
  | epoch epoch =>
    have hreg : ∀ s : State H A B, (s.startElection T epoch).registry = s.registry :=
      fun s => foldl_registry (State.electChain T epoch) (fun _ _ => rfl) _ s
    refine .inl ⟨fun k => ?_, ?_⟩
    · exact ((idlePath_startElection : IdlePath T k { s with currentEpochIndex := epoch } _).trans
        (hreg _) idlePath_applyIntervalUpdates)
    · have happly : (step T s (.epoch epoch)).registry = s.registry :=
        (foldl_registry (State.applyChainUpdates T) (fun _ _ => rfl) _ _).trans (hreg _)
      rw [happly]
      exact .refl
  | era _ | currency _ => exact .inl ⟨fun _ => Path.of_chain_eq rfl, .refl⟩

theorem removeChain_chain {k : ChainKey} {b : Bool} (h : s.removeChain T host k b = .ok s')
    (k' : ChainKey) :
    s'.registry.KeysBelow = (∀ j, (if j = k then none else
        s.registry.supportedChains.lookup j).isSome = true → j < s.registry.chainKeyValue) ∧
      (s.registry.supportedChains.lookup k).isSome = true ∧
      (k' ≠ k → s'.chain T k' = s.chain T k' ∧ (s'.Live k' → s.Live k')) ∧
      (s'.Live k → s.registry.chainKeyValue ≤ k) := by
  simp only [State.removeChain, bind_eq_ok, pure_eq_ok] at h
  obtain ⟨g, hg, rfl⟩ := h
  have hlookup := fun j => (Registry.removeChain_supported hg j).2.2
  have hkey := (Registry.removeChain_supported hg k).2.1
  refine ⟨?_, (Registry.removeChain_supported hg k).1, fun hne => ⟨?_, ?_⟩, ?_⟩
  · simp only [Registry.KeysBelow, hlookup, hkey]
  · exact State.chain_setChain_of_ne T s hne _
  · simp only [State.Live, State.isChainSupported, hlookup, hkey, if_neg hne]
    exact id
  · simp [State.Live, State.isChainSupported, hlookup, hkey]

end Inversion

end Creditcoin
