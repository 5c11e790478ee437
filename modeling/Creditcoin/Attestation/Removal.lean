import Creditcoin.Attestation.ActiveSet
import Creditcoin.Attestation.CleanupBatch
import Creditcoin.Attestation.RetiredKeys
import Creditcoin.Foundations.Totals

/-!
# Removed chains

The key of a removed chain is never given out again, so nobody can register or attest on it, and its
roster only gets smaller (`Roster.Shrinks`) while the cleanup goes on. What the cleanup has achieved
is never undone, and as long as no chain is registered it ends. -/

namespace Creditcoin

variable {H A B : Type} [DecidableEq A]

/-! ## The roster of a chain that is not supported -/

namespace Roster

variable {T : Config H A B} {r r' : Roster A} {k : ChainKey} {st : Settings}

/-- The roster gets smaller: no attestor comes in or leaves its rest, no key or invulnerable is
added, and the only retired keys added are those of attestors that leave. -/
structure Shrinks (r r' : Roster A) : Prop where
  attestors : ∀ a attestor', r'.attestors.lookup a = some attestor' →
    ∃ attestor, r.attestors.lookup a = some attestor ∧
      (attestor.status = .idle → attestor'.status = .idle)
  retired : ∀ a entry, r'.retiredAttestorBlsKeys.lookup a = some entry →
    r.retiredAttestorBlsKeys.lookup a = some entry ∨
      ∃ attestor, r.attestors.lookup a = some attestor
  owners : ∀ key owner, r'.blsKeyOwner.lookup key = some owner →
    r.blsKeyOwner.lookup key = some owner
  invulnerables : ∀ a flag, r'.invulnerables.lookup a = some flag →
    r.invulnerables.lookup a = some flag
  record : r'.removedChainCleanup = r.removedChainCleanup
  rows_le : r'.attestors.keys.length + r'.retiredAttestorBlsKeys.keys.length ≤
    r.attestors.keys.length + r.retiredAttestorBlsKeys.keys.length

theorem Shrinks.refl (r : Roster A) : r.Shrinks r :=
  ⟨fun _ attestor h => ⟨attestor, h, id⟩, fun _ _ h => .inl h, fun _ _ h => h, fun _ _ h => h, rfl,
    le_rfl⟩

theorem Restatus.shrinks {f : A → AttestorStatus → AttestorStatus} (h : Restatus f r r')
    (hidle : ∀ a attestor, r.attestors.lookup a = some attestor → attestor.status = .idle →
      f a .idle = .idle) : r.Shrinks r' where
  attestors a attestor' ha := by
    rw [h.attestors] at ha
    obtain ⟨attestor, hlookup, rfl⟩ := Option.map_eq_some_iff.1 ha
    refine ⟨attestor, hlookup, fun hstatus => ?_⟩
    dsimp only
    rw [hstatus]
    exact hidle a attestor hlookup hstatus
  retired a entry ha := .inl (h.retired ▸ ha)
  owners key owner ha := h.owners ▸ ha
  invulnerables a flag ha := h.invulnerables ▸ ha
  record := h.cleanup
  rows_le := by
    have hlen : r'.attestors.keys.length = r.attestors.keys.length :=
      StorageMap.length_keys_congr fun a => by rw [h.attestors, Option.isSome_map]
    rw [hlen, h.retired]

theorem shrinks_unregister {index index' : RetiredIndex A} {stash a : A} {purgeAtEra : ℕ}
    {attestor : Attestor A} (hown : r.removableAttestor stash a = .ok attestor)
    (h : r.unregisterAttestor index k stash a purgeAtEra attestor = .ok (r', index')) :
    r.Shrinks r' := by
  obtain ⟨hlookup, -, -⟩ := removableAttestor_eq_ok hown
  obtain ⟨rfl, -⟩ := unregisterAttestor_effect h
  have hpos : 0 < r.attestors.keys.length :=
    List.length_pos_of_mem ((StorageMap.mem_keys_iff _ a).2 ⟨attestor, hlookup⟩)
  refine ⟨fun b attestor' hb => ?_, fun b entry hb => ?_, fun _ _ h => h, fun _ _ h => h, rfl, ?_⟩
  · dsimp only at hb
    rw [StorageMap.lookup_erase_eq] at hb
    split at hb
    · cases hb
    · exact ⟨attestor', hb, id⟩
  · dsimp only [retiredWith] at hb
    split at hb
    · exact .inl hb
    · rw [StorageMap.lookup_insert_eq] at hb
      split at hb
      · next heq => exact .inr ⟨attestor, heq ▸ hlookup⟩
      · exact .inl hb
  · have herase := StorageMap.length_keys_erase hlookup
    have hinsert : (r.retiredWith a stash purgeAtEra attestor.blsPublicKey).keys.length ≤
        r.retiredAttestorBlsKeys.keys.length + 1 := by
      unfold retiredWith
      split
      · exact Nat.le_succ _
      · exact StorageMap.length_keys_insert_le _ _ _
    dsimp only
    omega

theorem shrinks_forgetRetired (r : Roster A) (a : A) : r.Shrinks (r.forgetRetired a) := by
  unfold forgetRetired
  split
  · exact .refl r
  · rw [releaseKey_eq]
    refine ⟨fun _ attestor h => ⟨attestor, h, id⟩, fun b entry hb => ?_, fun key owner ho => ?_,
      fun _ _ h => h, rfl, Nat.add_le_add_left (StorageMap.length_keys_erase_le _ _) _⟩
    · dsimp only at hb
      rw [StorageMap.lookup_erase_eq] at hb
      split at hb
      · cases hb
      · exact .inl hb
    · dsimp only at ho
      split at ho
      · rw [StorageMap.lookup_erase_eq] at ho
        split at ho
        · cases ho
        · exact ho
      · exact ho

/-- **What can happen on a chain that is not supported**: its roster gets smaller, or a batch of its
cleanup is run. -/
theorem RosterStep.unsupported (h : RosterStep T false k st r r') :
    r.Shrinks r' ∨ ∃ phase host index, r.removedChainCleanup = some phase ∧
      r' = (continueRemovedChainCleanup T host k phase r index).1 := by
  have hchill : ∀ a, r.Shrinks (r.doChillAttestorImmediate a) := fun a => by
    refine (restatus_doChillAttestorImmediate r a).shrinks fun b _ _ _ => ?_
    unfold onlyAt
    split <;> rfl
  cases h with
  | registered hsup | elected hsup => cases hsup
  | unregistered index index' stash a purgeAtEra hown hr => exact .inl (shrinks_unregister hown hr)
  | activated who key pop hr => cases (startAttesting_effect hr).1
  | chilled who a hr =>
    obtain ⟨attestor, hlookup, ⟨-, rfl⟩ | ⟨hactive, rfl⟩⟩ := chill_effect hr
    · exact .inl (hchill a)
    · refine .inl ((restatus_setStatus r a .leaving).shrinks fun b attestor' hb hidle => ?_)
      refine if_neg fun heq => ?_
      rw [heq, hlookup] at hb
      rw [← Option.some.inj hb, hactive] at hidle
      cases hidle
  | kicked a => exact .inl (hchill a)
  | announced events => exact .inl { Shrinks.refl r with }
  | invulnerable _ hr | authorized _ hr =>
    simp only [registerInvulnerable, authorizeAttestor, bind_eq_ok, ensure_eq_ok] at hr
    obtain ⟨-, hsup, -⟩ := hr
    cases hsup
  | vulnerable address hr =>
    simp only [unregisterInvulnerable, bind_eq_ok, pure_eq_ok] at hr
    obtain ⟨-, -, rfl⟩ := hr
    refine .inl { Shrinks.refl r with invulnerables := fun a flag ha => ?_ }
    dsimp only at ha
    rw [StorageMap.lookup_erase_eq] at ha
    split at ha
    · cases ha
    · exact ha
  | unauthorized a hr =>
    simp only [removeAuthorizedAttestor, bind_eq_ok, pure_eq_ok] at hr
    obtain ⟨-, -, rfl⟩ := hr
    exact .inl { Shrinks.refl r with }
  | purged a hentry =>
    rw [purged_eq hentry]
    exact .inl (shrinks_forgetRetired r a)
  | cleanedUp host index hphase => exact .inr ⟨_, host, index, hphase, rfl⟩

/-! ## What a smaller roster keeps -/

variable {gone : A → Prop}

theorem CleanedTo.shrinks {phase : Option (RemovedChainCleanupPhase A)}
    (h : r.CleanedTo T gone phase) (hshrinks : r.Shrinks r') : r'.CleanedTo T gone phase where
  unregistered a ha := by
    rcases hlookup : r'.attestors.lookup a with _ | attestor'
    · rfl
    · obtain ⟨attestor, hattestor, -⟩ := hshrinks.attestors a attestor' hlookup
      rw [h.unregistered a ha] at hattestor
      cases hattestor
  idle a attestor' ha hdone := by
    obtain ⟨attestor, hattestor, hidle⟩ := hshrinks.attestors a attestor' ha
    refine hidle (h.idle a attestor hattestor fun hpending => hdone ?_)
    unfold toChill at hpending ⊢
    split at hpending
    · exact mem_attestorsAfter.2 ⟨⟨attestor', ha⟩, (mem_attestorsAfter.1 hpending).2⟩
    · cases hpending
  retired hstage a ha := by
    rcases hentry : r'.retiredAttestorBlsKeys.lookup a with _ | entry
    · rfl
    · rcases hshrinks.retired a entry hentry with hold | ⟨attestor, hattestor⟩
      · rw [h.retired hstage a ha] at hold
        cases hold
      · rw [h.unregistered a ha] at hattestor
        cases hattestor
  owners hstage := by
    rw [StorageMap.eq_empty_iff]
    intro key
    rcases howner : r'.blsKeyOwner.lookup key with _ | owner
    · rfl
    · have hold := hshrinks.owners key owner howner
      rw [h.owners hstage, AList.lookup_empty] at hold
      cases hold
  invulnerables hstage := by
    rw [StorageMap.eq_empty_iff]
    intro a
    rcases hflag : r'.invulnerables.lookup a with _ | flag
    · rfl
    · have hold := hshrinks.invulnerables a flag hflag
      rw [h.invulnerables hstage, AList.lookup_empty] at hold
      cases hold

theorem workAt_shrinks (hshrinks : r.Shrinks r') (phase : Option (RemovedChainCleanupPhase A)) :
    r'.workAt T phase ≤ r.workAt T phase := by
  cases phase with
  | none => exact le_rfl
  | some phase =>
    have hchill : (toChill T r' (some phase)).length ≤ (toChill T r (some phase)).length := by
      unfold toChill
      split
      · refine length_attestorsAfter_le _ fun a attestor' ha => ?_
        obtain ⟨attestor, hattestor, -⟩ := hshrinks.attestors a attestor' ha
        exact ⟨attestor, hattestor⟩
      · exact le_rfl
    have howners : r'.blsKeyOwner.keys.length ≤ r.blsKeyOwner.keys.length :=
      StorageMap.length_keys_le fun key owner h => ⟨owner, hshrinks.owners key owner h⟩
    have hinvulnerables : r'.invulnerables.keys.length ≤ r.invulnerables.keys.length :=
      StorageMap.length_keys_le fun a flag h => ⟨flag, hshrinks.invulnerables a flag h⟩
    have hrows := hshrinks.rows_le
    simp only [workAt]
    omega

/-- The work left by the record of the cleanup. -/
def cleanupWork (T : Config H A B) (r : Roster A) : ℕ := r.workAt T r.removedChainCleanup

theorem CleanedTo.continue {phase : RemovedChainCleanupPhase A}
    (hrank : Function.Injective T.accountRank) (h : r.CleanedTo T gone (some phase))
    (host : Host H A) (k : ChainKey) (index : RetiredIndex A) :
    (continueRemovedChainCleanup T host k phase r index).1.CleanedTo T gone
      (continueRemovedChainCleanup T host k phase r index).1.removedChainCleanup := by
  have hbatch := h.batch hrank host k index
  exact ⟨hbatch.unregistered, hbatch.idle, hbatch.retired, hbatch.owners, hbatch.invulnerables⟩

/-- **A step on a chain that is not supported keeps what its cleanup has achieved.** -/
theorem CleanedTo.step (hrank : Function.Injective T.accountRank)
    (h : r.CleanedTo T gone r.removedChainCleanup) (hstep : RosterStep T false k st r r') :
    r'.CleanedTo T gone r'.removedChainCleanup := by
  rcases RosterStep.unsupported hstep with hshrinks | ⟨phase, host, index, hphase, rfl⟩
  · rw [hshrinks.record]
    exact h.shrinks hshrinks
  · rw [hphase] at h
    exact h.continue hrank host k index

/-- The attestor is idle or not registered. -/
def RestsAt (a : A) (r : Roster A) : Prop :=
  ∀ attestor, r.attestors.lookup a = some attestor → attestor.status = .idle

theorem RestsAt.shrinks {a : A} (h : r.RestsAt a) (hshrinks : r.Shrinks r') : r'.RestsAt a := by
  intro attestor' ha
  obtain ⟨attestor, hattestor, hidle⟩ := hshrinks.attestors a attestor' ha
  exact hidle (h attestor hattestor)

/-- **An attestor at rest on a chain that is not supported stays at rest.** -/
theorem RestsAt.step {a : A} (h : r.RestsAt a) (hstep : RosterStep T false k st r r') :
    r'.RestsAt a := by
  rcases RosterStep.unsupported hstep with hshrinks | ⟨phase, host, index, -, rfl⟩
  · exact h.shrinks hshrinks
  · refine cleanup_induction (P := fun r' _ => r'.RestsAt a) ?_ ?_ ?_ ?_ ?_ phase r index h
    · intro r' index' b h'
      refine h'.shrinks ((restatus_chillRemoved [b] r').shrinks fun c _ _ _ => ?_)
      split <;> rfl
    · intro r' index' b h'
      unfold clearRetired
      split <;> exact h'
    · exact fun _ _ _ h' => h'
    · exact fun _ _ _ h' => h'
    · exact fun _ _ _ h' => h'

theorem cleanupWork_continue (host : Host H A) (k : ChainKey) (phase : RemovedChainCleanupPhase A)
    (r : Roster A) (index : RetiredIndex A) :
    (continueRemovedChainCleanup T host k phase r index).1.cleanupWork T ≤
        r.workAt T (some phase) ∧
      (host.Progresses → (continueRemovedChainCleanup T host k phase r index).1.cleanupWork T <
        r.workAt T (some phase)) :=
  workAt_batch phase r index

theorem cleanupWork_step (hstep : RosterStep T false k st r r') :
    r'.cleanupWork T ≤ r.cleanupWork T := by
  rcases RosterStep.unsupported hstep with hshrinks | ⟨phase, host, index, hphase, rfl⟩
  · rw [cleanupWork, hshrinks.record]
    exact workAt_shrinks hshrinks _
  · refine (cleanupWork_continue host k phase r index).1.trans_eq ?_
    rw [cleanupWork, hphase]

theorem record_step (h : r.removedChainCleanup = none) (hstep : RosterStep T false k st r r') :
    r'.removedChainCleanup = none := by
  rcases RosterStep.unsupported hstep with hshrinks | ⟨phase, host, index, hphase, -⟩
  · exact hshrinks.record.trans h
  · rw [h] at hphase
    cases hphase

theorem cleanedTo_removal (T : Config H A B) (r : Roster A)
    (hapart : ∀ a, r.attestors.lookup a = none ∨ r.retiredAttestorBlsKeys.lookup a = none) :
    Roster.CleanedTo T (fun a => ∃ entry, r.retiredAttestorBlsKeys.lookup a = some entry)
      (some (.chillAttestors none)) { r with activeAttestors := [] } := by
  refine CleanedTo.early (by simp) (fun a ⟨entry, hentry⟩ => ?_) fun a attestor ha hdone => ?_
  · refine (hapart a).resolve_right fun hnone => ?_
    rw [hnone] at hentry
    cases hentry
  · have hmem : a ∈ attestorsAfter T { r with activeAttestors := [] } none :=
      mem_attestorsAfter.2 ⟨⟨attestor, ha⟩, fun cursor hcursor => by cases hcursor⟩
    exact absurd hmem hdone

end Roster

/-! ## Removed chains along runs -/

section Runs

variable [DecidableEq H] {T : Config H A B} {s s' : State H A B} {k : ChainKey}

/-- **Inversion of a step for a removed chain.** The key of the chain is not given out again, and
the step takes the chain along a path. -/
theorem step_removed (hs : s.registry.KeysBelow) (hdead : ¬ s.Live k) (act : Action T) :
    ¬ (step T s act).Live k ∧ ChainPath T k s (step T s act) := by
  refine ⟨fun hlive => hdead (step_chain hs hlive).1, ?_⟩
  rcases step_cases hs act with ⟨hpath, -⟩ | ⟨host, o, call, k', a, -, -, hcall, heq⟩ |
    ⟨host, o, k', b, -, hremove⟩
  · exact (hpath k).chainPath
  · rw [heq]
    exact hcall.chainPath k
  · obtain ⟨-, hsup, hother, -⟩ := removeChain_chain hremove k
    have hne : k ≠ k' := fun heq => hdead (.inl (heq ▸ hsup))
    exact Path.of_chain_eq (hother hne).1

theorem ChainPath.preserves_roster {P : Roster A → Prop} (hdead : ¬ s.Live k)
    (hstep : ∀ st r r', P r → RosterStep T false k st r r' → P r') (hpath : ChainPath T k s s')
    (h : P (s.chain T k).roster) : P (s'.chain T k).roster := by
  have hsup : s.isChainSupported k = false := by
    rw [← Bool.not_eq_true]
    exact fun h => hdead (.inl h)
  refine hpath.preserves (P := fun c => P c.roster) (fun c c' hc hcc' => ?_) h
  rw [hsup] at hcc'
  cases hcc' with
  | anchors _ | settings _ => exact hc
  | roster hr => exact hstep _ _ _ hc hr

/-- **Induction over runs for the roster of a removed chain.** -/
theorem removed_invariant {P : Roster A → Prop} (hs : s.registry.KeysBelow) (hdead : ¬ s.Live k)
    (hstep : ∀ st r r', P r → RosterStep T false k st r r' → P r') (h : P (s.chain T k).roster)
    (acts : List (Action T)) : P ((run T s acts).chain T k).roster := by
  induction acts generalizing s with
  | nil => exact h
  | cons act acts ih =>
    obtain ⟨hdead', hpath⟩ := step_removed hs hdead act
    exact ih (keysBelow_step hs act) hdead' (hpath.preserves_roster hdead hstep h)

variable {host : Host H A}

theorem removeChain_roster {b : Bool} (hs : s.registry.KeysBelow)
    (h : s.removeChain T host k b = .ok s') :
    ¬ s'.Live k ∧ (s'.chain T k).roster =
      (removeChainRoster T host k (s.chain T k).roster s.retiredAttestorKeysByStash).1 := by
  obtain ⟨-, hsup, -, hlive⟩ := removeChain_chain h k
  refine ⟨fun h' => absurd (hs k hsup) (not_lt.2 (hlive h')), ?_⟩
  simp only [State.removeChain, bind_eq_ok, pure_eq_ok] at h
  obtain ⟨g, -, rfl⟩ := h
  exact congrArg Chain.roster (State.chain_setChain_self T s k _)

/-! ## The batch of a block -/

omit [DecidableEq A] [DecidableEq H] in
theorem pending_eq_none {X : Type} {pending : Chain H A → Option X}
    (h : firstPending T s pending = none) (hinitial : pending (.initial T) = none) (k : ChainKey) :
    pending (s.chain T k) = none := by
  rcases hk : s.chains.lookup k with _ | c
  · rw [State.chain, hk]
    exact hinitial
  · have hmem := (StorageMap.mem_iterKeys s.chains T.chainRank k).2 ⟨c, hk⟩
    exact Option.map_eq_none_iff.1 (List.findSome?_eq_none_iff.1 h k hmem)

/-- **A block continues the cleanup of one chain**, if there is one to be continued, and leaves the
rosters of all others as they are. -/
theorem block_rosters (T : Config H A B) (host : Host H A) (s : State H A B) :
    (∃ j phase, (s.chain T j).roster.removedChainCleanup = some phase ∧
        ((step T s (.block host)).chain T j).roster = (continueRemovedChainCleanup T host j phase
          (s.chain T j).roster s.retiredAttestorKeysByStash).1 ∧
        ∀ i, i ≠ j → ((step T s (.block host)).chain T i).roster = (s.chain T i).roster) ∨
      ∀ i, (s.chain T i).roster.removedChainCleanup = none ∧
        ((step T s (.block host)).chain T i).roster = (s.chain T i).roster := by
  have hframe := onInit_induction (T := T) (s := { s with blockNumber := s.blockNumber + 1 })
    (P := fun s' => (∀ i, (s'.chain T i).roster = (s.chain T i).roster) ∧
      s'.retiredAttestorKeysByStash = s.retiredAttestorKeysByStash)
    (fun s' j a h => ⟨fun i => ?_, h.2⟩) host ⟨fun _ => rfl, rfl⟩
  · unfold step onInitialize
    dsimp only
    generalize onInitClearAttestations T host _ = s₁ at hframe ⊢
    obtain ⟨hrosters, hindex⟩ := hframe
    unfold onInitCleanupRemovedChains
    split
    · next j phase hfirst =>
      refine .inl ⟨j, phase, hrosters j ▸ pending_of_firstPending hfirst, ?_, fun i hi => ?_⟩
      · refine (congrArg Chain.roster (State.chain_setChain_self T s₁ j _)).trans ?_
        rw [hrosters, hindex]
      · exact (congrArg Chain.roster (State.chain_setChain_of_ne T s₁ hi _)).trans (hrosters i)
    · next hnone =>
      exact .inr fun i => ⟨hrosters i ▸ pending_eq_none hnone rfl i, hrosters i⟩
  · rw [← h.1 i, State.setAnchors, State.chain_setChain]
    split
    · next heq => rw [heq]
    · rfl

/-! ## The end of all cleanups -/

/-- The work left by the records of all chains. -/
def State.cleanupWork (T : Config H A B) (s : State H A B) : ℕ :=
  s.chains.total fun _ c => c.roster.cleanupWork T

/-- The chains that may still be removed, and the work left. -/
def State.removalMeasure (T : Config H A B) (s : State H A B) : ℕ ×ₗ ℕ :=
  toLex (s.registry.supportedChains.keys.length, s.cleanupWork T)

section

omit [DecidableEq A] [DecidableEq H]

theorem part_cleanupWork (T : Config H A B) (s : State H A B) (k : ChainKey) :
    s.chains.part (fun _ c => c.roster.cleanupWork T) k = (s.chain T k).roster.cleanupWork T := by
  rcases h : s.chains.lookup k with _ | c
  · rw [StorageMap.part_of_none h, State.chain, h]
    rfl
  · rw [StorageMap.part_of_lookup h, State.chain, h]
    rfl

theorem cleanupWork_le
    (h : ∀ k, (s'.chain T k).roster.cleanupWork T ≤ (s.chain T k).roster.cleanupWork T) :
    s'.cleanupWork T ≤ s.cleanupWork T := by
  refine StorageMap.total_le fun k => ?_
  rw [part_cleanupWork, part_cleanupWork]
  exact h k

theorem cleanupWork_lt
    (h : ∀ k, (s'.chain T k).roster.cleanupWork T ≤ (s.chain T k).roster.cleanupWork T)
    (hk : (s'.chain T k).roster.cleanupWork T < (s.chain T k).roster.cleanupWork T) :
    s'.cleanupWork T < s.cleanupWork T := by
  refine StorageMap.total_lt (k := k) (fun i => ?_) ?_
  · rw [part_cleanupWork, part_cleanupWork]
    exact h i
  · rw [part_cleanupWork, part_cleanupWork]
    exact hk

theorem removalMeasure_lt (hregistry : s'.registry = s.registry)
    (hwork : s'.cleanupWork T < s.cleanupWork T) : s'.removalMeasure T < s.removalMeasure T := by
  rw [State.removalMeasure, State.removalMeasure, hregistry]
  exact Prod.Lex.toLex_lt_toLex.2 (.inr ⟨rfl, hwork⟩)

end

theorem cleanupWork_of_live (hreach : Reachable T s) (hlive : s.Live k) :
    (s.chain T k).roster.cleanupWork T = 0 := by
  rw [Roster.cleanupWork, (coherent_of_live hreach hlive).roster.cleanup]
  rfl

theorem removalMeasure_le_of_grows (hreach : Reachable T s) {act : Action T}
    (hgrows : s.registry.GrowsBy false (step T s act).registry) :
    (step T s act).removalMeasure T ≤ s.removalMeasure T := by
  have hkey := hgrows.key_eq rfl
  refine Prod.Lex.toLex_mono ⟨StorageMap.length_keys_le fun k chain hk => ?_,
    cleanupWork_le fun k => ?_⟩
  · rcases hgrows.supported k (Option.isSome_iff_exists.2 ⟨chain, hk⟩) with hsup | ⟨heq, hlt⟩
    · exact Option.isSome_iff_exists.1 hsup
    · rw [hkey, heq] at hlt
      exact absurd hlt (lt_irrefl _)
  · by_cases hlive : s.Live k
    · have hlive' : (step T s act).Live k :=
        hlive.imp (hgrows.kept k) fun hle => hkey.le.trans hle
      rw [cleanupWork_of_live (hreach.step act) hlive']
      exact Nat.zero_le _
    · refine (step_removed hreach.keysBelow hlive act).2.preserves_roster
        (P := fun r => r.cleanupWork T ≤ (s.chain T k).roster.cleanupWork T) hlive ?_ le_rfl
      exact fun st r r' h hstep => (Roster.cleanupWork_step hstep).trans h

/-- **Only a registration lets the measure grow.** -/
theorem removalMeasure_step (hreach : Reachable T s) {act : Action T}
    (hact : act.registersChain = false) :
    (step T s act).removalMeasure T ≤ s.removalMeasure T := by
  rcases step_cases hreach.keysBelow act with ⟨-, hgrows⟩ | ⟨-, -, -, k, a, -, -, -, heq⟩ |
    ⟨host, o, k, b, -, hremove⟩
  · exact removalMeasure_le_of_grows hreach (hact ▸ hgrows)
  · refine removalMeasure_le_of_grows hreach ?_
    rw [heq]
    exact .refl
  · simp only [State.removeChain, bind_eq_ok, pure_eq_ok] at hremove
    obtain ⟨g, hg, heq⟩ := hremove
    refine (Prod.Lex.toLex_lt_toLex.2 (.inl ?_)).le
    rw [← heq]
    exact Registry.length_removeChain_lt hg

theorem cleanupWork_block (hprogress : host.Progresses) {phase : RemovedChainCleanupPhase A}
    (hpending : (s.chain T k).roster.removedChainCleanup = some phase) :
    (step T s (.block host)).cleanupWork T < s.cleanupWork T := by
  rcases block_rosters T host s with ⟨j, phase', hphase, hbatch, hothers⟩ | hnone
  · have hlt : ((step T s (.block host)).chain T j).roster.cleanupWork T <
        (s.chain T j).roster.cleanupWork T := by
      rw [hbatch]
      refine ((Roster.cleanupWork_continue host j phase' _ _).2 hprogress).trans_eq ?_
      rw [Roster.cleanupWork, hphase]
    refine cleanupWork_lt (fun i => ?_) hlt
    rcases eq_or_ne i j with rfl | hi
    · exact hlt.le
    · rw [hothers i hi]
  · rw [(hnone k).1] at hpending
    cases hpending

/-- **A block makes the measure smaller** while a cleanup is pending, if the host makes progress. -/
theorem removalMeasure_block (hprogress : host.Progresses) {phase : RemovedChainCleanupPhase A}
    (hpending : (s.chain T k).roster.removedChainCleanup = some phase) :
    (step T s (.block host)).removalMeasure T < s.removalMeasure T := by
  exact removalMeasure_lt (block_registry T host s) (cleanupWork_block hprogress hpending)

/-- **As long as no chain is registered, every cleanup ends.** -/
theorem exists_cleanup_done (hreach : Reachable T s) (k : ChainKey) {acts : ℕ → Action T}
    (hacts : ∀ n, (acts n).registersChain = false)
    (hblocks : ∀ n, ∃ m, n ≤ m ∧ ∃ host : Host H A, host.Progresses ∧ acts m = .block host) :
    ∃ n, ((run T s ((List.range n).map acts)).chain T k).roster.removedChainCleanup = none := by
  have hsucc : ∀ n, run T s ((List.range (n + 1)).map acts) =
      step T (run T s ((List.range n).map acts)) (acts n) := by
    intro n
    rw [List.range_succ, List.map_append, run_append, List.map_singleton, run_singleton]
  obtain ⟨n, hn⟩ := exists_not_pending_of_descent
    (fun n => (run T s ((List.range n).map acts)).removalMeasure T)
    (fun n => ((run T s ((List.range n).map acts)).chain T k).roster.removedChainCleanup ≠ none)
    (fun n => hsucc n ▸ removalMeasure_step (hreach.run _) (hacts n)) fun n => by
      obtain ⟨m, hm, host, hprogress, hblock⟩ := hblocks n
      refine ⟨m, hm, fun hpending => ?_⟩
      obtain ⟨phase, hphase⟩ := Option.ne_none_iff_exists'.1 hpending
      rw [hsucc, hblock]
      exact removalMeasure_block hprogress hphase
  exact ⟨n, not_not.1 hn⟩

/-! ## The cleanup of a removed chain -/

theorem block_itemsTouched_le (hlimits : host.KeepsLimits) (s : State H A B) :
    ∃ j, (s.chain T j).roster.itemsTouched ((step T s (.block host)).chain T j).roster ≤
        maxRemovalCleanupItemsPerBlock ∧
      ∀ i, i ≠ j → ((step T s (.block host)).chain T i).roster = (s.chain T i).roster := by
  rcases block_rosters T host s with ⟨j, phase, -, hbatch, hothers⟩ | hnone
  · refine ⟨j, ?_, hothers⟩
    rw [hbatch]
    exact itemsTouched_batch_le hlimits phase (s.chain T j).roster s.retiredAttestorKeysByStash
  · refine ⟨0, ?_, fun i _ => (hnone i).2⟩
    rw [(hnone 0).2]
    simp [Roster.itemsTouched]

theorem cleanedTo_of_removal {s₁ : State H A B} {b : Bool}
    (hrank : Function.Injective T.accountRank) (hreach : Reachable T s)
    (hremove : s.removeChain T host k b = .ok s₁) (hs₁ : s₁.registry.KeysBelow)
    (acts : List (Action T)) :
    ((run T s₁ acts).chain T k).roster.CleanedTo T
      (fun a => ∃ entry, (s.chain T k).roster.retiredAttestorBlsKeys.lookup a = some entry)
      ((run T s₁ acts).chain T k).roster.removedChainCleanup := by
  obtain ⟨hdead, hroster⟩ := removeChain_roster hreach.keysBelow hremove
  refine removed_invariant (P := fun r => r.CleanedTo T _ r.removedChainCleanup) hs₁ hdead
    (fun st r r' h hstep => h.step hrank hstep) ?_ acts
  rw [hroster]
  exact (Roster.cleanedTo_removal T _ ((indexed_of_reachable hreach).apart k)).continue
    hrank host k _

omit [DecidableEq A] [DecidableEq H] in
theorem Devnet.removedBy_clearUpTo {K V : Type} [DecidableEq K] (limit : ℕ) (m : StorageMap K V) :
    m.removedBy (m.clearPrefix (clearUpTo limit m)).1 = min limit m.keys.length := by
  unfold clearUpTo StorageMap.removedBy
  split
  · next hle => simp [StorageMap.clearPrefix, hle]
  · next hlt =>
    have hlen := StorageMap.length_keys_eraseAll (m := m)
      (m.keys_nodup.sublist (List.take_sublist limit _)) fun k hk =>
        (StorageMap.mem_keys_iff m k).1 (List.mem_of_mem_take hk)
    rw [List.length_take] at hlen
    simp only [StorageMap.clearPrefix]
    omega

theorem Devnet.length_clearUpTo_lt {K V : Type} [DecidableEq K] {limit : ℕ} {m : StorageMap K V}
    (hlimit : 0 < limit) (h : (m.clearPrefix (clearUpTo limit m)).2 ≠ none) :
    (m.clearPrefix (clearUpTo limit m)).1.keys.length < m.keys.length := by
  have hremoved := removedBy_clearUpTo limit m
  have hmany : limit < m.keys.length := by
    by_contra hle
    rw [clearUpTo, if_pos (not_lt.1 hle)] at h
    exact h rfl
  rw [StorageMap.removedBy] at hremoved
  omega

theorem Devnet.progresses_host : Devnet.host.Progresses :=
  ⟨fun _ _ hlimit h => length_clearUpTo_lt hlimit h, fun _ _ hlimit h =>
    length_clearUpTo_lt hlimit h⟩

/-- **The cleanup of a removed chain.** Whatever happens after the removal of a chain, an attestor
that has come to rest stays at rest. When the record of the cleanup is gone, all attestors are idle,
no key has an owner, nobody is invulnerable, and the retired keys that were there at the removal are
gone with their pairs in the index. A block touches at most the items of one batch. As long as no
chain is registered, and blocks keep coming, the record is gone after finitely many of them and does
not come back. -/
theorem removed_chain_cleanup {s₁ : State H A B} {host : Host H A} {o : Origin A} {b : Bool}
    (hrank : Function.Injective T.accountRank) (hreach : Reachable T s)
    (hremove : dispatch T host s o (.removeChain k b) = .ok s₁) :
    (∀ acts acts' a, ((run T s₁ acts).chain T k).roster.RestsAt a →
        ((run T s₁ (acts ++ acts')).chain T k).roster.RestsAt a) ∧
      (∀ acts, ((run T s₁ acts).chain T k).roster.removedChainCleanup = none →
        (∀ a attestor, ((run T s₁ acts).chain T k).roster.attestors.lookup a = some attestor →
          attestor.status = .idle) ∧
        ((run T s₁ acts).chain T k).roster.blsKeyOwner = ∅ ∧
        ((run T s₁ acts).chain T k).roster.invulnerables = ∅ ∧
        ∀ a entry, (s.chain T k).roster.retiredAttestorBlsKeys.lookup a = some entry →
          ((run T s₁ acts).chain T k).roster.retiredAttestorBlsKeys.lookup a = none ∧
          ∀ stash, (k, a) ∉
            RetiredIndex.pairs (run T s₁ acts).retiredAttestorKeysByStash stash) ∧
      (∀ acts (host' : Host H A), host'.KeepsLimits →
        ∃ j, ((run T s₁ acts).chain T j).roster.itemsTouched
              ((run T s₁ (acts ++ [.block host'])).chain T j).roster ≤
            maxRemovalCleanupItemsPerBlock ∧
          ∀ i, i ≠ j → ((run T s₁ (acts ++ [.block host'])).chain T i).roster =
            ((run T s₁ acts).chain T i).roster) ∧
      ∀ acts : ℕ → Action T, (∀ n, (acts n).registersChain = false) →
        (∀ n, ∃ m, n ≤ m ∧ ∃ host' : Host H A, host'.Progresses ∧ acts m = .block host') →
        ∃ n, ∀ acts', ((run T s₁ ((List.range n).map acts ++ acts')).chain T
          k).roster.removedChainCleanup = none := by
  have hstep : step T s (.call host o (.removeChain k b)) = s₁ := by rw [step, hremove]
  have hreach₁ : Reachable T s₁ := hstep ▸ hreach.step _
  simp only [dispatch, asOperator_eq_ok] at hremove
  have hdead := (removeChain_roster hreach.keysBelow hremove.2).1
  -- after a run the chain is still removed
  have hdeadRun : ∀ acts, ¬ (run T s₁ acts).Live k :=
    fun acts hlive => hdead (live_of_run hreach₁.keysBelow acts hlive)
  refine ⟨fun acts acts' a h => ?_, fun acts hdone => ?_, fun acts host' hlimits => ?_,
    fun acts hacts hblocks => ?_⟩
  · rw [run_append]
    exact removed_invariant (hreach₁.run acts).keysBelow (hdeadRun acts)
      (fun st r r' h hstep => h.step hstep) h acts'
  · have hclean := cleanedTo_of_removal hrank hreach hremove.2 hreach₁.keysBelow acts
    rw [hdone] at hclean
    refine ⟨fun a attestor ha => hclean.idle a attestor ha List.not_mem_nil,
      hclean.owners (by simp),
      hclean.invulnerables (by simp), fun a entry hentry => ?_⟩
    have hgone := hclean.retired (by simp) a ⟨entry, hentry⟩
    refine ⟨hgone, fun stash hmem => ?_⟩
    have hrow := ((indexed_of_reachable (hreach₁.run acts)).exact.mem_iff stash k a).1 hmem
    rw [State.retiredStash, Roster.retiredStash_eq_none.2 hgone] at hrow
    cases hrow
  · rw [run_append, run_singleton]
    exact block_itemsTouched_le hlimits _
  · obtain ⟨n, hn⟩ := exists_cleanup_done hreach₁ k hacts hblocks
    refine ⟨n, fun acts' => ?_⟩
    rw [run_append]
    exact removed_invariant (hreach₁.run _).keysBelow (hdeadRun _)
      (fun st r r' h hstep => Roster.record_step h hstep) hn acts'

end Runs

section Devnet

open Devnet

theorem devnet_removed_chain_cleanup :
    ∃ s₁ entry n, dispatch config host retired .root (.removeChain 1 true) = .ok s₁ ∧
      (retired.chain config 1).roster.retiredAttestorBlsKeys.lookup 1 = some entry ∧
      ((run config s₁ ((List.range n).map fun _ => .block host)).chain config
        1).roster.removedChainCleanup = none ∧
      ((run config s₁ ((List.range n).map fun _ => .block host)).chain config
        1).roster.retiredAttestorBlsKeys.lookup 1 = none := by
  have hs₁ : dispatch config host retired .root (.removeChain 1 true) = .ok _ :=
    dispatch_eq_step (by rfl)
  have hentry : (retired.chain config 1).roster.retiredAttestorBlsKeys.lookup 1 = some _ := rfl
  obtain ⟨-, hdone, -, hends⟩ :=
    removed_chain_cleanup Function.injective_id reachable_retired hs₁
  obtain ⟨n, hn⟩ := hends (fun _ => .block host) (fun _ => rfl)
    fun n => ⟨n, le_rfl, host, progresses_host, rfl⟩
  have hnone := hn []
  rw [List.append_nil] at hnone
  exact ⟨_, _, n, hs₁, hentry, hnone, ((hdone _ hnone).2.2.2 1 _ hentry).1⟩

end Devnet

end Creditcoin
