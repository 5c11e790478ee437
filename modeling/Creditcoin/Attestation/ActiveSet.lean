import Creditcoin.Attestation.RosterEffects
import Creditcoin.Attestation.SettingsBounds
import Creditcoin.Attestation.ValidateErrors

/-!
# The active set

The active set of a chain, the statuses of its attestors and the counter of attestors agree
(`Roster.Coherent`): the set has no duplicates, its members are the active and the leaving
attestors, and the counter counts the attestors and stays within the limit of the chain. -/

namespace Creditcoin

variable {H A B : Type} [DecidableEq A]

namespace Roster

variable {r r' : Roster A} {a : A}

/-! ## Agreement of the records -/

/-- Is this the status of a member of the active set? -/
def seated : AttestorStatus → Bool
  | .active | .leaving => true
  | .idle | .waiting => false

/-- The active set, the statuses and the counter agree. An attestor without a key is idle. -/
structure Coherent (r : Roster A) : Prop where
  nodup : r.activeAttestors.Nodup
  mem_iff : ∀ a, a ∈ r.activeAttestors ↔ (r.attestorStatus a).any seated = true
  count : r.attestorsCount = r.attestors.keys.length
  keyless : ∀ a attestor, r.attestors.lookup a = some attestor →
    attestor.blsPublicKey = none → attestor.status = .idle
  cleanup : r.removedChainCleanup = none

theorem coherent_empty : (Roster.empty : Roster A).Coherent where
  nodup := List.nodup_nil
  mem_iff a := by simp [Roster.empty, attestorStatus]
  count := rfl
  keyless a attestor h := by simp [Roster.empty] at h
  cleanup := rfl

variable {attestor : Attestor A}

theorem attestorStatus_eq (h : r.attestors.lookup a = some attestor) :
    r.attestorStatus a = some attestor.status := by
  rw [attestorStatus, h, Option.map_some]

theorem Coherent.mem_of_lookup (h : r.Coherent) (ha : r.attestors.lookup a = some attestor) :
    a ∈ r.activeAttestors ↔ seated attestor.status = true := by
  rw [h.mem_iff, attestorStatus_eq ha, Option.any_some]

theorem Coherent.not_mem_of_lookup (h : r.Coherent) (ha : r.attestors.lookup a = none) :
    a ∉ r.activeAttestors := by
  rw [h.mem_iff, attestorStatus, ha]
  simp

theorem Coherent.length_le (h : r.Coherent) : r.activeAttestors.length ≤ r.attestorsCount := by
  rw [h.count]
  refine (List.subperm_of_subset h.nodup fun a ha => ?_).length_le
  rw [StorageMap.mem_keys_iff]
  rcases hlookup : r.attestors.lookup a with _ | attestor
  · exact absurd ha (h.not_mem_of_lookup hlookup)
  · exact ⟨attestor, rfl⟩

/-! ## The steps -/

theorem Coherent.restatus {f : A → AttestorStatus → AttestorStatus} (h : r.Coherent)
    (hf : Restatus f r r')
    (hidle : ∀ a attestor, r.attestors.lookup a = some attestor → attestor.status = .idle →
      f a .idle = .idle)
    (hnodup : r'.activeAttestors.Nodup)
    (hmem : ∀ a, a ∈ r'.activeAttestors ↔ ((r.attestorStatus a).map (f a)).any seated = true) :
    r'.Coherent where
  nodup := hnodup
  mem_iff a := by rw [hmem, hf.attestorStatus]
  count := by
    rw [hf.count, h.count]
    refine (StorageMap.length_keys_congr fun a => ?_).symm
    rw [hf.attestors, Option.isSome_map]
  keyless a attestor' hlookup hkey := by
    rw [hf.attestors, Option.map_eq_some_iff] at hlookup
    obtain ⟨attestor, ha, rfl⟩ := hlookup
    have hstatus := h.keyless a attestor ha hkey
    dsimp only
    rw [hstatus]
    exact hidle a attestor ha hstatus
  cleanup := hf.cleanup.trans h.cleanup

theorem Coherent.within {f : A → AttestorStatus → AttestorStatus} {limit : ℕ} {supported : Bool}
    (h : r'.Coherent) (hle : r.attestorsCount ≤ limit) (hf : Restatus f r r') :
    r'.Coherent ∧ r'.attestorsCount ≤ limit ∧
      (supported = false → r.attestors.keys = [] → r'.attestors.keys = []) := by
  refine ⟨h, hf.count ▸ hle, fun _ hnil => ?_⟩
  rw [StorageMap.keys_eq_nil_iff] at hnil ⊢
  intro a
  rw [hf.attestors, hnil, Option.map_none]

theorem Coherent.doChillAttestorImmediate (h : r.Coherent) (a : A) :
    (r.doChillAttestorImmediate a).Coherent := by
  refine h.restatus (restatus_doChillAttestorImmediate r a) ?_ ?_ fun b => ?_
  · intro b attestor _ _
    rw [onlyAt]
    split <;> rfl
  · rw [doChillAttestorImmediate_activeAttestors]
    exact nodup_swapErase h.nodup a
  · rw [doChillAttestorImmediate_activeAttestors, mem_swapErase h.nodup, h.mem_iff]
    rcases eq_or_ne b a with rfl | hne
    · rcases r.attestorStatus b with _ | status <;> simp [onlyAt, seated]
    · rw [onlyAt_of_ne hne, Option.map_id, id_eq]
      exact and_iff_right hne

theorem Coherent.scheduleVoluntaryChill (h : r.Coherent) (ha : r.attestors.lookup a = some attestor)
    (hactive : attestor.status = .active) : (r.scheduleVoluntaryChill a).Coherent := by
  have hset : (r.scheduleVoluntaryChill a).activeAttestors = r.activeAttestors :=
    setStatus_activeAttestors r a .leaving
  refine h.restatus (restatus_setStatus r a .leaving) ?_ ?_ fun b => ?_
  · intro b attestor' hb hidle
    rcases eq_or_ne b a with rfl | hne
    · rw [ha, Option.some.injEq] at hb
      rw [← hb, hactive] at hidle
      cases hidle
    · rw [onlyAt_of_ne hne, id_eq]
  · rw [hset]
    exact h.nodup
  · rw [hset, h.mem_iff]
    rcases eq_or_ne b a with rfl | hne
    · rw [attestorStatus_eq ha, hactive, Option.map_some, onlyAt, if_pos rfl]
      rfl
    · rw [onlyAt_of_ne hne, Option.map_id, id_eq]

theorem Coherent.elect (h : r.Coherent) (T : Config H A B) (policy : AttestorElectionPolicy)
    (epoch : ℕ) : (r.electAttestorsForChain T policy epoch).Coherent := by
  obtain ⟨hnodup, hmem⟩ := mem_electAttestorsForChain T policy epoch h.nodup
  refine h.restatus (restatus_electAttestorsForChain T policy epoch r) (fun _ _ _ _ => rfl) hnodup
    fun a => ?_
  rw [hmem]
  rcases r.attestorStatus a with _ | status
  · simp
  · rw [Option.map_some, Option.any_some, Option.some.injEq]
    cases status with
    | active | leaving | idle => simp [electedStatus, seated]
    | waiting =>
      simp only [electedStatus]
      split <;> simp [seated]

theorem Coherent.register {stash : A} (h : r.Coherent) (ha : r.attestors.lookup a = none)
    (hcount : r.attestorsCount < u32Max)
    (hattestors : r'.attestors = r.attestors.insert a ⟨none, .idle, stash⟩)
    (hcounter : r'.attestorsCount = satAdd u32Max r.attestorsCount 1)
    (hactive : r'.activeAttestors = r.activeAttestors)
    (hcleanup : r'.removedChainCleanup = r.removedChainCleanup) : r'.Coherent where
  nodup := by
    rw [hactive]
    exact h.nodup
  mem_iff b := by
    rw [hactive, attestorStatus, hattestors, StorageMap.lookup_insert_eq]
    split
    · next heq =>
      rw [heq]
      simpa [seated] using h.not_mem_of_lookup ha
    · exact h.mem_iff b
  count := by
    rw [hcounter, satAdd_of_le hcount, hattestors, StorageMap.length_keys_insert ha, h.count]
  keyless b attestor hlookup hkey := by
    rw [hattestors, StorageMap.lookup_insert_eq] at hlookup
    split at hlookup
    · rw [← Option.some.inj hlookup]
    · exact h.keyless b attestor hlookup hkey
  cleanup := hcleanup.trans h.cleanup

theorem Coherent.unregister (h : r.Coherent) (ha : r.attestors.lookup a = some attestor)
    (hattestors : r'.attestors = r.attestors.erase a)
    (hcounter : r'.attestorsCount = r.attestorsCount - 1)
    (hactive : r'.activeAttestors = swapErase r.activeAttestors a)
    (hcleanup : r'.removedChainCleanup = r.removedChainCleanup) : r'.Coherent where
  nodup := by
    rw [hactive]
    exact nodup_swapErase h.nodup a
  mem_iff b := by
    rw [hactive, mem_swapErase h.nodup, attestorStatus, hattestors, StorageMap.lookup_erase_eq]
    split
    · next heq => simp [heq]
    · next hne => rw [h.mem_iff, attestorStatus, and_iff_right hne]
  count := by rw [hcounter, hattestors, StorageMap.length_keys_erase ha, h.count]
  keyless b attestor' hlookup hkey := by
    rw [hattestors, StorageMap.lookup_erase_eq] at hlookup
    split at hlookup
    · cases hlookup
    · exact h.keyless b attestor' hlookup hkey
  cleanup := hcleanup.trans h.cleanup

theorem Coherent.attest {key : BlsPublicKey} (h : r.Coherent)
    (ha : r.attestors.lookup a = some attestor)
    (hidle : attestor.blsPublicKey.isSome = true → attestor.status = .idle)
    (hattestors : r'.attestors = r.attestors.insert a
      { attestor with status := .waiting, blsPublicKey := some key })
    (hcounter : r'.attestorsCount = r.attestorsCount)
    (hactive : r'.activeAttestors = r.activeAttestors)
    (hcleanup : r'.removedChainCleanup = r.removedChainCleanup) : r'.Coherent where
  nodup := by
    rw [hactive]
    exact h.nodup
  mem_iff b := by
    rw [hactive, attestorStatus, hattestors, StorageMap.lookup_insert_eq]
    split
    · next heq =>
      have hstatus : attestor.status = .idle := by
        rcases hkey : attestor.blsPublicKey with _ | oldKey
        · exact h.keyless a attestor ha hkey
        · exact hidle (by rw [hkey]; rfl)
      rw [heq, h.mem_of_lookup ha, hstatus]
      rfl
    · exact h.mem_iff b
  count := by
    rw [hcounter, h.count]
    refine (StorageMap.length_keys_congr fun b => ?_).symm
    rw [hattestors, StorageMap.lookup_insert_eq]
    split
    · next heq => rw [heq, ha]; rfl
    · rfl
  keyless b attestor' hlookup hkey := by
    rw [hattestors, StorageMap.lookup_insert_eq] at hlookup
    split at hlookup
    · rw [← Option.some.inj hlookup] at hkey
      cases hkey
    · exact h.keyless b attestor' hlookup hkey
  cleanup := hcleanup.trans h.cleanup

variable {T : Config H A B} {supported : Bool} {k : ChainKey} {st : Settings}

/-- **Every step of the roster keeps its records in agreement**, and the counter within the limit of
the chain. -/
theorem Coherent.step [DecidableEq H] (h : r.Coherent) (hle : r.attestorsCount ≤ st.maxAttestors)
    (hmax : st.maxAttestors ≤ u32Max) (hstep : RosterStep T supported k st r r') :
    r'.Coherent ∧ r'.attestorsCount ≤ st.maxAttestors ∧
      (supported = false → r.attestors.keys = [] → r'.attestors.keys = []) := by
  cases hstep with
  | registered hsup index index' stash attestorId hr =>
    obtain ⟨hnone, hlt, -, -, rfl, -⟩ := registerAttestor_effect hr
    have hframe := forgetRetired_eq r attestorId
    refine ⟨h.register hnone (hlt.trans_le hmax) rfl rfl ?_ ?_, ?_, ?_⟩
    · rw [hframe]
    · rw [hframe]
    · exact (satAdd_le _ _ _).trans hlt
    · intro hsup'
      rw [hsup] at hsup'
      cases hsup'
  | unregistered index index' stash attestorId purgeAtEra hown hr =>
    have hlookup := (removableAttestor_eq_ok hown).1
    obtain ⟨rfl, -⟩ := unregisterAttestor_effect hr
    refine ⟨h.unregister hlookup rfl rfl rfl rfl, (Nat.sub_le _ _).trans hle, fun _ hnil => ?_⟩
    rw [AList.keys_erase, hnil, List.erase_nil]
  | activated who key pop hr =>
    obtain ⟨-, attestor, hlookup, hidle, -, rfl⟩ := startAttesting_effect hr
    refine ⟨h.attest hlookup hidle rfl rfl rfl rfl, hle, fun _ hnil => ?_⟩
    rw [(StorageMap.keys_eq_nil_iff _).1 hnil] at hlookup
    cases hlookup
  | chilled who attestorId hr =>
    obtain ⟨attestor, hlookup, ⟨-, rfl⟩ | ⟨hactive, rfl⟩⟩ := chill_effect hr
    · exact (h.doChillAttestorImmediate attestorId).within hle
        (restatus_doChillAttestorImmediate r attestorId)
    · exact (h.scheduleVoluntaryChill hlookup hactive).within hle
        (restatus_setStatus r attestorId .leaving)
  | kicked attestorId =>
    exact (h.doChillAttestorImmediate attestorId).within hle
      (restatus_doChillAttestorImmediate r attestorId)
  | elected _ epoch =>
    exact (h.elect T _ epoch).within hle (restatus_electAttestorsForChain T _ epoch r)
  | announced events => exact ⟨{ h with }, hle, fun _ hnil => hnil⟩
  | invulnerable _ hr | authorized _ hr =>
    simp only [registerInvulnerable, authorizeAttestor, bind_eq_ok, pure_eq_ok] at hr
    obtain ⟨-, -, -, -, rfl⟩ := hr
    exact ⟨{ h with }, hle, fun _ hnil => hnil⟩
  | vulnerable _ hr | unauthorized _ hr =>
    simp only [unregisterInvulnerable, removeAuthorizedAttestor, bind_eq_ok, pure_eq_ok] at hr
    obtain ⟨-, -, rfl⟩ := hr
    exact ⟨{ h with }, hle, fun _ hnil => hnil⟩
  | purged attestorId hentry =>
    rw [purged_eq hentry, forgetRetired_eq]
    exact ⟨{ h with }, hle, fun _ hnil => hnil⟩
  | cleanedUp host index hphase =>
    rw [h.cleanup] at hphase
    cases hphase

end Roster

/-! ## Live chains -/

/-- The records of the attestors agree and fit the limit, which fits the limit of the runtime.
Nobody is registered before the chain is. -/
structure Chain.Coherent (T : Config H A B) (supported : Bool) (c : Chain H A) : Prop where
  roster : c.roster.Coherent
  count_le : c.roster.attestorsCount ≤ c.settings.maxAttestors
  max_le : c.settings.maxAttestors ≤ T.maxAttestationNodes
  blank : supported = false → c.roster.attestors.keys = []

section Live

variable [DecidableEq H] {T : Config H A B} {s : State H A B} {k : ChainKey} {supported : Bool}
  {c c' : Chain H A}

omit [DecidableEq A] [DecidableEq H] in
theorem maxAttestationNodes_le (T : Config H A B) : T.maxAttestationNodes ≤ u32Max := by
  have := T.nodes_lt
  unfold u32Max
  omega

omit [DecidableEq H] in
theorem Chain.Coherent.settings (h : c.Coherent T supported) {st : Settings}
    (hstep : SettingsStep T supported c st) :
    c.roster.attestorsCount ≤ st.maxAttestors ∧ st.maxAttestors ≤ T.maxAttestationNodes := by
  rcases hstep.limits.1 with heq | ⟨hle, hnew | hcount⟩
  · exact heq ▸ ⟨h.count_le, h.max_le⟩
  · rw [h.roster.count, h.blank hnew]
    exact ⟨Nat.zero_le _, hle⟩
  · exact ⟨hcount, hle⟩

theorem Chain.Coherent.step (h : c.Coherent T supported) (hstep : ChainStep T supported k c c') :
    c'.Coherent T supported := by
  cases hstep with
  | anchors _ => exact { h with }
  | roster hr =>
    obtain ⟨hroster, hle, hblank⟩ := h.roster.step h.count_le
      (h.max_le.trans (maxAttestationNodes_le T)) hr
    exact ⟨hroster, hle, h.max_le, fun hsup => hblank hsup (h.blank hsup)⟩
  | settings hst => exact ⟨h.roster, (h.settings hst).1, (h.settings hst).2, h.blank⟩

theorem coherent_of_live (hreach : Reachable T s) (hlive : s.Live k) :
    (s.chain T k).Coherent T (s.isChainSupported k) := by
  refine supported_invariant (P := fun b c => c.Coherent T b) hreach hlive ?_ ?_ ?_
  · intro gc s₀ hgen b
    refine genesis_invariant (P := fun c => c.Coherent T b) hgen ?_ ?_
    · exact ⟨Roster.coherent_empty, Nat.zero_le _, le_rfl, fun _ => rfl⟩
    · intro cfg c c' _ _ hc hbuild
      unfold buildChain at hbuild
      split at hbuild
      · obtain rfl := Option.some.inj hbuild
        have hroster := hc.roster
        exact ⟨{ hroster with }, hc.count_le.trans hc.max_le, le_rfl, hc.blank⟩
      · simp at hbuild
  · exact fun c hc => ⟨hc.roster, hc.count_le, hc.max_le, fun h => by cases h⟩
  · exact fun supported c c' hc hstep => hc.step hstep

theorem calculateQuorum_le {n : ℕ} (hn : n ≠ 0) (hmax : 2 * n ≤ u32Max) :
    calculateQuorum n ≤ n := by
  rw [calculateQuorum, calculateThreshold, satMul_of_le (by omega)]
  omega

/-- **The active set.** In every reachable state of a supported chain the active set is free of
duplicates and consists of the active and the leaving attestors, the counter counts the registered
attestors, the quorum of an active set that is not empty is at most its size, which is at most the
counter, which is at most the limit; so no payload is too long that lists active attestors without
repetition. -/
theorem activeAttestors_coherent (hreach : Reachable T s) (hsup : s.isChainSupported k = true) :
    (s.chain T k).roster.activeAttestors.Nodup ∧
      (∀ a, a ∈ (s.chain T k).roster.activeAttestors ↔
        ∃ attestor, (s.chain T k).roster.attestors.lookup a = some attestor ∧
          (attestor.status = .active ∨ attestor.status = .leaving)) ∧
      (s.chain T k).roster.attestorsCount = (s.chain T k).roster.attestors.keys.length ∧
      ((s.chain T k).roster.activeAttestors ≠ [] →
        calculateQuorum (s.chain T k).roster.activeAttestors.length ≤
          (s.chain T k).roster.activeAttestors.length) ∧
      (s.chain T k).roster.activeAttestors.length ≤ (s.chain T k).roster.attestorsCount ∧
      (s.chain T k).roster.attestorsCount ≤ (s.chain T k).settings.maxAttestors ∧
      ∀ att : SignedAttestation H A, att.attestors.Nodup →
        (∀ a ∈ att.attestors, a ∈ (s.chain T k).roster.activeAttestors) →
        att.attestors.length ≤ (s.chain T k).settings.maxAttestors ∧
          validateAttestation T att true (s.chain T k) ≠ .error .tooManyAttestors := by
  have h := coherent_of_live hreach (.inl hsup)
  have hlen := h.roster.length_le
  refine ⟨h.roster.nodup, fun a => ?_, h.roster.count, fun hne => ?_, hlen, h.count_le, ?_⟩
  · rw [h.roster.mem_iff, Roster.attestorStatus]
    rcases (s.chain T k).roster.attestors.lookup a with _ | attestor
    · simp
    · rw [Option.map_some, Option.any_some]
      cases hstatus : attestor.status <;> simp [Roster.seated, hstatus]
  · refine calculateQuorum_le (by simpa using hne) ?_
    have hnodes := T.nodes_lt
    have hmax := hlen.trans (h.count_le.trans h.max_le)
    unfold u32Max
    omega
  · intro att hnodup hsub
    have hfits : att.attestors.length ≤ (s.chain T k).settings.maxAttestors :=
      ((List.subperm_of_subset hnodup hsub).length_le.trans hlen).trans h.count_le
    exact ⟨hfits, validateAttestation_ne_tooManyAttestors hfits⟩

section Devnet

open Devnet

/-- With four active attestors, three are a quorum and no payload that lists all of them is too
long. -/
theorem devnet_quorum_le :
    calculateQuorum 4 ≤ 4 ∧ ∀ att : SignedAttestation Word ℕ, att.attestors = [4, 2, 3, 1] →
      validateAttestation config att true (committee.chain config 1) ≠
        .error .tooManyAttestors := by
  have hactive : ((committee.chain config 1).roster.activeAttestors ≠ [] ∧
      (committee.chain config 1).roster.activeAttestors.length = 4) ∧
      ∀ a ∈ [4, 2, 3, 1], a ∈ (committee.chain config 1).roster.activeAttestors := by
    decide +kernel
  obtain ⟨-, -, -, hquorum, -, -, hfits⟩ :=
    activeAttestors_coherent (k := 1) reachable_committee (by decide +kernel)
  have hle := hquorum hactive.1.1
  rw [hactive.1.2] at hle
  refine ⟨hle, fun att hatt => (hfits att ?_ ?_).2⟩
  · rw [hatt]
    decide
  · rw [hatt]
    exact hactive.2

/-- Before the first election nobody is active, and the quorum is out of reach. -/
theorem exists_quorum_gt : ∃ (s : State Word ℕ Unit) (k : ChainKey), Reachable config s ∧
      s.isChainSupported k = true ∧
      (s.chain config k).roster.activeAttestors.length <
        calculateQuorum (s.chain config k).roster.activeAttestors.length := by
  refine ⟨genesisState (genesisConfig 10 10 []), 1, ?_, by rfl, by decide +kernel⟩
  exact ⟨genesisConfig 10 10 [], _, [], genesis_eq_genesisState (by rfl), rfl⟩

end Devnet

end Live

end Creditcoin
