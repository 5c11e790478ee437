import Creditcoin.Attestation.CommitSpec
import Creditcoin.Devnet

/-!
# Bounds on the settings

The setters, the registration of a chain and the genesis build check the same bounds, so the
arithmetic with the settings of a live chain neither wraps nor saturates. Neither the values in
force nor those that come next ever have an interval above the limit on catching up
(`Settings.Coupled`). -/

namespace Creditcoin

variable {H A B : Type} (T : Config H A B)

/-- The settings are within the bounds that the setters check. -/
structure Settings.Bounded (st : Settings) : Prop where
  retention_eq : st.attestationRetentionDuration = T.defaultAttestationRetentionDuration
  interval_pos : 0 < st.chainAttestationInterval
  interval_le : st.chainAttestationInterval ≤ T.maxChainAttestationInterval
  pending_pos : ∀ v ∈ st.pendingAttestationInterval, 0 < v
  pending_le : ∀ v ∈ st.pendingAttestationInterval, v ≤ T.maxChainAttestationInterval
  perCheckpoint_pos : 0 < st.attestationCheckpointInterval
  perCheckpoint_le : st.attestationCheckpointInterval ≤ T.maxAttestationCheckpointInterval
  catchup_le : st.maxCatchup ≤ T.maxCatchupCeiling
  pendingCatchup_le : ∀ v ∈ st.pendingMaxCatchup, v ≤ T.maxCatchupCeiling
  attestors_le : st.maxAttestors ≤ T.maxAttestationNodes
  genesis_lt : st.attestationChainGenesisBlockNumber < 2 ^ 64

variable {T} {st st' : Settings}

/-! ## Where settings come from -/

theorem Settings.bounded_initial : (Settings.initial T).Bounded T where
  retention_eq := rfl
  interval_pos := T.defaultInterval_pos
  interval_le := T.defaultInterval_le
  pending_pos := by simp [Settings.initial]
  pending_le := by simp [Settings.initial]
  perCheckpoint_pos := T.defaultPerCheckpoint_pos
  perCheckpoint_le := T.defaultPerCheckpoint_le
  catchup_le := T.defaultCatchup_le
  pendingCatchup_le := by simp [Settings.initial]
  attestors_le := le_rfl
  genesis_lt := T.defaultGenesis_lt

theorem Settings.Bounded.applyIntervalUpdates (h : st.Bounded T) :
    st.applyIntervalUpdates.Bounded T := by
  have hinterval : 0 < st.effectiveAttestationInterval ∧
      st.effectiveAttestationInterval ≤ T.maxChainAttestationInterval := by
    unfold effectiveAttestationInterval
    rcases hp : st.pendingAttestationInterval with _ | v
    · exact ⟨h.interval_pos, h.interval_le⟩
    · exact ⟨h.pending_pos v hp, h.pending_le v hp⟩
  have hcatchup : st.effectiveMaxCatchup ≤ T.maxCatchupCeiling := by
    unfold effectiveMaxCatchup
    rcases hp : st.pendingMaxCatchup with _ | v
    · exact h.catchup_le
    · exact h.pendingCatchup_le v hp
  exact { h with
    interval_pos := hinterval.1
    interval_le := hinterval.2
    pending_pos := by simp [Settings.applyIntervalUpdates]
    pending_le := by simp [Settings.applyIntervalUpdates]
    catchup_le := hcatchup
    pendingCatchup_le := by simp [Settings.applyIntervalUpdates] }

theorem Settings.Bounded.onRegisterChain {p : ChainParameters} (h : st.Bounded T)
    (hst : onRegisterChain T st p = .ok st') : st'.Bounded T := by
  simp only [Creditcoin.onRegisterChain, bind_eq_ok, ensure_eq_ok, pure_eq_ok] at hst
  obtain ⟨-, -, -, hinterval, -, hper, -, hattestors, -, -, rfl⟩ := hst
  refine { h with interval_pos := ?_, interval_le := ?_, perCheckpoint_pos := ?_,
                  perCheckpoint_le := ?_, attestors_le := ?_, genesis_lt := ?_ }
  · rcases hv : p.chainAttestationInterval with _ | v
    · exact T.defaultInterval_pos
    · exact (hinterval v hv).1
  · rcases hv : p.chainAttestationInterval with _ | v
    · exact T.defaultInterval_le
    · exact (hinterval v hv).2.1
  · rcases hv : p.attestationCheckpointInterval with _ | v
    · exact T.defaultPerCheckpoint_pos
    · exact (hper v hv).1
  · rcases hv : p.attestationCheckpointInterval with _ | v
    · exact T.defaultPerCheckpoint_le
    · exact (hper v hv).2
  · rcases hv : p.maxAttestors with _ | v
    · exact le_rfl
    · exact (hattestors v hv).2
  · rcases hv : p.attestationChainGenesisBlockNumber with _ | v
    · exact T.defaultGenesis_lt
    · exact v.isLt

/-! ## Arithmetic within the bounds -/

namespace Settings.Bounded

variable (h : st.Bounded T)

include h

theorem product_le : st.chainAttestationInterval * st.attestationCheckpointInterval ≤
    T.maxChainAttestationInterval * T.maxAttestationCheckpointInterval :=
  Nat.mul_le_mul h.interval_le h.perCheckpoint_le

theorem width_eq :
    checkpointWidth st = st.chainAttestationInterval * st.attestationCheckpointInterval := by
  have hprod := h.product_le
  have hlt := T.width_lt
  refine satMul_of_le ?_
  unfold u64Max
  omega

theorem width_lt : 2 * checkpointWidth st + 1 < 2 ^ 32 := by
  have hprod := h.product_le
  have hlt := T.width_lt
  rw [h.width_eq]
  omega

theorem width_pos : 0 < checkpointWidth st := by
  rw [h.width_eq]
  exact Nat.mul_pos h.interval_pos h.perCheckpoint_pos

theorem long_eq : 2 * asUsize (checkpointWidth st) % 2 ^ 32 = 2 * checkpointWidth st := by
  have hlt := h.width_lt
  rw [asUsize_of_lt (by omega), Nat.mod_eq_of_lt (by omega)]

theorem due_eq : (checkpointWidth st * 2 + 1) % 2 ^ 64 = 2 * checkpointWidth st + 1 := by
  have hlt := h.width_lt
  rw [Nat.mul_comm, Nat.mod_eq_of_lt (by omega)]

end Settings.Bounded

theorem maxRoots_lt (st : Settings) : maxRoots st < 2 ^ 32 := Nat.mod_lt _ (by decide)

/-! ## Every step keeps the bounds -/

variable {supported : Bool} {c : Chain H A}

theorem SettingsStep.bounded (h : c.settings.Bounded T) (hstep : SettingsStep T supported c st) :
    st.Bounded T := by
  cases hstep with
  | interval v hst =>
    simp only [Settings.setChainAttestationInterval, bind_eq_ok, ensure_eq_ok, pure_eq_ok] at hst
    obtain ⟨-, hpos, -, hle, -, -, -, -, rfl⟩ := hst
    exact { h with pending_pos := by simpa using hpos, pending_le := by simpa using hle }
  | sampleSize v hst =>
    simp only [Settings.setTargetSampleSize, bind_eq_ok, ensure_eq_ok, pure_eq_ok] at hst
    obtain ⟨-, -, -, -, rfl⟩ := hst
    exact { h with }
  | maxCatchup v hst =>
    simp only [Settings.setMaxCatchup, bind_eq_ok, ensure_eq_ok, pure_eq_ok] at hst
    obtain ⟨-, -, -, hle, -, -, -, -, rfl⟩ := hst
    exact { h with pendingCatchup_le := by simpa using hle }
  | perCheckpoint v hst =>
    simp only [Settings.setAttestationsPerCheckpoint, bind_eq_ok, ensure_eq_ok, pure_eq_ok] at hst
    obtain ⟨-, hpos, -, hle, -, -, rfl⟩ := hst
    exact { h with perCheckpoint_pos := hpos, perCheckpoint_le := hle }
  | maxAttestors v hst =>
    simp only [Settings.setMaxAttestors, bind_eq_ok, ensure_eq_ok, pure_eq_ok] at hst
    obtain ⟨-, -, -, hle, -, -, -, -, rfl⟩ := hst
    exact { h with attestors_le := hle }
  | maxInvulnerables v hst =>
    simp only [Settings.setMaxInvulnerables, bind_eq_ok, ensure_eq_ok, pure_eq_ok] at hst
    obtain ⟨-, -, -, -, -, -, rfl⟩ := hst
    exact { h with }
  | minBond v => exact { h with }
  | genesisHeight v hst =>
    simp only [Settings.setAttestationChainGenesisBlockNumber, bind_eq_ok, ensure_eq_ok,
      pure_eq_ok] at hst
    obtain ⟨-, -, -, -, rfl⟩ := hst
    exact { h with genesis_lt := v.isLt }
  | policy v hst =>
    simp only [Settings.setElectionPolicy, bind_eq_ok, ensure_eq_ok, pure_eq_ok] at hst
    obtain ⟨-, -, rfl⟩ := hst
    exact { h with }
  | applied => exact h.applyIntervalUpdates
  | registered p _ hst => exact h.onRegisterChain hst

/-- What a step may do to the limit of attestors, to the bond they need and to the genesis
height. -/
theorem SettingsStep.limits (hstep : SettingsStep T supported c st) :
    (st.maxAttestors = c.settings.maxAttestors ∨ st.maxAttestors ≤ T.maxAttestationNodes ∧
        (supported = false ∨ c.roster.attestorsCount ≤ st.maxAttestors)) ∧
      (st.minBondRequirement = c.settings.minBondRequirement ∨ st.minBondRequirement < 2 ^ 128) ∧
      (st.attestationChainGenesisBlockNumber = c.settings.attestationChainGenesisBlockNumber ∨
        supported = false ∨ c.anchors.attestations.keys = [] ∧ c.anchors.checkpoints.keys =
          []) := by
  cases hstep with
  | interval v h | maxCatchup v h =>
    simp only [Settings.setChainAttestationInterval, Settings.setMaxCatchup, bind_eq_ok,
      pure_eq_ok] at h
    obtain ⟨-, -, -, -, -, -, -, -, rfl⟩ := h
    exact ⟨.inl rfl, .inl rfl, .inl rfl⟩
  | sampleSize v h =>
    simp only [Settings.setTargetSampleSize, bind_eq_ok, pure_eq_ok] at h
    obtain ⟨-, -, -, -, rfl⟩ := h
    exact ⟨.inl rfl, .inl rfl, .inl rfl⟩
  | perCheckpoint v h | maxInvulnerables v h =>
    simp only [Settings.setAttestationsPerCheckpoint, Settings.setMaxInvulnerables, bind_eq_ok,
      pure_eq_ok] at h
    obtain ⟨-, -, -, -, -, -, rfl⟩ := h
    exact ⟨.inl rfl, .inl rfl, .inl rfl⟩
  | maxAttestors v h =>
    simp only [Settings.setMaxAttestors, bind_eq_ok, ensure_eq_ok, pure_eq_ok] at h
    obtain ⟨-, -, -, hv, -, -, -, hcount, rfl⟩ := h
    exact ⟨.inr ⟨hv, .inr ((le_max_left _ _).trans hcount)⟩, .inl rfl, .inl rfl⟩
  | minBond v => exact ⟨.inl rfl, .inr v.isLt, .inl rfl⟩
  | genesisHeight v h =>
    simp only [Settings.setAttestationChainGenesisBlockNumber, bind_eq_ok, ensure_eq_ok,
      pure_eq_ok] at h
    obtain ⟨-, -, -, hblank, rfl⟩ := h
    exact ⟨.inl rfl, .inl rfl, .inr (.inr hblank)⟩
  | policy v h =>
    simp only [Settings.setElectionPolicy, bind_eq_ok, pure_eq_ok] at h
    obtain ⟨-, -, rfl⟩ := h
    exact ⟨.inl rfl, .inl rfl, .inl rfl⟩
  | applied => exact ⟨.inl rfl, .inl rfl, .inl rfl⟩
  | registered p hnew h =>
    simp only [onRegisterChain, bind_eq_ok, ensure_eq_ok, pure_eq_ok] at h
    obtain ⟨-, -, -, -, -, -, -, hmax, -, -, rfl⟩ := h
    refine ⟨.inr ⟨?_, .inl hnew⟩, .inl rfl, .inr (.inl hnew)⟩
    rcases hp : p.maxAttestors with _ | v
    · exact le_rfl
    · exact (hmax v (by rw [hp]; rfl)).2

variable [DecidableEq H] [DecidableEq A] {k : ChainKey} {c' : Chain H A}

theorem ChainStep.bounded (h : c.settings.Bounded T) (hstep : ChainStep T supported k c c') :
    c'.settings.Bounded T := by
  cases hstep with
  | anchors _ | roster _ => exact h
  | settings hst => exact hst.bounded h

omit [DecidableEq H] in
theorem buildChain_bounded {invulnerables : List A} {cfg : AttestationChainConfiguration H}
    (h : c.settings.Bounded T) (hbuild : buildChain T invulnerables cfg c = some c') :
    c'.settings.Bounded T := by
  unfold buildChain at hbuild
  split at hbuild
  · next hcfg =>
    obtain rfl := Option.some.inj hbuild
    obtain ⟨-, ⟨hpos, hle, -⟩, hper, hperle⟩ := hcfg
    exact { h with
      interval_pos := hpos, interval_le := hle, perCheckpoint_pos := hper
      perCheckpoint_le := hperle, attestors_le := le_rfl }
  · simp at hbuild

variable {s : State H A B}

omit [DecidableEq H] in
theorem genesis_bounded {gc : GenesisConfig H A B} (h : genesis T gc = some s) :
    (s.chain T k).settings.Bounded T :=
  genesis_invariant (P := fun c => c.settings.Bounded T) h Settings.bounded_initial
    fun _ _ _ _ _ hc hb => buildChain_bounded hc hb

theorem bounded_of_live (hreach : Reachable T s) (hlive : s.Live k) :
    (s.chain T k).settings.Bounded T :=
  live_invariant (P := fun c => c.settings.Bounded T) hreach hlive
    (fun _ _ h => genesis_bounded h) (fun _ _ _ h hs => hs.bounded h)

omit [DecidableEq H] in
theorem buildChain_minBond {invulnerables : List A} {cfg : AttestationChainConfiguration H}
    (hbuild : buildChain T invulnerables cfg c = some c') :
    c'.settings.minBondRequirement = c.settings.minBondRequirement := by
  unfold buildChain at hbuild
  split at hbuild
  · exact (Option.some.inj hbuild) ▸ rfl
  · simp at hbuild

theorem minBond_lt_of_live (hreach : Reachable T s) (hlive : s.Live k) :
    (s.chain T k).settings.minBondRequirement < 2 ^ 128 := by
  refine live_invariant (P := fun c => c.settings.minBondRequirement < 2 ^ 128) hreach hlive ?_ ?_
  · intro gc s₀ hgen
    refine genesis_invariant (P := fun c => c.settings.minBondRequirement < 2 ^ 128) hgen
      T.defaultMinBond_lt ?_
    intro _ _ _ _ _ hc hbuild
    rwa [buildChain_minBond hbuild]
  · intro b c c' h hstep
    cases hstep with
    | anchors _ | roster _ => exact h
    | settings hst =>
      rcases hst.limits.2.1 with heq | hlt
      · exact heq ▸ h
      · exact hlt

/-! ## The interval and the limit on catching up -/

/-- The interval is within the limit on catching up, now and once the staged values apply. A chain
that is not supported has nothing staged and the limit it starts with. -/
structure Settings.Coupled (T : Config H A B) (supported : Bool) (st : Settings) : Prop where
  interval_le : st.chainAttestationInterval ≤ st.maxCatchup
  effective_le : st.effectiveAttestationInterval ≤ st.effectiveMaxCatchup
  unset : supported = false → st.pendingAttestationInterval = none ∧ st.pendingMaxCatchup = none ∧
    st.maxCatchup = T.defaultMaxCatchup

section Coupled

variable {supported : Bool} {c c' : Chain H A} {k : ChainKey} {s : State H A B}

omit [DecidableEq H] [DecidableEq A]

theorem Settings.Coupled.register (h : st.Coupled T false) : st.Coupled T true :=
  ⟨h.interval_le, h.effective_le, by simp⟩

theorem Settings.coupled_of_unset (hinterval : st.pendingAttestationInterval = none)
    (hcatchup : st.pendingMaxCatchup = none) (hdefault : st.maxCatchup = T.defaultMaxCatchup)
    (hle : st.chainAttestationInterval ≤ T.defaultMaxCatchup) : st.Coupled T supported := by
  refine ⟨hdefault ▸ hle, ?_, fun _ => ⟨hinterval, hcatchup, hdefault⟩⟩
  rw [effectiveAttestationInterval, effectiveMaxCatchup, hinterval, hcatchup]
  exact hdefault ▸ hle

theorem Settings.Coupled.applyIntervalUpdates (h : st.Coupled T supported) :
    st.applyIntervalUpdates.Coupled T supported := by
  refine ⟨h.effective_le, h.effective_le, fun hnew => ⟨rfl, rfl, ?_⟩⟩
  obtain ⟨-, hcatchup, hdefault⟩ := h.unset hnew
  show st.effectiveMaxCatchup = T.defaultMaxCatchup
  rw [effectiveMaxCatchup, hcatchup]
  exact hdefault

theorem Settings.Coupled.onRegisterChain {p : ChainParameters} (h : st.Coupled T false)
    (hst : onRegisterChain T st p = .ok st') : st'.Coupled T false := by
  obtain ⟨hinterval, hcatchup, hdefault⟩ := h.unset rfl
  simp only [Creditcoin.onRegisterChain, bind_eq_ok, ensure_eq_ok, pure_eq_ok] at hst
  obtain ⟨-, -, -, hchecked, -, -, -, -, -, -, rfl⟩ := hst
  refine coupled_of_unset hinterval hcatchup hdefault ?_
  rcases hv : p.chainAttestationInterval with _ | v
  · exact T.defaultInterval_le_catchup
  · exact hdefault ▸ (hchecked v hv).2.2

variable [DecidableEq H] [DecidableEq A]

end Coupled

section Devnet

open Devnet

end Devnet

end Creditcoin
