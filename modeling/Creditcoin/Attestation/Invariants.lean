import Creditcoin.Attestation.Transitions

/-!
# Invariants of live chains

Keys are never reused, so a removed chain stays so, and the invariants are about live chains: those
supported, and those that may still be registered. `step_chain` says what a step does to a chain
that is live after it; `run_invariant` and `live_invariant` are the inductions over runs. -/

namespace Creditcoin

open Relation (ReflTransGen)

variable {H A B : Type} [DecidableEq H] [DecidableEq A] {T : Config H A B}

/-! ## One step -/

section Inversion

variable {s s' : State H A B}

theorem keysBelow_step (hs : s.registry.KeysBelow) (act : Action T) :
    (step T s act).registry.KeysBelow := by
  rcases step_cases hs act with ⟨-, hgrows⟩ | ⟨-, -, -, k, a, -, -, -, heq⟩ |
    ⟨host, o, k, b, -, hremove⟩
  · exact hgrows.keysBelow hs
  · rw [heq]
    exact hs
  · rw [(removeChain_chain hremove k).1]
    intro j hj
    split at hj
    · simp at hj
    · exact hs j hj

/-- **Inversion of a step for a live chain.** A chain that is live after a step was live before it,
and the step took it along a path. -/
theorem step_chain (hs : s.registry.KeysBelow) {act : Action T} {k : ChainKey}
    (hlive : (step T s act).Live k) : s.Live k ∧ ChainPath T k s (step T s act) := by
  rcases step_cases hs act with ⟨hpath, hgrows⟩ | ⟨host, o, call, k', a, -, -, hcall, heq⟩ |
    ⟨host, o, k', b, -, hremove⟩
  · refine ⟨?_, (hpath k).chainPath⟩
    rcases hlive with hsup | hkey
    · rcases hgrows.supported k hsup with h | ⟨h, -⟩
      · exact .inl h
      · exact .inr h.le
    · exact .inr (hgrows.key_le.trans hkey)
  · rw [heq] at hlive ⊢
    exact ⟨hlive, hcall.chainPath k⟩
  · obtain ⟨-, hsup, hother, hsame⟩ := removeChain_chain hremove k
    rcases eq_or_ne k k' with rfl | hne
    · exact absurd (hs k hsup) (not_lt.2 (hsame hlive))
    · exact ⟨(hother hne).2 hlive, Path.of_chain_eq (hother hne).1⟩

theorem chainKeyValue_le_step (hs : s.registry.KeysBelow) (act : Action T) :
    s.registry.chainKeyValue ≤ (step T s act).registry.chainKeyValue := by
  rcases step_cases hs act with ⟨-, hgrows⟩ | ⟨-, -, -, k, a, -, -, -, heq⟩ |
    ⟨host, o, k, b, -, hremove⟩
  · exact hgrows.key_le
  · rw [heq]
    exact le_rfl
  · simp only [State.removeChain, bind_eq_ok, pure_eq_ok] at hremove
    obtain ⟨g, hg, heq⟩ := hremove
    rw [← heq]
    exact (Registry.removeChain_supported hg k).2.1.ge

theorem supported_step (hs : s.registry.KeysBelow) {act : Action T} {k : ChainKey}
    (hlive : (step T s act).Live k) (hsup : s.isChainSupported k = true) :
    (step T s act).isChainSupported k = true := by
  rcases hlive with hsup' | hkey
  · exact hsup'
  · exact absurd (lt_of_lt_of_le (hs k hsup) (chainKeyValue_le_step hs act)) (not_lt.2 hkey)

end Inversion

/-! ## Induction over runs -/

section Invariants

variable {s : State H A B} {k : ChainKey} {P : Chain H A → Prop}

theorem run_cons (s : State H A B) (act : Action T) (acts : List (Action T)) :
    run T s (act :: acts) = run T (step T s act) acts := rfl

theorem run_singleton (s : State H A B) (act : Action T) : run T s [act] = step T s act := rfl

theorem run_append (s : State H A B) (acts acts' : List (Action T)) :
    run T s (acts ++ acts') = run T (run T s acts) acts' := List.foldl_append ..

theorem keysBelow_run (hs : s.registry.KeysBelow) (acts : List (Action T)) :
    (run T s acts).registry.KeysBelow := by
  induction acts generalizing s with
  | nil => exact hs
  | cons act acts ih => exact ih (keysBelow_step hs act)

theorem ChainPath.preserves {s' : State H A B}
    (hstep : ∀ c c', P c → ChainStep T (s.isChainSupported k) k c c' → P c')
    (hpath : ChainPath T k s s') (h : P (s.chain T k)) : P (s'.chain T k) := by
  have hgen : ∀ c c', ReflTransGen (ChainStep T (s.isChainSupported k) k) c c' → P c → P c' := by
    intro c c' hcc' hc
    induction hcc' with
    | refl => exact hc
    | tail _ hlast ih => exact hstep _ _ ih hlast
  exact hgen _ _ hpath h

/-- **Induction over runs.** What every elementary step preserves and the registration of a chain
does not break holds of a chain as long as it is live, once it holds at the start. -/
theorem run_supported_invariant {P : Bool → Chain H A → Prop} (hs : s.registry.KeysBelow)
    (hregister : ∀ c, P false c → P true c)
    (hstep : ∀ supported c c', P supported c → ChainStep T supported k c c' → P supported c')
    (h : s.Live k → P (s.isChainSupported k) (s.chain T k)) (acts : List (Action T))
    (hlive : (run T s acts).Live k) :
    P ((run T s acts).isChainSupported k) ((run T s acts).chain T k) := by
  induction acts generalizing s with
  | nil => exact h hlive
  | cons act acts ih =>
    refine ih (keysBelow_step hs act) (fun hl => ?_) hlive
    obtain ⟨hl', hpath⟩ := step_chain hs hl
    have hafter : P (s.isChainSupported k) ((step T s act).chain T k) :=
      hpath.preserves (fun c c' => hstep _ c c') (h hl')
    rcases hsup : s.isChainSupported k with _ | _
    · rw [hsup] at hafter
      rcases (step T s act).isChainSupported k with _ | _
      · exact hafter
      · exact hregister _ hafter
    · rw [hsup] at hafter
      rwa [supported_step hs hl hsup]

theorem run_invariant (hs : s.registry.KeysBelow)
    (hstep : ∀ supported c c', P c → ChainStep T supported k c c' → P c')
    (h : s.Live k → P (s.chain T k)) (acts : List (Action T)) (hlive : (run T s acts).Live k) :
    P ((run T s acts).chain T k) :=
  run_supported_invariant (P := fun _ => P) hs (fun _ hc => hc) hstep h acts hlive

theorem live_of_run (hs : s.registry.KeysBelow) (acts : List (Action T))
    (hlive : (run T s acts).Live k) : s.Live k := by
  induction acts generalizing s with
  | nil => exact hlive
  | cons act acts ih => exact (step_chain hs (ih (keysBelow_step hs act) hlive)).1

/-! ## Genesis -/

theorem keysBelow_buildChains (chains : List (ℕ × List UInt8 × ChainEncodingVersion × String))
    {g g' : Registry} (hg : g.KeysBelow) (h : Registry.buildChains chains g = some g') :
    g'.KeysBelow := by
  induction chains generalizing g with
  | nil => exact Option.some.inj h ▸ hg
  | cons chain chains ih =>
    obtain ⟨chainId, name, encoding, strategy⟩ := chain
    simp only [Registry.buildChains] at h
    split at h
    · simp at h
    · refine ih ?_ h
      intro k hk
      rw [StorageMap.lookup_insert_eq] at hk
      split at hk
      · next heq => exact heq ▸ Nat.lt_succ_self _
      · exact Nat.lt_succ_of_lt (hg k hk)

omit [DecidableEq H] in
theorem buildConfigurations_frame {invulnerables : List A}
    (cfgs : List (AttestationChainConfiguration H)) {s₀ : State H A B}
    (h : buildConfigurations T invulnerables cfgs s₀ = some s) :
      s = { s₀ with chains := s.chains } := by
  induction cfgs generalizing s₀ with
  | nil => rw [← Option.some.inj h]
  | cons cfg cfgs ih =>
    simp only [buildConfigurations, Option.bind_eq_bind, Option.bind_eq_some_iff] at h
    obtain ⟨c, -, h⟩ := h
    have hrest := ih h
    exact hrest

variable {gc : GenesisConfig H A B}

section

omit [DecidableEq H]

theorem keysBelow_genesis (h : genesis T gc = some s) : s.registry.KeysBelow := by
  simp only [genesis, Option.bind_eq_bind, Option.bind_eq_some_iff] at h
  obtain ⟨g, hg, hs⟩ := h
  have hgk : g.KeysBelow := by
    unfold Registry.build at hg
    split at hg
    · exact keysBelow_buildChains _ (fun k hk => by simp [Registry.empty] at hk) hg
    · simp at hg
  rw [buildConfigurations_frame _ hs]
  exact hgk

theorem genesis_frame (h : genesis T gc = some s) :
    s.bonds = ⟨∅, gc.balances, []⟩ ∧ s.currentEra = 0 ∧ s.retiredAttestorKeysByStash = ∅ := by
  simp only [genesis, Option.bind_eq_bind, Option.bind_eq_some_iff] at h
  obtain ⟨g, -, hs⟩ := h
  rw [buildConfigurations_frame _ hs]
  exact ⟨rfl, rfl, rfl⟩

theorem genesis_invariant (h : genesis T gc = some s) (hinit : P (.initial T))
    (hbuild : ∀ cfg c c', cfg ∈ gc.attestationChainConfigurations → cfg.chainKey = k → P c →
      buildChain T gc.invulnerables cfg c = some c' → P c') : P (s.chain T k) := by
  simp only [genesis, Option.bind_eq_bind, Option.bind_eq_some_iff] at h
  obtain ⟨g, -, hs⟩ := h
  have hfold : ∀ (cfgs : List (AttestationChainConfiguration H)) (s₀ : State H A B),
      (∀ cfg ∈ cfgs, cfg ∈ gc.attestationChainConfigurations) → P (s₀.chain T k) →
      buildConfigurations T gc.invulnerables cfgs s₀ = some s → P (s.chain T k) := by
    intro cfgs
    induction cfgs with
    | nil =>
      intro s₀ _ h₀ h
      rwa [← Option.some.inj h]
    | cons cfg cfgs ih =>
      intro s₀ hmem h₀ h
      simp only [buildConfigurations, Option.bind_eq_bind, Option.bind_eq_some_iff] at h
      obtain ⟨c, hc, h⟩ := h
      refine ih _ (fun cfg' h' => hmem cfg' (List.mem_cons_of_mem _ h')) ?_ h
      rw [State.chain_setChain]
      split
      · next hk =>
        subst hk
        exact hbuild cfg _ c (hmem cfg List.mem_cons_self) rfl h₀ hc
      · exact h₀
  exact hfold _ (emptyState g gc.balances) (fun _ h => h) hinit hs

end

/-- The anchors of a chain before the first action: checkpoints may be there, but nothing that
actions write. -/
structure Anchors.Untouched (a : Anchors H A) : Prop where
  attestations_eq : a.attestations = ∅
  lastDigest_eq : a.lastDigest = none
  queue_eq : a.checkpointingQueue = []
  removal_eq : a.attestationRemovalQueue = []
  pruning_eq : a.checkpointPruningState = none
  attestationCursor_eq : a.attestationClearingCursor = none
  checkpointCursor_eq : a.checkpointClearingCursor = none
  bucketCursor_eq : a.bucketClearingCursor = none
  events_eq : a.events = []

omit [DecidableEq H] [DecidableEq A] in
theorem Anchors.untouched_empty : (Anchors.empty : Anchors H A).Untouched :=
  ⟨rfl, rfl, rfl, rfl, rfl, rfl, rfl, rfl, rfl⟩

omit [DecidableEq H] [DecidableEq A] in
theorem Anchors.Untouched.buildAnchors {a : Anchors H A} (h : a.Untouched)
    (checkpoints : List (AttestationCheckpoint H)) : (buildAnchors checkpoints a).Untouched := by
  have hfold : ∀ (cps : List (AttestationCheckpoint H)) (a : Anchors H A), a.Untouched →
      (cps.foldl Anchors.storeCheckpoint a).Untouched := by
    intro cps
    induction cps with
    | nil => exact fun a h => h
    | cons c cps ih => exact fun a h => ih _ { h with }
  have hstored := hfold checkpoints a h
  exact { hstored with }

omit [DecidableEq H] in
theorem genesis_untouched (h : genesis T gc = some s) : (s.chain T k).anchors.Untouched := by
  refine genesis_invariant (P := fun c => c.anchors.Untouched) h Anchors.untouched_empty ?_
  intro cfg c c' _ _ hc hbuild
  unfold buildChain at hbuild
  split at hbuild
  · obtain rfl := Option.some.inj hbuild
    exact hc.buildAnchors _
  · simp at hbuild

omit [DecidableEq H] in
theorem genesis_roster (h : genesis T gc = some s) :
    (s.chain T k).roster =
      { Roster.empty with invulnerables := (s.chain T k).roster.invulnerables } := by
  refine genesis_invariant (P := fun c => c.roster =
    { Roster.empty with invulnerables := c.roster.invulnerables }) h rfl ?_
  intro cfg c c' _ _ hc hbuild
  unfold buildChain at hbuild
  split at hbuild
  · obtain rfl := Option.some.inj hbuild
    dsimp only
    rw [hc]
  · simp at hbuild

theorem Reachable.run (h : Reachable T s) (acts : List (Action T)) :
    Reachable T (run T s acts) := by
  obtain ⟨gc, s₀, acts₀, hgen, rfl⟩ := h
  exact ⟨gc, s₀, acts₀ ++ acts, hgen, run_append s₀ acts₀ acts⟩

theorem Reachable.step (h : Reachable T s) (act : Action T) : Reachable T (step T s act) :=
  h.run [act]

theorem Reachable.keysBelow (h : Reachable T s) : s.registry.KeysBelow := by
  obtain ⟨gc, s₀, acts, hgen, rfl⟩ := h
  exact keysBelow_run (keysBelow_genesis hgen) acts

theorem reachable_run (h : genesis T gc = some s) (acts : List (Action T)) :
    Reachable T (run T s acts) := ⟨gc, s, acts, h, rfl⟩

/-- **Invariants of live chains.** What holds of the chains at genesis and is preserved by every
elementary step holds of every live chain of a reachable state. -/
theorem live_invariant (hreach : Reachable T s) (hlive : s.Live k)
    (hgenesis : ∀ gc s₀, genesis T gc = some s₀ → P (s₀.chain T k))
    (hstep : ∀ supported c c', P c → ChainStep T supported k c c' → P c') : P (s.chain T k) := by
  obtain ⟨gc, s₀, acts, hgen, rfl⟩ := hreach
  exact run_invariant (keysBelow_genesis hgen) hstep (fun _ => hgenesis gc s₀ hgen) acts hlive

theorem supported_invariant {P : Bool → Chain H A → Prop} (hreach : Reachable T s)
    (hlive : s.Live k) (hgenesis : ∀ gc s₀, genesis T gc = some s₀ → ∀ b, P b (s₀.chain T k))
    (hregister : ∀ c, P false c → P true c)
    (hstep : ∀ supported c c', P supported c → ChainStep T supported k c c' → P supported c') :
    P (s.isChainSupported k) (s.chain T k) := by
  obtain ⟨gc, s₀, acts, hgen, rfl⟩ := hreach
  exact run_supported_invariant (keysBelow_genesis hgen) hregister hstep
    (fun _ => hgenesis gc s₀ hgen _) acts hlive

end Invariants

/-! ## Conditions on the actions of a run -/

section AlongRun

variable {s : State H A B}

/-- Every action of the run meets the condition in the state in which it is performed. -/
def AlongRun (P : State H A B → Action T → Prop) : State H A B → List (Action T) → Prop
  | _, [] => True
  | s, act :: acts => P s act ∧ AlongRun P (step T s act) acts

instance AlongRun.decidable (P : State H A B → Action T → Prop) [∀ s act, Decidable (P s act)] :
    ∀ s acts, Decidable (AlongRun P s acts)
  | _, [] => inferInstanceAs (Decidable True)
  | s, act :: acts =>
    have := AlongRun.decidable P (step T s act) acts
    inferInstanceAs (Decidable (P s act ∧ AlongRun P (step T s act) acts))

variable {acts : List (Action T)}

theorem alongRun_append {P : State H A B → Action T → Prop} {acts' : List (Action T)} :
    AlongRun P s (acts ++ acts') ↔ AlongRun P s acts ∧ AlongRun P (run T s acts) acts' := by
  induction acts generalizing s with
  | nil => simp [AlongRun, run]
  | cons act acts ih => simp only [List.cons_append, AlongRun, ih, run_cons, and_assoc]

theorem AlongRun.and {P Q : State H A B → Action T → Prop} (hP : AlongRun P s acts)
    (hQ : AlongRun Q s acts) : AlongRun (fun s act => P s act ∧ Q s act) s acts := by
  induction acts generalizing s with
  | nil => trivial
  | cons act acts ih => exact ⟨⟨hP.1, hQ.1⟩, ih hP.2 hQ.2⟩

theorem AlongRun.preserves {C : State H A B → Action T → Prop} {P : State H A B → Prop}
    (hstep : ∀ s act, P s → C s act → P (step T s act)) (h : P s) (hC : AlongRun C s acts) :
    P (run T s acts) := by
  induction acts generalizing s with
  | nil => exact h
  | cons act acts ih => exact ih (hstep s act h hC.1) hC.2

end AlongRun

end Creditcoin
