import Creditcoin.Devnet

/-!
# The index of the registry

The registry keeps the stored chains, an index from identifier and name to the key, a counter and
the next key. Registrations, removals and renames write them one by one; they stay consistent. -/

namespace Creditcoin

variable {H A B : Type} {g g' : Registry} {max : ℕ} {k : ChainKey}

/-- The index and the counter describe the stored chains. -/
structure Registry.Consistent (max : ℕ) (g : Registry) : Prop where
  index_iff : ∀ id name k, g.chainIdAndNameToUniqKey.lookup (id, name) = some k ↔
    ∃ c, g.supportedChains.lookup k = some c ∧ c.chainId = id ∧ c.chainName = name
  count_eq : g.supportedChainsCount = g.supportedChains.keys.length
  count_le : g.supportedChainsCount ≤ max
  keysBelow : g.KeysBelow

/-- A key that was given out holds, if anything, the chain it held before. -/
def Registry.KeepsKeys (g g' : Registry) : Prop :=
  g.chainKeyValue ≤ g'.chainKeyValue ∧ ∀ k c', k < g.chainKeyValue →
    g'.supportedChains.lookup k = some c' → ∃ c, g.supportedChains.lookup k = some c ∧
      c'.chainId = c.chainId ∧ c'.chainEncoding = c.chainEncoding

theorem Registry.KeepsKeys.refl (g : Registry) : g.KeepsKeys g :=
  ⟨le_rfl, fun _ c _ hc => ⟨c, hc, rfl, rfl⟩⟩

theorem Registry.KeepsKeys.trans {g'' : Registry} (h : g.KeepsKeys g') (h' : g'.KeepsKeys g'') :
    g.KeepsKeys g'' := by
  refine ⟨h.1.trans h'.1, fun k c'' hk hc'' => ?_⟩
  obtain ⟨c', hc', hid', henc'⟩ := h'.2 k c'' (hk.trans_le h.1) hc''
  obtain ⟨c, hc, hid, henc⟩ := h.2 k c' hk hc'
  exact ⟨c, hc, hid'.trans hid, henc'.trans henc⟩

namespace Registry.Consistent

theorem lookup_next (h : g.Consistent max) : g.supportedChains.lookup g.chainKeyValue = none := by
  rw [← Option.not_isSome_iff_eq_none]
  exact fun hsome => lt_irrefl _ (h.keysBelow _ hsome)

/-- A new chain under the next key. -/
theorem add (h : g.Consistent max) (c : SupportedChain)
    (hnew : g.chainIdAndNameToUniqKey.lookup (c.chainId, c.chainName) = none)
    (hcount : g.supportedChainsCount < max) :
    Consistent max ⟨g.supportedChains.insert g.chainKeyValue c, g.supportedChainsCount + 1,
      g.chainIdAndNameToUniqKey.insert (c.chainId, c.chainName) g.chainKeyValue,
      g.chainKeyValue + 1⟩ := by
  have hnext := h.lookup_next
  have hindex := h.index_iff
  refine ⟨fun id name k => ?_, ?_, hcount, fun k hk => ?_⟩
  · simp only [StorageMap.lookup_insert_eq]
    grind
  · rw [StorageMap.length_keys_insert hnext, h.count_eq]
  · rw [StorageMap.lookup_insert_eq] at hk
    split at hk
    · next heq => exact heq ▸ Nat.lt_succ_self _
    · exact Nat.lt_succ_of_lt (h.keysBelow k hk)

/-- Other data under the same key, with the index moved along. -/
theorem replace (h : g.Consistent max) {c c' : SupportedChain}
    (hc : g.supportedChains.lookup k = some c) {index : StorageMap (ℕ × List UInt8) ChainKey}
    (hindex : ∀ id name, index.lookup (id, name) =
      if (id, name) = (c'.chainId, c'.chainName) then some k
      else if (id, name) = (c.chainId, c.chainName) then none
      else g.chainIdAndNameToUniqKey.lookup (id, name))
    (hpair : ∀ k', g.chainIdAndNameToUniqKey.lookup (c'.chainId, c'.chainName) = some k' → k' = k)
    (hg' : g' = { g with
      supportedChains := g.supportedChains.insert k c', chainIdAndNameToUniqKey := index })
    (hid : c'.chainId = c.chainId) (hencoding : c'.chainEncoding = c.chainEncoding) :
    g'.Consistent max ∧ g.KeepsKeys g' := by
  subst hg'
  have hold := h.index_iff
  have hsame : ∀ k', ((g.supportedChains.insert k c').lookup k').isSome =
      (g.supportedChains.lookup k').isSome := fun k' => by
    rw [StorageMap.lookup_insert_eq]
    split
    · next heq => rw [heq, hc]; rfl
    · rfl
  refine ⟨⟨fun id name k' => ?_, ?_, h.count_le, fun k' hk' => h.keysBelow k' (hsame k' ▸ hk')⟩,
    le_rfl, fun k' d _ hd => ?_⟩
  · simp only [hindex, StorageMap.lookup_insert_eq]
    grind
  · rw [StorageMap.length_keys_congr hsame, h.count_eq]
  · rw [StorageMap.lookup_insert_eq] at hd
    by_cases hk : k' = k
    · obtain rfl := Option.mem_unique (if_pos hk) hd
      exact ⟨c, hk ▸ hc, hid, hencoding⟩
    · exact ⟨d, (if_neg hk).symm.trans hd, rfl, rfl⟩

theorem registerChain {T : Config H A B} (hT : T.maxSupportedChains ≤ u32Max)
    (h : g.Consistent T.maxSupportedChains) {id : ℕ} {name : List UInt8}
    {encoding : ChainEncodingVersion} {strategy : Option String}
    (hok : g.registerChain T id name encoding strategy = .ok (k, g')) :
    g'.Consistent T.maxSupportedChains ∧ g.KeepsKeys g' := by
  simp only [Registry.registerChain, bind_eq_ok, ensure_eq_ok, pure_eq_ok, Prod.mk.injEq] at hok
  obtain ⟨-, hnew, -, hcount, -, -, -, -, rfl, rfl⟩ := hok
  rw [satAdd_of_le (hcount.trans_le hT)]
  refine ⟨h.add _ hnew hcount, Nat.le_succ _, fun k c' hk hc' => ?_⟩
  rw [StorageMap.lookup_insert_eq, if_neg hk.ne] at hc'
  exact ⟨c', hc', rfl, rfl⟩

theorem removeChain (h : g.Consistent max) (hok : g.removeChain k = .ok g') :
    g'.Consistent max ∧ g.KeepsKeys g' := by
  simp only [Registry.removeChain, bind_eq_ok, okOr_eq_ok, pure_eq_ok] at hok
  obtain ⟨c, hc, rfl⟩ := hok
  have hindex := h.index_iff
  have hk := (hindex _ _ k).2 ⟨c, hc, rfl, rfl⟩
  refine ⟨⟨fun id name k' => ?_, ?_, (Nat.sub_le _ _).trans h.count_le, fun k' hk' => ?_⟩, le_rfl,
    fun k' c' _ hc' => ?_⟩
  · simp only [StorageMap.lookup_erase_eq]
    grind
  · rw [StorageMap.length_keys_erase hc, h.count_eq]
  · simp only [StorageMap.lookup_erase_eq] at hk'
    exact h.keysBelow k' (by grind)
  · simp only [StorageMap.lookup_erase_eq] at hc'
    exact ⟨c', by grind, rfl, rfl⟩

theorem setChainName (h : g.Consistent max) {name : List UInt8}
    (hok : g.setChainName k name = .ok g') : g'.Consistent max ∧ g.KeepsKeys g' := by
  simp only [Registry.setChainName, bind_eq_ok, ensure_eq_ok, okOr_eq_ok, pure_eq_ok] at hok
  obtain ⟨c, hc, -, -, -, hfree, rfl⟩ := hok
  refine h.replace hc ?_ ?_ rfl rfl rfl
  · simp only [StorageMap.lookup_insert_eq, StorageMap.lookup_erase_eq, implies_true]
  · simp [hfree]

theorem setMaturityStrategy (h : g.Consistent max) {strategy : String}
    (hok : g.setMaturityStrategy k strategy = .ok g') : g'.Consistent max ∧ g.KeepsKeys g' := by
  simp only [Registry.setMaturityStrategy, bind_eq_ok, ensure_eq_ok, okOr_eq_ok, pure_eq_ok] at hok
  obtain ⟨-, -, c, hc, -, -, rfl⟩ := hok
  have hk := (h.index_iff _ _ k).2 ⟨c, hc, rfl, rfl⟩
  refine h.replace hc ?_ ?_ rfl rfl rfl
  · grind
  · simp [hk]

theorem buildChains (h : g.Consistent max)
    {chains : List (ℕ × List UInt8 × ChainEncodingVersion × String)}
    (hlen : g.supportedChainsCount + chains.length ≤ max)
    (hok : Registry.buildChains chains g = some g') : g'.Consistent max := by
  induction chains generalizing g with
  | nil => exact Option.some.inj hok ▸ h
  | cons chain chains ih =>
    obtain ⟨id, name, encoding, strategy⟩ := chain
    simp only [Registry.buildChains] at hok
    split at hok
    · simp at hok
    · next hnew =>
      rw [List.length_cons] at hlen
      refine ih (h.add ⟨id, name, encoding, strategy⟩ ?_ ?_) ?_ hok
      · exact Option.not_isSome_iff_eq_none.1 hnew
      · omega
      · dsimp only
        omega

end Registry.Consistent

section Runs

variable [DecidableEq H] [DecidableEq A] {T : Config H A B} {s s₀ : State H A B}

def Action.writesRegistry : Action T → Bool
  | .call _ _ (.registerChain ..) => true
  | .call _ _ (.removeChain ..) => true
  | .call _ _ (.setChainName ..) => true
  | .call _ _ (.setMaturityStrategy ..) => true
  | _ => false

theorem Registry.Consistent.step (hT : T.maxSupportedChains ≤ u32Max)
    (h : s.registry.Consistent T.maxSupportedChains) {act : Action T}
    (hact : act.writesRegistry = true) :
    (step T s act).registry.Consistent T.maxSupportedChains ∧
      s.registry.KeepsKeys (step T s act).registry := by
  have hsame := And.intro h (KeepsKeys.refl s.registry)
  rcases act with ⟨host, o, call⟩ | _ | _ | _ | _
  case call =>
    rcases hd : dispatch T host s o call with e | s'
    · simpa only [Creditcoin.step, hd] using hsame
    · simp only [Creditcoin.step, hd]
      cases call
      case registerChain =>
        simp only [dispatch, asOperator_eq_ok, State.registerChain, bind_eq_ok, pure_eq_ok] at hd
        obtain ⟨-, ⟨k, g⟩, hg, st, -, rfl⟩ := hd
        exact h.registerChain hT hg
      case removeChain =>
        simp only [dispatch, asOperator_eq_ok, State.removeChain, bind_eq_ok, pure_eq_ok] at hd
        obtain ⟨-, g, hg, rfl⟩ := hd
        exact h.removeChain hg
      case setMaturityStrategy =>
        simp only [dispatch, asOperator_eq_ok, map_eq_ok] at hd
        obtain ⟨-, g, hg, rfl⟩ := hd
        exact h.setMaturityStrategy hg
      case setChainName =>
        simp only [dispatch, asOperator_eq_ok, map_eq_ok] at hd
        obtain ⟨-, g, hg, rfl⟩ := hd
        exact h.setChainName hg
      all_goals simp [Action.writesRegistry] at hact
  all_goals simp [Action.writesRegistry] at hact

theorem Registry.Consistent.run (hT : T.maxSupportedChains ≤ u32Max)
    (h : s.registry.Consistent T.maxSupportedChains) {acts : List (Action T)}
    (hacts : ∀ act ∈ acts, act.writesRegistry = true) :
    (run T s acts).registry.Consistent T.maxSupportedChains ∧
      s.registry.KeepsKeys (run T s acts).registry := by
  induction acts generalizing s with
  | nil => exact ⟨h, .refl _⟩
  | cons act acts ih =>
    obtain ⟨hstep, hkeeps⟩ := h.step hT (hacts act List.mem_cons_self)
    obtain ⟨hrun, hkeeps'⟩ := ih hstep fun act' hact' => hacts act' (.tail _ hact')
    exact ⟨hrun, hkeeps.trans hkeeps'⟩

omit [DecidableEq H] in
theorem Registry.consistent_genesis {gc : GenesisConfig H A B} (h : genesis T gc = some s₀) :
    s₀.registry.Consistent T.maxSupportedChains := by
  simp only [genesis, Option.bind_eq_bind, Option.bind_eq_some_iff] at h
  obtain ⟨g, hg, hs⟩ := h
  rw [buildConfigurations_frame _ hs]
  unfold Registry.build at hg
  split at hg
  · next hlen =>
    refine Consistent.buildChains (g := .empty) ?_ (by simpa [Registry.empty] using hlen) hg
    exact ⟨by simp [Registry.empty], rfl, Nat.zero_le _, by simp [KeysBelow, Registry.empty]⟩
  · simp at hg

/-- **The registry is consistent.** After any registrations, removals and renames, accepted or not:
the index maps exactly the pairs of the stored chains to their keys, so that no two chains share a
pair; the counter is the number of chains and at most the maximum; every stored key is below the
next one; and whatever follows, a key that was given out never holds another chain. -/
theorem registry_consistent (hT : T.maxSupportedChains ≤ u32Max) {gc : GenesisConfig H A B}
    (hgenesis : genesis T gc = some s₀) (acts later : List (Action T))
    (hacts : ∀ act ∈ acts ++ later, act.writesRegistry = true) (hs : run T s₀ acts = s) :
    s.registry.Consistent T.maxSupportedChains ∧
    (∀ k k' c c', s.registry.supportedChains.lookup k = some c →
      s.registry.supportedChains.lookup k' = some c' →
      c.chainId = c'.chainId → c.chainName = c'.chainName → k = k') ∧
    s.registry.KeepsKeys (run T s later).registry := by
  subst hs
  have hconsistent := ((Registry.consistent_genesis hgenesis).run hT
    fun act hact => hacts act (List.mem_append_left _ hact)).1
  refine ⟨hconsistent, fun k k' c c' hc hc' hid hname => ?_, ?_⟩
  · have hk := (hconsistent.index_iff _ _ k).2 ⟨c, hc, hid, hname⟩
    have hk' := (hconsistent.index_iff _ _ k').2 ⟨c', hc', rfl, rfl⟩
    exact Option.mem_unique hk hk'
  · exact (hconsistent.run hT fun act hact => hacts act (List.mem_append_right _ hact)).2

/-- A chain is registered, renamed and removed on the development network. -/
theorem registry_consistent_devnet : ∃ s : State Devnet.Word ℕ Unit,
    s.registry.supportedChains.lookup 2 ≠ none ∧
      s.registry.Consistent Devnet.config.maxSupportedChains := by
  have hgen := @Devnet.genesis_eq_genesisState (Devnet.genesisConfig 10 10 []) (by decide +kernel)
  refine ⟨_, ?_, (registry_consistent (by decide) hgen [Devnet.byRoot (.registerChain 7 [1]
    ⟨none, none, none, none, none, none⟩ .v1 none), Devnet.byRoot (.setChainName 1 [5])]
    [Devnet.byRoot (.removeChain 2 true)] (by decide) rfl).1⟩
  decide +kernel

end Runs

end Creditcoin
