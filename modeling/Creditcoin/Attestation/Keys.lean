import Creditcoin.Attestation.RosterEffects
import Creditcoin.Devnet

/-!
# Who owns a key

A controller holds the key of its registration, or of its retired row. The owner recorded for a key
is exactly the controller that holds it, and nobody is both registered and retired (`KeysOwned`). -/

namespace Creditcoin

variable {H A B : Type} [DecidableEq A]

namespace Roster

variable {r r' : Roster A} {a : A} {key : BlsPublicKey}

/-! ## Holding a key -/

def registeredKey (r : Roster A) (a : A) : Option BlsPublicKey :=
  (r.attestors.lookup a).bind (·.blsPublicKey)

def retiredKey (r : Roster A) (a : A) : Option BlsPublicKey :=
  (r.retiredAttestorBlsKeys.lookup a).map (·.blsPublicKey)

/-- The registration or the retired row of the controller holds the key. -/
def HoldsKey (r : Roster A) (a : A) (key : BlsPublicKey) : Prop :=
  r.registeredKey a = some key ∨ r.retiredKey a = some key

instance (r : Roster A) (a : A) (key : BlsPublicKey) : Decidable (r.HoldsKey a key) :=
  inferInstanceAs (Decidable (_ ∨ _))

/-- The owners of keys are those who hold them. -/
structure KeysOwned (r : Roster A) : Prop where
  owner_iff : ∀ key a, r.blsKeyOwner.lookup key = some a ↔ r.HoldsKey a key
  apart : ∀ a, r.attestors.lookup a = none ∨ r.retiredAttestorBlsKeys.lookup a = none
  cleanup : r.removedChainCleanup = none

theorem keysOwned_empty : (Roster.empty : Roster A).KeysOwned where
  owner_iff key a := by simp [Roster.empty, HoldsKey, registeredKey, retiredKey]
  apart a := .inl (AList.lookup_empty a)
  cleanup := rfl

theorem KeysOwned.unique {a' : A} (h : r.KeysOwned) (ha : r.HoldsKey a key)
    (ha' : r.HoldsKey a' key) : a = a' := by
  have howner := ((h.owner_iff key a).2 ha).symm.trans ((h.owner_iff key a').2 ha')
  exact Option.some.inj howner

variable {attestor : Attestor A}

theorem KeysOwned.retiredKey_of_registered (h : r.KeysOwned)
    (ha : r.attestors.lookup a = some attestor) : r.retiredKey a = none := by
  rcases h.apart a with hnone | hnone
  · rw [ha] at hnone
    cases hnone
  · rw [retiredKey, hnone, Option.map_none]

/-! ## The steps -/

theorem KeysOwned.congr (h : r.KeysOwned) (howners : r'.blsKeyOwner = r.blsKeyOwner)
    (hregistered : ∀ a, r'.registeredKey a = r.registeredKey a)
    (hattestors : ∀ a, r.attestors.lookup a = none → r'.attestors.lookup a = none)
    (hretired : r'.retiredAttestorBlsKeys = r.retiredAttestorBlsKeys)
    (hcleanup : r'.removedChainCleanup = r.removedChainCleanup) : r'.KeysOwned where
  owner_iff key a := by
    rw [howners, h.owner_iff]
    unfold HoldsKey retiredKey
    rw [hregistered, hretired]
  apart a := by
    rw [hretired]
    exact (h.apart a).imp_left (hattestors a)
  cleanup := hcleanup.trans h.cleanup

theorem KeysOwned.restatus {f : A → AttestorStatus → AttestorStatus} (h : r.KeysOwned)
    (hf : Restatus f r r') : r'.KeysOwned := by
  refine h.congr hf.owners (fun a => ?_) (fun a ha => ?_) hf.retired hf.cleanup
  · unfold registeredKey
    rw [hf.attestors]
    rcases r.attestors.lookup a with _ | attestor <;> rfl
  · rw [hf.attestors, ha, Option.map_none]

theorem KeysOwned.forgetRetired (h : r.KeysOwned) (a : A) : (r.forgetRetired a).KeysOwned := by
  unfold Roster.forgetRetired
  rcases hentry : r.retiredAttestorBlsKeys.lookup a with _ | entry
  · exact h
  · have hholds : r.HoldsKey a entry.blsPublicKey :=
      .inr (by rw [retiredKey, hentry, Option.map_some])
    have hnone : r.registeredKey a = none := by
      rcases h.apart a with hnone | hnone
      · rw [registeredKey, hnone, Option.bind_none]
      · rw [hnone] at hentry
        cases hentry
    simp only [releaseKey_eq, if_pos ((h.owner_iff _ _).2 hholds)]
    refine ⟨fun key b => ?_, fun b => ?_, h.cleanup⟩
    · dsimp only
      rw [StorageMap.lookup_erase_eq]
      unfold HoldsKey retiredKey
      dsimp only
      rw [StorageMap.lookup_erase_eq]
      rcases eq_or_ne b a with rfl | hne
      · have hnone' : Roster.registeredKey { r with
            blsKeyOwner := r.blsKeyOwner.erase entry.blsPublicKey
            retiredAttestorBlsKeys := r.retiredAttestorBlsKeys.erase b } b = none := hnone
        rw [if_pos rfl, hnone', Option.map_none]
        split
        · simp
        · next hkey =>
          rw [h.owner_iff, HoldsKey, hnone, retiredKey, hentry, Option.map_some]
          simp [Ne.symm hkey]
      · rw [if_neg hne]
        split
        · next hkey =>
          refine ⟨fun h' => absurd h' (by simp), fun hb => absurd ?_ hne⟩
          exact h.unique (hkey ▸ hb) hholds
        · exact h.owner_iff key b
    · dsimp only
      rw [StorageMap.lookup_erase_eq]
      split
      · exact .inr rfl
      · exact h.apart b

theorem KeysOwned.register {r₁ : Roster A} (h : r.KeysOwned) (stash : A)
    (ha : r.attestors.lookup a = none) (hretired : r.retiredAttestorBlsKeys.lookup a = none)
    (hattestors : r₁.attestors = r.attestors.insert a ⟨none, .idle, stash⟩)
    (howners : r₁.blsKeyOwner = r.blsKeyOwner)
    (hrows : r₁.retiredAttestorBlsKeys = r.retiredAttestorBlsKeys)
    (hcleanup : r₁.removedChainCleanup = r.removedChainCleanup) : r₁.KeysOwned where
  owner_iff key b := by
    rw [howners, h.owner_iff]
    unfold HoldsKey registeredKey retiredKey
    rw [hrows, hattestors, StorageMap.lookup_insert_eq]
    split
    · next heq => rw [heq, ha, Option.bind_none, Option.bind_some]
    · rfl
  apart b := by
    rw [hrows, hattestors, StorageMap.lookup_insert_eq]
    split
    · next heq => exact .inr (heq ▸ hretired)
    · exact h.apart b
  cleanup := hcleanup.trans h.cleanup

theorem KeysOwned.unregister {stash : A} {purgeAtEra : ℕ} (h : r.KeysOwned)
    (ha : r.attestors.lookup a = some attestor) (hattestors : r'.attestors = r.attestors.erase a)
    (hretired : r'.retiredAttestorBlsKeys = r.retiredWith a stash purgeAtEra attestor.blsPublicKey)
    (howners : r'.blsKeyOwner = r.blsKeyOwner)
    (hcleanup : r'.removedChainCleanup = r.removedChainCleanup) : r'.KeysOwned := by
  have hrow : ∀ b, r'.retiredKey b = if b = a then attestor.blsPublicKey else r.retiredKey b := by
    intro b
    rw [retiredKey, hretired]
    rcases hkey : attestor.blsPublicKey with _ | key
    · rw [retiredWith]
      split
      · next heq => rw [heq]; exact h.retiredKey_of_registered ha
      · rfl
    · rw [retiredWith, StorageMap.lookup_insert_eq]
      split <;> rfl
  refine ⟨fun key b => ?_, fun b => ?_, hcleanup.trans h.cleanup⟩
  · rw [howners, h.owner_iff, HoldsKey, HoldsKey, hrow, registeredKey, registeredKey, hattestors,
      StorageMap.lookup_erase_eq]
    split
    · next heq =>
      rw [heq, ha, h.retiredKey_of_registered ha, Option.bind_some, Option.bind_none]
      exact or_comm
    · rfl
  · rw [hattestors, StorageMap.lookup_erase_eq]
    split
    · exact .inl rfl
    · next hne =>
      refine (h.apart b).imp_right fun hnone => ?_
      rw [hretired]
      unfold retiredWith
      split
      · exact hnone
      · rw [StorageMap.lookup_insert_eq, if_neg hne, hnone]

omit [DecidableEq A] in
theorem lookup_ownersWith (r : Roster A) (a : A) (old : Option BlsPublicKey)
    (key key' : BlsPublicKey) :
    (r.ownersWith a old key).lookup key' =
      if key' = key then some a else if old =
        some key' then none else r.blsKeyOwner.lookup key' := by
  unfold ownersWith
  rw [StorageMap.lookup_insert_eq]
  split
  · rfl
  · next hne =>
    rcases old with _ | oldKey
    · simp
    · dsimp only
      split
      · next heq => rw [if_neg (by simpa [heq] using Ne.symm hne)]
      · rw [StorageMap.lookup_erase_eq]
        simp only [Option.some.injEq, eq_comm]

theorem KeysOwned.attest (h : r.KeysOwned) (ha : r.attestors.lookup a = some attestor)
    (howner : ∀ owner ∈ r.blsKeyOwner.lookup key, owner = a)
    (hattestors : r'.attestors = r.attestors.insert a
      { attestor with status := .waiting, blsPublicKey := some key })
    (howners : r'.blsKeyOwner = r.ownersWith a attestor.blsPublicKey key)
    (hretired : r'.retiredAttestorBlsKeys = r.retiredAttestorBlsKeys)
    (hcleanup : r'.removedChainCleanup = r.removedChainCleanup) : r'.KeysOwned := by
  have hretiredKey := h.retiredKey_of_registered ha
  have hkey : r.registeredKey a = attestor.blsPublicKey := by
    rw [registeredKey, ha, Option.bind_some]
  have hrow : ∀ b, r'.registeredKey b = if b = a then some key else r.registeredKey b := by
    intro b
    rw [registeredKey, hattestors, StorageMap.lookup_insert_eq]
    split <;> rfl
  have hsame : ∀ b, r'.retiredKey b = r.retiredKey b := fun b => by
    rw [retiredKey, retiredKey, hretired]
  refine ⟨fun key' b => ?_, fun b => ?_, hcleanup.trans h.cleanup⟩
  · rw [howners, lookup_ownersWith, HoldsKey, hrow, hsame]
    rcases eq_or_ne b a with rfl | hne
    · rw [if_pos rfl, hretiredKey, ← hkey]
      have howned := h.owner_iff key' b
      rw [HoldsKey, hretiredKey] at howned
      by_cases hkey' : key' = key
      · simp [hkey']
      · rw [if_neg hkey']
        split
        · simp [Ne.symm hkey']
        · next hother => simp [howned, hother, Ne.symm hkey']
    · rw [if_neg hne]
      have howned := h.owner_iff key' b
      rw [HoldsKey] at howned
      by_cases hkey' : key' = key
      · rw [if_pos hkey', ← howned]
        subst hkey'
        refine ⟨fun heq => absurd (Option.some.inj heq).symm hne, fun hb => ?_⟩
        exact absurd (howner b hb) hne
      · rw [if_neg hkey']
        split
        · next hold =>
          rw [← howned, (h.owner_iff key' a).2 (.inl (hkey.trans hold))]
          simp [Ne.symm hne]
        · exact howned
  · rw [hattestors, hretired, StorageMap.lookup_insert_eq]
    split
    · next heq =>
      refine .inr ((h.apart b).resolve_left ?_)
      rw [heq, ha]
      exact Option.some_ne_none _
    · exact h.apart b

variable {T : Config H A B} {supported : Bool} {k : ChainKey} {st : Settings}

/-- **Every step of the roster keeps the owners of keys.** -/
theorem KeysOwned.step [DecidableEq H] (h : r.KeysOwned)
    (hstep : RosterStep T supported k st r r') :
    r'.KeysOwned := by
  cases hstep with
  | registered _ index index' stash attestorId hr =>
    obtain ⟨hnone, -, -, -, rfl, -⟩ := registerAttestor_effect hr
    refine (h.forgetRetired attestorId).register stash (a := attestorId) ?_ ?_ ?_ rfl rfl rfl
    · rwa [forgetRetired_attestors]
    · rw [lookup_forgetRetired, if_pos rfl]
    · rw [forgetRetired_attestors]
  | unregistered index index' stash attestorId purgeAtEra hown hr =>
    obtain ⟨rfl, -⟩ := unregisterAttestor_effect hr
    exact h.unregister (removableAttestor_eq_ok hown).1 rfl rfl rfl rfl
  | activated who key pop hr =>
    obtain ⟨-, attestor, hlookup, -, howner, rfl⟩ := startAttesting_effect hr
    exact h.attest hlookup howner rfl rfl rfl rfl
  | chilled who attestorId hr =>
    obtain ⟨attestor, -, ⟨-, rfl⟩ | ⟨-, rfl⟩⟩ := chill_effect hr
    · exact h.restatus (restatus_doChillAttestorImmediate r attestorId)
    · exact h.restatus (restatus_setStatus r attestorId .leaving)
  | kicked attestorId => exact h.restatus (restatus_doChillAttestorImmediate r attestorId)
  | elected _ epoch => exact h.restatus (restatus_electAttestorsForChain T _ epoch _)
  | announced events => exact { h with }
  | invulnerable _ hr | authorized _ hr =>
    simp only [registerInvulnerable, authorizeAttestor, bind_eq_ok, pure_eq_ok] at hr
    obtain ⟨-, -, -, -, rfl⟩ := hr
    exact { h with }
  | vulnerable _ hr | unauthorized _ hr =>
    simp only [unregisterInvulnerable, removeAuthorizedAttestor, bind_eq_ok, pure_eq_ok] at hr
    obtain ⟨-, -, rfl⟩ := hr
    exact { h with }
  | purged attestorId hentry => exact purged_eq hentry ▸ h.forgetRetired attestorId
  | cleanedUp host index hphase =>
    rw [h.cleanup] at hphase
    cases hphase

end Roster

/-! ## Live chains -/

section Live

variable [DecidableEq H] {T : Config H A B} {s : State H A B} {k : ChainKey}

theorem keysOwned_of_live (hreach : Reachable T s) (hlive : s.Live k) :
    (s.chain T k).roster.KeysOwned := by
  refine live_invariant (P := fun c => c.roster.KeysOwned) hreach hlive ?_ ?_
  · intro gc s₀ hgen
    refine genesis_invariant (P := fun c => c.roster.KeysOwned) hgen Roster.keysOwned_empty ?_
    intro cfg c c' _ _ hc hbuild
    unfold buildChain at hbuild
    split at hbuild
    · obtain rfl := Option.some.inj hbuild
      exact { hc with }
    · simp at hbuild
  · intro supported c c' hc hstep
    cases hstep with
    | anchors _ | settings _ => exact hc
    | roster h => exact hc.step h

/-- **Ownership of keys.** In every reachable state of a supported chain the owner recorded for a
key is the controller whose registration or retired row holds it, so no two controllers hold the
same key; and no controller is both registered and retired. -/
theorem blsKeyOwner_lookup_iff (hreach : Reachable T s) (hsup : s.isChainSupported k = true) :
    (∀ key a, (s.chain T k).roster.blsKeyOwner.lookup key = some a ↔
        (s.chain T k).roster.HoldsKey a key) ∧
      (∀ key a a', (s.chain T k).roster.HoldsKey a key → (s.chain T k).roster.HoldsKey a' key →
        a = a') ∧
      ∀ a, ¬ (((s.chain T k).roster.attestors.lookup a).isSome = true ∧
        ((s.chain T k).roster.retiredAttestorBlsKeys.lookup a).isSome = true) := by
  have h := keysOwned_of_live hreach (.inl hsup)
  refine ⟨h.owner_iff, fun key a a' => h.unique, fun a => ?_⟩
  rintro ⟨hregistered, hretired⟩
  rcases h.apart a with hnone | hnone
  · simp [hnone] at hregistered
  · simp [hnone] at hretired

end Live

section Devnet

open Devnet

/-- Of four attestors two have retired. A key of theirs and one of the others are still held by
those who claimed them. -/
theorem devnet_holdsKey :
    (resigned.chain config 1).roster.HoldsKey 1 (blsKey 1) ∧
      (resigned.chain config 1).roster.HoldsKey 3 (blsKey 3) ∧
      ∀ a, (resigned.chain config 1).roster.HoldsKey a (blsKey 1) → a = 1 := by
  obtain ⟨howner, hunique, -⟩ :=
    blsKeyOwner_lookup_iff (k := 1) reachable_resigned (by decide +kernel)
  have hrows : ∀ a ∈ [1, 3],
      (resigned.chain config 1).roster.blsKeyOwner.lookup (blsKey a) = some a := by
    decide +kernel
  have hholds := (howner _ _).1 (hrows 1 (by decide))
  exact ⟨hholds, (howner _ _).1 (hrows 3 (by decide)), fun a h => hunique _ _ _ h hholds⟩

end Devnet

end Creditcoin
