import Creditcoin.Attestation.BondEffects
import Creditcoin.Devnet
import Creditcoin.Foundations.Totals

/-!
# The active bond of a stash

Without an existential deposit no dust is swept, so the active amount of a ledger is the collateral
of the attestors of the stash over all chains, and an unregistration unbonds its share. -/

namespace Creditcoin

variable {H A B : Type} [DecidableEq A]

/-! ## Collateral of a stash -/

def Roster.collateralOf (r : Roster A) (a : A) : ℕ := (r.attestorCollateral.lookup a).getD 0

/-- The collateral of the attestors of a stash on one chain. -/
def Roster.bonded (r : Roster A) (stash : A) : ℕ :=
  r.attestors.total fun a attestor => if attestor.stash = stash then r.collateralOf a else 0

/-- The collateral of the attestors of a stash on all chains. -/
def State.bonded (s : State H A B) (stash : A) : ℕ :=
  s.chains.total fun _ c => c.roster.bonded stash

/-- The active amount of a stash, zero without a ledger. -/
def State.activeOf (s : State H A B) (stash : A) : ℕ :=
  ((s.bonds.ledger.lookup stash).map (·.active)).getD 0

section Rosters

variable {r r' : Roster A} {a stash : A}

theorem Roster.part_bonded (r : Roster A) (stash a : A) :
    r.attestors.part (fun a attestor => if attestor.stash = stash then r.collateralOf a else 0) a =
      if (r.attestors.lookup a).map (·.stash) = some stash then r.collateralOf a else 0 := by
  unfold StorageMap.part
  rcases r.attestors.lookup a with _ | attestor <;> simp

theorem Roster.bonded_congr
    (hstashes : ∀ a, (r'.attestors.lookup a).map (·.stash) = (r.attestors.lookup a).map (·.stash))
    (hcollateral : r'.attestorCollateral = r.attestorCollateral) (stash : A) :
    r'.bonded stash = r.bonded stash := by
  refine StorageMap.total_congr fun a => ?_
  rw [Roster.part_bonded, Roster.part_bonded, hstashes, Roster.collateralOf, Roster.collateralOf,
    hcollateral]

theorem Roster.bonded_register {attestor : Attestor A} {bond : ℕ}
    (ha : r.attestors.lookup a = none) (hattestors : r'.attestors = r.attestors.insert a attestor)
    (hcollateral : r'.attestorCollateral = r.attestorCollateral.insert a bond) (stash : A) :
    r'.bonded stash = r.bonded stash + if attestor.stash = stash then bond else 0 := by
  have hcollateralOf : ∀ b, r'.collateralOf b = if b = a then bond else r.collateralOf b := by
    intro b
    rw [Roster.collateralOf, hcollateral, StorageMap.lookup_insert_eq]
    split <;> rfl
  have hother : ∀ b, b ≠ a →
      r'.attestors.part (fun a att => if att.stash = stash then r'.collateralOf a else 0) b =
        r.attestors.part (fun a att => if att.stash = stash then r.collateralOf a else 0) b := by
    intro b hb
    rw [Roster.part_bonded, Roster.part_bonded, hattestors, StorageMap.lookup_insert_eq, if_neg hb,
      hcollateralOf, if_neg hb]
  have hchange := StorageMap.total_change hother
  rw [Roster.part_bonded, Roster.part_bonded, ha, hattestors, StorageMap.lookup_insert_eq,
    if_pos rfl,
    hcollateralOf, if_pos rfl] at hchange
  simpa [Roster.bonded, ← hattestors] using hchange

theorem Roster.bonded_unregister {attestor : Attestor A}
    (ha : r.attestors.lookup a = some attestor) (hattestors : r'.attestors = r.attestors.erase a)
    (hcollateral : r'.attestorCollateral = r.attestorCollateral.erase a) (stash : A) :
    r'.bonded stash + (if attestor.stash = stash then r.collateralOf a else 0) =
      r.bonded stash := by
  have hother : ∀ b, b ≠ a →
      r'.attestors.part (fun a att => if att.stash = stash then r'.collateralOf a else 0) b =
        r.attestors.part (fun a att => if att.stash = stash then r.collateralOf a else 0) b := by
    intro b hb
    rw [Roster.part_bonded, Roster.part_bonded, hattestors, StorageMap.lookup_erase_eq, if_neg hb,
      Roster.collateralOf, hcollateral, StorageMap.lookup_erase_eq, if_neg hb]
    rfl
  have hchange := StorageMap.total_change hother
  rw [Roster.part_bonded, Roster.part_bonded, ha, hattestors, StorageMap.lookup_erase_eq,
    if_pos rfl] at hchange
  simpa [Roster.bonded, ← hattestors] using hchange

end Rosters

/-! ## All chains -/

section States

variable {T : Config H A B} {s s' : State H A B} {k : ChainKey} {stash : A} {m : ℕ}

theorem State.part_bonded (T : Config H A B) (s : State H A B) (stash : A) (k : ChainKey) :
    s.chains.part (fun _ c => c.roster.bonded stash) k = (s.chain T k).roster.bonded stash := by
  unfold StorageMap.part State.chain
  rcases s.chains.lookup k with _ | c
  · exact StorageMap.total_empty.symm
  · rfl

theorem State.bonded_congr
    (h : ∀ k, (s'.chain T k).roster.bonded stash = (s.chain T k).roster.bonded stash) :
    s'.bonded stash = s.bonded stash := by
  refine StorageMap.total_congr fun k => ?_
  rw [State.part_bonded T, State.part_bonded T, h]

theorem State.bonded_change (h : ∀ j, j ≠ k → (s'.chain T j).roster = (s.chain T j).roster)
    (stash : A) :
    s'.bonded stash + (s.chain T k).roster.bonded stash =
      s.bonded stash + (s'.chain T k).roster.bonded stash := by
  have hother : ∀ j, j ≠ k → s'.chains.part (fun _ c => c.roster.bonded stash) j =
      s.chains.part (fun _ c => c.roster.bonded stash) j := by
    intro j hj
    rw [State.part_bonded T, State.part_bonded T, h j hj]
  have hchange := StorageMap.total_change hother
  rwa [State.part_bonded T, State.part_bonded T] at hchange

variable {attestor : Attestor A} {a : A}

theorem State.collateralOf_le_bonded (h : (s.chain T k).roster.attestors.lookup a = some attestor) :
    (s.chain T k).roster.collateralOf a ≤ s.bonded attestor.stash := by
  have hchain := StorageMap.part_le_total s.chains (fun _ c => c.roster.bonded attestor.stash) k
  have hroster := StorageMap.part_le_total (s.chain T k).roster.attestors
    (fun a att => if att.stash = attestor.stash then (s.chain T k).roster.collateralOf a else 0) a
  rw [State.part_bonded T] at hchain
  rw [Roster.part_bonded, h, Option.map_some, if_pos rfl] at hroster
  exact hroster.trans hchain

theorem State.bonded_eq_zero
    (h : ∀ k a attestor, (s.chain T k).roster.attestors.lookup a = some attestor →
      attestor.stash ≠ stash) : s.bonded stash = 0 := by
  refine StorageMap.total_eq_zero fun k => ?_
  rw [State.part_bonded T]
  refine StorageMap.total_eq_zero fun a => ?_
  rw [Roster.part_bonded]
  rcases hlookup : (s.chain T k).roster.attestors.lookup a with _ | attestor
  · rfl
  · rw [Option.map_some, if_neg]
    exact fun heq => h k a attestor hlookup (Option.some.inj heq)

/-! ## The invariant -/

/-- The active amounts are backed by the collateral of attestors, each of at least `m`. -/
structure State.Backed (T : Config H A B) (m : ℕ) (s : State H A B) : Prop where
  stash_eq : ∀ stash l, s.bonds.ledger.lookup stash = some l → l.stash = stash
  recorded : ∀ k a attestor, (s.chain T k).roster.attestors.lookup a = some attestor →
    ∃ bond, (s.chain T k).roster.attestorCollateral.lookup a = some bond ∧ m ≤ bond
  active_eq : ∀ stash, s.activeOf stash = s.bonded stash

/-- An attestor is registered only where the requirement is at least `m`. -/
def BondsAtLeast (T : Config H A B) (m : ℕ) (s : State H A B) : Action T → Prop
  | .call _ _ (.registerAttestor k _) => m ≤ (s.chain T k).settings.minBondRequirement
  | _ => True

theorem State.Backed.congr (h : s.Backed T m) (hledger : s'.bonds.ledger = s.bonds.ledger)
    (hstashes : ∀ k a, ((s'.chain T k).roster.attestors.lookup a).map (·.stash) =
      ((s.chain T k).roster.attestors.lookup a).map (·.stash))
    (hcollateral : ∀ k, (s'.chain T k).roster.attestorCollateral =
      (s.chain T k).roster.attestorCollateral) : s'.Backed T m where
  stash_eq stash l hl := h.stash_eq stash l (hledger ▸ hl)
  recorded k a attestor' ha := by
    rw [hcollateral]
    have hsome := hstashes k a
    rw [ha, Option.map_some, eq_comm, Option.map_eq_some_iff] at hsome
    obtain ⟨attestor, hattestor, -⟩ := hsome
    exact h.recorded k a attestor hattestor
  active_eq stash := by
    have hbonded : s'.bonded stash = s.bonded stash :=
      State.bonded_congr fun k => Roster.bonded_congr (hstashes k) (hcollateral k) stash
    rw [State.activeOf, hledger, hbonded]
    exact h.active_eq stash

theorem State.Backed.quiet (h : s.Backed T m) (hquiet : Quiet T s s') : s'.Backed T m :=
  h.congr hquiet.ledger (fun k => (hquiet.rosters k).stashes) fun k => (hquiet.rosters k).collateral

theorem State.Backed.register (h : s.Backed T m)
    (hm : m ≤ (s.chain T k).settings.minBondRequirement)
    (hregister : s.registerAttestor T k stash a = .ok s') : s'.Backed T m := by
  obtain ⟨-, -, hothers, hroster, hbonds⟩ := State.registerAttestor_effect hregister
  obtain ⟨hnone, -, -, -, hr, -⟩ := Roster.registerAttestor_effect hroster
  have hattestors : (s'.chain T k).roster.attestors =
      (s.chain T k).roster.attestors.insert a ⟨none, .idle, stash⟩ := congrArg Roster.attestors hr
  have hcollateral : (s'.chain T k).roster.attestorCollateral =
      (s.chain T k).roster.attestorCollateral.insert a (s.chain T k).settings.minBondRequirement :=
    congrArg Roster.attestorCollateral hr
  have hledger : ∀ x, (s'.bonds.ledger.lookup x).map (fun l => (l.stash, l.active)) =
      if x = stash then
        some (stash, s.activeOf stash + (s.chain T k).settings.minBondRequirement)
      else (s.bonds.ledger.lookup x).map (fun l => (l.stash, l.active)) := by
    intro x
    obtain ⟨funded, -, ⟨hnone, hledger, -⟩ | ⟨l, hl, -, hwrites⟩⟩ :=
      Bonds.bondForAttestor_effect hbonds
    · rw [hledger, State.activeOf, hnone]
      split
      · rw [Option.map_some]
        simp [AttestorLedger.new]
      · rfl
    · rw [hwrites.ledger, State.activeOf, hl]
      dsimp only
      rw [h.stash_eq stash l hl]
      split <;> rfl
  refine ⟨fun x l hl => ?_, fun j b attestor hb => ?_, fun x => ?_⟩
  · have hx := hledger x
    rw [hl, Option.map_some] at hx
    split at hx
    · next heq => rw [heq, (Prod.mk.inj (Option.some.inj hx)).1]
    · rw [eq_comm, Option.map_eq_some_iff] at hx
      obtain ⟨l', hl', hpair⟩ := hx
      rw [← (Prod.mk.inj hpair).1]
      exact h.stash_eq x l' hl'
  · rcases eq_or_ne j k with rfl | hj
    · rw [hattestors, StorageMap.lookup_insert_eq] at hb
      rw [hcollateral, StorageMap.lookup_insert_eq]
      split at hb
      · next heq =>
        rw [if_pos heq]
        exact ⟨_, rfl, hm⟩
      · next hne =>
        rw [if_neg hne]
        exact h.recorded j b attestor hb
    · rw [hothers j hj] at hb ⊢
      exact h.recorded j b attestor hb
  · have hactive : s'.activeOf x = s.activeOf x +
        if stash = x then (s.chain T k).settings.minBondRequirement else 0 := by
      have hx := congrArg (Option.map Prod.snd) (hledger x)
      rw [Option.map_map] at hx
      have hmap : s'.activeOf x = (((s'.bonds.ledger.lookup x).map
        (Prod.snd ∘ fun l => (l.stash, l.active))).getD 0) := rfl
      rw [hmap, hx]
      rcases eq_or_ne x stash with rfl | hne
      · rw [if_pos rfl, if_pos rfl, Option.map_some, Option.getD_some]
      · rw [if_neg hne, if_neg (Ne.symm hne), Option.map_map, Nat.add_zero]
        rfl
    have hbonded := Roster.bonded_register hnone hattestors hcollateral x
    have hchange := State.bonded_change hothers x
    have hbefore := h.active_eq x
    dsimp only at hbonded
    omega

theorem State.Backed.collateralOf_le (h : s.Backed T m)
    (ha : (s.chain T k).roster.attestors.lookup a = some attestor) :
    m ≤ (s.chain T k).roster.collateralOf a := by
  obtain ⟨bond, hbond, hm⟩ := h.recorded k a attestor ha
  rwa [Roster.collateralOf, hbond, Option.getD_some]

theorem State.activeOf_eq {l : AttestorLedger A} (h : s.bonds.ledger.lookup stash = some l) :
    s.activeOf stash = l.active := by
  rw [State.activeOf, h, Option.map_some, Option.getD_some]

/-- **Unregistering unbonds the collateral of the attestor.** No dust is left: what remains is
collateral of other attestors, each of at least the existential deposit. -/
theorem State.Backed.unregister (hm : T.currency.minimumBalance ≤ m) (h : s.Backed T m)
    (hremove : s.removeAttestor T k stash a = .ok s') :
    s'.Backed T m ∧
      s'.activeOf stash + (s.chain T k).roster.collateralOf a = s.activeOf stash ∧
      ((s.chain T k).roster.collateralOf a ≠ 0 → ∃ events, s'.bonds.events =
        s.bonds.events ++ events ++ [.unbonded stash ((s.chain T k).roster.collateralOf a)]) := by
  obtain ⟨-, hothers, attestor, hown, hroster, hbonds⟩ := State.removeAttestor_effect hremove
  obtain ⟨hlookup, hstash, -⟩ := Roster.removableAttestor_eq_ok hown
  obtain ⟨hr, -⟩ := Roster.unregisterAttestor_effect hroster
  have hattestors : (s'.chain T k).roster.attestors = (s.chain T k).roster.attestors.erase a :=
    congrArg Roster.attestors hr
  have hcollateral : (s'.chain T k).roster.attestorCollateral =
      (s.chain T k).roster.attestorCollateral.erase a := congrArg Roster.attestorCollateral hr
  obtain ⟨bond, hbond, -⟩ := h.recorded k a attestor hlookup
  have hbondOf : (s.chain T k).roster.collateralOf a = bond := by
    rw [Roster.collateralOf, hbond, Option.getD_some]
  rw [hbond, Option.getD_some] at hbonds
  rw [hbondOf]
  have hrecorded : ∀ j b att, (s'.chain T j).roster.attestors.lookup b = some att →
      ∃ bond, (s'.chain T j).roster.attestorCollateral.lookup b = some bond ∧ m ≤ bond := by
    intro j b att hb
    rcases eq_or_ne j k with rfl | hj
    · rw [hattestors, StorageMap.lookup_erase_eq] at hb
      rw [hcollateral, StorageMap.lookup_erase_eq]
      split at hb
      · cases hb
      · next hne =>
        rw [if_neg hne]
        exact h.recorded j b att hb
    · rw [hothers j hj] at hb ⊢
      exact h.recorded j b att hb
  have hbonded : ∀ x, s'.bonded x + (if stash = x then bond else 0) = s.bonded x := by
    intro x
    have hone := Roster.bonded_unregister hlookup hattestors hcollateral x
    have hall := State.bonded_change hothers x
    rw [hstash, hbondOf] at hone
    omega
  -- Either the stash has other attestors, with collateral above the deposit, or nothing remains.
  have hrest : T.currency.minimumBalance ≤ s'.bonded stash ∨ s'.bonded stash = 0 := by
    by_cases hany :
      ∃ j b att, (s'.chain T j).roster.attestors.lookup b = some att ∧ att.stash = stash
    · obtain ⟨j, b, att, hb, rfl⟩ := hany
      obtain ⟨bond', hbond', hle⟩ := hrecorded j b att hb
      have hpart := State.collateralOf_le_bonded hb
      rw [Roster.collateralOf, hbond', Option.getD_some] at hpart
      exact .inl (hm.trans (hle.trans hpart))
    · refine .inr (State.bonded_eq_zero (T := T) fun j b att hb heq => ?_)
      exact hany ⟨j, b, att, hb, heq⟩
  have hstake := hbonded stash
  rw [if_pos rfl] at hstake
  obtain ⟨l, hl, hcases⟩ := Bonds.unbond_effect hbonds
  have hactive : l.active = s.bonded stash := (State.activeOf_eq hl).symm.trans (h.active_eq stash)
  have hmin : min bond l.active = bond := by omega
  rw [hmin] at hcases
  -- The ledgers after the call.
  have hledger : (∀ x l', s'.bonds.ledger.lookup x = some l' → l'.stash = x) ∧
      (∀ x, s'.activeOf x = if x = stash then s'.bonded stash else s.activeOf x) ∧
      (bond ≠ 0 → ∃ events, s'.bonds.events =
        s.bonds.events ++ events ++ [.unbonded stash bond]) := by
    rcases hcases with ⟨hzero, hsame⟩ | ⟨hpos, unlocking, value, rest, hsplit, -, hwrites, hevents⟩
    · refine ⟨fun x l' hl' => h.stash_eq x l' (hsame ▸ hl'), fun x => ?_, fun hne =>
        absurd hzero hne⟩
      rw [State.activeOf, hsame]
      split
      · next heq =>
        rw [heq, hl, Option.map_some, Option.getD_some]
        omega
      · rfl
    · have hvalue : value = bond ∧ rest = s'.bonded stash := by omega
      obtain ⟨rfl, rfl⟩ := hvalue
      have hself : (l.released T s.currentEra).stash = stash :=
        (AttestorLedger.released_stash _ _ _).trans (h.stash_eq stash l hl)
      have hlookup' := hwrites.ledger
      dsimp only at hlookup'
      rw [hself] at hlookup'
      refine ⟨fun x l' hl' => ?_, fun x => ?_, fun _ => hevents⟩
      · rw [hlookup'] at hl'
        split at hl'
        · next heq => rw [← Option.some.inj hl', heq]
        · exact h.stash_eq x l' hl'
      · rw [State.activeOf, hlookup']
        split <;> rfl
  refine ⟨⟨hledger.1, hrecorded, fun x => ?_⟩, ?_, hledger.2.2⟩
  · rw [hledger.2.1]
    split
    · next heq => rw [heq]
    · next hne =>
      have hx := hbonded x
      rw [if_neg (Ne.symm hne)] at hx
      rw [h.active_eq]
      omega
  · rw [hledger.2.1, if_pos rfl, h.active_eq]
    omega

theorem State.Backed.withdraw (hm : T.currency.minimumBalance ≤ m) (h : s.Backed T m)
    (hwithdraw : s.withdrawUnbonded T stash = .ok s') : s'.Backed T m := by
  obtain ⟨-, hbonds, hpurged⟩ := State.withdrawUnbonded_effect hwithdraw
  have hbonded : ∀ x, s'.bonded x = s.bonded x := fun x => State.bonded_congr (T := T) fun k =>
    Roster.bonded_congr (fun a => by rw [(hpurged k).attestors.1]) (hpurged k).attestors.2 x
  obtain ⟨l, hl, hcases⟩ := Bonds.withdrawUnbonded_effect hbonds
  have hself := h.stash_eq stash l hl
  have hactive := (State.activeOf_eq hl).symm.trans (h.active_eq stash)
  refine ⟨fun x l' hl' => ?_, fun k a attestor ha => ?_, fun x => ?_⟩
  · rcases hcases with ⟨-, -, hledger, -⟩ | ⟨-, hwrites⟩
    · rw [hledger] at hl'
      split at hl'
      · cases hl'
      · exact h.stash_eq x l' hl'
    · rw [hwrites.ledger] at hl'
      split at hl'
      · next heq => rw [← Option.some.inj hl', heq]
      · exact h.stash_eq x l' hl'
  · rw [(hpurged k).attestors.1] at ha
    rw [(hpurged k).attestors.2]
    exact h.recorded k a attestor ha
  · rw [hbonded, ← h.active_eq]
    rcases hcases with ⟨-, hsmall, hledger, -⟩ | ⟨-, hwrites⟩
    · rw [State.activeOf, hledger, hself]
      split
      · next heq =>
        -- With attestors left, more than the deposit would be active.
        rw [heq, h.active_eq]
        by_cases hany : ∃ j b att,
            (s.chain T j).roster.attestors.lookup b = some att ∧ att.stash = stash
        · obtain ⟨j, b, att, hb, rfl⟩ := hany
          have hle := (h.collateralOf_le hb).trans (State.collateralOf_le_bonded hb)
          rw [Option.map_none, Option.getD_none]
          omega
        · rw [State.bonded_eq_zero (T := T) fun j b att hb heq => hany ⟨j, b, att, hb, heq⟩]
          rfl
      · rfl
    · rw [State.activeOf, hwrites.ledger, AttestorLedger.withdrawn_stash, hself]
      split
      · next heq =>
        rw [Option.map_some, Option.getD_some, AttestorLedger.withdrawn_active, heq,
          State.activeOf_eq hl]
      · rfl

theorem State.Backed.cleanedUp {host : Host H A} {phase : RemovedChainCleanupPhase A} {r : Roster A}
    (h : s.Backed T m) (hcleaned : CleanedUp T k host phase r s s') : s'.Backed T m := by
  obtain ⟨hstashes, hcollateral⟩ := cleanup_stashes T host k phase r
    s.retiredAttestorKeysByStash
  rw [← hcleaned.roster] at hstashes hcollateral
  refine h.congr hcleaned.ledger (fun j a => ?_) fun j => ?_
  · rcases eq_or_ne j k with rfl | hj
    · exact (hstashes a).trans (hcleaned.before.stashes a)
    · exact (hcleaned.others j hj).stashes a
  · rcases eq_or_ne j k with rfl | hj
    · exact hcollateral.trans hcleaned.before.collateral
    · exact (hcleaned.others j hj).collateral

/-- **Every action keeps the active amounts backed.** -/
theorem State.Backed.move {act : Action T} (hm : T.currency.minimumBalance ≤ m) (h : s.Backed T m)
    (hact : BondsAtLeast T m s act) (hmove : StakeMove T act s s') : s'.Backed T m := by
  cases hmove with
  | quiet hquiet => exact h.quiet hquiet
  | registered host o k stash a heq hregister =>
    subst heq
    exact h.register hact hregister
  | unregistered k stash a hquiet hremove => exact ((h.quiet hquiet).unregister hm hremove).1
  | withdrawn stash hwithdraw => exact h.withdraw hm hwithdraw
  | cleanedUp hcleaned => exact h.cleanedUp hcleaned
  | era _ _ | currency _ => exact h.congr rfl (fun _ _ => rfl) fun _ => rfl

theorem backed_genesis {gc : GenesisConfig H A B} (h : genesis T gc = some s) (m : ℕ) :
    s.Backed T m := by
  have hblank : ∀ k a, (s.chain T k).roster.attestors.lookup a = none := by
    intro k a
    rw [genesis_roster h]
    exact AList.lookup_empty a
  have hledger : s.bonds.ledger = ∅ := congrArg Bonds.ledger (genesis_frame h).1
  refine ⟨fun stash l hl => ?_, fun k a attestor ha => ?_, fun stash => ?_⟩
  · rw [hledger, AList.lookup_empty] at hl
    cases hl
  · rw [hblank] at ha
    cases ha
  · rw [State.activeOf, hledger, AList.lookup_empty,
      State.bonded_eq_zero (T := T) fun k a attestor ha => by rw [hblank] at ha; cases ha]
    rfl

/-- **An unregistration unbonds the collateral of the attestor**, whichever call it is. -/
theorem State.Backed.unbonds {act : Action T} (hm : T.currency.minimumBalance ≤ m)
    (h : s.Backed T m) (hmove : StakeMove T act s s')
    (ha : (s.chain T k).roster.attestors.lookup a = some attestor)
    (hgone : (s'.chain T k).roster.attestors.lookup a = none) :
    s'.activeOf attestor.stash + (s.chain T k).roster.collateralOf a = s.activeOf attestor.stash ∧
      ((s.chain T k).roster.collateralOf a ≠ 0 → ∃ events, s'.bonds.events =
        events ++ [.unbonded attestor.stash ((s.chain T k).roster.collateralOf a)]) := by
  -- An attestor whose stash is the same before and after is still there.
  have habsurd : ∀ r : Roster A, (r.attestors.lookup a).map (·.stash) =
      ((s.chain T k).roster.attestors.lookup a).map (·.stash) → r.attestors.lookup a ≠ none := by
    intro r hsame hnone
    rw [hnone, ha] at hsame
    cases hsame
  cases hmove with
  | quiet hquiet => exact absurd hgone (habsurd _ ((hquiet.rosters k).stashes a))
  | registered host o j stash b _ hregister =>
    obtain ⟨-, -, hothers, hroster, -⟩ := State.registerAttestor_effect hregister
    obtain ⟨-, -, -, -, hr, -⟩ := Roster.registerAttestor_effect hroster
    rcases eq_or_ne k j with rfl | hj
    · rw [congrArg Roster.attestors hr, StorageMap.lookup_insert_eq] at hgone
      split at hgone
      · cases hgone
      · rw [ha] at hgone
        cases hgone
    · rw [hothers k hj, ha] at hgone
      cases hgone
  | @unregistered s₁ _ j stash b hquiet hremove =>
    obtain ⟨-, hothers, att, hown, hroster, -⟩ := State.removeAttestor_effect hremove
    obtain ⟨hlookup, hstash, -⟩ := Roster.removableAttestor_eq_ok hown
    obtain ⟨hr, -⟩ := Roster.unregisterAttestor_effect hroster
    have hstay := habsurd _ ((hquiet.rosters k).stashes a)
    rcases eq_or_ne k j with rfl | hj
    · rw [congrArg Roster.attestors hr, StorageMap.lookup_erase_eq] at hgone
      split at hgone
      · next heq =>
        subst heq
        have hsame := (hquiet.rosters k).stashes a
        rw [hlookup, ha, Option.map_some, Option.map_some, hstash] at hsame
        obtain rfl := Option.some.inj hsame
        obtain ⟨-, hactive, hevents⟩ := (h.quiet hquiet).unregister hm hremove
        have hcollateral : (s₁.chain T k).roster.collateralOf a =
            (s.chain T k).roster.collateralOf a := by
          rw [Roster.collateralOf, Roster.collateralOf, (hquiet.rosters k).collateral]
        have hbefore : s₁.activeOf attestor.stash = s.activeOf attestor.stash := by
          rw [State.activeOf, State.activeOf, hquiet.ledger]
        rw [hcollateral] at hactive hevents
        rw [hbefore] at hactive
        refine ⟨hactive, fun hne => ?_⟩
        obtain ⟨events, hevents⟩ := hevents hne
        exact ⟨_, hevents⟩
      · exact absurd hgone hstay
    · rw [hothers k hj] at hgone
      exact absurd hgone hstay
  | withdrawn stash hwithdraw =>
    obtain ⟨-, -, hpurged⟩ := State.withdrawUnbonded_effect hwithdraw
    rw [(hpurged k).attestors.1, ha] at hgone
    cases hgone
  | @cleanedUp _ j host phase r hcleaned =>
    refine absurd hgone (habsurd _ ?_)
    rcases eq_or_ne k j with rfl | hj
    · rw [hcleaned.roster]
      exact ((cleanup_stashes T host k phase r _).1 a).trans (hcleaned.before.stashes a)
    · exact (hcleaned.others k hj).stashes a
  | era _ _ | currency _ => exact absurd hgone (habsurd (s.chain T k).roster rfl)

end States

/-! ## Reachable states -/

section Reachable

variable [DecidableEq H] {T : Config H A B} {s : State H A B}

theorem backed_of_reachable (hdeposit : T.currency.minimumBalance = 0) (hreach : Reachable T s) :
    s.Backed T 0 := by
  obtain ⟨gc, s₀, acts, hgen, rfl⟩ := hreach
  induction acts using List.reverseRecOn with
  | nil => exact backed_genesis hgen 0
  | append_singleton acts act ih =>
    rw [run_append]
    refine ih.move hdeposit.le ?_ (step_stakeMove _ act)
    unfold BondsAtLeast
    split
    · exact Nat.zero_le _
    · trivial

/-- **The active bond is the collateral of the attestors.** Without an existential deposit, in every
reachable state the active amount of a stash is the sum of what was recorded as collateral of its
registered attestors on all chains; and an action that unregisters an attestor unbonds exactly its
collateral. -/
theorem active_eq_collateral (hdeposit : T.currency.minimumBalance = 0) (hreach : Reachable T s) :
    (∀ stash, s.activeOf stash = s.bonded stash) ∧
      ∀ (act : Action T) k a attestor, (s.chain T k).roster.attestors.lookup a = some attestor →
        ((step T s act).chain T k).roster.attestors.lookup a = none →
        (step T s act).activeOf attestor.stash + (s.chain T k).roster.collateralOf a =
            s.activeOf attestor.stash ∧
          ((s.chain T k).roster.collateralOf a ≠ 0 → ∃ events, (step T s act).bonds.events =
            events ++ [.unbonded attestor.stash ((s.chain T k).roster.collateralOf a)]) := by
  have h := backed_of_reachable hdeposit hreach
  exact ⟨h.active_eq, fun act k a attestor ha hgone =>
    h.unbonds hdeposit.le (step_stakeMove s act) ha hgone⟩

/-- Two attestors of one stash, with the collateral of both active. -/
theorem devnet_active_eq_collateral :
    Devnet.bondedTwice.bonded 10 = 200_000_000_000_000_000_000 := by
  have hgenesis : (genesis Devnet.noDeposit (Devnet.genesisConfig 10 10 [])).isSome = true := by
    rfl
  have hactive : Devnet.bondedTwice.activeOf 10 = 200_000_000_000_000_000_000 := by rfl
  rw [← hactive]
  exact ((active_eq_collateral rfl (Devnet.reachable_bondedTwice hgenesis)).1 10).symm

end Reachable

end Creditcoin
