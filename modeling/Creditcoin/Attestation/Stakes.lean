import Creditcoin.Attestation.Collateral
import Creditcoin.Attestation.Ledgers
import Creditcoin.Attestation.RetiredKeys

/-!
# Stakes and their ledgers

A stash should have a ledger as long as it has an attestor or a retired key, but a withdrawal closes
a ledger that has no chunks and too little active, whether attestors are left or not. Where every
attestor bonds something, and at least the existential deposit, no ledger is closed too early. -/

namespace Creditcoin

variable {H A B : Type} [DecidableEq A]

/-! ## Calls that need a ledger -/

section Calls

variable {T : Config H A B} {s : State H A B} {b : Bonds A B} {l : AttestorLedger A} {k : ChainKey}
  {stash a : A} {currentEra purgeAtEra bond : ℕ}

theorem AttestorLedger.pushChunk_ne_notStash {maxChunks value era : ℕ} {u : List UnlockChunk} :
    AttestorLedger.pushChunk maxChunks u value era ≠ .error .notStash := by
  unfold AttestorLedger.pushChunk
  split
  · split
    · simp
    · split <;> simp
  · split <;> simp

theorem Bonds.update_ne_notStash (h : (b.ledger.lookup l.stash).isSome = true) :
    b.update T l ≠ .error .notStash := by
  intro herr
  simp only [Bonds.update, bind_eq_error, ensure_eq_error] at herr
  rcases herr with ⟨hnone, -⟩ | ⟨_, -, hpure⟩
  · exact hnone h
  · exact pure_ne_error hpure

theorem Bonds.unbond_ne_notStash (hl : b.ledger.lookup stash = some l) (hself : l.stash = stash) :
    b.unbond T currentEra purgeAtEra stash bond ≠ .error .notStash := by
  intro herr
  simp only [Bonds.unbond, hl, okOr, bind_eq_error] at herr
  rcases herr with herr | ⟨_, hok, herr⟩
  · cases herr
  · obtain rfl := Except.ok.inj hok
    split at herr
    · exact pure_ne_error herr
    · simp only [bind_eq_error, Bonds.releaseMatured_fst] at herr
      rcases herr with herr | ⟨u, -, herr | ⟨_, -, herr⟩⟩
      · exact AttestorLedger.pushChunk_ne_notStash herr
      · refine Bonds.update_ne_notStash ?_ herr
        rw [(Bonds.releaseMatured_frame T b currentEra l).1, AttestorLedger.released_stash,
          hself, hl]
        rfl
      · exact pure_ne_error herr

theorem State.removeAttestor_ne_notStash
    (hself : ∀ l, s.bonds.ledger.lookup stash = some l → l.stash = stash)
    (hledger : ∀ attestor, (s.chain T k).roster.attestors.lookup a = some attestor →
      attestor.stash = stash → ∃ l, s.bonds.ledger.lookup stash = some l) :
    s.removeAttestor T k stash a ≠ .error .notStash := by
  intro herr
  simp only [State.removeAttestor, bind_eq_error] at herr
  rcases herr with herr | ⟨attestor, hown, herr | ⟨_, -, herr | ⟨_, -, herr⟩⟩⟩
  · simp only [Roster.removableAttestor, bind_eq_error, okOr_eq_error, ensure_eq_error] at herr
    rcases herr with ⟨-, herr⟩ | ⟨_, -, ⟨-, herr⟩ | ⟨_, -, ⟨-, herr⟩ | ⟨_, -, herr⟩⟩⟩
    · cases herr
    · cases herr
    · cases herr
    · exact pure_ne_error herr
  · obtain ⟨hlookup, hstash, -⟩ := Roster.removableAttestor_eq_ok hown
    obtain ⟨l, hl⟩ := hledger attestor hlookup hstash
    exact Bonds.unbond_ne_notStash hl (hself l hl) herr
  · simp only [Roster.unregisterAttestor, Roster.retireKey, bind_eq_error] at herr
    rcases herr with herr | ⟨_, -, herr⟩
    · split at herr
      · cases herr
      · simp only [Roster.pushRetired, bind_eq_error, ensure_eq_error] at herr
        rcases herr with (⟨-, herr⟩ | ⟨_, -, herr⟩) | ⟨_, -, herr⟩
        · cases herr
        · exact pure_ne_error herr
        · exact pure_ne_error herr
    · exact pure_ne_error herr
  · exact pure_ne_error herr

theorem Bonds.withdrawUnbonded_isOk (hl : b.ledger.lookup stash = some l)
    (hself : l.stash = stash) :
    ∃ b', b.withdrawUnbonded T currentEra stash = .ok b' := by
  have hsome : (b.ledger.lookup (l.withdrawn currentEra).stash).isSome = true := by
    rw [AttestorLedger.withdrawn_stash, hself, hl]
    rfl
  have hfold : (if 0 < currentEra then l.consolidateUnlocked currentEra else l) =
      l.withdrawn currentEra := rfl
  simp only [Bonds.withdrawUnbonded, hl, okOr, bind, Except.bind, hfold]
  split
  · simp [Bonds.killStash, hsome, ensure, bind, Except.bind, pure, Except.pure]
  · simp [Bonds.update, hsome, ensure, bind, Except.bind, pure, Except.pure]

end Calls

/-! ## Ledgers of retired keys -/

section Stakes

variable {T : Config H A B} {s s' : State H A B} {k : ChainKey} {stash a : A} {m : ℕ}

/-- The stash of a retired key has a ledger, with a chunk as long as the era of the key has not
come. -/
def State.Covered (T : Config H A B) (s : State H A B) : Prop :=
  ∀ k a entry, (s.chain T k).roster.retiredAttestorBlsKeys.lookup a = some entry →
    ∃ l, s.bonds.ledger.lookup entry.stash = some l ∧
      (s.currentEra < entry.purgeAtEra → ∃ chunk ∈ l.unlocking, chunk.era = entry.purgeAtEra)

omit [DecidableEq A] in
theorem AttestorLedger.Keeps.exists_chunk {now era : ℕ} {chunks chunks' : List UnlockChunk}
    (h : AttestorLedger.Keeps now chunks chunks')
    (hchunk : now < era → ∃ chunk ∈ chunks, chunk.era = era) (hlt : now < era) :
    ∃ chunk ∈ chunks', chunk.era = era := by
  obtain ⟨chunk, hmem, heq⟩ := hchunk hlt
  obtain ⟨chunk', hmem', heq', -⟩ := h chunk hmem (heq ▸ hlt)
  exact ⟨chunk', hmem', heq'.trans heq⟩

theorem State.Covered.keeps (h : s.Covered T) (hera : s'.currentEra = s.currentEra)
    (hkeeps : ∀ stash, Bonds.KeepsLedger s.currentEra s.bonds s'.bonds stash) {entry}
    (ha : (s.chain T k).roster.retiredAttestorBlsKeys.lookup a = some entry) :
    ∃ l, s'.bonds.ledger.lookup entry.stash = some l ∧
      (s'.currentEra < entry.purgeAtEra → ∃ chunk ∈ l.unlocking, chunk.era = entry.purgeAtEra) := by
  obtain ⟨l, hl, hchunk⟩ := h k a entry ha
  obtain ⟨l', hl', hkeep⟩ := hkeeps entry.stash l hl
  refine ⟨l', hl', ?_⟩
  rw [hera]
  exact hkeep.exists_chunk hchunk

theorem State.Covered.congr (h : s.Covered T) (hledger : s'.bonds.ledger = s.bonds.ledger)
    (hera : s'.currentEra = s.currentEra)
    (hrows : ∀ k a, (s'.chain T k).roster.retiredAttestorBlsKeys.lookup a = none ∨
      (s'.chain T k).roster.retiredAttestorBlsKeys.lookup a =
        (s.chain T k).roster.retiredAttestorBlsKeys.lookup a) : s'.Covered T := by
  intro k a entry ha
  rcases hrows k a with hnone | hsame
  · rw [hnone] at ha
    cases ha
  · exact h.keeps hera (fun stash => .of_eq hledger stash) (hsame ▸ ha)

theorem State.Covered.register (h : s.Covered T) (hsound : s.bonds.Sound T (s.purgeEra T))
    (hmin : (s.chain T k).settings.minBondRequirement ≤ u128Max)
    (hregister : s.registerAttestor T k stash a = .ok s') : s'.Covered T := by
  obtain ⟨-, hera, hothers, hroster, hbonds⟩ := State.registerAttestor_effect hregister
  obtain ⟨-, -, -, -, hr, -⟩ := Roster.registerAttestor_effect hroster
  have hkeeps := (hsound.bondForAttestor s.currentEra hmin hbonds).2
  intro j b entry hb
  refine h.keeps (k := j) (a := b) hera hkeeps ?_
  by_cases hj : j = k
  · subst hj
    have hretired : (s'.chain T j).roster.retiredAttestorBlsKeys.lookup b =
        if b = a then none else (s.chain T j).roster.retiredAttestorBlsKeys.lookup b := by
      rw [hr]
      exact Roster.lookup_forgetRetired _ a b
    rw [hretired] at hb
    split at hb
    · cases hb
    · exact hb
  · rwa [hothers j hj] at hb

theorem State.Covered.unregister (h : s.Covered T) (hsound : s.bonds.Sound T (s.purgeEra T))
    (hbacked : s.Backed T m) (hm : 0 < m) (hremove : s.removeAttestor T k stash a = .ok s') :
    s'.Covered T := by
  obtain ⟨hera, hothers, attestor, hown, hroster, hbonds⟩ := State.removeAttestor_effect hremove
  obtain ⟨hlookup, hstash, -⟩ := Roster.removableAttestor_eq_ok hown
  obtain ⟨hr, -⟩ := Roster.unregisterAttestor_effect hroster
  have hkeeps := (hsound.unbond hbonds).2
  have hretired : (s'.chain T k).roster.retiredAttestorBlsKeys =
      (s.chain T k).roster.retiredWith a stash (s.purgeEra T) attestor.blsPublicKey :=
    congrArg Roster.retiredAttestorBlsKeys hr
  -- The attestor has collateral, so a chunk is added.
  have hchunk : ∃ l, s'.bonds.ledger.lookup stash = some l ∧
      ∃ chunk ∈ l.unlocking, chunk.era = s.purgeEra T := by
    obtain ⟨bond, hbond, hle⟩ := hbacked.recorded k a attestor hlookup
    have hpart := State.collateralOf_le_bonded hlookup
    rw [Roster.collateralOf, hbond, Option.getD_some, hstash, ← hbacked.active_eq] at hpart
    rw [hbond, Option.getD_some] at hbonds
    obtain ⟨l, hl, ⟨hzero, -⟩ | ⟨-, u, value, rest, -, hpush, hwrites, -⟩⟩ :=
      Bonds.unbond_effect hbonds
    · rw [State.activeOf_eq hl] at hpart
      omega
    · refine ⟨_, (hwrites.ledger stash).trans (if_pos ?_), ?_⟩
      · exact ((AttestorLedger.released_stash _ _ _).trans (hsound.stash_eq stash l hl)).symm
      · rcases AttestorLedger.pushChunk_effect hpush with ⟨init, last, -, hlast, rfl⟩ | ⟨-, -, rfl⟩
        · exact ⟨_, List.mem_append_right _ (List.mem_singleton_self _), hlast⟩
        · exact ⟨_, List.mem_append_right _ (List.mem_singleton_self _), rfl⟩
  intro j b entry hb
  by_cases hj : j = k
  · subst hj
    rw [hretired] at hb
    unfold Roster.retiredWith at hb
    split at hb
    · exact h.keeps hera hkeeps hb
    · rw [StorageMap.lookup_insert_eq] at hb
      split at hb
      · obtain rfl := Option.some.inj hb
        obtain ⟨l, hl, hmem⟩ := hchunk
        exact ⟨l, hl, fun _ => hmem⟩
      · exact h.keeps hera hkeeps hb
  · rw [hothers j hj] at hb
    exact h.keeps hera hkeeps hb

theorem State.Covered.withdraw (h : s.Covered T) (hsound : s.bonds.Sound T (s.purgeEra T))
    (hindexed : s.Indexed T) (hwithdraw : s.withdrawUnbonded T stash = .ok s') : s'.Covered T := by
  obtain ⟨hera, hbonds, -⟩ := State.withdrawUnbonded_effect hwithdraw
  obtain ⟨hrows, -⟩ := State.withdrawUnbonded_rows hindexed hwithdraw
  have hkeeps := (hsound.withdrawUnbonded hbonds).2
  intro j b entry hb
  rw [hrows] at hb
  split at hb
  · cases hb
  · next hmatured =>
    obtain ⟨l, hl, hchunk⟩ := h j b entry hb
    obtain ⟨l', hl', hkeep⟩ : ∃ l', s'.bonds.ledger.lookup entry.stash = some l' ∧
        AttestorLedger.Keeps s.currentEra l.unlocking l'.unlocking := by
      refine hkeeps entry.stash (fun heq => ?_) l hl
      -- The era of a key of this stash that stays has not come.
      have hlt : s.currentEra < entry.purgeAtEra := by
        rw [State.matured, hb, Option.any_some] at hmatured
        simpa [heq] using hmatured
      obtain ⟨chunk, hmem, hchunkEra⟩ := hchunk hlt
      exact ⟨l, heq ▸ hl, chunk, hmem, hchunkEra ▸ hlt⟩
    refine ⟨l', hl', ?_⟩
    rw [hera]
    exact hkeep.exists_chunk hchunk

theorem State.Covered.cleanedUp {host : Host H A} {phase : RemovedChainCleanupPhase A}
    {r : Roster A}
    (h : s.Covered T) (hindexed : s.Indexed T) (hcleaned : CleanedUp T k host phase r s s') :
    s'.Covered T := by
  refine h.congr hcleaned.ledger hcleaned.era fun j a => ?_
  by_cases hj : j = k
  · subst hj
    have hbefore : ∀ a, s.retiredStash T j a = r.retiredStash a := by
      intro a
      rw [State.retiredStash, Roster.retiredStash, ← hcleaned.before.retired]
      rfl
    have hrows := (cleanup_retired T host j phase r s.retiredAttestorKeysByStash (s.retiredStash T)
      hbefore hindexed.exact).1 a
    rwa [← hcleaned.roster, hcleaned.before.retired] at hrows
  · exact .inr (by rw [(hcleaned.others j hj).retired])

end Stakes

/-! ## Runs -/

section Runs

variable [DecidableEq H] {T : Config H A B} {s s' : State H A B} {act : Action T} {m : ℕ}

/-- **Every action keeps the ledgers of retired keys**, if the attestors bond something. -/
theorem State.Covered.move (hreach : Reachable T s) (hsound : s.bonds.Sound T (s.purgeEra T))
    (hbacked : s.Backed T m) (hm : 0 < m) (hera : ErasAdvance T s act) (h : s.Covered T)
    (hmove : StakeMove T act s s') : s'.Covered T := by
  cases hmove with
  | quiet hquiet =>
    exact h.congr hquiet.ledger hquiet.era fun k a => .inr (by rw [(hquiet.rosters k).retired])
  | registered host o k stash a _ hregister =>
    obtain ⟨hsup, -⟩ := State.registerAttestor_effect hregister
    exact h.register hsound (minBond_le_of_supported hreach hsup) hregister
  | @unregistered s₁ _ k stash a hquiet hremove =>
    have h₁ : s₁.Covered T :=
      h.congr hquiet.ledger hquiet.era fun k a => .inr (by rw [(hquiet.rosters k).retired])
    have hsound₁ : s₁.bonds.Sound T (s₁.purgeEra T) := by
      rw [State.purgeEra, hquiet.era]
      exact hsound.congr hquiet.ledger
    exact h₁.unregister hsound₁ (hbacked.quiet hquiet) hm hremove
  | withdrawn stash hwithdraw => exact h.withdraw hsound (indexed_of_reachable hreach) hwithdraw
  | cleanedUp hcleaned => exact h.cleanedUp (indexed_of_reachable hreach) hcleaned
  | era era heq =>
    subst heq
    intro k a entry ha
    obtain ⟨l, hl, hchunk⟩ := h k a entry ha
    exact ⟨l, hl, fun hlt => hchunk (lt_of_le_of_lt hera hlt)⟩
  | currency tx => exact h.congr rfl rfl fun _ _ => .inr rfl

omit [DecidableEq H] in
theorem State.Backed.exists_ledger {k : ChainKey} {a : A} {attestor : Attestor A}
    (h : s.Backed T m) (hm : 0 < m) (ha : (s.chain T k).roster.attestors.lookup a = some attestor) :
    ∃ l, s.bonds.ledger.lookup attestor.stash = some l := by
  have hle := (h.collateralOf_le ha).trans (State.collateralOf_le_bonded ha)
  rw [← h.active_eq, State.activeOf] at hle
  rcases hl : s.bonds.ledger.lookup attestor.stash with _ | l
  · rw [hl, Option.map_none, Option.getD_none] at hle
    omega
  · exact ⟨l, rfl⟩

/-- What holds along a run in which eras do not go back and every attestor bonds something, and at
least the existential deposit. -/
theorem covered_of_run {gc : GenesisConfig H A B} {s₀ : State H A B} {acts : List (Action T)}
    (hgen : genesis T gc = some s₀) (heras : AlongRun (ErasAdvance T) s₀ acts)
    (hbonds : AlongRun (BondsAtLeast T (max 1 T.currency.minimumBalance)) s₀ acts) :
    (run T s₀ acts).Backed T (max 1 T.currency.minimumBalance) ∧ (run T s₀ acts).Covered T := by
  have hcovered : s₀.Covered T := by
    intro k a entry ha
    rw [genesis_roster hgen] at ha
    exact absurd ha (by simp [Roster.empty])
  have hsound : s₀.bonds.Sound T (s₀.purgeEra T) := by
    have hempty : AlongRun (ErasAdvance T) s₀ [] := trivial
    exact sound_of_run hgen hempty
  refine (AlongRun.preserves (P := fun s => (Reachable T s ∧ s.bonds.Sound T (s.purgeEra T)) ∧
    s.Backed T (max 1 T.currency.minimumBalance) ∧ s.Covered T) ?_
    ⟨⟨⟨gc, s₀, [], hgen, rfl⟩, hsound⟩, backed_genesis hgen _, hcovered⟩ (heras.and hbonds)).2
  rintro s act ⟨⟨hreach, hsound⟩, hbacked, hcovered⟩ ⟨hera, hbond⟩
  have hmove := step_stakeMove s act
  exact ⟨⟨hreach.step act, (sound_move hreach hsound hera hmove).1⟩,
    hbacked.move (le_max_right _ _) hbond hmove,
    hcovered.move hreach hsound hbacked (lt_of_lt_of_le Nat.one_pos (le_max_left _ _)) hera hmove⟩

omit [DecidableEq H] [DecidableEq A] in
theorem asSigned_ne_notStash {o : Origin A} {call : A → Except Error (State H A B)}
    (h : ∀ who, call who ≠ .error .notStash) : asSigned o call ≠ .error .notStash := by
  refine bind_ne_error ?_ h
  unfold Origin.ensureSigned
  split <;> simp

/-- **A stake has its ledger.** In every run in which eras do not go back and attestors are
registered only where the bond requirement is positive and not below the existential deposit: the
stash of a registered attestor, and the stash of a retired key, has a ledger. So no attestor fails
to be unregistered for want of a ledger, and a withdrawal releases the retired keys whose era has
come. -/
theorem stake_has_ledger {gc : GenesisConfig H A B} {s₀ : State H A B} {acts : List (Action T)}
    (hgen : genesis T gc = some s₀) (heras : AlongRun (ErasAdvance T) s₀ acts)
    (hbonds : AlongRun (BondsAtLeast T (max 1 T.currency.minimumBalance)) s₀ acts)
    (hs : s = run T s₀ acts) (host : Host H A) (k : ChainKey) (a : A) :
    (∀ attestor, (s.chain T k).roster.attestors.lookup a = some attestor →
        (s.bonds.ledger.lookup attestor.stash).isSome = true) ∧
      (∀ entry, (s.chain T k).roster.retiredAttestorBlsKeys.lookup a = some entry →
        (s.bonds.ledger.lookup entry.stash).isSome = true) ∧
      (∀ o, dispatch T host s o (.unregisterAttestor k a) ≠ .error .notStash) ∧
      (∀ o, dispatch T host s o (.kickActiveAttestor k a true) ≠ .error .notStash) ∧
      ∀ entry, (s.chain T k).roster.retiredAttestorBlsKeys.lookup a = some entry →
        entry.purgeAtEra ≤ s.currentEra →
        ∃ s', dispatch T host s (.signed entry.stash) .withdrawUnbonded = .ok s' ∧
          (s'.chain T k).roster.retiredAttestorBlsKeys.lookup a = none ∧
          (s'.chain T k).roster.blsKeyOwner.lookup entry.blsPublicKey ≠ some a := by
  have hreach : Reachable T s := ⟨gc, s₀, acts, hgen, hs.symm⟩
  obtain ⟨hbacked, hcovered⟩ := covered_of_run hgen heras hbonds
  rw [← hs] at hbacked hcovered
  have hpos : 0 < max 1 T.currency.minimumBalance := lt_of_lt_of_le Nat.one_pos (le_max_left _ _)
  have hremove : ∀ (s₁ : State H A B) stash, Quiet T s s₁ →
      s₁.removeAttestor T k stash a ≠ .error .notStash := by
    intro s₁ stash hquiet
    have hbacked₁ := hbacked.quiet hquiet
    refine State.removeAttestor_ne_notStash (hbacked₁.stash_eq stash) fun attestor ha hstash => ?_
    rw [← hstash]
    exact hbacked₁.exists_ledger hpos ha
  refine ⟨fun attestor ha => ?_, fun entry ha => ?_, fun o => ?_, fun o => ?_,
    fun entry ha hera => ?_⟩
  · obtain ⟨l, hl⟩ := hbacked.exists_ledger hpos ha
    rw [hl]
    rfl
  · obtain ⟨l, hl, -⟩ := hcovered k a entry ha
    rw [hl]
    rfl
  · exact asSigned_ne_notStash fun who => hremove s who (.refl s)
  · refine bind_ne_error (ensure_ne_error (by decide)) fun _ => ?_
    refine bind_ne_error (okOr_ne_error (by decide)) fun attestor => ?_
    exact hremove _ attestor.stash
      (quiet_setRoster (Roster.restatus_doChillAttestorImmediate _ a).sameStakes)
  · obtain ⟨l, hl, -⟩ := hcovered k a entry ha
    obtain ⟨bonds, hwithdraw⟩ :=
      Bonds.withdrawUnbonded_isOk (T := T) (b := s.bonds) hl (hbacked.stash_eq _ l hl)
    have hok : s.withdrawUnbonded T entry.stash =
        .ok { s.purgeRetiredBlsKeysForStash T entry.stash with bonds := bonds } := by
      rw [State.withdrawUnbonded, hwithdraw]
      rfl
    have hmatured : s.matured T entry.stash s.currentEra (k, a) = true := by
      rw [State.matured, ha, Option.any_some, decide_eq_true_eq]
      exact ⟨rfl, hera⟩
    have hgone := (State.withdrawUnbonded_rows (indexed_of_reachable hreach) hok).1 k a
    rw [if_pos hmatured] at hgone
    exact ⟨_, hok, hgone, ((State.withdrawUnbonded_effect hok).2.2 k).released ha hgone⟩

section Devnet

open Devnet

/-- The key of an attestor that bonded is released once its era has come. -/
theorem devnet_stake_has_ledger : ∃ entry s',
    (retired.chain config 1).roster.retiredAttestorBlsKeys.lookup 1 = some entry ∧
      dispatch config host retired (.signed entry.stash) .withdrawUnbonded = .ok s' ∧
      (s'.chain config 1).roster.retiredAttestorBlsKeys.lookup 1 = none := by
  have heras : AlongRun (ErasAdvance config) (genesisState (genesisConfig 10 10 [])) retiring := by
    refine ⟨trivial, trivial, trivial, trivial, ?_, trivial⟩
    show State.currentEra _ ≤ 2
    decide +kernel
  have hbonds : AlongRun (BondsAtLeast config 500)
      (genesisState (genesisConfig 10 10 [])) retiring := by
    refine ⟨?_, trivial, trivial, trivial, trivial, trivial⟩
    show 500 ≤ Settings.minBondRequirement _
    decide +kernel
  have hentry : (retired.chain config 1).roster.retiredAttestorBlsKeys.lookup 1 = some _ := rfl
  obtain ⟨s', hs', hgone, -⟩ :=
    (stake_has_ledger (genesis_eq_genesisState (by rfl)) heras hbonds rfl host 1 1).2.2.2.2
      _ hentry (by decide +kernel)
  exact ⟨_, s', hentry, hs', hgone⟩

/-- Without a bond requirement a withdrawal closes the ledger of a stash that has an attestor, which
can then not be unregistered; and the ledger of a stash that has a retired key, which is then never
released. -/
theorem exists_stake_without_ledger : (∃ s attestor, Reachable config s ∧
      (s.chain config 1).roster.attestors.lookup 1 = some attestor ∧ attestor.status = .idle ∧
      s.bonds.ledger.lookup attestor.stash = none ∧
      dispatch config host s (.signed attestor.stash) (.unregisterAttestor 1 1) =
        .error .notStash) ∧
    ∃ s entry, Reachable config s ∧
      (s.chain config 1).roster.retiredAttestorBlsKeys.lookup 1 = some entry ∧
      entry.purgeAtEra ≤ s.currentEra ∧ s.bonds.ledger.lookup entry.stash = none ∧
      dispatch config host s (.signed entry.stash) .withdrawUnbonded = .error .notStash := by
  refine ⟨⟨unbacked, _, reachable_genesisRun (by rfl) _, rfl, rfl, rfl,
      eq_error_of_failure (by rfl)⟩,
    stranded, _, reachable_genesisRun (by rfl) _, rfl, ?_, rfl, eq_error_of_failure (by rfl)⟩
  decide +kernel

end Devnet

end Runs

end Creditcoin
