import Creditcoin.Attestation.StakeMoves

/-!
# A batch of the cleanup of a removed chain

The cleanup of a removed chain sets the attestors to idle, drops the retired keys, and clears the
key owners and the invulnerables. A batch goes through these phases until its budget runs out
(`batch_induction`). What it achieves is `Roster.CleanedTo`, and the work left becomes less. -/

namespace Creditcoin

variable {H A B : Type} [DecidableEq A]

/-! ## Where a cleanup stands -/

/-- The number of the phase; four when the cleanup is done. -/
@[simp] def cleanupStage : Option (RemovedChainCleanupPhase A) → ℕ
  | some (.chillAttestors _) => 0
  | some .retiredKeys => 1
  | some .blsKeyOwners => 2
  | some .invulnerables => 3
  | none => 4

/-- The attestors that the cleanup has not come to yet. -/
def toChill (T : Config H A B) (r : Roster A) : Option (RemovedChainCleanupPhase A) → List A
  | some (.chillAttestors cursor) => attestorsAfter T r cursor
  | _ => []

/-- What the cleanup has achieved when it stands at `phase`. The controllers that had a retired key
when the chain was removed are `gone`. -/
structure Roster.CleanedTo (T : Config H A B) (gone : A → Prop)
    (phase : Option (RemovedChainCleanupPhase A)) (r : Roster A) : Prop where
  unregistered : ∀ a, gone a → r.attestors.lookup a = none
  idle : ∀ a attestor, r.attestors.lookup a = some attestor → a ∉ toChill T r phase →
    attestor.status = .idle
  retired : 2 ≤ cleanupStage phase → ∀ a, gone a → r.retiredAttestorBlsKeys.lookup a = none
  owners : 3 ≤ cleanupStage phase → r.blsKeyOwner = ∅
  invulnerables : 4 ≤ cleanupStage phase → r.invulnerables = ∅

/-- What is left to do. The attestors count, since each of them may still leave a retired key. -/
def Roster.workAt (T : Config H A B) (r : Roster A) :
    Option (RemovedChainCleanupPhase A) → ℕ
  | none => 0
  | some phase =>
    (toChill T r (some phase)).length + r.attestors.keys.length +
      r.retiredAttestorBlsKeys.keys.length + r.blsKeyOwner.keys.length +
      r.invulnerables.keys.length + (4 - cleanupStage (some phase))

/-- The items touched on the way from one roster to another: attestors that are announced as
chilled, and rows that are removed. -/
def Roster.itemsTouched (r r' : Roster A) : ℕ :=
  (r'.events.length - r.events.length) +
    r.retiredAttestorBlsKeys.removedBy r'.retiredAttestorBlsKeys +
    r.blsKeyOwner.removedBy r'.blsKeyOwner + r.invulnerables.removedBy r'.invulnerables

/-- The host deletes no more rows than it is asked to. -/
structure Host.KeepsLimits (host : Host H A) : Prop where
  owners : ∀ limit (m : StorageMap BlsPublicKey A),
    m.removedBy (m.clearPrefix (host.blsKeyOwner limit m)).1 ≤ limit
  invulnerables : ∀ limit (m : StorageMap A Bool),
    m.removedBy (m.clearPrefix (host.invulnerables limit m)).1 ≤ limit

/-- A deletion that may delete a row and is not finished has deleted one. -/
structure Host.Progresses (host : Host H A) : Prop where
  owners : ∀ limit (m : StorageMap BlsPublicKey A), 0 < limit →
    (m.clearPrefix (host.blsKeyOwner limit m)).2 ≠ none →
    (m.clearPrefix (host.blsKeyOwner limit m)).1.keys.length < m.keys.length
  invulnerables : ∀ limit (m : StorageMap A Bool), 0 < limit →
    (m.clearPrefix (host.invulnerables limit m)).2 ≠ none →
    (m.clearPrefix (host.invulnerables limit m)).1.keys.length < m.keys.length

/-! ## The loops of the phases -/

section Loops

variable {T : Config H A B} {r r' : Roster A} {k : ChainKey} {cursor : Option A} {a : A}

theorem mem_attestorsAfter : a ∈ attestorsAfter T r cursor ↔
    (∃ attestor, r.attestors.lookup a = some attestor) ∧
      ∀ c ∈ cursor, T.accountRank c < T.accountRank a := by
  cases cursor with
  | none | some _ => simp [attestorsAfter, StorageMap.mem_iterKeys]

section

omit [DecidableEq A]

theorem attestorsAfter_sublist (T : Config H A B) (r : Roster A) (cursor : Option A) :
    (attestorsAfter T r cursor).Sublist (r.attestors.iterKeys T.accountRank) := by
  cases cursor with
  | none => exact .refl _
  | some c => exact List.filter_sublist

theorem nodup_attestorsAfter (T : Config H A B) (r : Roster A) (cursor : Option A) :
    (attestorsAfter T r cursor).Nodup :=
  (StorageMap.nodup_iterKeys _ _).sublist (attestorsAfter_sublist T r cursor)

theorem pairwise_attestorsAfter (T : Config H A B) (r : Roster A) (cursor : Option A) :
    (attestorsAfter T r cursor).Pairwise fun a b => T.accountRank a ≤ T.accountRank b :=
  (StorageMap.pairwise_iterKeys _ _).sublist (attestorsAfter_sublist T r cursor)

end

theorem length_attestorsAfter_le (cursor : Option A)
    (h : ∀ a attestor, r'.attestors.lookup a = some attestor →
      ∃ attestor', r.attestors.lookup a = some attestor') :
    (attestorsAfter T r' cursor).length ≤ (attestorsAfter T r cursor).length := by
  refine (List.Nodup.subperm (nodup_attestorsAfter T r' cursor) fun a ha => ?_).length_le
  obtain ⟨⟨attestor, hlookup⟩, hafter⟩ := mem_attestorsAfter.1 ha
  exact mem_attestorsAfter.2 ⟨h a attestor hlookup, hafter⟩

theorem restatus_chillRemoved (ids : List A) (r : Roster A) :
    Roster.Restatus (fun a old => if a ∈ ids then .idle else old) r (ids.foldl chillRemoved r) := by
  induction ids generalizing r with
  | nil => exact (Roster.Restatus.refl r).congr fun a attestor _ => rfl
  | cons b ids ih =>
    have hone : Roster.Restatus (Roster.onlyAt b .idle) r (chillRemoved r b) :=
      { Roster.restatus_setStatus r b .idle with }
    refine (hone.trans (ih _)).congr fun a attestor _ => ?_
    rw [Roster.onlyAt]
    by_cases ha : a ∈ ids <;> by_cases hb : a = b <;> simp [ha, hb]

theorem length_attestors_chillRemoved (ids : List A) (r : Roster A) :
    (ids.foldl chillRemoved r).attestors.keys.length = r.attestors.keys.length := by
  refine StorageMap.length_keys_congr fun a => ?_
  rw [(restatus_chillRemoved ids r).attestors, Option.isSome_map]

theorem length_attestorsAfter_chilled (T : Config H A B) (cursor : Option A) (budget : ℕ)
    (r : Roster A) :
    (attestorsAfter T (((attestorsAfter T r cursor).take budget).foldl chillRemoved r)
        ((((attestorsAfter T r cursor).take budget).getLast?).or cursor)).length +
      min 1 (min budget (attestorsAfter T r cursor).length) ≤
        (attestorsAfter T r cursor).length := by
  have hsame : ∀ a attestor,
      (((attestorsAfter T r cursor).take budget).foldl chillRemoved r).attestors.lookup a =
        some attestor → ∃ attestor', r.attestors.lookup a = some attestor' := by
    intro a attestor ha
    rw [(restatus_chillRemoved _ r).attestors] at ha
    obtain ⟨attestor', ha', -⟩ := Option.map_eq_some_iff.1 ha
    exact ⟨attestor', ha'⟩
  rcases hlast : ((attestorsAfter T r cursor).take budget).getLast? with _ | last
  · have hnil := List.getLast?_eq_none_iff.1 hlast
    have hlen := congrArg List.length hnil
    rw [List.length_take, List.length_nil] at hlen
    rw [Option.none_or, hlen]
    exact length_attestorsAfter_le cursor hsame
  · have hmem : last ∈ attestorsAfter T r cursor :=
      List.mem_of_mem_take (List.mem_of_getLast? hlast)
    -- Those after the last one are among the others.
    have hle : (attestorsAfter T (((attestorsAfter T r cursor).take budget).foldl chillRemoved r)
        (some last)).length ≤ ((attestorsAfter T r cursor).erase last).length := by
      refine (List.Nodup.subperm (nodup_attestorsAfter T _ _) fun a ha => ?_).length_le
      obtain ⟨⟨attestor, hlookup⟩, hafter⟩ := mem_attestorsAfter.1 ha
      have hlt := hafter last rfl
      rw [(nodup_attestorsAfter T r cursor).mem_erase_iff]
      refine ⟨fun heq => absurd (heq ▸ hlt) (lt_irrefl _), mem_attestorsAfter.2
        ⟨hsame a attestor hlookup, fun c hc => ?_⟩⟩
      exact ((mem_attestorsAfter.1 hmem).2 c hc).trans hlt
    have hpos := List.length_pos_of_mem hmem
    rw [List.length_erase_of_mem hmem] at hle
    rw [Option.some_or]
    omega

theorem length_events_chillRemoved (ids : List A) (r : Roster A) :
    (ids.foldl chillRemoved r).events.length = r.events.length + ids.length := by
  induction ids generalizing r with
  | nil => rfl
  | cons b ids ih =>
    have hone : (chillRemoved r b).events.length = r.events.length + 1 := by
      unfold chillRemoved Roster.setStatus
      split <;> simp
    rw [List.foldl_cons, ih, hone, List.length_cons]
    omega

theorem clearRetired_fst (rows : List A) (r : Roster A) (index : RetiredIndex A) :
    (rows.foldl (clearRetired k) (r, index)).1 =
      { r with retiredAttestorBlsKeys := r.retiredAttestorBlsKeys.eraseAll rows } := by
  induction rows generalizing r index with
  | nil => rfl
  | cons a rows ih =>
    have hone : (clearRetired k (r, index) a).1 =
        { r with retiredAttestorBlsKeys := r.retiredAttestorBlsKeys.erase a } := by
      unfold clearRetired
      split
      · next hnone => rw [StorageMap.erase_eq_self hnone]
      · rfl
    rw [List.foldl_cons, ih, hone]
    rfl

end Loops

/-! ## Induction over the phases -/

section Batch

variable {T : Config H A B} {host : Host H A} {k : ChainKey}

abbrev Roster.withoutRetired (r : Roster A) (rows : List A) : Roster A :=
  { r with retiredAttestorBlsKeys := r.retiredAttestorBlsKeys.eraseAll rows }

theorem length_withoutRetired (T : Config H A B) (n : ℕ) (r : Roster A) :
    (r.retiredAttestorBlsKeys.eraseAll
        ((r.retiredAttestorBlsKeys.iterKeys T.accountRank).take n)).keys.length +
      ((r.retiredAttestorBlsKeys.iterKeys T.accountRank).take n).length =
        r.retiredAttestorBlsKeys.keys.length :=
  StorageMap.length_keys_eraseAll
    ((StorageMap.nodup_iterKeys r.retiredAttestorBlsKeys T.accountRank).sublist
      (List.take_sublist n _))
    fun _ ha => (StorageMap.mem_iterKeys _ _ _).1 (List.mem_of_mem_take ha)

/-- The answer of the host to the deletion of key owners. -/
abbrev Roster.ownersCleared (host : Host H A) (budget : ℕ) (r : Roster A) :
    StorageMap BlsPublicKey A × Option Cursor :=
  r.blsKeyOwner.clearPrefix (host.blsKeyOwner budget r.blsKeyOwner)

/-- The answer of the host to the deletion of invulnerables. -/
abbrev Roster.invulnerablesCleared (host : Host H A) (budget : ℕ) (r : Roster A) :
    StorageMap A Bool × Option Cursor :=
  r.invulnerables.clearPrefix (host.invulnerables budget r.invulnerables)

/-- **Induction over the phases of a batch.** `Q budget phase r next r'` is shown for a batch that
stops in its first phase, and carried over a phase that is finished within the budget. -/
theorem batch_induction (T : Config H A B) (host : Host H A) (k : ChainKey)
    {Q : ℕ → RemovedChainCleanupPhase A → Roster A → Option (RemovedChainCleanupPhase A) →
      Roster A →
      Prop}
    (hinvulnerables : ∀ budget r, Q budget .invulnerables r
      ((r.invulnerablesCleared host budget).2.map fun _ => .invulnerables)
      { r with invulnerables := (r.invulnerablesCleared host budget).1 })
    (hownersStop : ∀ budget r, (r.ownersCleared host budget).2 ≠ none →
      Q budget .blsKeyOwners r (some .blsKeyOwners)
        { r with blsKeyOwner := (r.ownersCleared host budget).1 })
    (hownersGo : ∀ budget r next r', (r.ownersCleared host budget).2 = none →
      Q (budget - r.blsKeyOwner.removedBy (r.ownersCleared host budget).1) .invulnerables
        { r with blsKeyOwner := (r.ownersCleared host budget).1 } next r' →
      Q budget .blsKeyOwners r next r')
    (hretiredStop : ∀ budget r, budget < r.retiredAttestorBlsKeys.keys.length →
      Q budget .retiredKeys r (some .retiredKeys)
        (r.withoutRetired ((r.retiredAttestorBlsKeys.iterKeys T.accountRank).take budget)))
    (hretiredGo : ∀ budget r next r', r.retiredAttestorBlsKeys.keys.length ≤ budget →
      Q (budget - r.retiredAttestorBlsKeys.keys.length) .blsKeyOwners
        (r.withoutRetired (r.retiredAttestorBlsKeys.iterKeys T.accountRank)) next r' →
      Q budget .retiredKeys r next r')
    (hchillStop : ∀ budget cursor r, budget < (attestorsAfter T r cursor).length →
      Q budget (.chillAttestors cursor) r
        (some (.chillAttestors ((((attestorsAfter T r cursor).take budget).getLast?).or cursor)))
        (((attestorsAfter T r cursor).take budget).foldl chillRemoved r))
    (hchillGo : ∀ budget cursor r next r', (attestorsAfter T r cursor).length ≤ budget →
      Q (budget - (attestorsAfter T r cursor).length) .retiredKeys
        ((attestorsAfter T r cursor).foldl chillRemoved r) next r' →
      Q budget (.chillAttestors cursor) r next r')
    (phase : RemovedChainCleanupPhase A) (r : Roster A) (index : RetiredIndex A) :
    Q maxRemovalCleanupItemsPerBlock phase r (runRemovedChainCleanup T host k phase r index).2.2
      (runRemovedChainCleanup T host k phase r index).1 := by
  have howners : ∀ budget r, Q budget .blsKeyOwners r (cleanupBlsKeyOwners host budget r).2
      (cleanupBlsKeyOwners host budget r).1 := by
    intro budget r
    unfold cleanupBlsKeyOwners
    dsimp only
    split
    · next hsome => exact hownersStop budget r (Option.isSome_iff_ne_none.1 hsome)
    · next hnone =>
      rw [Option.not_isSome_iff_eq_none] at hnone
      exact hownersGo budget r _ _ hnone (hinvulnerables _ _)
  have hretired : ∀ budget r index, Q budget .retiredKeys r
      (cleanupRetiredKeys T host k budget r index).2.2
      (cleanupRetiredKeys T host k budget r index).1 := by
    intro budget r index
    have hlen := StorageMap.length_iterKeys r.retiredAttestorBlsKeys T.accountRank
    unfold cleanupRetiredKeys
    dsimp only
    rw [clearRetired_fst]
    split
    · next hle =>
      rw [List.take_of_length_le hle, hlen]
      exact hretiredGo budget r _ _ (hlen ▸ hle) (howners _ _)
    · next hlt => exact hretiredStop budget r (hlen ▸ not_le.1 hlt)
  cases phase with
  | chillAttestors cursor =>
    simp only [runRemovedChainCleanup, cleanupChill]
    split
    · next hle =>
      rw [List.take_of_length_le hle]
      exact hchillGo _ cursor r _ _ hle (hretired _ _ index)
    · next hlt => exact hchillStop _ cursor r (not_le.1 hlt)
  | retiredKeys => exact hretired _ r index
  | blsKeyOwners => exact howners _ r
  | invulnerables => exact hinvulnerables _ r

/-! ## What a batch achieves -/

theorem Roster.CleanedTo.early {gone : A → Prop} {phase : Option (RemovedChainCleanupPhase A)}
    {r : Roster A} (hstage : cleanupStage phase < 2)
    (hunregistered : ∀ a, gone a → r.attestors.lookup a = none)
    (hidle : ∀ a attestor, r.attestors.lookup a = some attestor → a ∉ toChill T r phase →
      attestor.status = .idle) : r.CleanedTo T gone phase :=
  ⟨hunregistered, hidle, fun h => absurd h (by omega), fun h => absurd h (by omega),
    fun h => absurd h (by omega)⟩

/-- **A batch takes the cleanup to the phase it stops in.** -/
theorem Roster.CleanedTo.batch {gone : A → Prop} {phase : RemovedChainCleanupPhase A} {r : Roster A}
    (hrank : Function.Injective T.accountRank) (h : r.CleanedTo T gone (some phase))
      (host : Host H A)
    (k : ChainKey) (index : RetiredIndex A) :
    (runRemovedChainCleanup T host k phase r index).1.CleanedTo T gone
      (runRemovedChainCleanup T host k phase r index).2.2 := by
  refine batch_induction T host k
    (Q := fun _ phase r next r' => r.CleanedTo T gone (some phase) → r'.CleanedTo T gone next)
    ?_ ?_ ?_ ?_ ?_ ?_ ?_ phase r index h
  · intro budget r h
    rcases hcleared : (r.invulnerablesCleared host budget).2 with _ | cursor
    · exact ⟨h.unregistered, h.idle, fun _ => h.retired (by simp), fun _ => h.owners (by simp),
        fun _ => StorageMap.clearPrefix_eq_empty _ _ hcleared⟩
    · refine ⟨h.unregistered, h.idle, fun _ => h.retired (by simp), fun _ => h.owners (by simp), ?_⟩
      exact fun hstage => absurd hstage (by simp)
  · intro budget r _ h
    exact ⟨h.unregistered, h.idle, fun _ => h.retired (by simp), fun hstage =>
      absurd hstage (by simp),
      fun hstage => absurd hstage (by simp)⟩
  · intro budget r next r' hcleared hq h
    exact hq ⟨h.unregistered, h.idle, fun _ => h.retired (by simp),
      fun _ => StorageMap.clearPrefix_eq_empty _ _ hcleared, fun hstage => absurd hstage (by simp)⟩
  · intro budget r _ h
    exact .early (by simp) h.unregistered h.idle
  · intro budget r next r' _ hq h
    refine hq ⟨h.unregistered, h.idle, fun _ a _ => ?_, fun hstage => absurd hstage (by simp),
      fun hstage => absurd hstage (by simp)⟩
    -- No row is left.
    dsimp only [Roster.withoutRetired]
    rw [StorageMap.lookup_eraseAll]
    split
    · rfl
    · next hmem =>
      rw [StorageMap.mem_iterKeys, not_exists] at hmem
      exact Option.eq_none_iff_forall_not_mem.2 hmem
  · intro budget cursor r _ h
    have hchilled := restatus_chillRemoved ((attestorsAfter T r cursor).take budget) r
    refine .early (by simp) (fun a ha => ?_) fun a attestor ha hafter => ?_
    · rw [hchilled.attestors, h.unregistered a ha, Option.map_none]
    · have hregistered : ∃ attestor', r.attestors.lookup a = some attestor' ∧
          { attestor' with
            status := if a ∈ (attestorsAfter T r cursor).take budget then .idle
              else attestor'.status } = attestor := by
        rw [hchilled.attestors] at ha
        exact Option.map_eq_some_iff.1 ha
      obtain ⟨attestor', ha', rfl⟩ := hregistered
      by_cases htaken : a ∈ (attestorsAfter T r cursor).take budget
      · exact if_pos htaken
      · refine (if_neg htaken).trans (h.idle a attestor' ha' fun hpending => hafter ?_)
        have hids : a ∈ attestorsAfter T r cursor := hpending
        -- An attestor that was left out comes after the last one that was chilled.
        have hdrop : a ∈ (attestorsAfter T r cursor).drop budget := by
          rw [← List.take_append_drop budget (attestorsAfter T r cursor), List.mem_append] at hids
          exact hids.resolve_left htaken
        refine mem_attestorsAfter.2 ⟨⟨_, ha⟩, fun c hc => ?_⟩
        rcases hlast : ((attestorsAfter T r cursor).take budget).getLast? with _ | last
        · rw [hlast, Option.none_or] at hc
          exact (mem_attestorsAfter.1 hids).2 c hc
        · rw [hlast, Option.some_or] at hc
          obtain rfl := Option.some.inj hc
          have hmem := List.mem_of_getLast? hlast
          have hpairs := pairwise_attestorsAfter T r cursor
          rw [← List.take_append_drop budget (attestorsAfter T r cursor),
            List.pairwise_append] at hpairs
          refine lt_of_le_of_ne (hpairs.2.2 last hmem a hdrop) fun heq => htaken ?_
          exact hrank heq ▸ hmem
  · intro budget cursor r next r' _ hq h
    have hchilled := restatus_chillRemoved (attestorsAfter T r cursor) r
    refine hq (.early (by simp) (fun a ha => ?_) fun a attestor ha _ => ?_)
    · rw [hchilled.attestors, h.unregistered a ha, Option.map_none]
    · rw [hchilled.attestors] at ha
      obtain ⟨attestor', ha', rfl⟩ := Option.map_eq_some_iff.1 ha
      dsimp only
      split
      · rfl
      · next hids => exact h.idle a attestor' ha' hids

omit [DecidableEq A] in
theorem Roster.itemsTouched_le_add (r r' r'' : Roster A) :
    r.itemsTouched r'' ≤ r.itemsTouched r' + r'.itemsTouched r'' := by
  have hretired := StorageMap.removedBy_le_add r.retiredAttestorBlsKeys r'.retiredAttestorBlsKeys
    r''.retiredAttestorBlsKeys
  have howners := StorageMap.removedBy_le_add r.blsKeyOwner r'.blsKeyOwner r''.blsKeyOwner
  have hinvulnerables := StorageMap.removedBy_le_add r.invulnerables r'.invulnerables
    r''.invulnerables
  unfold Roster.itemsTouched
  omega

theorem itemsTouched_chillRemoved (ids : List A) (r : Roster A) :
    r.itemsTouched (ids.foldl chillRemoved r) = ids.length := by
  have h := restatus_chillRemoved ids r
  have hevents := length_events_chillRemoved ids r
  rw [Roster.itemsTouched, h.retired, h.owners, h.invulnerables]
  simp only [StorageMap.removedBy_self]
  omega

theorem itemsTouched_withoutRetired_le (T : Config H A B) (n : ℕ) (r : Roster A) :
    r.itemsTouched (r.withoutRetired ((r.retiredAttestorBlsKeys.iterKeys T.accountRank).take n)) ≤
      n := by
  have hlen := length_withoutRetired T n r
  have htake := List.length_take_le n (r.retiredAttestorBlsKeys.iterKeys T.accountRank)
  have hremoved : r.retiredAttestorBlsKeys.removedBy (r.retiredAttestorBlsKeys.eraseAll
      ((r.retiredAttestorBlsKeys.iterKeys T.accountRank).take n)) ≤ n := by
    unfold StorageMap.removedBy
    omega
  unfold Roster.itemsTouched
  simpa using hremoved

/-- **A batch touches no more items than its budget.** -/
theorem itemsTouched_batch_le (hlimits : host.KeepsLimits) (phase : RemovedChainCleanupPhase A)
    (r : Roster A) (index : RetiredIndex A) :
    r.itemsTouched (runRemovedChainCleanup T host k phase r index).1 ≤
      maxRemovalCleanupItemsPerBlock := by
  refine batch_induction T host k
    (Q := fun budget _ r _ r' => r.itemsTouched r' ≤ budget) ?_ ?_ ?_ ?_ ?_ ?_ ?_ phase r index
  · intro budget r
    have hle := hlimits.invulnerables budget r.invulnerables
    unfold Roster.itemsTouched
    simpa using hle
  · intro budget r _
    have hle := hlimits.owners budget r.blsKeyOwner
    unfold Roster.itemsTouched
    simpa using hle
  · intro budget r next r' _ hq
    have hle : r.blsKeyOwner.removedBy (r.ownersCleared host budget).1 ≤ budget :=
      hlimits.owners budget r.blsKeyOwner
    have hfirst : r.itemsTouched { r with blsKeyOwner := (r.ownersCleared host budget).1 } =
        r.blsKeyOwner.removedBy (r.ownersCleared host budget).1 := by
      unfold Roster.itemsTouched
      simp
    have hadd := r.itemsTouched_le_add { r with blsKeyOwner := (r.ownersCleared host budget).1 } r'
    omega
  · exact fun budget r _ => itemsTouched_withoutRetired_le T budget r
  · intro budget r next r' hle hq
    have hfirst := itemsTouched_withoutRetired_le T r.retiredAttestorBlsKeys.keys.length r
    rw [List.take_of_length_le (StorageMap.length_iterKeys _ _).le] at hfirst
    have hadd := r.itemsTouched_le_add
      (r.withoutRetired (r.retiredAttestorBlsKeys.iterKeys T.accountRank)) r'
    omega
  · intro budget cursor r _
    rw [itemsTouched_chillRemoved]
    exact List.length_take_le _ _
  · intro budget cursor r next r' hle hq
    have hadd := r.itemsTouched_le_add ((attestorsAfter T r cursor).foldl chillRemoved r) r'
    rw [itemsTouched_chillRemoved] at hadd
    omega

/-- **A batch leaves less work**, if its host makes progress, and in any case no more. -/
theorem workAt_batch (phase : RemovedChainCleanupPhase A) (r : Roster A) (index : RetiredIndex A) :
    (runRemovedChainCleanup T host k phase r index).1.workAt T
        (runRemovedChainCleanup T host k phase r index).2.2 ≤ r.workAt T (some phase) ∧
      (host.Progresses → (runRemovedChainCleanup T host k phase r index).1.workAt T
        (runRemovedChainCleanup T host k phase r index).2.2 < r.workAt T (some phase)) := by
  have hpos : 0 < maxRemovalCleanupItemsPerBlock := by decide
  have hbatch := batch_induction T host k
    (Q := fun budget phase r next r' => r'.workAt T next ≤ r.workAt T (some phase) ∧
      (0 < budget → host.Progresses → r'.workAt T next < r.workAt T (some phase)))
    ?_ ?_ ?_ ?_ ?_ ?_ ?_ phase r index
  · exact ⟨hbatch.1, hbatch.2 hpos⟩
  · intro budget r
    have hle : (r.invulnerablesCleared host budget).1.keys.length ≤ r.invulnerables.keys.length :=
      StorageMap.length_keys_clearPrefix_le _ _
    rcases hcleared : (r.invulnerablesCleared host budget).2 with _ | cursor
    · refine ⟨Nat.zero_le _, fun _ _ => ?_⟩
      simp [Roster.workAt, cleanupStage]
    · refine ⟨?_, fun hbudget hprogress => ?_⟩
      · simp only [Roster.workAt, toChill, Option.map_some]
        omega
      · have hlt :
          (r.invulnerablesCleared host budget).1.keys.length < r.invulnerables.keys.length :=
          hprogress.invulnerables budget r.invulnerables hbudget
            (Option.ne_none_iff_exists'.2 ⟨cursor, hcleared⟩)
        simp only [Roster.workAt, toChill, Option.map_some]
        omega
  · intro budget r hcleared
    have hle : (r.ownersCleared host budget).1.keys.length ≤ r.blsKeyOwner.keys.length :=
      StorageMap.length_keys_clearPrefix_le _ _
    refine ⟨?_, fun hbudget hprogress => ?_⟩
    · simp only [Roster.workAt, toChill]
      omega
    · have hlt : (r.ownersCleared host budget).1.keys.length < r.blsKeyOwner.keys.length :=
        hprogress.owners budget r.blsKeyOwner hbudget hcleared
      simp only [Roster.workAt, toChill]
      omega
  · intro budget r next r' _ hq
    have hle : (r.ownersCleared host budget).1.keys.length ≤ r.blsKeyOwner.keys.length :=
      StorageMap.length_keys_clearPrefix_le _ _
    have hlt : Roster.workAt T { r with blsKeyOwner := (r.ownersCleared host budget).1 }
        (some .invulnerables) < r.workAt T (some .blsKeyOwners) := by
      simp only [Roster.workAt, toChill, cleanupStage]
      omega
    exact ⟨(lt_of_le_of_lt hq.1 hlt).le, fun _ _ => lt_of_le_of_lt hq.1 hlt⟩
  · intro budget r hlt
    have hlen := length_withoutRetired T budget r
    rw [List.length_take, StorageMap.length_iterKeys, min_eq_left hlt.le] at hlen
    simp only [Roster.workAt, toChill]
    exact ⟨by omega, fun hbudget _ => by omega⟩
  · intro budget r next r' _ hq
    have hlen := length_withoutRetired T r.retiredAttestorBlsKeys.keys.length r
    rw [List.take_of_length_le (StorageMap.length_iterKeys _ _).le] at hlen
    have hlt : (r.withoutRetired (r.retiredAttestorBlsKeys.iterKeys T.accountRank)).workAt T
        (some .blsKeyOwners) < r.workAt T (some .retiredKeys) := by
      simp only [Roster.workAt, toChill, cleanupStage]
      omega
    exact ⟨(lt_of_le_of_lt hq.1 hlt).le, fun _ _ => lt_of_le_of_lt hq.1 hlt⟩
  · intro budget cursor r hlt
    have h := restatus_chillRemoved ((attestorsAfter T r cursor).take budget) r
    have hlen := length_attestors_chillRemoved ((attestorsAfter T r cursor).take budget) r
    have hafter := length_attestorsAfter_chilled T cursor budget r
    simp only [Roster.workAt, toChill, h.retired, h.owners, h.invulnerables, hlen, cleanupStage]
    exact ⟨by omega, fun hbudget _ => by omega⟩
  · intro budget cursor r next r' _ hq
    have h := restatus_chillRemoved (attestorsAfter T r cursor) r
    have hlen := length_attestors_chillRemoved (attestorsAfter T r cursor) r
    have hlt : Roster.workAt T ((attestorsAfter T r cursor).foldl chillRemoved r)
        (some .retiredKeys) < r.workAt T (some (.chillAttestors cursor)) := by
      simp only [Roster.workAt, toChill, cleanupStage, h.retired, h.owners, h.invulnerables, hlen,
        List.length_nil]
      omega
    exact ⟨(lt_of_le_of_lt hq.1 hlt).le, fun _ _ => lt_of_le_of_lt hq.1 hlt⟩

end Batch

end Creditcoin
