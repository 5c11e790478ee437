import Creditcoin.Attestation.BondEffects
import Creditcoin.Attestation.SettingsBounds

/-!
# Ledgers, locks and references

What a stash has staked stands in its ledger, as a lock in the currency, and as a reference that
keeps its account alive. Each ledger adds up, with its chunks in the order of their eras
(`Bonds.Sound`), and locks and references agree with the ledgers (`Bonds.Locked`), as long as eras
do not go back. -/

namespace Creditcoin

variable {H A B : Type} [DecidableEq A]

/-! ## What is assumed of the currency -/

/-- The lock of this pallet and its references, `consumers`, are changed by its own calls only. A
lock of zero is not set. -/
structure Currency.Lawful (cur : Currency A B) (consumers : B → A → ℕ) : Prop where
  bondLock_setLock : ∀ b a amount x, cur.bondLock (cur.setLock b a amount) x =
    if x = a ∧ amount ≠ 0 then amount else cur.bondLock b x
  bondLock_removeLock : ∀ b a x, cur.bondLock (cur.removeLock b a) x =
    if x = a then 0 else cur.bondLock b x
  bondLock_transfer : ∀ b a a' amount b', cur.transfer b a a' amount = some b' →
    cur.bondLock b' = cur.bondLock b
  bondLock_incConsumers :
    ∀ b a b', cur.incConsumers b a = some b' → cur.bondLock b' = cur.bondLock b
  bondLock_decConsumers : ∀ b a, cur.bondLock (cur.decConsumers b a) = cur.bondLock b
  bondLock_exec : ∀ tx b, cur.bondLock (cur.exec tx b) = cur.bondLock b
  consumers_setLock : ∀ b a amount, consumers (cur.setLock b a amount) = consumers b
  consumers_removeLock : ∀ b a, consumers (cur.removeLock b a) = consumers b
  consumers_transfer : ∀ b a a' amount b', cur.transfer b a a' amount = some b' →
    consumers b' = consumers b
  consumers_incConsumers : ∀ b a b', cur.incConsumers b a = some b' →
    ∀ x, consumers b' x = if x = a then consumers b x + 1 else consumers b x
  consumers_decConsumers : ∀ b a x, consumers (cur.decConsumers b a) x =
    if x = a then consumers b x - 1 else consumers b x
  consumers_exec : ∀ tx b, consumers (cur.exec tx b) = consumers b

/-! ## Chunks -/

namespace AttestorLedger

variable {T : Config H A B} {l : AttestorLedger A} {latest latest' currentEra : ℕ}

@[simp] theorem unlockingTotal_append (u u' : List UnlockChunk) :
    unlockingTotal (u ++ u') = unlockingTotal u + unlockingTotal u' := by
  simp [unlockingTotal]

@[simp] theorem unlockingTotal_singleton (chunk : UnlockChunk) :
    unlockingTotal [chunk] = chunk.value := by
  simp [unlockingTotal]

theorem foldl_sub_value (u : List UnlockChunk) (n : ℕ) :
    u.foldl (fun total chunk => total - chunk.value) n = n - unlockingTotal u := by
  induction u generalizing n with
  | nil => rfl
  | cons chunk u ih =>
    rw [List.foldl_cons, ih, unlockingTotal, unlockingTotal, List.map_cons, List.sum_cons]
    omega

theorem unlockingTotal_filter (u : List UnlockChunk) (currentEra : ℕ) :
    unlockingTotal (u.filter fun chunk => chunk.era ≤ currentEra) +
      unlockingTotal (u.filter fun chunk => currentEra < chunk.era) = unlockingTotal u := by
  induction u with
  | nil => rfl
  | cons chunk u ih =>
    have hcons : unlockingTotal (chunk :: u) = chunk.value + unlockingTotal u := by
      simp [unlockingTotal]
    rw [hcons, List.filter_cons, List.filter_cons]
    by_cases hfree : chunk.era ≤ currentEra
    · rw [if_pos (decide_eq_true hfree), if_neg (by simpa using hfree), ← ih]
      simp [unlockingTotal, Nat.add_assoc]
    · rw [if_neg (by simpa using hfree), if_pos (by simpa using hfree), ← ih]
      simp [unlockingTotal]
      omega

theorem pushChunk_effect {maxChunks value era : ℕ} {u u' : List UnlockChunk}
    (h : pushChunk maxChunks u value era = .ok u') :
    (∃ init last, u = init ++ [last] ∧ last.era = era ∧
        u' = init ++ [{ last with value := satAdd u128Max last.value value }]) ∨
      (∀ last ∈ u.getLast?, last.era ≠ era) ∧ u.length < maxChunks ∧ u' = u ++ [⟨value, era⟩] := by
  unfold pushChunk at h
  split at h
  · next last hlast =>
    rw [List.getLast?_eq_some_iff] at hlast
    obtain ⟨init, rfl⟩ := hlast
    split at h
    · next hera =>
      rw [List.dropLast_concat] at h
      exact .inl ⟨init, last, rfl, hera, (Except.ok.inj h).symm⟩
    · next hera =>
      split at h
      · next hlen =>
        refine .inr ⟨fun last' hlast' => ?_, hlen, (Except.ok.inj h).symm⟩
        rw [List.getLast?_concat] at hlast'
        exact Option.some.inj hlast' ▸ hera
      · cases h
  · next hnone =>
    split at h
    · next hlen =>
      refine .inr ⟨fun last hlast => ?_, hlen, (Except.ok.inj h).symm⟩
      rw [hnone] at hlast
      cases hlast
    · cases h

/-! ## Sound ledgers -/

/-- The ledger adds up, and its chunks are in the order of their eras, none after `latest`. -/
structure Sound (T : Config H A B) (latest : ℕ) (l : AttestorLedger A) : Prop where
  total_eq : l.totalStaked = l.active + unlockingTotal l.unlocking
  total_le : l.totalStaked ≤ u128Max
  increasing : l.unlocking.Pairwise fun chunk chunk' => chunk.era < chunk'.era
  era_le : ∀ chunk ∈ l.unlocking, chunk.era ≤ latest
  length_le : l.unlocking.length ≤ T.maxUnlockingChunks
  value_pos : ∀ chunk ∈ l.unlocking, 0 < chunk.value

/-- The chunks that are not free yet are kept, each with at least its value. -/
def Keeps (currentEra : ℕ) (u u' : List UnlockChunk) : Prop :=
  ∀ chunk ∈ u, currentEra < chunk.era →
    ∃ chunk' ∈ u', chunk'.era = chunk.era ∧ chunk.value ≤ chunk'.value

omit [DecidableEq A]

theorem Keeps.refl (u : List UnlockChunk) : Keeps currentEra u u :=
  fun chunk hchunk _ => ⟨chunk, hchunk, rfl, le_rfl⟩

theorem Keeps.trans {u u' u'' : List UnlockChunk} (h : Keeps currentEra u u')
    (h' : Keeps currentEra u' u'') : Keeps currentEra u u'' := by
  intro chunk hchunk hera
  obtain ⟨chunk', hchunk', hera', hle⟩ := h chunk hchunk hera
  obtain ⟨chunk'', hchunk'', hera'', hle'⟩ := h' chunk' hchunk' (hera' ▸ hera)
  exact ⟨chunk'', hchunk'', hera''.trans hera', hle.trans hle'⟩

theorem Sound.new (stash : A) {stake : ℕ} (h : stake ≤ u128Max) :
    (new stash stake).Sound T latest where
  total_eq := rfl
  total_le := h
  increasing := .nil
  era_le _ hchunk := absurd hchunk List.not_mem_nil
  length_le := Nat.zero_le _
  value_pos _ hchunk := absurd hchunk List.not_mem_nil

theorem Sound.mono (h : l.Sound T latest) (hle : latest ≤ latest') : l.Sound T latest' :=
  { h with era_le := fun chunk hchunk => (h.era_le chunk hchunk).trans hle }

theorem Sound.consolidateUnlocked (h : l.Sound T latest) :
    (l.consolidateUnlocked currentEra).Sound T latest := by
  have hsub : (l.consolidateUnlocked currentEra).unlocking.Sublist l.unlocking :=
    List.filter_sublist
  have htotal : (l.consolidateUnlocked currentEra).totalStaked = l.active +
      unlockingTotal (l.consolidateUnlocked currentEra).unlocking := by
    simp only [AttestorLedger.consolidateUnlocked, foldl_sub_value, h.total_eq]
    have hall := unlockingTotal_filter l.unlocking currentEra
    omega
  refine ⟨htotal, ?_, h.increasing.sublist hsub, ?_, hsub.length_le.trans h.length_le, ?_⟩
  · have hle : (l.consolidateUnlocked currentEra).totalStaked ≤ l.totalStaked := by
      simp only [AttestorLedger.consolidateUnlocked, foldl_sub_value]
      exact Nat.sub_le _ _
    exact hle.trans h.total_le
  · exact fun chunk hchunk => h.era_le chunk (hsub.subset hchunk)
  · exact fun chunk hchunk => h.value_pos chunk (hsub.subset hchunk)

theorem keeps_consolidateUnlocked (l : AttestorLedger A) (currentEra : ℕ) :
    Keeps currentEra l.unlocking (l.consolidateUnlocked currentEra).unlocking :=
  fun chunk hchunk hera => ⟨chunk, List.mem_filter.2 ⟨hchunk, decide_eq_true hera⟩, rfl, le_rfl⟩

theorem Sound.released (h : l.Sound T latest) : (l.released T currentEra).Sound T latest := by
  rcases released_cases T currentEra l with heq | ⟨heq, -⟩
  · exact heq ▸ h.consolidateUnlocked
  · rwa [heq]

theorem keeps_released (T : Config H A B) (l : AttestorLedger A) (currentEra : ℕ) :
    Keeps currentEra l.unlocking (l.released T currentEra).unlocking := by
  rcases released_cases T currentEra l with heq | ⟨heq, -⟩
  · exact heq ▸ keeps_consolidateUnlocked l currentEra
  · rw [heq]
    exact .refl _

theorem Sound.withdrawn (h : l.Sound T latest) : (l.withdrawn currentEra).Sound T latest := by
  rcases withdrawn_cases currentEra l with heq | heq
  · exact heq ▸ h.consolidateUnlocked
  · rwa [heq]

theorem keeps_withdrawn (l : AttestorLedger A) (currentEra : ℕ) :
    Keeps currentEra l.unlocking (l.withdrawn currentEra).unlocking := by
  rcases withdrawn_cases currentEra l with heq | heq
  · exact heq ▸ keeps_consolidateUnlocked l currentEra
  · rw [heq]
    exact .refl _

theorem Sound.bondExtra {bond : ℕ} (h : l.Sound T latest) (hmax : l.totalStaked + bond ≤ u128Max) :
    Sound T latest
      { l with totalStaked := l.totalStaked + bond, active := l.active + bond } where
  total_eq := by
    dsimp only
    rw [h.total_eq]
    omega
  total_le := hmax
  increasing := h.increasing
  era_le := h.era_le
  length_le := h.length_le
  value_pos := h.value_pos

/-- A ledger with a chunk of the latest era after chunks of earlier ones. -/
theorem Sound.concat {init : List UnlockChunk} {chunk : UnlockChunk} {rest : ℕ}
    (h : l.Sound T latest) (hinit : init.Sublist l.unlocking) (hera : chunk.era = latest)
    (hlt : ∀ c ∈ init, c.era < latest) (hpos : 0 < chunk.value)
    (hlen : init.length + 1 ≤ T.maxUnlockingChunks)
    (htotal : l.totalStaked = rest + (unlockingTotal init + chunk.value)) :
    Sound T latest { l with active := rest, unlocking := init ++ [chunk] } where
  total_eq := by
    dsimp only
    rw [unlockingTotal_append, unlockingTotal_singleton]
    exact htotal
  total_le := h.total_le
  increasing := by
    refine List.pairwise_append.2 ⟨h.increasing.sublist hinit, List.pairwise_singleton _ _, ?_⟩
    intro c hc c' hc'
    rw [List.mem_singleton.1 hc', hera]
    exact hlt c hc
  era_le c hc := by
    rcases List.mem_append.1 hc with hold | hnew
    · exact (hlt c hold).le
    · exact List.mem_singleton.1 hnew ▸ hera.le
  length_le := by
    rw [List.length_append, List.length_singleton]
    exact hlen
  value_pos c hc := by
    rcases List.mem_append.1 hc with hold | hnew
    · exact h.value_pos c (hinit.subset hold)
    · exact List.mem_singleton.1 hnew ▸ hpos

/-- **Unbonding keeps a ledger sound.** The chunks so far are of the era of the new one or of an
earlier one, and the sum of two chunks stays within what is staked. -/
theorem Sound.unbond {value rest : ℕ} {u : List UnlockChunk} (h : l.Sound T latest)
    (currentEra : ℕ) (hsplit : value + rest = l.active) (hpos : 0 < value)
    (hpush : pushChunk T.maxUnlockingChunks l.unlocking value latest = .ok u) :
    Sound T latest { l with active := rest, unlocking := u } ∧ Keeps currentEra l.unlocking u := by
  have htotal := h.total_eq
  have hmax := h.total_le
  have hinc := h.increasing
  rcases pushChunk_effect hpush with ⟨init, last, hu, hera, rfl⟩ | ⟨hlast, hlen, rfl⟩
  · have hlen := h.length_le
    rw [hu, List.pairwise_append] at hinc
    rw [hu, List.length_append, List.length_singleton] at hlen
    rw [hu, unlockingTotal_append, unlockingTotal_singleton] at htotal
    have hsat : satAdd u128Max last.value value = last.value + value :=
      satAdd_of_le (by omega)
    rw [hsat]
    have hinit : init.Sublist l.unlocking := hu ▸ List.sublist_append_left _ _
    refine ⟨h.concat hinit hera (fun c hc => ?_) (Nat.add_pos_right _ hpos) hlen
      (by dsimp only; omega), fun chunk hchunk _ => ?_⟩
    · rw [← hera]
      exact hinc.2.2 c hc last (List.mem_singleton_self _)
    · rw [hu] at hchunk
      rcases List.mem_append.1 hchunk with hinit | hnew
      · exact ⟨chunk, List.mem_append_left _ hinit, rfl, le_rfl⟩
      · rw [List.mem_singleton.1 hnew]
        exact ⟨_, List.mem_append_right _ (List.mem_singleton_self _), rfl, Nat.le_add_right _ _⟩
  · refine ⟨h.concat (.refl _) rfl (fun c hc => ?_) hpos hlen (by dsimp only; omega),
      fun chunk hchunk _ => ⟨chunk, List.mem_append_left _ hchunk, rfl, le_rfl⟩⟩
    -- The last chunk is of an earlier era, and the others are before it.
    obtain ⟨init, last, hu⟩ : ∃ init last, l.unlocking = init ++ [last] :=
      List.eq_nil_or_concat' l.unlocking |>.resolve_left (List.ne_nil_of_mem hc)
    have hlt : last.era < latest := by
      have hmem : last ∈ l.unlocking := hu ▸ List.mem_append_right _ (List.mem_singleton_self _)
      exact lt_of_le_of_ne (h.era_le last hmem)
        (hlast last (by rw [hu, List.getLast?_concat]; rfl))
    rw [hu, List.pairwise_append] at hinc
    rw [hu] at hc
    rcases List.mem_append.1 hc with hinit | hnew
    · exact (hinc.2.2 c hinit last (List.mem_singleton_self _)).trans hlt
    · exact List.mem_singleton.1 hnew ▸ hlt

theorem Sound.unlocking_eq_nil (h : l.Sound T latest) (hzero : l.totalStaked = 0) :
    l.unlocking = [] := by
  have htotal := h.total_eq
  rw [hzero] at htotal
  rcases hu : l.unlocking with _ | ⟨chunk, u⟩
  · rfl
  · have hpos := h.value_pos chunk (by rw [hu]; exact List.mem_cons_self)
    have hsum : unlockingTotal (chunk :: u) = chunk.value + unlockingTotal u := by
      simp [unlockingTotal]
    rw [hu, hsum] at htotal
    omega

end AttestorLedger

/-! ## All ledgers -/

namespace Bonds

variable {T : Config H A B} {b b' : Bonds A B} {latest latest' : ℕ} {stash attestorId : A}
  {l : AttestorLedger A} {bond minBond currentEra : ℕ}

/-- Every ledger is sound, and stands under its own stash. -/
structure Sound (T : Config H A B) (latest : ℕ) (b : Bonds A B) : Prop where
  stash_eq : ∀ stash l, b.ledger.lookup stash = some l → l.stash = stash
  sound : ∀ stash l, b.ledger.lookup stash = some l → l.Sound T latest

/-- The ledger of the stash stays, with the chunks that are not free yet. -/
def KeepsLedger (currentEra : ℕ) (b b' : Bonds A B) (stash : A) : Prop :=
  ∀ l, b.ledger.lookup stash = some l → ∃ l', b'.ledger.lookup stash = some l' ∧
    AttestorLedger.Keeps currentEra l.unlocking l'.unlocking

theorem Sound.mono (h : b.Sound T latest) (hle : latest ≤ latest') : b.Sound T latest' :=
  ⟨h.stash_eq, fun stash l hl => (h.sound stash l hl).mono hle⟩

theorem Sound.congr (h : b.Sound T latest) (hledger : b'.ledger = b.ledger) : b'.Sound T latest :=
  ⟨fun stash l hl => h.stash_eq stash l (hledger ▸ hl),
    fun stash l hl => h.sound stash l (hledger ▸ hl)⟩

theorem KeepsLedger.of_eq (h : b'.ledger = b.ledger) (stash : A) :
    KeepsLedger currentEra b b' stash :=
  fun l hl => ⟨l, h ▸ hl, .refl _⟩

theorem Sound.writes (h : b.Sound T latest) (hsound : l.Sound T latest)
    (hwrites : Writes T b b' l) :
    b'.Sound T latest := by
  refine ⟨fun x m hm => ?_, fun x m hm => ?_⟩
  · rw [hwrites.ledger] at hm
    split at hm
    · next heq => rw [← Option.some.inj hm, heq]
    · exact h.stash_eq x m hm
  · rw [hwrites.ledger] at hm
    split at hm
    · exact Option.some.inj hm ▸ hsound
    · exact h.sound x m hm

theorem Writes.keepsLedger {l' : AttestorLedger A} (hwrites : Writes T b b' l')
    (hl : b.ledger.lookup l'.stash = some l)
    (hkeeps : AttestorLedger.Keeps currentEra l.unlocking l'.unlocking) (x : A) :
    KeepsLedger currentEra b b' x := by
  intro m hm
  rw [hwrites.ledger]
  split
  · next heq =>
    rw [heq, hl] at hm
    exact ⟨l', rfl, Option.some.inj hm ▸ hkeeps⟩
  · exact ⟨m, hm, .refl _⟩

theorem Sound.bondForAttestor (h : b.Sound T latest) (currentEra : ℕ) (hmin : minBond ≤ u128Max)
    (hbond : b.bondForAttestor T minBond stash attestorId = .ok b') :
    b'.Sound T latest ∧ ∀ x, KeepsLedger currentEra b b' x := by
  obtain ⟨funded, -, ⟨hnone, hledger, -⟩ | ⟨l, hl, hmax, hwrites⟩⟩ := bondForAttestor_effect hbond
  · refine ⟨⟨fun x m hm => ?_, fun x m hm => ?_⟩, fun x m hm => ⟨m, ?_, .refl _⟩⟩
    · rw [hledger] at hm
      split at hm
      · next heq => rw [← Option.some.inj hm, heq, AttestorLedger.new]
      · exact h.stash_eq x m hm
    · rw [hledger] at hm
      split at hm
      · exact Option.some.inj hm ▸ .new stash hmin
      · exact h.sound x m hm
    · rw [hledger, if_neg]
      · exact hm
      · rintro rfl
        rw [hnone] at hm
        cases hm
  · have hself : b.ledger.lookup l.stash = some l := h.stash_eq stash l hl ▸ hl
    have hfund : Sound T latest { b with balances := funded } := h.congr rfl
    exact ⟨hfund.writes ((h.sound stash l hl).bondExtra hmax) hwrites,
      hwrites.keepsLedger hself (.refl _)⟩

theorem Sound.unbond (h : b.Sound T latest)
    (hunbond : b.unbond T currentEra latest stash bond = .ok b') :
    b'.Sound T latest ∧ ∀ x, KeepsLedger currentEra b b' x := by
  obtain ⟨l, hl, ⟨-, rfl⟩ | ⟨hpos, unlocking, value, rest, hsplit, hpush, hwrites, -⟩⟩ :=
    unbond_effect hunbond
  · exact ⟨h, .of_eq rfl⟩
  · have hself : b.ledger.lookup (l.released T currentEra).stash = some l := by
      rw [AttestorLedger.released_stash, h.stash_eq stash l hl]
      exact hl
    have hvalue : 0 < value ∧ value + rest = l.active := by omega
    have hreleased : (l.released T currentEra).Sound T latest := (h.sound stash l hl).released
    obtain ⟨hsound, hkeeps⟩ := hreleased.unbond currentEra
      (hvalue.2.trans (AttestorLedger.released_active _ _ _).symm) hvalue.1 hpush
    exact ⟨h.writes hsound hwrites,
      hwrites.keepsLedger hself ((AttestorLedger.keeps_released T l currentEra).trans hkeeps)⟩

/-- Withdrawing releases the chunks that are free. It closes the ledger of the stash only when no
chunk is left. -/
theorem Sound.withdrawUnbonded (h : b.Sound T latest)
    (hwithdraw : b.withdrawUnbonded T currentEra stash = .ok b') :
    b'.Sound T latest ∧ ∀ x, (x = stash → ∃ l, b.ledger.lookup stash = some l ∧
      ∃ chunk ∈ l.unlocking, currentEra < chunk.era) → KeepsLedger currentEra b b' x := by
  obtain ⟨l, hl, ⟨hnil, hsmall, hledger, -⟩ | ⟨-, hwrites⟩⟩ := withdrawUnbonded_effect hwithdraw
  · rw [h.stash_eq stash l hl] at hledger
    refine ⟨⟨fun x m hm => ?_, fun x m hm => ?_⟩, fun x hlate m hm => ?_⟩
    · rw [hledger] at hm
      split at hm
      · cases hm
      · exact h.stash_eq x m hm
    · rw [hledger] at hm
      split at hm
      · cases hm
      · exact h.sound x m hm
    · rw [hledger, if_neg]
      · exact ⟨m, hm, .refl _⟩
      · intro heq
        obtain ⟨l', hl', chunk, hchunk, hera⟩ := hlate heq
        rw [hl] at hl'
        obtain rfl := Option.some.inj hl'
        obtain ⟨chunk', hchunk', -⟩ := AttestorLedger.keeps_withdrawn l currentEra chunk hchunk hera
        rw [hnil] at hchunk'
        cases hchunk'
  · have hself : b.ledger.lookup (l.withdrawn currentEra).stash = some l := by
      rw [AttestorLedger.withdrawn_stash, h.stash_eq stash l hl]
      exact hl
    exact ⟨h.writes (h.sound stash l hl).withdrawn hwrites, fun x _ =>
      hwrites.keepsLedger hself (AttestorLedger.keeps_withdrawn l currentEra) x⟩

/-! ## Locks and references -/

/-- What a stash has staked, zero without a ledger. -/
def totalOf (b : Bonds A B) (stash : A) : ℕ :=
  ((b.ledger.lookup stash).map (·.totalStaked)).getD 0

/-- The locks and references are those of the ledgers. -/
structure Locked (T : Config H A B) (consumers : B → A → ℕ) (b : Bonds A B) : Prop where
  lock_eq : ∀ stash, T.currency.bondLock b.balances stash = b.totalOf stash
  consumers_eq : ∀ stash, consumers b.balances stash =
    if (b.ledger.lookup stash).isSome = true then 1 else 0

variable {consumers : B → A → ℕ}

theorem Locked.congr (h : b.Locked T consumers) (hledger : b'.ledger = b.ledger)
    (hlock : T.currency.bondLock b'.balances = T.currency.bondLock b.balances)
    (hconsumers : consumers b'.balances = consumers b.balances) : b'.Locked T consumers where
  lock_eq stash := by
    rw [hlock, totalOf, hledger]
    exact h.lock_eq stash
  consumers_eq stash := by
    rw [hconsumers, hledger]
    exact h.consumers_eq stash

variable (hcur : T.currency.Lawful consumers)
include hcur

/-- Writing a ledger over another one keeps the lock right. A lock that falls to zero would stay, so
what is staked must not. -/
theorem Locked.writes {l' : AttestorLedger A} (h : b.Locked T consumers)
    (hl : b.ledger.lookup l'.stash = some l) (hzero : l'.totalStaked = 0 → l.totalStaked = 0)
    (hwrites : Writes T b b' l') : b'.Locked T consumers := by
  refine ⟨fun x => ?_, fun x => ?_⟩
  · rw [hwrites.balances, hcur.bondLock_setLock, totalOf, hwrites.ledger]
    rcases eq_or_ne x l'.stash with rfl | hne
    · rw [if_pos rfl, Option.map_some, Option.getD_some]
      by_cases hne : l'.totalStaked = 0
      · rw [if_neg (by simp [hne]), hne, h.lock_eq, totalOf, hl, Option.map_some, Option.getD_some]
        exact hzero hne
      · rw [if_pos ⟨rfl, hne⟩]
    · rw [if_neg (fun hand => hne hand.1), if_neg hne]
      exact h.lock_eq x
  · rw [hwrites.balances, hcur.consumers_setLock, hwrites.ledger, h.consumers_eq]
    rcases eq_or_ne x l'.stash with rfl | hne
    · rw [if_pos rfl, hl]
      rfl
    · rw [if_neg hne]

theorem Locked.bondForAttestor (h : b.Locked T consumers) (hsound : b.Sound T latest)
    (hbond : b.bondForAttestor T minBond stash attestorId = .ok b') : b'.Locked T consumers := by
  obtain ⟨funded, hfunded, ⟨hnone, hledger, hinc⟩ | ⟨l, hl, hmax, hwrites⟩⟩ :=
    bondForAttestor_effect hbond
  · refine ⟨fun x => ?_, fun x => ?_⟩
    · rw [hcur.bondLock_incConsumers _ _ _ hinc, hcur.bondLock_setLock,
        hcur.bondLock_transfer _ _ _ _ _ hfunded, h.lock_eq, totalOf, totalOf, hledger]
      rcases eq_or_ne x stash with rfl | hne
      · rw [if_pos rfl, hnone, Option.map_some, Option.getD_some, AttestorLedger.new]
        split
        · rfl
        · next hzero =>
          rw [not_and_not_right] at hzero
          exact (hzero rfl).symm
      · rw [if_neg (fun hand => hne hand.1), if_neg hne]
    · rw [hcur.consumers_incConsumers _ _ _ hinc, hcur.consumers_setLock,
        hcur.consumers_transfer _ _ _ _ _ hfunded, h.consumers_eq, hledger]
      rcases eq_or_ne x stash with rfl | hne
      · rw [if_pos rfl, if_pos rfl, hnone]
        rfl
      · rw [if_neg hne, if_neg hne]
  · have hfund : Locked T consumers { b with balances := funded } :=
      h.congr rfl (hcur.bondLock_transfer _ _ _ _ _ hfunded)
        (hcur.consumers_transfer _ _ _ _ _ hfunded)
    refine hfund.writes hcur (l := l) ?_ ?_ hwrites
    · exact (congrArg b.ledger.lookup (hsound.stash_eq stash l hl)).trans hl
    · exact fun hzero => (Nat.add_eq_zero_iff.1 hzero).1

theorem Locked.unbond (h : b.Locked T consumers) (hsound : b.Sound T latest)
    (hunbond : b.unbond T currentEra latest stash bond = .ok b') : b'.Locked T consumers := by
  have hsound' := (hsound.unbond hunbond).1
  obtain ⟨l, hl, ⟨-, rfl⟩ | ⟨-, unlocking, value, rest, -, hpush, hwrites, -⟩⟩ :=
    unbond_effect hunbond
  · exact h
  · refine h.writes hcur (l := l) ?_ (fun hzero => ?_) hwrites
    · dsimp only
      rw [AttestorLedger.released_stash, hsound.stash_eq stash l hl]
      exact hl
    · have hnil :=
        (hsound'.sound _ _ ((hwrites.ledger _).trans (if_pos rfl))).unlocking_eq_nil hzero
      rcases AttestorLedger.pushChunk_effect hpush with ⟨_, _, -, -, rfl⟩ | ⟨-, -, rfl⟩
      · exact absurd hnil (by simp)
      · exact absurd hnil (by simp)

theorem Locked.withdrawUnbonded (h : b.Locked T consumers) (hsound : b.Sound T latest)
    (hwithdraw : b.withdrawUnbonded T currentEra stash = .ok b') : b'.Locked T consumers := by
  obtain ⟨l, hl, ⟨hnil, hsmall, hledger, hbalances⟩ | ⟨hleft, hwrites⟩⟩ :=
    withdrawUnbonded_effect hwithdraw
  · rw [hsound.stash_eq stash l hl] at hledger hbalances
    refine ⟨fun x => ?_, fun x => ?_⟩
    · rw [hbalances, hcur.bondLock_decConsumers, hcur.bondLock_removeLock, totalOf, hledger,
        h.lock_eq]
      split <;> rfl
    · rw [hbalances, hcur.consumers_decConsumers, hcur.consumers_removeLock, hledger,
        h.consumers_eq]
      rcases eq_or_ne x stash with rfl | hne
      · rw [if_pos rfl, if_pos rfl, hl]
        rfl
      · rw [if_neg hne, if_neg hne]
  · refine h.writes hcur (l := l) ?_ (fun hzero => ?_) hwrites
    · rw [AttestorLedger.withdrawn_stash, hsound.stash_eq stash l hl]
      exact hl
    · have hsound' : (l.withdrawn currentEra).Sound T latest := (hsound.sound stash l hl).withdrawn
      have htotal := hsound'.total_eq
      rw [hzero, AttestorLedger.withdrawn_active] at htotal
      exact absurd ⟨hsound'.unlocking_eq_nil hzero, .inr (by omega)⟩ hleft

end Bonds

/-! ## Whole runs -/

section Runs

variable [DecidableEq H] {T : Config H A B} {consumers : B → A → ℕ} {s s' : State H A B}
  {act : Action T}

/-- The era does not go back. -/
def ErasAdvance (T : Config H A B) (s : State H A B) : Action T → Prop
  | .era era => s.currentEra ≤ era
  | _ => True

/-- The era in which a bond that is released now is free. -/
abbrev State.purgeEra (T : Config H A B) (s : State H A B) : ℕ :=
  satAdd u32Max s.currentEra T.bondingDuration

theorem minBond_le_of_supported {k : ChainKey} (hreach : Reachable T s)
    (hsup : s.isChainSupported k = true) : (s.chain T k).settings.minBondRequirement ≤ u128Max :=
  Nat.le_pred_of_lt (minBond_lt_of_live hreach (.inl hsup))

/-- **Every action keeps the ledgers sound**, and the chunks that are not free yet. -/
theorem sound_move (hreach : Reachable T s) (h : s.bonds.Sound T (s.purgeEra T))
    (hact : ErasAdvance T s act) (hmove : StakeMove T act s s') :
    s'.bonds.Sound T (s'.purgeEra T) ∧ ∀ stash, (∃ l, s.bonds.ledger.lookup stash = some l ∧
      ∃ chunk ∈ l.unlocking, s.currentEra < chunk.era) →
        Bonds.KeepsLedger s.currentEra s.bonds s'.bonds stash := by
  cases hmove with
  | quiet hquiet =>
    rw [State.purgeEra, hquiet.era]
    exact ⟨h.congr hquiet.ledger, fun stash _ => .of_eq hquiet.ledger stash⟩
  | registered host o k stash a _ hregister =>
    obtain ⟨hsup, hera, -, -, hbonds⟩ := State.registerAttestor_effect hregister
    obtain ⟨hsound, hkeeps⟩ :=
      h.bondForAttestor s.currentEra (minBond_le_of_supported hreach hsup) hbonds
    rw [State.purgeEra, hera]
    exact ⟨hsound, fun x _ => hkeeps x⟩
  | @unregistered s₁ _ k stash a hquiet hremove =>
    obtain ⟨hera, -, attestor, -, -, hbonds⟩ := State.removeAttestor_effect hremove
    rw [hquiet.era] at hbonds
    have h₁ : s₁.bonds.Sound T (s.purgeEra T) := h.congr hquiet.ledger
    obtain ⟨hsound, hkeeps⟩ := h₁.unbond hbonds
    rw [State.purgeEra, hera, hquiet.era]
    exact ⟨hsound, fun x _ l hl => hkeeps x l (hquiet.ledger ▸ hl)⟩
  | withdrawn stash hwithdraw =>
    obtain ⟨hera, hbonds, -⟩ := State.withdrawUnbonded_effect hwithdraw
    obtain ⟨hsound, hkeeps⟩ := h.withdrawUnbonded hbonds
    rw [State.purgeEra, hera]
    exact ⟨hsound, fun x hlate => hkeeps x fun heq => heq ▸ hlate⟩
  | cleanedUp hcleaned =>
    rw [State.purgeEra, hcleaned.era]
    exact ⟨h.congr hcleaned.ledger, fun stash _ => .of_eq hcleaned.ledger stash⟩
  | era era heq =>
    subst heq
    refine ⟨h.mono ?_, fun stash _ => .of_eq rfl stash⟩
    exact min_le_min (Nat.add_le_add_right hact _) le_rfl
  | currency tx => exact ⟨h.congr rfl, fun stash _ => .of_eq rfl stash⟩

omit [DecidableEq H] in
/-- **Every action keeps locks and references in agreement with the ledgers.** -/
theorem locked_move (hcur : T.currency.Lawful consumers) (hsound : s.bonds.Sound T (s.purgeEra T))
    (h : s.bonds.Locked T consumers) (hmove : StakeMove T act s s') :
      s'.bonds.Locked T consumers := by
  have hcongr : ∀ b : Bonds A B, b.ledger = s.bonds.ledger → b.balances = s.bonds.balances →
      b.Locked T consumers := fun b hledger hbalances =>
    h.congr hledger (by rw [hbalances]) (by rw [hbalances])
  cases hmove with
  | quiet hquiet => exact hcongr _ hquiet.ledger hquiet.balances
  | registered host o k stash a _ hregister =>
    obtain ⟨-, -, -, -, hbonds⟩ := State.registerAttestor_effect hregister
    exact h.bondForAttestor hcur hsound hbonds
  | @unregistered s₁ _ k stash a hquiet hremove =>
    obtain ⟨-, -, attestor, -, -, hbonds⟩ := State.removeAttestor_effect hremove
    rw [hquiet.era] at hbonds
    exact (hcongr _ hquiet.ledger hquiet.balances).unbond hcur (hsound.congr hquiet.ledger) hbonds
  | withdrawn stash hwithdraw =>
    exact h.withdrawUnbonded hcur hsound (State.withdrawUnbonded_effect hwithdraw).2.1
  | cleanedUp hcleaned => exact hcongr _ hcleaned.ledger hcleaned.balances
  | era era _ => exact hcongr _ rfl rfl
  | currency tx => exact h.congr rfl (hcur.bondLock_exec tx _) (hcur.consumers_exec tx _)

theorem sound_of_run {gc : GenesisConfig H A B} {s₀ : State H A B} {acts : List (Action T)}
    (hgen : genesis T gc = some s₀) (heras : AlongRun (ErasAdvance T) s₀ acts) :
    (run T s₀ acts).bonds.Sound T ((run T s₀ acts).purgeEra T) := by
  have hstart : s₀.bonds.Sound T (s₀.purgeEra T) := by
    have hempty : s₀.bonds.ledger = ∅ := congrArg Bonds.ledger (genesis_frame hgen).1
    refine ⟨fun x l hl => ?_, fun x l hl => ?_⟩
    · rw [hempty, AList.lookup_empty] at hl
      cases hl
    · rw [hempty, AList.lookup_empty] at hl
      cases hl
  refine (AlongRun.preserves (P := fun s => Reachable T s ∧ s.bonds.Sound T (s.purgeEra T)) ?_
    ⟨⟨gc, s₀, [], hgen, rfl⟩, hstart⟩ heras).2
  rintro s act ⟨hreach, h⟩ hact
  exact ⟨hreach.step act, (sound_move hreach h hact (step_stakeMove s act)).1⟩

theorem locked_of_run (hcur : T.currency.Lawful consumers) {gc : GenesisConfig H A B}
    {s₀ : State H A B} {acts : List (Action T)} (hgen : genesis T gc = some s₀)
    (hfresh : ∀ a, T.currency.bondLock gc.balances a = 0 ∧ consumers gc.balances a = 0)
    (heras : AlongRun (ErasAdvance T) s₀ acts) : (run T s₀ acts).bonds.Locked T consumers := by
  induction acts using List.reverseRecOn with
  | nil =>
    rw [run, List.foldl_nil, (genesis_frame hgen).1]
    exact ⟨fun x => (hfresh x).1, fun x => (hfresh x).2⟩
  | append_singleton acts act ih =>
    have hbefore := (alongRun_append.1 heras).1
    rw [run_append]
    exact locked_move hcur (sound_of_run hgen hbefore) (ih hbefore) (step_stakeMove _ act)

/-- **Ledgers, locks and references agree.** As long as eras do not go back: the ledger of a stash
adds up to what is staked, its chunks are in the order of their eras and within their bound, the
lock is what is staked, and there is one reference to the account; without a ledger there is
neither. No action releases a chunk before its era. -/
theorem ledgers_locked (hcur : T.currency.Lawful consumers) {gc : GenesisConfig H A B}
    {s₀ : State H A B} {acts : List (Action T)} (hgen : genesis T gc = some s₀)
    (hfresh : ∀ a, T.currency.bondLock gc.balances a = 0 ∧ consumers gc.balances a = 0)
    (heras : AlongRun (ErasAdvance T) s₀ acts) (hs : s = run T s₀ acts) (stash : A) :
    (s.bonds.ledger.lookup stash = none →
        T.currency.bondLock s.bonds.balances stash = 0 ∧ consumers s.bonds.balances stash = 0) ∧
      ∀ l, s.bonds.ledger.lookup stash = some l →
        l.totalStaked = l.active + AttestorLedger.unlockingTotal l.unlocking ∧
          T.currency.bondLock s.bonds.balances stash = l.totalStaked ∧
          consumers s.bonds.balances stash = 1 ∧
          (l.unlocking.Pairwise fun chunk chunk' => chunk.era < chunk'.era) ∧
          l.unlocking.length ≤ T.maxUnlockingChunks ∧
          ∀ act : Action T, ErasAdvance T s act →
            ∀ chunk ∈ l.unlocking, s.currentEra < chunk.era →
              ∃ l', (step T s act).bonds.ledger.lookup stash = some l' ∧
                ∃ chunk' ∈ l'.unlocking, chunk'.era = chunk.era ∧ chunk.value ≤ chunk'.value := by
  subst hs
  have hsound := sound_of_run hgen heras
  have hlocked := locked_of_run hcur hgen hfresh heras
  refine ⟨fun hnone => ?_, fun l hl => ?_⟩
  · rw [hlocked.lock_eq, hlocked.consumers_eq, Bonds.totalOf, hnone]
    exact ⟨rfl, rfl⟩
  · have hledger := hsound.sound stash l hl
    refine ⟨hledger.total_eq, ?_, ?_, hledger.increasing, hledger.length_le, ?_⟩
    · rw [hlocked.lock_eq, Bonds.totalOf, hl, Option.map_some, Option.getD_some]
    · rw [hlocked.consumers_eq, hl]
      rfl
    · intro act hact chunk hchunk hera
      obtain ⟨l', hl', hkeeps⟩ := (sound_move ⟨gc, s₀, acts, hgen, rfl⟩ hsound hact
        (step_stakeMove _ act)).2 stash ⟨l, hl, chunk, hchunk, hera⟩ l hl
      exact ⟨l', hl', hkeeps chunk hchunk hera⟩

theorem Devnet.lawful_accounts :
    withAccounts.currency.Lawful Accounts.consumers where
  bondLock_setLock b a amount x := by
    by_cases hzero : amount = 0
    · simp [withAccounts, accountCurrency, hzero]
    · simp [withAccounts, accountCurrency, hzero, Function.update_apply]
  bondLock_removeLock b a x := Function.update_apply _ _ _ _
  bondLock_transfer b a a' amount b' h := by rw [← Option.some.inj h]
  bondLock_incConsumers b a b' h := by rw [← Option.some.inj h]; rfl
  bondLock_decConsumers b a := rfl
  bondLock_exec tx b := rfl
  consumers_setLock b a amount := by
    by_cases hzero : amount = 0 <;> simp [withAccounts, accountCurrency, hzero]
  consumers_removeLock b a := rfl
  consumers_transfer b a a' amount b' h := by rw [← Option.some.inj h]
  consumers_incConsumers b a b' h x := by
    rw [← Option.some.inj h]
    rcases eq_or_ne x a with rfl | hne
    · simp
    · simp [hne]
  consumers_decConsumers b a x := by
    rcases eq_or_ne x a with rfl | hne
    · simp [withAccounts, accountCurrency]
    · simp [withAccounts, accountCurrency, hne]
  consumers_exec tx b := rfl

open Devnet in
/-- A stash whose only attestor is unregistered: its bond is a chunk, still locked. -/
theorem devnet_ledgers_locked : unbonding.bonds.balances.locks 10 = 100_000_000_000_000_000_000 ∧
      unbonding.bonds.balances.consumers 10 = 1 := by
  have hgenesis : (genesis withAccounts accountGenesis).isSome = true := by
    rfl
  obtain ⟨s₀, hs₀⟩ := Option.isSome_iff_exists.1 hgenesis
  have hrun : unbonding = run withAccounts s₀ unbondingRun := by
    rw [unbonding, hs₀, Option.getD_some]
  have hera : s₀.currentEra = 0 := (genesis_frame hs₀).2.1
  have heras : AlongRun (ErasAdvance withAccounts) s₀ unbondingRun :=
    ⟨hera.le.trans (Nat.zero_le _), trivial, trivial, trivial⟩
  have htotal : (unbonding.bonds.ledger.lookup 10).map (·.totalStaked) =
      some 100_000_000_000_000_000_000 := by rfl
  obtain ⟨l, hl, htotal⟩ := Option.map_eq_some_iff.1 htotal
  obtain ⟨-, hlock, hconsumers, -⟩ := (ledgers_locked lawful_accounts hs₀
    (fun _ => ⟨rfl, rfl⟩) heras hrun 10).2 l hl
  exact ⟨hlock.trans htotal, hconsumers⟩

end Runs

end Creditcoin
