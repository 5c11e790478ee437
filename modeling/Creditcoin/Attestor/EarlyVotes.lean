import Creditcoin.Attestor.Gossip

/-!
# Early votes

A vote that comes before this attestor has produced the attestation of its height is kept until
then. The buffer is emptied up to a height that was signalled, and a catch-up produces each range
from the top. So a vote is lost when a higher block is produced first, and left behind when a lower
block is produced before the signal was read (`CatchUp.exists_early_vote_lost`).

`early_vote_kept`: in a run in which production is in order around `x` (`Gossip.InOrder`), a vote
for `x` in the buffer above the finalized height stays there until it is handed to verification, and
it is handed over once `x` has been produced and the signals have been read. This is so unless
another vote of the same attestor, which is authenticated, takes its place
(`Gossip.Displaced`). -/

namespace Creditcoin.Attestor

variable {H A I : Type} {x : ℕ} {a : A} {v : Vote H A} {pendingVotes : PendingVotes H A}

/-! ## Emptying the buffer -/

def PendingVotes.votesAt (pendingVotes : PendingVotes H A) (height : ℕ) : List (Vote H A) :=
  ((pendingVotes.lookup height).map fun queued => queued.entries.map (·.2)).getD []

section Drain

variable (hasLocalData : ℕ → Bool)

theorem takeHeights_cons (y : ℕ) (heights : List ℕ) (ready : List (Vote H A)) :
    takeHeights hasLocalData (y :: heights) ready pendingVotes =
      takeHeights hasLocalData heights
        (ready ++ if hasLocalData y then pendingVotes.votesAt y else [])
        (pendingVotes.erase y) := by
  rw [takeHeights, PendingVotes.votesAt]
  rcases hy : pendingVotes.lookup y with _ | queued
  · simp [StorageMap.erase_eq_self hy]
  · by_cases hdata : hasLocalData y <;> simp [hdata]

theorem lookup_takeHeights (heights : List ℕ) (ready : List (Vote H A)) :
    (takeHeights hasLocalData heights ready pendingVotes).2.lookup x =
      if x ∈ heights then none else pendingVotes.lookup x := by
  induction heights generalizing ready pendingVotes with
  | nil => rfl
  | cons y heights ih =>
    rw [takeHeights_cons, ih, StorageMap.lookup_erase_eq]
    by_cases hxy : x = y <;> simp [hxy]

theorem mem_takeHeights_of_ready {heights : List ℕ} {ready : List (Vote H A)} (h : v ∈ ready) :
    v ∈ (takeHeights hasLocalData heights ready pendingVotes).1 := by
  induction heights generalizing ready pendingVotes with
  | nil => exact h
  | cons y heights ih =>
    rw [takeHeights_cons]
    exact ih (List.mem_append_left _ h)

theorem mem_drained_keys {producedThrough : ℕ} :
    x ∈ (pendingVotes.keys.filter fun height => height ≤ producedThrough) ↔
      x ≤ producedThrough ∧ ∃ queued, pendingVotes.lookup x = some queued := by
  rw [List.mem_filter, StorageMap.mem_keys_iff, decide_eq_true_eq, and_comm]

variable [DecidableEq A]

/-- The vote of an attestor for a height. -/
def PendingVotes.slot (pendingVotes : PendingVotes H A) (height : ℕ) (attestor : A) :
    Option (Vote H A) :=
  (pendingVotes.lookup height).bind (·.lookup attestor)

theorem PendingVotes.mem_votesAt (h : pendingVotes.slot x a = some v) :
    v ∈ pendingVotes.votesAt x := by
  obtain ⟨queued, hqueued, hv⟩ := Option.bind_eq_some_iff.1 h
  have hentry : (⟨a, v⟩ : (_ : A) × Vote H A) ∈ queued.entries := AList.mem_lookup_iff.1 hv
  rw [votesAt, hqueued]
  exact List.mem_map_of_mem hentry

theorem mem_takeHeights {heights : List ℕ} {ready : List (Vote H A)} (hx : x ∈ heights)
    (hdata : hasLocalData x = true) (hslot : pendingVotes.slot x a = some v) :
    v ∈ (takeHeights hasLocalData heights ready pendingVotes).1 := by
  induction heights generalizing ready pendingVotes with
  | nil => cases hx
  | cons y heights ih =>
    rw [takeHeights_cons]
    by_cases hxy : x = y
    · subst hxy
      apply mem_takeHeights_of_ready
      rw [if_pos hdata]
      exact List.mem_append_right _ (PendingVotes.mem_votesAt hslot)
    · apply ih ((List.mem_cons.1 hx).resolve_left hxy)
      rw [PendingVotes.slot, StorageMap.lookup_erase_eq, if_neg hxy]
      exact hslot

/-- **What is left of the buffer** is what is above the height. -/
theorem slot_drainPendingVotes (producedThrough : ℕ) :
    (drainPendingVotes pendingVotes producedThrough hasLocalData).2.slot x a =
      if x ≤ producedThrough then none else pendingVotes.slot x a := by
  unfold drainPendingVotes PendingVotes.slot
  rw [lookup_takeHeights]
  by_cases hle : x ≤ producedThrough
  · rw [if_pos hle]
    rcases hx : pendingVotes.lookup x with _ | queued
    · rw [ite_self, Option.bind_none]
    · rw [if_pos (mem_drained_keys.2 ⟨hle, queued, hx⟩), Option.bind_none]
  · rw [if_neg hle, if_neg fun h => hle (mem_drained_keys.1 h).1]

theorem mem_drainPendingVotes {producedThrough : ℕ} (hslot : pendingVotes.slot x a = some v)
    (hle : x ≤ producedThrough) (hdata : hasLocalData x = true) :
    v ∈ (drainPendingVotes pendingVotes producedThrough hasLocalData).1 := by
  obtain ⟨queued, hqueued, -⟩ := Option.bind_eq_some_iff.1 hslot
  exact mem_takeHeights hasLocalData (mem_drained_keys.2 ⟨hle, queued, hqueued⟩) hdata hslot

end Drain

/-! ## Filling the buffer -/

section Admit

variable [DecidableEq A]

namespace PendingVotes

theorem slot_insert (y : ℕ) (entry : StorageMap A (Vote H A)) :
    PendingVotes.slot (pendingVotes.insert y entry) x a =
      if x = y then entry.lookup a else pendingVotes.slot x a := by
  unfold slot
  rw [StorageMap.lookup_insert_eq]
  split <;> rfl

theorem lookup_entry (y : ℕ) :
    ((pendingVotes.lookup y).getD ∅).lookup a = pendingVotes.slot y a := by
  unfold slot
  cases pendingVotes.lookup y with
  | none => exact AList.lookup_empty a
  | some entry => rfl

theorem slot_retain (p : ℕ → Bool) :
    PendingVotes.slot (pendingVotes.retain p) x a =
      if p x then pendingVotes.slot x a else none := by
  unfold slot
  rw [StorageMap.lookup_retain]
  split <;> rfl

end PendingVotes

variable [DecidableEq I]

/-- **What a vote changes in the buffer.** It takes its own place, if that is free or the vote is
authenticated. -/
theorem slot_admitPendingVote (maxPendingPerHeight : ℕ) (peersByAttestor : List (A × I))
    (source : Option I) (vote : Vote H A) :
    let admitted :=
      (admitPendingVote pendingVotes maxPendingPerHeight peersByAttestor source vote).1
    admitted.slot x a = pendingVotes.slot x a ∨
      vote.height = x ∧ vote.attestor = a ∧ admitted.slot x a = some vote ∧
        (pendingVotes.slot x a = none ∨
          claimAuthenticated peersByAttestor source vote.attestor = some true) := by
  intro admitted
  have hsame : PendingVotes.slot
      (pendingVotes.insert vote.height ((pendingVotes.lookup vote.height).getD ∅)) x a =
        pendingVotes.slot x a := by
    rw [PendingVotes.slot_insert, PendingVotes.lookup_entry]
    split
    · next heq => rw [heq]
    · rfl
  have hput : PendingVotes.slot (pendingVotes.insert vote.height
      (((pendingVotes.lookup vote.height).getD ∅).insert vote.attestor vote)) x a =
        if vote.height = x ∧ vote.attestor = a then some vote else pendingVotes.slot x a := by
    rw [PendingVotes.slot_insert, StorageMap.lookup_insert_eq, PendingVotes.lookup_entry]
    by_cases hx : x = vote.height
    · by_cases ha : a = vote.attestor <;> simp [hx, ha, eq_comm]
    · rw [if_neg hx, if_neg fun h => hx h.1.symm]
  by_cases hplace : vote.height = x ∧ vote.attestor = a
  · obtain ⟨rfl, rfl⟩ := hplace
    rw [if_pos ⟨rfl, rfl⟩] at hput
    rcases hclaim : claimAuthenticated peersByAttestor source vote.attestor with _ | authenticated
    · left
      simp only [admitted, admitPendingVote, hclaim]
    · rcases hslot : pendingVotes.slot vote.height vote.attestor with _ | held
      · by_cases hroom :
          ((pendingVotes.lookup vote.height).getD ∅).keys.length < maxPendingPerHeight
        · right
          simp [admitted, admitPendingVote, hclaim, PendingVotes.lookup_entry, hslot, hroom, hput]
        · left
          simp [admitted, admitPendingVote, hclaim, PendingVotes.lookup_entry, hslot, hroom, hsame]
      · cases authenticated with
        | false =>
          left
          simp [admitted, admitPendingVote, hclaim, PendingVotes.lookup_entry, hslot, hsame]
        | true =>
          right
          simp [admitted, admitPendingVote, hclaim, PendingVotes.lookup_entry, hslot, hput]
  · rw [if_neg hplace] at hput
    left
    simp only [admitted, admitPendingVote]
    split
    · rfl
    · split
      · split
        · exact hput
        · exact hsame
      · split
        · exact hput
        · exact hsame

end Admit

/-- Nothing at or above the height is finalized. -/
def GossipAction.Below (x : ℕ) : GossipAction H A I → Prop
  | .attested y => y < x
  | .reverted y => y < x
  | _ => True

namespace Gossip

/-! ## Signals -/

section Signals

variable (g : Gossip H A I) (x : ℕ)

/-- The height that the production task is about to signal. -/
def announced : Option ℕ :=
  match g.production with
  | .signalling height => some height
  | .reverting height => some height
  | _ => none

/-- The height of which the production task is about to tell that it is finalized, or up to which
it is about to drop data for that reason. -/
def telling : Option ℕ :=
  match g.production with
  | .finalizing height => some height
  | .trimming height => some height
  | .reverting height => some height
  | _ => none

/-- The height in the watch, as long as it has not been read. -/
def unread : Option ℕ :=
  match g.turn with
  | .waking => g.localProduced
  | _ => if g.producedUnread then g.localProduced else none

/-- The height up to which the buffer is being emptied. -/
def drainingTo : Option ℕ :=
  match g.turn with
  | .draining height => some height
  | _ => none

/-- The height is above what is finalized, as far as the production task knows. -/
def Above : Prop := ∀ finalized ∈ g.latestCc3, finalized < x

/-- The height is above what is finalized, as far as both tasks know. -/
def Open : Prop := g.Above x ∧ ∀ finalized ∈ g.latestFinalized, finalized < x

/-- **Production in order around a height.** As long as the height is not finalized, none above it
is stored before it, and none below it is stored after it while its signal is unread. No reversion
comes while a signal of the height or above is unread. -/
def InOrder : GossipAction H A I → Prop
  | .store y =>
    g.Above x → if x ∈ g.localData then y < x → ∀ z ∈ g.unread, z < x else y ≤ x
  | .reverted _ => (∀ z ∈ g.unread, z < x) ∧ ∀ z ∈ g.drainingTo, z < x
  | _ => True

end Signals

section Steps

variable {g g' g₁ : Gossip H A I}

theorem inOrder_store_self : g.InOrder x (.store x) := by
  intro _
  split
  · exact fun hlt => absurd hlt (lt_irrefl x)
  · exact le_rfl

theorem whenProduced_eq_some :
    g.whenProduced g₁ = some g' ↔ g.production = .idle ∧ g₁ = g' := by
  unfold whenProduced
  cases g.production <;> simp

theorem whenIdle_eq_some : g.whenIdle g₁ = some g' ↔ g.turn = .idle ∧ g₁ = g' := by
  unfold whenIdle
  cases g.turn <;> simp

theorem announced_of_idle (h : g.production = .idle) : g.announced = none := by
  rw [announced, h]

theorem mem_localData_noteFinalized {y : ℕ} (hlt : y < x) :
    x ∈ (g.noteFinalized y).localData ↔ x ∈ g.localData :=
  Finset.mem_filter.trans (and_iff_left hlt)

variable [DecidableEq A]

section Inversion

variable [DecidableEq I] {config : GossipConfig}

theorem of_step_admitPending (h : g.step config .admitPending = some g') : ∃ vote source known,
    g.turn = .admitting vote source known ∧
      { g with turn := .idle, pendingVotes := g.admitVote config vote source known } = g' := by
  rcases hturn : g.turn with _ | ⟨vote, source, known⟩ | _ | _
  case admitting =>
    simp only [step, hturn, Option.some.injEq] at h
    exact ⟨vote, source, known, rfl, h⟩
  all_goals simp [step, hturn] at h

theorem step_wake_eq_some : g.step config .wake = some g' ↔
    g.producedUnread = true ∧ g.turn = .idle ∧
      { g with turn := .waking, producedUnread := false } = g' := by
  rw [← whenIdle_eq_some]
  show (if _ then _ else none) = _ ↔ _
  split <;> simp_all

theorem step_read_eq_some : g.step config .read = some g' ↔
    g.turn = .waking ∧ { g with turn := (g.localProduced.map .draining).getD .idle } = g' := by
  show (match g.turn with | .waking => _ | _ => none) = _ ↔ _
  cases g.turn <;> simp

theorem step_drain_eq_some : g.step config .drain = some g' ↔
    ∃ height, g.turn = .draining height ∧ g.drainPending height = g' := by
  show (match g.turn with | .draining height => _ | _ => none) = _ ↔ _
  cases g.turn <;> simp

theorem step_prune_eq_some : g.step config .prune = some g' ↔
    g.finalizedUnread = true ∧ g.turn = .idle ∧
      { g with finalizedUnread := false, pendingVotes := g.prunePending } = g' := by
  rw [← whenIdle_eq_some]
  show (if _ then _ else none) = _ ↔ _
  split <;> simp_all

end Inversion

/-- A vote for the height is in the buffer, or about to be. -/
def Pending (g : Gossip H A I) (x : ℕ) : Prop :=
  (∃ a v, g.pendingVotes.slot x a = some v) ∨
    ∃ vote source known, g.turn = .admitting vote source known ∧ vote.height = x

/-- Before a height has local data no signal is at or above it. Afterwards, as long as there are
votes for it, the last signal is, or the one up to which the buffer is being emptied. -/
structure Awaits (g : Gossip H A I) (x : ℕ) : Prop where
  unsignalled : x ∉ g.localData →
    (∀ y ∈ g.announced, y < x) ∧ (∀ y ∈ g.unread, y < x) ∧ ∀ y ∈ g.drainingTo, y < x
  signalled : x ∈ g.localData → g.Pending x →
    (∃ y ∈ g.announced.or g.unread, x ≤ y) ∨ ∃ y ∈ g.drainingTo, x ≤ y

/-- The invariant of a run in order. -/
structure Ordered (g : Gossip H A I) (x : ℕ) : Prop where
  told : ∀ y ∈ g.telling, g.latestCc3 = some y
  awaits : g.Above x → g.Awaits x

theorem Awaits.of_frame (h : g.Awaits x) (hdata : x ∈ g'.localData ↔ x ∈ g.localData)
    (hannounced : g'.announced = g.announced) (hunread : g'.unread = g.unread)
    (hdraining : g'.drainingTo = g.drainingTo)
    (hpending : x ∈ g.localData → g'.Pending x → g.Pending x) : g'.Awaits x := by
  refine ⟨fun hx => ?_, fun hx hp => ?_⟩
  · rw [hannounced, hunread, hdraining]
    exact h.unsignalled (mt hdata.2 hx)
  · rw [hannounced, hunread, hdraining]
    exact h.signalled (hdata.1 hx) (hpending (hdata.1 hx) hp)

theorem ordered_new (attestationInterval maxCatchup : ℕ+) (startAttestation : Option ℕ) :
    (new attestationInterval maxCatchup startAttestation : Gossip H A I).Ordered x :=
  ⟨nofun, fun _ => ⟨fun _ => ⟨nofun, nofun, nofun⟩, fun hx => absurd hx (Finset.notMem_empty x)⟩⟩

/-! ### The steps of the production task -/

theorem Ordered.store (h : g.Ordered x) {y : ℕ} (hidle : g.production = .idle)
    (horder : g.InOrder x (.store y)) :
    Ordered { g with localData := insert y g.localData, production := .signalling y } x := by
  refine ⟨nofun, fun habove => ?_⟩
  have hawaits := h.awaits habove
  have horder := horder habove
  refine ⟨fun hx => ?_, fun hx hpending => ?_⟩
  · obtain ⟨hne, hx⟩ := not_or.1 (mt Finset.mem_insert.2 hx)
    rw [if_neg hx] at horder
    obtain ⟨-, hunread, hdraining⟩ := hawaits.unsignalled hx
    refine ⟨fun z hz => ?_, hunread, hdraining⟩
    cases hz
    exact lt_of_le_of_ne horder (Ne.symm hne)
  · by_cases hdata : x ∈ g.localData
    · rw [if_pos hdata] at horder
      rcases hawaits.signalled hdata hpending with ⟨z, hz, hle⟩ | hdraining
      · refine .inl ⟨y, rfl, not_lt.1 fun hlt => ?_⟩
        rw [announced_of_idle hidle] at hz
        exact absurd (horder hlt z hz) (not_lt.2 hle)
      · exact .inr hdraining
    · obtain rfl := (Finset.mem_insert.1 hx).resolve_right hdata
      exact .inl ⟨x, rfl, le_rfl⟩

theorem Ordered.blockAttested (h : g.Ordered x) {y : ℕ} (hidle : g.production = .idle) :
    (g.blockAttested y).Ordered x := by
  have hannounced := announced_of_idle hidle
  unfold Gossip.blockAttested
  split
  · next hnone =>
    refine ⟨fun z hz => hz, fun _ => ?_⟩
    have hawaits := h.awaits fun finalized hf => by simp [hnone] at hf
    exact hawaits.of_frame Iff.rfl hannounced.symm rfl rfl fun _ hp => hp
  · next latest hlatest =>
    split
    · next hlt =>
      refine ⟨fun z hz => hz, fun habove => ?_⟩
      have hy : y < x := habove y rfl
      have hawaits := h.awaits fun finalized hf => by
        rw [hlatest] at hf
        cases hf
        exact hlt.trans hy
      exact hawaits.of_frame (mem_localData_noteFinalized hy) hannounced.symm rfl rfl
        fun _ hp => hp
    · exact h

theorem Ordered.reverted {y : ℕ} (horder : g.InOrder x (.reverted y)) :
    Ordered { g with
      latestCc3 := some y
      localData := ∅
      production := .reverting y } x := by
  refine ⟨fun z hz => hz, fun habove => ⟨fun _ => ⟨fun z hz => ?_, horder⟩, ?_⟩⟩
  · cases hz
    exact habove y rfl
  · exact fun hx => absurd hx (Finset.notMem_empty x)

theorem Ordered.proceed (h : g.Ordered x) (hstep : g.proceed = some g') : g'.Ordered x := by
  unfold Gossip.proceed at hstep
  split at hstep
  · cases hstep
  · next y hsignalling =>
    cases hstep
    have hannounced : g.announced = some y := by rw [announced, hsignalling]
    refine ⟨nofun, fun habove => ?_⟩
    have hawaits := h.awaits habove
    have hunread : unread { g with
        production := .idle
        localProduced := some y
        producedUnread := true } = some y := by
      unfold unread
      cases g.turn <;> rfl
    refine ⟨fun hx => ?_, fun hx hpending => ?_⟩
    · obtain ⟨hy, -, hdraining⟩ := hawaits.unsignalled hx
      rw [hannounced] at hy
      refine ⟨nofun, ?_, hdraining⟩
      rw [hunread]
      exact hy
    · rcases hawaits.signalled hx hpending with ⟨z, hz, hle⟩ | hdraining
      · rw [hannounced] at hz
        cases hz
        exact .inl ⟨y, hunread, hle⟩
      · exact .inr hdraining
  · next y hfinalizing =>
    cases hstep
    refine ⟨nofun, fun habove => (h.awaits habove).of_frame Iff.rfl ?_ rfl rfl fun _ hp => hp⟩
    rw [announced, announced, hfinalizing]
  · next y htrimming =>
    cases hstep
    refine ⟨nofun, fun habove => ?_⟩
    have hy : y < x := habove y (h.told y (by rw [telling, htrimming]; rfl))
    refine (h.awaits habove).of_frame (mem_localData_noteFinalized hy) ?_ rfl rfl fun _ hp => hp
    rw [announced, announced, htrimming]
  · next y hreverting =>
    cases hstep
    refine ⟨nofun, fun habove => (h.awaits habove).of_frame Iff.rfl ?_ rfl rfl fun _ hp => hp⟩
    rw [announced, announced, hreverting]

/-! ### The steps of the gossip task -/

theorem Pending.mono (h : g'.Pending x)
    (hslots : ∀ a v, g'.pendingVotes.slot x a = some v → g.Pending x)
    (hturn : ∀ vote source known, g'.turn = .admitting vote source known → g'.turn = g.turn) :
    g.Pending x := by
  obtain ⟨a, v, hslot⟩ | ⟨vote, source, known, hadmitting, hx⟩ := h
  · exact hslots a v hslot
  · exact .inr ⟨vote, source, known, (hturn vote source known hadmitting).symm.trans hadmitting, hx⟩

theorem Ordered.receive (h : g.Ordered x) {vote : Vote H A} (hidle : g.turn = .idle)
    (hdata : vote.height ∉ g.localData) (source : Option I) (known : Bool) :
    Ordered { g with turn := .admitting vote source known } x := by
  refine ⟨h.told, fun habove => (h.awaits habove).of_frame Iff.rfl rfl ?_ ?_ fun hx hp => ?_⟩
  · simp only [unread, hidle]
  · simp only [drainingTo, hidle]
  · obtain hslot | ⟨_, _, _, heq, hheight⟩ := hp
    · exact .inl hslot
    · cases heq
      rw [hheight] at hdata
      exact absurd hx hdata

theorem Ordered.wake (h : g.Ordered x) (hidle : g.turn = .idle)
    (hunread : g.producedUnread = true) :
    Ordered { g with turn := .waking, producedUnread := false } x := by
  refine ⟨h.told, fun habove => (h.awaits habove).of_frame Iff.rfl rfl ?_ ?_ fun _ hp => ?_⟩
  · simp only [unread, hidle, hunread, if_true]
  · simp only [drainingTo, hidle]
  · exact hp.mono (fun a v hslot => .inl ⟨a, v, hslot⟩) nofun

theorem Ordered.read (h : g.Ordered x) (hwaking : g.turn = .waking) :
    Ordered { g with turn := (g.localProduced.map .draining).getD .idle } x := by
  refine ⟨h.told, fun habove => ?_⟩
  have hawaits := h.awaits habove
  have hunread : g.unread = g.localProduced := by rw [unread, hwaking]
  have hdraining : g.drainingTo = none := by rw [drainingTo, hwaking]
  rcases hproduced : g.localProduced with _ | y
  · refine hawaits.of_frame Iff.rfl rfl ?_ hdraining.symm fun _ hp => ?_
    · rw [hunread, hproduced]
      exact ite_self none
    · exact hp.mono (fun a v hslot => .inl ⟨a, v, hslot⟩) nofun
  · rw [hproduced] at hunread
    refine ⟨fun hx => ?_, fun hx hp => ?_⟩
    · obtain ⟨hannounced, hlt, -⟩ := hawaits.unsignalled hx
      rw [hunread] at hlt
      refine ⟨hannounced, fun z hz => hlt z ?_, hlt⟩
      have hz : (if g.producedUnread then some y else none) = some z := hz
      split at hz
      · exact hz
      · cases hz
    · have hpending : g.Pending x := hp.mono (fun a v hslot => .inl ⟨a, v, hslot⟩) nofun
      rcases hawaits.signalled hx hpending with ⟨z, hz, hle⟩ | ⟨z, hz, -⟩
      · rw [hunread] at hz
        rcases hannounced : g.announced with _ | w
        · rw [hannounced] at hz
          cases hz
          exact .inr ⟨y, rfl, hle⟩
        · rw [hannounced] at hz
          cases hz
          exact .inl ⟨z, Option.or_eq_some_iff.2 (.inl hannounced), hle⟩
      · rw [hdraining] at hz
        cases hz

theorem Ordered.drain (h : g.Ordered x) {y : ℕ} (hdraining : g.turn = .draining y) :
    (g.drainPending y).Ordered x := by
  refine ⟨h.told, fun habove => ?_⟩
  have hawaits := h.awaits habove
  have hunread : (g.drainPending y).unread = g.unread := by
    unfold unread
    rw [hdraining]
    rfl
  refine ⟨fun hx => ?_, fun hx hp => ?_⟩
  · obtain ⟨hannounced, hlt, -⟩ := hawaits.unsignalled hx
    rw [hunread]
    exact ⟨hannounced, hlt, nofun⟩
  · -- The votes up to `y` are gone, so `x` is above `y`.
    obtain ⟨a, v, hslot⟩ | ⟨_, _, _, heq, -⟩ := hp
    · have hslot : (drainPendingVotes _ _ _).2.slot x a = some v := hslot
      rw [slot_drainPendingVotes] at hslot
      split at hslot
      · cases hslot
      · next hlt =>
        rw [hunread]
        rcases hawaits.signalled hx (.inl ⟨a, v, hslot⟩) with hsignal | ⟨z, hz, hle⟩
        · exact .inl hsignal
        · rw [drainingTo, hdraining] at hz
          cases hz
          exact absurd hle hlt
    · cases heq

theorem slot_admitVote [DecidableEq I] (config : GossipConfig) (vote : Vote H A) (source : Option I)
    (known : Bool) :
    (g.admitVote config vote source known).slot x a = g.pendingVotes.slot x a ∨
      vote.height = x ∧ vote.attestor = a ∧
        (g.admitVote config vote source known).slot x a = some vote ∧
        (g.pendingVotes.slot x a = none ∨
          claimAuthenticated g.peersByAttestor source vote.attestor = some true) := by
  unfold admitVote
  split
  · exact slot_admitPendingVote _ _ _ _
  · exact .inl rfl

theorem Ordered.admitPending [DecidableEq I] (h : g.Ordered x) {config : GossipConfig}
    {vote : Vote H A}
    {source : Option I} {known : Bool} (hadmitting : g.turn = .admitting vote source known) :
    Ordered { g with
      turn := .idle
      pendingVotes := g.admitVote config vote source known } x := by
  refine ⟨h.told, fun habove => (h.awaits habove).of_frame Iff.rfl rfl ?_ ?_ fun _ hp => ?_⟩
  · simp only [unread, hadmitting]
  · simp only [drainingTo, hadmitting]
  · refine hp.mono (fun a v hslot => ?_) nofun
    rcases slot_admitVote config vote source known with heq | ⟨hx, -⟩
    · exact .inl ⟨a, v, heq ▸ hslot⟩
    · exact .inr ⟨vote, source, known, hadmitting, hx⟩

theorem slot_prunePending_le (h : PendingVotes.slot g.prunePending x a = some v) :
    g.pendingVotes.slot x a = some v := by
  unfold prunePending at h
  split at h
  · rw [PendingVotes.slot_retain] at h
    split at h
    · exact h
    · cases h
  · exact h

theorem slot_prunePending (hopen : g.Open x) :
    PendingVotes.slot g.prunePending x a = g.pendingVotes.slot x a := by
  unfold prunePending
  split
  · next finalized hfinalized =>
    rw [PendingVotes.slot_retain, if_pos (decide_eq_true (hopen.2 finalized hfinalized))]
  · rfl

theorem Ordered.prune (h : g.Ordered x) :
    Ordered { g with finalizedUnread := false, pendingVotes := g.prunePending } x :=
  ⟨h.told, fun habove => (h.awaits habove).of_frame Iff.rfl rfl rfl rfl fun _ hp =>
    hp.mono (fun a v hslot => .inl ⟨a, v, slot_prunePending_le hslot⟩) fun _ _ _ _ => rfl⟩

end Steps

/-! ## Runs in order -/

section Runs

variable [DecidableEq A] [DecidableEq I] {config : GossipConfig} {g g' : Gossip H A I}
  {action : GossipAction H A I} {actions : List (GossipAction H A I)}

/-- **One step in order** keeps the invariant. -/
theorem Ordered.step (h : g.Ordered x) (horder : g.InOrder x action)
    (hstep : g.step config action = some g') : g'.Ordered x := by
  cases action with
  | store y =>
    obtain ⟨hidle, rfl⟩ := whenProduced_eq_some.1 hstep
    exact h.store hidle horder
  | attested y =>
    obtain ⟨hidle, rfl⟩ := whenProduced_eq_some.1 hstep
    exact h.blockAttested hidle
  | reverted y =>
    obtain ⟨-, rfl⟩ := whenProduced_eq_some.1 hstep
    exact Ordered.reverted horder
  | settings interval maxCatchup =>
    obtain ⟨-, rfl⟩ := whenProduced_eq_some.1 hstep
    exact ⟨h.told, fun habove => (h.awaits habove).of_frame Iff.rfl rfl rfl rfl fun _ hp => hp⟩
  | proceed => exact h.proceed hstep
  | receive vote source known =>
    obtain ⟨hidle, rfl⟩ := whenIdle_eq_some.1 hstep
    split
    · exact ⟨h.told, fun habove => (h.awaits habove).of_frame Iff.rfl rfl rfl rfl fun _ hp => hp⟩
    · next hdata => exact h.receive hidle hdata source known
  | admitPending =>
    obtain ⟨vote, source, known, hadmitting, rfl⟩ := of_step_admitPending hstep
    exact h.admitPending hadmitting
  | learn attestor peerId =>
    obtain ⟨-, rfl⟩ := whenIdle_eq_some.1 hstep
    exact ⟨h.told, fun habove => (h.awaits habove).of_frame Iff.rfl rfl rfl rfl fun _ hp => hp⟩
  | wake =>
    obtain ⟨hunread, hidle, rfl⟩ := step_wake_eq_some.1 hstep
    exact h.wake hidle hunread
  | read =>
    obtain ⟨hwaking, rfl⟩ := step_read_eq_some.1 hstep
    exact h.read hwaking
  | drain =>
    obtain ⟨y, hdraining, rfl⟩ := step_drain_eq_some.1 hstep
    exact h.drain hdraining
  | prune =>
    obtain ⟨-, -, rfl⟩ := step_prune_eq_some.1 hstep
    exact h.prune

/-- **Production is in order around a height** in every step of a run. -/
def InOrderRun (config : GossipConfig) (g : Gossip H A I) (x : ℕ)
    (actions : List (GossipAction H A I)) : Prop :=
  ∀ before action rest g', actions = before ++ action :: rest → g.run config before = some g' →
    g'.InOrder x action

theorem InOrderRun.head (h : g.InOrderRun config x (action :: actions)) : g.InOrder x action :=
  h [] action actions g rfl rfl

theorem InOrderRun.tail (h : g.InOrderRun config x (action :: actions))
    (hstep : g.step config action = some g') : g'.InOrderRun config x actions := by
  intro before action' rest g'' heq hrun
  refine h (action :: before) action' rest g'' (by rw [heq]; rfl) ?_
  rw [run, hstep]
  exact hrun

theorem inOrderRun_nil : g.InOrderRun config x [] := by
  intro before action rest g' heq
  exact absurd heq.symm (by simp)

theorem inOrderRun_cons (h : g.InOrder x action)
    (hrest : ∀ g', g.step config action = some g' → g'.InOrderRun config x actions) :
    g.InOrderRun config x (action :: actions) := by
  intro before action' rest g'' heq hrun
  cases before with
  | nil =>
    cases heq
    cases hrun
    exact h
  | cons first before =>
    cases heq
    obtain ⟨g', hstep, hrun⟩ := Option.bind_eq_some_iff.1 hrun
    exact hrest g' hstep before action' rest g'' rfl hrun

theorem Ordered.run {rest : List (GossipAction H A I)} (h : g.Ordered x)
    (horder : g.InOrderRun config x (actions ++ rest))
    (hrun : g.run config actions = some g') : g'.Ordered x ∧ g'.InOrderRun config x rest := by
  induction actions generalizing g with
  | nil =>
    cases hrun
    exact ⟨h, horder⟩
  | cons action actions ih =>
    obtain ⟨g₁, hstep, hrun⟩ := Option.bind_eq_some_iff.1 hrun
    exact ih (h.step horder.head hstep) (horder.tail hstep) hrun

/-! ### Above the finalized height -/

theorem Open.step (hopen : g.Open x) (h : g.Ordered x) (hbelow : action.Below x)
    (hstep : g.step config action = some g') : g'.Open x := by
  obtain ⟨habove, hfinalized⟩ := hopen
  cases action with
  | store _ | settings _ _ =>
    obtain ⟨-, rfl⟩ := whenProduced_eq_some.1 hstep
    exact ⟨habove, hfinalized⟩
  | attested y =>
    obtain ⟨-, rfl⟩ := whenProduced_eq_some.1 hstep
    unfold blockAttested
    split
    · exact ⟨fun z hz => Option.some.inj hz ▸ hbelow, fun z hz => Option.some.inj hz ▸ hbelow⟩
    · split
      · exact ⟨fun z hz => Option.some.inj hz ▸ hbelow, hfinalized⟩
      · exact ⟨habove, hfinalized⟩
  | reverted y =>
    obtain ⟨-, rfl⟩ := whenProduced_eq_some.1 hstep
    exact ⟨fun z hz => Option.some.inj hz ▸ hbelow, hfinalized⟩
  | proceed =>
    -- The height that is told is the one that the production task knows.
    have htold : ∀ y ∈ g.telling, y < x := fun y hy => habove y (h.told y hy)
    have hstep : g.proceed = some g' := hstep
    unfold proceed at hstep
    unfold telling at htold
    split at hstep
    · cases hstep
    · cases hstep
      exact ⟨habove, hfinalized⟩
    · next heq =>
      cases hstep
      rw [heq] at htold
      exact ⟨habove, htold⟩
    · cases hstep
      exact ⟨habove, hfinalized⟩
    · next heq =>
      cases hstep
      rw [heq] at htold
      exact ⟨habove, htold⟩
  | receive vote source known =>
    obtain ⟨-, rfl⟩ := whenIdle_eq_some.1 hstep
    split <;> exact ⟨habove, hfinalized⟩
  | admitPending =>
    obtain ⟨vote, source, known, -, rfl⟩ := of_step_admitPending hstep
    exact ⟨habove, hfinalized⟩
  | learn attestor peerId =>
    obtain ⟨-, rfl⟩ := whenIdle_eq_some.1 hstep
    exact ⟨habove, hfinalized⟩
  | wake =>
    obtain ⟨-, -, rfl⟩ := step_wake_eq_some.1 hstep
    exact ⟨habove, hfinalized⟩
  | read =>
    obtain ⟨-, rfl⟩ := step_read_eq_some.1 hstep
    exact ⟨habove, hfinalized⟩
  | drain =>
    obtain ⟨y, -, rfl⟩ := step_drain_eq_some.1 hstep
    exact ⟨habove, hfinalized⟩
  | prune =>
    obtain ⟨-, -, rfl⟩ := step_prune_eq_some.1 hstep
    exact ⟨habove, hfinalized⟩

theorem Open.run (hopen : g.Open x) (h : g.Ordered x) (horder : g.InOrderRun config x actions)
    (hbelow : ∀ action ∈ actions, action.Below x) (hrun : g.run config actions = some g') :
    g'.Open x := by
  induction actions generalizing g with
  | nil =>
    cases hrun
    exact hopen
  | cons action actions ih =>
    obtain ⟨g₁, hstep, hrun⟩ := Option.bind_eq_some_iff.1 hrun
    obtain ⟨hbelow₁, hbelow⟩ := List.forall_mem_cons.1 hbelow
    exact ih (hopen.step h hbelow₁ hstep) (h.step horder.head hstep) (horder.tail hstep) hbelow hrun

/-! ### A vote in the buffer -/

/-- A vote that is being admitted may take a place that is not free. -/
def TakesOver (g : Gossip H A I) (vote : Vote H A) : Prop :=
  ∃ source known, g.turn = .admitting vote source known ∧
    claimAuthenticated g.peersByAttestor source vote.attestor = some true

theorem step_buffer (hstep : g.step config action = some g') :
    g.verified ⊆ g'.verified ∧
      (g'.pendingVotes = g.pendingVotes ∨ action = .admitPending ∨ action = .drain ∨
        action = .prune) := by
  cases action with
  | store _ | reverted _ | settings _ _ =>
    obtain ⟨-, rfl⟩ := whenProduced_eq_some.1 hstep
    exact ⟨List.Subset.refl _, .inl rfl⟩
  | attested y =>
    obtain ⟨-, rfl⟩ := whenProduced_eq_some.1 hstep
    unfold blockAttested
    split
    · exact ⟨List.Subset.refl _, .inl rfl⟩
    · split <;> exact ⟨List.Subset.refl _, .inl rfl⟩
  | proceed =>
    have hstep : g.proceed = some g' := hstep
    unfold proceed at hstep
    split at hstep <;> cases hstep <;> exact ⟨List.Subset.refl _, .inl rfl⟩
  | receive vote source known =>
    obtain ⟨-, rfl⟩ := whenIdle_eq_some.1 hstep
    split
    · exact ⟨List.subset_append_left _ _, .inl rfl⟩
    · exact ⟨List.Subset.refl _, .inl rfl⟩
  | admitPending =>
    obtain ⟨vote, source, known, -, rfl⟩ := of_step_admitPending hstep
    exact ⟨List.Subset.refl _, .inr (.inl rfl)⟩
  | learn attestor peerId =>
    obtain ⟨-, rfl⟩ := whenIdle_eq_some.1 hstep
    exact ⟨List.Subset.refl _, .inl rfl⟩
  | wake =>
    obtain ⟨-, -, rfl⟩ := step_wake_eq_some.1 hstep
    exact ⟨List.Subset.refl _, .inl rfl⟩
  | read =>
    obtain ⟨-, rfl⟩ := step_read_eq_some.1 hstep
    exact ⟨List.Subset.refl _, .inl rfl⟩
  | drain =>
    obtain ⟨y, -, rfl⟩ := step_drain_eq_some.1 hstep
    exact ⟨List.subset_append_left _ _, .inr (.inr (.inl rfl))⟩
  | prune =>
    obtain ⟨-, -, rfl⟩ := step_prune_eq_some.1 hstep
    exact ⟨List.Subset.refl _, .inr (.inr (.inr rfl))⟩

theorem verified_subset_run (hrun : g.run config actions = some g') : g.verified ⊆ g'.verified := by
  induction actions generalizing g with
  | nil =>
    cases hrun
    exact List.Subset.refl _
  | cons action actions ih =>
    obtain ⟨g₁, hstep, hrun⟩ := Option.bind_eq_some_iff.1 hrun
    exact List.Subset.trans (step_buffer hstep).1 (ih hrun)

/-- **What a step does to a vote in the buffer.** -/
theorem held_step (h : g.Ordered x) (hopen : g.Open x) (hheld : g.pendingVotes.slot x a = some v)
    (hstep : g.step config action = some g') :
    v ∈ g'.verified ∨ g'.pendingVotes.slot x a = some v ∨
      ∃ v', action = .admitPending ∧ g.TakesOver v' ∧ v'.height = x ∧ v'.attestor = a ∧
        g'.pendingVotes.slot x a = some v' := by
  rcases (step_buffer hstep).2 with heq | rfl | rfl | rfl
  · rw [heq]
    exact .inr (.inl hheld)
  · obtain ⟨vote, source, known, hadmitting, rfl⟩ := of_step_admitPending hstep
    rcases slot_admitVote config vote source known with heq | ⟨hx, ha, hslot, hfree | hclaim⟩
    · exact .inr (.inl (heq.trans hheld))
    · rw [hheld] at hfree
      cases hfree
    · exact .inr (.inr ⟨vote, rfl, ⟨source, known, hadmitting, hclaim⟩, hx, ha, hslot⟩)
  · obtain ⟨y, hdraining, rfl⟩ := step_drain_eq_some.1 hstep
    by_cases hle : x ≤ y
    · -- There is local data, since otherwise no signal would be at or above `x`.
      have hdata : x ∈ g.localData := by
        by_contra hdata
        have hy : y ∈ g.drainingTo := by rw [drainingTo, hdraining]; rfl
        have hlt := ((h.awaits hopen.1).unsignalled hdata).2.2 y hy
        exact absurd hle (not_le.2 hlt)
      exact .inl (List.mem_append_right _
        (mem_drainPendingVotes _ hheld hle (decide_eq_true hdata)))
    · refine .inr (.inl ?_)
      show (drainPendingVotes _ _ _).2.slot x a = some v
      rw [slot_drainPendingVotes, if_neg hle, hheld]
  · obtain ⟨-, -, rfl⟩ := step_prune_eq_some.1 hstep
    exact .inr (.inl ((slot_prunePending hopen).trans hheld))

/-- While the vote of an attestor for a height is held, another one takes its place. -/
def Displaced (config : GossipConfig) (g : Gossip H A I) (actions : List (GossipAction H A I))
    (x : ℕ) (a : A) (v : Vote H A) : Prop :=
  ∃ before rest g' v', actions = before ++ .admitPending :: rest ∧ g.run config before = some g' ∧
    g'.pendingVotes.slot x a = some v ∧ g'.TakesOver v' ∧ v'.height = x ∧ v'.attestor = a ∧ v' ≠ v

theorem Displaced.cons (h : g'.Displaced config actions x a v)
    (hstep : g.step config action = some g') : g.Displaced config (action :: actions) x a v := by
  obtain ⟨before, rest, g₁, v', heq, hrun, hrest⟩ := h
  refine ⟨action :: before, rest, g₁, v', by rw [heq]; rfl, ?_, hrest⟩
  rw [run, hstep]
  exact hrun

/-- **What a run does to a vote in the buffer.** -/
theorem held_run (h : g.Ordered x) (hopen : g.Open x) (hheld : g.pendingVotes.slot x a = some v)
    (horder : g.InOrderRun config x actions) (hbelow : ∀ action ∈ actions, action.Below x)
    (hrun : g.run config actions = some g') :
    g.Displaced config actions x a v ∨ v ∈ g'.verified ∨ g'.pendingVotes.slot x a = some v := by
  induction actions generalizing g with
  | nil =>
    cases hrun
    exact .inr (.inr hheld)
  | cons action actions ih =>
    obtain ⟨g₁, hstep, hrun⟩ := Option.bind_eq_some_iff.1 hrun
    obtain ⟨hbelow₁, hbelow⟩ := List.forall_mem_cons.1 hbelow
    have hrest : g₁.pendingVotes.slot x a = some v →
        g.Displaced config (action :: actions) x a v ∨ v ∈ g'.verified ∨
          g'.pendingVotes.slot x a = some v := fun hheld₁ =>
      (ih (h.step horder.head hstep) (hopen.step h hbelow₁ hstep) hheld₁ (horder.tail hstep) hbelow
        hrun).imp_left fun hdisplaced => hdisplaced.cons hstep
    rcases held_step h hopen hheld hstep with hverified | hheld₁ | ⟨w, rfl, htakes, hx, ha, hheld₁⟩
    · exact .inr (.inl (verified_subset_run hrun hverified))
    · exact hrest hheld₁
    · by_cases hw : w = v
      · exact hrest (hw ▸ hheld₁)
      · exact .inl ⟨[], actions, g, w, rfl, rfl, hheld, htakes, hx, ha, hw⟩

theorem handed_next (h : g.Awaits x) (hheld : g.pendingVotes.slot x a = some v)
    (hdata : x ∈ g.localData) (hproduction : g.production = .idle) (hturn : g.turn = .idle) :
    ∃ g', g.run config [.wake, .read, .drain] = some g' ∧ v ∈ g'.verified := by
  rcases h.signalled hdata (.inl ⟨a, v, hheld⟩) with ⟨y, hy, hle⟩ | ⟨y, hy, -⟩
  · rw [announced_of_idle hproduction, Option.none_or, unread, hturn] at hy
    obtain ⟨hunread, hproduced⟩ : g.producedUnread = true ∧ g.localProduced = some y := by
      have hy : (if g.producedUnread then g.localProduced else none) = some y := hy
      split at hy
      · next hunread => exact ⟨hunread, hy⟩
      · cases hy
    have hwake : g.step config .wake = some { g with turn := .waking, producedUnread := false } :=
      step_wake_eq_some.2 ⟨hunread, hturn, rfl⟩
    have hread : step { g with turn := .waking, producedUnread := false } config .read =
        some { g with turn := .draining y, producedUnread := false } :=
      step_read_eq_some.2 ⟨rfl, by simp [hproduced]⟩
    have hdrain : step { g with turn := .draining y, producedUnread := false } config .drain =
        some (drainPending { g with turn := .draining y, producedUnread := false } y) :=
      step_drain_eq_some.2 ⟨y, rfl, rfl⟩
    refine ⟨drainPending { g with turn := .draining y, producedUnread := false } y, ?_, ?_⟩
    · rw [run, hwake, Option.bind_some, run, hread, Option.bind_some, run, hdrain]
      rfl
    · exact List.mem_append_right _ (mem_drainPendingVotes _ hheld hle (decide_eq_true hdata))
  · rw [drainingTo, hturn] at hy
    cases hy

end Runs

end Gossip

/-! ## Early votes -/

section Main

variable [DecidableEq A] [DecidableEq I]

/-- **Early votes are kept.** A run of the two tasks reaches a state in which the buffer holds a
vote for `x`, with `x` above the finalized height, and goes on without finalizing `x` or above. If
production is in order around `x`, and no authenticated vote of the same attestor takes the place of
the vote, then it has been handed to verification or is still held. If it is still held and `x` has
been produced, the next turn of the gossip task hands it over. -/
theorem early_vote_kept (config : GossipConfig) (attestationInterval maxCatchup : ℕ+)
    (startAttestation : Option ℕ) {before after : List (GossipAction H A I)}
    {g g' : Gossip H A I}
    (hbefore : (Gossip.new attestationInterval maxCatchup startAttestation).run config before =
      some g)
    (hafter : g.run config after = some g')
    (horder : (Gossip.new attestationInterval maxCatchup startAttestation).InOrderRun config x
      (before ++ after))
    (hheld : g.pendingVotes.slot x a = some v) (hopen : g.Open x)
    (hbelow : ∀ action ∈ after, action.Below x) (hplace : ¬ g.Displaced config after x a v) :
    v ∈ g'.verified ∨ g'.pendingVotes.slot x a = some v ∧
      (x ∈ g'.localData → g'.production = .idle → g'.turn = .idle →
        ∃ g'', g'.run config [.wake, .read, .drain] = some g'' ∧ v ∈ g''.verified) := by
  obtain ⟨hordered, horder⟩ := (Gossip.ordered_new _ _ _).run horder hbefore
  refine ((Gossip.held_run hordered hopen hheld horder hbelow hafter).resolve_left hplace).imp_right
    fun hheld' => ⟨hheld', ?_⟩
  have hordered' := (hordered.run (by rwa [List.append_nil]) hafter).1
  have habove := Gossip.Open.run hopen hordered horder hbelow hafter
  exact Gossip.handed_next (hordered'.awaits habove.1) hheld'

end Main

/-! ## Two nodes that catch up -/

namespace CatchUp

/-- Block `80` is finalized and every tenth block is attested. -/
def config : GossipConfig := ⟨0, 81, 4⟩

def vote (height : ℕ) : Vote ℕ ℕ := ⟨1, height, height, 1, .zero⟩

/-- A vote is received and kept. -/
def early (height : ℕ) : List (GossipAction ℕ ℕ ℕ) :=
  [.receive (vote height) none true, .admitPending]

def produce (height : ℕ) : List (GossipAction ℕ ℕ ℕ) := [.store height, .proceed]

/-- The gossip task sees a signal. -/
def turn : List (GossipAction ℕ ℕ ℕ) := [.wake, .read, .drain]

/-- While a vote is held, the same attestor seems to vote for something else. -/
def claim : List (GossipAction ℕ ℕ ℕ) :=
  [.receive ⟨1, 90, 7, 1, .zero⟩ (some 6) true, .admitPending]

theorem inOrderRun_ninety :
    (Gossip.new 10 20 (some 80)).InOrderRun config 90 (early 90 ++ (claim ++ produce 90)) := by
  refine Gossip.inOrderRun_cons trivial fun g _ => ?_
  refine Gossip.inOrderRun_cons trivial fun g _ => ?_
  refine Gossip.inOrderRun_cons trivial fun g _ => ?_
  refine Gossip.inOrderRun_cons trivial fun g _ => ?_
  refine Gossip.inOrderRun_cons Gossip.inOrder_store_self fun g _ => ?_
  refine Gossip.inOrderRun_cons trivial fun g _ => ?_
  exact Gossip.inOrderRun_nil

/-- With block `90` produced first, a vote for it is handed over in the next turn. A claim to
another vote of the attestor, which is not authenticated, does not displace it. -/
theorem ninetieth_kept :
    ∃ g g', (Gossip.new 10 20 (some 80)).run config (early 90) = some g ∧
      g.pendingVotes.slot 90 1 = some (vote 90) ∧
      g.run config (claim ++ produce 90) = some g' ∧
      (vote 90 ∈ g'.verified ∨ g'.pendingVotes.slot 90 1 = some (vote 90) ∧
        ∃ g'', g'.run config turn = some g'' ∧ vote 90 ∈ g''.verified) := by
  obtain ⟨g, hbefore, hheld, habove, hfinalized⟩ : ∃ g,
      (Gossip.new 10 20 (some 80)).run config (early 90) = some g ∧
        g.pendingVotes.slot 90 1 = some (vote 90) ∧ g.latestCc3 = some 80 ∧
        g.latestFinalized = some 80 := ⟨_, rfl, rfl, rfl, rfl⟩
  have hopen : g.Open 90 := by simp [Gossip.Open, Gossip.Above, habove, hfinalized]
  have hbelow : ∀ action ∈ claim ++ produce 90, action.Below 90 := by
    simp [claim, produce, GossipAction.Below]
  have hplace : ¬ g.Displaced config (claim ++ produce 90) 90 1 (vote 90) := by
    rintro ⟨before, rest, g₁, v', heq, hrun, -, ⟨source, known, hturn, hclaim⟩, -⟩
    -- Only the second action admits a vote, and no peers are known then.
    rcases before with _ | ⟨_, _ | ⟨_, _ | ⟨_, _ | ⟨_, _⟩⟩⟩⟩ <;> simp [claim, produce] at heq
    obtain ⟨rfl, -⟩ := heq
    cases hbefore
    cases hrun
    cases hturn
    cases hclaim
  obtain ⟨g', hafter, hdata, hproduction, hturn⟩ : ∃ g',
      g.run config (claim ++ produce 90) = some g' ∧ 90 ∈ g'.localData ∧
        g'.production = .idle ∧ g'.turn = .idle := by
    cases hbefore
    exact ⟨_, rfl, by decide, rfl, rfl⟩
  exact ⟨g, g', hbefore, hheld, hafter, (early_vote_kept config 10 20 (some 80) hbefore hafter
    inOrderRun_ninety hheld hopen hbelow hplace).imp_right fun h =>
      ⟨h.1, h.2 hdata hproduction hturn⟩⟩

/-- In a catch-up block `100` is produced before block `90`. A vote for block `90` is dropped when
the signal is read in between, and a vote for block `100` is left in the buffer when it is not. -/
theorem exists_early_vote_lost :
    (∃ g g', (Gossip.new 10 20 (some 80)).run config (early 90) = some g ∧
      g.pendingVotes.slot 90 1 = some (vote 90) ∧
      g.run config (produce 100 ++ turn ++ produce 90 ++ turn) = some g' ∧
      90 ∈ g'.localData ∧ g'.pendingVotes.slot 90 1 = none ∧ g'.verified = []) ∧
    ∃ g g', (Gossip.new 10 20 (some 80)).run config (early 100) = some g ∧
      g.pendingVotes.slot 100 1 = some (vote 100) ∧
      g.run config (produce 100 ++ produce 90 ++ turn) = some g' ∧
      100 ∈ g'.localData ∧ g'.producedUnread = false ∧ g'.verified = [] :=
  ⟨⟨_, _, rfl, rfl, rfl, by decide, rfl, rfl⟩, _, _, rfl, rfl, rfl, by decide, rfl, rfl⟩

end CatchUp

end Creditcoin.Attestor
