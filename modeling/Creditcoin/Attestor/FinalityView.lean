import Creditcoin.Attestor.Production
import Creditcoin.Attestor.PoolSafety
import Creditcoin.Attestor.StreamSafety
import Creditcoin.Attestation.Histories
import Creditcoin.Attestation.Reverts

/-!
# What an attestor takes to be finalized

The stream, the pool and the watch of a node have the same finalized point (`Production.Sees`),
which moves as the events of the runtime tell (`finalizedAfter`). A forward patch moves the last
finalized point of the runtime without an event: the two part there (`exists_finality_lost`), and
only there (`finality_view`). -/

namespace Creditcoin.Attestor

variable {H A B : Type}

/-! ## The node -/

def finalizedAfter (point : AttestationInfo H) : CcEvent H A → AttestationInfo H
  | .blockAttested headerNumber digest =>
    if point.height < headerNumber then ⟨headerNumber, digest, headerNumber.isLt⟩ else point
  | .revertedAttestationChainTo height digest => ⟨height, digest, height.isLt⟩
  | _ => point

/-- The event that is handled. -/
def NodeAction.ccEvent : NodeAction H A → Option (CcEvent H A)
  | .event e _ => some e
  | _ => none

/-- The events about attestations and checkpoints among what happened. -/
def anchorEvents (actions : List (NodeAction H A)) : List (CcEvent H A) :=
  (actions.filterMap NodeAction.ccEvent).filter CcEvent.isAnchorEvent

/-- Everything in the task that says what is finalized says `point`. -/
structure Production.Sees (p : Production H A) (point : AttestationInfo H) : Prop where
  latest_eq : p.latestCc3 = point
  stream_eq : p.stream.attestationPrev = point
  pool_eq : p.shared.pool.forks.lastFinalizedHeight = some point.height
  watch_eq : p.shared.latestFinalized = some point

theorem Production.sees_start [DecidableEq A] (config : StartConfig H A) :
    (Production.start config).Sees config.startAttestation :=
  ⟨rfl, rfl, rfl, rfl⟩

/-- The finalized point in what the tasks share is left alone. -/
structure Shared.Keeps (sh sh' : Shared H A) : Prop where
  pool_eq : sh'.pool.forks.lastFinalizedHeight = sh.pool.forks.lastFinalizedHeight
  watch_eq : sh'.latestFinalized = sh.latestFinalized

theorem Shared.Keeps.trans {sh sh' sh'' : Shared H A} (h : sh.Keeps sh') (h' : sh'.Keeps sh'') :
    sh.Keeps sh'' :=
  ⟨h'.pool_eq.trans h.pool_eq, h'.watch_eq.trans h.watch_eq⟩

theorem Shared.keeps_applyEligibility (sh : Shared H A) (eligible : Bool) :
    sh.Keeps (sh.applyEligibility eligible) := by
  unfold applyEligibility
  split <;> exact ⟨rfl, rfl⟩

theorem Shared.keeps_warmedUp (sh : Shared H A) (gen : ℕ) : sh.Keeps (sh.warmedUp gen) := by
  unfold warmedUp
  split <;> exact ⟨rfl, rfl⟩

section Node

variable [DecidableEq H] [DecidableEq A] {p p' : Production H A} {point : AttestationInfo H}
  {sh sh' : Shared H A} {rpc : Rpc A}

theorem Shared.keeps_onPool (sh : Shared H A) {action : PoolAction H A} (hreset : ¬ action.Resets)
    (hfinal : action.finalizes = none) : sh.Keeps (sh.onPool action) :=
  ⟨(sh.pool.step_frame hreset hfinal).2, rfl⟩

theorem Shared.keeps_refreshQuorum (h : sh.refreshQuorum rpc = some sh') : sh.Keeps sh' := by
  obtain ⟨threshold, -, rfl⟩ := Option.map_eq_some_iff.1 h
  exact sh.keeps_onPool id rfl

theorem Shared.keeps_noteCommittee {attestors : List A}
    (h : sh.noteCommittee rpc attestors = some sh') : sh.Keeps sh' := by
  simp only [noteCommittee, Option.bind_eq_bind, Option.bind_eq_some_iff, Option.pure_def,
    Option.some.injEq] at h
  obtain ⟨-, -, sh₁, hquorum, rfl⟩ := h
  have helected : sh.Keeps (sh.onPool (.noteAttestorsElected attestors)) := sh.keeps_onPool id rfl
  exact (helected.trans (keeps_refreshQuorum hquorum)).trans (sh₁.keeps_applyEligibility _)

theorem Shared.keeps_reconcileCommitteeFromChain
    (h : sh.reconcileCommitteeFromChain rpc = some sh') : sh.Keeps sh' := by
  obtain ⟨attestors, -, hcommittee⟩ := Option.bind_eq_some_iff.1 h
  exact keeps_noteCommittee hcommittee

namespace Production

omit [DecidableEq H] [DecidableEq A] in
theorem Sees.of_keeps (h : p.Sees point) (hkeeps : p.shared.Keeps sh') :
    Sees { p with shared := sh' } point :=
  ⟨h.latest_eq, h.stream_eq, hkeeps.pool_eq.trans h.pool_eq, hkeeps.watch_eq.trans h.watch_eq⟩

theorem Sees.noteFinalized (h : p.Sees point) (info : AttestationInfo H) :
    (p.noteFinalized info).Sees (if point.height < info.height then info else point) := by
  unfold Production.noteFinalized
  rw [h.latest_eq]
  split
  · next hlt =>
    refine ⟨rfl, ?_, rfl, rfl⟩
    show (p.stream.noteAttestationFinalization info).attestationPrev = info
    rw [StreamAttestation.noteAttestationFinalization, if_pos (h.stream_eq ▸ hlt.le)]
  · exact h

/-- **Handling an event** moves the finalized point as the event tells. -/
theorem Sees.handleOne (h : p.Sees point) {event : CcEvent H A}
    (hevent : p.handleOne rpc event = some p') : p'.Sees (finalizedAfter point event) := by
  cases event with
  | blockAttested headerNumber digest =>
    cases hevent
    exact h.noteFinalized ⟨headerNumber, digest, headerNumber.isLt⟩
  | revertedAttestationChainTo height digest =>
    cases hevent
    exact ⟨rfl, rfl, rfl, rfl⟩
  | attestationIntervalChanged _ | maxCatchupChanged _ =>
    simp only [Production.handleOne] at hevent
    split at hevent
    · cases hevent
      exact ⟨h.latest_eq, h.stream_eq, h.pool_eq, h.watch_eq⟩
    · cases hevent
      exact h
  | targetSampleSizeChanged size =>
    obtain ⟨sh, hsh, rfl⟩ := Option.map_eq_some_iff.1 hevent
    exact h.of_keeps (Shared.keeps_refreshQuorum hsh)
  | attestorsElected attestors =>
    obtain ⟨sh, hsh, rfl⟩ := Option.map_eq_some_iff.1 hevent
    exact h.of_keeps (Shared.keeps_noteCommittee hsh)
  | attestorChilled _ | attestorKicked _ | randomnessChanged _ =>
    obtain ⟨sh, hsh, rfl⟩ := Option.map_eq_some_iff.1 hevent
    exact h.of_keeps (Shared.keeps_reconcileCommitteeFromChain hsh)
  | attestorActivated _ | attestationChainGenesisBlockNumberSet _ | checkpointReached _
  | checkpointIntervalChanged _ =>
    cases hevent
    exact h

variable {keccak : ℕ → H → Option H → H} {zero : H} {source : ℕ → H × H}
  {sign : AttestationData H → BlsSignature}

theorem Sees.poll (h : p.Sees point) {fuel : ℕ} {answers : List Answers}
    (hstep : p.step keccak zero source sign (.poll fuel answers) = some p') : p'.Sees point := by
  have hkeeps := StreamAttestation.keeps_pollNext keccak zero source fuel p.stream answers
  simp only [Production.step] at hstep
  split at hstep
  · split at hstep
    · next x stream heq =>
      rw [heq] at hkeeps
      cases hstep
      have hstream : Sees { p with stream := stream } point :=
        ⟨h.latest_eq, hkeeps.prev_eq.trans h.stream_eq, h.pool_eq, h.watch_eq⟩
      exact hstream.of_keeps ((p.shared.keeps_onPool id rfl).trans ⟨rfl, rfl⟩)
    · next stream heq =>
      rw [heq] at hkeeps
      cases hstep
      exact ⟨h.latest_eq, hkeeps.prev_eq.trans h.stream_eq, h.pool_eq, h.watch_eq⟩
    · next stream heq =>
      rw [heq] at hkeeps
      cases hstep
      exact ⟨h.latest_eq, hkeeps.prev_eq.trans h.stream_eq, h.pool_eq, h.watch_eq⟩
    · cases hstep
    · cases hstep
  · cases hstep
    exact h

omit [DecidableEq H] [DecidableEq A] in
theorem finalizedAfter_of_not_isAnchorEvent {event : CcEvent H A}
    (h : event.isAnchorEvent = false) : finalizedAfter point event = point := by
  cases event <;> first | rfl | cases h

theorem Sees.step (h : p.Sees point) {action : NodeAction H A}
    (hstep : p.step keccak zero source sign action = some p') :
    p'.Sees ((anchorEvents [action]).foldl finalizedAfter point) := by
  cases action with
  | event event rpc =>
    have hevent := h.handleOne hstep
    rcases hanchor : event.isAnchorEvent with _ | _
    · rw [finalizedAfter_of_not_isAnchorEvent hanchor] at hevent
      simpa [anchorEvents, NodeAction.ccEvent, hanchor] using hevent
    · simpa [anchorEvents, NodeAction.ccEvent, hanchor] using hevent
  | poll fuel answers => exact h.poll hstep
  | warmedUp gen =>
    cases hstep
    exact h.of_keeps (p.shared.keeps_warmedUp gen)
  | pool action hlocal =>
    cases hstep
    refine h.of_keeps (p.shared.keeps_onPool ?_ ?_)
    · cases action <;> first | exact id | cases hlocal
    · cases action <;> first | rfl | cases hlocal

/-- **A running node** has the finalized point that the events tell. -/
theorem Sees.run (h : p.Sees point) {actions : List (NodeAction H A)}
    (hrun : p.run keccak zero source sign actions = some p') :
    p'.Sees ((anchorEvents actions).foldl finalizedAfter point) := by
  induction actions generalizing p point with
  | nil =>
    cases hrun
    exact h
  | cons action actions ih =>
    obtain ⟨p₁, hstep, hrun⟩ := Option.bind_eq_some_iff.1 hrun
    have hsplit :
      anchorEvents (action :: actions) = anchorEvents [action] ++ anchorEvents actions := by
      rw [anchorEvents, anchorEvents, anchorEvents, ← List.filter_append, ← List.filterMap_append]
      rfl
    rw [hsplit, List.foldl_append]
    exact ih (h.step hstep) hrun

end Production

end Node

/-! ## The runtime -/

section Runtime

variable [DecidableEq H] [DecidableEq A] (T : Config H A B) (k : ChainKey)

/-- The last finalized point that the events of the runtime tell. -/
def replayed (A : Type) (point : AttestationInfo H) (events : List (AnchorEvent H)) :
    AttestationInfo H :=
  (events.filterMap (AnchorEvent.toCcEvent (A := A))).foldl finalizedAfter point

/-- A forward patch of the chain leaves the last finalized point where it is. -/
def KeepsPoint (s : State H A B) : Action T → Prop
  | .call host o (.forwardPatchCheckpoints k' wipe batch) => k' = k →
    ((step T s (.call host o (.forwardPatchCheckpoints k' wipe batch))).chain T
      k).anchors.lastFinalized =
      (s.chain T k).anchors.lastFinalized
  | _ => True

variable {T k} {s : State H A B} {point : AttestationInfo H}

omit [DecidableEq H] [DecidableEq A] in
theorem replayed_append (events events' : List (AnchorEvent H)) :
    replayed A point (events ++ events') = replayed A (replayed A point events) events' := by
  unfold replayed
  rw [List.filterMap_append, List.foldl_append]

omit [DecidableEq H] [DecidableEq A] in
theorem replayed_checkpoints (cps : List (AttestationCheckpoint H)) :
    replayed A point (cps.map .checkpointReached) = point := by
  induction cps with
  | nil => rfl
  | cons c cps ih => exact ih

/-- **Replay of a step**: the last finalized point moves as the events tell. -/
theorem replayed_step (hreach : Reachable T s) {act : Action T} (hlive : (step T s act).Live k)
    (hkeeps : KeepsPoint T k s act)
    (hpoint : (s.chain T k).anchors.lastFinalized = some (point.height, point.digest)) :
    ∃ new, ((step T s act).chain T k).anchors.events = (s.chain T k).anchors.events ++ new ∧
      ((step T s act).chain T k).anchors.lastFinalized =
        some ((replayed A point new).height, (replayed A point new).digest) := by
  obtain ⟨hl, hmove⟩ := step_chainMove hreach.keysBelow hlive
  have hwf := wellFormed_of_live hreach hl
  generalize hc : (step T s act).chain T k = c at hmove
  cases hmove with
  | @commit att a n hact h =>
    obtain ⟨haccepted, cps, popped, kept, m, rfl, -⟩ :=
      doCommitAttestation_effect hwf.bounded hwf.tracked.proofsBounded h
    have habove : point.height < att.headerNumber := haccepted.above_lastFinalized hpoint
    have hheader : (Fin.ofNat (2 ^ 64) att.headerNumber : ℕ) = att.headerNumber :=
      Nat.mod_eq_of_lt att.attestation.headerNumber_lt
    refine ⟨[.blockAttested att.headerNumber (att.digest T.keccak)] ++ cps.map .checkpointReached,
      ?_, ?_⟩
    · rw [storeAttestation_eq s.blockNumber haccepted.above_digest, ← List.append_assoc]
      rfl
    · have hreplayed : replayed A point [.blockAttested att.headerNumber (att.digest T.keccak)] =
          ⟨_, att.digest T.keccak, (Fin.ofNat (2 ^ 64) att.headerNumber).2⟩ :=
        if_pos (hheader.symm ▸ habove)
      rw [replayed_append, replayed_checkpoints, hreplayed,
        storeAttestation_eq s.blockNumber haccepted.above_digest]
      exact congrArg (fun n => some (n, att.digest T.keccak)) hheader.symm
  | @operator host o call a hnone hact h =>
    obtain rfl := hact
    cases h with
    | imports h =>
      obtain ⟨-, cps, last, rfl, himports⟩ := doImportCheckpoints_effect h
      refine ⟨cps.map .checkpointReached, rfl, ?_⟩
      rw [replayed_checkpoints]
      rcases himports.last_cases with ⟨rfl, -⟩ | ⟨hlast, hdigest, -⟩
      · exact hpoint
      · rw [Anchors.lastFinalized, hlast, hdigest] at hpoint
        cases hpoint
    | @revert height a' _ kill h =>
      obtain ⟨-, -, -, digest, last, -, -, rfl⟩ := revertTo_effect h
      have hheight : (Fin.ofNat (2 ^ 64) (height : ℕ) : ℕ) = height := Nat.mod_eq_of_lt height.2
      refine ⟨[.revertedAttestationChainTo height digest], rfl, ?_⟩
      exact congrArg (fun n => some (n, digest)) hheight.symm
    | patch kill h =>
      obtain ⟨-, -, -, tip, -, rfl⟩ := doForwardPatchCheckpoints_effect h
      refine ⟨_, List.append_assoc _ _ _, ?_⟩
      rw [replayed_append, replayed_checkpoints]
      have hkept := hkeeps rfl
      rw [hc] at hkept
      exact hkept.trans hpoint
  | idle hnone h =>
    have hswept := (swept_of_idle hwf h).2
    refine ⟨[], by rw [hswept.events_eq, List.append_nil], ?_⟩
    rw [Anchors.lastFinalized, hswept.lastDigest_eq, hswept.lastCheckpoint_eq]
    exact hpoint

/-- **Replay of a run.** -/
theorem replayed_run (hreach : Reachable T s) {acts : List (Action T)}
    (hlive : (run T s acts).Live k) (hkeeps : AlongRun (KeepsPoint T k) s acts)
    (hpoint : (s.chain T k).anchors.lastFinalized = some (point.height, point.digest)) :
    ∃ new, ((run T s acts).chain T k).anchors.events = (s.chain T k).anchors.events ++ new ∧
      ((run T s acts).chain T k).anchors.lastFinalized =
        some ((replayed A point new).height, (replayed A point new).digest) := by
  induction acts generalizing s point with
  | nil => exact ⟨[], (List.append_nil _).symm, hpoint⟩
  | cons act acts ih =>
    have hnext := hreach.step act
    have hlive₁ := live_of_run hnext.keysBelow acts hlive
    obtain ⟨new, hnew, hpoint₁⟩ := replayed_step hreach hlive₁ hkeeps.1 hpoint
    obtain ⟨more, hmore, hpoint₂⟩ := ih hnext hlive hkeeps.2 hpoint₁
    refine ⟨new ++ more, ?_, ?_⟩
    · rw [run_cons, hmore, hnew, List.append_assoc]
    · rw [replayed_append]
      exact hpoint₂

/-- **An attestor's view of finality.** A node agrees with the runtime on the last finalized point.
The runtime performs any operations, but no forward patch moves that point. Once the node has
handled their events, in their order and with anything else in between, its stream, its pool and its
watch agree with the runtime again. -/
theorem finality_view (hreach : Reachable T s) {acts : List (Action T)}
    (hsup : (run T s acts).isChainSupported k = true) (hkeeps : AlongRun (KeepsPoint T k) s acts)
    (hpoint : (s.chain T k).anchors.lastFinalized = some (point.height, point.digest))
    {p p' : Production H A} (hp : p.Sees point) {source : ℕ → H × H}
    {sign : AttestationData H → BlsSignature} {actions : List (NodeAction H A)}
    (hevents : anchorEvents actions = ((s.chain T k).anchors.eventsSince
      ((run T s acts).chain T k).anchors).filterMap AnchorEvent.toCcEvent)
    (hrun : p.run T.keccak T.zero source sign actions = some p') :
    ∃ point', ((run T s acts).chain T k).anchors.lastFinalized =
        some (point'.height, point'.digest) ∧
      p'.stream.attestationPrev = point' ∧
      p'.shared.pool.forks.lastFinalizedHeight = some point'.height ∧
      p'.shared.latestFinalized = some point' ∧ p'.latestCc3 = point' := by
  obtain ⟨new, hnew, hlast⟩ := replayed_run hreach (.inl hsup) hkeeps hpoint
  have hsees := hp.run hrun
  rw [hevents, Anchors.eventsSince, hnew, List.drop_left] at hsees
  exact ⟨replayed A point new, hlast, hsees.stream_eq, hsees.pool_eq, hsees.watch_eq,
    hsees.latest_eq⟩

end Runtime

/-! ## On a development network -/

section Devnet

open Devnet

/-- An attestor that starts at the first attestation of the network. -/
def attendant : Production Word ℕ :=
  .start ⟨1, 1, [1], ⟨1, Nat.one_pos⟩, 10, 500, 1, .of 0 (.first 0 (.root 0))⟩

/-- The node handles events for which it asks for nothing. -/
def handles (events : List (CcEvent Word ℕ)) : List (NodeAction Word ℕ) :=
  events.map fun event => .event event ⟨none, none, false⟩

/-- What the node runs on: the roots are the heights, and signatures are zero. -/
def attendantRun (actions : List (NodeAction Word ℕ)) : Option (Production Word ℕ) :=
  attendant.run config.keccak config.zero (fun n => (.root n, .zero))
    (fun _ => .zero) actions

/-- The digest of the second attestation of the network. -/
def secondDigest : Word := (nextAttestation (started 10 10) 12).digest config.keccak

/-- The attestor follows the second attestation. -/
theorem devnet_finality_view :
    ∃ p', attendantRun (handles [.blockAttested 12 secondDigest]) = some p' ∧
      p'.stream.attestationPrev.height = 12 ∧
        p'.shared.pool.forks.lastFinalizedHeight = some 12 := by
  have hreach : Reachable config (started 10 10) := reachable_after (by rfl) _
  have hsup : (run config (started 10 10) [commit (nextAttestation (started 10 10)
      12)]).isChainSupported 1 = true := by rfl
  have hsees : attendant.Sees ⟨0, .first 0 (.root 0), by decide⟩ := Production.sees_start _
  have hevents : anchorEvents (handles [.blockAttested 12 secondDigest]) =
      (((started 10 10).chain config 1).anchors.eventsSince ((run config (started 10 10)
        [commit (nextAttestation (started 10 10) 12)]).chain config 1).anchors).filterMap
          AnchorEvent.toCcEvent := by rfl
  have hlast : ((run config (started 10 10) [commit (nextAttestation (started 10 10) 12)]).chain
      config 1).anchors.lastFinalized = some (12, secondDigest) := by rfl
  obtain ⟨point', hpoint, hstream, hpool, -⟩ := finality_view hreach hsup ⟨trivial, trivial⟩
    (by rfl) hsees hevents
    (rfl : attendantRun (handles [.blockAttested 12 secondDigest]) = some _)
  rw [hlast, Option.some.injEq, Prod.mk.injEq] at hpoint
  exact ⟨_, rfl, hstream ▸ hpoint.1.symm, hpool.trans (congrArg some hpoint.1.symm)⟩

/-- **A forward patch is lost on attestors.** -/
theorem exists_finality_lost :
    ∃ (s : State Word ℕ Unit) (act : Action config) (point : AttestationInfo Word)
      (p p' : Production Word ℕ) (actions : List (NodeAction Word ℕ)) (h : ℕ) (d : Word),
      Reachable config s ∧ (step config s act).isChainSupported 1 = true ∧
      (s.chain config 1).anchors.lastDigest = some (point.height, point.digest) ∧
      p.Sees point ∧
      anchorEvents actions = ((s.chain config 1).anchors.eventsSince
        ((step config s act).chain config 1).anchors).filterMap AnchorEvent.toCcEvent ∧
      p.run config.keccak config.zero (fun n => (.root n, .zero))
        (fun _ => ⟨List.replicate 96 0, by simp⟩) actions = some p' ∧
      ((step config s act).chain config 1).anchors.lastFinalized = some (h, d) ∧
      p'.stream.attestationPrev.height ≠ h ∧ p'.stream.attestationPrev.digest ≠ d ∧
      p'.shared.pool.forks.lastFinalizedHeight ≠ some h ∧
      ∀ info ∈ p'.shared.latestFinalized, info.height ≠ h ∧ info.digest ≠ d := by
  refine ⟨started 10 10, byRoot (.forwardPatchCheckpoints 1 false [⟨100, .root 7, by decide⟩]),
    ⟨0, .first 0 (.root 0), by decide⟩, attendant, _,
    handles [.checkpointReached ⟨100, .root 7, by decide⟩], 100, .root 7,
    reachable_after (by rfl) _, by rfl, by rfl,
    Production.sees_start _, by rfl, rfl, by rfl, by decide +kernel,
    by decide +kernel, by decide +kernel, ?_⟩
  intro info hinfo
  obtain rfl := Option.some.inj hinfo
  decide

end Devnet

end Creditcoin.Attestor
