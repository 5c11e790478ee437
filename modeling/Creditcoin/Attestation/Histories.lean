import Creditcoin.Attestation.Checkpoints

/-!
# The history of one chain

What a step does to one chain, told apart by who acts (`step_chainMove`): an attestation is
committed, an operator imports, reverts or patches checkpoints, or only settings, attestors and the
sweeping of old data change. Without operators, checkpoints are final (`checkpoints_final`) and only
attestations make new ones (`swept_of_no_commit`). -/

namespace Creditcoin

open Relation (ReflTransGen)

variable {H A B : Type} [DecidableEq H] [DecidableEq A] (T : Config H A B)

/-! ## What an action does to a chain -/

/-- The attestation that an action adds to a chain. -/
def acceptedCommit (k : ChainKey) (s : State H A B) : Action T → Option (SignedAttestation H A)
  | .call host o (.commitAttestation att) =>
    if att.chainKey = k ∧ (dispatch T host s o (.commitAttestation att)).isOk = true then some att
    else none
  | _ => none

/-- A call of an operator on the anchors of a chain. -/
inductive OperatorStep (supported : Bool) (k : ChainKey) :
    Call H A → Anchors H A → Anchors H A → Prop
  | imports {batch : List (AttestationCheckpoint H)} {a a' : Anchors H A}
      (h : doImportCheckpoints supported a batch = .ok a') :
      OperatorStep supported k (.importCheckpoints k batch) a a'
  | revert {height : U64} {a a' : Anchors H A} (kill : KillResult H)
      (h : revertTo T supported kill a height = .ok a') :
      OperatorStep supported k (.revertTo k height) a a'
  | patch {wipe : Bool} {batch : List (AttestationCheckpoint H)} {a a' : Anchors H A}
      (kill : KillResult H) (h : doForwardPatchCheckpoints T supported kill a wipe batch = .ok a') :
      OperatorStep supported k (.forwardPatchCheckpoints k wipe batch) a a'

/-- What an action does to a live chain. -/
inductive ChainMove (k : ChainKey) (s : State H A B) (act : Action T) : Chain H A → Prop
  | commit {att : SignedAttestation H A} {a : Anchors H A} {n : ℕ}
      (hact : acceptedCommit T k s act = some att)
      (h : doCommitAttestation T (s.isChainSupported k) s.blockNumber (s.chain T k) att =
        .ok (a, n)) : ChainMove k s act { s.chain T k with anchors := a }
  | operator {host : Host H A} {o : Origin A} {call : Call H A} {a : Anchors H A}
      (hnone : acceptedCommit T k s act = none) (hact : act = .call host o call)
      (h : OperatorStep T (s.isChainSupported k) k call (s.chain T k).anchors a) :
      ChainMove k s act { s.chain T k with anchors := a }
  | idle {c : Chain H A} (hnone : acceptedCommit T k s act = none)
      (h : ReflTransGen (IdleStep T (s.isChainSupported k) k) (s.chain T k) c) :
      ChainMove k s act c

variable {T} {k : ChainKey} {s : State H A B} {act : Action T}

theorem acceptedCommit_eq_some {att : SignedAttestation H A}
    (h : acceptedCommit T k s act = some att) :
    ∃ host o, act = .call host o (.commitAttestation att) ∧ att.chainKey = k ∧
      dispatch T host s o (.commitAttestation att) = .ok (step T s act) := by
  unfold acceptedCommit at h
  split at h
  · next host o att' =>
    split at h
    · next hok =>
      obtain rfl := Option.some.inj h
      refine ⟨host, o, rfl, hok.1, ?_⟩
      rcases hd : dispatch T host s o (.commitAttestation att') with e | s'
      · simp [hd, Except.isOk, Except.toBool] at hok
      · simp only [step, hd]
    · simp at h
  · simp at h

/-- **Inversion of a step, told by who acts.** -/
theorem step_chainMove (hs : s.registry.KeysBelow) (hlive : (step T s act).Live k) :
    s.Live k ∧ ChainMove T k s act ((step T s act).chain T k) := by
  refine ⟨(step_chain hs hlive).1, ?_⟩
  rcases haccepted : acceptedCommit T k s act with _ | att
  · rcases step_cases hs act with ⟨hpath, -⟩ | ⟨host, o, call, k', a, rfl, hok, hcall, heq⟩ |
      ⟨host, o, k', b, -, hremove⟩
    · exact .idle haccepted (hpath k)
    · rcases eq_or_ne k k' with rfl | hne
      · rw [heq, State.setAnchors, State.chain_setChain_self]
        cases hcall with
        | commit h =>
          have hsome : acceptedCommit T _ s (.call host o (.commitAttestation _)) = some _ :=
            if_pos ⟨rfl, by rw [hok]; rfl⟩
          simp [hsome] at haccepted
        | imports h => exact .operator haccepted rfl (.imports h)
        | revert h => exact .operator haccepted rfl (.revert _ h)
        | patch h => exact .operator haccepted rfl (.patch _ h)
      · rw [heq, State.setAnchors, State.chain_setChain_of_ne T s hne]
        exact .idle haccepted .refl
    · obtain ⟨-, hsup, hother, hsame⟩ := removeChain_chain hremove k
      rcases eq_or_ne k k' with rfl | hne
      · exact absurd (hs k hsup) (not_lt.2 (hsame hlive))
      · rw [(hother hne).1]
        exact .idle haccepted .refl
  · obtain ⟨host, o, rfl, rfl, hok⟩ := acceptedCommit_eq_some haccepted
    simp only [dispatch, asSigned_eq_ok, State.commitAttestation_eq_ok] at hok
    obtain ⟨who, -, -, a, n, hcommit, heq⟩ := hok
    rw [← heq, State.setAnchors, State.chain_setChain_self]
    exact .commit haccepted hcommit

/-! ## Sweeping -/

/-- What sweeping leaves untouched: the last finalized point, the queues, the events, and the
checkpoints up to the last one. -/
structure Swept (a a' : Anchors H A) : Prop where
  lastCheckpoint_eq : a'.lastCheckpoint = a.lastCheckpoint
  lastDigest_eq : a'.lastDigest = a.lastDigest
  queue_eq : a'.checkpointingQueue = a.checkpointingQueue
  events_eq : a'.events = a.events
  attestations_le : ∀ d q, a'.attestations.lookup d = some q → a.attestations.lookup d = some q
  checkpoints_eq : ∀ c ∈ a.lastCheckpoint, ∀ n ≤ c.blockNumber,
    a'.checkpoints.lookup n = a.checkpoints.lookup n

omit [DecidableEq A] in
theorem Swept.refl (a : Anchors H A) : Swept a a :=
  ⟨rfl, rfl, rfl, rfl, fun _ _ h => h, fun _ _ _ _ => rfl⟩

variable {a' a : Anchors H A}

section

omit [DecidableEq A]

theorem Swept.trans {a'' : Anchors H A} (h : Swept a a') (h' : Swept a' a'') : Swept a a'' where
  lastCheckpoint_eq := h'.lastCheckpoint_eq.trans h.lastCheckpoint_eq
  lastDigest_eq := h'.lastDigest_eq.trans h.lastDigest_eq
  queue_eq := h'.queue_eq.trans h.queue_eq
  events_eq := h'.events_eq.trans h.events_eq
  attestations_le d q hd := h.attestations_le d q (h'.attestations_le d q hd)
  checkpoints_eq c hc n hn :=
    (h'.checkpoints_eq c (h.lastCheckpoint_eq ▸ hc) n hn).trans (h.checkpoints_eq c hc n hn)

theorem Sweep.swept (hmarked : a.Marked) (h : Sweep T a a') : Swept a a' := by
  rcases hmarked.sweep_cases h with ⟨state, hstate, rfl⟩ | ⟨kill, -, rfl⟩
  · obtain ⟨hgrid, last, hlast, hlt⟩ := hmarked.pruning state hstate
    have hprunes := pruneCheckpoints_spec (T := T) hmarked.indexed hgrid
    obtain ⟨checkpoints, buckets, pruning, heq⟩ := pruneCheckpoints_frame (T := T) state a
    rw [heq] at hprunes ⊢
    refine ⟨rfl, rfl, rfl, rfl, fun _ _ h => h, fun c hc n hn => ?_⟩
    obtain rfl : last = c := Option.mem_unique hlast hc
    rcases hprunes.deleted n with hkept | ⟨-, hpending⟩
    · exact hkept
    · have hmono := computeBlockIndexFor_mono hn
      exact absurd hpending.1 (not_le.2 (hmono.trans_lt hlt))
  · exact ⟨rfl, rfl, rfl, rfl, fun d q => StorageMap.lookup_clearPrefix _ kill d q,
      fun _ _ _ _ => rfl⟩

theorem Swept.lookup_queue (h : Swept a a') (htracked : a'.Tracked T) {d : H}
    (hd : d ∈ a.checkpointingQueue) {q : SignedAttestation H A}
    (hq : a.attestations.lookup d = some q) : a'.attestations.lookup d = some q := by
  rw [← h.queue_eq] at hd
  obtain ⟨q', hq'⟩ := htracked.stored d (List.mem_append_right _ hd)
  rwa [Option.mem_unique hq (h.attestations_le d q' hq')]

end

theorem swept_of_idle {supported : Bool} {c c' : Chain H A} (hwf : c.WellFormed T)
    (h : ReflTransGen (IdleStep T supported k) c c') :
    c'.WellFormed T ∧ Swept c.anchors c'.anchors := by
  induction h with
  | refl => exact ⟨hwf, Swept.refl _⟩
  | tail _ hlast ih =>
    refine ⟨ChainStep.wellFormed ih.1 hlast.chainStep, ih.2.trans ?_⟩
    cases hlast with
    | roster _ => exact Swept.refl _
    | settings _ => exact Swept.refl _
    | swept hsweep => exact Sweep.swept ih.1.marked hsweep

/-! ## Runs without operator calls on the anchors -/

/-- The action is not an operator call on the anchors of the chain, nor its removal. -/
def Action.steady (k : ChainKey) : Action T → Bool
  | .call _ _ (.importCheckpoints k' _) => k' ≠ k
  | .call _ _ (.revertTo k' _) => k' ≠ k
  | .call _ _ (.forwardPatchCheckpoints k' _ _) => k' ≠ k
  | .call _ _ (.removeChain k' _) => k' ≠ k
  | _ => true

theorem ChainMove.of_steady {c : Chain H A} (hsteady : act.steady k = true)
    (h : ChainMove T k s act c) :
    (∃ att a n, acceptedCommit T k s act = some att ∧
      doCommitAttestation T (s.isChainSupported k) s.blockNumber (s.chain T k) att = .ok (a, n) ∧
      c = { s.chain T k with anchors := a }) ∨
    (acceptedCommit T k s act = none ∧
      ReflTransGen (IdleStep T (s.isChainSupported k) k) (s.chain T k) c) := by
  cases h with
  | commit hact h => exact .inl ⟨_, _, _, hact, h, rfl⟩
  | operator hnone hact h => cases h <;> simp [hact, Action.steady] at hsteady
  | idle hnone h => exact .inr ⟨hnone, h⟩

theorem isChainSupported_step (hs : s.registry.KeysBelow) (hsteady : act.steady k = true)
    (h : s.isChainSupported k = true) : (step T s act).isChainSupported k = true := by
  rcases step_cases hs act with ⟨-, hgrows⟩ | ⟨-, -, -, k', a, -, -, -, heq⟩ |
    ⟨host, o, k', b, rfl, hremove⟩
  · exact hgrows.kept k h
  · rw [heq]
    exact h
  · simp only [State.removeChain, bind_eq_ok, pure_eq_ok] at hremove
    obtain ⟨g, hg, heq⟩ := hremove
    have hne : k ≠ k' := fun hk => by simp [Action.steady, hk] at hsteady
    have hlookup := (Registry.removeChain_supported hg k).2.2
    rw [if_neg hne] at hlookup
    rw [← heq]
    change (g.supportedChains.lookup k).isSome = true
    rw [hlookup]
    exact h

theorem isChainSupported_run (hs : s.registry.KeysBelow) {acts : List (Action T)}
    (hsteady : ∀ act ∈ acts, act.steady k = true) (h : s.isChainSupported k = true) :
    (run T s acts).isChainSupported k = true := by
  induction acts generalizing s with
  | nil => exact h
  | cons act acts ih =>
    exact ih (keysBelow_step hs act) (fun act' hact' => hsteady act' (List.mem_cons_of_mem _ hact'))
      (isChainSupported_step hs (hsteady act List.mem_cons_self) h)

/-! ## Finality -/

/-- The last checkpoint does not go back, and the checkpoints up to it stay. -/
def Anchors.Grows (a a' : Anchors H A) : Prop :=
  ∀ l ∈ a.lastCheckpoint, ∃ l' ∈ a'.lastCheckpoint, l.blockNumber ≤ l'.blockNumber ∧
    ∀ n ≤ l.blockNumber, a'.checkpoints.lookup n = a.checkpoints.lookup n

omit [DecidableEq H] [DecidableEq A] in
theorem Anchors.Grows.trans {a'' : Anchors H A} (h : a.Grows a') (h' : a'.Grows a'') :
    a.Grows a'' := by
  intro l hl
  obtain ⟨l', hl', hle, hkept⟩ := h l hl
  obtain ⟨l'', hl'', hle', hkept'⟩ := h' l' hl'
  exact ⟨l'', hl'', hle.trans hle', fun n hn => (hkept' n (hn.trans hle)).trans (hkept n hn)⟩

omit [DecidableEq A] in
theorem Swept.grows (h : Swept a a') : a.Grows a' := fun l hl =>
  ⟨l, h.lastCheckpoint_eq ▸ hl, le_rfl, h.checkpoints_eq l hl⟩

omit [DecidableEq A] in
theorem CommitEffect.grows {st : Settings} {att : SignedAttestation H A}
    {cps : List (AttestationCheckpoint H)} {popped kept : List H} {n : ℕ}
    (h : CommitEffect T st a att cps popped kept n) : a.Grows (a.condensed cps popped kept n) := by
  intro l hl
  obtain ⟨l', hl'⟩ : ∃ l', l' ∈ cps.getLast?.or a.lastCheckpoint :=
    Option.isSome_iff_exists.1 (by simp [Option.mem_def.1 hl])
  refine ⟨l', hl', ?_, fun n hn => lookup_insertCheckpoints_of_notMem _ _ fun c hc heq => ?_⟩
  · rcases mem_or_of_mem_getLast? hl' with hnew | ⟨-, hold⟩
    · exact (h.advances.above l' hnew l hl).le
    · rw [Option.mem_unique hl hold]
  · exact absurd (h.advances.above c hc l hl) (by omega)

/-- What a step does to finality where no operator changes the anchors of the chain. -/
theorem finality_step (hreach : Reachable T s) (hsup : s.isChainSupported k = true)
    (hsteady : act.steady k = true) :
    Swept (s.chain T k).anchors ((step T s act).chain T k).anchors ∨
      acceptedCommit T k s act ≠ none ∧
        (s.chain T k).anchors.Grows ((step T s act).chain T k).anchors := by
  have hwf := wellFormed_of_live hreach (.inl hsup)
  have hlive : (step T s act).Live k := .inl (isChainSupported_step hreach.keysBelow hsteady hsup)
  rcases (step_chainMove hreach.keysBelow hlive).2.of_steady hsteady with
    ⟨att, a, n, hsome, hcommit, heq⟩ | ⟨-, hidle⟩
  · obtain ⟨-, cps, popped, kept, j, rfl, heffect⟩ :=
      doCommitAttestation_effect hwf.bounded hwf.tracked.proofsBounded hcommit
    exact .inr ⟨by simp [hsome], heq ▸ heffect.grows⟩
  · exact .inl (swept_of_idle hwf hidle).2

variable {acts : List (Action T)}

/-- **Checkpoints are final.** As long as no operator imports, reverts, patches or removes, the last
checkpoint does not go back, and no checkpoint up to it is added, changed or deleted. -/
theorem checkpoints_final (hreach : Reachable T s) (hsup : s.isChainSupported k = true)
    (hsteady : ∀ act ∈ acts, act.steady k = true) :
    (s.chain T k).anchors.Grows ((run T s acts).chain T k).anchors := by
  induction acts generalizing s with
  | nil => exact (Swept.refl _).grows
  | cons act acts ih =>
    obtain ⟨hact, hacts⟩ := List.forall_mem_cons.1 hsteady
    have hrest := ih (hreach.step act) (isChainSupported_step hreach.keysBelow hact hsup) hacts
    rcases finality_step hreach hsup hact with hswept | ⟨-, hgrows⟩
    · exact hswept.grows.trans hrest
    · exact hgrows.trans hrest

/-- **Finality moves only by attestations.** In such a run without an accepted attestation, the last
finalized point, the queue and the events stay. -/
theorem swept_of_no_commit (hreach : Reachable T s) (hsup : s.isChainSupported k = true)
    (hsteady : ∀ act ∈ acts, act.steady k = true)
    (hnone : AlongRun (fun s act => acceptedCommit T k s act = none) s acts) :
    Swept (s.chain T k).anchors ((run T s acts).chain T k).anchors := by
  induction acts generalizing s with
  | nil => exact .refl _
  | cons act acts ih =>
    obtain ⟨hact, hacts⟩ := List.forall_mem_cons.1 hsteady
    have hsup' := isChainSupported_step hreach.keysBelow hact hsup
    refine Swept.trans ?_ (ih (hreach.step act) hsup' hacts hnone.2)
    exact (finality_step hreach hsup hact).resolve_right fun h => h.1 hnone.1

section Devnet

open Devnet

/-- Three more attestations make checkpoints above the first one, which stays. -/
theorem devnet_checkpoints_final :
    ((started 1 1).chain config 1).anchors.lastCheckpoint.isSome = true ∧
      ((started 1 1).chain config 1).anchors.Grows
        ((run config (started 1 1) (commits (started 1 1) [1, 2, 3])).chain config 1).anchors :=
  ⟨by rfl, checkpoints_final (reachable_after (by rfl) _) (by rfl) (by decide +kernel)⟩

/-- Blocks without attestations leave the last finalized point alone. -/
theorem devnet_swept_of_no_commit :
    Swept ((started 1 1).chain config 1).anchors
      ((run config (started 1 1) [.block host, .epoch 1]).chain config 1).anchors :=
  swept_of_no_commit (reachable_after (by rfl) _) (by rfl) (by decide) ⟨rfl, rfl, trivial⟩

end Devnet

end Creditcoin
