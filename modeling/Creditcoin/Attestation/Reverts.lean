import Creditcoin.Attestation.Checkpoints

/-!
# What a revert and a patch leave behind

A revert and a wiping patch delete the checkpoints above a height over many blocks. From the events
since (`Logs`) follows which checkpoints are still those of the revert or patch (`Anchors.Keeps`);
the others were created since, or lie in a bucket not reported before it is pruned
(`Anchors.Stems`). -/

namespace Creditcoin

open Relation (ReflTransGen)

variable {H A B : Type}

/-! ## What the events tell -/

def Created (log : List (AnchorEvent H)) (x : ℕ) (d : H) : Prop :=
  ∃ c, AnchorEvent.checkpointReached c ∈ log ∧ c.blockNumber = x ∧ c.digest = d

def Committed (log : List (AnchorEvent H)) (d : H) : Prop :=
  ∃ n, AnchorEvent.blockAttested n d ∈ log

/-- The event is about the checkpoint at the height: it was created, or everything above a lower
height was dropped. -/
def AnchorEvent.Touches (x : ℕ) : AnchorEvent H → Prop
  | .checkpointReached c => c.blockNumber = x
  | .revertedAttestationChainTo height _ => height < x
  | .forwardCheckpointPatchApplied wipe tip => wipe = true ∧ tip < x
  | _ => False

/-- No event is about the checkpoint at the height. -/
def Spared (log : List (AnchorEvent H)) (x : ℕ) : Prop := ∀ e ∈ log, ¬ e.Touches x

def Anchors.eventsSince (a₁ a : Anchors H A) : List (AnchorEvent H) :=
  a.events.drop a₁.events.length

/-- The anchors `a` change to `a'`, and the events `new` tell how. -/
structure Logs [DecidableEq H] (new : List (AnchorEvent H)) (a a' : Anchors H A) : Prop where
  events_eq : a'.events = a.events ++ new
  /-- A checkpoint was created or is an old one, and then it is still to be pruned if it was. -/
  stored : ∀ x d, a'.checkpoints.lookup x = some d → Created new x d ∨
    (a.checkpoints.lookup x = some d ∧ ∀ state ∈ a.checkpointPruningState, state.Pending x →
      ∃ state' ∈ a'.checkpointPruningState, state'.Pending x)
  /-- Below what is to be pruned, a height that no event is about is left alone. -/
  kept : ∀ x, Spared new x →
    (∀ state ∈ a.checkpointPruningState, computeBlockIndexFor x < state.nextPivot) →
    a'.checkpoints.lookup x = a.checkpoints.lookup x ∧
      ∀ state' ∈ a'.checkpointPruningState, computeBlockIndexFor x < state'.nextPivot
  /-- An attestation that is not to be swept was committed or is an old one that was not either. -/
  attested : a'.attestationClearingCursor = none → ∀ d att, a'.attestations.lookup d = some att →
    Committed new d ∨
      (a.attestationClearingCursor = none ∧ a.attestations.lookup d = some att)

section Log

variable {log new : List (AnchorEvent H)} {x : ℕ} {d : H}

theorem Created.append (h : Created log x d) (new : List (AnchorEvent H)) :
    Created (log ++ new) x d := by
  obtain ⟨c, hc, hx⟩ := h
  exact ⟨c, List.mem_append_left _ hc, hx⟩

theorem Created.append_left (h : Created new x d) (log : List (AnchorEvent H)) :
    Created (log ++ new) x d := by
  obtain ⟨c, hc, hx⟩ := h
  exact ⟨c, List.mem_append_right _ hc, hx⟩

theorem spared_append : Spared (log ++ new) x ↔ Spared log x ∧ Spared new x :=
  List.forall_mem_append

theorem created_or_lookup {m : StorageMap ℕ H} {cps : List (AttestationCheckpoint H)}
    (hcps : ∀ c ∈ cps, AnchorEvent.checkpointReached c ∈ new)
    (h : (insertCheckpoints m cps).lookup x = some d) : Created new x d ∨ m.lookup x = some d := by
  rcases lookup_insertCheckpoints_cases m cps x with ⟨c, hc, hx, hlookup⟩ | ⟨-, hlookup⟩
  · rw [hlookup, Option.some.injEq] at h
    exact .inl ⟨c, hcps c hc, hx, h⟩
  · exact .inr (hlookup ▸ h)

theorem Spared.lookup_insertCheckpoints (h : Spared new x) {cps : List (AttestationCheckpoint H)}
    (hcps : ∀ c ∈ cps, AnchorEvent.checkpointReached c ∈ new) (m : StorageMap ℕ H) :
    (insertCheckpoints m cps).lookup x = m.lookup x :=
  lookup_insertCheckpoints_of_notMem m cps fun c hc hx => h _ (hcps c hc) hx

end Log

/-! ## Every step is told by its events -/

section Steps

variable [DecidableEq H] {T : Config H A B} {a a' : Anchors H A}

theorem clearAttestations_attested (kill : KillResult H) (new : List (AnchorEvent H))
    (h : (a.clearAttestations kill).attestationClearingCursor = none) (d : H)
    (att : SignedAttestation H A)
    (hd : (a.clearAttestations kill).attestations.lookup d = some att) :
    Committed new d ∨ (a.attestationClearingCursor = none ∧ a.attestations.lookup d =
      some att) := by
  have hempty : (a.clearAttestations kill).attestations = ∅ := StorageMap.clearPrefix_eq_empty _ _ h
  rw [hempty, AList.lookup_empty] at hd
  cases hd

theorem logs_pruned (hmarked : a.Marked) {state : CheckpointPruningState}
    (hstate : a.checkpointPruningState = some state) : Logs [] a (pruneCheckpoints T state a) := by
  obtain ⟨hgrid, -⟩ := hmarked.pruning state hstate
  have hprunes := pruneCheckpoints_spec (T := T) hmarked.indexed hgrid
  obtain ⟨checkpoints, buckets, pruning, heq⟩ := pruneCheckpoints_frame (T := T) state a
  rw [heq] at hprunes ⊢
  refine ⟨(List.append_nil _).symm, fun x d hd => .inr ?_, fun x _ hbelow => ?_,
    fun hcursor d att hd => .inr ⟨hcursor, hd⟩⟩
  · rcases hprunes.deleted x with hkept | ⟨hnone, -⟩
    · refine ⟨hkept ▸ hd, fun state₁ hstate₁ hpending => ?_⟩
      obtain rfl : state = state₁ := Option.mem_unique hstate hstate₁
      -- A checkpoint that is still there has not been passed.
      by_contra hnot
      refine absurd (hprunes.passed x hpending fun state' hleft => ?_) (by rw [hd]; simp)
      obtain ⟨hstop, -, -⟩ := hprunes.left state' hleft
      by_contra hge
      exact hnot ⟨state', hleft, not_lt.1 hge, hstop ▸ hpending.2⟩
    · rw [hnone] at hd
      cases hd
  · have hlt := hbelow state hstate
    refine ⟨?_, fun state' hleft => hlt.trans_le (hprunes.left state' hleft).2.1⟩
    exact (hprunes.deleted x).resolve_right fun h => absurd h.2.1 (not_le.2 hlt)

theorem logs_imported (cps : List (AttestationCheckpoint H))
    (last : Option (AttestationCheckpoint H)) :
    Logs (cps.map .checkpointReached) a (a.imported cps last) := by
  have hcps : ∀ c ∈ cps, AnchorEvent.checkpointReached c ∈ cps.map .checkpointReached :=
    fun c hc => List.mem_map_of_mem hc
  refine ⟨rfl, fun x d hd => ?_, fun x hx hbelow => ⟨hx.lookup_insertCheckpoints hcps _, hbelow⟩,
    fun hcursor d att hd => .inr ⟨hcursor, hd⟩⟩
  exact (created_or_lookup hcps hd).imp_right fun h =>
    ⟨h, fun state hstate hp => ⟨state, hstate, hp⟩⟩

theorem logs_reverted (hmarked : a.Marked) (hpruning : a.checkpointPruningState = none)
    (kill : KillResult H) (height : U64) (digest : H) (last : AttestationCheckpoint H) :
    Logs [.revertedAttestationChainTo height digest] a (a.reverted T kill height digest last) := by
  have hlookup : ∀ x, (a.reverted T kill height digest last).checkpoints.lookup x =
      if height.val < x ∧ computeBlockIndexFor x = computeBlockIndexFor height then none
      else a.checkpoints.lookup x := fun x => hmarked.indexed.lookup_purgeBucketAbove T height x
  refine ⟨rfl, fun x d hd => .inr ⟨?_, fun state hstate => ?_⟩, fun x hx _ => ?_,
    clearAttestations_attested kill _⟩
  · rw [hlookup] at hd
    split at hd
    · cases hd
    · exact hd
  · rw [hpruning] at hstate
    cases hstate
  · have hle : x ≤ height.val := not_lt.1 fun hlt => hx _ List.mem_cons_self hlt
    refine ⟨?_, fun state hstate => ?_⟩
    · rw [hlookup]
      exact if_neg fun h => absurd h.1 (not_lt.2 hle)
    · obtain rfl := Option.some.inj hstate
      exact (computeBlockIndexFor_mono hle).trans_lt (lt_pivotAbove height.isLt)

omit [DecidableEq H] in
theorem patchedLast_wipe (last : Option (AttestationCheckpoint H)) (tip : AttestationCheckpoint H) :
    patchedLast true last tip = tip := by
  rcases patchedLast_cases true last tip with ⟨heq, -⟩ | ⟨hfalse, -⟩
  · exact heq
  · cases hfalse

theorem below_patched (hmarked : a.Marked) (kill : KillResult H) {wipe : Bool}
    {batch : List (AttestationCheckpoint H)} {tip : AttestationCheckpoint H}
    (htip : (mergeCheckpoints batch).getLast? = some tip) {x : ℕ}
    (hle : wipe = true → x ≤ tip.blockNumber) :
    ∀ state ∈ (a.patched T kill wipe batch tip).checkpointPruningState,
      computeBlockIndexFor x < state.nextPivot := by
  intro state hstate
  obtain ⟨-, c, hc, hlt⟩ := (hmarked.patched kill htip).pruning state hstate
  cases wipe with
  | false => cases hstate
  | true =>
    obtain rfl := Option.some.inj hc
    rw [patchedLast_wipe] at hlt
    exact (computeBlockIndexFor_mono (hle rfl)).trans_lt hlt

theorem logs_patched (hmarked : a.Marked) (hpruning : a.checkpointPruningState = none)
    (kill : KillResult H) (wipe : Bool) {batch : List (AttestationCheckpoint H)}
    {tip : AttestationCheckpoint H} (htip : (mergeCheckpoints batch).getLast? = some tip) :
    Logs ((mergeCheckpoints batch).map .checkpointReached ++
        [.forwardCheckpointPatchApplied wipe (patchedLast wipe a.lastCheckpoint tip).blockNumber]) a
      (a.patched T kill wipe batch tip) := by
  have hentry : ∀ x c, lastEntry batch x = some c → c.blockNumber = x ∧
      AnchorEvent.checkpointReached c ∈ (mergeCheckpoints batch).map
        AnchorEvent.checkpointReached := by
    intro x c hc
    have hx : c.blockNumber = x := by
      simpa using (List.mem_filter.1 (List.mem_of_getLast? hc)).2
    exact ⟨hx, List.mem_map_of_mem (((mergeCheckpoints_spec batch).2 c).2 (hx ▸ hc))⟩
  refine ⟨List.append_assoc .., fun x d hd => ?_, fun x hx _ => ?_,
    clearAttestations_attested kill _⟩
  · rw [hmarked.lookup_patched kill] at hd
    rcases hlast : lastEntry batch x with _ | c
    · simp only [hlast] at hd
      split at hd
      · cases hd
      · refine .inr ⟨hd, fun state hstate => ?_⟩
        rw [hpruning] at hstate
        cases hstate
    · simp only [hlast, Option.some.injEq] at hd
      obtain ⟨hc, hmem⟩ := hentry x c hlast
      exact .inl ⟨c, List.mem_append_left _ hmem, hc, hd⟩
  · have hnone : lastEntry batch x = none := by
      rcases hlast : lastEntry batch x with _ | c
      · rfl
      · obtain ⟨hc, hmem⟩ := hentry x c hlast
        exact absurd hc (hx _ (List.mem_append_left _ hmem))
    have hle : wipe = true → x ≤ tip.blockNumber := by
      rintro rfl
      refine not_lt.1 fun hlt => hx _ (List.mem_append_right _ List.mem_cons_self) ⟨rfl, ?_⟩
      rwa [patchedLast_wipe]
    refine ⟨?_, below_patched hmarked kill htip hle⟩
    rw [hmarked.lookup_patched kill, hnone]
    exact if_neg fun h => absurd h.2.1 (not_lt.2 (hle h.1))

variable {supported : Bool}

theorem logs_committed [DecidableEq A] {c : Chain H A} {now n : ℕ} {att : SignedAttestation H A}
    (hst : c.settings.Bounded T) (hproofs : c.anchors.ProofsBounded)
    (h : doCommitAttestation T supported now c att = .ok (a', n)) :
      ∃ new, Logs new c.anchors a' := by
  obtain ⟨haccepted, cps, popped, kept, k, rfl, -⟩ := doCommitAttestation_effect hst hproofs h
  have hcps : ∀ cp ∈ cps, AnchorEvent.checkpointReached cp ∈
      AnchorEvent.blockAttested att.headerNumber (att.digest T.keccak) ::
        cps.map .checkpointReached :=
    fun cp hcp => List.mem_cons_of_mem _ (List.mem_map_of_mem hcp)
  refine ⟨_, List.append_assoc .., fun x d hd => ?_, fun x hx hbelow =>
    ⟨hx.lookup_insertCheckpoints hcps _, hbelow⟩, fun _ d q hd => ?_⟩
  · refine (created_or_lookup hcps hd).imp_right fun hold => ⟨hold, fun state hstate => ?_⟩
    rw [haccepted.pruning_eq] at hstate
    cases hstate
  · have hstored := lookup_of_condensed hd
    replace hstored := (StorageMap.lookup_insert_eq _ _ _ _).symm.trans hstored
    split at hstored
    · next heq => exact .inl ⟨att.headerNumber, heq ▸ List.mem_cons_self⟩
    · exact .inr ⟨haccepted.cursor_eq, hstored⟩

theorem Logs.refl (a : Anchors H A) : Logs [] a a :=
  ⟨(List.append_nil _).symm, fun _ _ h => .inr ⟨h, fun state hstate hp => ⟨state, hstate, hp⟩⟩,
    fun _ _ h => ⟨rfl, h⟩, fun hcursor _ _ h => .inr ⟨hcursor, h⟩⟩

/-- **Every step of the anchors of a live chain is told by its events.** -/
theorem AnchorStep.logs [DecidableEq A] {st : Settings} {r : Roster A} (hst : st.Bounded T)
    (hproofs : a.ProofsBounded) (hmarked : a.Marked) (hstep : AnchorStep T supported st r a a') :
    ∃ new, Logs new a a' := by
  cases hstep.effect with
  | committed now att hcommit => exact logs_committed (c := ⟨a, r, st⟩) hst hproofs hcommit
  | @imported _ cps last _ => exact ⟨_, logs_imported cps last⟩
  | @reverted height digest last kill hpruning _ _ =>
    exact ⟨_, logs_reverted hmarked hpruning kill height digest last⟩
  | @patched wipe _ _ kill hpruning htip => exact ⟨_, logs_patched hmarked hpruning kill wipe htip⟩
  | swept hsweep =>
    rcases hmarked.sweep_cases hsweep with ⟨state, hstate, rfl⟩ | ⟨kill, -, rfl⟩
    · exact ⟨_, logs_pruned hmarked hstate⟩
    · exact ⟨[], { Logs.refl a with attested := clearAttestations_attested kill [] }⟩

theorem ChainStep.logs [DecidableEq A] {k : ChainKey} {c c' : Chain H A} (h : c.WellFormed T)
    (hstep : ChainStep T supported k c c') : ∃ new, Logs new c.anchors c'.anchors := by
  cases hstep with
  | anchors hstep => exact hstep.logs h.bounded h.tracked.proofsBounded h.marked
  | roster _ | settings _ => exact ⟨[], .refl _⟩

end Steps

/-! ## What is left of a revert or a patch -/

section Since

variable [DecidableEq H] {m : ℕ → Option H} {top : ℕ} {log new : List (AnchorEvent H)}
  {a a' : Anchors H A} {c : AttestationCheckpoint H}

/-- Up to the height `top`, checkpoints that no event is about are those of `m`, and are reported;
and no attestation is reported that was not committed since. -/
structure Anchors.Keeps (m : ℕ → Option H) (top : ℕ) (log : List (AnchorEvent H))
    (a : Anchors H A) : Prop where
  kept : ∀ x, x ≤ top → Spared log x → a.checkpoints.lookup x = m x ∧
    ∀ state ∈ a.checkpointPruningState, computeBlockIndexFor x < state.nextPivot
  attested : a.attestationClearingCursor = none → ∀ d att, a.attestations.lookup d = some att →
    Committed log d

/-- A checkpoint was created since, is one of `m` up to the height `top`, or is still to be
pruned. -/
def Anchors.Stems (m : ℕ → Option H) (top : ℕ) (log : List (AnchorEvent H)) (a : Anchors H A) :
    Prop :=
  ∀ x d, a.checkpoints.lookup x = some d → Created log x d ∨ (x ≤ top ∧ m x = some d) ∨
    (top < x ∧ ∃ state ∈ a.checkpointPruningState, state.Pending x)

theorem Anchors.Keeps.step (h : a.Keeps m top log) (hlogs : Logs new a a') :
    a'.Keeps m top (log ++ new) where
  kept x hx hspared := by
    obtain ⟨hold, hnew⟩ := spared_append.1 hspared
    obtain ⟨hlookup, hbelow⟩ := h.kept x hx hold
    obtain ⟨hsame, hbelow'⟩ := hlogs.kept x hnew hbelow
    exact ⟨hsame.trans hlookup, hbelow'⟩
  attested hcursor d att hd := by
    rcases hlogs.attested hcursor d att hd with ⟨n, hn⟩ | ⟨hcursor', hd'⟩
    · exact ⟨n, List.mem_append_right _ hn⟩
    · obtain ⟨n, hn⟩ := h.attested hcursor' d att hd'
      exact ⟨n, List.mem_append_left _ hn⟩

theorem Anchors.Stems.step (h : a.Stems m top log) (hlogs : Logs new a a') :
    a'.Stems m top (log ++ new) := by
  intro x d hd
  rcases hlogs.stored x d hd with hcreated | ⟨hold, hpruned⟩
  · exact .inl (hcreated.append_left log)
  · rcases h x d hold with hcreated | hbase | ⟨hlt, state, hstate, hpending⟩
    · exact .inl (hcreated.append new)
    · exact .inr (.inl hbase)
    · exact .inr (.inr ⟨hlt, hpruned state hstate hpending⟩)

theorem Anchors.Marked.keeps (h : a.Marked) (hlast : a.lastCheckpoint = some c)
    (hcleared : a.attestationClearingCursor = none → a.attestations = ∅) :
    a.Keeps (a.checkpoints.lookup ·) c.blockNumber [] where
  kept x hx _ := by
    refine ⟨rfl, fun state hstate => ?_⟩
    obtain ⟨-, c', hc', hlt⟩ := h.pruning state hstate
    obtain rfl : c = c' := Option.mem_unique hlast hc'
    exact (computeBlockIndexFor_mono hx).trans_lt hlt
  attested hcursor d att hd := by
    rw [hcleared hcursor, AList.lookup_empty] at hd
    cases hd

omit [DecidableEq H] in
theorem Anchors.Capped.stems (h : a.Capped) (hlast : a.lastCheckpoint = some c) :
    a.Stems (a.checkpoints.lookup ·) c.blockNumber [] := by
  intro x d hd
  rcases le_or_gt x c.blockNumber with hle | hlt
  · exact .inr (.inl ⟨hle, hd⟩)
  · exact .inr (.inr ⟨hlt, h c hlast x hlt (Option.isSome_iff_exists.2 ⟨d, hd⟩)⟩)

/-! ## What is reported -/

variable {x : ℕ}

omit [DecidableEq H] in
theorem checkpointIfStable_eq_some {d : H} :
    a.checkpointIfStable x = some d ↔ a.checkpoints.lookup x = some d ∧
      ∀ state ∈ a.checkpointPruningState, computeBlockIndexFor x < state.nextPivot := by
  unfold Anchors.checkpointIfStable
  rcases a.checkpointPruningState with _ | state
  · simp
  · by_cases hle : state.nextPivot ≤ computeBlockIndexFor x
    · simp [hle]
    · simp [hle, not_le.1 hle]

omit [DecidableEq H] in
theorem checkpointIfStable_of_below
    (h : ∀ state ∈ a.checkpointPruningState, computeBlockIndexFor x < state.nextPivot) :
    a.checkpointIfStable x = a.checkpoints.lookup x := by
  ext d
  rw [checkpointIfStable_eq_some]
  exact and_iff_left h

theorem get_eq_some {d : H} {q : SignedAttestation H A} :
    a.get d = some q ↔ a.attestationClearingCursor = none ∧ a.attestations.lookup d = some q := by
  unfold Anchors.get Anchors.attestationsStable
  rcases a.attestationClearingCursor with _ | cursor <;> simp

theorem Anchors.Keeps.checkpointIfStable_eq (h : a.Keeps m top log) (hx : x ≤ top)
    (hspared : Spared log x) : a.checkpointIfStable x = m x := by
  obtain ⟨hlookup, hbelow⟩ := h.kept x hx hspared
  rw [checkpointIfStable_of_below hbelow, hlookup]

theorem Anchors.Keeps.committed (h : a.Keeps m top log) {d : H} (hd : (a.get d).isSome = true) :
    Committed log d := by
  obtain ⟨att, hatt⟩ := Option.isSome_iff_exists.1 hd
  unfold Anchors.get Anchors.attestationsStable at hatt
  split at hatt
  · next hstable => exact h.attested (Option.isNone_iff_eq_none.1 hstable) d att hatt
  · cases hatt

omit [DecidableEq H] in
theorem Anchors.Stems.of_checkpointIfStable (h : a.Stems m top log) {d : H}
    (hd : a.checkpointIfStable x = some d) : Created log x d ∨ (x ≤ top ∧ m x = some d) := by
  obtain ⟨hlookup, hbelow⟩ := checkpointIfStable_eq_some.1 hd
  rcases h x d hlookup with hcreated | hbase | ⟨-, state, hstate, hpending⟩
  · exact .inl hcreated
  · exact .inr hbase
  · exact absurd hpending.1 (not_le.2 (hbelow state hstate))

end Since

/-! ## Runs -/

section Runs

variable [DecidableEq H] [DecidableEq A] {T : Config H A B} {s s₁ : State H A B} {k : ChainKey}

/-- **Induction over the events of a run**, for a chain that is not removed. -/
theorem eventsSince_invariant {P : List (AnchorEvent H) → Anchors H A → Prop}
    (hreach : Reachable T s)
    (hstep : ∀ log new a a', P log a → Logs new a a' → P (log ++ new) a')
    (h : P [] (s.chain T k).anchors) (acts : List (Action T)) (hlive : (run T s acts).Live k) :
    P ((s.chain T k).anchors.eventsSince ((run T s acts).chain T k).anchors)
      ((run T s acts).chain T k).anchors := by
  have hlive₀ := live_of_run hreach.keysBelow acts hlive
  refine (run_invariant (P := fun c => c.WellFormed T ∧
    (s.chain T k).anchors.events.length ≤ c.anchors.events.length ∧
      P ((s.chain T k).anchors.eventsSince c.anchors) c.anchors) hreach.keysBelow
    (fun supported c c' hc hcc' => ?_) (fun _ => ?_) acts hlive).2.2
  · obtain ⟨hwf, hlen, hP⟩ := hc
    obtain ⟨new, hlogs⟩ := ChainStep.logs hwf hcc'
    have hsince : (s.chain T k).anchors.eventsSince c'.anchors =
        (s.chain T k).anchors.eventsSince c.anchors ++ new := by
      rw [Anchors.eventsSince, hlogs.events_eq, List.drop_append_of_le_length hlen]
      rfl
    refine ⟨ChainStep.wellFormed hwf hcc', ?_, ?_⟩
    · rw [hlogs.events_eq, List.length_append]
      exact hlen.trans (Nat.le_add_right _ _)
    · rw [hsince]
      exact hstep _ _ _ _ hP hlogs
  · refine ⟨wellFormed_of_live hreach hlive₀, le_rfl, ?_⟩
    rw [Anchors.eventsSince, List.drop_length]
    exact h

def Anchors.LastIsHighest (a : Anchors H A) : Prop :=
  ∀ c ∈ a.lastCheckpoint, ∀ n, c.blockNumber < n → a.checkpoints.lookup n = none

omit [DecidableEq H] [DecidableEq A] in
theorem Anchors.LastIsHighest.capped {a : Anchors H A} (h : a.LastIsHighest) : a.Capped := by
  intro c hc n hlt hn
  rw [h c hc n hlt] at hn
  cases hn

/-- **What a revert leaves behind.** As long as the chain is not removed, a checkpoint up to the
height of the revert is reported as before until an event is about it. If the last checkpoint was
the highest one, a checkpoint above that height is reported only if it was created since, and a
digest only if its attestation was committed since or it is that of a checkpoint created since or
kept; and when the pruning has ended, the checkpoints are those up to the height and those created
since, and the buckets are their index. -/
theorem revert_sound {host : Host H A} {o : Origin A} {height : U64} (hreach : Reachable T s)
    (hrevert : dispatch T host s o (.revertTo k height) = .ok s₁) (acts : List (Action T))
    (hlive : (run T s₁ acts).Live k) :
    let a := (s.chain T k).anchors
    let a' := ((run T s₁ acts).chain T k).anchors
    let log := (s₁.chain T k).anchors.eventsSince a'
    (∀ x ≤ height.val, Spared log x → a'.checkpointIfStable x = a.checkpointIfStable x) ∧
      (a.LastIsHighest →
        (∀ x d, height.val < x → a'.checkpointIfStable x = some d → Created log x d) ∧
        (∀ d n, a'.containsDigest d n = true → Committed log d ∨ Created log n d ∨
          (n ≤ height.val ∧ a.checkpointIfStable n = some d)) ∧
        (a'.checkpointPruningState = none →
          (∀ x ≤ height.val, Spared log x → a'.checkpoints.lookup x = a.checkpoints.lookup x) ∧
          (∀ x d, a'.checkpoints.lookup x = some d → Created log x d ∨
            (x ≤ height.val ∧ a.checkpoints.lookup x = some d)) ∧
          ∀ pivot x, (a'.checkpointBuckets.lookup (pivot, x)).isSome = true ↔
            pivot = computeBlockIndexFor x ∧ (a'.checkpoints.lookup x).isSome = true)) := by
  intro a a' log
  have hstep : step T s (.call host o (.revertTo k height)) = s₁ := by rw [step, hrevert]
  have hreach₁ : Reachable T s₁ := hstep ▸ hreach.step _
  simp only [dispatch, asOperator_eq_ok, withAnchors_eq_ok] at hrevert
  obtain ⟨-, a₁, ha₁, rfl⟩ := hrevert
  obtain ⟨hsup, hpruning, -, digest, last, hdigest, hlast, rfl⟩ := revertTo_effect ha₁
  have hmarked : a.Marked := (wellFormed_of_live hreach (.inl hsup)).marked
  have hstable : ∀ x, a.checkpointIfStable x = a.checkpoints.lookup x := fun x =>
    checkpointIfStable_of_below fun state hstate => by rw [hpruning] at hstate; cases hstate
  have hbefore : ∀ x ≤ height.val,
      (a.reverted T host.attestations height digest last).checkpoints.lookup x =
        a.checkpoints.lookup x := by
    intro x hx
    refine (hmarked.indexed.lookup_purgeBucketAbove T height x).trans ?_
    exact if_neg fun h => absurd h.1 (not_lt.2 hx)
  have hchain := State.anchors_setAnchors T s k (a.reverted T host.attestations height digest last)
  have hkeeps := eventsSince_invariant
    (P := Anchors.Keeps ((a.reverted T host.attestations height digest last).checkpoints.lookup ·)
      height.val) hreach₁ (fun _ _ _ _ h hlogs => h.step hlogs) (by
        rw [hchain]
        refine (hmarked.reverted host.attestations hdigest).keeps rfl fun hcursor => ?_
        exact StorageMap.clearPrefix_eq_empty _ _ hcursor) acts hlive
  refine ⟨fun x hx hspared => ?_, fun hhighest => ?_⟩
  · rw [hkeeps.checkpointIfStable_eq hx hspared, hbefore x hx, hstable]
  · have hstems := eventsSince_invariant
      (P := Anchors.Stems ((a.reverted T host.attestations height digest last).checkpoints.lookup ·)
        height.val) hreach₁ (fun _ _ _ _ h hlogs => h.step hlogs) (by
          rw [hchain]
          exact (hhighest.capped.reverted hmarked hpruning host.attestations hlast).stems rfl)
      acts hlive
    refine ⟨fun x d hx hd => ?_, fun d n hd => ?_, fun hdone => ⟨fun x hx hspared => ?_,
      fun x d hd => ?_, ?_⟩⟩
    · exact (hstems.of_checkpointIfStable hd).resolve_right fun h => absurd h.1 (not_le.2 hx)
    · rcases (Bool.or_eq_true_iff ..).1 hd with hget | hcheckpoint
      · exact .inl (hkeeps.committed hget)
      · rcases hstems.of_checkpointIfStable (of_decide_eq_true hcheckpoint) with hnew | ⟨hle, hold⟩
        · exact .inr (.inl hnew)
        · exact .inr (.inr ⟨hle, by rw [hstable, ← hbefore n hle]; exact hold⟩)
    · rw [(hkeeps.kept x hx hspared).1, hbefore x hx]
    · rcases hstems x d hd with hnew | ⟨hle, hold⟩ | ⟨-, state, hstate, -⟩
      · exact .inl hnew
      · exact .inr ⟨hle, hbefore x hle ▸ hold⟩
      · rw [hdone] at hstate
        cases hstate
    · exact (wellFormed_of_live (hreach₁.run acts) hlive).marked.indexed.row_iff

section Devnet

open Devnet

/-- The network with a checkpoint in the first bucket and one in the third. -/
def spread : State Word ℕ Unit :=
  after (genesisConfig 10 10 [checkpoint 5, checkpoint 2000]) []

/-- The network with a chain that is listed twice, with the lower checkpoint in the second entry. -/
def relisted : State Word ℕ Unit :=
  after { genesisConfig 10 10 [] with
    attestationChainConfigurations := [⟨1, 10, 10, 120, [checkpoint 2000]⟩,
      ⟨1, 10, 10, 120, [checkpoint 50]⟩] } []

theorem reachable_spread : Reachable config spread := reachable_after (by rfl) []

theorem reachable_relisted : Reachable config relisted := reachable_after (by rfl) []

theorem spread_lastIsHighest : (spread.chain config 1).anchors.LastIsHighest := by
  have hlast : (spread.chain config 1).anchors.lastCheckpoint =
      some ⟨2000, .root 2000, by decide⟩ := by rfl
  have hkeys : ∀ n ∈ (spread.chain config 1).anchors.checkpoints.keys, n ≤ 2000 := by
    decide +kernel
  intro c hc n hlt
  rw [hlast, Option.mem_some_iff] at hc
  subst hc
  rcases hn : (spread.chain config 1).anchors.checkpoints.lookup n with _ | d
  · rfl
  · exact absurd (hkeys n ((StorageMap.mem_keys_iff _ n).2 ⟨d, hn⟩)) (not_le.2 hlt)

/-- After a revert to the first bucket and a block, the lower checkpoint is reported as before and
the higher one is not. -/
theorem devnet_revert_sound :
    ∃ s₁, dispatch config host spread .root (.revertTo 1 5) = .ok s₁ ∧
      ((run config s₁ [.block host]).chain config 1).anchors.checkpointIfStable 5 =
        (spread.chain config 1).anchors.checkpointIfStable 5 ∧
      ((run config s₁ [.block host]).chain config 1).anchors.checkpointIfStable 2000 = none := by
  have hrevert : dispatch config host spread .root (.revertTo 1 5) =
      .ok (step config spread (byRoot (.revertTo 1 5))) := dispatch_eq_step (by rfl)
  obtain ⟨hkept, hstale⟩ := revert_sound reachable_spread hrevert [.block host] (.inl (by rfl))
  -- No event is about a checkpoint.
  have hspared : Spared ([] : List (AnchorEvent Word)) 5 := by simp [Spared]
  refine ⟨_, hrevert, hkept 5 le_rfl hspared, Option.eq_none_iff_forall_ne_some.2 fun d hd => ?_⟩
  obtain ⟨c, hc, -⟩ : Created [] 2000 d := (hstale spread_lastIsHighest).1 2000 d (by decide) hd
  cases hc

/-- After a revert, an import may add a checkpoint below its height. The removal of the chain, and
the end of a pruning that was bounded by a last checkpoint that was not the highest one, let a stale
checkpoint be reported again. -/
theorem exists_revert_not_sound :
    (∃ s s₁ acts, Reachable config s ∧ dispatch config host s .root (.revertTo 1 2000) = .ok s₁ ∧
      ((run config s₁ acts).chain config 1).anchors.checkpointIfStable 7 ≠
        (s.chain config 1).anchors.checkpointIfStable 7) ∧
    (∃ s s₁ acts, Reachable config s ∧ dispatch config host s .root (.revertTo 1 5) = .ok s₁ ∧
      ((run config s₁ acts).chain config 1).anchors.checkpointIfStable 2000 = some (.root 2000) ∧
      ∀ d, ¬ Created ((s₁.chain config 1).anchors.eventsSince
        ((run config s₁ acts).chain config 1).anchors) 2000 d) ∧
    ∃ s s₁ acts, Reachable config s ∧ dispatch config host s .root (.revertTo 1 50) = .ok s₁ ∧
      (run config s₁ acts).isChainSupported 1 = true ∧
      ((run config s₁ acts).chain config 1).anchors.checkpointIfStable 2000 = some (.root 2000) ∧
      ∀ d, ¬ Created ((s₁.chain config 1).anchors.eventsSince
        ((run config s₁ acts).chain config 1).anchors) 2000 d := by
  refine ⟨⟨spread, _, [byRoot (.importCheckpoints 1 [⟨7, .root 7, by decide⟩])], reachable_spread,
      dispatch_eq_step (by rfl), by decide +kernel⟩,
    ⟨spread, _, [byRoot (.removeChain 1 false)], reachable_spread,
      dispatch_eq_step (by rfl), by rfl, ?_⟩,
    ⟨relisted, _, [.block host], reachable_relisted, dispatch_eq_step (by rfl), by rfl, by rfl,
      ?_⟩⟩
  · show ∀ d, ¬ Created [.clearedStorageForRemovedChain] 2000 d
    simp [Created]
  · show ∀ d, ¬ Created [] 2000 d
    simp [Created]

end Devnet

/-- **What a forward patch does.** Every height of the batch holds the digest of its last entry. The
last checkpoint is the highest entry, or the old one where nothing is wiped and it is higher. As
long as the chain is not removed, no attestation is reported that was not committed since, and the
patched checkpoints are reported until an event is about them. If the suffix is wiped and the last
checkpoint was the highest one, a checkpoint above the batch is reported only if it was created
since. -/
theorem forward_patch_sound {host : Host H A} {o : Origin A} {wipe : Bool}
    {batch : List (AttestationCheckpoint H)} (hreach : Reachable T s)
    (hpatch : dispatch T host s o (.forwardPatchCheckpoints k wipe batch) = .ok s₁) :
    let a := (s.chain T k).anchors
    let a₁ := (s₁.chain T k).anchors
    (∀ n c, lastEntry batch n = some c → a₁.checkpoints.lookup n = some c.digest) ∧
      ∃ tip, lastEntry batch tip.blockNumber = some tip ∧
        (∀ n c, lastEntry batch n = some c → n ≤ tip.blockNumber) ∧
        (wipe = true → a₁.lastCheckpoint = some tip) ∧
        (wipe = false →
          (a₁.lastCheckpoint = some tip ∧ ∀ l ∈ a.lastCheckpoint, l.blockNumber ≤ tip.blockNumber) ∨
          (a₁.lastCheckpoint = a.lastCheckpoint ∧
            ∃ l ∈ a.lastCheckpoint, tip.blockNumber < l.blockNumber)) ∧
        ∀ acts, (run T s₁ acts).Live k →
          let a' := ((run T s₁ acts).chain T k).anchors
          let log := a₁.eventsSince a'
          (∀ d, (a'.get d).isSome = true → Committed log d) ∧
          (∀ n c, lastEntry batch n = some c → Spared log n →
            a'.checkpointIfStable n = some c.digest) ∧
          (wipe = true → a.LastIsHighest → ∀ x d, tip.blockNumber < x →
            a'.checkpointIfStable x = some d → Created log x d) := by
  intro a a₁
  have hstep : step T s (.call host o (.forwardPatchCheckpoints k wipe batch)) = s₁ := by
    rw [step, hpatch]
  have hreach₁ : Reachable T s₁ := hstep ▸ hreach.step _
  simp only [dispatch, asOperator_eq_ok, bind_eq_ok, withAnchors_eq_ok] at hpatch
  obtain ⟨-, -, -, a₂, ha₂, heq₂⟩ := hpatch
  obtain ⟨hsup, hpruning, -, tip, htip, rfl⟩ := doForwardPatchCheckpoints_effect ha₂
  have hmarked : a.Marked := (wellFormed_of_live hreach (.inl hsup)).marked
  have hchain : a₁ = a.patched T host.attestations wipe batch tip := by
    show (s₁.chain T k).anchors = _
    rw [← heq₂]
    exact State.anchors_setAnchors T s k _
  have hlast : a₁.lastCheckpoint = some (patchedLast wipe a.lastCheckpoint tip) := by
    rw [hchain]
    rfl
  have hmarked₁ : a₁.Marked := hchain ▸ hmarked.patched host.attestations htip
  have hentries : ∀ n c, lastEntry batch n = some c → a₁.checkpoints.lookup n = some c.digest := by
    intro n c hc
    rw [hchain, hmarked.lookup_patched, hc]
  have hwiped : wipe = true → a₁.lastCheckpoint = some tip := by
    intro hwipe
    rcases patchedLast_cases wipe a.lastCheckpoint tip with ⟨heq, -⟩ | ⟨hfalse, -⟩
    · rw [hlast, heq]
    · rw [hwipe] at hfalse
      cases hfalse
  refine ⟨hentries, tip, lastEntry_tip htip, fun n c hc => (blockNumber_le_tip htip hc).2,
    hwiped, fun hwipe => ?_, fun acts hlive => ?_⟩
  · rcases patchedLast_cases wipe a.lastCheckpoint tip with ⟨heq, hle⟩ | ⟨-, l, hl, hlt, heq⟩
    · exact .inl ⟨by rw [hlast, heq], hle hwipe⟩
    · exact .inr ⟨by rw [hlast, heq, hl], l, hl, hlt⟩
  · intro a' log
    have htop : tip.blockNumber ≤ (patchedLast wipe a.lastCheckpoint tip).blockNumber := by
      rcases patchedLast_cases wipe a.lastCheckpoint tip with ⟨heq, -⟩ | ⟨-, l, -, hlt, heq⟩
      · rw [heq]
      · rw [heq]
        exact hlt.le
    have hkeeps : a'.Keeps (a₁.checkpoints.lookup ·)
        (patchedLast wipe a.lastCheckpoint tip).blockNumber log := by
      refine eventsSince_invariant (P := Anchors.Keeps (a₁.checkpoints.lookup ·) _) hreach₁
        (fun _ _ _ _ h hlogs => h.step hlogs) (hmarked₁.keeps hlast fun hcursor => ?_) acts hlive
      rw [hchain] at hcursor ⊢
      exact StorageMap.clearPrefix_eq_empty _ _ hcursor
    refine ⟨fun d hd => hkeeps.committed hd, fun n c hc hspared => ?_,
      fun hwipe hhighest x d hx hd => ?_⟩
    · have hle := (blockNumber_le_tip htip hc).2.trans htop
      rw [hkeeps.checkpointIfStable_eq hle hspared]
      exact hentries n c hc
    · have hcapped : a₁.Capped :=
        hchain ▸ hhighest.capped.patched hmarked hpruning host.attestations htip
      have hstems : a'.Stems (a₁.checkpoints.lookup ·) tip.blockNumber log :=
        eventsSince_invariant (P := Anchors.Stems (a₁.checkpoints.lookup ·) _) hreach₁
          (fun _ _ _ _ h hlogs => h.step hlogs) (hcapped.stems (hwiped hwipe)) acts hlive
      exact (hstems.of_checkpointIfStable hd).resolve_right fun h => absurd h.1 (not_le.2 hx)

section Devnet

open Devnet

/-- After a patch of the first bucket that wipes the suffix, and a block, the patched checkpoint is
reported and the higher one is not. -/
theorem devnet_forward_patch_sound :
    ∃ s₁, dispatch config host spread .root
        (.forwardPatchCheckpoints 1 true [⟨5, .root 6, by decide⟩]) = .ok s₁ ∧
      ((run config s₁ [.block host]).chain config 1).anchors.checkpointIfStable 5 = some (.root 6) ∧
      ((run config s₁ [.block host]).chain config 1).anchors.checkpointIfStable 2000 = none := by
  have hpatch : dispatch config host spread .root
      (.forwardPatchCheckpoints 1 true [⟨5, .root 6, by decide⟩]) = .ok (step config spread
        (byRoot (.forwardPatchCheckpoints 1 true [⟨5, .root 6, by decide⟩]))) :=
    dispatch_eq_step (by rfl)
  obtain ⟨-, tip, htip, -, -, -, hrun⟩ := forward_patch_sound reachable_spread hpatch
  obtain ⟨-, hkept, habove⟩ := hrun [.block host] (.inl (by rfl))
  have hspared : Spared ([] : List (AnchorEvent Word)) 5 := by simp [Spared]
  obtain rfl : tip = ⟨5, .root 6, by decide⟩ := by
    simpa [lastEntry] using List.mem_of_getLast? htip
  refine ⟨_, hpatch, hkept 5 ⟨5, .root 6, by decide⟩ rfl hspared,
    Option.eq_none_iff_forall_ne_some.2 fun d hd => ?_⟩
  obtain ⟨c, hc, -⟩ : Created [] 2000 d := habove rfl spread_lastIsHighest 2000 d (by decide) hd
  cases hc

/-- The removal of the chain, and a last checkpoint that was not the highest one, let a checkpoint
be reported that a patch has wiped. -/
theorem exists_patch_not_sound :
    (∃ s s₁ acts, Reachable config s ∧ dispatch config host s .root
        (.forwardPatchCheckpoints 1 true [⟨5, .root 6, by decide⟩]) = .ok s₁ ∧
      ((run config s₁ acts).chain config 1).anchors.checkpointIfStable 2000 = some (.root 2000) ∧
      ∀ d, ¬ Created ((s₁.chain config 1).anchors.eventsSince
        ((run config s₁ acts).chain config 1).anchors) 2000 d) ∧
    ∃ s s₁, Reachable config s ∧ dispatch config host s .root
        (.forwardPatchCheckpoints 1 true [⟨60, .root 60, by decide⟩]) = .ok s₁ ∧
      s₁.isChainSupported 1 = true ∧
      (s₁.chain config 1).anchors.checkpointIfStable 2000 = some (.root 2000) := by
  refine ⟨⟨spread, _, [byRoot (.removeChain 1 false)], reachable_spread,
      dispatch_eq_step (by rfl), by rfl, ?_⟩,
    ⟨relisted, _, reachable_relisted, dispatch_eq_step (by rfl), by rfl, by rfl⟩⟩
  show ∀ d, ¬ Created [.clearedStorageForRemovedChain] 2000 d
  simp [Created]

end Devnet

end Runs

end Creditcoin
