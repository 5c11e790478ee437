import Creditcoin.Attestation.Checkpoints

/-!
# Which attestations are kept

Both queues together are the latest part of what was committed, in that order, and a chain that is
not being drained stores exactly the attestations they list (`queues_list_attestations`). So the
attestation at the last digest is stored, or it is the last checkpoint (`lastDigest_resolves`). -/

namespace Creditcoin

variable {H A B : Type}

/-! ## What a commit moves -/

/-- The digests of the attestations that were committed, in that order. -/
def attestedDigests (log : List (AnchorEvent H)) : List H :=
  log.filterMap fun
    | .blockAttested _ digest => some digest
    | _ => none

theorem attestedDigests_append (log new : List (AnchorEvent H)) :
    attestedDigests (log ++ new) = attestedDigests log ++ attestedDigests new :=
  List.filterMap_append

theorem attestedDigests_map_checkpointReached (cps : List (AttestationCheckpoint H)) :
    attestedDigests (cps.map .checkpointReached) = [] := by
  simp [attestedDigests]

/-- The digests in the two queues, the removal queue first. -/
def Anchors.retained (a : Anchors H A) : List H := a.attestationRemovalQueue ++ a.checkpointingQueue

variable [DecidableEq H]

/-- With the new digest `d` at its end, the queue is cut in two: `popped` is condensed, and all but
the `k` oldest condensed digests are kept, which are no more than the retention allows. -/
structure Condenses (st : Settings) (a : Anchors H A) (d : H) (popped kept : List H) (k : ℕ) :
    Prop where
  order : popped ++ kept = a.checkpointingQueue ++ [d]
  le_length : k ≤ (a.attestationRemovalQueue ++ popped).length
  trimmed : popped = [] ∧ k = 0 ∨
    (a.attestationRemovalQueue ++ popped).length ≤ k + st.attestationRetentionDuration

section Condenses

variable {T : Config H A B} {st : Settings} {a a' : Anchors H A} {att : SignedAttestation H A}
  {d : H} {popped kept : List H}

omit [DecidableEq H] in
theorem condenses_dropCount (h : popped ++ kept = a.checkpointingQueue ++ [d]) :
    Condenses st a d popped kept (dropCount st (a.attestationRemovalQueue ++ popped)) := by
  refine ⟨h, dropCount_le _ _, .inr ?_⟩
  unfold dropCount
  omega

theorem queueAttestation_condenses (T : Config H A B) (st : Settings) (a : Anchors H A)
    (att : SignedAttestation H A) :
    ∃ cps popped kept k,
      (queueAttestation T st a att (att.digest T.keccak)).1 = a.condensed cps popped kept k ∧
        Condenses st a (att.digest T.keccak) popped kept k := by
  rcases queueAttestation_condensed T st a att with
    heq | heq | ⟨last, c, popped, hmakes, heq | heq⟩
  · exact ⟨_, _, _, _, heq, condenses_dropCount (List.append_nil _)⟩
  · exact ⟨_, _, _, _, heq, List.nil_append _, Nat.zero_le _, .inl ⟨rfl, rfl⟩⟩
  · -- A checkpoint was made from the queue and another one at the attestation.
    refine ⟨_, _, _, _, heq, ?_, ?_, .inr ?_⟩
    · rw [List.append_nil, ← hmakes.queue_eq]
    all_goals
      simp only [hmakes.anchors_condensed, dropCount, Anchors.condensed, List.length_append,
        List.length_drop]
      omega
  · exact ⟨_, _, _, _, heq, condenses_dropCount hmakes.queue_eq.symm⟩

theorem Commits.condenses (hret : 1 ≤ st.attestationRetentionDuration)
    (hstart : a.checkpoints.keys = [] → a.retained = []) {n : ℕ} (h : Commits T st a att a' n) :
    ∃ cps popped kept k, a' = a.condensed cps popped kept k ∧
      (a.checkpoints.keys = [] → cps ≠ []) ∧
      Condenses st a (att.digest T.keccak) popped kept k := by
  cases h with
  | first hkeys hgenesis =>
    obtain ⟨hremoval, hqueue⟩ := List.append_eq_nil_iff.1 (hstart hkeys)
    refine ⟨[⟨att.headerNumber, att.digest T.keccak, att.headerNumber_lt⟩], [att.digest T.keccak],
      a.checkpointingQueue, 0, rfl, fun _ => List.cons_ne_nil _ _, ?_, Nat.zero_le _, .inr ?_⟩
    · rw [hqueue]
      rfl
    · rw [hremoval, List.nil_append, List.length_singleton, Nat.zero_add]
      exact hret
  | @caughtUp last cps hkeys hcatch =>
    exact ⟨_, _, _, _, caughtUp_eq a T st att cps, fun hnil => absurd hnil hkeys,
      condenses_dropCount (List.append_nil _)⟩
  | queued hkeys hnot =>
    obtain ⟨cps, popped, kept, k, heq, hcond⟩ :=
      queueAttestation_condenses T st a att
    exact ⟨cps, popped, kept, k, heq, fun hnil => absurd hnil hkeys, hcond⟩

theorem Condenses.retained_eq {cps : List (AttestationCheckpoint H)} {k : ℕ}
    (h : Condenses st a d popped kept k) :
    (a.condensed cps popped kept k).retained = (a.retained ++ [d]).drop k := by
  show (a.attestationRemovalQueue ++ popped).drop k ++ kept = _
  rw [← List.drop_append_of_le_length h.le_length, List.append_assoc, h.order, Anchors.retained,
    List.append_assoc]

omit [DecidableEq H]

theorem Condenses.take_eq {k : ℕ} (h : Condenses st a d popped kept k) :
    (a.attestationRemovalQueue ++ popped).take k = (a.retained ++ [d]).take k := by
  rw [Anchors.retained, List.append_assoc, ← h.order, ← List.append_assoc,
    List.take_append_of_le_length h.le_length]

theorem Condenses.length_drop_le {k : ℕ} (h : Condenses st a d popped kept k)
    (hle : a.attestationRemovalQueue.length ≤ st.attestationRetentionDuration) :
    ((a.attestationRemovalQueue ++ popped).drop k).length ≤ st.attestationRetentionDuration := by
  rw [List.length_drop]
  rcases h.trimmed with ⟨rfl, rfl⟩ | htrim
  · rwa [List.append_nil, Nat.sub_zero]
  · omega

end Condenses

/-! ## The queues list what is stored -/

/-- The queues list the attestations that are stored and not being drained, in the order in which
they were committed, and the removal queue is within the retention. -/
structure Anchors.Retained (retention : ℕ) (a : Anchors H A) : Prop where
  listed : a.attestationClearingCursor = none →
    ∀ d att, a.attestations.lookup d = some att → d ∈ a.retained
  recent : a.retained <:+ attestedDigests a.events
  length_le : a.attestationRemovalQueue.length ≤ retention
  unstarted : a.lastCheckpoint = none → a.retained = []

section Retained

variable {T : Config H A B} {a a' : Anchors H A} {retention : ℕ}

theorem Anchors.Untouched.retained (h : a.Untouched) : a.Retained retention where
  listed _ d att hd := by simp [h.attestations_eq] at hd
  recent := by simp [Anchors.retained, h.removal_eq, h.queue_eq]
  length_le := by simp [h.removal_eq]
  unstarted _ := by simp [Anchors.retained, h.removal_eq, h.queue_eq]

theorem Anchors.retained_of_clear (kill : KillResult H) (m : StorageMap H (SignedAttestation H A))
    (hatt : a.attestations = (m.clearPrefix kill).1)
    (hcursor : a.attestationClearingCursor = (m.clearPrefix kill).2)
    (hremoval : a.attestationRemovalQueue = []) (hqueue : a.checkpointingQueue = []) :
    a.Retained retention where
  listed hnone d att hd := by
    rw [hcursor] at hnone
    rw [hatt, StorageMap.clearPrefix_eq_empty _ _ hnone, AList.lookup_empty] at hd
    cases hd
  recent := by simp [Anchors.retained, hremoval, hqueue]
  length_le := by simp [hremoval]
  unstarted _ := by simp [Anchors.retained, hremoval, hqueue]

theorem Anchors.Retained.store [DecidableEq A] {c : Chain H A} {supported : Bool} {now : ℕ}
    {att : SignedAttestation H A} (h : c.anchors.Retained retention) (hmarked : c.anchors.Marked)
    (haccepted : Accepted T supported now c att) :
    (storeAttestation T now c.anchors att).retained = c.anchors.retained ∧
      ((storeAttestation T now c.anchors att).checkpoints.keys = [] →
        (storeAttestation T now c.anchors att).retained = []) := by
  rw [storeAttestation_eq (T := T) now haccepted.above_digest]
  exact ⟨rfl, fun hkeys => h.unstarted (hmarked.keys_eq_nil_iff.1 hkeys)⟩

theorem Anchors.Retained.commit [DecidableEq A] {c : Chain H A} {supported : Bool} {now n : ℕ}
    {att : SignedAttestation H A} (hret : 1 ≤ c.settings.attestationRetentionDuration)
    (hmarked : c.anchors.Marked) (h : c.anchors.Retained c.settings.attestationRetentionDuration)
    (hcommit : doCommitAttestation T supported now c att = .ok (a', n)) :
    a'.Retained c.settings.attestationRetentionDuration := by
  obtain ⟨haccepted, hcommits⟩ := doCommitAttestation_cases hcommit
  have hstore := storeAttestation_eq (T := T) now haccepted.above_digest
  obtain ⟨-, hstart⟩ := h.store hmarked haccepted
  obtain ⟨cps, popped, kept, k, rfl, hfirst, hcond⟩ := hcommits.condenses hret hstart
  have hlisted : ∀ d q, (storeAttestation T now c.anchors att).attestations.lookup d = some q →
      d ∈ c.anchors.retained ++ [att.digest T.keccak] := by
    intro d q hd
    rw [lookup_storeAttestation] at hd
    split at hd
    · next heq => simp [heq]
    · exact List.mem_append_left _ (h.listed haccepted.cursor_eq d q hd)
  refine ⟨fun _ d q hd => ?_, ?_, hcond.length_drop_le h.length_le, fun hnone => ?_⟩
  · have hkept := (StorageMap.lookup_eraseAll _ _ _).symm.trans hd
    rw [hcond.take_eq] at hkept
    split at hkept
    · cases hkept
    · next hnot =>
      rw [hcond.retained_eq]
      have hmem := hlisted d q hkept
      rw [← List.take_append_drop k (c.anchors.retained ++ [att.digest T.keccak])] at hmem
      exact (List.mem_append.1 hmem).resolve_left hnot
  · have hevents : ((storeAttestation T now c.anchors att).condensed cps popped kept k).events =
        (c.anchors.events ++ [.blockAttested att.headerNumber (att.digest T.keccak)]) ++
          cps.map .checkpointReached := by
      rw [hstore]
      rfl
    rw [hcond.retained_eq, hevents, attestedDigests_append, attestedDigests_append,
      attestedDigests_map_checkpointReached, List.append_nil]
    obtain ⟨older, holder⟩ := h.recent
    refine (List.drop_suffix _ _).trans ⟨older, ?_⟩
    rw [← holder, List.append_assoc]
    rfl
  · obtain ⟨hcps, hlast⟩ := Option.or_eq_none_iff.1 hnone
    exact absurd (List.getLast?_eq_none_iff.1 hcps) (hfirst (hmarked.keys_eq_nil_iff.2 hlast))

theorem AnchorStep.retained [DecidableEq A] {supported : Bool} {st : Settings} {r : Roster A}
    (hret : 1 ≤ st.attestationRetentionDuration) (hmarked : a.Marked) (htracked : a.Tracked T)
    (h : a.Retained st.attestationRetentionDuration)
    (hstep : AnchorStep T supported st r a a') : a'.Retained st.attestationRetentionDuration := by
  cases hstep.effect with
  | committed now att hcommit =>
    exact Anchors.Retained.commit (c := ⟨a, r, st⟩) hret hmarked h hcommit
  | @imported _ cps last himports =>
    refine ⟨h.listed, ?_, h.length_le, fun hnone => ?_⟩
    · show a.retained <:+ attestedDigests (a.events ++ cps.map .checkpointReached)
      rw [attestedDigests_append, attestedDigests_map_checkpointReached, List.append_nil]
      exact h.recent
    · rcases himports.last_cases with ⟨rfl, -⟩ | ⟨-, -, m, -, rfl, -⟩
      · exact h.unstarted hnone
      · cases hnone
  | reverted kill _ _ _ | patched kill _ _ =>
    exact Anchors.retained_of_clear kill a.attestations rfl rfl rfl rfl
  | swept hsweep =>
    rcases hmarked.sweep_cases hsweep with ⟨state, -, rfl⟩ | ⟨kill, hcursor, rfl⟩
    · obtain ⟨checkpoints, buckets, pruning, heq⟩ := pruneCheckpoints_frame (T := T) state a
      rw [heq]
      exact { h with }
    · obtain ⟨hremoval, hqueue⟩ := htracked.sweeping hcursor
      exact Anchors.retained_of_clear kill a.attestations rfl rfl hremoval hqueue

end Retained

/-! ## The attestation at the last digest -/

/-- The last digest is that of a stored attestation, or of the last checkpoint. -/
def Anchors.Anchored (a : Anchors H A) : Prop :=
  ∀ h d, a.lastDigest = some (h, d) →
    (a.attestationClearingCursor = none ∧
        ∃ att, a.attestations.lookup d = some att ∧ att.headerNumber = h) ∨
      ∃ c ∈ a.lastCheckpoint, c.blockNumber = h ∧ c.digest = d

section Anchored

variable {T : Config H A B} {a a' : Anchors H A}

theorem Anchors.Anchored.commit [DecidableEq A] {c : Chain H A} {supported : Bool} {now n : ℕ}
    {att : SignedAttestation H A} (hret : 1 ≤ c.settings.attestationRetentionDuration)
    (hst : c.settings.Bounded T) (htracked : c.anchors.Tracked T)
    (hcommit : doCommitAttestation T supported now c att = .ok (a', n)) : a'.Anchored := by
  obtain ⟨haccepted, cps, popped, kept, k, rfl, heffect⟩ :=
    doCommitAttestation_effect hst htracked.proofsBounded hcommit
  have hnodup := heffect.nodup now htracked haccepted.fresh
  intro h d hlast
  rw [storeAttestation_eq (T := T) now haccepted.above_digest] at hlast
  obtain ⟨rfl, rfl⟩ := Prod.mk.inj (Option.some.inj hlast)
  rcases heffect.retained with hkept | ⟨last, hlast, hheader, hdigest⟩ | ⟨hzero, -⟩
  · refine .inl ⟨haccepted.cursor_eq, att, ?_, rfl⟩
    have hmem : att.digest T.keccak ∈
        (c.anchors.attestationRemovalQueue ++ popped).drop k ++ kept := by
      rw [List.mem_append, or_comm, ← List.mem_append]
      exact hkept
    rw [lookup_condensed_of_mem hnodup hmem, if_pos rfl]
  · refine .inr ⟨last, ?_, hheader, hdigest⟩
    show cps.getLast?.or c.anchors.lastCheckpoint = some last
    rw [hlast, Option.some_or]
  · omega

theorem AnchorStep.anchored [DecidableEq A] {supported : Bool} {st : Settings} {r : Roster A}
    (hret : 1 ≤ st.attestationRetentionDuration) (hst : st.Bounded T) (htracked : a.Tracked T)
    (h : a.Anchored) (hstep : AnchorStep T supported st r a a') : a'.Anchored := by
  cases hstep.effect with
  | committed now att hcommit =>
    exact Anchors.Anchored.commit (c := ⟨a, r, st⟩) hret hst htracked hcommit
  | @imported _ cps last himports =>
    rcases himports.last_cases with ⟨rfl, -⟩ | ⟨-, hnone, -⟩
    · exact h
    · intro height d hlast
      rw [show (a.imported cps last).lastDigest = none from hnone] at hlast
      cases hlast
  | reverted kill _ _ _ =>
    intro height' d hlast
    obtain ⟨rfl, rfl⟩ := Prod.mk.inj (Option.some.inj hlast)
    exact .inr ⟨_, rfl, rfl, rfl⟩
  | patched kill _ _ =>
    intro height d hlast
    cases hlast
  | swept hsweep =>
    rcases hsweep.attestations_cases with ⟨kill, hcursor, rfl⟩ | ⟨_, _, _, _, _, _, rfl⟩
    · intro height d hlast
      exact .inr ((h height d hlast).resolve_left fun hleft => hcursor hleft.1)
    · exact h

end Anchored

/-! ## Supported chains -/

section Live

variable [DecidableEq A] {T : Config H A B} {s : State H A B} {k : ChainKey}

theorem retained_of_live (hret : 1 ≤ T.defaultAttestationRetentionDuration)
    (hreach : Reachable T s) (hlive : s.Live k) :
    (s.chain T k).anchors.Retained T.defaultAttestationRetentionDuration ∧
      (s.chain T k).anchors.Anchored := by
  refine (live_invariant (P := fun c => c.WellFormed T ∧
    c.anchors.Retained T.defaultAttestationRetentionDuration ∧ c.anchors.Anchored) hreach hlive
    (fun gc s₀ hgen => ⟨genesis_wellFormed hgen, (genesis_untouched hgen).retained, ?_⟩) ?_).2
  · intro h d hlast
    rw [(genesis_untouched hgen).lastDigest_eq] at hlast
    cases hlast
  · rintro supported c c' ⟨hwf, hretained, hanchored⟩ hstep
    refine ⟨hstep.wellFormed hwf, ?_⟩
    cases hstep with
    | anchors hstep =>
      rw [← hwf.bounded.retention_eq] at hret hretained ⊢
      exact ⟨hstep.retained hret hwf.marked hwf.tracked hretained,
        hstep.anchored hret hwf.bounded hwf.tracked hanchored⟩
    | roster _ | settings _ => exact ⟨hretained, hanchored⟩

theorem heightOf_lastFinalized (hret : 1 ≤ T.defaultAttestationRetentionDuration)
    (hreach : Reachable T s) (hlive : s.Live k) {h : ℕ} {d : H}
    (hlast : (s.chain T k).anchors.lastFinalized = some (h, d)) :
    HeightOf (s.chain T k).anchors d h := by
  have hanchored := (retained_of_live hret hreach hlive).2
  have hlinked := linked_of_live (.inl hret) hreach hlive
  unfold HeightOf Anchors.get Anchors.attestationsStable
  unfold Anchors.lastFinalized at hlast
  rcases hdigest : (s.chain T k).anchors.lastDigest with _ | last
  · rw [hdigest, Option.none_or, Option.map_eq_some_iff] at hlast
    obtain ⟨c, hc, heq⟩ := hlast
    obtain ⟨rfl, rfl⟩ := Prod.mk.inj heq
    refine .inr ⟨?_, c, hc, rfl, rfl⟩
    rcases hcursor : (s.chain T k).anchors.attestationClearingCursor with _ | cursor
    · exact hlinked.empty hdigest hcursor _
    · rfl
  · rw [hdigest, Option.some_or] at hlast
    obtain rfl := Option.some.inj hlast
    rcases hcursor : (s.chain T k).anchors.attestationClearingCursor with _ | cursor
    · rcases hlinked.settled h d hdigest hcursor with hstored | ⟨hnone, -⟩
      · exact .inl hstored
      · refine .inr ⟨hnone, ?_⟩
        obtain ⟨c, hc, hheight, hd⟩ := (hanchored h d hdigest).resolve_left
          fun ⟨_, att, hatt, _⟩ => by rw [hnone] at hatt; cases hatt
        exact ⟨c, hc, hd, hheight⟩
    · obtain ⟨c, hc, hheight, hd⟩ := (hanchored h d hdigest).resolve_left
        fun ⟨hnone, _⟩ => by rw [hcursor] at hnone; cases hnone
      exact .inr ⟨rfl, c, hc, hd, hheight⟩

/-- **The queues list the stored attestations.** Where no attestations are drained, the attestations
in storage are those of the two queues, without repetition. The queues are the latest part of what
was committed, the removal queue before the other, and the removal queue never outgrows the
retention. -/
theorem queues_list_attestations (hreach : Reachable T s) (hsup : s.isChainSupported k = true)
    (hdrain : (s.chain T k).anchors.attestationClearingCursor = none)
    (hret : 1 ≤ (s.chain T k).settings.attestationRetentionDuration) :
    let a := (s.chain T k).anchors
    (∀ d, d ∈ a.attestations.keys ↔ d ∈ a.checkpointingQueue ∨ d ∈ a.attestationRemovalQueue) ∧
      (a.attestationRemovalQueue ++ a.checkpointingQueue).Nodup ∧
      a.attestationRemovalQueue ++ a.checkpointingQueue <:+ attestedDigests a.events ∧
      a.attestationRemovalQueue.length ≤ (s.chain T k).settings.attestationRetentionDuration := by
  intro a
  have hwf := wellFormed_of_live hreach (.inl hsup)
  rw [hwf.bounded.retention_eq] at hret ⊢
  obtain ⟨hretained, -⟩ := retained_of_live hret hreach (.inl hsup)
  refine ⟨fun d => ?_, hwf.tracked.nodup, hretained.recent, hretained.length_le⟩
  rw [or_comm, ← List.mem_append]
  constructor
  · intro hmem
    obtain ⟨att, hatt⟩ := Option.isSome_iff_exists.1 (AList.lookup_isSome.2 hmem)
    exact hretained.listed hdrain d att hatt
  · intro hmem
    obtain ⟨att, hatt⟩ := hwf.tracked.stored d hmem
    exact AList.lookup_isSome.1 (by rw [hatt]; rfl)

/-- **The last digest resolves to its own height.** Where no attestations are drained, it is that of
a stored attestation with the height recorded, or of the last checkpoint, and the continuity check
reads that height for it. -/
theorem lastDigest_resolves (hreach : Reachable T s) (hsup : s.isChainSupported k = true)
    (hdrain : (s.chain T k).anchors.attestationClearingCursor = none)
    (hret : 1 ≤ (s.chain T k).settings.attestationRetentionDuration) {h : ℕ} {d : H}
    (hlast : (s.chain T k).anchors.lastDigest = some (h, d)) :
    ((∃ att, (s.chain T k).anchors.attestations.lookup d = some att ∧ att.headerNumber = h) ∨
        ∃ c, (s.chain T k).anchors.lastCheckpoint = some c ∧ c.blockNumber = h ∧ c.digest = d) ∧
      ∀ e, (s.chain T k).anchors.headerNumberOf d e = .ok h := by
  rw [(bounded_of_live hreach (.inl hsup)).retention_eq] at hret
  have hanchored := ((retained_of_live hret hreach (.inl hsup)).2 h d hlast).imp_left And.right
  have hget : (s.chain T k).anchors.get d = (s.chain T k).anchors.attestations.lookup d := by
    simp [Anchors.get, Anchors.attestationsStable, hdrain]
  refine ⟨hanchored, fun e => headerNumberOf_eq_ok.2 ?_⟩
  unfold HeightOf
  rw [hget]
  rcases (linked_of_live (.inl hret) hreach (.inl hsup)).settled h d hlast hdrain with
    ⟨att, hatt, hheader⟩ | ⟨hnone, -⟩
  · exact .inl ⟨att, hatt, hheader⟩
  · refine .inr ⟨hnone, ?_⟩
    rcases hanchored with ⟨att, hatt, -⟩ | ⟨c, hc, hheight, hdigest⟩
    · rw [hnone] at hatt
      cases hatt
    · exact ⟨c, hc, hdigest, hheight⟩

end Live

section Devnet

open Devnet

/-- A network with a checkpoint for every two attestations, after four attestations. -/
def attestedTo30 : State Word ℕ Unit :=
  run config (started 10 2) (commits (started 10 2) [10, 20, 30])

/-- All attestations of that network are in a queue, and both queues are in use. -/
theorem devnet_queues_list :
    (∀ d ∈ (attestedTo30.chain config 1).anchors.attestations,
      d ∈ (attestedTo30.chain config 1).anchors.checkpointingQueue ∨
        d ∈ (attestedTo30.chain config 1).anchors.attestationRemovalQueue) ∧
    (attestedTo30.chain config 1).anchors.attestations.keys.length = 4 ∧
    (attestedTo30.chain config 1).anchors.checkpointingQueue ≠ [] ∧
    (attestedTo30.chain config 1).anchors.attestationRemovalQueue ≠ [] := by
  have hreach : Reachable config attestedTo30 := (reachable_after (by rfl) _).run _
  have hlist := queues_list_attestations (k := 1) hreach (by decide +kernel) (by decide +kernel)
    (by decide +kernel)
  exact ⟨fun d => (hlist.1 d).1, by decide +kernel⟩

/-- The digest of the first attestation resolves to its height. -/
theorem devnet_lastDigest_resolves :
    ((started 10 10).chain config 1).anchors.headerNumberOf (.first 0 (.root 0))
      .invalidAttestationPrevDigest = .ok 0 :=
  (lastDigest_resolves (reachable_after (by rfl) _) (by rfl)
    (by rfl) (by decide +kernel) (by rfl)).2 _

end Devnet

end Creditcoin
