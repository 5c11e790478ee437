import Creditcoin.Attestation.SettingsBounds

/-!
# The effect of a commit on the storage

The three paths of a commit change the storage in the same shape (`CommitEffect`): new checkpoints
above the last one, some of the queued attestations moved to the removal queue, and the oldest of
those deleted. -/

namespace Creditcoin

variable {H A B : Type}

/-! ## New checkpoints -/

/-- Checkpoints of increasing height, above the last checkpoint and up to a header. -/
structure Advances (last : Option (AttestationCheckpoint H)) (header : ℕ)
    (cps : List (AttestationCheckpoint H)) : Prop where
  sorted : cps.Pairwise fun c c' => c.blockNumber < c'.blockNumber
  above : ∀ c ∈ cps, ∀ l ∈ last, l.blockNumber < c.blockNumber
  le_header : ∀ c ∈ cps, c.blockNumber ≤ header

section Advances

variable {last : Option (AttestationCheckpoint H)} {header : ℕ}
  {cps : List (AttestationCheckpoint H)}

theorem advances_nil : Advances last header [] := ⟨.nil, by simp, by simp⟩

variable {c : AttestationCheckpoint H}

theorem advances_singleton (habove : ∀ l ∈ last, l.blockNumber < c.blockNumber)
    (hle : c.blockNumber ≤ header) : Advances last header [c] :=
  ⟨List.pairwise_singleton _ _, by simpa using habove, by simpa using hle⟩

theorem Ladder.advances {w l : ℕ} (hw : 0 < w) (h : Ladder w header l cps) :
    cps.Pairwise (fun c c' => c.blockNumber < c'.blockNumber) ∧
      (∀ c ∈ cps, l < c.blockNumber) ∧ ∀ c ∈ cps, c.blockNumber ≤ header := by
  induction h with
  | nil => simp
  | @cons l c cps hc hle hrest ih =>
    obtain ⟨hsorted, habove, hbelow⟩ := ih
    have hlt : l < c.blockNumber := hc ▸ lt_nextBoundary hw
    refine ⟨List.pairwise_cons.2 ⟨habove, hsorted⟩, ?_, ?_⟩
    · simpa [hlt] using fun c' hc' => hlt.trans (habove c' hc')
    · simpa [hle] using hbelow

theorem mem_or_of_mem_getLast? (h : c ∈ cps.getLast?.or last) :
    c ∈ cps ∨ (cps = [] ∧ c ∈ last) := by
  rcases hl : cps.getLast? with _ | l
  · rw [hl, Option.none_or] at h
    exact .inr ⟨List.getLast?_eq_none_iff.1 hl, h⟩
  · rw [hl, Option.some_or, Option.mem_some_iff] at h
    exact .inl (h ▸ List.mem_of_getLast? hl)

theorem Advances.last_bounds (h : Advances last header cps)
    (hlast : ∀ l ∈ last, l.blockNumber < header) (hc : c ∈ cps.getLast?.or last) :
    (∀ l ∈ last, l.blockNumber ≤ c.blockNumber) ∧ c.blockNumber ≤ header := by
  rcases mem_or_of_mem_getLast? hc with hmem | ⟨-, hold⟩
  · exact ⟨fun l hl => (h.above c hmem l hl).le, h.le_header c hmem⟩
  · refine ⟨fun l hl => ?_, (hlast c hold).le⟩
    rw [Option.mem_unique hl hold]

theorem Advances.le_last (h : Advances last header cps) {l : AttestationCheckpoint H}
    (hc : c ∈ cps) (hl : l ∈ cps.getLast?.or last) : c.blockNumber ≤ l.blockNumber := by
  rcases Option.or_eq_some_iff.1 hl with hl | ⟨hnone, -⟩
  swap
  · rw [List.getLast?_eq_none_iff.1 hnone] at hc
    cases hc
  obtain ⟨front, rfl⟩ := List.getLast?_eq_some_iff.1 hl
  rcases List.mem_append.1 hc with hmem | hmem
  · exact ((List.pairwise_append.1 h.sorted).2.2 c hmem l (by simp)).le
  · rw [List.mem_singleton.1 hmem]

theorem Advances.lookup_insertCheckpoints (h : Advances last header cps) (m : StorageMap ℕ H)
    (hc : c ∈ cps) : (insertCheckpoints m cps).lookup c.blockNumber = some c.digest := by
  obtain ⟨c', hc', hblock, hlookup⟩ := exists_of_lookup_insertCheckpoints m cps ⟨c, hc, rfl⟩
  have hnodup : (cps.map (·.blockNumber)).Nodup :=
    List.pairwise_map.2 (h.sorted.imp fun hlt => hlt.ne)
  rw [hlookup, List.inj_on_of_nodup_map hnodup hc' hc hblock]

end Advances

/-! ## Condensing -/

variable [DecidableEq H]

/-- The storage after making the checkpoints `cps`: of the queue, `popped` moved to the removal
queue and `kept` stays, and the `k` oldest entries of the removal queue are deleted. -/
def Anchors.condensed (a : Anchors H A) (cps : List (AttestationCheckpoint H))
    (popped kept : List H) (k : ℕ) : Anchors H A :=
  { a with
    attestations := a.attestations.eraseAll ((a.attestationRemovalQueue ++ popped).take k)
    checkpoints := insertCheckpoints a.checkpoints cps
    checkpointBuckets := insertBuckets a.checkpointBuckets cps
    lastCheckpoint := cps.getLast?.or a.lastCheckpoint
    checkpointingQueue := kept
    attestationRemovalQueue := (a.attestationRemovalQueue ++ popped).drop k
    events := a.events ++ cps.map .checkpointReached }

section Condensed

variable (a : Anchors H A) {popped : List H}

theorem lookup_of_condensed {a : Anchors H A} {cps : List (AttestationCheckpoint H)} {kept : List H}
    {k : ℕ} {d : H} {q : SignedAttestation H A}
    (h : (a.condensed cps popped kept k).attestations.lookup d = some q) :
    a.attestations.lookup d = some q := by
  replace h := (StorageMap.lookup_eraseAll _ _ _).symm.trans h
  split at h
  · simp at h
  · exact h

theorem condensed_nil (kept : List H) :
    { a with checkpointingQueue := kept } = a.condensed [] [] kept 0 := by
  simp [Anchors.condensed, insertCheckpoints, insertBuckets, StorageMap.eraseAll]

theorem condensed_condensed {cps cps' : List (AttestationCheckpoint H)}
    {popped' kept kept' : List H} {k k' : ℕ}
    (hk : k ≤ (a.attestationRemovalQueue ++ popped).length) :
    (a.condensed cps popped kept k).condensed cps' popped' kept' k' =
      a.condensed (cps ++ cps') (popped ++ popped') kept' (k + k') := by
  have htake : a.attestationRemovalQueue ++ (popped ++ popped') =
      (a.attestationRemovalQueue ++ popped) ++ popped' := (List.append_assoc _ _ _).symm
  have hdrop : ((a.attestationRemovalQueue ++ popped) ++ popped').drop k =
      (a.attestationRemovalQueue ++ popped).drop k ++ popped' := List.drop_append_of_le_length hk
  simp only [Anchors.condensed, Anchors.mk.injEq, insertCheckpoints, insertBuckets,
    List.foldl_append, List.getLast?_append, List.map_append, List.append_assoc, true_and, and_true]
  refine ⟨?_, Option.or_assoc.symm, ?_⟩
  · rw [htake, List.take_add, StorageMap.eraseAll, StorageMap.eraseAll, StorageMap.eraseAll,
      List.foldl_append, hdrop, List.take_append_of_le_length hk]
  · rw [htake, ← List.drop_drop, hdrop]

theorem checkpointAtAttestation_eq (st : Settings) (c : AttestationCheckpoint H)
    (queue : List H) :
    checkpointAtAttestation st a c queue =
      a.condensed [c] queue [] (dropCount st (a.attestationRemovalQueue ++ queue)) := by
  rw [checkpointAtAttestation, removeAttestations_eq]
  rfl

theorem Makes.anchors_condensed {T : Config H A B} {st : Settings} {queue : List H} {header : ℕ}
    {made : MadeCheckpoint H A} {last c : AttestationCheckpoint H}
    (h : Makes T st a queue header made last c popped) :
    made.anchors = a.condensed [c] popped a.checkpointingQueue
      (dropCount st (a.attestationRemovalQueue ++ popped)) := by
  rw [h.anchors_eq, removeAttestations_eq]
  rfl

theorem caughtUp_eq (T : Config H A B) (st : Settings) (att : SignedAttestation H A)
    (cps : List (AttestationCheckpoint H)) :
    caughtUp T st a att cps =
      a.condensed cps (a.checkpointingQueue ++ [att.digest T.keccak]) []
        (dropCount st (a.attestationRemovalQueue ++
          (a.checkpointingQueue ++ [att.digest T.keccak]))) := by
  rw [caughtUp, removeAttestations_eq, foldl_reachCheckpoint, List.append_assoc]
  rfl

end Condensed

/-! ## The shape of a commit -/

/-- What every commit of `att` does to the storage `a` in which it was just stored. -/
structure CommitEffect (T : Config H A B) (st : Settings) (a : Anchors H A)
    (att : SignedAttestation H A) (cps : List (AttestationCheckpoint H)) (popped kept : List H)
    (k : ℕ) : Prop where
  perm : (popped ++ kept).Perm (a.checkpointingQueue ++ [att.digest T.keccak])
  advances : Advances a.lastCheckpoint att.headerNumber cps
  /-- A new checkpoint has a digest that a queued attestation gives to its block. -/
  attested : ∀ c ∈ cps, ∃ q, a.Queued (a.checkpointingQueue ++ [att.digest T.keccak]) q ∧
    q.Attests T.keccak c.blockNumber c.digest
  /-- The attestation stays in storage, or is itself the last checkpoint. The exception is a
  retention of zero. -/
  retained : att.digest T.keccak ∈ kept ++ (a.attestationRemovalQueue ++ popped).drop k ∨
    (∃ c ∈ cps.getLast?, c.blockNumber = att.headerNumber ∧ c.digest = att.digest T.keccak) ∨
    (st.attestationRetentionDuration = 0 ∧ cps ≠ [])

section Effect

variable {T : Config H A B} {st : Settings} {a a' : Anchors H A} {att : SignedAttestation H A}

omit [DecidableEq H] in
/-- A checkpoint is due only where the next boundary is above the last checkpoint and at least one
width below the header. -/
theorem Settings.Bounded.due_bounds (hst : st.Bounded T) {header last : ℕ}
    (hheader : header < 2 ^ 64)
    (hdue : (checkpointWidth st * 2 + 1) % 2 ^ 64 ≤ header - last) :
    nextCheckpointBlock (checkpointWidth st) last = nextBoundary (checkpointWidth st) last ∧
      last < nextBoundary (checkpointWidth st) last ∧
      nextBoundary (checkpointWidth st) last + checkpointWidth st < header := by
  rw [hst.due_eq] at hdue
  have hnext : nextCheckpointBlock (checkpointWidth st) last =
      nextBoundary (checkpointWidth st) last :=
    nextCheckpointBlock_of_le (by unfold u64Max; omega)
  have hle := nextBoundary_le (checkpointWidth st) last
  exact ⟨hnext, lt_nextBoundary hst.width_pos, by omega⟩

theorem Makes.mem_queue (hst : st.Bounded T) {queue : List H}
    {made : MadeCheckpoint H A} {last c : AttestationCheckpoint H} {popped : List H}
    (hhead : a.attestations.lookup (att.digest T.keccak) = some att)
    (h : Makes T st a (queue ++ [att.digest T.keccak]) att.headerNumber made last c popped) :
    att.digest T.keccak ∈ made.queue := by
  obtain ⟨hnext, -, hlt⟩ := hst.due_bounds att.headerNumber_lt h.due
  have htarget : c.blockNumber < att.headerNumber := by
    rw [h.block_eq, hnext]
    omega
  rcases List.eq_nil_or_concat made.queue with hnil | ⟨front, d, hconcat⟩
  · -- Everything was popped, so the last entry attests the target itself.
    rcases h.condenses.inv with ⟨before, d, att', hpop, -, hd, hheader, -⟩ | ⟨d, rest, -, hkept, -⟩
    · have hqueue := h.queue_eq
      rw [hnil, List.append_nil, hpop] at hqueue
      obtain ⟨-, hlast⟩ := List.append_inj' hqueue rfl
      rw [← List.cons.inj hlast |>.1, hhead] at hd
      rw [← Option.some.inj hd] at hheader
      omega
    · rw [hnil] at hkept
      simp at hkept
  · have hqueue := h.queue_eq
    rw [hconcat, List.concat_eq_append, ← List.append_assoc] at hqueue
    obtain ⟨-, hlast⟩ := List.append_inj' hqueue rfl
    rw [hconcat, List.concat_eq_append, ← hlast]
    simp

/-- Every stored attestation has a proof of admissible length. -/
def Anchors.ProofsBounded (a : Anchors H A) : Prop :=
  ∀ d att, a.attestations.lookup d = some att →
    att.continuityProof.len < 2 ^ 32 ∧ att.continuityProof.len ≤ att.headerNumber

/-- The checkpoint made from the queue has the digest that a queued attestation gives to its
block. -/
theorem Makes.attested {queue : List H} {header : ℕ} {made : MadeCheckpoint H A}
    {last c : AttestationCheckpoint H} {popped : List H} (hproofs : a.ProofsBounded)
    (h : Makes T st a queue header made last c popped) :
    ∃ q, a.Queued queue q ∧ q.Attests T.keccak c.blockNumber c.digest := by
  rcases h.condenses.inv with ⟨before, d, q, hpop, -, hd, hheader, hdigest, -⟩ |
    ⟨d, rest, q, hkept, -, hd, hlt, hdigest, -⟩
  · refine ⟨q, ⟨d, ?_, hd⟩, .inl ⟨hheader.symm, hdigest⟩⟩
    rw [h.queue_eq, hpop]
    simp
  · refine ⟨q, ⟨d, ?_, hd⟩, .inr ?_⟩
    · rw [h.queue_eq, hkept]
      simp
    · obtain ⟨hlen, hle⟩ := hproofs d q hd
      refine (digestForBlock_eq_some hlen ?_).1 hdigest
      unfold ContinuityProof.startBlockNumber
      unfold ContinuityProof.len at hle ⊢
      omega

/-- The queue is condensed into the checkpoint that is due, if there is one, and what is left into
one at the attestation, if it is too long. -/
theorem queueAttestation_condensed (T : Config H A B) (st : Settings) (a : Anchors H A)
    (att : SignedAttestation H A) :
    let queue := a.checkpointingQueue ++ [att.digest T.keccak]
    let top : AttestationCheckpoint H :=
      ⟨att.headerNumber, att.digest T.keccak, att.headerNumber_lt⟩
    let made := tryMakeCheckpoint T st a queue att.headerNumber
    let a' := (queueAttestation T st a att (att.digest T.keccak)).1
    a' = a.condensed [top] queue [] (dropCount st (a.attestationRemovalQueue ++ queue)) ∨
    a' = a.condensed [] [] queue 0 ∨
    ∃ last c popped, Makes T st a queue att.headerNumber made last c popped ∧
      (a' = a.condensed [c, top] (popped ++ made.queue) []
          (dropCount st (a.attestationRemovalQueue ++ popped) +
            dropCount st (made.anchors.attestationRemovalQueue ++ made.queue)) ∨
        a' = a.condensed [c] popped made.queue
          (dropCount st (a.attestationRemovalQueue ++ popped))) := by
  intro queue top made a'
  have ha' : a' = if T.maxCheckpointingQueueLen < made.queue.length then
      checkpointAtAttestation st made.anchors top made.queue
      else { made.anchors with checkpointingQueue := made.queue } := by
    simp only [a', queueAttestation]
    split <;> rfl
  rcases tryMakeCheckpoint_cases T st a queue att.headerNumber with
    ⟨hanchors, hqueue, -⟩ | ⟨last, c, popped, hmakes⟩
  · rw [show made.anchors = a from hanchors, show made.queue = queue from hqueue] at ha'
    split at ha'
    · exact .inl (ha'.trans (checkpointAtAttestation_eq a st top queue))
    · exact .inr (.inl (ha'.trans (condensed_nil a queue)))
  · refine .inr (.inr ⟨last, c, popped, hmakes, ?_⟩)
    split at ha'
    · left
      rw [ha', checkpointAtAttestation_eq, hmakes.anchors_condensed,
        condensed_condensed a (dropCount_le _ _)]
      rfl
    · right
      rw [ha', hmakes.anchors_condensed]
      rfl

theorem queueAttestation_effect (hst : st.Bounded T) (hproofs : a.ProofsBounded)
    (hlast : ∀ l ∈ a.lastCheckpoint, l.blockNumber < att.headerNumber)
    (hhead : a.attestations.lookup (att.digest T.keccak) = some att) :
    ∃ cps popped kept k,
      (queueAttestation T st a att (att.digest T.keccak)).1 = a.condensed cps popped kept k ∧
        CommitEffect T st a att cps popped kept k := by
  have hself : ∃ q, a.Queued (a.checkpointingQueue ++ [att.digest T.keccak]) q ∧
      q.Attests T.keccak att.headerNumber (att.digest T.keccak) :=
    ⟨att, ⟨_, by simp, hhead⟩, .inl ⟨rfl, rfl⟩⟩
  rcases queueAttestation_condensed T st a att with
    heq | heq | ⟨last, c, popped, hmakes, hcases⟩
  · refine ⟨_, _, _, _, heq, ?_, ?_, ?_, ?_⟩
    · rw [List.append_nil]
    · exact advances_singleton hlast le_rfl
    · simpa using hself
    · exact .inr (.inl ⟨_, rfl, rfl, rfl⟩)
  · refine ⟨_, _, _, _, heq, ?_, advances_nil, ?_, ?_⟩
    · exact .refl _
    · simp
    · exact .inl (by simp)
  · obtain ⟨hnext, hgt, hlt⟩ := hst.due_bounds att.headerNumber_lt hmakes.due
    have hc : last.blockNumber < c.blockNumber ∧ c.blockNumber < att.headerNumber := by
      rw [hmakes.block_eq, hnext]
      omega
    have habove : ∀ l ∈ a.lastCheckpoint, l.blockNumber < c.blockNumber := by
      intro l hl
      rw [hmakes.last_eq] at hl
      exact Option.mem_some_iff.1 hl ▸ hc.1
    rcases hcases with heq | heq
    · refine ⟨_, _, _, _, heq, ?_, ?_, ?_, ?_⟩
      · rw [List.append_nil, ← hmakes.queue_eq]
      · exact ⟨by simpa using hc.2, by simpa using ⟨habove, hlast⟩, by simpa using hc.2.le⟩
      · simpa using ⟨hmakes.attested hproofs, hself⟩
      · exact .inr (.inl ⟨_, rfl, rfl, rfl⟩)
    · refine ⟨_, _, _, _, heq, ?_, ?_, ?_, ?_⟩
      · rw [← hmakes.queue_eq]
      · exact advances_singleton habove hc.2.le
      · simpa using hmakes.attested hproofs
      · exact .inl (List.mem_append_left _ (hmakes.mem_queue hst hhead))

theorem Commits.effect (hst : st.Bounded T) (hproofs : a.ProofsBounded) {n : ℕ}
    (hlast : ∀ l ∈ a.lastCheckpoint, l.blockNumber < att.headerNumber)
    (hhead : a.attestations.lookup (att.digest T.keccak) = some att)
    (h : Commits T st a att a' n) :
    ∃ cps popped kept k,
      a' = a.condensed cps popped kept k ∧ CommitEffect T st a att cps popped kept k := by
  cases h with
  | first hkeys hgenesis =>
    refine ⟨[⟨att.headerNumber, att.digest T.keccak, att.headerNumber_lt⟩], [att.digest T.keccak],
      a.checkpointingQueue, 0, rfl, List.perm_append_comm, ?_, ?_, ?_⟩
    · exact advances_singleton hlast le_rfl
    · simpa using (⟨att, ⟨_, by simp, hhead⟩, .inl ⟨rfl, rfl⟩⟩ :
        ∃ q, a.Queued (a.checkpointingQueue ++ [att.digest T.keccak]) q ∧
          q.Attests T.keccak att.headerNumber (att.digest T.keccak))
    · exact .inr (.inl ⟨_, rfl, rfl, rfl⟩)
  | @caughtUp last cps hkeys hcatch =>
    obtain ⟨hsorted, habove, hbelow⟩ := hcatch.ladder.advances hcatch.width_pos
    refine ⟨_, _, _, _, caughtUp_eq a T st att cps, ?_, ⟨hsorted, ?_, hbelow⟩, ?_, ?_⟩
    · rw [List.append_nil]
    · intro c hc l hl
      rw [hcatch.last_eq] at hl
      exact Option.mem_some_iff.1 hl ▸ habove c hc
    · intro c hc
      rcases attests_of_lookup_boundaryDigests (hcatch.digest_eq c hc) with
        hatt | ⟨q, ⟨d, hd, hq⟩, hatt⟩
      · exact ⟨att, ⟨_, by simp, hhead⟩, hatt⟩
      · exact ⟨q, ⟨d, List.mem_append_left _ hd, hq⟩, hatt⟩
    · rcases Nat.eq_zero_or_pos st.attestationRetentionDuration with hzero | hpos
      · exact .inr (.inr ⟨hzero, hcatch.ne_nil⟩)
      · -- The attestation is the newest entry of the removal queue, which keeps some.
        refine .inl (List.mem_append_right _ ?_)
        rw [← List.append_assoc, List.drop_append_of_le_length]
        · simp
        · simp only [dropCount, List.length_append, List.length_singleton]
          omega
  | queued hkeys hnot => exact queueAttestation_effect hst hproofs hlast hhead

variable {supported : Bool} {c : Chain H A}

theorem Accepted.len_bounded [DecidableEq A] {now : ℕ} (h : Accepted T supported now c att) :
    att.continuityProof.len < 2 ^ 32 ∧ att.continuityProof.len ≤ att.headerNumber := by
  rcases h.continues with hstart | ⟨-, m, e, hlink⟩
  · simp [ContinuityProof.len, hstart.roots_eq]
  · have hlt := maxRoots_lt c.settings
    have hle := hlink.len_le
    have hheader := hlink.header_eq
    omega

theorem Accepted.proofsBounded_store [DecidableEq A] {now : ℕ} (h : Accepted T supported now c att)
    (hproofs : c.anchors.ProofsBounded) : (storeAttestation T now c.anchors att).ProofsBounded := by
  intro d q hq
  replace hq := (StorageMap.lookup_insert_eq _ _ _ _).symm.trans hq
  split at hq
  · exact Option.some.inj hq ▸ h.len_bounded
  · exact hproofs d q hq

/-- **The effect of a commit.** -/
theorem doCommitAttestation_effect [DecidableEq A] {now n : ℕ} (hst : c.settings.Bounded T)
    (hproofs : c.anchors.ProofsBounded)
    (h : doCommitAttestation T supported now c att = .ok (a', n)) :
    Accepted T supported now c att ∧ ∃ cps popped kept k,
      a' = (storeAttestation T now c.anchors att).condensed cps popped kept k ∧
        CommitEffect T c.settings (storeAttestation T now c.anchors att) att cps popped kept k := by
  obtain ⟨haccepted, hcommits⟩ := doCommitAttestation_cases h
  exact ⟨haccepted, hcommits.effect hst (haccepted.proofsBounded_store hproofs)
    haccepted.above_checkpoint (AList.lookup_insert _)⟩

end Effect

end Creditcoin
