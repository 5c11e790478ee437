import Creditcoin.Attestation.Pruning

/-!
# Attestations extend the last finalized point

`Tracked`: the two queues list distinct attestations that are in storage, each under its own digest.
`Linked`: the height that the continuity check reads for the last digest is the height recorded with
it, whether the attestation is stored, was condensed into the last checkpoint, or is gone after a
revert.

`commit_extends_iff` derives what an accepted attestation links to. The check that lets an
attestation start a chain looks only at its height, so it also accepts one at the configured genesis
height above imported checkpoints. -/

namespace Creditcoin

variable {H A B : Type} [DecidableEq H]

/-! ## The queues -/

/-- The queues list distinct stored attestations, and are empty while attestations are swept. -/
structure Anchors.Tracked (T : Config H A B) (a : Anchors H A) : Prop where
  nodup : (a.attestationRemovalQueue ++ a.checkpointingQueue).Nodup
  stored : ∀ d ∈ a.attestationRemovalQueue ++ a.checkpointingQueue,
    ∃ att, a.attestations.lookup d = some att
  keyed : ∀ d att, a.attestations.lookup d = some att →
    att.digest T.keccak = d ∧ att.continuityProof.len < 2 ^ 32 ∧
      att.continuityProof.len ≤ att.headerNumber
  sweeping : a.attestationClearingCursor ≠ none →
    a.attestationRemovalQueue = [] ∧ a.checkpointingQueue = []

section Tracked

variable {T : Config H A B} {a : Anchors H A}

theorem Anchors.Untouched.tracked (h : a.Untouched) : a.Tracked T where
  nodup := by simp [h.removal_eq, h.queue_eq]
  stored := by simp [h.removal_eq, h.queue_eq]
  keyed := by simp [h.attestations_eq]
  sweeping _ := ⟨h.removal_eq, h.queue_eq⟩

variable {a' : Anchors H A}

theorem Anchors.Tracked.clear (h : a.Tracked T) (kill : KillResult H)
    (hatt : a'.attestations = (a.attestations.clearPrefix kill).1)
    (hremoval : a'.attestationRemovalQueue = []) (hqueue : a'.checkpointingQueue = []) :
    a'.Tracked T where
  nodup := by simp [hremoval, hqueue]
  stored := by simp [hremoval, hqueue]
  keyed d att hd := by
    rw [hatt] at hd
    exact h.keyed d att (StorageMap.lookup_clearPrefix _ kill d att hd)
  sweeping _ := ⟨hremoval, hqueue⟩

theorem Anchors.Tracked.proofsBounded (h : a.Tracked T) : a.ProofsBounded :=
  fun d att hd => (h.keyed d att hd).2

theorem Anchors.Tracked.notMem (h : a.Tracked T) {d : H} (hd : a.attestations.lookup d = none) :
    d ∉ a.attestationRemovalQueue ++ a.checkpointingQueue := fun hmem => by
  obtain ⟨att, hatt⟩ := h.stored d hmem
  simp [hd] at hatt

variable {att : SignedAttestation H A}

/-- After a commit, what is deleted, what is left of the removal queue and the queue are
disjoint. -/
theorem CommitEffect.nodup {st : Settings} {cps : List (AttestationCheckpoint H)}
    {popped kept : List H} {k : ℕ} (now : ℕ) (h : a.Tracked T)
    (hfresh : a.attestations.lookup (att.digest T.keccak) = none)
    (heffect : CommitEffect T st (storeAttestation T now a att) att cps popped kept k) :
    ((a.attestationRemovalQueue ++ popped).take k ++
      ((a.attestationRemovalQueue ++ popped).drop k ++ kept)).Nodup := by
  have hall :
    (a.attestationRemovalQueue ++ (a.checkpointingQueue ++ [att.digest T.keccak])).Nodup := by
    rw [← List.append_assoc]
    exact List.nodup_append.2 ⟨h.nodup, List.nodup_singleton _, by
      simpa using fun d hd hne => h.notMem hfresh (by simpa [hne] using hd)⟩
  rw [← List.append_assoc, List.take_append_drop, List.append_assoc]
  exact (List.Perm.append_left _ heffect.perm).nodup_iff.2 hall

theorem lookup_condensed_of_mem {cps : List (AttestationCheckpoint H)} {popped kept : List H}
    {k now : ℕ} {d : H} (hnodup : ((a.attestationRemovalQueue ++ popped).take k ++
      ((a.attestationRemovalQueue ++ popped).drop k ++ kept)).Nodup)
    (hd : d ∈ (a.attestationRemovalQueue ++ popped).drop k ++ kept) :
    ((storeAttestation T now a att).condensed cps popped kept k).attestations.lookup d =
      if d = att.digest T.keccak then some att else a.attestations.lookup d := by
  have hnot : d ∉ (a.attestationRemovalQueue ++ popped).take k := fun hmem =>
    (List.nodup_append.1 hnodup).2.2 d hmem d hd rfl
  refine (StorageMap.lookup_eraseAll _ _ _).trans ((if_neg hnot).trans ?_)
  exact StorageMap.lookup_insert_eq _ _ _ _

theorem Anchors.Tracked.commit [DecidableEq A] {c : Chain H A} {supported : Bool} {now n : ℕ}
    (hst : c.settings.Bounded T) (h : c.anchors.Tracked T)
    (hcommit : doCommitAttestation T supported now c att = .ok (a', n)) : a'.Tracked T := by
  obtain ⟨haccepted, cps, popped, kept, k, rfl, heffect⟩ :=
    doCommitAttestation_effect hst h.proofsBounded hcommit
  have hnodup := heffect.nodup now h haccepted.fresh
  refine ⟨(List.nodup_append.1 hnodup).2.1, ?_, ?_, ?_⟩
  · intro d hd
    change d ∈ (c.anchors.attestationRemovalQueue ++ popped).drop k ++ kept at hd
    rw [lookup_condensed_of_mem hnodup hd]
    split
    · exact ⟨att, rfl⟩
    · next hne =>
      have hmem : d ∈ c.anchors.attestationRemovalQueue ++
          (c.anchors.checkpointingQueue ++ [att.digest T.keccak]) := by
        refine (List.Perm.append_left _ heffect.perm).subset ?_
        rcases List.mem_append.1 hd with hdrop | hkept
        · have := List.mem_of_mem_drop hdrop
          simp only [List.mem_append] at this ⊢
          tauto
        · simp [hkept]
      refine h.stored d ?_
      simpa [hne] using hmem
  · intro d att' hd
    have hd' := (StorageMap.lookup_eraseAll _ _ _).symm.trans hd
    split at hd'
    · simp at hd'
    · rw [show (storeAttestation T now c.anchors att).attestations =
        c.anchors.attestations.insert (att.digest T.keccak) att from rfl,
        StorageMap.lookup_insert_eq] at hd'
      split at hd'
      · next heq =>
        obtain rfl := Option.some.inj hd'
        exact ⟨heq.symm, haccepted.len_bounded⟩
      · exact h.keyed d att' hd'
  · intro hcursor
    exact absurd haccepted.cursor_eq hcursor

theorem AnchorStep.tracked [DecidableEq A] {supported : Bool} {st : Settings} {r : Roster A}
    (hst : st.Bounded T) (h : a.Tracked T) (hstep : AnchorStep T supported st r a a') :
    a'.Tracked T := by
  cases hstep.effect with
  | committed now att hcommit => exact Anchors.Tracked.commit (c := ⟨a, r, st⟩) hst h hcommit
  | imported _ => exact { h with }
  | reverted kill _ _ _ | patched kill _ _ => exact h.clear kill rfl rfl rfl
  | swept hsweep =>
    rcases hsweep.attestations_cases with ⟨kill, hcursor, rfl⟩ | ⟨_, _, _, _, _, _, rfl⟩
    · obtain ⟨hremoval, hqueue⟩ := h.sweeping hcursor
      exact h.clear kill rfl hremoval hqueue
    · exact { h with }

end Tracked

/-! ## The last finalized point -/

/-- The last finalized point: the last digest, or else the last checkpoint. -/
def Anchors.lastFinalized (a : Anchors H A) : Option (ℕ × H) :=
  a.lastDigest.or (a.lastCheckpoint.map fun c => (c.blockNumber, c.digest))

/-- The height the continuity check finds for the last digest is the one recorded with it. -/
structure Anchors.Linked (a : Anchors H A) : Prop where
  empty : a.lastDigest = none → a.attestationClearingCursor = none →
    ∀ d, a.attestations.lookup d = none
  settled : ∀ h d, a.lastDigest = some (h, d) → a.attestationClearingCursor = none →
    (∃ att, a.attestations.lookup d = some att ∧ att.headerNumber = h) ∨
      (a.attestations.lookup d = none ∧ ∀ c ∈ a.lastCheckpoint, c.digest = d → c.blockNumber = h)
  sweeping : ∀ h d, a.lastDigest = some (h, d) → a.attestationClearingCursor ≠ none →
    ∀ c ∈ a.lastCheckpoint, c.digest = d → c.blockNumber = h
  ordered : ∀ last ∈ a.lastDigest, ∀ c ∈ a.lastCheckpoint, c.blockNumber ≤ last.1

section Linked

variable {T : Config H A B} {a : Anchors H A}

omit [DecidableEq H] in
theorem Anchors.lastFinalizedDigest_eq : a.lastFinalizedDigest = a.lastFinalized.map Prod.snd := by
  unfold lastFinalizedDigest lastFinalized
  rcases a.lastDigest with _ | l <;> rcases a.lastCheckpoint with _ | c <;> rfl

variable {supported : Bool}

theorem Accepted.above_lastFinalized [DecidableEq A] {now : ℕ} {c : Chain H A}
    {att : SignedAttestation H A} (haccepted : Accepted T supported now c att) {h : ℕ} {d : H}
    (hlast : c.anchors.lastFinalized = some (h, d)) : h < att.headerNumber := by
  unfold Anchors.lastFinalized at hlast
  rcases hdigest : c.anchors.lastDigest with _ | last
  · rw [hdigest, Option.none_or, Option.map_eq_some_iff] at hlast
    obtain ⟨cp, hcp, heq⟩ := hlast
    obtain ⟨rfl, rfl⟩ := Prod.mk.inj heq
    exact haccepted.above_checkpoint cp hcp
  · rw [hdigest, Option.some_or] at hlast
    obtain rfl := Option.some.inj hlast
    exact haccepted.above_digest _ hdigest

theorem Anchors.Linked.heightOf (hlinked : a.Linked) (hcursor : a.attestationClearingCursor = none)
    {h n : ℕ} {d : H} (hlast : a.lastFinalized = some (h, d)) (hheight : HeightOf a d n) :
    n = h := by
  have hget : ∀ d, a.get d = a.attestations.lookup d := fun d => by
    simp [Anchors.get, Anchors.attestationsStable, hcursor]
  unfold HeightOf at hheight
  rw [hget] at hheight
  rcases hdigest : a.lastDigest with _ | last
  · have hnone := hlinked.empty hdigest hcursor d
    rw [hnone] at hheight
    rcases hheight with ⟨prev, hprev, -⟩ | ⟨-, c, hc, -, rfl⟩
    · simp at hprev
    · simp only [lastFinalized, hdigest, hc, Option.map_some, Option.none_or, Option.some.injEq,
        Prod.mk.injEq] at hlast
      exact hlast.1
  · obtain rfl : last = (h, d) := by simpa [lastFinalized, hdigest] using hlast
    rcases hlinked.settled h d hdigest hcursor with ⟨att, hatt, rfl⟩ | ⟨hnone, hcheckpoint⟩
    · rw [hatt] at hheight
      rcases hheight with ⟨prev, hprev, rfl⟩ | ⟨hnone, -⟩
      · rw [Option.some.inj hprev]
      · simp at hnone
    · rw [hnone] at hheight
      rcases hheight with ⟨prev, hprev, -⟩ | ⟨-, c, hc, hdig, rfl⟩
      · simp at hprev
      · exact hcheckpoint c hc hdig

/-- What an attestation links to is the last finalized point. -/
theorem Anchors.Linked.lastFinalized_eq (hlinked : a.Linked)
    (hcursor : a.attestationClearingCursor = none) {st : Settings} {att : SignedAttestation H A}
    {n : ℕ} {d : H} (hlink : Links T st a att n d) : a.lastFinalized = some (n, d) := by
  have hlast := hlink.last_eq
  rw [Anchors.lastFinalizedDigest_eq, Option.map_eq_some_iff] at hlast
  obtain ⟨⟨h, d'⟩, hlast, rfl⟩ := hlast
  rwa [hlinked.heightOf hcursor hlast hlink.height]

variable {a' : Anchors H A}

/-- Sweeping attestations away keeps the invariant where the last digest, if any, is that of the
last checkpoint. -/
theorem Anchors.linked_of_clear (kill : KillResult H) (m : StorageMap H (SignedAttestation H A))
    (hatt : a'.attestations = (m.clearPrefix kill).1)
    (hcursor : a'.attestationClearingCursor = (m.clearPrefix kill).2)
    (hlast : ∀ h d, a'.lastDigest = some (h, d) →
      ∀ c ∈ a'.lastCheckpoint, c.digest = d → c.blockNumber = h)
    (hordered : ∀ last ∈ a'.lastDigest, ∀ c ∈ a'.lastCheckpoint, c.blockNumber ≤ last.1) :
    a'.Linked := by
  have hempty : a'.attestationClearingCursor = none → ∀ d, a'.attestations.lookup d = none := by
    intro hnone d
    rw [hcursor] at hnone
    rw [hatt, StorageMap.clearPrefix_eq_empty _ _ hnone, StorageMap.lookup_empty_eq]
  exact ⟨fun _ hnone => hempty hnone, fun h d hd hnone => .inr ⟨hempty hnone d, hlast h d hd⟩,
    fun h d hd _ => hlast h d hd, hordered⟩

theorem Anchors.Linked.commit [DecidableEq A] {c : Chain H A} {now n : ℕ}
    {att : SignedAttestation H A}
    (hT : 0 < T.defaultAttestationRetentionDuration ∨ HeightBinding T.keccak)
    (hst : c.settings.Bounded T) (htracked : c.anchors.Tracked T)
    (hcommit : doCommitAttestation T supported now c att = .ok (a', n)) : a'.Linked := by
  obtain ⟨haccepted, cps, popped, kept, k, rfl, heffect⟩ :=
    doCommitAttestation_effect hst htracked.proofsBounded hcommit
  have hnodup := heffect.nodup now htracked haccepted.fresh
  have hstore := storeAttestation_eq (T := T) now haccepted.above_digest
  have hdigest : ((storeAttestation T now c.anchors att).condensed cps popped kept k).lastDigest =
      some (att.headerNumber, att.digest T.keccak) := by
    rw [hstore]
    rfl
  refine ⟨fun hnone => ?_, fun h d hd _ => ?_, fun h d hd hcursor => ?_,
    fun last hlast cp hcp => ?_⟩
  · simp [hdigest] at hnone
  · obtain ⟨rfl, rfl⟩ := Prod.mk.inj (Option.mem_unique hdigest hd)
    -- The attestation is stored unless it was deleted at once.
    by_cases hmem : att.digest T.keccak ∈
        (c.anchors.attestationRemovalQueue ++ popped).take k
    · refine .inr ⟨(StorageMap.lookup_eraseAll _ _ _).trans (if_pos hmem), fun cp hcp hdig => ?_⟩
      change cps.getLast?.or c.anchors.lastCheckpoint = some cp at hcp
      rcases heffect.retained with hkept | ⟨self, hself, hheader, -⟩ | ⟨hzero, hne⟩
      · have hdisjoint := (List.nodup_append.1 hnodup).2.2 _ hmem (att.digest T.keccak)
        rw [List.mem_append, or_comm, ← List.mem_append] at hkept
        exact absurd rfl (hdisjoint hkept)
      · rw [hself, Option.some_or, Option.some.injEq] at hcp
        exact hcp ▸ hheader
      · obtain ⟨last, hlast⟩ := Option.isSome_iff_exists.1 (List.getLast?_isSome.2 hne)
        rw [hlast, Option.some_or, Option.some.injEq] at hcp
        subst hcp
        obtain ⟨q, -, hatt⟩ := heffect.attested last (List.mem_of_getLast? hlast)
        obtain ⟨root, prev, hkeccak⟩ := hatt.exists_keccak
        rw [hst.retention_eq] at hzero
        have hbind := hT.resolve_left (by omega)
        exact hbind _ _ _ _ _ _ (hkeccak.symm.trans hdig)
    · refine .inl ⟨att, ?_, rfl⟩
      exact (StorageMap.lookup_eraseAll _ _ _).trans ((if_neg hmem).trans (AList.lookup_insert _))
  · exact absurd haccepted.cursor_eq hcursor
  · rw [hdigest] at hlast
    obtain rfl := Option.mem_some_iff.1 hlast
    exact (heffect.advances.last_bounds haccepted.above_checkpoint hcp).2

theorem AnchorStep.linked [DecidableEq A] {st : Settings} {r : Roster A}
    (hT : 0 < T.defaultAttestationRetentionDuration ∨ HeightBinding T.keccak) (hst : st.Bounded T)
    (htracked : a.Tracked T) (h : a.Linked) (hstep : AnchorStep T supported st r a a') :
    a'.Linked := by
  cases hstep.effect with
  | committed now att hcommit =>
    exact Anchors.Linked.commit (c := ⟨a, r, st⟩) hT hst htracked hcommit
  | imported himports =>
    rcases himports.last_cases with ⟨rfl, -⟩ | ⟨-, hnone, -⟩
    · exact { h with }
    · exact ⟨h.empty, by simp [Anchors.imported, hnone], by simp [Anchors.imported, hnone],
        by simp [Anchors.imported, hnone]⟩
  | reverted kill _ _ _ =>
    refine Anchors.linked_of_clear kill a.attestations rfl rfl ?_ ?_
    · simp only [Anchors.reverted, Option.some.injEq, Prod.mk.injEq, Option.mem_some_iff]
      rintro _ _ ⟨rfl, rfl⟩ c rfl -
      rfl
    · simp [Anchors.reverted]
  | patched kill _ _ =>
    exact Anchors.linked_of_clear kill a.attestations rfl rfl (by simp [Anchors.patched])
      (by simp [Anchors.patched])
  | swept hsweep =>
    rcases hsweep.attestations_cases with ⟨kill, hcursor, rfl⟩ | ⟨_, _, _, _, _, _, rfl⟩
    · exact Anchors.linked_of_clear kill a.attestations rfl rfl
        (fun n d hd => h.sweeping n d hd hcursor) h.ordered
    · exact { h with }

end Linked

/-! ## Live chains -/

section Live

variable [DecidableEq A] {T : Config H A B} {s : State H A B} {k : ChainKey}

theorem tracked_of_live (hreach : Reachable T s) (hlive : s.Live k) :
    (s.chain T k).anchors.Tracked T := by
  refine (live_invariant (P := fun c => c.settings.Bounded T ∧ c.anchors.Tracked T) hreach hlive
    (fun gc s₀ h => ⟨genesis_bounded h, (genesis_untouched h).tracked⟩) ?_).2
  rintro supported c c' ⟨hst, htracked⟩ hstep
  refine ⟨hstep.bounded hst, ?_⟩
  cases hstep with
  | anchors h => exact h.tracked hst htracked
  | roster _ | settings _ => exact htracked

theorem genesis_linked {gc : GenesisConfig H A B} {s₀ : State H A B} (h : genesis T gc = some s₀) :
    (s₀.chain T k).anchors.Linked := by
  have huntouched := genesis_untouched (k := k) h
  refine ⟨fun _ _ d => ?_, ?_, ?_, ?_⟩
  · rw [huntouched.attestations_eq, StorageMap.lookup_empty_eq]
  all_goals simp [huntouched.lastDigest_eq]

theorem linked_of_live
    (hT : 0 < T.defaultAttestationRetentionDuration ∨ HeightBinding T.keccak)
    (hreach : Reachable T s) (hlive : s.Live k) : (s.chain T k).anchors.Linked := by
  refine (live_invariant (P := fun c => c.settings.Bounded T ∧ c.anchors.Tracked T ∧
    c.anchors.Linked) hreach hlive (fun gc s₀ h => ?_) ?_).2.2
  · exact ⟨genesis_bounded h, (genesis_untouched h).tracked, genesis_linked h⟩
  · rintro supported c c' ⟨hst, htracked, hlinked⟩ hstep
    refine ⟨hstep.bounded hst, ?_⟩
    cases hstep with
    | anchors h => exact ⟨h.tracked hst htracked, h.linked hT hst htracked hlinked⟩
    | roster _ | settings _ => exact ⟨htracked, hlinked⟩

/-- The attestation extends the last finalized point: its link starts at the digest of that point,
its proof covers the heights in between, and folding the roots over them gives its previous
digest. -/
def Extends (T : Config H A B) (a : Anchors H A) (att : SignedAttestation H A) : Prop :=
  ∃ h d, a.lastFinalized = some (h, d) ∧
    (att.continuityProof.roots ≠ [] → att.continuityProof.lowerEndpointDigest = d) ∧
    att.headerNumber = h + att.continuityProof.len + 1 ∧
    att.prevDigest = some
      (HashChain.foldFrom (hashPayload T.keccak) (h + 1) d att.continuityProof.roots)

/-- The chain has neither attestations nor checkpoints. -/
def Anchors.Blank (a : Anchors H A) : Prop := a.attestations.keys = [] ∧ a.checkpoints.keys = []

instance (a : Anchors H A) : Decidable a.Blank := inferInstanceAs (Decidable (_ ∧ _))

/-- **Accepted attestations extend the last finalized point**, except where they start a chain that
has nothing yet, and except at the configured genesis height. -/
theorem commit_extends_iff {host : Host H A} {o : Origin A} {att : SignedAttestation H A}
    {s' : State H A B}
    (hT : 0 < T.defaultAttestationRetentionDuration ∨ HeightBinding T.keccak)
    (hreach : Reachable T s) (hcommit : dispatch T host s o (.commitAttestation att) = .ok s') :
    (¬ (s.chain T att.chainKey).anchors.Blank →
        Extends T (s.chain T att.chainKey).anchors att) ↔
      ((s.chain T att.chainKey).anchors.Blank ∨
        att.headerNumber ≠
          (s.chain T att.chainKey).settings.attestationChainGenesisBlockNumber) := by
  simp only [dispatch, asSigned_eq_ok, State.commitAttestation_eq_ok] at hcommit
  obtain ⟨who, -, -, a, n, hcommit, -⟩ := hcommit
  obtain ⟨haccepted, -⟩ := doCommitAttestation_cases hcommit
  have hlinked := linked_of_live hT hreach (.inl haccepted.supported_eq)
  by_cases hblank : (s.chain T att.chainKey).anchors.Blank
  · simp [hblank]
  · simp only [hblank, not_false_eq_true, forall_const, false_or]
    rcases haccepted.continues with hstart | ⟨hne, m, d, hlink⟩
    · refine iff_of_false ?_ fun hne => hne hstart.header_eq
      rintro ⟨h, d, -, -, -, hprev⟩
      simp [hstart.prev_eq] at hprev
    · refine iff_of_true ?_ hne
      have hlast := hlinked.lastFinalized_eq haccepted.cursor_eq hlink
      exact ⟨m, d, hlast, hlink.lower_eq, hlink.header_eq, hlink.prev_eq⟩

end Live

section Devnet

open Devnet

/-- On a development network the second attestation extends the first. -/
theorem second_commit_extends :
    Extends config
      ((started 10 10).chain config (nextAttestation (started 10 10) 12).chainKey).anchors
      (nextAttestation (started 10 10) 12) :=
  (commit_extends_iff (.inl (by decide)) (reachable_after (by rfl) _)
    (dispatch_eq_step (o := .signed 1) (by rfl))).2 (.inr (by decide +kernel))
    (by decide +kernel)

/-- An attestation at the genesis height is accepted above an imported checkpoint, and extends
nothing. -/
theorem exists_commit_not_extends :
    ∃ (s s' : State Word ℕ Unit) (att : SignedAttestation Word ℕ), Reachable config s ∧
      dispatch config host s (.signed 1) (.commitAttestation att) = .ok s' ∧
      ¬ (s.chain config att.chainKey).anchors.Blank ∧
      ¬ Extends config (s.chain config att.chainKey).anchors att := by
  refine ⟨after (genesisConfig 10 10 []) [byRoot (.setAttestationChainGenesisBlockNumber 1 100),
      byRoot (.importCheckpoints 1 [⟨50, .root 50, by decide⟩])], _,
        attestation 100 none ⟨.zero, []⟩,
    reachable_after (by rfl) _, dispatch_eq_step (by rfl),
    by decide +kernel, ?_⟩
  rintro ⟨h, d, -, -, -, hprev⟩
  simp [attestation, SignedAttestation.prevDigest] at hprev

end Devnet

/-! ## The queue of a checkpoint -/

/-- **The queue of `try_make_checkpoint`.** An error leaves the queue as it was. A success leaves a
suffix of it; either nothing was removed and no checkpoint made, or one checkpoint was made, above
the last one and below the header, and what was removed went to the end of the removal queue, in
order, before it was trimmed. -/
theorem tryMakeCheckpoint_queue (T : Config H A B) (st : Settings) (a : Anchors H A)
    (queue : List H) (header : ℕ) (hwidth : checkpointWidth st < 2 ^ 62) (hheader : header ≤ u64Max)
    {made : MadeCheckpoint H A} (hmade : tryMakeCheckpoint T st a queue header = made) :
    (∀ e, made.outcome = .error e → made.queue = queue) ∧
    (made.outcome = .ok () → ∃ removed, queue = removed ++ made.queue ∧
      (removed = [] ∧ made.anchors = a ∨
        ∃ last c, a.lastCheckpoint = some last ∧ last.blockNumber < c.blockNumber ∧
          c.blockNumber < header ∧
          made.anchors = (a.reachCheckpoint c).removeAttestations st
            (a.attestationRemovalQueue ++ removed))) := by
  subst hmade
  rcases tryMakeCheckpoint_cases T st a queue header with ⟨hanchors, hqueue, -⟩ |
    ⟨last, c, removed, hmakes⟩
  · exact ⟨fun _ _ => hqueue, fun _ => ⟨[], hqueue.symm, .inl ⟨rfl, hanchors⟩⟩⟩
  · refine ⟨fun e he => ?_, fun _ => ⟨removed, hmakes.queue_eq, .inr ⟨last, c, hmakes.last_eq, ?_⟩⟩⟩
    · rw [hmakes.outcome_eq] at he
      simp at he
    · have hdue := hmakes.due
      rw [Nat.mod_eq_of_lt (by omega)] at hdue
      have hnext := nextCheckpointBlock_of_le (w := checkpointWidth st) (n := last.blockNumber)
        (by omega)
      have hlt := lt_nextBoundary (n := last.blockNumber) hmakes.width_pos
      have hle := nextCheckpointBlock_le (checkpointWidth st) last.blockNumber
      rw [hmakes.block_eq]
      exact ⟨by omega, by omega, hmakes.anchors_eq⟩

/-- A queue whose first attestation is not stored is put back. -/
theorem tryMakeCheckpoint_queue_missing :
    (tryMakeCheckpoint Devnet.config (Settings.initial Devnet.config)
      { (Anchors.empty : Anchors Devnet.Word ℕ) with lastCheckpoint := some (Devnet.checkpoint 0) }
      [.zero, .zero] 1000).queue = [.zero, .zero] :=
  (tryMakeCheckpoint_queue _ _ _ _ _ (by decide) (by decide) rfl).1 .attestationNotFound rfl

end Creditcoin
