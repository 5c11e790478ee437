import Creditcoin.Attestation.Evictions
import Creditcoin.Attestation.Reverts
import Creditcoin.BlockProver.SourceChain
import Creditcoin.ProofServer.Build

/-!
# What is served is accepted

What is cached is what the chain reports (`ChainState.Agrees`). Commits, imports and sweeps keep it.
A revert and a forward patch delete all attestations, and a patch may wipe checkpoints, but their
events do not make the server forget all of that: `Conveys` says when they do. Along such runs a
proof that is built is accepted unless it is too long (`served_accepted`). Otherwise a proof may be
served that no call accepts (`exists_served_rejected`). -/

namespace Creditcoin.ProofServer

open Metered
open Relation (ReflTransGen)

variable {H A B : Type}

/-! ## Following the events -/

namespace ChainState

/-- The caches after the events of the chain that are passed on. -/
def follow (A : Type) (c : ChainState H) (events : List (AnchorEvent H)) : ChainState H :=
  (events.filterMap (AnchorEvent.toCcEvent (A := A))).foldl processCcEvent c

section Follow

variable {c : ChainState H}

theorem follow_append (events events' : List (AnchorEvent H)) :
    c.follow A (events ++ events') = (c.follow A events).follow A events' := by
  unfold follow
  rw [List.filterMap_append, List.foldl_append]

theorem follow_concat_checkpoint (events : List (AnchorEvent H)) (cp : AttestationCheckpoint H) :
    c.follow A (events ++ [.checkpointReached cp]) =
      (c.follow A events).processCcEvent (A := A) (.checkpointReached cp) :=
  follow_append events [.checkpointReached cp]

theorem processCcEvent_maxEntries (event : CcEvent H A) :
    (c.processCcEvent event).checkpointCacheMaxEntries = c.checkpointCacheMaxEntries := by
  cases event <;> rfl

theorem follow_maxEntries (events : List (AnchorEvent H)) :
    (c.follow A events).checkpointCacheMaxEntries = c.checkpointCacheMaxEntries := by
  unfold follow
  induction events.filterMap (AnchorEvent.toCcEvent (A := A)) generalizing c with
  | nil => rfl
  | cons event events ih => exact ih.trans (processCcEvent_maxEntries event)

theorem foldl_processCcEvent (events : List (CcEvent H A)) :
    events.foldl processCcEvent c =
      (events.filter CcEvent.isAnchorEvent).foldl processCcEvent c := by
  induction events generalizing c with
  | nil => rfl
  | cons event events ih =>
    rw [List.foldl_cons, ih, List.filter_cons]
    rcases hanchor : event.isAnchorEvent with _ | _
    · have hsame : c.processCcEvent event = c := by
        cases event <;> first | rfl | cases hanchor
      rw [hsame, if_neg Bool.false_ne_true]
    · rw [if_pos rfl, List.foldl_cons]

theorem attestationCache_of_checkpoints {cps : List (AttestationCheckpoint H)} {n : U64} {d : H}
    (h : (c.follow A (cps.map .checkpointReached)).attestationCache.lookup n = some d) :
    c.attestationCache.lookup n = some d ∧
      ∀ cp ∈ cps, satAdd u64Max cp.blockNumber 1 ≤ n.val := by
  induction cps using List.reverseRecOn with
  | nil => exact ⟨h, by simp⟩
  | append_singleton cps cp ih =>
    rw [List.map_append, List.map_singleton, follow_concat_checkpoint] at h
    replace h := (StorageMap.lookup_retain _ _ _).symm.trans h
    split at h
    · next hle =>
      obtain ⟨hold, habove⟩ := ih h
      refine ⟨hold, fun cp' hcp' => ?_⟩
      rcases List.mem_append.1 hcp' with hmem | hmem
      · exact habove cp' hmem
      · rw [List.mem_singleton.1 hmem]
        exact of_decide_eq_true hle
    · cases h

/-- A checkpoint that is cached after some were announced is the last of them at its height, or it
was cached before. -/
theorem checkpointCache_of_checkpoints (hcap : c.checkpointCacheMaxEntries = none)
    {cps : List (AttestationCheckpoint H)} {n : U64} {d : H}
    (h : (c.follow A (cps.map .checkpointReached)).checkpointCache.lookup n = some d) :
    (∃ cp ∈ cps, cp.blockNumber = n.val ∧
        ∀ m, (insertCheckpoints m cps).lookup n.val = some d) ∨
      ((∀ cp ∈ cps, cp.blockNumber ≠ n.val) ∧ c.checkpointCache.lookup n = some d) := by
  induction cps using List.reverseRecOn with
  | nil => exact .inr ⟨by simp, h⟩
  | append_singleton cps cp ih =>
    have hinsert : ∀ m : StorageMap ℕ H, insertCheckpoints m (cps ++ [cp]) =
        (insertCheckpoints m cps).insert cp.blockNumber cp.digest := fun m => by
      rw [insertCheckpoints, List.foldl_append]
      rfl
    have hcached : ((c.follow A (cps.map .checkpointReached)).checkpointCache.insert
        ⟨cp.blockNumber, cp.blockNumber_lt⟩ cp.digest).lookup n = some d := by
      rw [List.map_append, List.map_singleton, follow_concat_checkpoint] at h
      simpa only [processCcEvent, insertCheckpoint, pruneAttestationsAtOrBelow, follow_maxEntries,
        hcap] using h
    rw [StorageMap.lookup_insert_eq] at hcached
    split at hcached
    · next heq =>
      refine .inl ⟨cp, by simp, congrArg Fin.val heq.symm, fun m => ?_⟩
      rw [hinsert, StorageMap.lookup_insert_eq, if_pos (congrArg Fin.val heq)]
      exact hcached
    · next hne =>
      have hheight : n.val ≠ cp.blockNumber := fun heq => hne (Fin.ext heq)
      rcases ih hcached with ⟨cp', hcp', hblock, hlookup⟩ | ⟨hother, hold⟩
      · refine .inl ⟨cp', List.mem_append_left _ hcp', hblock, fun m => ?_⟩
        rw [hinsert, StorageMap.lookup_insert_eq, if_neg hheight]
        exact hlookup m
      · refine .inr ⟨fun cp' hcp' => ?_, hold⟩
        rcases List.mem_append.1 hcp' with hmem | hmem
        · exact hother cp' hmem
        · rw [List.mem_singleton.1 hmem]
          exact hheight.symm

end Follow

end ChainState

/-! ## Agreement -/

variable [DecidableEq H]

/-- What is cached is what the chain reports: the checkpoint at the height, and an attestation with
the digest at the height. -/
structure ChainState.Agrees (c : ChainState H) (a : Anchors H A) : Prop where
  checkpoints : ∀ n d, c.checkpointCache.lookup n = some d → a.checkpointIfStable n.val = some d
  attestations : ∀ n d, c.attestationCache.lookup n = some d →
    ∃ q, a.get d = some q ∧ q.headerNumber = n.val

section Agreement

variable {T : Config H A B} {c : ChainState H} {a a' : Anchors H A}

/-- **The caches when the server starts** agree with a chain that is not being pruned. -/
theorem agrees_load {k : ChainKey} {maxEntries : Option ℕ} (hmarked : a.Marked)
    (htracked : a.Tracked T) (hpruning : a.checkpointPruningState = none)
    (h : ChainState.load T.keccak k maxEntries a = some c) : c.Agrees a := by
  unfold ChainState.load at h
  split at h
  · next hstable =>
    obtain rfl := Option.some.inj h
    constructor
    · intro n d hcached
      rcases StorageMap.mem_of_lookup_insertAll hcached with hmem | hnone
      · obtain ⟨⟨m, e⟩, hrow, heq⟩ := List.mem_map.1 hmem
        obtain ⟨rfl, rfl⟩ := Prod.mk.inj heq
        have hlookup : a.checkpoints.lookup m = some e := AList.mem_lookup_iff.2 hrow
        have hlt := hmarked.indexed.height_lt m (by rw [hlookup]; rfl)
        rw [checkpointIfStable_of_below (by simp [hpruning])]
        exact (congrArg a.checkpoints.lookup (Nat.mod_eq_of_lt hlt)).trans hlookup
      · rw [AList.lookup_empty] at hnone
        cases hnone
    · intro n d hcached
      rcases StorageMap.mem_of_lookup_insertAll hcached with hmem | hnone
      · obtain ⟨⟨e, q⟩, hrow, heq⟩ := List.mem_map.1 hmem
        obtain ⟨rfl, rfl⟩ := Prod.mk.inj heq
        have hlookup : a.attestations.lookup e = some q := AList.mem_lookup_iff.2 hrow
        refine ⟨q, ?_, rfl⟩
        rw [(htracked.keyed e q hlookup).1, get_eq_some]
        exact ⟨Option.isNone_iff_eq_none.1 hstable, hlookup⟩
      · rw [AList.lookup_empty] at hnone
        cases hnone
  · cases h

theorem ChainState.Agrees.checkpoint_of_logs {new : List (AnchorEvent H)} (h : c.Agrees a)
    (hlogs : Logs new a a') {n : U64} {d : H} (hcached : c.checkpointCache.lookup n = some d)
    (hspared : Spared new n.val) : a'.checkpointIfStable n.val = some d := by
  obtain ⟨hlookup, hbelow⟩ := checkpointIfStable_eq_some.1 (h.checkpoints n d hcached)
  obtain ⟨hsame, hbelow'⟩ := hlogs.kept n.val hspared hbelow
  exact checkpointIfStable_eq_some.2 ⟨hsame.trans hlookup, hbelow'⟩

theorem ChainState.Agrees.sweep (hmarked : a.Marked) (h : c.Agrees a) (hsweep : Sweep T a a') :
    c.Agrees a' := by
  rcases hmarked.sweep_cases hsweep with ⟨state, hstate, rfl⟩ | ⟨kill, hcursor, rfl⟩
  · have hlogs := logs_pruned (T := T) hmarked hstate
    refine ⟨fun n d hn => h.checkpoint_of_logs hlogs hn (List.forall_mem_nil _), fun n d hn => ?_⟩
    obtain ⟨checkpoints, buckets, pruning, heq⟩ := pruneCheckpoints_frame (T := T) state a
    rw [heq]
    exact h.attestations n d hn
  · refine ⟨h.checkpoints, fun n d hn => ?_⟩
    obtain ⟨q, hq, -⟩ := h.attestations n d hn
    exact absurd (get_eq_some.1 hq).1 hcursor

theorem ChainState.Agrees.idle [DecidableEq A] {supported : Bool} {k : ChainKey}
    {ch ch' : Chain H A} (hwf : ch.WellFormed T) (h : c.Agrees ch.anchors)
    (hidle : ReflTransGen (IdleStep T supported k) ch ch') : c.Agrees ch'.anchors := by
  induction hidle with
  | refl => exact h
  | tail hpath hlast ih =>
    have hwf' := (swept_of_idle hwf hpath).1
    cases hlast with
    | roster _ => exact ih
    | settings _ => exact ih
    | swept hsweep => exact ih.sweep hwf'.marked hsweep

variable (hcap : c.checkpointCacheMaxEntries = none)

include hcap

theorem ChainState.Agrees.commit {att : SignedAttestation H A}
    {cps : List (AttestationCheckpoint H)} (h : c.Agrees a) (hann : Announces T a a' att cps) :
    (c.follow A ([.blockAttested att.headerNumber (att.digest T.keccak)] ++
      cps.map .checkpointReached)).Agrees a' := by
  rw [ChainState.follow_append]
  have hheader : (Fin.ofNat (2 ^ 64) att.headerNumber : ℕ) = att.headerNumber :=
    Nat.mod_eq_of_lt att.headerNumber_lt
  constructor
  · intro n d hn
    rw [checkpointIfStable_of_below (by simp [hann.pruning_eq]), hann.checkpoints_eq]
    rcases ChainState.checkpointCache_of_checkpoints
      ((ChainState.follow_maxEntries _).trans hcap) hn with ⟨-, -, -, hlookup⟩ | ⟨hother, hold⟩
    · exact hlookup _
    · rw [lookup_insertCheckpoints_of_notMem _ _ hother]
      exact (checkpointIfStable_eq_some.1 (h.checkpoints n d hold)).1
  · intro n d hn
    obtain ⟨hold, habove⟩ := ChainState.attestationCache_of_checkpoints hn
    replace hold := (StorageMap.lookup_insert_eq _ _ _ _).symm.trans hold
    simp only [get_eq_some, hann.cursor_eq, true_and]
    split at hold
    · next heq =>
      obtain rfl := Option.some.inj hold
      exact ⟨att, hann.stored, by rw [heq, hheader]⟩
    · obtain ⟨q, hq, hqn⟩ := h.attestations n d hold
      refine ⟨q, (hann.kept d q (get_eq_some.1 hq).2).resolve_right ?_, hqn⟩
      -- Had it been deleted, the server would have dropped it for a new checkpoint.
      rintro ⟨hlt, cp, hcp, hle⟩
      have hkept := habove cp hcp
      have hbound := att.headerNumber_lt
      unfold satAdd u64Max at hkept
      omega

theorem ChainState.Agrees.imported {batch cps : List (AttestationCheckpoint H)}
    {last : Option (AttestationCheckpoint H)} (hmarked : a.Marked) (h : c.Agrees a)
    (himports : Imports a batch cps last) :
    (c.follow A (cps.map .checkpointReached)).Agrees (a.imported cps last) := by
  constructor
  · intro n d hn
    rcases ChainState.checkpointCache_of_checkpoints hcap hn with
      ⟨cp, hcp, hblock, hlookup⟩ | ⟨hother, hold⟩
    · refine checkpointIfStable_eq_some.2 ⟨hlookup _, fun state hstate => ?_⟩
      -- What is imported during pruning lies below the last checkpoint.
      obtain ⟨-, l, hl, hlt⟩ := hmarked.pruning state hstate
      rcases himports.last_cases with ⟨-, hbelow⟩ | ⟨hnone, -⟩
      · obtain ⟨l', hl', hlt'⟩ := hbelow cp hcp
        obtain rfl : l = l' := Option.mem_unique hl hl'
        exact (computeBlockIndexFor_mono (hblock ▸ hlt'.le)).trans_lt hlt
      · rw [hnone] at hl
        cases hl
    · refine h.checkpoint_of_logs (logs_imported cps last) hold fun e he => ?_
      obtain ⟨cp, hcp, rfl⟩ := List.mem_map.1 he
      exact hother cp hcp
  · intro n d hn
    exact h.attestations n d (ChainState.attestationCache_of_checkpoints hn).1

omit hcap in
theorem ChainState.Agrees.reverted (hmarked : a.Marked)
    (hpruning : a.checkpointPruningState = none) (h : c.Agrees a) (kill : KillResult H)
    {height : U64} (digest : H) (last : AttestationCheckpoint H)
    (hconveys : ∀ n ∈ c.attestationCache.keys, height < n) :
    (c.follow A [.revertedAttestationChainTo height digest]).Agrees
      (a.reverted T kill height digest last) := by
  have hfollow :
    c.follow A [.revertedAttestationChainTo height digest] = c.revertCaches height := by
    have hheight : Fin.ofNat (2 ^ 64) height.val = height := Fin.ext (Nat.mod_eq_of_lt height.2)
    exact congrArg c.revertCaches hheight
  rw [hfollow]
  constructor
  · intro n d hn
    replace hn := (StorageMap.lookup_retain _ _ _).symm.trans hn
    split at hn
    · next hlt =>
      refine h.checkpoint_of_logs (logs_reverted hmarked hpruning kill height digest last) hn ?_
      have hle : n.val < satAdd u64Max height 1 := of_decide_eq_true hlt
      rintro e he
      obtain rfl := List.mem_singleton.1 he
      exact not_lt.2 (Nat.lt_succ_iff.1 (hle.trans_le (satAdd_le _ _ _)))
    · cases hn
  · intro n d hn
    replace hn := (StorageMap.lookup_retain _ _ _).symm.trans hn
    split at hn
    · next hlt =>
      have hle : n.val < satAdd u64Max height 1 := of_decide_eq_true hlt
      have habove : height.val < n.val :=
        hconveys n ((StorageMap.mem_keys_iff _ _).2 ⟨d, hn⟩)
      exact absurd (hle.trans_le (satAdd_le _ _ _)) (by omega)
    · cases hn

theorem ChainState.Agrees.patched (hmarked : a.Marked)
    (hpruning : a.checkpointPruningState = none) (h : c.Agrees a) (kill : KillResult H)
    {wipe : Bool} {batch : List (AttestationCheckpoint H)} {tip : AttestationCheckpoint H}
    (htip : (mergeCheckpoints batch).getLast? = some tip)
    (hattested : ∀ n ∈ c.attestationCache.keys, n.val < u64Max ∧ n.val ≤ tip.blockNumber)
    (hwipe : wipe = true → ∀ n ∈ c.checkpointCache.keys, n.val ≤ tip.blockNumber) :
    (c.follow A ((mergeCheckpoints batch).map .checkpointReached ++
      [.forwardCheckpointPatchApplied wipe
        (patchedLast wipe a.lastCheckpoint tip).blockNumber])).Agrees
      (a.patched T kill wipe batch tip) := by
  rw [ChainState.follow_append]
  change (c.follow A ((mergeCheckpoints batch).map .checkpointReached)).Agrees _
  have hlogs := logs_patched (T := T) hmarked hpruning kill wipe htip
  constructor
  · intro n d hn
    rcases ChainState.checkpointCache_of_checkpoints hcap hn with
      ⟨cp, hcp, hblock, hlookup⟩ | ⟨hother, hold⟩
    · refine checkpointIfStable_eq_some.2 ⟨hlookup _, below_patched hmarked kill htip fun _ => ?_⟩
      rw [← hblock]
      exact (blockNumber_le_tip htip (((mergeCheckpoints_spec batch).2 cp).1 hcp)).2
    · refine h.checkpoint_of_logs hlogs hold fun e he => ?_
      rcases List.mem_append.1 he with hmem | hmem
      · obtain ⟨cp, hcp, rfl⟩ := List.mem_map.1 hmem
        exact hother cp hcp
      · obtain rfl := List.mem_singleton.1 hmem
        rintro ⟨rfl, hlt⟩
        rw [patchedLast_wipe] at hlt
        exact absurd (hwipe rfl n ((StorageMap.mem_keys_iff _ _).2 ⟨d, hold⟩)) (not_le.2 hlt)
  · intro n d hn
    obtain ⟨hold, habove⟩ := ChainState.attestationCache_of_checkpoints hn
    obtain ⟨hbound, hle⟩ := hattested n ((StorageMap.mem_keys_iff _ _).2 ⟨d, hold⟩)
    have hkept := habove tip (List.mem_of_getLast? htip)
    unfold satAdd at hkept
    omega

end Agreement

/-! ## Along a run -/

section Run

variable [DecidableEq A] (T : Config H A B) (k : ChainKey)

/-- The server forgets what a revert or a forward patch of the chain deletes, by its events: every
cached attestation lies above the height of the revert, or at or below the highest height of the
patch and below the maximum; and if a patch wipes what is above it, no cached checkpoint is. -/
def Conveys (c : ChainState H) (s : State H A B) : Action T → Prop
  | .call host o (.revertTo k' height) => k' = k →
    (dispatch T host s o (.revertTo k' height)).isOk = true →
      ∀ n ∈ c.attestationCache.keys, height < n
  | .call host o (.forwardPatchCheckpoints k' wipe batch) => k' = k →
    (dispatch T host s o (.forwardPatchCheckpoints k' wipe batch)).isOk = true →
      (∀ n ∈ c.attestationCache.keys, n.val < u64Max ∧ ∃ cp ∈ batch, n.val ≤ cp.blockNumber) ∧
      (wipe = true → ∀ n ∈ c.checkpointCache.keys, ∃ cp ∈ batch, n.val ≤ cp.blockNumber)
  | _ => True

/-- Every revert and forward patch of the run finds caches whose outdated part its events convey. -/
def ConveysAlong (c : ChainState H) (s : State H A B) (acts : List (Action T)) : Prop :=
  AlongRun (fun s' act => Conveys T k
    (c.follow A ((s.chain T k).anchors.eventsSince (s'.chain T k).anchors)) s' act) s acts

variable {T k} {c : ChainState H} {s : State H A B}

theorem isOk_of_emits {host : Host H A} {o : Origin A} {call : Call H A}
    {new : List (AnchorEvent H)} (hne : new ≠ [])
    (h : ((step T s (.call host o call)).chain T k).anchors.events =
      (s.chain T k).anchors.events ++ new) : (dispatch T host s o call).isOk = true := by
  rcases hcall : dispatch T host s o call with e | s'
  · simp only [step, hcall] at h
    exact absurd (List.self_eq_append_right.1 h) hne
  · rfl

omit [DecidableEq H] [DecidableEq A] in
theorem le_tip_of_mem {batch : List (AttestationCheckpoint H)} {tip cp : AttestationCheckpoint H}
    (htip : (mergeCheckpoints batch).getLast? = some tip) (hcp : cp ∈ batch) :
    cp.blockNumber ≤ tip.blockNumber := by
  have hmem : cp ∈ batch.filter fun c => c.blockNumber = cp.blockNumber := by simpa using hcp
  obtain ⟨c, hc⟩ := Option.ne_none_iff_exists'.1
    (mt List.getLast?_eq_none_iff.1 (List.ne_nil_of_mem hmem))
  exact (blockNumber_le_tip htip hc).2

/-- **Agreement after a step.** -/
theorem agrees_step (hret : 1 ≤ T.defaultAttestationRetentionDuration)
    (hcap : c.checkpointCacheMaxEntries = none) (hreach : Reachable T s) {act : Action T}
    (hlive : (step T s act).Live k) (hconveys : Conveys T k c s act)
    (h : c.Agrees (s.chain T k).anchors) :
    ∃ new, ((step T s act).chain T k).anchors.events = (s.chain T k).anchors.events ++ new ∧
      (c.follow A new).Agrees ((step T s act).chain T k).anchors := by
  obtain ⟨hl, hmove⟩ := step_chainMove hreach.keysBelow hlive
  have hwf := wellFormed_of_live hreach hl
  generalize hc : (step T s act).chain T k = ch at hmove
  cases hmove with
  | @commit att a n hact hcommit =>
    have hlinked := linked_of_live (.inl hret) hreach hl
    have horder := inOrder_of_live hret hreach hl
    have hretained := (retained_of_live hret hreach hl).1
    rw [← hwf.bounded.retention_eq] at hret hretained
    obtain ⟨cps, hann⟩ := commit_evicts hret hwf hlinked hretained horder hcommit
    exact ⟨_, hann.events_eq, h.commit hcap hann⟩
  | @operator host o call a hnone hact hop =>
    obtain rfl := hact
    cases hop with
    | imports himport =>
      obtain ⟨-, cps, last, rfl, himports⟩ := doImportCheckpoints_effect himport
      exact ⟨_, rfl, h.imported hcap hwf.marked himports⟩
    | @revert height a' _ kill hrevert =>
      obtain ⟨-, hpruning, -, digest, last, -, -, rfl⟩ := revertTo_effect hrevert
      refine ⟨_, rfl, h.reverted hwf.marked hpruning kill digest last (hconveys rfl ?_)⟩
      exact isOk_of_emits (List.cons_ne_nil _ _) (congrArg (fun ch => ch.anchors.events) hc)
    | @patch wipe batch a' _ kill hpatch =>
      obtain ⟨-, hpruning, -, tip, htip, rfl⟩ := doForwardPatchCheckpoints_effect hpatch
      have hnew : ((step T s (.call host o (.forwardPatchCheckpoints k wipe batch))).chain T
          k).anchors.events = (s.chain T k).anchors.events ++ _ :=
        (congrArg (fun ch => ch.anchors.events) hc).trans (List.append_assoc _ _ _)
      obtain ⟨hattested, hwipe⟩ := hconveys rfl
        (isOk_of_emits (List.append_ne_nil_of_right_ne_nil _ (List.cons_ne_nil _ _)) hnew)
      refine ⟨_, List.append_assoc _ _ _, h.patched hcap hwf.marked hpruning kill htip ?_ ?_⟩
      · intro n hn
        obtain ⟨hlt, cp, hcp, hle⟩ := hattested n hn
        exact ⟨hlt, hle.trans (le_tip_of_mem htip hcp)⟩
      · intro hw n hn
        obtain ⟨cp, hcp, hle⟩ := hwipe hw n hn
        exact hle.trans (le_tip_of_mem htip hcp)
  | idle hnone hidle =>
    refine ⟨[], ?_, h.idle hwf hidle⟩
    rw [(swept_of_idle hwf hidle).2.events_eq, List.append_nil]

/-- **Agreement along a run.** -/
theorem agrees_run (hret : 1 ≤ T.defaultAttestationRetentionDuration)
    (hcap : c.checkpointCacheMaxEntries = none) (hreach : Reachable T s) {acts : List (Action T)}
    (hlive : (run T s acts).Live k) (hconveys : ConveysAlong T k c s acts)
    (h : c.Agrees (s.chain T k).anchors) :
    ∃ new, ((run T s acts).chain T k).anchors.events = (s.chain T k).anchors.events ++ new ∧
      (c.follow A new).Agrees ((run T s acts).chain T k).anchors := by
  induction acts using List.reverseRecOn with
  | nil => exact ⟨[], (List.append_nil _).symm, h⟩
  | append_singleton acts act ih =>
    obtain ⟨hbefore, hlast, -⟩ := alongRun_append.1 hconveys
    have hreach' := hreach.run acts
    rw [run_append, run_singleton] at hlive ⊢
    obtain ⟨old, hold, hagrees⟩ := ih (step_chainMove hreach'.keysBelow hlive).1 hbefore
    rw [Anchors.eventsSince, hold, List.drop_left] at hlast
    obtain ⟨new, hnew, hagrees'⟩ := agrees_step hret
      ((ChainState.follow_maxEntries _).trans hcap) hreach' hlive hlast hagrees
    refine ⟨old ++ new, ?_, ?_⟩
    · rw [hnew, hold, List.append_assoc]
    · rw [ChainState.follow_append]
      exact hagrees'

end Run

/-! ## Proofs -/

section Proofs

variable [DecidableEq A] {P : ProverConfig H A B} {s : State H A B} {k : ChainKey}
  {c : ChainState H}

omit [DecidableEq A] in
/-- A proof built from caches that agree with a supported chain is accepted unless it is too
long. -/
theorem ChainState.Agrees.accepted (h : c.Agrees (s.chain P.toConfig k).anchors)
    (hsup : s.isChainSupported k = true) {provider : EthProvider H} {debug : H → String}
    (hchains : Chains P.keccak provider) {headerNumbers : List U64} {p : ContinuityProof H}
    (hbuild : buildContinuity provider debug c headerNumbers = .ok p) :
    ∃ minQuery maxQuery, headerNumbers.min? = some minQuery ∧
      headerNumbers.max? = some maxQuery ∧
      (Accepts (verifyContinuityChain P s p minQuery k maxQuery) () [] ↔
        p.roots.length ≤ maxContinuityRoots) := by
  obtain ⟨lo, hi, b, -, hlo, hhi, hle, hencloses, -, -, -, hlength, hdigest⟩ :=
    buildContinuity_eq_ok hchains hbuild
  have hupper := hencloses.le_upper
  refine ⟨lo, hi, hlo, hhi, ?_⟩
  have hle' : lo.val ≤ b.upper.val := hle.trans hupper
  have hfinal : lo.val + (p.roots.length - 1) = b.upper.val := by omega
  have hanchored : Anchored P s k b.upper.val b.upperDigest := by
    rcases hencloses.cached with hattested | hreached
    · exact .inl (h.attestations b.upper b.upperDigest hattested)
    · refine .inr ?_
      rw [supportedCheckpoint, if_pos hsup]
      exact h.checkpoints b.upper b.upperDigest hreached
  rw [(verifyContinuityChain_yields P s k p lo hi).accepts_iff, and_iff_left rfl]
  constructor
  · exact fun hvalid => hvalid.length_le
  · intro hlen
    refine ⟨?_, hlen, ?_, ?_, ?_⟩
    · rintro hnil
      rw [hnil, List.length_nil] at hlength
      omega
    · rw [hfinal]
      exact Nat.le_sub_one_of_lt b.upper.2
    · rw [hfinal]
      exact hupper
    · rw [hfinal, hdigest]
      exact hanchored

/-- **What is served is accepted.** The caches of a proof server agree with a chain. The runtime
performs any operations, of which each revert and each forward patch conveys what it deletes. Once
the server has processed their events in order, every cached checkpoint is the one of the chain,
every cached attestation is stored, and a continuity proof that is built is accepted by the block
prover exactly if it is not too long. -/
theorem served_accepted (hret : 1 ≤ P.defaultAttestationRetentionDuration)
    (hreach : Reachable P.toConfig s) {acts : List (Action P.toConfig)}
    (hsup : (run P.toConfig s acts).isChainSupported k = true)
    (hcap : c.checkpointCacheMaxEntries = none)
    (hsnapshot : c.Agrees (s.chain P.toConfig k).anchors)
    (hconveys : ConveysAlong P.toConfig k c s acts) {events : List (CcEvent H A)}
    (hevents : events.filter CcEvent.isAnchorEvent = ((s.chain P.toConfig k).anchors.eventsSince
      ((run P.toConfig s acts).chain P.toConfig k).anchors).filterMap AnchorEvent.toCcEvent)
    {provider : EthProvider H} (hchains : Chains P.keccak provider) (debug : H → String) :
    let a := ((run P.toConfig s acts).chain P.toConfig k).anchors
    let c' := events.foldl ChainState.processCcEvent c
    (∀ n d, c'.checkpointCache.lookup n = some d → a.checkpoints.lookup n.val = some d) ∧
      (∀ n d, c'.attestationCache.lookup n = some d →
        ∃ q, a.attestations.lookup d = some q ∧ q.headerNumber = n.val) ∧
      ∀ headerNumbers p, buildContinuity provider debug c' headerNumbers = .ok p →
        ∃ minQuery maxQuery, headerNumbers.min? = some minQuery ∧
          headerNumbers.max? = some maxQuery ∧
          (Accepts (verifyContinuityChain P (run P.toConfig s acts) p minQuery k maxQuery) () [] ↔
            p.roots.length ≤ maxContinuityRoots) := by
  intro a c'
  obtain ⟨new, hnew, hagrees⟩ := agrees_run hret hcap hreach (.inl hsup) hconveys hsnapshot
  have hc' : c' = c.follow A new := by
    show events.foldl ChainState.processCcEvent c = _
    rw [ChainState.foldl_processCcEvent, hevents, Anchors.eventsSince, hnew, List.drop_left]
    rfl
  rw [← hc'] at hagrees
  refine ⟨fun n d hn => ?_, fun n d hn => ?_, fun headerNumbers p hbuild => ?_⟩
  · exact (checkpointIfStable_eq_some.1 (hagrees.checkpoints n d hn)).1
  · obtain ⟨q, hq, hheader⟩ := hagrees.attestations n d hn
    exact ⟨q, (get_eq_some.1 hq).2, hheader⟩
  · exact hagrees.accepted hsup hchains hbuild

end Proofs

/-! ## On a development network -/

section Devnet

open Devnet

/-- The digest of block 10 above block 5, which has the zero hash; so have all roots. -/
def digest10 : H256 :=
  HashChain.foldFrom (hashPayload proverConfig.keccak) 6 hashing.zero
    (List.replicate 5 hashing.zero)

/-- One source chain with checkpoints at the blocks 5 and 10. -/
def servedGenesis : GenesisConfig H256 ℕ Unit where
  supportedChains := [(1, [], .v1, "EvmSafe")]
  invulnerables := []
  attestationChainConfigurations := [⟨1, 10, 10, 120,
    [.of 5 hashing.zero, .of 10 digest10]⟩]
  balances := ()

def servedState : State H256 ℕ Unit :=
  (genesis proverConfig.toConfig servedGenesis).getD (emptyState .empty ())

theorem reachable_servedState : Reachable proverConfig.toConfig servedState :=
  reachable_genesisRun (by rfl) []

/-- The caches of a server that starts. -/
def startup {H A B : Type} [DecidableEq H] (T : Config H A B) (s : State H A B) : ChainState H :=
  (ChainState.load T.keccak 1 none (s.chain T 1).anchors).getD ⟨1, ∅, ∅, none⟩

theorem agrees_startup {H A B : Type} [DecidableEq H] [DecidableEq A] {T : Config H A B}
    {s : State H A B} (hreach : Reachable T s) (hsup : s.isChainSupported 1 = true)
    (hpruning : (s.chain T 1).anchors.checkpointPruningState = none)
    (hsome : (ChainState.load T.keccak 1 none (s.chain T 1).anchors).isSome = true) :
    (startup T s).Agrees (s.chain T 1).anchors := by
  have hwf := wellFormed_of_live hreach (.inl hsup)
  obtain ⟨c, hload⟩ := Option.isSome_iff_exists.1 hsome
  rw [startup, hload, Option.getD_some]
  exact agrees_load hwf.marked hwf.tracked hpruning hload

def servedCaches : ChainState H256 := startup proverConfig.toConfig servedState

theorem agrees_servedCaches :
    servedCaches.Agrees (servedState.chain proverConfig.toConfig 1).anchors :=
  agrees_startup reachable_servedState (by rfl) (by rfl) (by rfl)

def servedCall (o : Origin ℕ) (call : Call H256 ℕ) : Action proverConfig.toConfig :=
  .call ⟨.allRemoved, .allRemoved, .allRemoved, clearUpTo, clearUpTo⟩ o call

/-- An archiver with the roots of the chain. -/
def archiver : EthProvider H256 :=
  archiverProvider proverConfig.keccak fun start stop =>
    .ok ((List.range' start (stop + 1 - start)).map fun n => (n, hashing.zero))

/-- The continuity proof from block 7 to block 10. -/
def proofOf7 : ContinuityProof H256 :=
  ⟨HashChain.foldFrom (hashPayload proverConfig.keccak) 6 hashing.zero [hashing.zero],
    List.replicate 4 hashing.zero⟩

/-- The digest of a block above block 10. -/
def digestAt (n : ℕ) : H256 :=
  HashChain.foldFrom (hashPayload proverConfig.keccak) 11 digest10
    (List.replicate (n - 10) hashing.zero)

/-- An attestor is elected and attests block 20. -/
def attesting : List (Action proverConfig.toConfig) :=
  [servedCall (.signed 10) (.registerAttestor 1 1), servedCall (.signed 1) (.attest 1 .zero .zero),
    servedCall .root (.forceElection 1),
    servedCall (.signed 1) (.commitAttestation
      { attestation := ⟨1, 20, hashing.zero, hashing.zero, some (digestAt 19), by decide⟩
        signature := .zero
        attestors := [1]
        continuityProof := ⟨digest10, List.replicate 9 hashing.zero⟩ })]

/-- The operators patch in checkpoints at the blocks 20 and 30 and wipe what is above. -/
def patching : Action proverConfig.toConfig :=
  servedCall .root (.forwardPatchCheckpoints 1 true [.of 20 (digestAt 20), .of 30 (digestAt 30)])

/-- The continuity proof from block 7 to block 20. -/
def proofOf7To20 : ContinuityProof H256 := ⟨proofOf7.lowerEndpointDigest,
  List.replicate 14 hashing.zero⟩

/-- The events since the start of the server. -/
def servedEvents (s : State H256 ℕ Unit) : List (AnchorEvent H256) :=
  (servedState.chain proverConfig.toConfig 1).anchors.eventsSince
    (s.chain proverConfig.toConfig 1).anchors

/-- The patch deletes the attestation of block 20, which is cached. The server forgets it by the
events of the patch, and the proof it then builds for the blocks 15 and 7 is accepted. -/
theorem devnet_served_accepted :
    let s := run proverConfig.toConfig servedState attesting
    let s' := run proverConfig.toConfig servedState (attesting ++ [patching])
    (servedCaches.follow ℕ (servedEvents s)).attestationCache.keys = [20] ∧
    buildContinuity archiver (fun _ => "") (servedCaches.follow ℕ (servedEvents s')) [15, 7] =
      .ok proofOf7To20 ∧
    Accepts (verifyContinuityChain proverConfig s' proofOf7To20 (7 : U64) 1 (15 : U64)) () [] := by
  intro s s'
  have hsup : s'.isChainSupported 1 = true := by decide +kernel
  have hcached : (servedCaches.follow ℕ (servedEvents s)).attestationCache.keys = [20] ∧
      (servedCaches.follow ℕ (servedEvents s)).checkpointCache.keys = [5, 10] := by
    decide +kernel
  have hconveys : ConveysAlong proverConfig.toConfig 1 servedCaches servedState
      (attesting ++ [patching]) := by
    refine alongRun_append.2 ⟨⟨trivial, trivial, trivial, trivial, trivial⟩,
      fun _ _ => ⟨fun n hn => ?_, fun _ n hn => ?_⟩, trivial⟩
    · obtain rfl := List.mem_singleton.1 (hcached.1 ▸ hn)
      exact ⟨by decide, .of 20 (digestAt 20), List.mem_cons_self, by decide⟩
    · have hle : ∀ n ∈ [(5 : U64), 10], n.val ≤ 20 := by simp
      exact ⟨.of 20 (digestAt 20), List.mem_cons_self, hle n (hcached.2 ▸ hn)⟩
  have hevents : ((servedEvents s').filterMap (AnchorEvent.toCcEvent (A := ℕ))).filter
      CcEvent.isAnchorEvent = (servedEvents s').filterMap AnchorEvent.toCcEvent := by
    rw [List.filter_eq_self]
    decide +kernel
  have hbuild : buildContinuity archiver (fun _ => "")
      (servedCaches.follow ℕ (servedEvents s')) [15, 7] = .ok proofOf7To20 := by decide +kernel
  obtain ⟨-, -, haccepted⟩ := served_accepted (by decide) reachable_servedState hsup rfl
    agrees_servedCaches hconveys hevents (archiverProvider_chains _ _) (fun _ => "")
  obtain ⟨lo, hi, hlo, hhi, hiff⟩ := haccepted [15, 7] proofOf7To20 hbuild
  obtain rfl := Option.some.inj hlo
  obtain rfl := Option.some.inj hhi
  exact ⟨hcached.1, hbuild, hiff.2 (by decide)⟩

/-- **A served proof can be rejected.** A forward patch wipes the checkpoints above block 5. The
server learns of the checkpoint at block 5 only, keeps the one at block 10, and builds a proof for
block 7 that ends there. The block prover rejects it. -/
theorem exists_served_rejected :
    ∃ (s : State H256 ℕ Unit) (acts : List (Action proverConfig.toConfig)) (c : ChainState H256)
      (events : List (CcEvent H256 ℕ)) (provider : EthProvider H256) (p : ContinuityProof H256),
      let s' := run proverConfig.toConfig s acts
      let a := (s.chain proverConfig.toConfig 1).anchors
      let a' := (s'.chain proverConfig.toConfig 1).anchors
      let c' := events.foldl ChainState.processCcEvent c
      Reachable proverConfig.toConfig s ∧ s'.isChainSupported 1 = true ∧
        c.checkpointCacheMaxEntries = none ∧ c.Agrees a ∧
        events = (a.eventsSince a').filterMap AnchorEvent.toCcEvent ∧
        a'.checkpointPruningState = none ∧ a'.attestationClearingCursor = none ∧
        c'.checkpointCache.lookup 10 = some digest10 ∧ a'.checkpoints.lookup 10 = none ∧
        Chains proverConfig.keccak provider ∧
        buildContinuity provider (fun _ => "") c' [7] = .ok p ∧
        ∀ h r, (verifyContinuityChain proverConfig s' p (7 : U64) 1 (7 : U64)).run h ≠ .ok r := by
  let act := servedCall .root (.forwardPatchCheckpoints 1 true [⟨5, hashing.zero, by decide⟩])
  refine ⟨servedState, [act], servedCaches, [.checkpointReached ⟨5, hashing.zero, by decide⟩],
    archiver, proofOf7, reachable_servedState, by rfl, rfl, agrees_servedCaches, by rfl, by rfl,
    by rfl, by rfl, by rfl, archiverProvider_chains _ _, by decide +kernel, ?_⟩
  intro h r hok
  obtain ⟨hvalid, -⟩ := (verifyContinuityChain_yields proverConfig _ 1 proofOf7 _ _).of_ok h r hok
  obtain ⟨att, hget, -⟩ | hcheckpoint := hvalid.anchored
  · have hnone : (((run proverConfig.toConfig servedState [act]).chain proverConfig.toConfig
        1).anchors.get (proofOf7.computeContinuityDigest proverConfig.keccak
          (7 : U64).val)).isNone = true := by rfl
    rw [hget] at hnone
    cases hnone
  · have hnone : supportedCheckpoint proverConfig (run proverConfig.toConfig servedState [act]) 1
        ((7 : U64).val + (proofOf7.roots.length - 1)) = none := by rfl
    rw [hnone] at hcheckpoint
    cases hcheckpoint

end Devnet

end Creditcoin.ProofServer
