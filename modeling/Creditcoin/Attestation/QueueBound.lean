import Creditcoin.Attestation.Coverage

/-!
# The length of the checkpointing queue

With a fixed interval `i` and `k` attestations per checkpoint, the headers in the queue are `i`
apart and lie above the last checkpoint. A commit from the queue moves the last checkpoint by at
most one width `i * k`. So the queue stays bounded as long as the head moves no further than that or
stays within three widths; commits that jump almost two widths at a time, with a proof too short to
catch up, let it grow. -/

namespace Creditcoin

open Relation (ReflTransGen)

variable {H A B : Type} [DecidableEq H]

/-! ## Spaced headers -/

/-- The headers of the queue are at least `i` apart, the first from `p`. The last height there is
may be closer. -/
def Anchors.Spaced (a : Anchors H A) (i : ℕ) : ℕ → List H → Prop
  | _, [] => True
  | p, d :: queue => ∃ q, a.attestations.lookup d = some q ∧
      (p + i ≤ q.headerNumber ∨ q.headerNumber = u64Max) ∧ Spaced a i q.headerNumber queue

section Spaced

variable {a a' : Anchors H A} {i p h m L : ℕ} {queue l₁ l₂ : List H}

theorem Anchors.spaced_append (hspans : a.Spans p l₁ m) :
    a.Spaced i p (l₁ ++ l₂) ↔ a.Spaced i p l₁ ∧ a.Spaced i m l₂ := by
  induction l₁ generalizing p with
  | nil => simp [Anchors.Spaced, show p = m from hspans]
  | cons d l₁ ih =>
    obtain ⟨q, hd, -, hrest⟩ := hspans
    simp [Anchors.Spaced, hd, ih hrest, and_assoc]

theorem Anchors.Spaced.congr
    (heq : ∀ d ∈ queue, ∀ q, a.attestations.lookup d = some q → a'.attestations.lookup d = some q)
    (hspaced : a.Spaced i p queue) : a'.Spaced i p queue := by
  induction queue generalizing p with
  | nil => trivial
  | cons d queue ih =>
    obtain ⟨q, hd, hgap, hrest⟩ := hspaced
    exact ⟨q, heq d List.mem_cons_self q hd, hgap,
      ih (fun d' hd' => heq d' (List.mem_cons_of_mem _ hd')) hrest⟩

theorem Anchors.Spaced.length_mul_le (hspaced : a.Spaced i p queue) (hspans : a.Spans p queue h)
    (hh : h < u64Max) : p + queue.length * i ≤ h := by
  induction queue generalizing p with
  | nil => simpa using le_of_eq (hspans : p = h)
  | cons d queue ih =>
    obtain ⟨q, hd, hgap, hrest⟩ := hspaced
    obtain ⟨q', hd', -, hspans⟩ := hspans
    obtain rfl := Option.mem_unique hd hd'
    have hle := ih hrest hspans
    have hbound := hspans.le
    have hstep := hgap.resolve_right (by omega)
    rw [List.length_cons, Nat.add_mul, Nat.one_mul]
    omega

/-- A queue of headers above `L` that ends less than `2 * k` intervals above it has at most `2 * k`
entries. -/
theorem Anchors.Spaced.length_le {k : ℕ} (hspaced : a.Spaced i p queue)
    (hspans : a.Spans p queue h) (hh : h < u64Max)
    (habove : ∀ q, a.Queued queue q → L < q.headerNumber) (hspan : h < L + 2 * (i * k)) :
    queue.length ≤ 2 * k := by
  rcases queue with _ | ⟨d, queue⟩
  · simp
  · obtain ⟨q, hd, hgap, hrest⟩ := hspaced
    obtain ⟨q', hd', -, hspans⟩ := hspans
    obtain rfl := Option.mem_unique hd hd'
    have hlt := habove q ⟨d, List.mem_cons_self, hd⟩
    have hle := hrest.length_mul_le hspans hh
    by_contra hlong
    have hmul : 2 * k * i ≤ queue.length * i :=
      Nat.mul_le_mul_right i (by rw [List.length_cons] at hlong; omega)
    have hcomm : 2 * (i * k) = 2 * k * i := by ring
    omega

end Spaced

/-! ## One commit -/

/-- The head is less than three widths above the last checkpoint, and at most two if the last
checkpoint is not a boundary. -/
structure NearCheckpoint (w L h : ℕ) : Prop where
  lt : h < L + 3 * w
  off_grid : L % w ≠ 0 → h ≤ L + 2 * w

section Stage

variable {T : Config H A B} {a : Anchors H A} {i k L p h header L' p' : ℕ} {queue kept : List H}
  {d : H}

theorem NearCheckpoint.lt_nextBoundary {w : ℕ} (hw : 0 < w) (hnear : NearCheckpoint w L h) :
    h < nextBoundary w L + 2 * w := by
  have hgt := Creditcoin.lt_nextBoundary (n := L) hw
  by_cases hgrid : L % w = 0
  · have := hnear.lt
    rw [nextBoundary_of_mod_eq_zero hgrid]
    omega
  · have := hnear.off_grid hgrid
    omega

theorem MakeStage.length_le (hw : 0 < i * k)
    (hstage : MakeStage a (i * k) L p (queue ++ [d]) header L' p' kept)
    (hqueue : a.Spans p queue h) (hspans : a.Spans p (queue ++ [d]) header) (hlt : h < header)
    (hheader : header < 2 ^ 64) (hspaced : a.Spaced i p (queue ++ [d]))
    (habove : ∀ q, a.Queued queue q → L < q.headerNumber) (hnear : NearCheckpoint (i * k) L h) :
    kept.length ≤ 2 * k + 1 := by
  have hh : h < u64Max := by unfold u64Max; omega
  have hold := (Anchors.spaced_append hqueue).1 hspaced
  cases hstage with
  | waits hshort =>
    have := hold.1.length_le (k := k) hqueue hh habove (by omega)
    simpa using this
  | @condenses popped _ p' hdue hsplit hpopped hp hkept =>
    rw [hsplit] at hspans
    obtain ⟨m, hm, hrest⟩ := Anchors.spans_append.1 hspans
    obtain rfl := hm.unique hpopped
    rcases List.eq_nil_or_concat kept with rfl | ⟨front, x, rfl⟩
    · simp
    · -- All but the new attestation were in the queue before.
      rw [List.concat_eq_append, ← List.append_assoc] at hsplit
      obtain ⟨rfl, -⟩ := List.append_inj' hsplit rfl
      obtain ⟨m', hm', hfront⟩ := Anchors.spans_append.1 hqueue
      obtain rfl := hm'.unique hpopped
      have hspaced' := ((Anchors.spaced_append hpopped).1 hold.1).2
      have hle := hspaced'.length_le hfront hh
        (fun q ⟨d', hd', hq⟩ => hkept q ⟨d', by simp [hd'], hq⟩) (hnear.lt_nextBoundary hw)
      simpa using hle

/-- **One commit of the bound.** Where the commit catches up, stays within one width of the head or
within three of the last checkpoint, the head stays near the last checkpoint and the queue short. -/
theorem Progress.nearCheckpoint {att : SignedAttestation H A} (hw : 0 < i * k)
    (hprogress : Progress T a (i * k) L p (queue ++ [d]) att L' p' kept)
    (hqueue : a.Spans p queue h) (hspans : a.Spans p (queue ++ [d]) att.headerNumber)
    (hlt : h < att.headerNumber) (hspaced : a.Spaced i p (queue ++ [d]))
    (habove : ∀ q, a.Queued queue q → L < q.headerNumber) (hnear : NearCheckpoint (i * k) L h)
    (hp : p < nextBoundary (i * k) L) (hmax : 2 * k + 1 ≤ T.maxCheckpointingQueueLen)
    (hclose : 2 * (i * k) ≤ att.continuityProof.len ∨ att.headerNumber ≤ h + i * k ∨
      att.headerNumber ≤ L + 3 * (i * k)) :
    NearCheckpoint (i * k) L' att.headerNumber ∧ p' < nextBoundary (i * k) L' ∧
      a.Spaced i p' kept ∧ kept.length ≤ 2 * k + 1 := by
  cases hprogress with
  | queued hshort hstage hlen =>
    have hle := hstage.length_le hw hqueue hspans hlt att.headerNumber_lt hspaced habove hnear
    cases hstage with
    | waits hwait => exact ⟨⟨by omega, fun _ => hwait⟩, hp, hspaced, hle⟩
    | @condenses popped _ p' hdue hsplit hpopped hp' hkept =>
      have hgt := Creditcoin.lt_nextBoundary (n := L) hw
      have hnext := hnear.lt_nextBoundary hw
      refine ⟨⟨?_, fun hoff => absurd (nextBoundary_mod _ _) hoff⟩,
        hp'.trans_lt (Creditcoin.lt_nextBoundary hw), ?_, hle⟩
      · rcases hclose with hlong | hjump | hwithin <;> omega
      · rw [hsplit] at hspaced
        exact ((Anchors.spaced_append hpopped).1 hspaced).2
  | full hshort hstage _ hlen =>
    have hle := hstage.length_le hw hqueue hspans hlt att.headerNumber_lt hspaced habove hnear
    omega
  | caughtUp _ _ hgrid hle hnext =>
    refine ⟨⟨by omega, fun hoff => absurd hgrid hoff⟩, ?_, trivial, by simp⟩
    rw [nextBoundary_of_mod_eq_zero hgrid]
    exact hnext

end Stage

/-! ## Runs -/

/-- A started chain whose head is near the last checkpoint, with a short queue of spaced headers. -/
structure Chain.ShortQueue (c : Chain H A) (cp : AttestationCheckpoint H) (h p : ℕ) : Prop
    extends c.Started cp h p where
  near : NearCheckpoint
    (c.settings.chainAttestationInterval * c.settings.attestationCheckpointInterval)
      cp.blockNumber h
  reach : p < nextBoundary
    (c.settings.chainAttestationInterval * c.settings.attestationCheckpointInterval) cp.blockNumber
  spaced : c.anchors.Spaced c.settings.chainAttestationInterval p c.anchors.checkpointingQueue
  length_le : c.anchors.checkpointingQueue.length ≤ 2 * c.settings.attestationCheckpointInterval + 1

section Runs

variable [DecidableEq A] {T : Config H A B} {k : ChainKey} {c c' : Chain H A}
  {cp : AttestationCheckpoint H} {h p : ℕ} {att : SignedAttestation H A} {a' : Anchors H A}

omit [DecidableEq H] [DecidableEq A] in
theorem Settings.Bounded.queue_room {st : Settings} (hst : st.Bounded T) :
    2 * st.attestationCheckpointInterval + 2 ≤ T.maxCheckpointingQueueLen := by
  have := hst.perCheckpoint_le
  have := T.queueLen_gt
  omega

theorem Chain.ShortQueue.commit (hs : c.ShortQueue cp h p) (hwf : c.WellFormed T)
    (hlinked : c.anchors.Linked)
    (hclose : 2 * checkpointWidth c.settings ≤ att.continuityProof.len ∨
      att.headerNumber ≤ h + checkpointWidth c.settings ∨
      att.headerNumber ≤ cp.blockNumber + 3 * checkpointWidth c.settings) {supported : Bool}
    {now n : ℕ} (hcommit : doCommitAttestation T supported now c att = .ok (a', n)) :
    ∃ cp' p', Chain.ShortQueue { c with anchors := a' } cp' att.headerNumber p' := by
  have hw := hwf.bounded.width_pos
  have hreach := hs.reach
  rw [← hwf.bounded.width_eq] at hreach
  obtain ⟨cp', p', hs', hprogress⟩ := hs.toStarted.commit hwf hlinked hreach hcommit
  obtain ⟨haccepted, -⟩ := doCommitAttestation_cases hcommit
  obtain ⟨d, hd⟩ := hs.head_eq
  have hlt : h < att.headerNumber := haccepted.above_digest _ hd
  have hold : (storeAttestation T now c.anchors att).Spans p c.anchors.checkpointingQueue h :=
    hs.spans.congr fun d _ q hq => haccepted.lookup_store hq
  have hgap : h + c.settings.chainAttestationInterval ≤ att.headerNumber ∨
      att.headerNumber = u64Max := by
    have hspaced := haccepted.spaced _ hd
    have := att.headerNumber_lt
    unfold satAdd u64Max at *
    dsimp only at hspaced
    omega
  have hspaced : (storeAttestation T now c.anchors att).Spaced c.settings.chainAttestationInterval p
      (c.anchors.checkpointingQueue ++ [att.digest T.keccak]) := by
    refine (Anchors.spaced_append hold).2 ⟨?_, att, AList.lookup_insert _, hgap, trivial⟩
    exact hs.spaced.congr fun d _ q hq => haccepted.lookup_store hq
  have habove : ∀ q, (storeAttestation T now c.anchors att).Queued c.anchors.checkpointingQueue q →
      cp.blockNumber < q.headerNumber := by
    rintro q ⟨d, hd, hq⟩
    obtain ⟨q', hq'⟩ := hwf.tracked.stored d (List.mem_append_right _ hd)
    obtain rfl := Option.mem_unique hq (haccepted.lookup_store hq')
    exact hs.above q ⟨d, hd, hq'⟩
  rw [hwf.bounded.width_eq] at hprogress hclose hw
  have hroom := hwf.bounded.queue_room
  obtain ⟨hnear, hreach', hspaced', hlen⟩ := hprogress.nearCheckpoint hw hold
    (hs.toStarted.spans_store hlinked haccepted) hlt hspaced habove hs.near hs.reach
      (by omega) hclose
  refine ⟨cp', p', hs', hnear, hreach', ?_, hlen⟩
  exact hspaced'.congr fun d hd q hq => hwf.lookup_queue hcommit hd hq

theorem shortQueue_of_idle (hwf : c.WellFormed T) (hs : c.ShortQueue cp h p)
    (hidle : ReflTransGen (IdleStep T true k) c c')
    (hinterval : c'.settings.chainAttestationInterval = c.settings.chainAttestationInterval)
    (hper : c'.settings.attestationCheckpointInterval = c.settings.attestationCheckpointInterval) :
    c'.ShortQueue cp h p := by
  obtain ⟨hwf', hswept⟩ := swept_of_idle hwf hidle
  refine ⟨started_of_idle hwf hs.toStarted hidle, ?_, ?_, ?_, ?_⟩
  · rw [hinterval, hper]
    exact hs.near
  · rw [hinterval, hper]
    exact hs.reach
  · rw [hinterval, hswept.queue_eq]
    exact hs.spaced.congr fun d hd q hq => hswept.lookup_queue hwf'.tracked hd hq
  · rw [hper, hswept.queue_eq]
    exact hs.length_le

variable (T k) in
/-- The action leaves the interval and the number of attestations per checkpoint as they are. -/
def KeepsIntervals (s : State H A B) (act : Action T) : Prop :=
  ((step T s act).chain T k).settings.chainAttestationInterval =
      (s.chain T k).settings.chainAttestationInterval ∧
    ((step T s act).chain T k).settings.attestationCheckpointInterval =
      (s.chain T k).settings.attestationCheckpointInterval

instance (s : State H A B) (act : Action T) : Decidable (KeepsIntervals T k s act) :=
  inferInstanceAs (Decidable (_ ∧ _))

variable (T k) in
/-- An attestation that does not catch up stays within one checkpoint width of the last digest or
within three of the last checkpoint. -/
def StaysClose (s : State H A B) (act : Action T) : Prop :=
  ∀ att ∈ acceptedCommit T k s act, ∀ last ∈ (s.chain T k).anchors.lastDigest,
    ∀ cp ∈ (s.chain T k).anchors.lastCheckpoint,
      2 * checkpointWidth (s.chain T k).settings ≤ att.continuityProof.len ∨
        att.headerNumber ≤ last.1 + checkpointWidth (s.chain T k).settings ∨
        att.headerNumber ≤ cp.blockNumber + 3 * checkpointWidth (s.chain T k).settings

instance (s : State H A B) (act : Action T) : Decidable (StaysClose T k s act) :=
  inferInstanceAs (Decidable (∀ att ∈ acceptedCommit T k s act, _))

variable {s : State H A B}

theorem shortQueue_step (hT : 0 < T.defaultAttestationRetentionDuration ∨ HeightBinding T.keccak)
    (hreach : Reachable T s) {act : Action T} (hsup : s.isChainSupported k = true)
    (hsteady : act.steady k = true) (hkeeps : KeepsIntervals T k s act)
    (hclose : StaysClose T k s act) (hshort : ∃ cp h p, (s.chain T k).ShortQueue cp h p) :
    ∃ cp h p, ((step T s act).chain T k).ShortQueue cp h p := by
  obtain ⟨cp, h, p, hs⟩ := hshort
  have hsup' := isChainSupported_step hreach.keysBelow hsteady hsup
  obtain ⟨hl, hmove⟩ := step_chainMove hreach.keysBelow (.inl hsup')
  have hwf := wellFormed_of_live hreach hl
  rcases hmove.of_steady hsteady with ⟨att, a, n, hact, hcommit, heq⟩ | ⟨-, hidle⟩
  · obtain ⟨d, hd⟩ := hs.head_eq
    obtain ⟨cp', p', hs'⟩ := hs.commit hwf (linked_of_live hT hreach hl)
      (hclose att hact _ hd cp hs.last_eq) hcommit
    rw [heq]
    exact ⟨cp', _, p', hs'⟩
  · rw [hsup] at hidle
    exact ⟨cp, h, p, shortQueue_of_idle hwf hs hidle hkeeps.1 hkeeps.2⟩

omit [DecidableEq A] in
theorem tryMakeCheckpoint_length_le (st : Settings) (a : Anchors H A) (queue : List H)
    (header : ℕ) : (tryMakeCheckpoint T st a queue header).queue.length ≤ queue.length := by
  rcases tryMakeCheckpoint_cases T st a queue header with ⟨-, hqueue, -⟩ | ⟨last, c, popped, hmakes⟩
  · rw [hqueue]
  · have := congrArg List.length hmakes.queue_eq
    rw [List.length_append] at this
    omega

/-- **The queue is bounded.** In a run of commits with fixed intervals from the first attestation of
a chain, in which every commit catches up or stays close, the queue never holds more than twice the
number of attestations per checkpoint plus one, and never overflows. -/
theorem queue_length_le_of_staysClose
    (hT : 0 < T.defaultAttestationRetentionDuration ∨ HeightBinding T.keccak)
    (hreach : Reachable T s) (hblank : (s.chain T k).anchors.Blank) {first : Action T}
    {att : SignedAttestation H A} (hfirst : acceptedCommit T k s first = some att)
    {acts : List (Action T)} (hsteady : ∀ act ∈ acts, act.steady k = true)
    (hkeeps : AlongRun (KeepsIntervals T k) (step T s first) acts)
    (hclose : AlongRun (StaysClose T k) (step T s first) acts) :
    ((run T (step T s first) acts).chain T k).anchors.checkpointingQueue.length ≤
        2 * ((run T (step T s first) acts).chain T k).settings.attestationCheckpointInterval + 1 ∧
      ∀ now next, (tryMakeCheckpoint T ((run T (step T s first) acts).chain T k).settings
        (storeAttestation T now ((run T (step T s first) acts).chain T k).anchors next)
        (((run T (step T s first) acts).chain T k).anchors.checkpointingQueue ++
          [next.digest T.keccak]) next.headerNumber).queue.length ≤ T.maxCheckpointingQueueLen := by
  obtain ⟨hsup, hstarted, hqueue⟩ := started_of_acceptedCommit hreach hblank hfirst
  have hwf := wellFormed_of_live (hreach.step first) (.inl hsup)
  have hw := hwf.bounded.width_pos
  rw [hwf.bounded.width_eq] at hw
  obtain ⟨cp, h, p, hshort⟩ := steady_run (P := fun c => ∃ cp h p, c.ShortQueue cp h p)
    (fun hreach hsup hsteady hboth => shortQueue_step hT hreach hsup hsteady hboth.1 hboth.2)
    (hreach.step first) hsup hsteady (hkeeps.and hclose)
    ⟨_, _, _, hstarted, ⟨by dsimp only; omega, fun _ => by dsimp only; omega⟩, lt_nextBoundary hw,
      by rw [hqueue]; trivial, by simp [hqueue]⟩
  refine ⟨hshort.length_le, fun now next => (tryMakeCheckpoint_length_le _ _ _ _).trans ?_⟩
  have hsup' := isChainSupported_run (hreach.step first).keysBelow hsteady hsup
  have hwf' := wellFormed_of_live ((hreach.step first).run acts) (.inl hsup')
  have hroom := hwf'.bounded.queue_room
  have hlen := hshort.length_le
  rw [List.length_append, List.length_singleton]
  omega

end Runs

section Devnet

open Devnet

/-- Commits that stay close to the last checkpoint. -/
def smallSteps : List (Action config) := commits (step config unstarted firstCommit) [1, 3, 5, 6]

/-- Four commits on a development network with two attestations per checkpoint leave at most five in
the queue. -/
theorem devnet_queue_length_le :
    ((run config (step config unstarted firstCommit) smallSteps).chain
        config 1).anchors.checkpointingQueue.length ≤
      2 * ((run config (step config unstarted firstCommit) smallSteps).chain
        config 1).settings.attestationCheckpointInterval + 1 := by
  have hreach : Reachable config unstarted := reachable_after (by rfl) []
  have hfirst : acceptedCommit config 1 unstarted firstCommit =
      some (attestation 0 none ⟨.zero, []⟩) := by rfl
  have hsteady : ∀ act ∈ smallSteps, act.steady 1 = true := by decide +kernel
  have hkeeps :
    AlongRun (KeepsIntervals config 1) (step config unstarted firstCommit) smallSteps := by
    decide +kernel
  have hclose : AlongRun (StaysClose config 1) (step config unstarted firstCommit) smallSteps := by
    decide +kernel
  exact (queue_length_le_of_staysClose (.inl (by decide)) hreach (by decide +kernel) hfirst hsteady
    hkeeps hclose).1

/-- A development network with a checkpoint at every block, before its first attestation. -/
def unstartedDense : State Word ℕ Unit := after (genesisConfig 1 1 []) []

/-- Commits that attest every second block. -/
def jumps : List (Action config) :=
  commits (step config unstartedDense firstCommit) [2, 4, 6, 8, 10, 12]

/-- With one attestation per checkpoint, commits of every second block leave four in the queue. -/
theorem exists_queue_length_gt :
    Reachable config unstartedDense ∧ (unstartedDense.chain config 1).anchors.Blank ∧
      acceptedCommit config 1 unstartedDense firstCommit = some (attestation 0 none ⟨.zero, []⟩) ∧
      (∀ act ∈ jumps, act.steady 1 = true) ∧
      AlongRun (KeepsIntervals config 1) (step config unstartedDense firstCommit) jumps ∧
      2 * ((run config (step config unstartedDense firstCommit) jumps).chain
          config 1).settings.attestationCheckpointInterval + 1 <
        ((run config (step config unstartedDense firstCommit) jumps).chain
          config 1).anchors.checkpointingQueue.length :=
  ⟨reachable_after (by rfl) [], by decide +kernel, by rfl, by decide +kernel,
    by decide +kernel, by decide +kernel⟩

end Devnet

end Creditcoin
