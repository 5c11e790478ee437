import Creditcoin.Attestor.PoolSafety

/-!
# Marks made with an old permit

The validation task gets a permit with each quorum, asks other nodes, and only then marks the
quorum; in between the pool may have been reset. `defer` compares the generation and the number of
votes of the permit with those of the pool, the other marks compare nothing. `stale_mark_iff` says
when that leaves the votes, the forks, the tombstones, the stashed quorums and the lock alone. -/

namespace Creditcoin.Attestor

variable {H A : Type} [DecidableEq H] [DecidableEq A]

/-! ## The same votes -/

/-- The same forks, the same votes on record and the same marks. -/
structure Forks.Same (f f' : Forks H A) : Prop where
  byDigest : ∀ key, f'.byDigest.lookup key = f.byDigest.lookup key
  byHeightSize : f'.byHeightSize = f.byHeightSize
  seen : ∀ key, f'.seen.lookup key = f.seen.lookup key
  invalid : f'.invalid = f.invalid
  deferred : f'.deferred = f.deferred

/-- The same votes, forks, tombstones, stashed quorums and lock. -/
structure Pool.Same (p p' : Pool H A) : Prop where
  forks : p.forks.Same p'.forks
  valid : ∀ height, p'.valid.lookup height = p.valid.lookup height
  lock : p'.locallyValidatedHeight = p.locallyValidatedHeight

theorem Pool.Same.refl (p : Pool H A) : p.Same p :=
  ⟨⟨fun _ => rfl, rfl, fun _ => rfl, rfl, rfl⟩, fun _ => rfl, rfl⟩

/-! ## Forks above a height -/

namespace Forks

variable {f f' : Forks H A} {n m : ℕ}

/-- All forks and all votes on record are from the height `n` on. -/
structure From (n : ℕ) (f : Forks H A) : Prop where
  forks : ∀ {key fork}, f.byDigest.lookup key = some fork → n ≤ key.1
  seen : ∀ {key d}, f.seen.lookup key = some d → n ≤ key.1

theorem From.push (h : f.From n) {vote : Vote H A} (hvote : n ≤ vote.height)
    (hpush : f.push vote = .ok f') : f'.From n := by
  rcases push_cases hpush with rfl | ⟨-, -, rfl⟩
  · exact h
  · constructor
    · intro key fork hfork
      rw [addVote, StorageMap.lookup_insert_eq] at hfork
      split_ifs at hfork with hkey
      · rw [hkey]
        exact hvote
      · exact h.forks hfork
    · intro key d hseen
      rw [addVote, StorageMap.lookup_insert_eq] at hseen
      split_ifs at hseen with hkey
      · rw [hkey]
        exact hvote
      · exact h.seen hseen

theorem From.dropFork (h : f.From n) (height : ℕ) (digest : H) :
    (f.dropFork height digest).From n := by
  constructor
  · intro key fork hfork
    rw [lookup_dropFork] at hfork
    split_ifs at hfork
    exact h.forks hfork
  · intro key d hseen
    rw [(f.dropFork_frame height digest).1] at hseen
    exact h.seen hseen

/-! ### Splitting off -/

theorem lookup_seen_splitOff {key : ℕ × A} :
    (f.splitOff n).seen.lookup key =
      if satAdd u64Max n 1 ≤ key.1 then f.seen.lookup key else none := by
  split_ifs with hle
  · exact (splitOff_eq f n).2.2.2.2 key hle
  · exact (StorageMap.lookup_retain _ _ _).trans (if_neg (by simpa using hle))

theorem From.splitOff (h : f.From m) : (f.splitOff n).From (max m (satAdd u64Max n 1)) := by
  constructor
  · intro key fork hfork
    rw [(splitOff_eq f n).1] at hfork
    split_ifs at hfork with hle
    exact max_le (h.forks hfork) hle
  · intro key d hseen
    rw [lookup_seen_splitOff] at hseen
    split_ifs at hseen with hle
    exact max_le (h.seen hseen) hle

theorem same_splitOff (hcons : f.Consistent) (hdeferred : f.DeferredForks)
    (h : f.From (satAdd u64Max n 1)) : f.Same (f.splitOff n) := by
  have hdrop : (f.byDigest.entries.filter fun row => row.1.1 < satAdd u64Max n 1) = [] := by
    rw [List.filter_eq_nil_iff]
    intro row hrow
    have hle := h.forks (AList.mem_lookup_iff.2 hrow)
    simpa using hle
  refine ⟨fun key => ?_, ?_, fun key => ?_, (splitOff_eq f n).2.1, Finset.ext fun key => ?_⟩
  · rw [(splitOff_eq f n).1]
    split_ifs with hle
    · rfl
    · rcases hlookup : f.byDigest.lookup key with _ | fork
      · rfl
      · exact absurd (h.forks hlookup) hle
  · simp only [splitOff, hdrop, List.map_nil, List.foldl_nil]
    rw [List.filter_eq_self]
    intro e he
    obtain ⟨fork, hfork, -⟩ := hcons.indexed he
    simpa using h.forks hfork
  · rw [lookup_seen_splitOff]
    split_ifs with hle
    · rfl
    · rcases hlookup : f.seen.lookup key with _ | d
      · rfl
      · exact absurd (h.seen hlookup) hle
  · rw [mem_deferred_splitOff]
    refine and_iff_left_of_imp fun hkey => ?_
    obtain ⟨fork, hfork⟩ := hdeferred key hkey
    exact h.forks hfork

/-! ### Keeping the committee -/

theorem From.retainSigners (h : f.From n) (hcons : f.Consistent) (keep : Finset A) :
    (f.retainSigners keep).From n := by
  constructor
  · intro key fork hfork
    obtain ⟨-, fork₀, hold⟩ := (hcons.retainSigners keep).2 hfork
    exact h.forks hold
  · intro key d hseen
    have hlookup := hseen
    rw [Forks.retainSigners, StorageMap.lookup_retain] at hlookup
    split_ifs at hlookup
    rw [(foldl_retainFork_deferred keep f.byDigest.keys { f with deferred := ∅ }).2] at hlookup
    exact h.seen hlookup

end Forks

/-! ## The pool between operations -/

namespace Pool

variable {p p' : Pool H A} {action : PoolAction H A}

/-- The tables agree, and nothing is left at or below the lock. -/
structure Tidy (p : Pool H A) : Prop where
  consistent : p.forks.Consistent
  deferred : p.forks.DeferredForks
  above_lock : ∀ n ∈ p.locallyValidatedHeight, p.forks.From (satAdd u64Max n 1)

theorem tidy_of_clear (hforks : p.forks.byDigest = ∅) (hindex : p.forks.byHeightSize = [])
    (hdeferred : p.forks.deferred = ∅) (hlock : p.locallyValidatedHeight = none) : p.Tidy := by
  refine ⟨(sound_of_empty hforks hindex).consistent, fun key hkey => ?_, fun n hn => ?_⟩
  · rw [hdeferred] at hkey
    exact absurd hkey (Finset.notMem_empty key)
  · rw [hlock] at hn
    cases hn

theorem Tidy.push (h : p.Tidy) {vote : Vote H A} (hpush : p.push vote = .ok p') : p'.Tidy := by
  obtain ⟨-, habove, forks, hforks, rfl⟩ := push_eq_ok hpush
  refine ⟨h.consistent.push hforks, h.deferred.push hforks, fun n hn => ?_⟩
  refine (h.above_lock n hn).push ?_ hforks
  have hlt := habove n (.inr hn)
  exact (min_le_left _ _).trans (by omega)

theorem satAdd_max (n m : ℕ) :
    satAdd u64Max (max n m) 1 = max (satAdd u64Max n 1) (satAdd u64Max m 1) := by
  unfold satAdd
  omega

theorem Tidy.markValid (h : p.Tidy) (permit : Permit H) : (p.markValid permit).Tidy := by
  refine ⟨h.consistent.restrict (p.forks.splitOff_restricts _), h.deferred.splitOff,
    fun n hn => ?_⟩
  have hlock : some ((p.locallyValidatedHeight.map (max · permit.height)).getD permit.height) =
      some n := hn
  rcases hold : p.locallyValidatedHeight with _ | l
  · rw [hold, Option.map_none, Option.getD_none, Option.some.injEq] at hlock
    have hall : p.forks.From 0 := ⟨fun _ => Nat.zero_le _, fun _ => Nat.zero_le _⟩
    rw [← hlock, ← Nat.zero_max (satAdd u64Max permit.height 1)]
    exact hall.splitOff
  · rw [hold, Option.map_some, Option.getD_some, Option.some.injEq] at hlock
    rw [← hlock, satAdd_max]
    exact (h.above_lock l hold).splitOff

theorem Tidy.step (h : p.Tidy) (action : PoolAction H A) : (p.step action).Tidy := by
  cases action with
  | send vote =>
    simp only [Pool.step]
    split
    · next hpush => exact h.push hpush
    · exact h
  | noteAttestationFinalization height digest =>
    have hcons := h.consistent.restrict (p.forks.splitOff_restricts height)
    refine ⟨⟨hcons.counts, hcons.indexed, hcons.seen_eq,
      fun hkey => hcons.valid (Finset.mem_filter.1 hkey).1⟩, h.deferred.splitOff, fun n hn => ?_⟩
    have hfrom : (p.forks.splitOff height).From _ := (h.above_lock n hn).splitOff
    exact ⟨fun hfork => (le_max_left _ _).trans (hfrom.forks hfork),
      fun hseen => (le_max_left _ _).trans (hfrom.seen hseen)⟩
  | noteAttestationIntervalChange _ | noteAttestationChainReversion _ _ =>
    exact tidy_of_clear rfl rfl rfl rfl
  | noteAttestorsElected attestors =>
    refine ⟨(h.consistent.retainSigners _).1, fun key hkey => ?_,
      fun n hn => (h.above_lock n hn).retainSigners h.consistent _⟩
    rw [Pool.step, Forks.deferred_retainSigners] at hkey
    exact absurd hkey (Finset.notMem_empty key)
  | noteMaxCatchupChange maxCatchup => exact ⟨h.consistent, h.deferred, h.above_lock⟩
  | noteQuorumChange threshold =>
    simp only [Pool.step]
    split
    · refine ⟨⟨h.consistent.counts, h.consistent.indexed, h.consistent.seen_eq,
        h.consistent.valid⟩, fun key hkey => absurd hkey (Finset.notMem_empty key),
        fun n hn => ⟨(h.above_lock n hn).forks, (h.above_lock n hn).seen⟩⟩
    · exact h
  | noteMajorityNotReached height =>
    simp only [Pool.step]
    split
    · exact ⟨h.consistent, h.deferred, by simp⟩
    · exact h
  | markValid permit => exact h.markValid permit
  | markInvalid permit =>
    have hdrop : ∀ n ∈ p.locallyValidatedHeight,
        (p.forks.dropFork permit.height permit.digest).From (satAdd u64Max n 1) :=
      fun n hn => (h.above_lock n hn).dropFork _ _
    exact ⟨h.consistent.invalidateFork, h.deferred.dropFork _ _,
      fun n hn => ⟨(hdrop n hn).forks, (hdrop n hn).seen⟩⟩
  | markSkipped permit =>
    exact ⟨h.consistent.restrict (h.consistent.restricts_dropFork _ _), h.deferred.dropFork _ _,
      fun n hn => (h.above_lock n hn).dropFork _ _⟩
  | defer permit =>
    simp only [Pool.step, Pool.defer]
    split
    · next hfork =>
      refine ⟨⟨h.consistent.counts, h.consistent.indexed, h.consistent.seen_eq,
        h.consistent.valid⟩, fun key hkey => ?_,
        fun n hn => ⟨(h.above_lock n hn).forks, (h.above_lock n hn).seen⟩⟩
      rcases Finset.mem_insert.1 hkey with rfl | hkey
      · rcases hlookup : p.forks.byDigest.lookup (permit.height, permit.digest) with _ | fork
        · rw [hlookup] at hfork
          exact absurd hfork.2 Bool.false_ne_true
        · exact ⟨fork, rfl⟩
      · exact h.deferred key hkey
    · exact h
  | markForLater permit signed =>
    have hstashed : Tidy { p with valid := p.valid.insert signed.height signed } :=
      ⟨h.consistent, h.deferred, h.above_lock⟩
    exact hstashed.markValid permit
  | takeNextValidated =>
    simp only [Pool.step]
    split
    · exact ⟨h.consistent, h.deferred, h.above_lock⟩
    · exact h

theorem Tidy.run (h : p.Tidy) (actions : List (PoolAction H A)) : (p.run actions).Tidy := by
  induction actions generalizing p with
  | nil => exact h
  | cons action actions ih => exact ih (h.step action)

theorem tidy_new (config : PoolConfig H A) : (Pool.new config).Tidy :=
  tidy_of_clear rfl rfl rfl rfl

end Pool

/-! ## The generation -/

/-- The operations that start a new generation. -/
def PoolAction.startsGeneration : PoolAction H A → Bool
  | .noteAttestationIntervalChange _ => true
  | .noteAttestationChainReversion _ _ => true
  | .noteAttestorsElected _ => true
  | .noteQuorumChange threshold => 0 < threshold
  | _ => false

omit [DecidableEq H] [DecidableEq A] in
theorem PoolAction.Resets.startsGeneration {action : PoolAction H A} (h : action.Resets) :
    action.startsGeneration = true := by
  cases action <;> first | rfl | exact h.elim

namespace Pool

variable {p : Pool H A}

theorem generation_step (action : PoolAction H A) :
    (p.step action).validationGeneration =
      if action.startsGeneration then p.nextGeneration else p.validationGeneration := by
  cases action with
  | send vote =>
    simp only [Pool.step, PoolAction.startsGeneration]
    split
    · next hpush =>
      obtain ⟨-, -, forks, -, rfl⟩ := push_eq_ok hpush
      rfl
    · rfl
  | noteQuorumChange threshold =>
    simp only [Pool.step, PoolAction.startsGeneration, decide_eq_true_eq]
    split <;> rfl
  | noteMajorityNotReached _ | takeNextValidated =>
    simp only [Pool.step, PoolAction.startsGeneration]
    split <;> rfl
  | defer permit =>
    simp only [Pool.step, Pool.defer, PoolAction.startsGeneration]
    split <;> rfl
  | _ => rfl

theorem generation_run (actions : List (PoolAction H A)) (hlt : p.validationGeneration < 2 ^ 64) :
    (p.run actions).validationGeneration =
      (p.validationGeneration + actions.countP (·.startsGeneration)) % 2 ^ 64 := by
  induction actions generalizing p with
  | nil => exact (Nat.mod_eq_of_lt hlt).symm
  | cons action actions ih =>
    have hstep := generation_step (p := p) action
    show ((p.step action).run actions).validationGeneration = _
    cases hstarts : action.startsGeneration
    · rw [hstarts, if_neg Bool.false_ne_true] at hstep
      rw [ih (hstep ▸ hlt), hstep, List.countP_cons_of_neg (by simp [hstarts])]
    · rw [hstarts, if_pos rfl] at hstep
      rw [ih (hstep ▸ Nat.mod_lt _ (by decide)), hstep, List.countP_cons_of_pos hstarts,
        nextGeneration, Nat.mod_add_mod, Nat.add_assoc, Nat.add_comm 1]

end Pool

/-! ## Marks -/

/-- What the validation task may answer to a quorum. -/
inductive Mark (H A : Type)
  | valid
  | forLater (signed : SignedQuorum H A)
  | invalid
  | skipped
  | deferred

namespace Mark

/-- The operation that makes a mark. -/
def action (permit : Permit H) : Mark H A → PoolAction H A
  | .valid => .markValid permit
  | .forLater signed => .markForLater permit signed
  | .invalid => .markInvalid permit
  | .skipped => .markSkipped permit
  | .deferred => .defer permit

/-- When a mark has nothing left to do. A height that is to be locked is locked already, at it or
above, and a quorum that is to be stashed is stashed. A fork that is to be tombstoned has its
tombstone, and one that is to be dropped is not there. A fork that is to be set aside is set aside,
or has other votes, or the generation is another one. -/
def Idle (p : Pool H A) (permit : Permit H) : Mark H A → Prop
  | .valid => ∃ n ∈ p.locallyValidatedHeight, permit.height ≤ n
  | .forLater signed => (∃ n ∈ p.locallyValidatedHeight, permit.height ≤ n) ∧
      p.valid.lookup signed.height = some signed
  | .invalid => (permit.height, permit.digest) ∈ p.forks.invalid
  | .skipped => p.forks.byDigest.lookup (permit.height, permit.digest) = none
  | .deferred => p.validationGeneration = permit.validationGeneration →
      (p.forks.byDigest.lookup (permit.height, permit.digest)).any
        (fun fork => fork.votes.length = permit.voteCount) = true →
      (permit.height, permit.digest) ∈ p.forks.deferred

end Mark

namespace Pool

variable {p : Pool H A} {permit : Permit H}

variable (p permit) in
theorem lock_markValid_eq_iff :
    (p.markValid permit).locallyValidatedHeight = p.locallyValidatedHeight ↔
      ∃ n ∈ p.locallyValidatedHeight, permit.height ≤ n := by
  unfold markValid
  rcases p.locallyValidatedHeight with _ | l
  · simp
  · simp

theorem Tidy.same_markValid (h : p.Tidy) {n : ℕ} (hn : n ∈ p.locallyValidatedHeight)
    (hle : permit.height ≤ n) : p.forks.Same (p.markValid permit).forks := by
  have hfrom := h.above_lock n hn
  have hmono : satAdd u64Max permit.height 1 ≤ satAdd u64Max n 1 := by
    unfold satAdd
    omega
  exact Forks.same_splitOff h.consistent h.deferred
    ⟨fun hfork => hmono.trans (hfrom.forks hfork), fun hseen => hmono.trans (hfrom.seen hseen)⟩

theorem Tidy.same_dropFork (h : p.Tidy)
    (hnone : p.forks.byDigest.lookup (permit.height, permit.digest) = none) :
    p.forks.dropFork permit.height permit.digest = p.forks := by
  have hdeferred : (permit.height, permit.digest) ∉ p.forks.deferred := fun hmem => by
    obtain ⟨fork, hfork⟩ := h.deferred _ hmem
    rw [hnone] at hfork
    cases hfork
  unfold Forks.dropFork
  rw [hnone]
  simp only [Finset.erase_eq_of_notMem hdeferred]

/-- **A mark changes nothing exactly when it has nothing left to do.** -/
theorem Tidy.same_mark_iff (h : p.Tidy) (permit : Permit H) (mark : Mark H A) :
    p.Same (p.step (mark.action permit)) ↔ mark.Idle p permit := by
  cases mark with
  | valid =>
    constructor
    · exact fun hsame => (lock_markValid_eq_iff p permit).1 hsame.lock
    · rintro ⟨n, hn, hle⟩
      exact ⟨h.same_markValid hn hle, fun _ => rfl,
        (lock_markValid_eq_iff p permit).2 ⟨n, hn, hle⟩⟩
  | forLater signed =>
    have hlookup : ∀ height, (p.valid.insert signed.height signed).lookup height =
        if height = signed.height then some signed else p.valid.lookup height :=
      fun height => StorageMap.lookup_insert_eq _ _ _ _
    have hstashed : Tidy { p with valid := p.valid.insert signed.height signed } :=
      ⟨h.consistent, h.deferred, h.above_lock⟩
    have hlock := lock_markValid_eq_iff
      { p with valid := p.valid.insert signed.height signed } permit
    constructor
    · intro hsame
      refine ⟨hlock.1 hsame.lock, ?_⟩
      have hvalid := hsame.valid signed.height
      exact hvalid.symm.trans ((hlookup _).trans (if_pos rfl))
    · rintro ⟨⟨n, hn, hle⟩, hvalid⟩
      refine ⟨hstashed.same_markValid hn hle, fun height => (hlookup height).trans ?_,
        hlock.2 ⟨n, hn, hle⟩⟩
      split_ifs with heq
      · rw [heq, hvalid]
      · rfl
  | invalid =>
    have hkept := (p.forks.dropFork_frame permit.height permit.digest).2.1
    constructor
    · intro hsame
      have hinvalid : insert (permit.height, permit.digest)
          (p.forks.dropFork permit.height permit.digest).invalid = p.forks.invalid :=
        hsame.forks.invalid
      rw [hkept] at hinvalid
      exact Finset.insert_eq_self.1 hinvalid
    · intro hmem
      have hmem : (permit.height, permit.digest) ∈ p.forks.invalid := hmem
      have hdrop := h.same_dropFork (h.consistent.valid hmem)
      have hforks : p.forks.invalidateFork permit.height permit.digest = p.forks := by
        unfold Forks.invalidateFork
        simp only [hdrop, Finset.insert_eq_of_mem hmem]
      show p.Same { p with forks := p.forks.invalidateFork permit.height permit.digest }
      rw [hforks]
      exact .refl p
  | skipped =>
    constructor
    · intro hsame
      have hlookup := hsame.forks.byDigest (permit.height, permit.digest)
      rw [show (p.step (Mark.skipped.action permit)).forks =
        p.forks.dropFork permit.height permit.digest from rfl, Forks.lookup_dropFork,
        if_pos rfl] at hlookup
      exact hlookup.symm
    · intro hnone
      show p.Same { p with forks := p.forks.dropFork permit.height permit.digest }
      rw [h.same_dropFork hnone]
      exact .refl p
  | deferred =>
    show p.Same (p.defer permit) ↔ _
    simp only [Pool.defer]
    split
    · next hfork =>
      constructor
      · intro hsame _ _
        exact Finset.insert_eq_self.1 hsame.forks.deferred
      · intro hidle
        have hmem := hidle hfork.1 hfork.2
        exact ⟨⟨fun _ => rfl, rfl, fun _ => rfl, rfl, Finset.insert_eq_of_mem hmem⟩,
          fun _ => rfl, rfl⟩
    · next hfork =>
      exact iff_of_true (.refl p) fun hgeneration hvotes => absurd ⟨hgeneration, hvotes⟩ hfork

end Pool

open Pool in
/-- **When a mark with an old permit changes nothing.** A quorum is handed out with a permit, and
the pool is reset, by a new interval or by a reversion, before the quorum is marked, with any other
operations before and after. The votes, forks, tombstones, stashed quorums and the lock of the pool
then stay as they are exactly when the mark has nothing left to do. To set the quorum aside is such
a mark, unless as many as `2 ^ 64` generations have begun. -/
theorem stale_mark_iff (digestOrd : H → ℕ) (config : PoolConfig H A)
    (before since : List (PoolAction H A)) {q : Quorum H A} {permit : Permit H}
    (hpeek : ((Pool.new config).run before).peek digestOrd = some (q, permit))
    (hreset : ∃ action ∈ since, action.Resets) (mark : Mark H A) :
    let p := (Pool.new config).run (before ++ since)
    (p.Same (p.step (mark.action permit)) ↔ mark.Idle p permit) ∧
      (since.countP (·.startsGeneration) < 2 ^ 64 → Mark.deferred.Idle p permit) := by
  intro p
  refine ⟨((tidy_new config).run _).same_mark_iff permit mark, fun hfew hgeneration => ?_⟩
  -- The reset has started a generation, and the counter has not come round.
  obtain ⟨action, haction, hresets⟩ := hreset
  have hsome : 0 < since.countP (·.startsGeneration) :=
    List.countP_pos_iff.2 ⟨action, haction, hresets.startsGeneration⟩
  have hlt : ((Pool.new config).run before).validationGeneration < 2 ^ 64 := by
    rw [generation_run before (show 0 < 2 ^ 64 by decide)]
    exact Nat.mod_lt _ (by decide)
  have hpermit : permit.validationGeneration =
      ((Pool.new config).run before).validationGeneration := by
    obtain ⟨fork, -, heq⟩ := Option.map_eq_some_iff.1 hpeek
    obtain ⟨-, rfl⟩ := Prod.mk.inj heq
    rfl
  have hnow : p.validationGeneration = _ := (congrArg validationGeneration
    (run_append _ before since)).trans (generation_run since hlt)
  rw [hnow, hpermit] at hgeneration
  omega

/-! ## Marks that are too late -/

/-- To set the quorum aside comes too late, and changes nothing. -/
theorem stale_mark_deferred :
    ∃ permit, ((Pool.new loneConfig).run [.send loneVote]).peek id =
        some (⟨10, 7, 1, [loneVote]⟩, permit) ∧
      let p := (Pool.new loneConfig).run
        ([.send loneVote] ++ [.noteAttestationChainReversion 0 0, .send loneVote])
      p.Same (p.step (.defer permit)) := by
  have hpeek : ((Pool.new loneConfig).run [.send loneVote]).peek id =
      some (⟨10, 7, 1, [loneVote]⟩, ⟨10, 7, 0, 1⟩) := by rfl
  have hstale := stale_mark_iff id loneConfig [.send loneVote]
    [.noteAttestationChainReversion 0 0, .send loneVote] hpeek
    ⟨_, List.mem_cons_self, trivial⟩ .deferred
  exact ⟨_, hpeek, hstale.1.2 (hstale.2 (by decide))⟩

/-- **Marks that are too late and change the pool.** The quorum at height 10 is handed out, the
chain is reverted to height 0, and the vote comes again. Every mark but the one that sets the quorum
aside changes the pool. To mark the quorum as valid locks height 10, so that the vote is turned
down from then on. -/
theorem exists_stale_mark :
    ∃ (q : Quorum ℕ ℕ) (permit : Permit ℕ),
      ((Pool.new loneConfig).run [.send loneVote]).peek id = some (q, permit) ∧
      let p := (Pool.new loneConfig).run
        ([.send loneVote] ++ [.noteAttestationChainReversion 0 0, .send loneVote])
      (∀ mark : Mark ℕ ℕ, mark ≠ .deferred → ¬ p.Same (p.step (mark.action permit))) ∧
      p.locallyValidatedHeight = none ∧
      (p.step (.markValid permit)).locallyValidatedHeight = some 10 ∧
      ((p.step (.markValid permit)).step (.send loneVote)).peek id = none := by
  refine ⟨⟨10, 7, 1, [loneVote]⟩, ⟨10, 7, 0, 1⟩, by rfl, ?_, by rfl,
    by rfl, by rfl⟩
  intro mark hmark hsame
  cases mark with
  | valid => exact absurd hsame.lock (by decide +kernel)
  | forLater signed => cases hsame.lock
  | invalid => exact absurd hsame.forks.invalid (by decide +kernel)
  | skipped => exact absurd (hsame.forks.byDigest (10, 7)) (by decide +kernel)
  | deferred => exact hmark rfl

end Creditcoin.Attestor
