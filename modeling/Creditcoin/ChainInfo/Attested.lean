import Creditcoin.BlockProver.SourceChain
import Creditcoin.ChainInfo.Bracketing
import Mathlib.Data.Nat.Find

/-!
# Attested heights

What `is_height_attested` answers while no drain is in progress. It should find every height that a
stored checkpoint holds, every height between neighbouring checkpoints at most four buckets apart,
and every height from the last checkpoint up to the highest attestation. The search for a checkpoint
at or below the target starts in the bucket of the block before it, so it misses a checkpoint in the
first block of a bucket unless another one lies in the buckets before
(`isHeightAttested_complete_iff`).

Every height that it reports above the first block of the source chain has a continuity proof that
the block prover accepts (`attested_provable`); the first block has none
(`exists_attested_unprovable`). -/

namespace Creditcoin

open Metered

variable {H A B : Type}

/-! ## The answer -/

section Answer

variable [DecidableEq H] {T : Config H A B} {digestRank : H → ℕ} {s : State H A B} {k : ChainKey}
  {a : Anchors H A}

/-- The anchors between which the query places a height. -/
def Anchors.Located (a : Anchors H A) (t : ℕ) : Prop :=
  match a.lastCheckpoint with
  | some last =>
    (last.blockNumber < t ∧ ∃ n, a.AttestedAt n ∧ t ≤ n) ∨
      (t < last.blockNumber ∧ ∃ n, a.Checkpointed n ∧ n ≤ t ∧
        computeBlockIndexFor n ≤ computeBlockIndexFor (t - 1) ∧
        computeBlockIndexFor (t - 1) ≤ computeBlockIndexFor n + 4000) ∨
      t = last.blockNumber
  | none => a.AttestedAt t ∨ (∃ n, a.AttestedAt n ∧ t < n) ∧ ∃ n, a.AttestedAt n ∧ n < t

section

omit [DecidableEq H]

theorem scanAny_answers {α : Type} (p : α → Bool) (items : List α) :
    Answers (scanAny p items) True (items.any p) :=
  .charge _ _ (.pure _)

theorem searchPrev_answers (t attempts pivot : ℕ) :
    Answers (searchPrev T a t attempts pivot) True
      ((List.iterate (fun pivot => pivot - checkpointBucketSize) pivot attempts).any fun p =>
        (a.bucketHeights T p).any fun n => n ≤ t) := by
  induction attempts generalizing pivot with
  | zero => exact .pure false
  | succ attempts ih =>
    refine .charge _ _ ((scanAny_answers _ _).seq ?_)
    rw [List.iterate, List.any_cons]
    split
    · next hfound =>
      rw [hfound, Bool.true_or]
      exact .pure true
    · next hfound =>
      rw [Bool.eq_false_of_not_eq_true hfound, Bool.false_or]
      exact ih _

theorem searchPrev_found_iff (hindexed : a.Indexed) (t : ℕ) :
    ((List.iterate (fun pivot => pivot - checkpointBucketSize) (computeBlockIndexFor (t - 1))
      bucketSearchAttempts).any fun p => (a.bucketHeights T p).any fun n => n ≤ t) = true ↔
    ∃ n, a.Checkpointed n ∧ n ≤ t ∧ computeBlockIndexFor n ≤ computeBlockIndexFor (t - 1) ∧
      computeBlockIndexFor (t - 1) ≤ computeBlockIndexFor n + 4000 := by
  simp only [List.any_eq_true, hindexed.mem_bucketHeights, decide_eq_true_eq]
  constructor
  · rintro ⟨_, hpivot, n, ⟨rfl, hn⟩, hle⟩
    exact ⟨n, hn, hle, mem_pivots_below.1 hpivot⟩
  · rintro ⟨n, hn, hle, hpivot⟩
    exact ⟨_, mem_pivots_below.2 hpivot, n, ⟨rfl, hn⟩, hle⟩

end

theorem any_attestationRows {p : ℕ → Prop} [DecidablePred p] :
    ((a.attestationRows digestRank).any fun row => p row.2.headerNumber) = true ↔
      ∃ n, a.AttestedAt n ∧ p n := by
  simp only [List.any_eq_true, decide_eq_true_eq]
  exact Anchors.exists_attestationRows

theorem isBetweenAttestations_answers (hstable : a.attestationsStable = true) (t : ℕ) :
    Answers (isBetweenAttestations digestRank a t) True
      ((a.attestationRows digestRank).any (fun row => row.2.headerNumber == t) ||
        (a.attestationRows digestRank).any (fun row => t < row.2.headerNumber) &&
          (a.attestationRows digestRank).any fun row => row.2.headerNumber < t) := by
  unfold isBetweenAttestations
  rw [if_pos hstable]
  refine .charge _ _ ((scanAny_answers _ _).seq ?_)
  split
  · next hfound =>
    rw [hfound, Bool.true_or]
    exact .pure true
  · next hfound =>
    rw [Bool.eq_false_of_not_eq_true hfound, Bool.false_or]
    exact .charge _ _ ((scanAny_answers _ _).seq (.charge _ _ ((scanAny_answers _ _).seq
      (.pure _))))

theorem isBetweenAnchors_answers (hindexed : a.Indexed) (hstable : a.attestationsStable = true)
    (t : ℕ) :
    ∃ b, Answers (isBetweenAnchors T digestRank a t) True b ∧ (b = true ↔ a.Located t) := by
  unfold isBetweenAnchors Anchors.Located
  rcases a.lastCheckpoint with _ | last
  · refine ⟨_, isBetweenAttestations_answers hstable t, ?_⟩
    have hat : ((a.attestationRows digestRank).any fun row => row.2.headerNumber == t) = true ↔
        a.AttestedAt t := by
      rw [show (fun row : H × SignedAttestation H A => row.2.headerNumber == t) =
        fun row => decide (row.2.headerNumber = t) from rfl, any_attestationRows (p := (· = t)),
        exists_eq_right]
    rw [Bool.or_eq_true, Bool.and_eq_true, hat, any_attestationRows (p := (t < ·)),
      any_attestationRows (p := (· < t))]
  · dsimp only
    rw [if_pos hstable]
    rcases lt_trichotomy last.blockNumber t with hlt | heq | hgt
    · rw [if_pos hlt]
      refine ⟨_, .charge _ _ (scanAny_answers _ _), ?_⟩
      rw [any_attestationRows (p := (t ≤ ·))]
      simp [hlt, hlt.ne', hlt.not_gt]
    · refine ⟨true, ?_, by simp [heq]⟩
      rw [if_neg (by omega), if_neg (by omega)]
      exact .pure true
    · rw [if_neg (by omega), if_pos hgt]
      refine ⟨_, searchPrev_answers _ _ _, (searchPrev_found_iff hindexed t).trans ?_⟩
      simp [hgt, hgt.ne, hgt.not_gt]

variable (digestRank)

theorem isHeightAttested_answers (hindexed : (s.chain T k).anchors.Indexed)
    (hstable : (s.chain T k).anchors.attestationsStable = true) (t : U64) :
    ∃ b, Answers (isHeightAttested T digestRank s k t) (s.isChainSupported k = true) b ∧
      (b = true ↔ (s.chain T k).anchors.Located t.val) := by
  obtain ⟨b, hanswers, hb⟩ := isBetweenAnchors_answers hindexed hstable t.val
  exact ⟨b, (ensureChainSupported_answers.bind (.charge _ _ hanswers)).congr
    (iff_of_eq (and_true _)), hb⟩

theorem isHeightAttested_accepts_iff (hindexed : (s.chain T k).anchors.Indexed)
    (hstable : (s.chain T k).anchors.attestationsStable = true) (t : U64) :
    Accepts (isHeightAttested T digestRank s k t) true [] ↔
      s.isChainSupported k = true ∧ (s.chain T k).anchors.Located t.val := by
  obtain ⟨b, hanswers, hb⟩ := isHeightAttested_answers digestRank hindexed hstable t
  rw [hanswers.accepts_iff, ← hb, eq_comm (a := true) (b := b)]

end Answer

/-! ## Heights that should be found -/

section Complete

variable [DecidableEq H] {T : Config H A B} {a : Anchors H A}

/-- The height lies between neighbouring checkpoints that are at most four buckets apart. -/
def Anchors.BetweenCheckpoints (a : Anchors H A) (t : ℕ) : Prop :=
  ∃ m n, a.Checkpointed m ∧ a.Checkpointed n ∧ m < n ∧ n ≤ m + 4000 ∧
    (∀ x, m < x → x < n → ¬ a.Checkpointed x) ∧ m ≤ t ∧ t ≤ n

/-- The height holds a checkpoint, lies between neighbouring ones, or lies between the last one and
an attestation. -/
def Anchors.Covered (a : Anchors H A) (t : ℕ) : Prop :=
  a.Checkpointed t ∨ a.BetweenCheckpoints t ∨
    ∃ last ∈ a.lastCheckpoint, ∃ n, a.AttestedAt n ∧ last.blockNumber ≤ t ∧ t ≤ n

/-- A checkpoint in the first block of a bucket has another one in the five buckets before, and a
height above the last checkpoint is not there on account of checkpoints alone. -/
def Anchors.Findable (a : Anchors H A) (t : ℕ) : Prop :=
  ∀ last ∈ a.lastCheckpoint,
    (t < last.blockNumber → a.Checkpointed t → t % 1000 = 0 → 0 < t →
      ∃ n, a.Checkpointed n ∧ n < t ∧ t ≤ n + 5000) ∧
    (last.blockNumber < t → a.Checkpointed t ∨ a.BetweenCheckpoints t →
      ∃ n, a.AttestedAt n ∧ t ≤ n)

/-- The bucket searched first is that of the target, unless the target is the first of its bucket.
-/
theorem computeBlockIndexFor_pred (t : ℕ) : computeBlockIndexFor (t - 1) =
    if t % 1000 = 0 then t - 1000 else computeBlockIndexFor t := by
  unfold computeBlockIndexFor checkpointBucketSize
  split <;> omega

omit [DecidableEq H] in
theorem found_below_iff (t : ℕ) :
    (a.Checkpointed t ∨ a.BetweenCheckpoints t → ∃ n, a.Checkpointed n ∧ n ≤ t ∧
        computeBlockIndexFor n ≤ computeBlockIndexFor (t - 1) ∧
        computeBlockIndexFor (t - 1) ≤ computeBlockIndexFor n + 4000) ↔
      (a.Checkpointed t → t % 1000 = 0 → 0 < t → ∃ n, a.Checkpointed n ∧ n < t ∧ t ≤ n + 5000) := by
  have hpred := computeBlockIndexFor_pred t
  constructor
  · intro h hcp hmod hpos
    obtain ⟨n, hn, hle, hpivot, hreach⟩ := h (.inl hcp)
    have hlen := computeBlockIndexFor_le n
    rw [if_pos hmod] at hpred
    refine ⟨n, hn, lt_of_le_of_ne hle ?_, by omega⟩
    rintro rfl
    unfold computeBlockIndexFor checkpointBucketSize at hpivot
    omega
  · intro h hcovered
    -- A checkpoint below the target in a bucket within reach is found.
    have hbelow : ∀ n, a.Checkpointed n → n < t →
        computeBlockIndexFor (t - 1) ≤ computeBlockIndexFor n + 4000 →
        ∃ n, a.Checkpointed n ∧ n ≤ t ∧ computeBlockIndexFor n ≤ computeBlockIndexFor (t - 1) ∧
          computeBlockIndexFor (t - 1) ≤ computeBlockIndexFor n + 4000 := fun n hn hlt hreach =>
      ⟨n, hn, hlt.le, computeBlockIndexFor_mono (by omega), hreach⟩
    have hat : a.Checkpointed t → ∃ n, a.Checkpointed n ∧ n ≤ t ∧
        computeBlockIndexFor n ≤ computeBlockIndexFor (t - 1) ∧
        computeBlockIndexFor (t - 1) ≤ computeBlockIndexFor n + 4000 := by
      intro hcp
      by_cases hfirst : t % 1000 = 0 ∧ 0 < t
      · obtain ⟨n, hn, hlt, hle⟩ := h hcp hfirst.1 hfirst.2
        rw [if_pos hfirst.1] at hpred
        refine hbelow n hn hlt ?_
        rw [hpred]
        unfold computeBlockIndexFor checkpointBucketSize
        omega
      · have heq : computeBlockIndexFor (t - 1) = computeBlockIndexFor t := by
          rw [hpred]
          split
          · obtain rfl : t = 0 := by omega
            rfl
          · rfl
        exact ⟨t, hcp, le_rfl, by omega, by omega⟩
    rcases hcovered with hcp | ⟨m, n, hm, -, hlt, hle, -, hmt, htn⟩
    · exact hat hcp
    · rcases hmt.eq_or_lt with rfl | hmt
      · exact hat hm
      · refine hbelow m hm hmt ?_
        unfold computeBlockIndexFor checkpointBucketSize
        omega

theorem covered_imp_located_iff (hmarked : a.Marked) (t : ℕ) :
    (a.Covered t → a.Located t) ↔ a.Findable t := by
  rcases hlast : a.lastCheckpoint with _ | last
  · have hnone : ∀ n, ¬ a.Checkpointed n := fun n hn => by
      rw [Anchors.Checkpointed, hmarked.empty hlast n] at hn
      cases hn
    refine iff_of_true ?_ fun last hmem => ?_
    · rintro (hcp | ⟨m, n, hm, -⟩ | ⟨last, hmem, -⟩)
      · exact absurd hcp (hnone t)
      · exact absurd hm (hnone m)
      · rw [hlast] at hmem
        cases hmem
    · rw [hlast] at hmem
      cases hmem
  · unfold Anchors.Covered Anchors.Located Anchors.Findable
    simp only [hlast, Option.mem_def, Option.some.injEq, forall_eq', exists_eq_left']
    rcases lt_trichotomy last.blockNumber t with hlt | rfl | hgt
    · simp only [hlt, hlt.le, hlt.not_gt, hlt.ne', true_and, false_and, or_false, false_imp_iff,
        true_imp_iff]
      constructor
      · exact fun h hcovered => h (hcovered.elim .inl fun hbetween => .inr (.inl hbetween))
      · rintro h (hcp | hbetween | hattested)
        · exact h (.inl hcp)
        · exact h (.inr hbetween)
        · exact hattested
    · simp
    · simp only [hgt, hgt.not_gt, hgt.not_ge, hgt.ne, true_and, false_and, and_false, exists_false,
        or_false,
        false_or, false_imp_iff, true_imp_iff, and_true]
      exact found_below_iff t

end Complete

/-- **Completeness of the query.** In a reachable state without a drain, `is_height_attested` is
true for a height that is covered by stored anchors exactly if the height is findable. -/
theorem isHeightAttested_complete_iff [DecidableEq H] [DecidableEq A] {T : Config H A B}
    {s : State H A B} {k : ChainKey} (digestRank : H → ℕ) (hreach : Reachable T s)
    (hsup : s.isChainSupported k = true)
    (hdrain : (s.chain T k).anchors.commitBlockedByCleanup = false) (t : U64) :
    ((s.chain T k).anchors.Covered t.val →
      Accepts (isHeightAttested T digestRank s k t) true []) ↔
      (s.chain T k).anchors.Findable t.val := by
  have hmarked := (wellFormed_of_live hreach (.inl hsup)).marked
  have hstable := (commitBlockedByCleanup_eq_false.1 hdrain).1
  rw [isHeightAttested_accepts_iff digestRank hmarked.indexed hstable, and_iff_right hsup]
  exact covered_imp_located_iff hmarked t.val

namespace Devnet

/-- Height 7 lies between the checkpoints at the heights 5 and 9. -/
theorem isHeightAttested_twoCheckpoints :
    Accepts (isHeightAttested config (fun _ => 0) twoCheckpoints 1 7) true [] := by
  have hreach : Reachable config twoCheckpoints := reachable_after (by rfl) []
  have hlast : (twoCheckpoints.chain config 1).anchors.lastCheckpoint =
      some ⟨9, .root 9, by decide⟩ := by rfl
  refine (isHeightAttested_complete_iff (k := 1) (fun _ => 0) hreach (by rfl)
    (by rfl) 7).2 ?_ (.inr (.inl ⟨5, 9, ?_⟩))
  · intro last hmem
    obtain rfl := Option.mem_unique hmem hlast
    exact ⟨fun _ _ hmod => absurd hmod (by decide), fun hlt => absurd hlt (by decide)⟩
  · refine ⟨by rfl, by rfl, by decide, by decide, fun x hlt hgt => ?_,
      by decide, by decide⟩
    have hnone : ∀ x ∈ [6, 7, 8], (twoCheckpoints.chain config 1).anchors.checkpoints.lookup x =
        none := by decide +kernel
    rw [Anchors.Checkpointed, hnone x (by simp; omega)]
    nofun

/-- The network with checkpoints at the heights 1000 and 2000. -/
def bucketStarts : State Word ℕ Unit :=
  after (genesisConfig 10 10 [checkpoint 1000, checkpoint 2000]) []

/-- **A checkpoint that is missed.** There is a checkpoint at height 1000, and the query says that
this height is not attested. -/
theorem exists_checkpoint_not_attested :
    Reachable config bucketStarts ∧ bucketStarts.isChainSupported 1 = true ∧
      (bucketStarts.chain config 1).anchors.commitBlockedByCleanup = false ∧
      ((bucketStarts.chain config 1).anchors.checkpoints.lookup 1000).isSome = true ∧
      Accepts (isHeightAttested config (fun _ => 0) bucketStarts 1 1000) false [] := by
  have hreach : Reachable config bucketStarts := reachable_after (by rfl) []
  have hsup : bucketStarts.isChainSupported 1 = true := by rfl
  have hdrain : (bucketStarts.chain config 1).anchors.commitBlockedByCleanup = false := by
    rfl
  have hlast : (bucketStarts.chain config 1).anchors.lastCheckpoint =
      some ⟨2000, .root 2000, by decide⟩ := by rfl
  have hmarked := (wellFormed_of_live hreach (.inl hsup)).marked
  obtain ⟨b, hanswers, hb⟩ := isHeightAttested_answers (fun _ => 0) hmarked.indexed
    (commitBlockedByCleanup_eq_false.1 hdrain).1 1000
  refine ⟨hreach, hsup, hdrain, by rfl, hanswers.accepts_iff.2 ⟨hsup, ?_⟩⟩
  have hkeys : (bucketStarts.chain config 1).anchors.checkpoints.keys = [2000, 1000] := by
    rfl
  symm
  rw [Bool.eq_false_iff, Ne, hb, Anchors.Located, hlast]
  rintro (⟨hlt, -⟩ | ⟨-, n, hn, hle, hpivot, -⟩ | heq)
  · exact absurd hlt (by decide)
  · obtain ⟨d, hd⟩ := Option.isSome_iff_exists.1 hn
    have hmem := (StorageMap.mem_keys_iff _ _).2 ⟨d, hd⟩
    rw [hkeys] at hmem
    have hzero : computeBlockIndexFor ((1000 : U64).val - 1) = 0 := by decide
    rw [hzero] at hpivot
    rcases List.mem_cons.1 hmem with rfl | hmem
    · exact absurd hpivot (by decide)
    · obtain rfl := List.mem_singleton.1 hmem
      exact absurd hpivot (by decide)
  · exact absurd heq (by decide)

end Devnet

/-! ## Attested heights and continuity proofs -/

/-- A property of heights with one holder at or below `t` and one at or above `t`, and with less
than `gap` between neighbouring holders, has a holder less than `gap` above `t`. -/
theorem exists_holder_above {p : ℕ → Prop} {t gap m n : ℕ} (hpos : 0 < gap) (hm : p m) (hmt : m ≤ t)
    (hn : p n) (htn : t ≤ n)
    (hgap : ∀ m n, p m → p n → m < n → (∀ x, m < x → x < n → ¬ p x) → n - m < gap) :
    ∃ n, p n ∧ t ≤ n ∧ n - t < gap := by
  classical
  have hex : ∃ n, t ≤ n ∧ p n := ⟨n, htn, hn⟩
  obtain ⟨hle, hp⟩ := Nat.find_spec hex
  refine ⟨_, hp, hle, ?_⟩
  set low := Nat.findGreatest p t
  have hlow : p low := Nat.findGreatest_spec hmt hm
  have hlowle : low ≤ t := Nat.findGreatest_le t
  rcases hlowle.eq_or_lt with heq | hlt
  · have hmin := Nat.find_min' hex ⟨heq.ge, hlow⟩
    omega
  · have hnext := hgap low (Nat.find hex) hlow hp (by omega) fun x hgt hlt hx => by
      rcases le_or_gt x t with hxt | hxt
      · exact absurd hx (Nat.findGreatest_is_greatest hgt hxt)
      · exact Nat.find_min hex hlt ⟨hxt.le, hx⟩
    omega

section Provable

variable [DecidableEq H] {P : ProverConfig H A B} {s : State H A B} {k : ChainKey}

/-- The prover accepts continuity proofs that end at the height. -/
def AnchoredAt (P : ProverConfig H A B) (s : State H A B) (k : ChainKey) (n : ℕ) : Prop :=
  ∃ d, Anchored P s k n d

theorem anchoredAt_of_attestedAt
    (hstable : (s.chain P.toConfig k).anchors.attestationsStable = true) {n : ℕ}
    (h : (s.chain P.toConfig k).anchors.AttestedAt n) : AnchoredAt P s k n := by
  obtain ⟨d, att, hlookup, rfl⟩ := h
  refine ⟨d, .inl ⟨att, ?_, rfl⟩⟩
  rw [Anchors.get, if_pos hstable, hlookup]

theorem anchoredAt_of_checkpointed (hsup : s.isChainSupported k = true)
    (hpruning : (s.chain P.toConfig k).anchors.checkpointPruningState = none) {n : ℕ}
    (h : (s.chain P.toConfig k).anchors.Checkpointed n) : AnchoredAt P s k n := by
  obtain ⟨d, hd⟩ := Option.isSome_iff_exists.1 h
  refine ⟨d, .inr ?_⟩
  rw [supportedCheckpoint, if_pos hsup, checkpointIfStable_eq_some, hpruning]
  exact ⟨hd, nofun⟩

theorem AnchoredAt.lt (hindexed : (s.chain P.toConfig k).anchors.Indexed) {n : ℕ}
    (h : AnchoredAt P s k n) : n < 2 ^ 64 := by
  obtain ⟨d, ⟨att, -, rfl⟩ | hcp⟩ := h
  · exact att.headerNumber_lt
  · unfold supportedCheckpoint at hcp
    split at hcp
    · refine hindexed.height_lt n ?_
      rw [(checkpointIfStable_eq_some.1 hcp).1]
      rfl
    · cases hcp

theorem exists_anchors_of_located (hmarked : (s.chain P.toConfig k).anchors.Marked)
    (hsup : s.isChainSupported k = true)
    (hdrain : (s.chain P.toConfig k).anchors.commitBlockedByCleanup = false) {t : ℕ}
    (h : (s.chain P.toConfig k).anchors.Located t) :
    (∃ m ≤ t, AnchoredAt P s k m) ∧ ∃ n, t ≤ n ∧ AnchoredAt P s k n := by
  obtain ⟨hstable, hpruning⟩ := commitBlockedByCleanup_eq_false.1 hdrain
  unfold Anchors.Located at h
  split at h
  · next last hlast =>
    have hanchor : AnchoredAt P s k last.blockNumber := by
      refine anchoredAt_of_checkpointed hsup hpruning ?_
      rw [Anchors.Checkpointed, hmarked.stored last hlast]
      rfl
    rcases h with ⟨hlt, n, hn, hle⟩ | ⟨hlt, n, hn, hle, -⟩ | rfl
    · exact ⟨⟨_, hlt.le, hanchor⟩, n, hle, anchoredAt_of_attestedAt hstable hn⟩
    · exact ⟨⟨n, hle, anchoredAt_of_checkpointed hsup hpruning hn⟩, _, hlt.le, hanchor⟩
    · exact ⟨⟨_, le_rfl, hanchor⟩, _, le_rfl, hanchor⟩
  · rcases h with hat | ⟨⟨n, hn, hlt⟩, m, hm, hlt'⟩
    · exact ⟨⟨t, le_rfl, anchoredAt_of_attestedAt hstable hat⟩, t, le_rfl,
        anchoredAt_of_attestedAt hstable hat⟩
    · exact ⟨⟨m, hlt'.le, anchoredAt_of_attestedAt hstable hm⟩, n, hlt.le,
        anchoredAt_of_attestedAt hstable hn⟩

/-- **The query agrees with the block prover.** If the anchors of a chain are digests of a source
chain and neighbouring ones are less than 50000 blocks apart, then for every height above the first
block for which `is_height_attested` returns true there is a continuity proof made of the roots of
the source chain that the prover accepts. -/
theorem attested_provable [DecidableEq A] {digestRank : H → ℕ} {c : SourceChain}
    (hreach : Reachable P.toConfig s) (hsup : s.isChainSupported k = true)
    (hdrain : (s.chain P.toConfig k).anchors.commitBlockedByCleanup = false)
    (hrec : c.Recorded P s k)
    (hgap : ∀ m n, AnchoredAt P s k m → AnchoredAt P s k n → m < n →
      (∀ x, m < x → x < n → ¬ AnchoredAt P s k x) → n - m < 50000)
    {t : U64} (hfirst : c.first < t.val) {h h' : Meter TransactionVerified}
    (htrue : (isHeightAttested P.toConfig digestRank s k t).run h = .ok (true, h')) :
    ∃ p n, p.roots = c.rootsBetween P.hashing t.val n ∧ t.val ≤ n ∧
      Accepts (verifyContinuityChain P s p t.val k t.val) () [] := by
  have hmarked := (wellFormed_of_live hreach (.inl hsup)).marked
  have hstable := (commitBlockedByCleanup_eq_false.1 hdrain).1
  obtain ⟨b, ⟨cost, hyields⟩, hb⟩ := isHeightAttested_answers digestRank hmarked.indexed hstable t
  obtain ⟨-, rfl, -⟩ := hyields.of_ok h _ htrue
  obtain ⟨⟨m, hmt, hm⟩, n, htn, hn⟩ := exists_anchors_of_located hmarked hsup hdrain (hb.1 rfl)
  -- The lowest anchor at or above the height is near enough for a proof.
  obtain ⟨top, ⟨d, hd⟩, hle, hnear⟩ := exists_holder_above (by decide) hm hmt hn htn hgap
  have hlt : top < 2 ^ 64 := AnchoredAt.lt hmarked.indexed ⟨d, hd⟩
  obtain ⟨low, hlow⟩ := c.exists_digest (K := P.hashing) (n := t.val - 1) (by omega)
  have hvalid : ContinuityValid P s k ⟨low, c.rootsBetween P.hashing t.val top⟩ t.val t.val :=
    SourceChain.continuityValid (a := ⟨top, hlt⟩) hfirst hle hnear hd (hrec.digest_of_anchored hd)
      hlow
  exact ⟨_, top, rfl, hle, (verifyContinuityChain_yields P s k _ _ _).accepts_iff.2 ⟨hvalid, rfl⟩⟩

end Provable

namespace Devnet

/-! ### The first block of a source chain -/

/-- The hash function of the small source chain with the length of the input in front. -/
def taggedKeccak256 (input : Bytes) : H256 :=
  ⟨UInt8.ofNat input.length :: (keccak256 input).val.take 31, by
    rw [List.length_cons, List.length_take, (keccak256 input).property]
    rfl⟩

def taggedHashing : Keccak256 H256 := { hashing with keccak256 := taggedKeccak256 }

def taggedConfig : ProverConfig H256 ℕ Unit where
  toConfig := configOver taggedHashing.blockDigest taggedHashing.zero taggedHashing.asBytes
  hashing := taggedHashing
  keccak_eq := rfl

theorem taggedHashing_blockDigest_ne (n n' : ℕ) (r r' p : H256) :
    taggedHashing.blockDigest n r (some p) ≠ taggedHashing.blockDigest n' r' none := by
  intro h
  have hhead := congrArg (fun d : H256 => d.val.head?) h
  have hsome : (taggedHashing.digestPreimage n r (some p)).length = 72 := by
    simp [Keccak256.digestPreimage, Keccak256.length_beBytes, taggedHashing.length_asBytes]
  have hnone : (taggedHashing.digestPreimage n' r' none).length = 40 := by
    simp [Keccak256.digestPreimage, Keccak256.length_beBytes, taggedHashing.length_asBytes]
  have hbyte : UInt8.ofNat (taggedHashing.digestPreimage n r (some p)).length =
      UInt8.ofNat (taggedHashing.digestPreimage n' r' none).length := Option.some.inj hhead
  rw [hsome, hnone] at hbyte
  cases hbyte

/-- The digest of a block of the small source chain. -/
def taggedDigest (n : ℕ) : H256 := (sourceChain.digest taggedHashing n).getD taggedHashing.zero

/-- One source chain with a checkpoint at the block `n` of the small source chain. -/
def taggedGenesis (n : U64) : GenesisConfig H256 ℕ Unit where
  supportedChains := [(1, [], .v1, "EvmSafe")]
  invulnerables := []
  attestationChainConfigurations := [⟨1, 10, 10, 120, [⟨n, taggedDigest n, n.isLt⟩]⟩]
  balances := ()

def taggedState (n : U64) : State H256 ℕ Unit :=
  (genesis taggedConfig.toConfig (taggedGenesis n)).getD (emptyState .empty ())

section Tagged

variable {n : U64} (hn : n = 1 ∨ n = 3)

include hn

theorem reachable_taggedState : Reachable taggedConfig.toConfig (taggedState n) := by
  have hsome : (genesis taggedConfig.toConfig (taggedGenesis n)).isSome = true := by
    rcases hn with rfl | rfl <;> rfl
  exact reachable_genesisRun hsome []

theorem supported_taggedState : (taggedState n).isChainSupported 1 = true := by
  rcases hn with rfl | rfl <;> rfl

theorem settled_taggedState :
    ((taggedState n).chain taggedConfig.toConfig 1).anchors.commitBlockedByCleanup = false := by
  rcases hn with rfl | rfl <;> rfl

theorem anchored_taggedState {m : ℕ} {d : H256} (h : Anchored taggedConfig (taggedState n) 1 m d) :
    m = n.val ∧ d = taggedDigest n.val := by
  have hempty : ((taggedState n).chain taggedConfig.toConfig 1).anchors.attestations.keys = [] := by
    rcases hn with rfl | rfl <;> rfl
  have hkeys : ((taggedState n).chain taggedConfig.toConfig 1).anchors.checkpoints.keys =
      [n.val] := by
    rcases hn with rfl | rfl <;> rfl
  have hdigest : ((taggedState n).chain taggedConfig.toConfig 1).anchors.checkpoints.lookup n.val =
      some (taggedDigest n.val) := by
    rcases hn with rfl | rfl <;> rfl
  rcases h with ⟨att, hget, -⟩ | hcp
  · have hmem := (StorageMap.mem_keys_iff _ _).2 ⟨att, (get_eq_some.1 hget).2⟩
    rw [hempty] at hmem
    cases hmem
  · rw [supportedCheckpoint, if_pos (supported_taggedState hn), checkpointIfStable_eq_some] at hcp
    have hmem := (StorageMap.mem_keys_iff _ _).2 ⟨d, hcp.1⟩
    rw [hkeys, List.mem_singleton] at hmem
    subst hmem
    exact ⟨rfl, Option.mem_unique hcp.1 hdigest⟩

theorem recorded_taggedState : sourceChain.Recorded taggedConfig (taggedState n) 1 := by
  have hdigest : sourceChain.digest taggedHashing n.val = some (taggedDigest n.val) := by
    rcases hn with rfl | rfl <;> rfl
  have hanchored : ∀ m d, Anchored taggedConfig (taggedState n) 1 m d →
      sourceChain.digest taggedHashing m = some d := by
    intro m d h
    obtain ⟨rfl, rfl⟩ := anchored_taggedState hn h
    exact hdigest
  constructor
  · exact fun d att hget => hanchored _ d (.inl ⟨att, hget, rfl⟩)
  · intro m d hcp
    refine hanchored m d (.inr ?_)
    rw [supportedCheckpoint, if_pos (supported_taggedState hn), hcp]

theorem gap_taggedState (l m : ℕ) (hl : AnchoredAt taggedConfig (taggedState n) 1 l)
    (hm : AnchoredAt taggedConfig (taggedState n) 1 m) (hlt : l < m) : m - l < 50000 := by
  obtain ⟨d, hd⟩ := hl
  obtain ⟨e, he⟩ := hm
  have hl := (anchored_taggedState hn hd).1
  have hm := (anchored_taggedState hn he).1
  omega

theorem attested_taggedState :
    ∃ h', (isHeightAttested taggedConfig.toConfig (fun _ => 0) (taggedState n) 1 n).run
      ⟨100000, []⟩ = .ok (true, h') := by
  have hfst : ((isHeightAttested taggedConfig.toConfig (fun _ => 0) (taggedState n) 1 n).run
      ⟨100000, []⟩).toOption.map Prod.fst = some true := by
    rcases hn with rfl | rfl <;> rfl
  rcases hrun : (isHeightAttested taggedConfig.toConfig (fun _ => 0) (taggedState n) 1 n).run
    ⟨100000, []⟩ with e | ⟨b, h'⟩
  · rw [hrun] at hfst
    cases hfst
  · rw [hrun] at hfst
    obtain rfl : b = true := Option.some.inj hfst
    exact ⟨h', rfl⟩

end Tagged

/-- Block 3 is attested, and there is a continuity proof for it. -/
theorem block3_provable :
    ∃ p n, p.roots = sourceChain.rootsBetween taggedHashing 3 n ∧ 3 ≤ n ∧
      Accepts (verifyContinuityChain taggedConfig (taggedState 3) p 3 1 3) () [] := by
  obtain ⟨h', hrun⟩ := attested_taggedState (n := 3) (.inr rfl)
  exact attested_provable (t := 3) (reachable_taggedState (.inr rfl))
    (supported_taggedState (.inr rfl)) (settled_taggedState (.inr rfl))
    (recorded_taggedState (.inr rfl))
    (fun l m hl hm hlt _ => gap_taggedState (.inr rfl) l m hl hm hlt) (by decide) hrun

/-- **The first block.** It is attested, the only anchor is its digest, and no continuity proof made
of the roots of the source chain is accepted for it. -/
theorem exists_attested_unprovable :
    Reachable taggedConfig.toConfig (taggedState 1) ∧
      (taggedState 1).isChainSupported 1 = true ∧
      ((taggedState 1).chain taggedConfig.toConfig 1).anchors.commitBlockedByCleanup = false ∧
      sourceChain.Recorded taggedConfig (taggedState 1) 1 ∧
      (∀ l m, AnchoredAt taggedConfig (taggedState 1) 1 l →
        AnchoredAt taggedConfig (taggedState 1) 1 m → l < m → m - l < 50000) ∧
      (∃ h h', (isHeightAttested taggedConfig.toConfig (fun _ => 0) (taggedState 1) 1 1).run h =
        .ok (true, h')) ∧
      ∀ p n, p.roots = sourceChain.rootsBetween taggedHashing 1 n →
        ¬ Accepts (verifyContinuityChain taggedConfig (taggedState 1) p 1 1 1) () [] := by
  refine ⟨reachable_taggedState (.inl rfl), supported_taggedState (.inl rfl),
    settled_taggedState (.inl rfl), recorded_taggedState (.inl rfl), gap_taggedState (.inl rfl),
    ⟨_, attested_taggedState (.inl rfl)⟩, fun p n hroots haccepts => ?_⟩
  obtain ⟨hvalid, -⟩ := (verifyContinuityChain_yields _ _ _ _ _ _).accepts_iff.1 haccepts
  obtain ⟨hfinal, hdigest⟩ := anchored_taggedState (.inl rfl) hvalid.anchored
  -- The proof ends at the only anchor, so it consists of the root of the first block.
  have hlength : p.roots.length = 1 := by
    have hpos := List.length_pos_of_ne_nil hvalid.ne_nil
    have hone : (1 : U64).val = 1 := rfl
    omega
  have hn : n = 1 := by
    rw [hroots, SourceChain.length_rootsBetween] at hlength
    omega
  subst hn
  have hbase : taggedDigest 1 =
      taggedHashing.blockDigest 1 (sourceChain.root taggedHashing 1) none := rfl
  rw [ContinuityProof.computeContinuityDigest, hroots] at hdigest
  exact taggedHashing_blockDigest_ne _ _ _ _ _ (hdigest.trans hbase)

end Devnet

end Creditcoin
