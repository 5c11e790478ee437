import Creditcoin.Attestor.Stream
import Creditcoin.Attestation.CommitSpec

/-!
# What the attestation stream produces

The cache of the stream always has the roots from right above the last finalized point up to the
last root that arrived (`StreamAttestation.Sound`), and the range of heights never goes beyond them.
So no assertion fails, and an attestation carries the roots between the finalized point and its own
height (`Produced.Continues`). -/

namespace Creditcoin.Attestor

open HashChain

variable {H : Type} {source : ℕ → H × H}

/-! ## The invariant -/

namespace StreamAttestation

variable {s s' : StreamAttestation H}

/-- The height of the last finalized point. -/
abbrev prevHeight (s : StreamAttestation H) : ℕ := s.attestationPrev.height

/-- The cache is what has arrived above the last finalized point, and the range of heights is
covered by it. -/
structure Sound (source : ℕ → H × H) (s : StreamAttestation H) : Prop where
  interval_le : (s.attestationInterval : ℕ) ≤ u64Max
  nextRoot_le : s.nextRoot ≤ 2 ^ 64
  cache_eq : s.cache =
    (List.range' (s.prevHeight + 1) (s.nextRoot - (s.prevHeight + 1))).map (rootInfo source)
  cache_le : s.cache.length ≤ s.maxCatchup + 1
  start_le : s.computedStart ≤ max s.prevHeight (s.nextRoot - 1)
  end_le : s.computedEnd ≤ max s.prevHeight (s.nextRoot - 1)
  /-- The range may be behind the finalized point only when there are roots above that point. -/
  behind : s.prevHeight ≤ s.computedStart ∧ s.prevHeight ≤ s.computedEnd ∨
    s.prevHeight + 2 ≤ s.nextRoot
  cursor_le : s.cursor ≤ s.computedEnd ∨ s.cursor ≤ s.computedStart

theorem Sound.length_cache (h : s.Sound source) :
    s.cache.length = s.nextRoot - (s.prevHeight + 1) := by
  rw [h.cache_eq, List.length_map, List.length_range']

theorem Sound.head?_cache (h : s.Sound source) (hroot : s.prevHeight + 2 ≤ s.nextRoot) :
    s.cache.head? = some (rootInfo source (s.prevHeight + 1)) := by
  have hcount : s.nextRoot - (s.prevHeight + 1) = s.nextRoot - (s.prevHeight + 2) + 1 := by omega
  rw [h.cache_eq, hcount, List.range'_succ, List.map_cons, List.head?_cons]

theorem Sound.getLast?_cache (h : s.Sound source) (hroot : s.prevHeight + 2 ≤ s.nextRoot) :
    s.cache.getLast? = some (rootInfo source (s.nextRoot - 1)) := by
  have hcount : s.nextRoot - (s.prevHeight + 1) = s.nextRoot - (s.prevHeight + 2) + 1 := by omega
  have hlast : s.prevHeight + 1 + 1 * (s.nextRoot - (s.prevHeight + 2)) = s.nextRoot - 1 := by omega
  rw [h.cache_eq, hcount, List.range'_concat, List.map_append, List.map_singleton,
    List.getLast?_concat, hlast]

theorem Sound.cache_eq_nil (h : s.Sound source) (hroot : s.nextRoot ≤ s.prevHeight + 1) :
    s.cache = [] :=
  List.length_eq_zero_iff.1 (h.length_cache.trans (Nat.sub_eq_zero_of_le hroot))

theorem sound_new {chainKey : ChainKey} {interval maxCatchup : ℕ+} {prev : AttestationInfo H}
    {startHeight : ℕ} (hinterval : (interval : ℕ) ≤ u64Max)
      (hstart : startHeight ≤ prev.height + 1) :
    (new chainKey interval maxCatchup prev startHeight).Sound source := by
  have hlt := prev.height_lt
  have hnone : startHeight - (prev.height + 1) = 0 := Nat.sub_eq_zero_of_le hstart
  refine ⟨hinterval, hstart.trans hlt, ?_, Nat.zero_le _, le_max_left _ _, le_max_left _ _,
    .inl ⟨le_rfl, le_rfl⟩, .inl (Nat.zero_le _)⟩
  simp [new, hnone]

theorem Sound.drain (h : s.Sound source) {height : ℕ} (hheight : s.prevHeight ≤ height) :
    s.drain height =
      (List.range' (height + 1) (s.nextRoot - (height + 1))).map (rootInfo source) := by
  unfold StreamAttestation.drain
  rcases Nat.lt_or_ge (s.prevHeight + 1) s.nextRoot with hroot | hroot
  · rw [h.head?_cache hroot]
    dsimp only
    split
    · next hle =>
      rw [h.cache_eq, ← List.map_drop, List.drop_range', List.length_map, List.length_range']
      simp only [rootInfo] at hle ⊢
      have hend : s.prevHeight + 1 +
          (min (height - (s.prevHeight + 1)) (s.nextRoot - (s.prevHeight + 1) - 1) + 1) * 1 =
            height + 1 ∨ s.nextRoot - (height + 1) = 0 := by omega
      rcases hend with hend | hend
      · rw [hend]
        congr 2
        omega
      · rw [hend]
        have hall : s.nextRoot - (s.prevHeight + 1) -
            (min (height - (s.prevHeight + 1)) (s.nextRoot - (s.prevHeight + 1) - 1) + 1) = 0 := by
          omega
        rw [hall]
        rfl
    · next hlt =>
      have heq : height = s.prevHeight := by
        simp only [rootInfo] at hlt
        omega
      rw [h.cache_eq, heq]
  · have hzero : s.nextRoot - (height + 1) = 0 := by omega
    simp [h.cache_eq_nil hroot, hzero]

theorem Sound.noteAttestationFinalization (h : s.Sound source) (info : AttestationInfo H) :
    (s.noteAttestationFinalization info).Sound source := by
  unfold StreamAttestation.noteAttestationFinalization
  split
  · next hle =>
    have hle : s.prevHeight ≤ info.height := hle
    have hdrain := h.drain hle
    have hend := h.end_le
    have hlen := h.length_cache
    have hcap := h.cache_le
    refine ⟨h.interval_le, h.nextRoot_le, hdrain, ?_, le_max_left _ _, ?_, ?_, .inl le_rfl⟩
    · show (s.drain info.height).length ≤ s.maxCatchup + 1
      rw [hdrain, List.length_map, List.length_range']
      omega
    · show max info.height s.computedEnd ≤ max info.height (s.nextRoot - 1)
      omega
    · exact .inl ⟨le_rfl, le_max_left _ _⟩
  · exact h

theorem nextHeight_le : s.nextHeight ≤ s.prevHeight + 1 := Nat.mod_le _ _

theorem Sound.noteAttestationChainReversion (h : s.Sound source) (info : AttestationInfo H) :
    (s.noteAttestationChainReversion info).Sound source :=
  sound_new h.interval_le (Nat.le_succ _)

/-! ## Fetching -/

theorem Sound.takeRoot (h : s.Sound source) (hspace : s.hasSpaceLeft = true)
    (hnext : s.nextRoot < 2 ^ 64) : (s.takeRoot source).Sound source := by
  have hstart := h.start_le
  have hend := h.end_le
  have hbehind := h.behind
  have hspace : s.cache.length ≤ s.maxCatchup := of_decide_eq_true hspace
  refine ⟨h.interval_le, hnext, ?_, ?_, ?_, ?_, ?_, h.cursor_le⟩
  · show (if s.computedStart < s.nextRoot then s.cache ++ [rootInfo source s.nextRoot]
      else s.cache) = _
    rcases Nat.lt_or_ge s.prevHeight s.nextRoot with habove | hbelow
    · have hcount : s.nextRoot + 1 - (s.prevHeight + 1) =
          s.nextRoot - (s.prevHeight + 1) + 1 := by omega
      have hlast : s.prevHeight + 1 + 1 * (s.nextRoot - (s.prevHeight + 1)) = s.nextRoot := by omega
      rw [if_pos (by omega), h.cache_eq]
      show _ = (List.range' (s.prevHeight + 1) (s.nextRoot + 1 - (s.prevHeight + 1))).map _
      rw [hcount, List.range'_concat, List.map_append, List.map_singleton, hlast]
    · rw [if_neg (by omega), h.cache_eq]
      show _ = (List.range' (s.prevHeight + 1) (s.nextRoot + 1 - (s.prevHeight + 1))).map _
      congr 2
      omega
  · show (if s.computedStart < s.nextRoot then s.cache ++ [rootInfo source s.nextRoot]
      else s.cache).length ≤ s.maxCatchup + 1
    split
    · rw [List.length_append, List.length_singleton]
      omega
    · omega
  · show s.computedStart ≤ max s.prevHeight (s.nextRoot + 1 - 1)
    omega
  · show s.computedEnd ≤ max s.prevHeight (s.nextRoot + 1 - 1)
    omega
  · exact hbehind.imp_right fun hle => Nat.le_succ_of_le hle

theorem Sound.takeTip (h : s.Sound source) (tip : ℕ) : (s.takeTip tip).Sound source := { h with }

/-- What a poll leaves alone: the settings and the finalized point. -/
structure Keeps (s s' : StreamAttestation H) : Prop where
  chainKey_eq : s'.chainKey = s.chainKey
  interval_eq : s'.attestationInterval = s.attestationInterval
  catchup_eq : s'.maxCatchup = s.maxCatchup
  prev_eq : s'.attestationPrev = s.attestationPrev

theorem Keeps.refl (s : StreamAttestation H) : Keeps s s := ⟨rfl, rfl, rfl, rfl⟩

theorem Keeps.trans {s'' : StreamAttestation H} (h : Keeps s s') (h' : Keeps s' s'') :
    Keeps s s'' :=
  ⟨h'.chainKey_eq.trans h.chainKey_eq, h'.interval_eq.trans h.interval_eq,
    h'.catchup_eq.trans h.catchup_eq, h'.prev_eq.trans h.prev_eq⟩

/-- Whatever state a poll ends with is `P`. -/
def Outcome.All {α : Type} (P : StreamAttestation H → Prop) : Outcome α H → Prop
  | .done _ s => P s
  | .pending s => P s
  | .ended s => P s
  | .panicked => True
  | .running => True

theorem Outcome.All.of_step {P : StreamAttestation H → Prop} {keccak : ℕ → H → Option H → H}
    {zero : H} {fuel : ℕ} {answers : List Answers}
    (h : (pollNext keccak zero source fuel s answers).All P)
    (hstep : step keccak zero source s (.poll fuel answers) = some s') : P s' := by
  simp only [StreamAttestation.step] at hstep
  cases hpoll : pollNext keccak zero source fuel s answers <;> rw [hpoll] at h hstep <;> cases hstep
  all_goals exact h

theorem run_append {keccak : ℕ → H → Option H → H} {zero : H}
    (actions actions' : List (StreamAction H)) :
    run keccak zero source s (actions ++ actions') =
      (run keccak zero source s actions).bind fun s' => run keccak zero source s' actions' := by
  induction actions generalizing s with
  | nil => rfl
  | cons action actions ih =>
    rw [List.cons_append, StreamAttestation.run, StreamAttestation.run, Option.bind_assoc]
    exact congrArg _ (funext fun s₁ => ih)

section Fetch

variable {next : ℕ} {answers rest : List Answers}

/-- **Induction over the loop that fetches roots.** It takes roots and the tips that are answered,
nothing else. -/
theorem fetch_invariant {P : StreamAttestation H → Prop}
    (hroot : ∀ s, P s → s.hasSpaceLeft = true → s.nextRoot < 2 ^ 64 → P (s.takeRoot source))
    (next : ℕ) (answers : List Answers)
    (htip : ∀ answer ∈ answers, ∀ tip, answer.tip = .ready tip → ∀ s, P s → P (s.takeTip tip))
    (h : P s) :
    (fetch source next answers s).All P ∧ fetch source next answers s ≠ .panicked := by
  have hroots : ∀ (s : StreamAttestation H) answer, P s → (s.pollRoots source answer).All P := by
    intro s answer h
    unfold pollRoots
    split
    · split
      · next hready => exact hroot s h hready.1 hready.2
      · exact h
    · split <;> exact h
    · exact h
  induction answers generalizing s with
  | nil =>
    unfold fetch
    split <;> exact ⟨h, by simp⟩
  | cons answer answers ih =>
    have htips : ∀ s, P s → (s.pollTip answer.tip).All P := by
      intro s h
      cases htip' : answer.tip with
      | ready tip => exact htip answer List.mem_cons_self tip htip' s h
      | ended => exact h
      | pending => exact h
    unfold fetch
    split
    · split
      · next progress s₁ heq =>
        have hs₁ := hroots s answer.roots h
        rw [heq] at hs₁
        split
        · next progress' s₂ heq' =>
          have hs₂ := htips s₁ hs₁
          rw [heq'] at hs₂
          split
          · exact ih (fun answer' hmem => htip answer' (List.mem_cons_of_mem _ hmem)) hs₂
          · exact ⟨hs₂, by simp⟩
        · exact ⟨hs₁, by simp⟩
      · exact ⟨h, by simp⟩
    · exact ⟨h, by simp⟩

theorem fetch_rest (h : fetch source next answers s = .done rest s') : rest ⊆ answers := by
  induction answers generalizing s with
  | nil =>
    unfold fetch at h
    split at h
    · cases h
    · cases h
      exact List.Subset.refl _
  | cons answer answers ih =>
    unfold fetch at h
    split at h
    · split at h
      · split at h
        · split at h
          · exact List.subset_cons_of_subset _ (ih h)
          · cases h
        · cases h
      · cases h
    · cases h
      exact List.Subset.refl _

theorem keeps_fetch (source : ℕ → H × H) (next : ℕ) (answers : List Answers)
    (s : StreamAttestation H) : (fetch source next answers s).All (Keeps s) :=
  (fetch_invariant (P := Keeps s) (fun _ h _ _ => h.trans ⟨rfl, rfl, rfl, rfl⟩) next answers
    (fun _ _ _ _ _ h => h.trans ⟨rfl, rfl, rfl, rfl⟩) (.refl s)).1

theorem fetch_eq_done (h : fetch source next answers s = .done rest s') :
    next ≤ s'.tip ∧ s'.missingRoots = false := by
  induction answers generalizing s with
  | nil =>
    unfold fetch at h
    split at h
    · cases h
    · next hcond =>
      cases h
      simpa using hcond
  | cons answer answers ih =>
    unfold fetch at h
    split at h
    · split at h
      · split at h
        · split at h
          · exact ih h
          · cases h
        · cases h
      · cases h
    · next hcond =>
      cases h
      simpa using hcond

end Fetch

/-! ## Polling -/

theorem Sound.settle (h : s.Sound source) : s.settle.Sound source := by
  unfold StreamAttestation.settle
  split
  · exact { h with cursor_le := .inr le_rfl }
  · exact h

theorem keeps_settle (s : StreamAttestation H) : Keeps s s.settle := by
  unfold StreamAttestation.settle
  split
  · exact ⟨rfl, rfl, rfl, rfl⟩
  · exact .refl s

theorem le_cursor_settle (h : s.settle.computedStart < s.settle.cursor) :
    satAdd u64Max s.settle.prevHeight s.settle.attestationInterval ≤ s.settle.cursor := by
  unfold StreamAttestation.settle at h ⊢
  split
  · next hlt =>
    rw [if_pos hlt] at h
    exact absurd h (lt_irrefl _)
  · next hle => exact Nat.le_of_not_lt hle

theorem Sound.nextTip_pos (h : s.Sound source) : 0 < s.nextTip := by
  have hle : (s.attestationInterval : ℕ) ≤ satAdd u64Max s.computedEnd s.attestationInterval :=
    le_min (Nat.le_add_left _ _) h.interval_le
  exact Nat.sub_pos_of_lt ((Nat.mod_lt _ s.attestationInterval.pos).trans_le hle)

theorem Sound.advance (h : s.Sound source) (htip : 0 < s.tip) (hmissing : s.missingRoots = false) :
    s.advance.Sound source := by
  have hend := h.end_le
  have hstop : 0 < s.stop := by
    refine lt_min (lt_min ?_ (by decide)) htip
    exact Nat.add_pos_right _ s.maxCatchup.pos
  -- The last root is at or above a positive height, so there is one.
  have hlast : s.stop ≤ s.nextRoot - 1 ∧ s.prevHeight + 2 ≤ s.nextRoot := by
    have hle : s.stop ≤ (s.cache.getLast?.map (·.height)).getD 0 :=
      Nat.le_of_not_lt (of_decide_eq_false hmissing)
    rcases Nat.lt_or_ge (s.prevHeight + 1) s.nextRoot with hroot | hroot
    · rw [h.getLast?_cache hroot, Option.map_some, Option.getD_some] at hle
      exact ⟨hle, hroot⟩
    · rw [h.cache_eq_nil hroot, List.getLast?_nil, Option.map_none, Option.getD_none] at hle
      omega
  refine ⟨h.interval_le, h.nextRoot_le, h.cache_eq, h.cache_le, hend, ?_, .inr hlast.2,
    .inl le_rfl⟩
  exact hlast.1.trans (le_max_right _ _)

end StreamAttestation

/-! ## Attestations -/

section Produced

open StreamAttestation

variable (keccak : ℕ → H → Option H → H) (zero : H)

theorem continuityProofFromBlocks_eq (digest : H) (infos : List (RootInfo H)) :
    continuityProofFromBlocks zero (blocksFrom keccak digest infos) =
      ⟨if infos = [] then zero else digest, infos.map (·.root)⟩ := by
  have hroots : ∀ (digest : H) (infos : List (RootInfo H)),
      (blocksFrom keccak digest infos).map (·.root) = infos.map (·.root) := by
    intro digest infos
    induction infos generalizing digest with
    | nil => rfl
    | cons info infos ih => exact congrArg _ (ih _)
  cases infos with
  | nil => rfl
  | cons info infos =>
    rw [if_neg (List.cons_ne_nil _ _), ← hroots digest]
    rfl

/-- The previous digest is that of the last block of the proof, or the given one if there is
none. -/
theorem prevDigest_eq (digest : H) (infos : List (RootInfo H)) (start : ℕ) :
    (if (continuityProofFromBlocks zero
        (blocksFrom keccak digest infos)).isEmpty = true then digest
      else (continuityProofFromBlocks zero
        (blocksFrom keccak digest infos)).computeContinuityDigest keccak start) =
      foldFrom (hashPayload keccak) start digest (infos.map (·.root)) := by
  rw [continuityProofFromBlocks_eq]
  cases infos <;> rfl

/-- An attestation continues the point `prev` of the stream: it carries the roots of the blocks
between them, chained from the digest of that point. -/
structure Produced.Continues (source : ℕ → H × H) (s : StreamAttestation H) (x : Produced H) :
    Prop where
  chainKey_eq : x.data.chainKey = s.chainKey
  block_eq : (x.data.root, x.data.headerHash) = source x.data.headerNumber
  lt : s.prevHeight < x.data.headerNumber
  spaced : s.prevHeight + s.attestationInterval ≤ x.data.headerNumber ∨
    x.data.headerNumber = u64Max
  roots_eq : x.continuityProof.roots =
    (List.range' (s.prevHeight + 1) (x.data.headerNumber - (s.prevHeight + 1))).map
      fun n => (source n).1
  lower_eq : x.continuityProof.roots ≠ [] →
    x.continuityProof.lowerEndpointDigest = s.attestationPrev.digest
  prev_eq : x.data.prevDigest = some (foldFrom (hashPayload keccak) (s.prevHeight + 1)
    s.attestationPrev.digest x.continuityProof.roots)
  len_le : x.continuityProof.len ≤ s.maxCatchup

variable {keccak zero} {s : StreamAttestation H}

variable (keccak zero) in
/-- **The attestation at the cursor** can be produced, and it continues the finalized point. -/
theorem StreamAttestation.Sound.produce (h : s.Sound source) (hstart : s.computedStart < s.cursor)
    (hspaced : satAdd u64Max s.prevHeight s.attestationInterval ≤ s.cursor) :
    ∃ x, s.produce keccak zero = .done x { s with cursor := s.cursor - s.attestationInterval } ∧
      x.Continues keccak source s := by
  have hend := h.end_le
  have hbehind := h.behind
  have hnext := h.nextRoot_le
  have hcursor := h.cursor_le
  have hlen := h.length_cache
  have hpos := s.attestationInterval.pos
  -- The cursor is above the finalized point and at or below the last root.
  have hlast : s.prevHeight + 2 ≤ s.nextRoot ∧ s.cursor ≤ s.nextRoot - 1 := by omega
  have habove : s.prevHeight < s.cursor := by
    refine lt_of_lt_of_le (lt_min (Nat.lt_add_of_pos_right hpos) ?_) hspaced
    unfold u64Max
    omega
  have hindex : s.cursor - (s.prevHeight + 1) < s.nextRoot - (s.prevHeight + 1) := by omega
  have hget : s.cache[s.cursor - (s.prevHeight + 1)]? = some (rootInfo source s.cursor) := by
    have hsum : s.prevHeight + 1 + 1 * (s.cursor - (s.prevHeight + 1)) = s.cursor := by omega
    rw [h.cache_eq, List.getElem?_map, List.getElem?_range' hindex, Option.map_some, hsum]
  have htake : s.cache.take (s.cursor - (s.prevHeight + 1)) =
      (List.range' (s.prevHeight + 1) (s.cursor - (s.prevHeight + 1))).map (rootInfo source) := by
    have hsplit : s.nextRoot - (s.prevHeight + 1) =
        s.cursor - (s.prevHeight + 1) + (s.nextRoot - s.cursor) := by omega
    rw [h.cache_eq, hsplit, ← List.range'_append_1, List.map_append, List.take_left' (by simp)]
  have hroots : (s.cache.take (s.cursor - (s.prevHeight + 1))).map (·.root) =
      (List.range' (s.prevHeight + 1) (s.cursor - (s.prevHeight + 1))).map
        fun n => (source n).1 := by
    rw [htake, List.map_map]
    rfl
  have hany : (s.cache.getLast?).any (fun last => s.cursor ≤ last.height) = true := by
    rw [h.getLast?_cache hlast.1, Option.any_some]
    exact decide_eq_true hlast.2
  have hguard : s.computedStart < s.cursor ∧ s.cursor ≤ s.computedEnd := by omega
  have hguard' : s.prevHeight + 1 ≤ s.cursor ∧ s.cursor ≤ s.nextRoot - 1 := ⟨habove, hlast.2⟩
  have hlt : s.cursor < 2 ^ 64 := by omega
  have hprev := prevDigest_eq keccak zero s.attestationPrev.digest
    (s.cache.take (s.cursor - (s.prevHeight + 1))) (s.prevHeight + 1)
  rw [hroots] at hprev
  rw [StreamAttestation.produce, if_pos hany]
  simp only [generateAttestation, h.head?_cache hlast.1,
    h.getLast?_cache hlast.1, Option.bind_eq_bind, Option.bind_some, hguard, and_self, guard_true,
    Option.pure_def, rootInfo, hguard', hget, hlt, dif_pos, hprev]
  rw [continuityProofFromBlocks_eq, hroots]
  refine ⟨_, rfl, rfl, rfl, habove, ?_, rfl, fun hne => ?_, rfl, ?_⟩
  · show s.prevHeight + s.attestationInterval ≤ s.cursor ∨ s.cursor = u64Max
    unfold satAdd u64Max at hspaced
    unfold u64Max
    omega
  · refine if_neg fun hnil => hne ?_
    show (List.range' (s.prevHeight + 1) (s.cursor - (s.prevHeight + 1))).map _ = []
    rw [← hroots, hnil]
    rfl
  · show ((List.range' (s.prevHeight + 1) (s.cursor - (s.prevHeight + 1))).map
      fun n => (source n).1).length ≤ s.maxCatchup
    have hcap := h.cache_le
    rw [List.length_map, List.length_range']
    omega

theorem Produced.Continues.of_keeps {s' : StreamAttestation H} {x : Produced H}
    (h : x.Continues keccak source s') (hkeeps : Keeps s s') :
    x.Continues keccak source s := by
  cases s
  cases s'
  obtain ⟨rfl, rfl, rfl, rfl⟩ := hkeeps
  exact { h with }

theorem generateAttestation_headerNumber {target : ℕ} {x : Produced H}
    (h : s.generateAttestation keccak zero target = some x) : x.data.headerNumber = target := by
  unfold generateAttestation at h
  simp only [Option.bind_eq_bind, Option.bind_eq_some_iff] at h
  obtain ⟨first, -, last, -, -, -, -, -, info, -, h⟩ := h
  split at h
  · cases h
    rfl
  · cases h

variable (keccak zero source) in
/-- **Induction over a poll.** What its parts keep holds of the stream it ends with, and of the
stream at whose cursor it produces an attestation. -/
theorem StreamAttestation.pollNext_invariant {P : StreamAttestation H → Prop}
    (hsettle : ∀ s, P s → P s.settle)
    (hfetching : ∀ s b, P s → P { s with fetching := b })
    (hroot : ∀ s, P s → s.hasSpaceLeft = true → s.nextRoot < 2 ^ 64 → P (s.takeRoot source))
    (hadvance : ∀ s, P s → P s.advance)
    (hcursor : ∀ s, P s → P { s with cursor := s.cursor - s.attestationInterval })
    (fuel : ℕ) (answers : List Answers)
    (htip : ∀ answer ∈ answers, ∀ tip, answer.tip = .ready tip → ∀ s, P s → P (s.takeTip tip))
    (h : P s) :
    (pollNext keccak zero source fuel s answers).All P ∧
      ∀ x s', pollNext keccak zero source fuel s answers = .done x s' →
        ∃ s₁, P s₁ ∧ x.data.headerNumber = s₁.cursor := by
  induction fuel generalizing s answers with
  | zero => exact ⟨trivial, nofun⟩
  | succ fuel ih =>
    have hs := hsettle s h
    unfold pollNext
    dsimp only
    split
    · unfold produce
      split
      · split
        · next produced hproduced =>
          refine ⟨hcursor _ hs, fun x s' hdone => ⟨_, hs, ?_⟩⟩
          cases hdone
          exact generateAttestation_headerNumber hproduced
        · exact ⟨trivial, nofun⟩
      · exact ⟨trivial, nofun⟩
    · split
      · exact ⟨hs, nofun⟩
      · have hfetch := (fetch_invariant hroot s.settle.nextTip answers htip
          (hfetching _ true hs)).1
        split
        · next rest s₂ heq =>
          rw [heq] at hfetch
          split
          · exact ih rest
              (fun answer hmem => htip answer (fetch_rest heq hmem))
              (hadvance _ (hfetching _ false hfetch))
          · exact ⟨trivial, nofun⟩
        · next s₂ heq =>
          rw [heq] at hfetch
          exact ⟨hfetch, nofun⟩
        · next s₂ heq =>
          rw [heq] at hfetch
          exact ⟨hfetch, nofun⟩
        · exact ⟨trivial, nofun⟩
        · exact ⟨trivial, nofun⟩

variable (keccak zero) in
theorem StreamAttestation.keeps_pollNext (source : ℕ → H × H) (fuel : ℕ) (s : StreamAttestation H)
    (answers : List Answers) :
    (pollNext keccak zero source fuel s answers).All
      (Keeps s) :=
  (pollNext_invariant (P := Keeps s) source keccak zero
    (fun s' h => h.trans (keeps_settle s'))
    (fun _ _ h => h.trans ⟨rfl, rfl, rfl, rfl⟩) (fun _ h _ _ => h.trans ⟨rfl, rfl, rfl, rfl⟩)
    (fun _ h => h.trans ⟨rfl, rfl, rfl, rfl⟩) (fun _ h => h.trans ⟨rfl, rfl, rfl, rfl⟩) fuel answers
    (fun _ _ _ _ _ h => h.trans ⟨rfl, rfl, rfl, rfl⟩) (.refl s)).1

variable (keccak zero) in
/-- **A poll** fails no assertion, keeps the invariant, and yields an attestation that continues the
finalized point. -/
theorem StreamAttestation.Sound.pollNext (h : s.Sound source) (fuel : ℕ) (answers : List Answers) :
    pollNext keccak zero source fuel s answers ≠ .panicked ∧
      (pollNext keccak zero source fuel s answers).All
        (Sound source) ∧
      ∀ x s', pollNext keccak zero source fuel s answers = .done x s' →
        x.Continues keccak source s := by
  induction fuel generalizing s answers with
  | zero => exact ⟨nofun, trivial, nofun⟩
  | succ fuel ih =>
    have hsettle := h.settle
    have hkeeps := keeps_settle s
    unfold pollNext
    dsimp only
    split
    · next hstart =>
      obtain ⟨x, heq, hx⟩ := hsettle.produce keccak zero hstart
        (le_cursor_settle hstart)
      rw [heq]
      refine ⟨nofun, { hsettle with cursor_le := ?_ }, fun x' s' hdone => ?_⟩
      · exact hsettle.cursor_le.imp (Nat.sub_le_of_le_add <| Nat.le_add_right_of_le ·)
          (Nat.sub_le_of_le_add <| Nat.le_add_right_of_le ·)
      · cases hdone
        exact hx.of_keeps hkeeps
    · split
      · exact ⟨nofun, hsettle, nofun⟩
      · have hfetching : Sound source { s.settle with fetching := true } :=
          { hsettle with }
        obtain ⟨hfetch, hne⟩ := fetch_invariant (fun _ h => h.takeRoot)
          s.settle.nextTip answers (fun _ _ tip _ _ h => h.takeTip tip) hfetching
        have hkept := keeps_fetch source s.settle.nextTip answers
          { s.settle with fetching := true }
        split
        · next rest s₂ heq =>
          rw [heq] at hfetch hkept
          obtain ⟨htip, hmissing⟩ := fetch_eq_done heq
          have hadvance : Sound source
              (StreamAttestation.advance { s₂ with fetching := false }) :=
            Sound.advance { hfetch with }
              (hsettle.nextTip_pos.trans_le htip) hmissing
          have hsame : Keeps s
              (StreamAttestation.advance { s₂ with fetching := false }) :=
            hkeeps.trans ⟨hkept.chainKey_eq, hkept.interval_eq, hkept.catchup_eq, hkept.prev_eq⟩
          rw [if_pos hfetch.cache_le]
          obtain ⟨hpanic, hall, hdone⟩ := ih hadvance rest
          exact ⟨hpanic, hall, fun x s' hx => (hdone x s' hx).of_keeps hsame⟩
        · next s₂ heq =>
          rw [heq] at hfetch
          exact ⟨nofun, hfetch, nofun⟩
        · next s₂ heq =>
          rw [heq] at hfetch
          exact ⟨nofun, hfetch, nofun⟩
        · next heq => exact absurd heq hne
        · exact ⟨nofun, trivial, nofun⟩

end Produced

end Creditcoin.Attestor
