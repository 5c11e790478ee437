import Creditcoin.Attestor.Gossip
import Creditcoin.Attestor.StreamBound

/-!
# Production and admission

The heights for which the stream produces, those that the vote pool admits, and those for which
early votes are kept agree as long as the finalized points lie on the grid of the interval, the
interval is more than one block, and the chain is not reverted below the height at which the
attestor started (`produced_admissible`). Off the grid the stream produces at the bound on catching
up, and no early vote is kept for it; the cache of the stream has room for one root more than the
bound, so it may produce one height above the window of the pool
(`exists_produced_inadmissible`). -/

namespace Creditcoin.Attestor

variable {H : Type} {source : ℕ → H × H}

/-! ## Streams on the grid -/

/-- A tip is a block number. -/
def Answers.InRange (answer : Answers) : Prop := ∀ tip, answer.tip = .ready tip → tip < 2 ^ 64

namespace StreamAction

/-- The tips that are answered are block numbers. -/
def TipsInRange : StreamAction H → Prop
  | .poll _ answers => ∀ answer ∈ answers, answer.InRange
  | _ => True

/-- The settings stay, the points are on the grid of the interval, and no reversion goes below the
start. -/
def OnGrid (i : ℕ+) (startHeight : ℕ) : StreamAction H → Prop
  | .poll _ _ => True
  | .finalized info => (i : ℕ) ∣ info.height
  | .reverted info => (i : ℕ) ∣ info.height ∧ startHeight ≤ info.height + 1
  | .settings _ => False

end StreamAction

namespace StreamAttestation

variable {i m : ℕ+} {s s' : StreamAttestation H}

/-- All heights of the stream are on the grid. -/
structure Aligned (i m : ℕ+) (s : StreamAttestation H) : Prop where
  interval_eq : s.attestationInterval = i
  catchup_eq : s.maxCatchup = alignedCatchup i m
  prev_dvd : (i : ℕ) ∣ s.prevHeight
  start_dvd : (i : ℕ) ∣ s.computedStart
  end_dvd : (i : ℕ) ∣ s.computedEnd
  cursor_dvd : (i : ℕ) ∣ s.cursor
  tip_dvd : (i : ℕ) ∣ s.tip
  tip_le : s.tip ≤ u64Max

theorem dvd_alignedCatchup (hi : (i : ℕ) ≤ u64Max) (hm : (m : ℕ) ≤ u64Max) :
    (i : ℕ) ∣ alignedCatchup i m := by
  rw [alignedCatchup_eq hi hm]
  exact dvd_mul_right _ _

theorem aligned_new {k : ChainKey} {maxCatchup : ℕ+} {prev : AttestationInfo H} {start : ℕ}
    (hcatchup : alignedCatchup i maxCatchup = alignedCatchup i m) (hprev : (i : ℕ) ∣ prev.height) :
    (new k i maxCatchup prev start).Aligned i m :=
  ⟨rfl, hcatchup, hprev, hprev, hprev, dvd_zero _, dvd_zero _, Nat.zero_le _⟩

namespace Aligned

theorem settle (h : s.Aligned i m) : s.settle.Aligned i m := by
  unfold StreamAttestation.settle
  split
  · exact { h with cursor_dvd := h.start_dvd }
  · exact h

theorem takeTip (h : s.Aligned i m) {tip : ℕ} (htip : tip < 2 ^ 64) :
    (s.takeTip tip).Aligned i m := by
  have hinterval := h.interval_eq
  refine { h with tip_dvd := ?_, tip_le := ?_ }
  · show (i : ℕ) ∣ tip - tip % s.attestationInterval
    rw [hinterval]
    exact Nat.dvd_sub_mod tip
  · show tip - tip % s.attestationInterval ≤ u64Max
    unfold u64Max
    omega

theorem dvd_stop (h : s.Aligned i m) (hcatchup : (i : ℕ) ∣ alignedCatchup i m) :
    (i : ℕ) ∣ s.stop := by
  have htip := h.tip_le
  have hsum : (i : ℕ) ∣ s.computedStart + s.maxCatchup := by
    rw [h.catchup_eq]
    exact h.start_dvd.add hcatchup
  unfold stop satAdd
  rcases le_total (s.computedStart + s.maxCatchup) u64Max with hle | hle
  · rw [min_eq_left hle]
    rcases min_choice (s.computedStart + s.maxCatchup) s.tip with heq | heq
    · rwa [heq]
    · rw [heq]
      exact h.tip_dvd
  · rw [min_eq_right hle, min_eq_right htip]
    exact h.tip_dvd

theorem advance (h : s.Aligned i m) (hcatchup : (i : ℕ) ∣ alignedCatchup i m) :
    s.advance.Aligned i m :=
  { h with
    start_dvd := h.end_dvd
    end_dvd := h.dvd_stop hcatchup
    cursor_dvd := h.dvd_stop hcatchup }

theorem produced (h : s.Aligned i m) :
    Aligned i m { s with cursor := s.cursor - s.attestationInterval } := by
  refine { h with cursor_dvd := ?_ }
  show (i : ℕ) ∣ s.cursor - s.attestationInterval
  rw [h.interval_eq]
  exact Nat.dvd_sub h.cursor_dvd dvd_rfl

theorem noteAttestationFinalization (h : s.Aligned i m) {info : AttestationInfo H}
    (hinfo : (i : ℕ) ∣ info.height) : (s.noteAttestationFinalization info).Aligned i m := by
  unfold StreamAttestation.noteAttestationFinalization
  split
  · have hmax : (i : ℕ) ∣ max info.height s.computedEnd := by
      rcases max_choice info.height s.computedEnd with heq | heq
      · rwa [heq]
      · rw [heq]
        exact h.end_dvd
    exact { h with prev_dvd := hinfo, start_dvd := hinfo, end_dvd := hmax, cursor_dvd := hmax }
  · exact h

theorem pollNext (h : s.Aligned i m) (hcatchup : (i : ℕ) ∣ alignedCatchup i m)
    (keccak : ℕ → H → Option H → H) (zero : H) (fuel : ℕ) {answers : List Answers}
    (hanswers : ∀ answer ∈ answers, answer.InRange) :
    (StreamAttestation.pollNext keccak zero source fuel s answers).All (Aligned i m) ∧
      ∀ x s', StreamAttestation.pollNext keccak zero source fuel s answers = .done x s' →
        (i : ℕ) ∣ x.data.headerNumber := by
  obtain ⟨hall, hdone⟩ := pollNext_invariant (P := Aligned i m) source keccak zero
    (fun _ => settle) (fun _ _ h => { h with }) (fun _ h _ _ => { h with })
    (fun _ h => h.advance hcatchup) (fun _ => produced) fuel answers
    (fun answer hmem tip htip _ h => h.takeTip (hanswers answer hmem tip htip)) h
  refine ⟨hall, fun x s' hx => ?_⟩
  obtain ⟨s₁, hs₁, heq⟩ := hdone x s' hx
  rw [heq]
  exact hs₁.cursor_dvd

end Aligned

/-! ## Runs on the grid -/

/-- The stream builds on the point `prev`, on the grid, and not below the start. -/
structure Admits (source : ℕ → H × H) (i m : ℕ+) (startHeight : ℕ) (prev : AttestationInfo H)
    (s : StreamAttestation H) : Prop where
  sound : s.Sound source
  aligned : s.Aligned i m
  prev_eq : s.attestationPrev = prev
  start_le : startHeight ≤ prev.height + 1

section Run

variable {startHeight : ℕ} {prev : AttestationInfo H} {keccak : ℕ → H → Option H → H} {zero : H}
  (hi : (i : ℕ) ≤ u64Max) (hm : (m : ℕ) ≤ u64Max)

include hi hm

theorem Admits.step (h : s.Admits source i m startHeight prev) {action : StreamAction H}
    (htips : action.TipsInRange) (hgrid : action.OnGrid i startHeight)
    (hstep : StreamAttestation.step keccak zero source s action = some s') :
    s'.Admits source i m startHeight (action.point prev) := by
  obtain rfl := h.prev_eq
  cases action with
  | poll fuel answers =>
    obtain ⟨-, hsound, -⟩ := h.sound.pollNext keccak zero fuel answers
    have haligned : (pollNext keccak zero source fuel s answers).All (Aligned i m) :=
      (h.aligned.pollNext (dvd_alignedCatchup hi hm) keccak zero fuel htips).1
    have hkeeps := (keeps_pollNext keccak zero source fuel s answers).of_step hstep
    exact ⟨hsound.of_step hstep, haligned.of_step hstep, hkeeps.prev_eq, h.start_le⟩
  | finalized info =>
    cases hstep
    refine ⟨h.sound.noteAttestationFinalization info,
      h.aligned.noteAttestationFinalization hgrid, ?_, ?_⟩
    · show (s.noteAttestationFinalization info).attestationPrev = if _ then _ else _
      unfold noteAttestationFinalization
      split <;> rfl
    · have hstart := h.start_le
      show startHeight ≤ (if s.attestationPrev.height ≤ info.height then info
        else s.attestationPrev).height + 1
      split <;> omega
  | reverted info =>
    cases hstep
    refine ⟨h.sound.noteAttestationChainReversion info, ?_, rfl, hgrid.2⟩
    rw [noteAttestationChainReversion, h.aligned.interval_eq, h.aligned.catchup_eq]
    exact aligned_new (alignedCatchup_self hi hm) hgrid.1
  | settings event => exact hgrid.elim

theorem Admits.run (h : s.Admits source i m startHeight prev) {actions : List (StreamAction H)}
    (htips : ∀ action ∈ actions, action.TipsInRange)
    (hgrid : ∀ action ∈ actions, action.OnGrid i startHeight)
    (hrun : StreamAttestation.run keccak zero source s actions = some s') :
    s'.Admits source i m startHeight (lastPoint prev actions) := by
  induction actions generalizing s prev with
  | nil =>
    cases hrun
    exact h
  | cons action actions ih =>
    obtain ⟨s₁, hstep, hrun⟩ := Option.bind_eq_some_iff.1 hrun
    obtain ⟨htip, htips⟩ := List.forall_mem_cons.1 htips
    obtain ⟨hpoint, hgrid⟩ := List.forall_mem_cons.1 hgrid
    exact ih (h.step hi hm htip hpoint hstep) htips hgrid hrun

theorem Admits.headerNumber_le (h : s.Admits source i m startHeight prev) (hone : 1 < (i : ℕ))
    {x : Produced H} (hx : x.Continues keccak source s) (hdvd : (i : ℕ) ∣ x.data.headerNumber) :
    x.data.headerNumber ≤ prev.height + max (m : ℕ) i := by
  obtain rfl := h.prev_eq
  have hlen := hx.len_le
  rw [ContinuityProof.len, hx.roots_eq, List.length_map, List.length_range',
    h.aligned.catchup_eq] at hlen
  have hcatchup := alignedCatchup_le i m
  have hsum : (i : ℕ) ∣ s.prevHeight + alignedCatchup i m :=
    h.aligned.prev_dvd.add (dvd_alignedCatchup hi hm)
  -- One block above the bound is not on the grid.
  have hne : x.data.headerNumber ≠ s.prevHeight + alignedCatchup i m + 1 := by
    intro heq
    rw [heq] at hdvd
    have hdvd_one := (Nat.dvd_add_right hsum).1 hdvd
    exact absurd (Nat.dvd_one.1 hdvd_one) (Nat.ne_of_gt hone)
  show x.data.headerNumber ≤ s.prevHeight + max (m : ℕ) i
  omega

end Run

end StreamAttestation

/-! ## Admission -/

/-- **What is produced is admitted.** Let the interval be more than one block and let all finalized
points be on its grid, none below the start by a reversion. Then each height for which the stream
produces an attestation is admissible to the vote pool while the last point is the finalized one,
and an early vote for it is kept. -/
theorem produced_admissible (keccak : ℕ → H → Option H → H) (zero : H) (source : ℕ → H × H)
    (k : ChainKey) (target : ℕ+) (genesis startHeight : ℕ) {i m : ℕ+} {prev : AttestationInfo H}
    {actions : List (StreamAction H)} {s s' : StreamAttestation H} {fuel : ℕ}
    {answers : List Answers} {x : Produced H}
    -- The interval, the bound and the tips are 64-bit numbers.
    (hi : (i : ℕ) ≤ u64Max) (hm : (m : ℕ) ≤ u64Max)
    (htips : ∀ action ∈ actions, action.TipsInRange) (hanswers : ∀ answer ∈ answers, answer.InRange)
    (hone : 1 < (i : ℕ)) (hprev : (i : ℕ) ∣ prev.height) (hstart : startHeight ≤ prev.height + 1)
    (hgrid : ∀ action ∈ actions, action.OnGrid i startHeight)
    (hrun : (StreamAttestation.new k i m prev startHeight).run keccak zero source actions = some s)
    (hpoll : s.pollNext keccak zero source fuel answers = .done x s') :
    let finalized := (lastPoint prev actions).height
    (ValidateQuorum.mk target i startHeight m).heightAdmissible x.data.headerNumber
        (some finalized) = true ∧
      isBufferable x.data.headerNumber genesis i m (some finalized) startHeight = true := by
  intro finalized
  have hadmits :
      (StreamAttestation.new k i m prev startHeight).Admits source i m startHeight prev :=
    ⟨StreamAttestation.sound_new hi hstart, StreamAttestation.aligned_new rfl hprev, rfl, hstart⟩
  have h := hadmits.run hi hm htips hgrid hrun
  have hx := (h.sound.pollNext keccak zero fuel answers).2.2 x s' hpoll
  have hdvd := (h.aligned.pollNext (StreamAttestation.dvd_alignedCatchup hi hm) keccak zero fuel
    hanswers).2 x s' hpoll
  have hle := h.headerNumber_le hi hm hone hx hdvd
  have hlt : finalized < x.data.headerNumber := by
    have habove := hx.lt
    rwa [StreamAttestation.prevHeight, h.prev_eq] at habove
  have hlow : startHeight ≤ x.data.headerNumber := h.start_le.trans hlt
  have hupper : x.data.headerNumber ≤ satAdd u64Max finalized (max (m : ℕ) i) := by
    refine le_min hle ?_
    have hlt := x.data.headerNumber_lt
    unfold u64Max
    omega
  constructor
  · simp only [ValidateQuorum.heightAdmissible, Option.getD_some, Bool.and_eq_true,
      decide_eq_true_eq]
    exact ⟨⟨hlt, hlow⟩, hupper⟩
  · rw [isBufferable, if_neg fun hoff => hoff.2 (Nat.mod_eq_zero_of_dvd hdvd)]
    simp only [Bool.and_eq_true, decide_eq_true_eq]
    exact ⟨hlt, hupper⟩

/-- A node starts above block `2` with the interval `2` and the bound `4`. When block `4` is
finalized and the tip is `9`, it produces an attestation of block `8`. -/
theorem eighth_admissible :
    ∃ s s' x, (StreamAttestation.new (H := ℕ) 1 2 4 ⟨2, 0, by decide⟩ 3).run (fun n _ _ => n) 0
        (fun n => (n, n)) [.finalized ⟨4, 0, by decide⟩] = some s ∧
      s.pollNext (fun n _ _ => n) 0 (fun n => (n, n)) 2
        (List.replicate 6 ⟨.ready (), .ready 9⟩) = .done x s' ∧
      x.data.headerNumber = 8 ∧
      (ValidateQuorum.mk 3 2 3 4).heightAdmissible x.data.headerNumber (some 4) = true ∧
      isBufferable x.data.headerNumber 0 2 4 (some 4) 3 = true := by
  have hrun : (StreamAttestation.new (H := ℕ) 1 2 4 ⟨2, 0, by decide⟩ 3).run (fun n _ _ => n) 0
      (fun n => (n, n)) [.finalized ⟨4, 0, by decide⟩] = some _ := rfl
  have hpoll : ((StreamAttestation.new 1 2 4 ⟨2, 0, by decide⟩ 3).noteAttestationFinalization
      ⟨4, 0, by decide⟩).pollNext (fun n _ _ => n) 0 (fun n => (n, n)) 2
        (List.replicate 6 ⟨.ready (), .ready 9⟩) = .done _ _ := rfl
  refine ⟨_, _, _, hrun, hpoll, rfl, ?_⟩
  refine produced_admissible (fun n _ _ => n) 0 (fun n => (n, n)) 1 3 0 3 (by decide) (by decide)
    ?_ ?_ (by decide) (by decide) (by decide) ?_ hrun hpoll
  · intro action hmem
    obtain rfl := List.mem_singleton.1 hmem
    trivial
  · intro answer hmem tip htip
    obtain rfl := List.eq_of_mem_replicate hmem
    cases htip
    decide
  · intro action hmem
    obtain rfl := List.mem_singleton.1 hmem
    exact (by decide : 2 ∣ 4)

/-- A chain starts at block `9`, with the interval `10` and the bound `10`. With the tip `20` a node
produces block `19`, of which it would keep no early vote. It then produces block `20`, which no
pool admits. -/
theorem exists_produced_inadmissible :
    ∃ s₁ s₂ x₁ x₂, (StreamAttestation.new (H := ℕ) 1 10 10 ⟨9, 0, by decide⟩ 10).pollNext
        (fun n _ _ => n) 0 (fun n => (n, n)) 2 (List.replicate 12 ⟨.ready (), .ready 20⟩) =
          .done x₁ s₁ ∧
      s₁.pollNext (fun n _ _ => n) 0 (fun n => (n, n)) 3
        (List.replicate 2 ⟨.ready (), .ready 20⟩) = .done x₂ s₂ ∧
      x₁.data.headerNumber = 19 ∧ isBufferable 19 9 10 10 (some 9) 10 = false ∧
      x₂.data.headerNumber = 20 ∧
        (ValidateQuorum.mk 2 10 10 10).heightAdmissible 20 (some 9) = false :=
  ⟨_, _, _, _, rfl, rfl, rfl, rfl, rfl, rfl⟩

end Creditcoin.Attestor
