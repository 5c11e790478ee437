import Creditcoin.Attestation.Histories

/-!
# The heights of accepted attestations

As long as a chain is neither reverted nor patched, its last digest is that of the attestation
accepted last, and the heights of accepted attestations go up by at least the interval
(`accepted_spaced`). The sum that is compared saturates, so the greatest height may be attested from
closer by (`exists_accepted_close`). -/

namespace Creditcoin

variable {H A B : Type} [DecidableEq H] [DecidableEq A] (T : Config H A B)

/-! ## The attestations of a run -/

/-- The attestations that a run adds to a chain, in that order. -/
def acceptedCommits (k : ChainKey) :
    State H A B → List (Action T) → List (SignedAttestation H A)
  | _, [] => []
  | s, act :: acts => (acceptedCommit T k s act).toList ++ acceptedCommits k (step T s act) acts

variable {T} {s : State H A B} {k : ChainKey}

theorem acceptedCommits_append (s : State H A B) (acts acts' : List (Action T)) :
    acceptedCommits T k s (acts ++ acts') =
      acceptedCommits T k s acts ++ acceptedCommits T k (run T s acts) acts' := by
  induction acts generalizing s with
  | nil => rfl
  | cons act acts ih =>
    rw [List.cons_append, acceptedCommits, acceptedCommits, ih, List.append_assoc]
    rfl

theorem acceptedCommits_singleton (s : State H A B) (act : Action T) :
    acceptedCommits T k s [act] = (acceptedCommit T k s act).toList := List.append_nil _

/-- The action is neither a revert of the chain nor a forward patch. -/
def Action.forward (k : ChainKey) : Action T → Bool
  | .call _ _ (.revertTo k' _) => k' ≠ k
  | .call _ _ (.forwardPatchCheckpoints k' _ _) => k' ≠ k
  | _ => true

theorem lastDigest_step (hreach : Reachable T s) {act : Action T}
    (hforward : act.forward k = true) (hlive : (step T s act).Live k) :
    (∃ att, acceptedCommit T k s act = some att ∧
        Accepted T (s.isChainSupported k) s.blockNumber (s.chain T k) att ∧
        ((step T s act).chain T k).anchors.lastDigest =
          some (att.headerNumber, att.digest T.keccak)) ∨
      (acceptedCommit T k s act = none ∧
        ((step T s act).chain T k).anchors.lastDigest = (s.chain T k).anchors.lastDigest) := by
  obtain ⟨hlive₀, hmove⟩ := step_chainMove hreach.keysBelow hlive
  have hwf := wellFormed_of_live hreach hlive₀
  generalize (step T s act).chain T k = c at hmove
  cases hmove with
  | @commit att a n hact hcommit =>
    obtain ⟨haccepted, cps, popped, kept, i, rfl, -⟩ :=
      doCommitAttestation_effect hwf.bounded hwf.tracked.proofsBounded hcommit
    refine .inl ⟨att, hact, haccepted, ?_⟩
    rw [storeAttestation_eq (T := T) _ haccepted.above_digest]
    rfl
  | operator hnone hact h =>
    cases h with
    | imports himport =>
      obtain ⟨-, cps, last, rfl, -⟩ := doImportCheckpoints_effect himport
      exact .inr ⟨hnone, rfl⟩
    | revert => simp [hact, Action.forward] at hforward
    | patch => simp [hact, Action.forward] at hforward
  | idle hnone hidle => exact .inr ⟨hnone, (swept_of_idle hwf hidle).2.lastDigest_eq⟩

/-- **The attestation accepted last is that of the last digest**, and those before it are lower. -/
theorem acceptedCommits_run (hreach : Reachable T s) (acts : List (Action T))
    (hforward : ∀ act ∈ acts, act.forward k = true) (hlive : (run T s acts).Live k) :
    ((acceptedCommits T k s acts).map (·.headerNumber)).Pairwise (· < ·) ∧
      ∀ att ∈ (acceptedCommits T k s acts).getLast?,
        ((run T s acts).chain T k).anchors.lastDigest =
          some (att.headerNumber, att.digest T.keccak) := by
  induction acts using List.reverseRecOn with
  | nil => exact ⟨List.Pairwise.nil, by simp [acceptedCommits]⟩
  | append_singleton acts act ih =>
    rw [run_append, run_singleton] at hlive ⊢
    have hreach₁ := hreach.run acts
    obtain ⟨hsorted, hlast⟩ := ih (fun act' h => hforward act' (List.mem_append_left _ h))
      (step_chain hreach₁.keysBelow hlive).1
    rw [acceptedCommits_append, acceptedCommits_singleton]
    rcases lastDigest_step hreach₁ (hforward act (by simp)) hlive with
      ⟨att, hatt, haccepted, hdigest⟩ | ⟨hnone, hdigest⟩
    · rw [hatt, Option.toList_some, List.getLast?_concat]
      refine ⟨?_, fun att' hatt' => ?_⟩
      · rw [List.map_append, List.pairwise_append]
        refine ⟨hsorted, List.pairwise_singleton _ _, fun x hx y hy => ?_⟩
        obtain rfl := List.mem_singleton.1 hy
        rcases hprev : (acceptedCommits T k s acts).getLast? with _ | prev
        · rw [List.getLast?_eq_none_iff.1 hprev] at hx
          cases hx
        · have hlt := haccepted.above_digest _ (hlast prev hprev)
          obtain ⟨front, hfront⟩ := List.getLast?_eq_some_iff.1 hprev
          rw [hfront, List.map_append, List.pairwise_append] at hsorted
          rw [hfront, List.map_append] at hx
          rcases List.mem_append.1 hx with hmem | hmem
          · exact (hsorted.2.2 x hmem prev.headerNumber (by simp)).trans hlt
          · rw [List.mem_singleton.1 hmem]
            exact hlt
      · obtain rfl := Option.mem_some_iff.1 hatt'
        exact hdigest
    · rw [hnone, Option.toList_none, List.append_nil, hdigest]
      exact ⟨hsorted, hlast⟩

/-- An attestation that was accepted away from the genesis height is within reach of a proof from
the last finalized point. -/
theorem Accepted.le_lastFinalized {supported : Bool} {now : ℕ} {c : Chain H A}
    {att : SignedAttestation H A} (hlinked : c.anchors.Linked)
    (h : Accepted T supported now c att)
    (hgenesis : att.headerNumber ≠ c.settings.attestationChainGenesisBlockNumber) :
    ∃ n d, c.anchors.lastFinalized = some (n, d) ∧
      att.headerNumber ≤ n + max c.settings.maxCatchup c.settings.chainAttestationInterval + 1 := by
  obtain ⟨-, m, d, hlink⟩ := h.continues.resolve_left fun hstart => hgenesis hstart.header_eq
  refine ⟨m, d, hlinked.lastFinalized_eq h.cursor_eq hlink, ?_⟩
  have hlen : att.continuityProof.len ≤
      max c.settings.maxCatchup c.settings.chainAttestationInterval :=
    hlink.len_le.trans (Nat.mod_le _ _)
  rw [hlink.header_eq]
  omega

/-- **Accepted attestations are spaced.** In a run that neither reverts nor patches a chain their
heights increase. Each one after the first is at least the interval above the one before it, unless
it is at the greatest height there is; and away from the genesis height it is within reach of a
proof from the last finalized point. -/
theorem accepted_spaced (hT : 0 < T.defaultAttestationRetentionDuration ∨ HeightBinding T.keccak)
    (hreach : Reachable T s) {acts : List (Action T)}
    (hsup : (run T s acts).isChainSupported k = true)
    (hforward : ∀ act ∈ acts, act.forward k = true) :
    ((acceptedCommits T k s acts).map (·.headerNumber)).Pairwise (· < ·) ∧
      ∀ pre act post att prev, acts = pre ++ act :: post →
        acceptedCommit T k (run T s pre) act = some att →
        (acceptedCommits T k s pre).getLast? = some prev →
        att.headerNumber ≠ ((run T s pre).chain T k).settings.attestationChainGenesisBlockNumber →
        (prev.headerNumber + ((run T s pre).chain T k).settings.chainAttestationInterval ≤
            att.headerNumber ∨ att.headerNumber = u64Max) ∧
          ∃ n d, ((run T s pre).chain T k).anchors.lastFinalized = some (n, d) ∧
            att.headerNumber ≤ n + max ((run T s pre).chain T k).settings.maxCatchup
              ((run T s pre).chain T k).settings.chainAttestationInterval + 1 := by
  refine ⟨(acceptedCommits_run hreach acts hforward (.inl hsup)).1, ?_⟩
  rintro pre act post att prev rfl hatt hprev hgenesis
  have hreach₁ := hreach.run pre
  have hlive : (step T (run T s pre) act).Live k := by
    refine live_of_run (keysBelow_step hreach₁.keysBelow act) post ?_
    rw [run_append, run_cons] at hsup
    exact .inl hsup
  have hlive₁ := (step_chain hreach₁.keysBelow hlive).1
  obtain ⟨-, hlast⟩ := acceptedCommits_run hreach pre
    (fun act' h => hforward act' (List.mem_append_left _ h)) hlive₁
  rcases lastDigest_step hreach₁ (hforward act (by simp)) hlive with
    ⟨att', hatt', haccepted, -⟩ | ⟨hnone, -⟩
  · obtain rfl : att' = att := Option.mem_unique hatt' hatt
    refine ⟨?_, haccepted.le_lastFinalized (linked_of_live hT hreach₁ hlive₁) hgenesis⟩
    have hspaced := haccepted.spaced _ (hlast prev hprev)
    have hlt := att'.headerNumber_lt
    unfold satAdd u64Max at hspaced
    unfold u64Max
    omega
  · rw [hnone] at hatt
    cases hatt

section Devnet

open Devnet

/-- A development network whose source chain starts just below the greatest height. -/
def nearTop : State Word ℕ Unit :=
  after (genesisConfig 10 10 [])
    [byRoot (.setAttestationChainGenesisBlockNumber 1 18446744073709551610)]

def firstNearTop : SignedAttestation Word ℕ := attestation 18446744073709551610 none ⟨.zero, []⟩

/-- On a development network the second attestation is an interval above the first. -/
theorem devnet_accepted_spaced :
    0 + ((started 10 10).chain config 1).settings.chainAttestationInterval ≤
      (nextAttestation (started 10 10) 12).headerNumber ∨
        (nextAttestation (started 10 10) 12).headerNumber = u64Max :=
  ((accepted_spaced (s := after (genesisConfig 10 10 []) []) (.inl (by decide))
    (reachable_after (by rfl) []) (by rfl) (by decide +kernel)).2
      [commit (attestation 0 none ⟨.zero, []⟩)] (commit (nextAttestation (started 10 10) 12)) []
      _ (attestation 0 none ⟨.zero, []⟩) rfl rfl (by rfl) (by decide +kernel)).1

/-- The greatest height is attested five blocks above the attestation before it, where the interval
is ten. -/
theorem exists_accepted_close :
    ∃ (s : State Word ℕ Unit) (pre : List (Action config)) (act : Action config)
      (att prev : SignedAttestation Word ℕ), Reachable config s ∧
      (run config s (pre ++ [act])).isChainSupported 1 = true ∧
      (∀ a ∈ pre ++ [act], a.forward 1 = true) ∧
      acceptedCommit config 1 (run config s pre) act = some att ∧
      (acceptedCommits config 1 s pre).getLast? = some prev ∧
      att.headerNumber ≠
        ((run config s pre).chain config 1).settings.attestationChainGenesisBlockNumber ∧
      att.headerNumber <
        prev.headerNumber +
          ((run config s pre).chain config 1).settings.chainAttestationInterval := by
  refine ⟨nearTop, [commit firstNearTop],
    commit (nextAttestation (run config nearTop [commit firstNearTop]) 18446744073709551615), _,
    firstNearTop, reachable_after (by rfl) _, by rfl, by decide +kernel, rfl,
    by rfl, by decide +kernel, by decide +kernel⟩

end Devnet

end Creditcoin
