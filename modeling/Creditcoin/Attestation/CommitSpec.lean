import Creditcoin.Attestation.CheckpointingSpec

/-!
# What a commit does

`doCommitAttestation_cases`: what an accepted attestation satisfies, and whether it started the
chain, was checkpointed at once together with the queue, or was queued. `Attests` collects the
digests it gives to blocks. -/

namespace Creditcoin

variable {H A B : Type}

/-! ## The digests of an attestation -/

section Attests

variable {keccak : ℕ → H → Option H → H}

/-- The attestation gives the digest `e` to the block `y`: its own header, or a block of its
proof. -/
def SignedAttestation.Attests (keccak : ℕ → H → Option H → H) (att : SignedAttestation H A)
    (y : ℕ) (e : H) : Prop :=
  (y = att.headerNumber ∧ e = att.digest keccak) ∨
    (y, e) ∈ att.continuityProof.blockDigests keccak
      (att.continuityProof.startBlockNumber att.headerNumber)

/-- The blocks from the start of the proof to the header. -/
def SignedAttestation.Covers (att : SignedAttestation H A) (y : ℕ) : Prop :=
  att.continuityProof.startBlockNumber att.headerNumber ≤ y ∧ y ≤ att.headerNumber

variable {y : ℕ}

theorem mem_digestsFrom {s : ℕ} {d : H} {roots : List H} {e : H} :
    (y, e) ∈ ContinuityProof.digestsFrom keccak s d roots ↔
      ∃ i < roots.length, y = s + i ∧
        e = HashChain.foldFrom (hashPayload keccak) s d (roots.take (i + 1)) := by
  induction roots generalizing s d with
  | nil => simp [ContinuityProof.digestsFrom]
  | cons r roots ih =>
    simp only [ContinuityProof.digestsFrom, List.mem_cons, Prod.mk.injEq, ih, List.length_cons,
      List.take_succ_cons, HashChain.foldFrom_cons]
    constructor
    · rintro (⟨rfl, rfl⟩ | ⟨i, hi, rfl, rfl⟩)
      · exact ⟨0, by omega, rfl, by simp⟩
      · exact ⟨i + 1, by omega, by omega, rfl⟩
    · rintro ⟨i, hi, rfl, rfl⟩
      rcases i with _ | i
      · exact .inl ⟨rfl, by simp⟩
      · exact .inr ⟨i, by omega, by omega, rfl⟩

/-- On a proof of admissible length, reading the digest of one block is reading it in the list of
all of them. -/
theorem digestForBlock_eq_some {p : ContinuityProof H} {s : ℕ} {e : H} (hlen : p.len < 2 ^ 32)
    (hy : y < s + p.len) :
    p.digestForBlock keccak s y = some e ↔ (y, e) ∈ p.blockDigests keccak s := by
  rw [ContinuityProof.blockDigests, mem_digestsFrom]
  unfold ContinuityProof.digestForBlock ContinuityProof.digestAt
  unfold ContinuityProof.len at hlen hy
  split
  · next hlt =>
    simp only [reduceCtorEq, false_iff, not_exists, not_and]
    omega
  · next hge =>
    have hsize : asUsize (y - s) = y - s := asUsize_of_lt (by omega)
    rw [hsize, if_neg (by omega), Option.some.injEq]
    constructor
    · rintro rfl
      exact ⟨y - s, by omega, by omega, rfl⟩
    · rintro ⟨i, -, rfl, rfl⟩
      rw [Nat.add_sub_cancel_left]

variable {att : SignedAttestation H A}

theorem SignedAttestation.Attests.covers {e : H} (hlen : att.continuityProof.len ≤ att.headerNumber)
    (h : att.Attests keccak y e) : att.Covers y := by
  unfold Covers ContinuityProof.startBlockNumber
  unfold ContinuityProof.len at hlen
  rcases h with ⟨rfl, -⟩ | h
  · omega
  · obtain ⟨i, hi, rfl, -⟩ := mem_digestsFrom.1 h
    unfold ContinuityProof.startBlockNumber
    omega

theorem SignedAttestation.Attests.exists_keccak {e : H} (h : att.Attests keccak y e) :
    ∃ root prev, e = keccak y root prev := by
  rcases h with ⟨rfl, rfl⟩ | h
  · exact ⟨_, _, rfl⟩
  · obtain ⟨i, hi, rfl, rfl⟩ := mem_digestsFrom.1 h
    rw [List.take_succ_eq_append_getElem hi, HashChain.foldFrom_append, List.length_take,
      min_eq_left hi.le]
    exact ⟨_, _, rfl⟩

variable (keccak) in
theorem SignedAttestation.Covers.attests (h : att.Covers y) : ∃ e, att.Attests keccak y e := by
  obtain ⟨hs, hy⟩ := h
  rcases Nat.lt_or_eq_of_le hy with hlt | rfl
  · refine ⟨_, .inr (mem_digestsFrom.2
      ⟨y - att.continuityProof.startBlockNumber att.headerNumber, ?_, by omega, rfl⟩)⟩
    unfold ContinuityProof.startBlockNumber at hs ⊢
    omega
  · exact ⟨_, .inl ⟨rfl, rfl⟩⟩

end Attests

variable [DecidableEq H]

/-! ## The digests known when catching up -/

section BoundaryDigests

variable {T : Config H A B} {a : Anchors H A} {att : SignedAttestation H A}

/-- A queued digest, with the attestation stored under it. -/
def Anchors.Queued (a : Anchors H A) (queue : List H) (q : SignedAttestation H A) : Prop :=
  ∃ d ∈ queue, a.attestations.lookup d = some q

variable {y : ℕ}

theorem attests_of_lookup_addQueuedDigests {m : StorageMap ℕ H} {d : H} {e : H}
    (h : (addQueuedDigests T a m d).lookup y = some e) :
    m.lookup y = some e ∨ ∃ q, a.attestations.lookup d = some q ∧ q.Attests T.keccak y e := by
  unfold addQueuedDigests at h
  split at h
  · exact .inl h
  · next q hq =>
    rcases StorageMap.mem_of_lookup_orInsertAll h with hmem | hlookup
    · exact .inr ⟨q, hq, .inr hmem⟩
    · rw [StorageMap.lookup_orInsert] at hlookup
      split at hlookup
      · next hy =>
        rcases hm : m.lookup y with _ | e'
        · rw [hm] at hlookup
          exact .inr ⟨q, hq, .inl ⟨hy, (Option.some.inj hlookup).symm⟩⟩
        · rw [hm] at hlookup
          exact .inl hlookup
      · exact .inl hlookup

theorem isSome_lookup_addQueuedDigests {m : StorageMap ℕ H} {d : H}
    (h : (m.lookup y).isSome = true ∨ ∃ q, a.attestations.lookup d = some q ∧ q.Covers y) :
    ((addQueuedDigests T a m d).lookup y).isSome = true := by
  unfold addQueuedDigests
  split
  · next hd => exact h.resolve_right fun ⟨q, hq, _⟩ => by simp [hd] at hq
  · next q hd =>
    rw [StorageMap.isSome_lookup_orInsertAll, StorageMap.lookup_orInsert]
    rcases h with hm | ⟨q', hq', hcov⟩
    · refine .inr ?_
      split
      · rfl
      · exact hm
    · obtain rfl : q = q' := Option.mem_unique hd hq'
      obtain ⟨e, ⟨hy, -⟩ | he⟩ := hcov.attests T.keccak
      · exact .inr (by rw [if_pos hy]; rfl)
      · exact .inl ⟨e, he⟩

theorem attests_of_lookup_boundaryDigests {queue : List H} {e : H}
    (h : (boundaryDigests T a att (att.digest T.keccak) queue).lookup y = some e) :
    att.Attests T.keccak y e ∨ ∃ q, a.Queued queue q ∧ q.Attests T.keccak y e := by
  have hfold : ∀ (queue : List H) (m : StorageMap ℕ H),
      (queue.foldl (addQueuedDigests T a) m).lookup y = some e →
      m.lookup y = some e ∨ ∃ q, a.Queued queue q ∧ q.Attests T.keccak y e := by
    intro queue
    induction queue with
    | nil => exact fun m h => .inl h
    | cons d queue ih =>
      intro m h
      rcases ih _ h with hm | ⟨q, ⟨d', hd', hq⟩, hatt⟩
      · rcases attests_of_lookup_addQueuedDigests hm with hm | ⟨q, hq, hatt⟩
        · exact .inl hm
        · exact .inr ⟨q, ⟨d, List.mem_cons_self, hq⟩, hatt⟩
      · exact .inr ⟨q, ⟨d', List.mem_cons_of_mem _ hd', hq⟩, hatt⟩
  refine (hfold queue _ h).imp_left fun hown => ?_
  rw [StorageMap.lookup_insert_eq] at hown
  split at hown
  · next hy => exact .inl ⟨hy, (Option.some.inj hown).symm⟩
  · rcases StorageMap.mem_of_lookup_insertAll hown with hmem | hnone
    · exact .inr hmem
    · simp at hnone

theorem isSome_lookup_boundaryDigests {queue : List H} {d : H}
    (h : att.Covers y ∨ ∃ q, a.Queued queue q ∧ q.Covers y) :
    ((boundaryDigests T a att d queue).lookup y).isSome = true := by
  have hfold : ∀ (queue : List H) (m : StorageMap ℕ H),
      (m.lookup y).isSome = true ∨ (∃ q, a.Queued queue q ∧ q.Covers y) →
      ((queue.foldl (addQueuedDigests T a) m).lookup y).isSome = true := by
    intro queue
    induction queue with
    | nil => exact fun m h => h.resolve_right fun ⟨q, ⟨d, hd, _⟩, _⟩ => by simp at hd
    | cons d queue ih =>
      intro m h
      refine ih _ ?_
      rcases h with hm | ⟨q, ⟨d', hd', hq⟩, hcov⟩
      · exact .inl (isSome_lookup_addQueuedDigests (.inl hm))
      · rcases List.mem_cons.1 hd' with rfl | hmem
        · exact .inl (isSome_lookup_addQueuedDigests (.inr ⟨q, hq, hcov⟩))
        · exact .inr ⟨q, ⟨d', hmem, hq⟩, hcov⟩
  refine hfold queue _ (h.imp_left fun hcov => ?_)
  rw [StorageMap.lookup_insert_eq]
  split
  · rfl
  · next hy =>
    obtain ⟨e, he⟩ := hcov.attests T.keccak
    have hmem := he.resolve_left fun h => hy h.1
    exact StorageMap.isSome_lookup_insertAll.2 (.inl ⟨e, hmem⟩)

end BoundaryDigests

/-! ## The boundaries up to a height -/

section Ladder

variable {w head : ℕ} {n : ℕ}

theorem nextCheckpointBlock_of_le (h : n + w ≤ u64Max) :
    nextCheckpointBlock w n = nextBoundary w n := by
  rw [nextCheckpointBlock, satAdd_of_le h, nextBoundary]

theorem nextCheckpointBlock_le (w n : ℕ) : nextCheckpointBlock w n ≤ n + w :=
  (Nat.sub_le _ _).trans (satAdd_le _ _ _)

theorem nextCheckpointBlock_mod (w n : ℕ) : nextCheckpointBlock w n % w = 0 := by
  rw [nextCheckpointBlock, ← Nat.div_mul_self_eq_mod_sub_self, Nat.mul_mod_left]

theorem nextCheckpointBlock_of_lt (hw : 0 < w) (h : n < nextCheckpointBlock w n) :
    nextCheckpointBlock w n = nextBoundary w n := by
  rcases le_or_gt (n + w) u64Max with hle | hgt
  · exact nextCheckpointBlock_of_le hle
  · have hmod := nextCheckpointBlock_mod w n
    have hle := nextBoundary_le_of_lt hw hmod h
    refine (hle.antisymm ?_).symm
    by_contra hlt
    -- Two boundaries are at least one width apart, and the saturated sum is closer to `n`.
    have hstep := nextBoundary_le_of_lt hw hmod (not_le.1 hlt)
    rw [nextBoundary_of_mod_eq_zero (nextBoundary_mod w n)] at hstep
    have hsat : nextCheckpointBlock w n ≤ u64Max :=
      (Nat.sub_le _ _).trans (min_le_right _ _)
    have := lt_nextBoundary (n := n) hw
    omega

theorem nextCheckpointBlock_stuck (hw : 0 < w) (h : nextCheckpointBlock w n ≤ n) :
    nextCheckpointBlock w (nextCheckpointBlock w n) = nextCheckpointBlock w n := by
  have hgt : u64Max < n + w := by
    by_contra hle
    rw [nextCheckpointBlock_of_le (not_lt.1 hle)] at h
    exact absurd (lt_nextBoundary (n := n) hw) (not_lt.2 h)
  have hn : nextCheckpointBlock w n = u64Max - u64Max % w := by
    rw [nextCheckpointBlock, satAdd, min_eq_right hgt.le]
  have hgt' : u64Max < nextCheckpointBlock w n + w := by
    have := Nat.mod_lt u64Max hw
    have := Nat.mod_le u64Max w
    omega
  conv_lhs => rw [nextCheckpointBlock, satAdd, min_eq_right hgt'.le]
  exact hn.symm

/-- The checkpoints at all boundaries after `last` up to `head`. -/
inductive Ladder (w head : ℕ) : ℕ → List (AttestationCheckpoint H) → Prop
  | nil {last : ℕ} (h : head < nextCheckpointBlock w last) : Ladder w head last []
  | cons {last : ℕ} {c : AttestationCheckpoint H} {cps : List (AttestationCheckpoint H)}
      (hc : c.blockNumber = nextBoundary w last) (hle : c.blockNumber ≤ head)
      (hrest : Ladder w head c.blockNumber cps) : Ladder w head last (c :: cps)

/-- The height reached by a list of checkpoints from `last`. -/
def lastHeight (last : ℕ) (cps : List (AttestationCheckpoint H)) : ℕ :=
  (cps.getLast?.map (·.blockNumber)).getD last

omit [DecidableEq H]

theorem lastHeight_nil (last : ℕ) : lastHeight last ([] : List (AttestationCheckpoint H)) = last :=
  rfl

theorem lastHeight_cons (last : ℕ) (c : AttestationCheckpoint H)
    (cps : List (AttestationCheckpoint H)) :
    lastHeight last (c :: cps) = lastHeight c.blockNumber cps := by
  rw [lastHeight, lastHeight, List.getLast?_cons]
  cases cps.getLast? <;> rfl

theorem createCheckpointsLoop_stuck {digests : StorageMap ℕ H} (hhead : head < 2 ^ 64)
    (hn : nextCheckpointBlock w n = n) (hle : n ≤ head) (fuel : ℕ) (a : Anchors H A)
    (r : ℕ × Anchors H A) : createCheckpointsLoop w digests hhead fuel n a ≠ .ok r := by
  induction fuel generalizing a with
  | zero => simp [createCheckpointsLoop]
  | succ fuel ih =>
    rw [createCheckpointsLoop, dif_neg (by omega)]
    rcases hd : digests.lookup (nextCheckpointBlock w n) with _ | digest
    · simp
    · simp only [hn]
      exact ih _

theorem createCheckpointsLoop_ok {digests : StorageMap ℕ H} (hhead : head < 2 ^ 64) (hw : 0 < w)
    {fuel last last' : ℕ} {a a' : Anchors H A}
    (h : createCheckpointsLoop w digests hhead fuel last a = .ok (last', a')) :
    ∃ cps, Ladder w head last cps ∧ a' = cps.foldl Anchors.reachCheckpoint a ∧
      last' = lastHeight last cps ∧
      ∀ c ∈ cps, digests.lookup c.blockNumber = some c.digest := by
  induction fuel generalizing last a with
  | zero => simp [createCheckpointsLoop] at h
  | succ fuel ih =>
    by_cases hdone : head < nextCheckpointBlock w last
    · rw [createCheckpointsLoop, dif_pos hdone, Except.ok.injEq, Prod.mk.injEq] at h
      obtain ⟨rfl, rfl⟩ := h
      exact ⟨[], .nil hdone, rfl, rfl, by simp⟩
    · rcases hd : digests.lookup (nextCheckpointBlock w last) with _ | digest
      · rw [createCheckpointsLoop, dif_neg hdone, hd] at h
        simp at h
      · rw [createCheckpointsLoop, dif_neg hdone] at h
        simp only [hd] at h
        have hprogress : last < nextCheckpointBlock w last := by
          by_contra hstuck
          exact createCheckpointsLoop_stuck hhead (nextCheckpointBlock_stuck hw (not_lt.1 hstuck))
            (not_lt.1 hdone) fuel _ _ h
        obtain ⟨cps, hladder, ha, hlast, hdig⟩ := ih h
        refine ⟨_ :: cps, .cons (nextCheckpointBlock_of_lt hw hprogress) (not_lt.1 hdone) hladder,
          ha, ?_, ?_⟩
        · rw [hlast, lastHeight_cons]
        · intro c hc
          rcases List.mem_cons.1 hc with rfl | hmem
          · exact hd
          · exact hdig c hmem

end Ladder

/-! ## The paths of a commit -/

section Paths

variable (T : Config H A B) (st : Settings)

/-- A long proof is checkpointed at all boundaries up to the attestation. -/
structure CatchesUp (a : Anchors H A) (att : SignedAttestation H A)
    (last : AttestationCheckpoint H) (cps : List (AttestationCheckpoint H)) : Prop where
  last_eq : a.lastCheckpoint = some last
  width_pos : 0 < checkpointWidth st
  long : 2 * asUsize (checkpointWidth st) % 2 ^ 32 ≤ att.continuityProof.len
  ladder : Ladder (checkpointWidth st) att.headerNumber last.blockNumber cps
  ne_nil : cps ≠ []
  digest_eq : ∀ c ∈ cps, (boundaryDigests T a att (att.digest T.keccak)
    a.checkpointingQueue).lookup c.blockNumber = some c.digest

def caughtUp (a : Anchors H A) (att : SignedAttestation H A)
    (cps : List (AttestationCheckpoint H)) : Anchors H A :=
  { (cps.foldl Anchors.reachCheckpoint a).removeAttestations st
      (a.attestationRemovalQueue ++ a.checkpointingQueue ++ [att.digest T.keccak]) with
    checkpointingQueue := [] }

/-- No boundary lies between the last checkpoint and the attestation, or the proof is short. -/
def NotCaughtUp (a : Anchors H A) (att : SignedAttestation H A) (n : ℕ) : Prop :=
  (att.continuityProof.len < 2 * asUsize (checkpointWidth st) % 2 ^ 32 ∨
      att.continuityProof.isEmpty = true) ∧ n = 0 ∨
    (∃ last, a.lastCheckpoint = some last ∧
      2 * asUsize (checkpointWidth st) % 2 ^ 32 ≤ att.continuityProof.len ∧
      att.headerNumber < nextCheckpointBlock (checkpointWidth st) last.blockNumber) ∧
      n = queuedRoots a a.checkpointingQueue

variable {T st} {a a' : Anchors H A} {att : SignedAttestation H A} {created : Bool} {n : ℕ}

omit [DecidableEq H] in
theorem Ladder.lt_lastHeight {w head last : ℕ} {cps : List (AttestationCheckpoint H)} (hw : 0 < w)
    (h : Ladder w head last cps) : cps = [] ∨ last < lastHeight last cps := by
  induction h with
  | nil => exact .inl rfl
  | @cons last c cps hc _ hrest ih =>
    have hlt : last < c.blockNumber := hc ▸ lt_nextBoundary hw
    rw [lastHeight_cons]
    rcases ih with rfl | ih
    · exact .inr hlt
    · exact .inr (hlt.trans ih)

theorem createCheckpointsFromContinuityProof_cases
    (h : createCheckpointsFromContinuityProof T st a att (att.digest T.keccak) =
      .ok (created, a', n)) :
    (created = false ∧ a' = a ∧ NotCaughtUp st a att n) ∨
      (created = true ∧ n = queuedRoots a a.checkpointingQueue ∧
        ∃ last cps, CatchesUp T st a att last cps ∧ a' = caughtUp T st a att cps) := by
  unfold createCheckpointsFromContinuityProof at h
  split at h
  · next hempty =>
    simp only [Except.ok.injEq, Prod.mk.injEq] at h
    obtain ⟨rfl, rfl, rfl⟩ := h
    exact .inl ⟨rfl, rfl, .inl ⟨.inr hempty, rfl⟩⟩
  · simp only [bind_eq_ok, ensure_eq_ok] at h
    obtain ⟨-, hw, h⟩ := h
    split at h
    · next hshort =>
      simp only [pure_eq_ok, Prod.mk.injEq] at h
      obtain ⟨rfl, rfl, rfl⟩ := h
      exact .inl ⟨rfl, rfl, .inl ⟨.inl hshort, rfl⟩⟩
    · next hlong =>
      simp only [createCheckpointsFromQueue, bind_eq_ok, ensure_eq_ok, okOr_eq_ok] at h
      obtain ⟨last, hlast, -, -, ⟨last', a''⟩, hloop, h⟩ := h
      obtain ⟨cps, hladder, rfl, rfl, hdig⟩ := createCheckpointsLoop_ok _ hw hloop
      rcases hladder.lt_lastHeight hw with rfl | hlt
      · -- No boundary was reached.
        dsimp only at h
        rw [lastHeight_nil, if_pos rfl, pure_eq_ok, Prod.mk.injEq, Prod.mk.injEq] at h
        obtain ⟨rfl, rfl, rfl⟩ := h
        cases hladder with
        | nil hhead => exact .inl ⟨rfl, rfl, .inr ⟨⟨last, hlast, not_lt.1 hlong, hhead⟩, rfl⟩⟩
      · dsimp only at h
        rw [if_neg hlt.ne', pure_eq_ok, Prod.mk.injEq, Prod.mk.injEq] at h
        obtain ⟨rfl, rfl, rfl⟩ := h
        refine .inr ⟨rfl, rfl, last, cps, ⟨hlast, hw, not_lt.1 hlong, hladder, ?_, hdig⟩, rfl⟩
        rintro rfl
        exact lt_irrefl _ hlt

end Paths

/-! ## Accepted attestations -/

section Accepted

/-- The point of the chain with digest `d` has height `n`: an attestation, or else the last
checkpoint. -/
def HeightOf (a : Anchors H A) (d : H) (n : ℕ) : Prop :=
  (∃ prev, a.get d = some prev ∧ prev.headerNumber = n) ∨
    (a.get d = none ∧ ∃ c, a.lastCheckpoint = some c ∧ c.digest = d ∧ c.blockNumber = n)

theorem headerNumberOf_eq_ok {a : Anchors H A} {d : H} {e : Error} {n : ℕ} :
    a.headerNumberOf d e = .ok n ↔ HeightOf a d n := by
  unfold Anchors.headerNumberOf HeightOf
  rcases a.get d with _ | prev
  · rcases a.lastCheckpoint with _ | c
    · simp
    · by_cases hc : c.digest = d <;> simp [hc]
  · simp

theorem HeightOf.lt {a : Anchors H A} {d : H} {n : ℕ} (h : HeightOf a d n) : n < 2 ^ 64 := by
  rcases h with ⟨prev, -, rfl⟩ | ⟨-, c, -, -, rfl⟩
  · exact prev.headerNumber_lt
  · exact c.blockNumber_lt

variable (T : Config H A B) (st : Settings) (a : Anchors H A) (att : SignedAttestation H A)

/-- The attestation chains from the finalized point `(n, d)`: directly, or by its proof. -/
structure Links (n : ℕ) (d : H) : Prop where
  last_eq : a.lastFinalizedDigest = some d
  height : HeightOf a d n
  prev_eq : att.prevDigest = some
    (HashChain.foldFrom (hashPayload T.keccak) (n + 1) d att.continuityProof.roots)
  header_eq : att.headerNumber = n + att.continuityProof.len + 1
  lower_eq : att.continuityProof.roots ≠ [] → att.continuityProof.lowerEndpointDigest = d
  len_le : att.continuityProof.len ≤ maxRoots st

structure Starts : Prop where
  header_eq : att.headerNumber = st.attestationChainGenesisBlockNumber
  prev_eq : att.prevDigest = none
  roots_eq : att.continuityProof.roots = []

variable {T st a att}

/-- An attestation whose height is above the last finalized point starts a chain or links to that
point. -/
theorem validateAttestationContinuity_cases
    (hdigest : ∀ last ∈ a.lastDigest, last.1 < att.headerNumber)
    (hcheckpoint : ∀ c ∈ a.lastCheckpoint, c.blockNumber < att.headerNumber)
    (h : validateAttestationContinuity T st a att = .ok ()) :
    Starts st att ∨
      (att.headerNumber ≠ st.attestationChainGenesisBlockNumber ∧ ∃ n d, Links T st a att n d) := by
  unfold validateAttestationContinuity at h
  split at h
  · next hgenesis =>
    simp only [bind_eq_ok, ensure_eq_ok] at h
    obtain ⟨-, hprev, hempty⟩ := h
    exact .inl ⟨hgenesis, hprev, List.isEmpty_iff.1 hempty⟩
  · next hgenesis =>
    simp only [bind_eq_ok, ensure_eq_ok, okOr_eq_ok] at h
    obtain ⟨prev, hprev, -, -, last, hlast, h⟩ := h
    refine .inr ⟨hgenesis, ?_⟩
    split at h
    · next hdirect =>
      obtain ⟨rfl, hempty⟩ := hdirect
      simp only [validateDirectLink, bind_eq_ok, ensure_eq_ok, headerNumberOf_eq_ok] at h
      obtain ⟨n, hheight, hheader⟩ := h
      have hroots : att.continuityProof.roots = [] := List.isEmpty_iff.1 hempty
      -- A finalized point lies strictly below the header, so the sum does not wrap around.
      have hpos : 0 < att.headerNumber := by
        rcases hd : a.lastDigest with _ | last
        · rcases hc : a.lastCheckpoint with _ | c
          · simp [Anchors.lastFinalizedDigest, hd, hc] at hlast
          · exact (Nat.zero_le _).trans_lt (hcheckpoint c hc)
        · exact (Nat.zero_le _).trans_lt (hdigest last hd)
      have hn := hheight.lt
      have hlen : att.continuityProof.len = 0 := by simp [ContinuityProof.len, hroots]
      refine ⟨n, prev, hlast, hheight, ?_, ?_, fun hne => absurd hroots hne, ?_⟩
      · rw [hprev, hroots, HashChain.foldFrom_nil]
      · omega
      · omega
    · simp only [validateProofLink, bind_eq_ok, ensure_eq_ok, okOr_eq_ok,
        headerNumberOf_eq_ok] at h
      obtain ⟨-, hne, -, hlen, tail, htail, -, rfl, n, hheight, -, hpos, -, hn, hfold⟩ := h
      have hstart : att.continuityProof.startBlockNumber att.headerNumber = n + 1 := by omega
      have hroots : att.continuityProof.roots ≠ [] := fun hroots => by
        simp [ContinuityProof.isEmpty, hroots] at hne
      have hlower : att.continuityProof.lowerEndpointDigest = tail := by
        simpa [ContinuityProof.tailPrevDigest, hroots] using htail
      refine ⟨n, tail, hlast, hheight, ?_, ?_, fun _ => hlower, hlen⟩
      · rw [hstart, ContinuityProof.computeContinuityDigest, hlower] at hfold
        rw [hprev, hfold]
      · unfold ContinuityProof.startBlockNumber at hstart
        unfold ContinuityProof.len
        omega

/-- Conversely, an attestation that links to the last finalized point passes the check, unless its
previous digest is the zero hash. -/
theorem Links.validates {n : ℕ} {d : H} (h : Links T st a att n d)
    (hgenesis : att.headerNumber ≠ st.attestationChainGenesisBlockNumber)
    (hzero : att.prevDigest ≠ some T.zero) :
    validateAttestationContinuity T st a att = .ok () := by
  have hheader := h.header_eq
  have hlt : att.headerNumber < 2 ^ 64 := att.attestation.headerNumber_lt
  rw [h.prev_eq, ne_eq, Option.some.injEq] at hzero
  rw [validateAttestationContinuity, if_neg hgenesis]
  simp only [bind_eq_ok, ensure_eq_ok, okOr_eq_ok]
  refine ⟨_, h.prev_eq, (), hzero, d, h.last_eq, ?_⟩
  by_cases hroots : att.continuityProof.roots = []
  · have hlen : att.continuityProof.len = 0 := by rw [ContinuityProof.len, hroots, List.length_nil]
    have hempty : att.continuityProof.isEmpty = true := List.isEmpty_iff.2 hroots
    rw [hroots, HashChain.foldFrom_nil, if_pos ⟨rfl, hempty⟩]
    simp only [validateDirectLink, bind_eq_ok, ensure_eq_ok, headerNumberOf_eq_ok]
    exact ⟨n, h.height, by omega⟩
  · have hempty : att.continuityProof.isEmpty = false :=
      Bool.eq_false_iff.2 fun hempty => hroots (List.isEmpty_iff.1 hempty)
    have htail : att.continuityProof.tailPrevDigest = some d := by
      rw [ContinuityProof.tailPrevDigest, if_neg fun hnil => hroots (List.isEmpty_iff.1 hnil),
        h.lower_eq hroots]
    have hstart : att.continuityProof.startBlockNumber att.headerNumber = n + 1 := by
      unfold ContinuityProof.startBlockNumber
      unfold ContinuityProof.len at hheader
      omega
    rw [if_neg fun hdirect => absurd hdirect.2 (by rw [hempty]; exact Bool.false_ne_true)]
    simp only [validateProofLink, bind_eq_ok, ensure_eq_ok, okOr_eq_ok,
      headerNumberOf_eq_ok, hstart]
    refine ⟨(), hempty, (), h.len_le, d, htail, (), rfl, n, h.height, (), n.succ_pos, (), rfl, ?_⟩
    rw [ContinuityProof.computeContinuityDigest, h.lower_eq hroots]

/-- What is known of an attestation that passed the checks in the block `now`. -/
structure Accepted [DecidableEq A] (T : Config H A B) (supported : Bool) (now : ℕ) (c : Chain H A)
    (att : SignedAttestation H A) : Prop where
  supported_eq : supported = true
  cursor_eq : c.anchors.attestationClearingCursor = none
  pruning_eq : c.anchors.checkpointPruningState = none
  fresh : c.anchors.attestations.lookup (att.digest T.keccak) = none
  above_digest : ∀ last ∈ c.anchors.lastDigest, last.1 < att.headerNumber
  above_checkpoint : ∀ cp ∈ c.anchors.lastCheckpoint, cp.blockNumber < att.headerNumber
  spaced : ∀ last ∈ c.anchors.lastDigest,
    satAdd u64Max last.1 c.settings.chainAttestationInterval ≤ att.headerNumber
  signed : ∃ keys, validateSignatures T c.roster att = .ok keys
  continues : Starts c.settings att ∨
    (att.headerNumber ≠ c.settings.attestationChainGenesisBlockNumber ∧
      ∃ n d, Links T c.settings c.anchors att n d)
  room : committedThisBlock c.anchors now < T.maxAttestationsPerBlock

theorem Anchors.checkDuplicate_eq_false :
    a.checkDuplicate T att = false ↔
      a.attestations.lookup (att.digest T.keccak) = none ∧
        (∀ last ∈ a.lastDigest, last.1 < att.headerNumber) ∧
        ∀ cp ∈ a.lastCheckpoint, cp.blockNumber < att.headerNumber := by
  rcases hd : a.lastDigest with _ | last <;> rcases hc : a.lastCheckpoint with _ | cp <;>
    simp [checkDuplicate, hd, hc, and_assoc]

theorem lookup_storeAttestation (now : ℕ) (d : H) :
    (storeAttestation T now a att).attestations.lookup d =
      if d = att.digest T.keccak then some att else a.attestations.lookup d :=
  StorageMap.lookup_insert_eq _ _ _ _

theorem Accepted.lookup_store [DecidableEq A] {supported : Bool} {now : ℕ} {c : Chain H A}
    (haccepted : Accepted T supported now c att) {d : H} {q : SignedAttestation H A}
    (hd : c.anchors.attestations.lookup d = some q) :
    (storeAttestation T now c.anchors att).attestations.lookup d = some q := by
  rw [lookup_storeAttestation, if_neg, hd]
  rintro rfl
  simp [haccepted.fresh] at hd

theorem storeAttestation_eq (now : ℕ) (h : ∀ last ∈ a.lastDigest, last.1 < att.headerNumber) :
    storeAttestation T now a att =
      { a with
        attestationsInBlock := some (now, satAdd u32Max (committedThisBlock a now) 1)
        attestations := a.attestations.insert (att.digest T.keccak) att
        lastDigest := some (att.headerNumber, att.digest T.keccak)
        events := a.events ++ [.blockAttested att.headerNumber (att.digest T.keccak)] } := by
  unfold storeAttestation
  rcases hlast : a.lastDigest with _ | last
  · rfl
  · simp only [if_pos (h last hlast)]

end Accepted

/-! ## What a commit writes -/

section Commits

variable (T : Config H A B) (st : Settings)

/-- What happens to the storage `a` in which the attestation was just stored, and how many queued
roots are hashed. -/
inductive Commits (a : Anchors H A) (att : SignedAttestation H A) : Anchors H A → ℕ → Prop
  | first (hkeys : a.checkpoints.keys = [])
      (hgenesis : st.attestationChainGenesisBlockNumber = att.headerNumber) :
      Commits a att
        { a.reachCheckpoint ⟨att.headerNumber, att.digest T.keccak, att.headerNumber_lt⟩ with
          attestationRemovalQueue := a.attestationRemovalQueue ++ [att.digest T.keccak] } 0
  | caughtUp {last : AttestationCheckpoint H} {cps : List (AttestationCheckpoint H)}
      (hkeys : a.checkpoints.keys ≠ []) (h : CatchesUp T st a att last cps) :
      Commits a att (caughtUp T st a att cps) (queuedRoots a a.checkpointingQueue)
  | queued {n : ℕ} (hkeys : a.checkpoints.keys ≠ []) (h : NotCaughtUp st a att n) :
      Commits a att (queueAttestation T st a att (att.digest T.keccak)).1
        (n + (queueAttestation T st a att (att.digest T.keccak)).2)

variable {T st} {att : SignedAttestation H A}

theorem checkpointAttestation_cases {a a' : Anchors H A} {n : ℕ}
    (h : checkpointAttestation T st a att = .ok (a', n)) : Commits T st a att a' n := by
  unfold checkpointAttestation at h
  split at h
  · next hkeys =>
    simp only [bind_eq_ok, ensure_eq_ok, pure_eq_ok, Prod.mk.injEq] at h
    obtain ⟨-, hgenesis, rfl, rfl⟩ := h
    exact .first hkeys hgenesis
  · next hkeys =>
    simp only [bind_eq_ok] at h
    obtain ⟨⟨created, a'', m⟩, hcreate, h⟩ := h
    rcases createCheckpointsFromContinuityProof_cases hcreate with
      ⟨rfl, rfl, hnot⟩ | ⟨rfl, rfl, last, cps, hcatch, rfl⟩
    · simp only [Bool.false_eq_true, if_false, pure_eq_ok, Prod.mk.injEq] at h
      obtain ⟨rfl, rfl⟩ := h
      exact .queued hkeys hnot
    · simp only [if_true, pure_eq_ok, Prod.mk.injEq] at h
      obtain ⟨rfl, rfl⟩ := h
      exact .caughtUp hkeys hcatch

theorem accepted_of_validate [DecidableEq A] {supported : Bool} {now : ℕ} {c : Chain H A}
    {keys : List T.bls.PublicKey} (h : validateAttestation T att supported c = .ok keys)
    (hroom : committedThisBlock c.anchors now < T.maxAttestationsPerBlock) :
    Accepted T supported now c att := by
  simp only [validateAttestation, bind_eq_ok, ensure_eq_ok, pure_eq_ok] at h
  obtain ⟨-, hsup, -, hclean, -, -, -, hdup, -, hspaced, keys, hkeys, ⟨⟩, hcont, -⟩ := h
  obtain ⟨hfresh, hdigest, hcheckpoint⟩ := Anchors.checkDuplicate_eq_false.1 hdup
  simp only [Anchors.commitBlockedByCleanup, Bool.or_eq_false_iff, Option.isSome_eq_false_iff,
    Option.isNone_iff_eq_none] at hclean
  exact ⟨hsup, hclean.1, hclean.2, hfresh, hdigest, hcheckpoint, hspaced, ⟨keys, hkeys⟩,
    validateAttestationContinuity_cases hdigest hcheckpoint hcont, hroom⟩

/-- **Inversion of a commit.** A commit that succeeds accepts the attestation, stores it, and makes
the checkpoints it gives rise to. -/
theorem doCommitAttestation_cases [DecidableEq A] {supported : Bool} {now : ℕ} {c : Chain H A}
    {a' : Anchors H A} {n : ℕ} (h : doCommitAttestation T supported now c att = .ok (a', n)) :
    Accepted T supported now c att ∧
      Commits T c.settings (storeAttestation T now c.anchors att) att a' n := by
  simp only [doCommitAttestation, bind_eq_ok, ensure_eq_ok] at h
  obtain ⟨keys, hvalid, -, hroom, h⟩ := h
  exact ⟨accepted_of_validate hvalid hroom, checkpointAttestation_cases h⟩

end Commits

end Creditcoin
