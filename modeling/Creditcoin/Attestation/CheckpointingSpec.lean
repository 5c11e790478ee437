import Creditcoin.Attestation.Commit
import Creditcoin.Foundations.Grid

/-!
# What the checkpointing functions do

One specification for each function that makes checkpoints: which rows it writes, how it splits the
queue, and at which heights it places checkpoints. -/

namespace Creditcoin

variable {H A B : Type}

/-! ## Many checkpoints at once -/

def insertCheckpoints (m : StorageMap ℕ H) (cps : List (AttestationCheckpoint H)) :
    StorageMap ℕ H :=
  cps.foldl (fun m c => m.insert c.blockNumber c.digest) m

/-- The bucket index after storing a list of checkpoints. -/
def insertBuckets (m : StorageMap (ℕ × ℕ) Unit) (cps : List (AttestationCheckpoint H)) :
    StorageMap (ℕ × ℕ) Unit :=
  cps.foldl (fun m c => m.insert (computeBlockIndexFor c.blockNumber, c.blockNumber) ()) m

theorem lookup_insertCheckpoints_of_notMem (m : StorageMap ℕ H)
    (cps : List (AttestationCheckpoint H)) {x : ℕ} (h : ∀ c ∈ cps, c.blockNumber ≠ x) :
    (insertCheckpoints m cps).lookup x = m.lookup x := by
  induction cps generalizing m with
  | nil => rfl
  | cons c cps ih =>
    have hc : x ≠ c.blockNumber := fun hx => h c List.mem_cons_self hx.symm
    refine (ih (m.insert c.blockNumber c.digest) fun c' hc' =>
      h c' (List.mem_cons_of_mem _ hc')).trans ?_
    rw [StorageMap.lookup_insert_eq, if_neg hc]

theorem exists_of_lookup_insertCheckpoints (m : StorageMap ℕ H)
    (cps : List (AttestationCheckpoint H)) {x : ℕ} (h : ∃ c ∈ cps, c.blockNumber = x) :
    ∃ c ∈ cps, c.blockNumber = x ∧ (insertCheckpoints m cps).lookup x = some c.digest := by
  induction cps generalizing m with
  | nil => simp at h
  | cons c cps ih =>
    by_cases hrest : ∃ c' ∈ cps, c'.blockNumber = x
    · obtain ⟨c', hc', hx, hlookup⟩ := ih (m.insert c.blockNumber c.digest) hrest
      exact ⟨c', List.mem_cons_of_mem _ hc', hx, hlookup⟩
    · have hc : c.blockNumber = x := by
        obtain ⟨c', hc', hx⟩ := h
        rcases List.mem_cons.1 hc' with rfl | hmem
        · exact hx
        · exact absurd ⟨c', hmem, hx⟩ hrest
      refine ⟨c, List.mem_cons_self, hc, ?_⟩
      refine (lookup_insertCheckpoints_of_notMem _ cps fun c' hc' hx =>
        hrest ⟨c', hc', hx⟩).trans ?_
      rw [← hc, AList.lookup_insert]

theorem lookup_insertCheckpoints_cases (m : StorageMap ℕ H)
    (cps : List (AttestationCheckpoint H)) (x : ℕ) :
    (∃ c ∈ cps, c.blockNumber = x ∧ (insertCheckpoints m cps).lookup x = some c.digest) ∨
      ((∀ c ∈ cps, c.blockNumber ≠ x) ∧ (insertCheckpoints m cps).lookup x = m.lookup x) := by
  by_cases h : ∃ c ∈ cps, c.blockNumber = x
  · exact .inl (exists_of_lookup_insertCheckpoints m cps h)
  · have h' : ∀ c ∈ cps, c.blockNumber ≠ x := fun c hc hx => h ⟨c, hc, hx⟩
    exact .inr ⟨h', lookup_insertCheckpoints_of_notMem m cps h'⟩

theorem isSome_lookup_insertBuckets (m : StorageMap (ℕ × ℕ) Unit)
    (cps : List (AttestationCheckpoint H)) (row : ℕ × ℕ) :
    ((insertBuckets m cps).lookup row).isSome = true ↔
      (∃ c ∈ cps, row = (computeBlockIndexFor c.blockNumber, c.blockNumber)) ∨
        (m.lookup row).isSome = true := by
  induction cps generalizing m with
  | nil => simp [insertBuckets]
  | cons c cps ih =>
    have hstep : insertBuckets m (c :: cps) =
        insertBuckets (m.insert (computeBlockIndexFor c.blockNumber, c.blockNumber) ()) cps := rfl
    rw [hstep, ih, StorageMap.lookup_insert_eq]
    by_cases hrow : row = (computeBlockIndexFor c.blockNumber, c.blockNumber) <;> simp [hrow]

section Folds

variable (a : Anchors H A) (cps : List (AttestationCheckpoint H))

theorem foldl_storeCheckpoint :
    cps.foldl Anchors.storeCheckpoint a =
      { a with
        checkpoints := insertCheckpoints a.checkpoints cps
        checkpointBuckets := insertBuckets a.checkpointBuckets cps } := by
  induction cps generalizing a with
  | nil => rfl
  | cons c cps ih =>
    rw [List.foldl_cons, ih]
    rfl

theorem foldl_recordCheckpoint :
    cps.foldl Anchors.recordCheckpoint a =
      { a with
        checkpoints := insertCheckpoints a.checkpoints cps
        checkpointBuckets := insertBuckets a.checkpointBuckets cps
        events := a.events ++ cps.map .checkpointReached } := by
  induction cps generalizing a with
  | nil => simp [insertCheckpoints, insertBuckets]
  | cons c cps ih =>
    rw [List.foldl_cons, ih]
    simp [Anchors.recordCheckpoint, Anchors.storeCheckpoint, insertCheckpoints, insertBuckets]

theorem foldl_reachCheckpoint :
    cps.foldl Anchors.reachCheckpoint a =
      { a with
        checkpoints := insertCheckpoints a.checkpoints cps
        checkpointBuckets := insertBuckets a.checkpointBuckets cps
        lastCheckpoint := cps.getLast?.or a.lastCheckpoint
        events := a.events ++ cps.map .checkpointReached } := by
  induction cps generalizing a with
  | nil => simp [insertCheckpoints, insertBuckets]
  | cons c cps ih =>
    rw [List.foldl_cons, ih]
    simp only [Anchors.reachCheckpoint, Anchors.recordCheckpoint, Anchors.storeCheckpoint,
      insertCheckpoints, insertBuckets, List.foldl_cons, List.map_cons, List.append_assoc,
      List.singleton_append, List.getLast?_cons]
    cases cps.getLast? <;> rfl

end Folds

/-! ## Removal of condensed attestations -/

/-- How many entries the removal queue drops. -/
def dropCount (st : Settings) (queue : List H) : ℕ :=
  queue.length - st.attestationRetentionDuration

theorem dropCount_le (st : Settings) (queue : List H) : dropCount st queue ≤ queue.length :=
  Nat.sub_le _ _

variable [DecidableEq H]

theorem dropCondensed_eq (retention : ℕ) (m : StorageMap H (SignedAttestation H A))
    (queue : List H) :
    Anchors.dropCondensed retention m queue =
      (m.eraseAll (queue.take (queue.length - retention)),
        queue.drop (queue.length - retention)) := by
  induction queue generalizing m with
  | nil => simp [Anchors.dropCondensed, StorageMap.eraseAll]
  | cons d queue ih =>
    rw [Anchors.dropCondensed]
    split
    · next h =>
      have hlen : (d :: queue).length - retention = (queue.length - retention) + 1 := by
        simp only [List.length_cons] at h ⊢
        omega
      rw [ih, hlen]
      rfl
    · next h =>
      have hlen : (d :: queue).length - retention = 0 := by omega
      rw [hlen]
      rfl

theorem removeAttestations_eq (a : Anchors H A) (st : Settings) (queue : List H) :
    a.removeAttestations st queue =
      { a with
        attestations := a.attestations.eraseAll (queue.take (dropCount st queue))
        attestationRemovalQueue := queue.drop (dropCount st queue) } := by
  simp only [Anchors.removeAttestations, dropCondensed_eq, dropCount]

/-! ## Condensing the queue -/

/-- The attestation stored under a queued digest lies below the target. -/
def Below (a : Anchors H A) (target : ℕ) (d : H) : Prop :=
  ∃ att, a.attestations.lookup d = some att ∧ att.headerNumber < target

/-- The queue is split at the attestation that reaches the target: it is popped with those before it
if it attests the target itself, and kept if the target lies in its proof. -/
inductive CondensesTo (T : Config H A B) (a : Anchors H A) (target : ℕ) :
    List H → List H → H → ℕ → Prop
  | exact {before kept : List H} {d : H} {att : SignedAttestation H A}
      (hbefore : ∀ d' ∈ before, Below a target d') (hd : a.attestations.lookup d = some att)
      (hheader : att.headerNumber = target) :
      CondensesTo T a target (before ++ [d]) kept (att.digest T.keccak) 0
  | inside {before kept : List H} {d digest : H} {att : SignedAttestation H A}
      (hbefore : ∀ d' ∈ before, Below a target d') (hd : a.attestations.lookup d = some att)
      (hheader : target < att.headerNumber)
      (hdigest : att.continuityProof.digestForBlock T.keccak
        (att.continuityProof.startBlockNumber att.headerNumber) target = some digest) :
      CondensesTo T a target before (d :: kept) digest
        (asUsize (target - att.continuityProof.startBlockNumber att.headerNumber) + 1)

section Condense

variable {T : Config H A B} {a : Anchors H A} {target : ℕ}

theorem CondensesTo.cons {popped kept : List H} {d digest : H} {n : ℕ} (hd : Below a target d)
    (h : CondensesTo T a target popped kept digest n) :
    CondensesTo T a target (d :: popped) kept digest n := by
  have hcons : ∀ {before : List H}, (∀ d' ∈ before, Below a target d') →
      ∀ d' ∈ d :: before, Below a target d' := by
    intro before hbefore d' hd'
    rcases List.mem_cons.1 hd' with rfl | hmem
    · exact hd
    · exact hbefore d' hmem
  cases h with
  | exact hbefore hatt hheader => exact .exact (hcons hbefore) hatt hheader
  | inside hbefore hatt hheader hdigest => exact .inside (hcons hbefore) hatt hheader hdigest

theorem CondensesTo.inv {popped kept : List H} {digest : H} {n : ℕ}
    (h : CondensesTo T a target popped kept digest n) :
    (∃ before d att, popped = before ++ [d] ∧ (∀ d' ∈ before, Below a target d') ∧
      a.attestations.lookup d = some att ∧ att.headerNumber = target ∧
      digest = att.digest T.keccak ∧ n = 0) ∨
    (∃ d rest att, kept = d :: rest ∧ (∀ d' ∈ popped, Below a target d') ∧
      a.attestations.lookup d = some att ∧ target < att.headerNumber ∧
      att.continuityProof.digestForBlock T.keccak
        (att.continuityProof.startBlockNumber att.headerNumber) target = some digest ∧
      n = asUsize (target - att.continuityProof.startBlockNumber att.headerNumber) + 1) := by
  cases h with
  | exact hbefore hd hheader => exact .inl ⟨_, _, _, rfl, hbefore, hd, hheader, rfl, rfl⟩
  | inside hbefore hd hheader hdigest =>
    exact .inr ⟨_, _, _, rfl, hbefore, hd, hheader, hdigest, rfl⟩

theorem condense_ok {queue removal rollback : List H} {c : AttestationCheckpoint H}
    (h : (condense T a target queue removal rollback).outcome = .ok c) :
    ∃ popped, queue = popped ++ (condense T a target queue removal rollback).queue ∧
      (condense T a target queue removal rollback).attestationRemovalQueue = removal ++ popped ∧
      c.blockNumber = target ∧
      CondensesTo T a target popped (condense T a target queue removal rollback).queue c.digest
        (condense T a target queue removal rollback).hashed := by
  induction queue generalizing removal rollback with
  | nil => simp [condense] at h
  | cons d queue ih =>
    rcases hd : a.attestations.lookup d with _ | att
    · simp [condense, hd] at h
    · by_cases hlt : att.headerNumber < target
      · simp only [condense, hd, dif_pos hlt] at h ⊢
        obtain ⟨popped, hqueue, hremoval, hc, hsplit⟩ := ih h
        refine ⟨d :: popped, ?_, ?_, hc, hsplit.cons ⟨att, hd, hlt⟩⟩
        · rw [List.cons_append, ← hqueue]
        · rw [hremoval, List.append_assoc, List.singleton_append]
      · by_cases heq : att.headerNumber = target
        · simp only [condense, hd, dif_neg hlt, if_pos heq, Except.ok.injEq] at h ⊢
          subst h
          have hsplit : CondensesTo T a target ([] ++ [d]) queue (att.digest T.keccak) 0 :=
            .exact (by simp) hd heq
          exact ⟨[d], rfl, rfl, heq, hsplit⟩
        · rcases hdigest : att.continuityProof.digestForBlock T.keccak
              (att.continuityProof.startBlockNumber att.headerNumber) target with _ | digest
          · simp [condense, hd, hlt, heq, hdigest] at h
          · have htarget : target < att.headerNumber := by omega
            simp only [condense, hd, dif_neg hlt, if_neg heq, hdigest, Except.ok.injEq] at h ⊢
            subst h
            exact ⟨[], rfl, (List.append_nil _).symm, rfl, .inside (by simp) hd htarget hdigest⟩

theorem condense_error {queue removal rollback : List H} {e : Error}
    (h : (condense T a target queue removal rollback).outcome = .error e) :
    (condense T a target queue removal rollback).queue = rollback ++ queue ∧
      (condense T a target queue removal rollback).hashed = 0 := by
  induction queue generalizing removal rollback with
  | nil => simp [condense]
  | cons d queue ih =>
    rcases hd : a.attestations.lookup d with _ | att
    · simp [condense, hd]
    · by_cases hlt : att.headerNumber < target
      · simp only [condense, hd, dif_pos hlt] at h ⊢
        obtain ⟨hqueue, hhashed⟩ := ih h
        exact ⟨by rw [hqueue, List.append_assoc, List.singleton_append], hhashed⟩
      · by_cases heq : att.headerNumber = target
        · simp [condense, hd, heq] at h
        · rcases hdigest : att.continuityProof.digestForBlock T.keccak
              (att.continuityProof.startBlockNumber att.headerNumber) target with _ | digest
          · simp [condense, hd, hlt, heq, hdigest]
          · simp [condense, hd, hlt, heq, hdigest] at h

end Condense

/-- `made` is the checkpoint of `try_make_checkpoint` for the last checkpoint `last`. -/
structure Makes (T : Config H A B) (st : Settings) (a : Anchors H A) (queue : List H)
    (header : ℕ) (made : MadeCheckpoint H A) (last c : AttestationCheckpoint H)
    (popped : List H) : Prop where
  last_eq : a.lastCheckpoint = some last
  width_pos : 0 < checkpointWidth st
  due : (checkpointWidth st * 2 + 1) % 2 ^ 64 ≤ header - last.blockNumber
  queue_eq : queue = popped ++ made.queue
  block_eq : c.blockNumber = nextCheckpointBlock (checkpointWidth st) last.blockNumber
  condenses : CondensesTo T a c.blockNumber popped made.queue c.digest made.hashed
  outcome_eq : made.outcome = .ok ()
  anchors_eq : made.anchors =
    (a.reachCheckpoint c).removeAttestations st (a.attestationRemovalQueue ++ popped)

/-- `try_make_checkpoint` changes nothing, or makes one checkpoint. It succeeds without one only if
none is due. -/
theorem tryMakeCheckpoint_cases (T : Config H A B) (st : Settings) (a : Anchors H A)
    (queue : List H) (header : ℕ) :
    ((tryMakeCheckpoint T st a queue header).anchors = a ∧
      (tryMakeCheckpoint T st a queue header).queue = queue ∧
      (tryMakeCheckpoint T st a queue header).hashed = 0 ∧
      ((tryMakeCheckpoint T st a queue header).outcome = .ok () → ∀ last ∈ a.lastCheckpoint,
        header - last.blockNumber < (checkpointWidth st * 2 + 1) % 2 ^ 64)) ∨
    ∃ last c popped,
      Makes T st a queue header (tryMakeCheckpoint T st a queue header) last c popped := by
  rcases hlast : a.lastCheckpoint with _ | last
  · simp [tryMakeCheckpoint, hlast]
  · by_cases hw : checkpointWidth st = 0
    · simp [tryMakeCheckpoint, hlast, hw]
    · by_cases hdue : header - last.blockNumber < (checkpointWidth st * 2 + 1) % 2 ^ 64
      · refine .inl ?_
        simp only [tryMakeCheckpoint, hlast, hw, hdue, if_true, if_false, true_and]
        rintro - _ ⟨⟩
        exact hdue
      · simp only [tryMakeCheckpoint, hlast, hw, hdue, if_false]
        rcases hout : (condense T a (nextCheckpointBlock (checkpointWidth st) last.blockNumber)
            queue a.attestationRemovalQueue []).outcome with e | c
        · obtain ⟨hqueue, hhashed⟩ := condense_error hout
          exact .inl ⟨rfl, by simpa using hqueue, hhashed, by simp⟩
        · obtain ⟨popped, hqueue, hremoval, hc, hsplit⟩ := condense_ok hout
          refine .inr ⟨last, c, popped, hlast, by omega, by omega, hqueue, hc, ?_, rfl, ?_⟩
          · rw [hc]
            exact hsplit
          · rw [hremoval]

theorem queueAttestation_cases (T : Config H A B) (st : Settings) (a : Anchors H A)
    (att : SignedAttestation H A) :
    let made := tryMakeCheckpoint T st a (a.checkpointingQueue ++ [att.digest T.keccak])
      att.headerNumber
    (made.queue.length ≤ T.maxCheckpointingQueueLen ∧
      (queueAttestation T st a att (att.digest T.keccak)).1 =
        { made.anchors with checkpointingQueue := made.queue }) ∨
    (T.maxCheckpointingQueueLen < made.queue.length ∧
      (queueAttestation T st a att (att.digest T.keccak)).1 =
        checkpointAtAttestation st made.anchors
          ⟨att.headerNumber, att.digest T.keccak, att.headerNumber_lt⟩ made.queue) := by
  dsimp only [queueAttestation]
  split
  · next hlen => exact .inr ⟨hlen, rfl⟩
  · next hlen => exact .inl ⟨not_lt.1 hlen, rfl⟩

end Creditcoin
