import Creditcoin.Attestation.OperatorEffects

/-!
# What an import of checkpoints leaves in the storage

`import_checkpoints` stores the first entry of each height that holds no checkpoint yet and is below
the last checkpoint, if there is one (`doImportCheckpoints_eq_ok_iff`). So an import changes no
stored digest and no last checkpoint, the order of distinct heights does not matter, and doing it
twice changes nothing more (`importCheckpoints_effect`). -/

namespace Creditcoin

variable {H A B : Type}

/-! ## The entries an import stores -/

/-- The entry of a batch that an import takes for a height: the first one. -/
def firstEntry (batch : List (AttestationCheckpoint H)) (n : ℕ) :
    Option (AttestationCheckpoint H) :=
  batch.find? fun c => c.blockNumber = n

/-- A height an import may fill: it holds no checkpoint, and the last checkpoint, if there is one,
is above it. -/
def Fillable (stored : StorageMap ℕ H) (last : Option (AttestationCheckpoint H)) (n : ℕ) : Prop :=
  stored.lookup n = none ∧ ∀ l ∈ last, n < l.blockNumber

instance (stored : StorageMap ℕ H) (last : Option (AttestationCheckpoint H)) (n : ℕ) :
    Decidable (Fillable stored last n) :=
  haveI : Decidable (stored.lookup n = none) := decidable_of_iff _ Option.isNone_iff_eq_none
  inferInstanceAs (Decidable (_ ∧ _))

/-- The entries of a batch that an import stores, in the order of the batch. -/
def newEntries (last : Option (AttestationCheckpoint H)) :
    List (AttestationCheckpoint H) → StorageMap ℕ H → List (AttestationCheckpoint H)
  | [], _ => []
  | c :: batch, stored =>
    if Fillable stored last c.blockNumber then
      c :: newEntries last batch (stored.insert c.blockNumber c.digest)
    else newEntries last batch stored

section Entries

variable {last : Option (AttestationCheckpoint H)} {batch : List (AttestationCheckpoint H)}
  {stored : StorageMap ℕ H} {c : AttestationCheckpoint H}

theorem newEntries_cons_of_fillable (h : Fillable stored last c.blockNumber) :
    newEntries last (c :: batch) stored =
      c :: newEntries last batch (stored.insert c.blockNumber c.digest) := if_pos h

theorem newEntries_cons_of_not_fillable (h : ¬ Fillable stored last c.blockNumber) :
    newEntries last (c :: batch) stored = newEntries last batch stored := if_neg h

theorem stored_of_not_fillable {n : ℕ} (h : ¬ Fillable stored none n) :
    (stored.lookup n).isSome = true := by
  by_contra hnone
  exact h ⟨by simpa using hnone, by simp⟩

theorem fillable_insert {n m : ℕ} {d : H} :
    Fillable (stored.insert m d) last n ↔ n ≠ m ∧ Fillable stored last n := by
  rw [Fillable, StorageMap.lookup_insert_eq, Fillable]
  by_cases h : n = m <;> simp [h]

/-- **An import stores the first entry of each height it may fill.** -/
theorem mem_newEntries :
    c ∈ newEntries last batch stored ↔
      firstEntry batch c.blockNumber = some c ∧ Fillable stored last c.blockNumber := by
  induction batch generalizing stored with
  | nil => simp [newEntries, firstEntry]
  | cons x batch ih =>
    rw [firstEntry, List.find?_cons]
    by_cases hx : x.blockNumber = c.blockNumber
    · simp only [hx, decide_true, Option.some.injEq]
      by_cases hfill : Fillable stored last c.blockNumber
      · rw [newEntries, hx, if_pos hfill, List.mem_cons, ih, fillable_insert]
        simp [hfill, eq_comm]
      · rw [newEntries, hx, if_neg hfill, ih]
        simp [hfill]
    · have hne : c ≠ x := fun h => hx (h ▸ rfl)
      simp only [hx, decide_false]
      rw [newEntries]
      split
      · rw [List.mem_cons, ih, fillable_insert]
        simp [hne, Ne.symm hx, firstEntry]
      · exact ih

theorem blockNumber_of_firstEntry {n : ℕ} (h : firstEntry batch n = some c) :
    c.blockNumber = n := by
  simpa using List.find?_some h

theorem nodup_newEntries : ((newEntries last batch stored).map (·.blockNumber)).Nodup := by
  induction batch generalizing stored with
  | nil => exact .nil
  | cons c batch ih =>
    rw [newEntries]
    split
    · rw [List.map_cons, List.nodup_cons]
      refine ⟨?_, ih⟩
      intro hmem
      obtain ⟨c', hc', heq⟩ := List.mem_map.1 hmem
      exact (fillable_insert.1 (mem_newEntries.1 hc').2).1 heq
    · exact ih

theorem exists_firstEntry (hc : c ∈ batch) :
    ∃ f, firstEntry batch c.blockNumber = some f ∧ f.blockNumber = c.blockNumber := by
  have hsome : (firstEntry batch c.blockNumber).isSome := by
    rw [firstEntry, List.find?_isSome]
    exact ⟨c, hc, by simp⟩
  obtain ⟨f, hf⟩ := Option.isSome_iff_exists.1 hsome
  exact ⟨f, hf, blockNumber_of_firstEntry hf⟩

theorem firstEntry_eq_some_iff (hnodup : (batch.map (·.blockNumber)).Nodup) {n : ℕ} :
    firstEntry batch n = some c ↔ c ∈ batch ∧ c.blockNumber = n := by
  constructor
  · intro h
    exact ⟨List.mem_of_find?_eq_some h, blockNumber_of_firstEntry h⟩
  · rintro ⟨hc, rfl⟩
    obtain ⟨f, hf, heq⟩ := exists_firstEntry hc
    have hfc : f = c := List.inj_on_of_nodup_map hnodup (List.mem_of_find?_eq_some hf) hc heq
    rw [hf, hfc]

end Entries

/-! ## The highest entry -/

/-- The highest checkpoint of a list, the first one of its height. -/
def highest (cps : List (AttestationCheckpoint H)) : Option (AttestationCheckpoint H) :=
  cps.foldl higherCheckpoint none

theorem foldl_higherCheckpoint_spec (cps : List (AttestationCheckpoint H))
    (m : AttestationCheckpoint H) :
    ∃ n, cps.foldl higherCheckpoint (some m) = some n ∧ (n ∈ cps ∨ n = m) ∧
      m.blockNumber ≤ n.blockNumber ∧ ∀ c ∈ cps, c.blockNumber ≤ n.blockNumber := by
  induction cps generalizing m with
  | nil => exact ⟨m, rfl, .inr rfl, le_rfl, by simp⟩
  | cons c cps ih =>
    obtain ⟨p, hp, hmem, hcp, hmp⟩ := higherCheckpoint_spec (some m) c
    obtain ⟨n, hn, hfrom, hpn, hle⟩ := ih p
    refine ⟨n, by rw [List.foldl_cons, hp, hn], ?_, (hmp m rfl).trans hpn, ?_⟩
    · rcases hfrom with hfrom | rfl
      · exact .inl (List.mem_cons_of_mem _ hfrom)
      · rcases hmem with rfl | hmem
        · exact .inl List.mem_cons_self
        · exact .inr (Option.some.inj hmem).symm
    · simpa using ⟨hcp.trans hpn, hle⟩

theorem highest_spec (cps : List (AttestationCheckpoint H)) :
    (cps = [] ∧ highest cps = none) ∨
      ∃ m ∈ cps, highest cps = some m ∧ ∀ c ∈ cps, c.blockNumber ≤ m.blockNumber := by
  cases cps with
  | nil => exact .inl ⟨rfl, rfl⟩
  | cons c cps =>
    obtain ⟨n, hn, hmem, hcn, hle⟩ := foldl_higherCheckpoint_spec cps c
    refine .inr ⟨n, ?_, hn, by simpa using ⟨hcn, hle⟩⟩
    simpa using hmem.symm

theorem highest_eq_some_iff {cps : List (AttestationCheckpoint H)}
    (hnodup : (cps.map (·.blockNumber)).Nodup) {m : AttestationCheckpoint H} :
    highest cps = some m ↔ m ∈ cps ∧ ∀ c ∈ cps, c.blockNumber ≤ m.blockNumber := by
  rcases highest_spec cps with ⟨rfl, hnone⟩ | ⟨n, hn, hsome, hle⟩
  · simp [hnone]
  · rw [hsome, Option.some.injEq]
    constructor
    · rintro rfl
      exact ⟨hn, hle⟩
    · rintro ⟨hm, hmax⟩
      exact List.inj_on_of_nodup_map hnodup hn hm (le_antisymm (hmax n hn) (hle m hm))

/-! ## The result of an import -/

section Import

variable {a a' : Anchors H A} {batch : List (AttestationCheckpoint H)}

theorem importLoop_some_eq (hasAttestations : Bool) (l : AttestationCheckpoint H)
    (batch : List (AttestationCheckpoint H)) (newLast : Option (AttestationCheckpoint H))
    (a : Anchors H A) :
    importLoop hasAttestations (some l) batch newLast a =
      .ok (newLast,
        (newEntries (some l) batch a.checkpoints).foldl Anchors.recordCheckpoint a) := by
  induction batch generalizing a with
  | nil => rfl
  | cons c batch ih =>
    by_cases hfill : Fillable a.checkpoints (some l) c.blockNumber
    · have hlt : ¬ l.blockNumber ≤ c.blockNumber := by simpa using hfill.2 l rfl
      rw [newEntries_cons_of_fillable hfill]
      simp only [importLoop, hfill.1, Option.isSome_none, Bool.false_eq_true, if_false, hlt]
      exact ih _
    · rw [newEntries_cons_of_not_fillable hfill, ← ih]
      simp only [importLoop]
      by_cases hstored : (a.checkpoints.lookup c.blockNumber).isSome = true
      · rw [if_pos hstored]
      · have hle : l.blockNumber ≤ c.blockNumber := by
          by_contra hlt
          exact hfill ⟨by simpa using hstored, by simpa using hlt⟩
        rw [if_neg hstored, if_pos hle]

/-- With no last checkpoint and no attestation, the loop stores the new entries and finds the
highest one. -/
theorem importLoop_none_eq (batch : List (AttestationCheckpoint H))
    (newLast : Option (AttestationCheckpoint H)) (a : Anchors H A) :
    importLoop false none batch newLast a =
      .ok ((newEntries none batch a.checkpoints).foldl higherCheckpoint newLast,
        (newEntries none batch a.checkpoints).foldl Anchors.recordCheckpoint a) := by
  induction batch generalizing newLast a with
  | nil => rfl
  | cons c batch ih =>
    by_cases hfill : Fillable a.checkpoints none c.blockNumber
    · rw [newEntries_cons_of_fillable hfill]
      simp only [importLoop, hfill.1, Option.isSome_none, Bool.false_eq_true, if_false]
      exact ih _ _
    · rw [newEntries_cons_of_not_fillable hfill, ← ih]
      simp only [importLoop, if_pos (stored_of_not_fillable hfill)]

theorem importLoop_attested_eq (batch : List (AttestationCheckpoint H))
    (newLast : Option (AttestationCheckpoint H)) (a : Anchors H A) :
    importLoop true none batch newLast a =
      match newEntries none batch a.checkpoints with
      | [] => .ok (newLast, a)
      | _ :: _ => .error .lastCheckpointNotSet := by
  induction batch with
  | nil => rfl
  | cons c batch ih =>
    by_cases hfill : Fillable a.checkpoints none c.blockNumber
    · rw [newEntries_cons_of_fillable hfill]
      simp [importLoop, hfill.1]
    · rw [newEntries_cons_of_not_fillable hfill, ← ih]
      simp only [importLoop, if_pos (stored_of_not_fillable hfill)]

def Anchors.newEntries (a : Anchors H A) (batch : List (AttestationCheckpoint H)) :
    List (AttestationCheckpoint H) :=
  Creditcoin.newEntries a.lastCheckpoint batch a.checkpoints

def Anchors.afterImport (a : Anchors H A) (batch : List (AttestationCheckpoint H)) : Anchors H A :=
  a.imported (a.newEntries batch) (a.lastCheckpoint.or (highest (a.newEntries batch)))

theorem Anchors.imported_nil (a : Anchors H A) : a.imported [] a.lastCheckpoint = a := by
  simp [Anchors.imported, insertCheckpoints, insertBuckets]

/-- **When an import succeeds, and what it leaves.** -/
theorem doImportCheckpoints_eq_ok_iff {supported : Bool} :
    doImportCheckpoints supported a batch = .ok a' ↔
      supported = true ∧
      (a.lastCheckpoint = none → a.lastDigest ≠ none → a.newEntries batch = []) ∧
      a' = a.afterImport batch := by
  simp only [doImportCheckpoints, bind_eq_ok, ensure_eq_ok, exists_const]
  refine and_congr_right fun _ => ?_
  rw [Anchors.afterImport, Anchors.newEntries]
  rcases hlast : a.lastCheckpoint with _ | l
  · rcases hdigest : a.lastDigest with _ | d
    · simp only [Option.isSome_none, importLoop_none_eq, foldl_recordCheckpoint]
      rcases highest_spec (newEntries none batch a.checkpoints) with ⟨hnil, -⟩ | ⟨m, -, hsome, -⟩
      · rw [hnil]
        simp only [pure_eq_ok, Anchors.imported, highest, hlast, List.foldl_nil, List.map_nil,
          List.append_nil, Option.none_or, implies_true, ne_eq, not_true, true_and,
          Except.ok.injEq, exists_eq_left']
        exact eq_comm
      · rw [highest] at hsome
        simp only [pure_eq_ok, Anchors.imported, highest, hsome, Option.none_or, implies_true,
          ne_eq, not_true, false_imp_iff, true_and, Except.ok.injEq, exists_eq_left', or_true,
          if_true]
        exact eq_comm
    · simp only [Option.isSome_some, importLoop_attested_eq]
      rcases hnew : newEntries none batch a.checkpoints with _ | ⟨c, cps⟩
      · have hself := a.imported_nil
        rw [hlast] at hself
        simp only [pure_eq_ok, highest, hself, List.foldl_nil, Option.none_or, implies_true,
          true_and, Except.ok.injEq, exists_eq_left']
        exact eq_comm
      · simp
  · simp only [importLoop_some_eq, foldl_recordCheckpoint, Anchors.imported, Except.ok.injEq,
      exists_eq_left', Option.map_some, Option.getD_some, lt_irrefl, reduceCtorEq, or_self,
      if_false, pure_eq_ok, hlast, Option.some_or, false_imp_iff, true_and]
    exact eq_comm

theorem lookup_afterImport_of_some {n : ℕ} {d : H} (h : a.checkpoints.lookup n = some d) :
    (a.afterImport batch).checkpoints.lookup n = some d := by
  refine (lookup_insertCheckpoints_of_notMem _ _ fun c hc hn => ?_).trans h
  have hnone := (mem_newEntries.1 hc).2.1
  rw [hn, h] at hnone
  cases hnone

theorem lookup_afterImport_of_last {l : AttestationCheckpoint H} (hl : a.lastCheckpoint = some l)
    {n : ℕ} (hn : l.blockNumber ≤ n) :
    (a.afterImport batch).checkpoints.lookup n = a.checkpoints.lookup n := by
  refine lookup_insertCheckpoints_of_notMem _ _ fun c hc hcn => ?_
  have hlt := (mem_newEntries.1 hc).2.2 l hl
  omega

theorem lookup_afterImport_of_fillable {n : ℕ}
    (h : Fillable a.checkpoints a.lastCheckpoint n) :
    (a.afterImport batch).checkpoints.lookup n = (firstEntry batch n).map (·.digest) := by
  have hcases := lookup_insertCheckpoints_cases a.checkpoints (a.newEntries batch) n
  rw [Anchors.afterImport, Anchors.imported]
  rcases hcases with ⟨c, hc, rfl, hlookup⟩ | ⟨hne, hlookup⟩
  · rw [hlookup, (mem_newEntries.1 hc).1, Option.map_some]
  · rw [hlookup, h.1]
    rcases hfirst : firstEntry batch n with _ | c
    · rfl
    · have hn := blockNumber_of_firstEntry hfirst
      subst hn
      exact absurd rfl (hne c (mem_newEntries.2 ⟨hfirst, h⟩))

/-- **A second import stores nothing.** -/
theorem newEntries_afterImport : (a.afterImport batch).newEntries batch = [] := by
  rw [List.eq_nil_iff_forall_not_mem]
  intro c hc
  obtain ⟨hfirst, hnone, hbelow⟩ := mem_newEntries.1 hc
  -- The height was free before as well, so the first import has stored its first entry.
  have hfree : Fillable a.checkpoints a.lastCheckpoint c.blockNumber := by
    constructor
    · rcases hstored : a.checkpoints.lookup c.blockNumber with _ | d
      · rfl
      · rw [lookup_afterImport_of_some hstored] at hnone
        cases hnone
    · intro l hl
      refine hbelow l ?_
      show a.lastCheckpoint.or _ = some l
      rw [Option.mem_def.1 hl, Option.some_or]
  rw [lookup_afterImport_of_fillable hfree, hfirst] at hnone
  cases hnone

theorem afterImport_afterImport :
    (a.afterImport batch).afterImport batch = a.afterImport batch := by
  rw [Anchors.afterImport, newEntries_afterImport]
  have hlast : (a.afterImport batch).lastCheckpoint.or (highest []) =
      (a.afterImport batch).lastCheckpoint := Option.or_none
  rw [hlast, Anchors.imported_nil]

theorem lastCheckpoint_afterImport_of_blank (hstored : a.checkpoints = ∅)
    (hlast : a.lastCheckpoint = none) (c : AttestationCheckpoint H) :
    (a.afterImport batch).lastCheckpoint = some c ↔
      firstEntry batch c.blockNumber = some c ∧ ∀ c' ∈ batch, c'.blockNumber ≤ c.blockNumber := by
  have hfill : ∀ n, Fillable a.checkpoints a.lastCheckpoint n := fun n => by
    simp [Fillable, hstored, hlast]
  have hlastEq : (a.afterImport batch).lastCheckpoint = highest (a.newEntries batch) := by
    rw [Anchors.afterImport, hlast, Option.none_or]
    rfl
  have hnodup : ((a.newEntries batch).map (·.blockNumber)).Nodup := nodup_newEntries
  rw [hlastEq, highest_eq_some_iff hnodup]
  refine and_congr ?_ ?_
  · exact mem_newEntries.trans (and_iff_left (hfill _))
  · constructor
    · intro h c' hc'
      obtain ⟨f, hf, hheight⟩ := exists_firstEntry hc'
      rw [← hheight] at hf
      exact hheight ▸ h f (mem_newEntries.2 ⟨hf, hfill _⟩)
    · intro h c' hc'
      exact h c' (List.mem_of_find?_eq_some (mem_newEntries.1 hc').1)

/-! ## Reordering a batch -/

/-- The same rows, with the events in any order. -/
structure Anchors.SameStorage (a b : Anchors H A) : Prop where
  checkpoints : ∀ n, a.checkpoints.lookup n = b.checkpoints.lookup n
  checkpointBuckets : ∀ row, a.checkpointBuckets.lookup row = b.checkpointBuckets.lookup row
  events : a.events.Perm b.events
  rest : b = { a with
    checkpoints := b.checkpoints
    checkpointBuckets := b.checkpointBuckets
    events := b.events }

variable {cps' cps : List (AttestationCheckpoint H)}

theorem lookup_insertCheckpoints_perm (m : StorageMap ℕ H) (hperm : cps.Perm cps')
    (hnodup : (cps.map (·.blockNumber)).Nodup) (n : ℕ) :
    (insertCheckpoints m cps).lookup n = (insertCheckpoints m cps').lookup n := by
  rcases lookup_insertCheckpoints_cases m cps n with ⟨c, hc, hn, hlookup⟩ | ⟨hne, hlookup⟩ <;>
    rcases lookup_insertCheckpoints_cases m cps' n with ⟨c', hc', hn', hlookup'⟩ | ⟨hne', hlookup'⟩
  · have heq : c = c' :=
      List.inj_on_of_nodup_map hnodup hc (hperm.mem_iff.2 hc') (hn.trans hn'.symm)
    rw [hlookup, hlookup', heq]
  · exact absurd hn (hne' c (hperm.mem_iff.1 hc))
  · exact absurd hn' (hne c' (hperm.mem_iff.2 hc'))
  · rw [hlookup, hlookup']

theorem lookup_insertBuckets_perm (m : StorageMap (ℕ × ℕ) Unit) (hperm : cps.Perm cps')
    (row : ℕ × ℕ) : (insertBuckets m cps).lookup row = (insertBuckets m cps').lookup row := by
  have hsome : ((insertBuckets m cps).lookup row).isSome = true ↔
      ((insertBuckets m cps').lookup row).isSome = true := by
    rw [isSome_lookup_insertBuckets, isSome_lookup_insertBuckets]
    simp only [hperm.mem_iff]
  cases h : (insertBuckets m cps).lookup row <;> cases h' : (insertBuckets m cps').lookup row <;>
    simp [h, h'] at hsome ⊢

theorem newEntries_perm {batch' : List (AttestationCheckpoint H)} (hperm : batch.Perm batch')
    (hnodup : (batch.map (·.blockNumber)).Nodup) :
    (a.newEntries batch).Perm (a.newEntries batch') := by
  have hnodup' : (batch'.map (·.blockNumber)).Nodup := (hperm.map _).nodup_iff.1 hnodup
  refine (List.perm_ext_iff_of_nodup nodup_newEntries.of_map nodup_newEntries.of_map).2 fun c => ?_
  rw [mem_newEntries, mem_newEntries, firstEntry_eq_some_iff hnodup, firstEntry_eq_some_iff hnodup',
    hperm.mem_iff]

theorem highest_perm (hperm : cps.Perm cps') (hnodup : (cps.map (·.blockNumber)).Nodup) :
    highest cps = highest cps' := by
  refine Option.ext fun m => ?_
  rw [highest_eq_some_iff hnodup, highest_eq_some_iff ((hperm.map _).nodup_iff.1 hnodup)]
  simp only [hperm.mem_iff]

/-- **The order of a batch with distinct heights does not matter.** -/
theorem sameStorage_afterImport {batch' : List (AttestationCheckpoint H)}
    (hperm : batch.Perm batch') (hnodup : (batch.map (·.blockNumber)).Nodup) :
    (a.afterImport batch).SameStorage (a.afterImport batch') where
  checkpoints := lookup_insertCheckpoints_perm _ (newEntries_perm hperm hnodup) nodup_newEntries
  checkpointBuckets := lookup_insertBuckets_perm _ (newEntries_perm hperm hnodup)
  events := ((newEntries_perm hperm hnodup).map _).append_left _
  rest := by
    have hlast := highest_perm (newEntries_perm (a := a) hperm hnodup) nodup_newEntries
    simp only [Anchors.afterImport, Anchors.imported, hlast]

end Import

/-! ## The call -/

section Call

variable [DecidableEq H] [DecidableEq A] {T : Config H A B} {host : Host H A} {s s' : State H A B}
  {o : Origin A} {k : ChainKey} {batch : List (AttestationCheckpoint H)}

omit [DecidableEq H] [DecidableEq A] in
theorem State.setAnchors_setAnchors (T : Config H A B) (s : State H A B) (k : ChainKey)
    (a b : Anchors H A) : (s.setAnchors T k a).setAnchors T k b = s.setAnchors T k b := by
  rw [State.setAnchors, State.setAnchors, State.chain_setChain_self]
  simp only [State.setAnchors, State.setChain, AList.insert_insert]

theorem dispatch_importCheckpoints_eq_ok_iff :
    dispatch T host s o (.importCheckpoints k batch) = .ok s' ↔
      T.operatorsOrigin o = true ∧ batch.length ≤ T.maxCheckpointsImportedPerCall ∧
      s.isChainSupported k = true ∧
      ((s.chain T k).anchors.lastCheckpoint = none → (s.chain T k).anchors.lastDigest ≠ none →
        (s.chain T k).anchors.newEntries batch = []) ∧
      s' = s.setAnchors T k ((s.chain T k).anchors.afterImport batch) := by
  simp only [dispatch, asOperator_eq_ok, bind_eq_ok, withAnchors_eq_ok, ensureBatch, ensure_eq_ok,
    exists_const, doImportCheckpoints_eq_ok_iff]
  constructor
  · rintro ⟨hop, hlen, a', ⟨hsup, hok, rfl⟩, rfl⟩
    exact ⟨hop, hlen, hsup, hok, rfl⟩
  · rintro ⟨hop, hlen, hsup, hok, rfl⟩
    exact ⟨hop, hlen, _, ⟨hsup, hok, rfl⟩, rfl⟩

/-- **The effect of a call to `import_checkpoints`.** Only the anchors of the chain change. No
stored digest changes, nothing is stored from an existing last checkpoint on, and that checkpoint
stays. On a chain with no checkpoint, each height of the batch gets the first digest given for it,
and the highest one becomes the last checkpoint. Reordering a batch with distinct heights gives the
same storage, and the same call again changes nothing. -/
theorem importCheckpoints_effect (h : dispatch T host s o (.importCheckpoints k batch) = .ok s') :
    let a := (s.chain T k).anchors
    let a' := (s'.chain T k).anchors
    s' = s.setAnchors T k { a with
        checkpoints := a'.checkpoints
        checkpointBuckets := a'.checkpointBuckets
        lastCheckpoint := a'.lastCheckpoint
        events := a'.events } ∧
      (∀ n d, a.checkpoints.lookup n = some d → a'.checkpoints.lookup n = some d) ∧
      (∀ l, a.lastCheckpoint = some l → a'.lastCheckpoint = some l ∧
        ∀ n, l.blockNumber ≤ n → a'.checkpoints.lookup n = a.checkpoints.lookup n) ∧
      (a.checkpoints = ∅ → a.lastCheckpoint = none →
        (∀ n, a'.checkpoints.lookup n = (firstEntry batch n).map (·.digest)) ∧
        ∀ c, a'.lastCheckpoint = some c ↔ firstEntry batch c.blockNumber = some c ∧
          ∀ c' ∈ batch, c'.blockNumber ≤ c.blockNumber) ∧
      (∀ batch', batch.Perm batch' → (batch.map (·.blockNumber)).Nodup →
        ∃ b, dispatch T host s o (.importCheckpoints k batch') = .ok (s.setAnchors T k b) ∧
          a'.SameStorage b) ∧
      dispatch T host s' o (.importCheckpoints k batch) = .ok s' := by
  intro a a'
  obtain ⟨hop, hlen, hsup, hok, hs'⟩ := dispatch_importCheckpoints_eq_ok_iff.1 h
  have ha' : a' = a.afterImport batch := by
    show (s'.chain T k).anchors = _
    rw [hs', State.anchors_setAnchors]
  refine ⟨?_, ?_, ?_, ?_, ?_, ?_⟩
  · rw [ha', hs']
    rfl
  · intro n d hd
    rw [ha']
    exact lookup_afterImport_of_some hd
  · intro l hl
    rw [ha']
    refine ⟨?_, fun n hn => lookup_afterImport_of_last hl hn⟩
    show a.lastCheckpoint.or _ = some l
    rw [hl, Option.some_or]
  · intro hstored hlast
    rw [ha']
    refine ⟨fun n => lookup_afterImport_of_fillable ?_,
      fun c => lastCheckpoint_afterImport_of_blank hstored hlast c⟩
    simp [Fillable, hstored, hlast]
  · intro batch' hperm hnodup
    refine ⟨a.afterImport batch', dispatch_importCheckpoints_eq_ok_iff.2 ⟨hop, ?_, hsup, ?_, rfl⟩,
      ha' ▸ sameStorage_afterImport hperm hnodup⟩
    · rw [← hperm.length_eq]
      exact hlen
    · intro hlast hdigest
      have hnil := newEntries_perm (a := a) hperm hnodup
      rw [show a.newEntries batch = [] from hok hlast hdigest] at hnil
      exact hnil.nil_eq.symm
  · have hagain : s' = s'.setAnchors T k (a'.afterImport batch) := by
      rw [ha', afterImport_afterImport, hs']
      exact (State.setAnchors_setAnchors T s k _ _).symm
    refine dispatch_importCheckpoints_eq_ok_iff.2 ⟨hop, hlen, ?_, fun _ _ => ?_, hagain⟩
    · rw [hs']
      exact hsup
    · show a'.newEntries batch = []
      rw [ha', newEntries_afterImport]

end Call

namespace Devnet

def repeatedBatch : List (AttestationCheckpoint Word) :=
  [checkpoint 20, checkpoint 40, .of 20 (.root 21), .of 40 (.root 41)]

/-- A chain with no checkpoint takes the first digest of each height of the batch. -/
theorem repeatedBatch_import :
    ((after (genesisConfig 10 10 []) []).chain config 1).anchors.checkpoints = ∅ ∧
    ((after (genesisConfig 10 10 []) []).chain config 1).anchors.lastCheckpoint = none ∧
    ∃ s', dispatch config host (after (genesisConfig 10 10 []) []) .root
        (.importCheckpoints 1 repeatedBatch) = .ok s' ∧
      (s'.chain config 1).anchors.checkpoints.lookup 20 = some (.root 20) ∧
      (s'.chain config 1).anchors.lastCheckpoint = some ⟨40, .root 40, by decide⟩ := by
  have hblank : ((after (genesisConfig 10 10 []) []).chain config 1).anchors.checkpoints = ∅ :=
    AList.ext (by rfl)
  have hlast : ((after (genesisConfig 10 10 []) []).chain config 1).anchors.lastCheckpoint =
      none := by
    rfl
  have himport : dispatch config host (after (genesisConfig 10 10 []) []) .root
      (.importCheckpoints 1 repeatedBatch) = .ok _ := dispatch_eq_step (by rfl)
  obtain ⟨-, -, -, hstores, -⟩ := importCheckpoints_effect himport
  obtain ⟨hlookup, hhighest⟩ := hstores hblank hlast
  exact ⟨hblank, hlast, _, himport, hlookup 20, (hhighest _).2 ⟨by decide, by decide⟩⟩

end Devnet

end Creditcoin
