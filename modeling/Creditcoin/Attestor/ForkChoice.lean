import Creditcoin.Attestor.PoolSafety

/-!
# The choice of a fork

A fork leads its height if it is not set aside, has as many votes as are asked for, and has more
than every other fork of its height that is not set aside (`Forks.Leads`). The pool hands out the
fork that leads the greatest height at which there is one (`best_spec`). The search passes once over
an index ordered by height and size, which has exactly one entry for each fork, with the number of
its signers (`Forks.Indexed`). -/

namespace Creditcoin.Attestor

variable {H A : Type} [DecidableEq H]

/-! ## The search -/

namespace Forks

variable {f : Forks H A} {digestOrd : H → ℕ} {target : ℕ} {l : List (ℕ × ℕ × H)} {e e₀ : ℕ × ℕ × H}

/-- An entry that leads its height among some entries. -/
structure LeadsIn (f : Forks H A) (target : ℕ) (l : List (ℕ × ℕ × H)) (e : ℕ × ℕ × H) : Prop where
  mem : e ∈ l
  active : (e.1, e.2.2) ∉ f.deferred
  enough : target ≤ e.2.1
  most : ∀ e' ∈ l, e' ≠ e → e'.1 = e.1 → (e'.1, e'.2.2) ∉ f.deferred → e'.2.1 < e.2.1

omit [DecidableEq H] in
theorem leadsIn_cons_iff (h₀ : (e₀.1, e₀.2.2) ∈ f.deferred ∨ e₀.1 ≠ e.1) :
    f.LeadsIn target (e₀ :: l) e ↔ f.LeadsIn target l e := by
  constructor
  · intro h
    have hne : e ≠ e₀ := by
      rintro rfl
      exact h₀.elim h.active fun hne => hne rfl
    exact ⟨(List.mem_cons.1 h.mem).resolve_left hne, h.active, h.enough,
      fun e' he' => h.most e' (List.mem_cons_of_mem _ he')⟩
  · intro h
    refine ⟨List.mem_cons_of_mem _ h.mem, h.active, h.enough, fun e' he' hne hheight hactive => ?_⟩
    rcases List.mem_cons.1 he' with rfl | he'
    · exact absurd h₀ (not_or.2 ⟨hactive, not_not.2 hheight⟩)
    · exact h.most e' he' hne hheight hactive

instance : Std.Total (searchedBefore digestOrd) := ⟨fun e e' => by unfold searchedBefore; omega⟩

instance : IsTrans (ℕ × ℕ × H) (searchedBefore digestOrd) :=
  ⟨fun e e' e'' h h' => by unfold searchedBefore at *; omega⟩

omit [DecidableEq H] in
theorem takeWhile_height_eq_filter {height : ℕ} (hsorted : l.Pairwise (searchedBefore digestOrd))
    (hle : ∀ e ∈ l, e.1 ≤ height) :
    l.takeWhile (·.1 = height) = l.filter (·.1 = height) := by
  induction l with
  | nil => rfl
  | cons e l ih =>
    obtain ⟨hfirst, hrest⟩ := List.pairwise_cons.1 hsorted
    by_cases heq : e.1 = height
    · rw [List.takeWhile_cons_of_pos (by simpa using heq),
        List.filter_cons_of_pos (by simpa using heq),
        ih hrest fun e' he' => hle e' (List.mem_cons_of_mem _ he')]
    · rw [List.takeWhile_cons_of_neg (by simpa using heq), eq_comm, List.filter_eq_nil_iff]
      intro e' he'
      have hmax := hle e List.mem_cons_self
      rcases List.mem_cons.1 he' with rfl | he'
      · simpa using heq
      · have hbefore := hfirst e' he'
        unfold searchedBefore at hbefore
        simp only [decide_eq_true_eq]
        omega

theorem tied_eq_false_iff (hsorted : (e₀ :: l).Pairwise (searchedBefore digestOrd)) :
    f.tied e₀.1 e₀.2.1 l = false ↔
      ∀ e ∈ l, e.1 = e₀.1 → (e.1, e.2.2) ∉ f.deferred → e.2.1 < e₀.2.1 := by
  obtain ⟨hfirst, hrest⟩ := List.pairwise_cons.1 hsorted
  have hsize : ∀ e ∈ l, e.1 = e₀.1 → e.2.1 ≤ e₀.2.1 := fun e he heq => by
    have hbefore := hfirst e he
    unfold searchedBefore at hbefore
    omega
  have hle : ∀ e ∈ l, e.1 ≤ e₀.1 := fun e he => by
    have hbefore := hfirst e he
    unfold searchedBefore at hbefore
    omega
  unfold tied
  rw [takeWhile_height_eq_filter hrest hle, List.find?_filter]
  generalize hfind : l.find? _ = found
  cases found with
  | none =>
    have hnone := List.find?_eq_none.1 hfind
    simp only [decide_eq_true_eq, not_and, not_not] at hnone
    exact iff_of_true rfl fun e he heq hactive => absurd (hnone e he heq) hactive
  | some x =>
    obtain ⟨hx, before, after, rfl, hbefore⟩ := List.find?_eq_some_iff_append.1 hfind
    simp only [decide_eq_true_eq] at hx
    have hmem : x ∈ before ++ x :: after := by simp
    have hxsize := hsize x hmem hx.1
    simp only [Option.any_some, decide_eq_false_iff_not]
    constructor
    · intro hne e he heq hactive
      rcases List.mem_append.1 he with he | he
      · have hskipped := hbefore e he
        simp [heq, heq ▸ hactive] at hskipped
      · rcases List.mem_cons.1 he with rfl | he
        · omega
        · have hxe := (List.pairwise_cons.1 (List.pairwise_append.1 hrest).2.1).1 e he
          unfold searchedBefore at hxe
          omega
    · intro h heq
      have hlt := h x hmem hx.1 hx.2
      omega

theorem leadsIn_head_iff (hsorted : (e₀ :: l).Pairwise (searchedBefore digestOrd))
    (hnodup : (e₀ :: l).Nodup) (hactive : (e₀.1, e₀.2.2) ∉ f.deferred) :
    f.LeadsIn target (e₀ :: l) e₀ ↔ target ≤ e₀.2.1 ∧ f.tied e₀.1 e₀.2.1 l = false := by
  rw [tied_eq_false_iff hsorted]
  constructor
  · intro h
    refine ⟨h.enough, fun e he => h.most e (List.mem_cons_of_mem _ he) ?_⟩
    rintro rfl
    exact (List.nodup_cons.1 hnodup).1 he
  · rintro ⟨henough, hmost⟩
    refine ⟨List.mem_cons_self, hactive, henough, fun e he hne => ?_⟩
    exact hmost e ((List.mem_cons.1 he).resolve_left hne)

omit [DecidableEq H] in
theorem height_ne_of_leadsIn (hsorted : (e₀ :: l).Pairwise (searchedBefore digestOrd))
    (hactive : (e₀.1, e₀.2.2) ∉ f.deferred) (hhead : ¬ f.LeadsIn target (e₀ :: l) e₀)
    (h : f.LeadsIn target (e₀ :: l) e) : e₀.1 ≠ e.1 := by
  intro heq
  have hne : e₀ ≠ e := fun hne => hhead (hne ▸ h)
  have hlt := h.most e₀ List.mem_cons_self hne heq hactive
  have hbefore := (List.pairwise_cons.1 hsorted).1 e
    ((List.mem_cons.1 h.mem).resolve_left (Ne.symm hne))
  unfold searchedBefore at hbefore
  omega

/-- An entry that leads its height, which is not passed over. -/
def Eligible (f : Forks H A) (target : ℕ) (skip : Option ℕ) (l : List (ℕ × ℕ × H))
    (e : ℕ × ℕ × H) : Prop :=
  f.LeadsIn target l e ∧ skip ≠ some e.1

theorem bestFrom_spec (f : Forks H A) (target : ℕ) (hsorted : l.Pairwise (searchedBefore digestOrd))
    (hnodup : l.Nodup) {skip : Option ℕ} (hskip : ∀ n ∈ skip, ∀ e ∈ l, e.1 ≤ n) :
    (∃ e, f.Eligible target skip l e ∧ (∀ e', f.Eligible target skip l e' → e'.1 ≤ e.1) ∧
        f.bestFrom target skip l = f.byDigest.lookup (e.1, e.2.2)) ∨
      (∀ e, ¬ f.Eligible target skip l e) ∧ f.bestFrom target skip l = none := by
  induction l generalizing skip with
  | nil => exact .inr ⟨fun e h => (by cases h.1.mem), rfl⟩
  | cons e₀ l ih =>
    have hrest := (List.pairwise_cons.1 hsorted).2
    have hnodup' := (List.nodup_cons.1 hnodup).2
    have hbelow : ∀ e ∈ e₀ :: l, e.1 ≤ e₀.1 := by
      intro e he
      rcases List.mem_cons.1 he with rfl | he
      · exact le_rfl
      · have hbefore := (List.pairwise_cons.1 hsorted).1 e he
        unfold searchedBefore at hbefore
        omega
    have htail : ∀ n ∈ some e₀.1, ∀ e ∈ l, e.1 ≤ n := fun n hn e he =>
      Option.mem_some_iff.1 hn ▸ hbelow e (List.mem_cons_of_mem _ he)
    unfold bestFrom
    by_cases hheight : skip = some e₀.1
    · -- The rest of a height that was decided.
      rw [if_pos hheight]
      have hiff : ∀ e, f.Eligible target skip (e₀ :: l) e ↔ f.Eligible target skip l e := by
        intro e
        rw [hheight]
        exact and_congr_left fun hne =>
          leadsIn_cons_iff (.inr fun heq => hne (congrArg some heq))
      simp only [hiff]
      exact ih hrest hnodup' (hheight ▸ htail)
    · rw [if_neg hheight]
      have hfree : ∀ {e}, f.LeadsIn target (e₀ :: l) e → skip ≠ some e.1 := by
        intro e h heq
        have hle := hskip e.1 heq e₀ List.mem_cons_self
        have hge := hbelow e h.mem
        exact hheight (heq.trans (congrArg some (by omega)))
      by_cases hdeferred : (e₀.1, e₀.2.2) ∈ f.deferred
      · rw [if_pos hdeferred]
        have hiff : ∀ e, f.Eligible target skip (e₀ :: l) e ↔ f.Eligible target none l e :=
          fun e => ⟨fun h => ⟨(leadsIn_cons_iff (.inl hdeferred)).1 h.1, by simp⟩, fun h =>
            have hcons := (leadsIn_cons_iff (.inl hdeferred)).2 h.1
            ⟨hcons, hfree hcons⟩⟩
        simp only [hiff]
        exact ih hrest hnodup' (by simp)
      · rw [if_neg hdeferred]
        by_cases hhead : f.LeadsIn target (e₀ :: l) e₀
        · rw [if_pos ((leadsIn_head_iff hsorted hnodup hdeferred).1 hhead)]
          exact .inl ⟨e₀, ⟨hhead, hheight⟩, fun e' h => hbelow e' h.1.mem, rfl⟩
        · rw [if_neg (mt (leadsIn_head_iff hsorted hnodup hdeferred).2 hhead)]
          have hiff : ∀ e, f.Eligible target skip (e₀ :: l) e ↔
              f.Eligible target (some e₀.1) l e := by
            intro e
            constructor
            · intro h
              have hne := height_ne_of_leadsIn hsorted hdeferred hhead h.1
              exact ⟨(leadsIn_cons_iff (.inr hne)).1 h.1, fun heq => hne (Option.some.inj heq)⟩
            · intro h
              have hcons := (leadsIn_cons_iff
                (.inr fun heq => h.2 (congrArg some heq))).2 h.1
              exact ⟨hcons, hfree hcons⟩
          simp only [hiff]
          exact ih hrest hnodup' htail

end Forks

variable [DecidableEq A]

namespace Forks

variable {f f' : Forks H A} {key : ℕ × H} {fork : AttestationVote H A}

/-! ## The index -/

/-- The index has exactly one entry for each fork. -/
structure Indexed (f : Forks H A) : Prop where
  consistent : f.Consistent
  complete : ∀ {key fork}, f.byDigest.lookup key = some fork →
    (key.1, fork.signers.card, key.2) ∈ f.byHeightSize
  nodup : f.byHeightSize.Nodup

theorem indexed_of_empty (h : f.byDigest = ∅) (hindex : f.byHeightSize = []) : f.Indexed := by
  have hnone : ∀ key, f.byDigest.lookup key = none := fun key => by
    rw [h, StorageMap.lookup_empty_eq]
  refine ⟨⟨?_, ?_, ?_, fun _ => hnone _⟩, ?_, ?_⟩ <;> simp [hnone, hindex]

theorem mem_filter_of_key_ne {l : List (ℕ × ℕ × H)} {key' : ℕ × H} {n m : ℕ}
    (he : (key.1, n, key.2) ∈ l) (hne : key ≠ key') :
    (key.1, n, key.2) ∈ l.filter (· ≠ (key'.1, m, key'.2)) := by
  refine List.mem_filter.2 ⟨he, decide_eq_true fun heq => hne ?_⟩
  exact Prod.ext (Prod.mk.inj heq).1 (Prod.mk.inj (Prod.mk.inj heq).2).2

theorem Indexed.restrict (h : f.Indexed) (hr : f.Restricts f')
    (hkept : ∀ {key fork}, f'.byDigest.lookup key = some fork →
      (key.1, fork.signers.card, key.2) ∈ f.byHeightSize →
        (key.1, fork.signers.card, key.2) ∈ f'.byHeightSize)
    (hsub : f'.byHeightSize.Sublist f.byHeightSize) : f'.Indexed where
  consistent := h.consistent.restrict hr
  complete hfork := hkept hfork (h.complete (hr.lookup hfork))
  nodup := h.nodup.sublist hsub

theorem Indexed.replace (h : f.Indexed) (hcons : f'.Consistent) {n : ℕ}
    (hlookup : ∀ key', f'.byDigest.lookup key' =
      if key' = key then some fork else f.byDigest.lookup key')
    (hindex : f'.byHeightSize = (f.byHeightSize.filter (· ≠ (key.1, n, key.2))).insert
      (key.1, fork.signers.card, key.2)) : f'.Indexed where
  consistent := hcons
  complete {key' fork'} hfork := by
    rw [hindex, List.mem_insert_iff]
    rw [hlookup] at hfork
    split at hfork
    · next heq =>
      rw [heq, Option.some.inj hfork]
      exact .inl rfl
    · next hne => exact .inr (mem_filter_of_key_ne (h.complete hfork) hne)
  nodup := by
    rw [hindex]
    exact (h.nodup.filter _).insert

theorem Indexed.push (h : f.Indexed) {vote : Vote H A} (hpush : f.push vote = .ok f') :
    f'.Indexed := by
  have hcons := h.consistent.push hpush
  rcases push_cases hpush with rfl | ⟨-, -, rfl⟩
  · exact h
  · exact h.replace hcons (fun key' => StorageMap.lookup_insert_eq _ _ _ _) rfl

theorem Indexed.dropFork (h : f.Indexed) (height : ℕ) (digest : H) :
    (f.dropFork height digest).Indexed := by
  refine h.restrict (h.consistent.restricts_dropFork height digest) (fun {key fork} hfork he => ?_)
    ?_
  · rw [lookup_dropFork] at hfork
    split at hfork
    · cases hfork
    · next hne =>
      unfold Forks.dropFork
      split
      · exact mem_filter_of_key_ne he hne
      · exact he
  · unfold Forks.dropFork
    split
    · exact List.filter_sublist
    · exact List.Sublist.refl _

theorem Indexed.invalidateFork (h : f.Indexed) (height : ℕ) (digest : H) :
    (f.invalidateFork height digest).Indexed where
  consistent := h.consistent.invalidateFork
  complete := (h.dropFork height digest).complete
  nodup := (h.dropFork height digest).nodup

theorem byHeightSize_foldl_forgetFork {split : ℕ} {rows : List ((ℕ × H) × AttestationVote H A)}
    (hrows : ∀ row ∈ rows, row.1.1 < split) (f : Forks H A) :
    (rows.foldl forgetFork f).byHeightSize.Sublist f.byHeightSize ∧
      ∀ e ∈ f.byHeightSize, split ≤ e.1 → e ∈ (rows.foldl forgetFork f).byHeightSize := by
  induction rows generalizing f with
  | nil => exact ⟨List.Sublist.refl _, fun _ he _ => he⟩
  | cons row rows ih =>
    obtain ⟨hrow, hrest⟩ := List.forall_mem_cons.1 hrows
    obtain ⟨hsub, hkept⟩ := ih hrest (forgetFork f row)
    refine ⟨hsub.trans List.filter_sublist, fun e he hle => hkept e ?_ hle⟩
    refine List.mem_filter.2 ⟨he, decide_eq_true fun heq => ?_⟩
    have hheight : e.1 = row.1.1 := congrArg Prod.fst heq
    omega

theorem Indexed.splitOff (h : f.Indexed) (n : ℕ) : (f.splitOff n).Indexed := by
  obtain ⟨hsub, hkept⟩ := byHeightSize_foldl_forgetFork (splitOff_rows_lt f n)
    { f with byDigest := f.byDigest.retain fun key => satAdd u64Max n 1 ≤ key.1 }
  refine h.restrict (f.splitOff_restricts n) (fun {key fork} hfork he => ?_)
    (List.filter_sublist.trans hsub)
  rw [(f.splitOff_eq n).1] at hfork
  split at hfork
  · next hle => exact List.mem_filter.2 ⟨hkept _ he hle, decide_eq_true hle⟩
  · cases hfork

theorem Indexed.noteFinalized (h : f.Indexed) (height : ℕ) (digest : H) :
    (f.noteFinalized height digest).Indexed := by
  have hsplit := h.splitOff height
  exact ⟨⟨hsplit.consistent.counts, hsplit.consistent.indexed, hsplit.consistent.seen_eq,
    fun hkey => hsplit.consistent.valid (Finset.mem_filter.1 hkey).1⟩, hsplit.complete,
    hsplit.nodup⟩

theorem Indexed.retainFork (h : f.Indexed) (keep : Finset A) (key : ℕ × H) :
    (f.retainFork keep key).Indexed := by
  have hcons := h.consistent.retainFork keep key
  rcases hentry : f.byDigest.lookup key with _ | entry
  · simpa only [Forks.retainFork, hentry] using h
  simp only [Forks.retainFork, hentry] at hcons ⊢
  split_ifs at hcons ⊢ with hcard hempty
  · -- The number of signers is the same, and so is the entry.
    refine ⟨hcons, fun {key' fork'} hfork => ?_, h.nodup⟩
    rw [StorageMap.lookup_insert_eq] at hfork
    split at hfork
    · next heq =>
      rw [heq, ← Option.some.inj hfork, hcard]
      exact h.complete hentry
    · exact h.complete hfork
  · refine ⟨hcons, fun {key' fork'} hfork => ?_, h.nodup.filter _⟩
    rw [StorageMap.lookup_erase_eq] at hfork
    split at hfork
    · cases hfork
    · next hne => exact mem_filter_of_key_ne (h.complete hfork) hne
  · exact h.replace hcons (fun _ => StorageMap.lookup_insert_eq _ _ _ _) rfl

theorem Indexed.setDeferred (h : f.Indexed) (deferred : Finset (ℕ × H)) :
    Indexed { f with deferred := deferred } :=
  ⟨⟨h.consistent.counts, h.consistent.indexed, h.consistent.seen_eq, h.consistent.valid⟩,
    h.complete, h.nodup⟩

theorem Indexed.retainSigners (h : f.Indexed) (keep : Finset A) :
    (f.retainSigners keep).Indexed := by
  have hfold : ∀ (keys : List (ℕ × H)) {f : Forks H A}, f.Indexed →
      (keys.foldl (fun f key => Forks.retainFork f keep key) f).Indexed := by
    intro keys
    induction keys with
    | nil => exact id
    | cons key keys ih => exact fun h => ih (h.retainFork keep key)
  have hkept := hfold f.byDigest.keys (h.setDeferred ∅)
  exact ⟨(h.consistent.retainSigners keep).1, hkept.complete, hkept.nodup⟩

end Forks

namespace Pool

theorem indexed_step {p : Pool H A} (h : p.forks.Indexed) (action : PoolAction H A) :
    (p.step action).forks.Indexed := by
  cases action with
  | send vote =>
    simp only [Pool.step]
    split
    · next hpush =>
      obtain ⟨-, -, forks, hforks, rfl⟩ := push_eq_ok hpush
      exact h.push hforks
    · exact h
  | noteAttestationFinalization height digest => exact h.noteFinalized height digest
  | noteAttestationIntervalChange _ | noteAttestationChainReversion _ _ =>
    exact Forks.indexed_of_empty rfl rfl
  | noteAttestorsElected attestors => exact h.retainSigners _
  | noteMaxCatchupChange maxCatchup => exact h
  | noteQuorumChange threshold =>
    simp only [Pool.step]
    split
    · exact h.setDeferred ∅
    · exact h
  | noteMajorityNotReached _ | takeNextValidated =>
    simp only [Pool.step]
    split <;> exact h
  | markValid _ | markForLater _ _ => exact h.splitOff _
  | markInvalid permit => exact h.invalidateFork _ _
  | markSkipped permit => exact h.dropFork _ _
  | defer permit =>
    simp only [Pool.step, Pool.defer]
    split
    · exact h.setDeferred _
    · exact h

theorem indexed_run (config : PoolConfig H A) (actions : List (PoolAction H A)) :
    ((Pool.new config).run actions).forks.Indexed := by
  have hrun : ∀ {p : Pool H A}, p.forks.Indexed → (p.run actions).forks.Indexed := by
    induction actions with
    | nil => exact id
    | cons action actions ih => exact fun h => ih (indexed_step h action)
  exact hrun (Forks.indexed_of_empty rfl rfl)

end Pool

/-! ## The best fork -/

namespace Forks

variable {f : Forks H A} {fork : AttestationVote H A} {target : ℕ}

/-- A fork leads its height: it is not set aside, it has enough votes, and it has more than every
other fork of its height that is not set aside. -/
structure Leads (f : Forks H A) (target : ℕ) (fork : AttestationVote H A) : Prop where
  mem : f.byDigest.lookup (fork.height, fork.digest) = some fork
  active : (fork.height, fork.digest) ∉ f.deferred
  enough : target ≤ fork.votes.length
  most : ∀ digest other, digest ≠ fork.digest →
    f.byDigest.lookup (fork.height, digest) = some other → (fork.height, digest) ∉ f.deferred →
      other.votes.length < fork.votes.length

omit [DecidableEq A] in
theorem Leads.eq_of_height_eq {other : AttestationVote H A} (h : f.Leads target fork)
    (hother : f.Leads target other) (heq : fork.height = other.height) : fork = other := by
  have hmem := hother.mem
  by_cases hdigest : other.digest = fork.digest
  · rw [← heq, hdigest, h.mem] at hmem
    exact Option.some.inj hmem
  · have hactive := hother.active
    rw [← heq] at hmem hactive
    have hlt := h.most other.digest other hdigest hmem hactive
    have hgt := hother.most fork.digest fork (Ne.symm hdigest) (heq ▸ h.mem) (heq ▸ h.active)
    omega

def indexEntry (fork : AttestationVote H A) : ℕ × ℕ × H :=
  (fork.height, fork.votes.length, fork.digest)

theorem Indexed.mem_iff (h : f.Indexed) {e : ℕ × ℕ × H} :
    e ∈ f.byHeightSize ↔
      ∃ fork, f.byDigest.lookup (e.1, e.2.2) = some fork ∧ e = indexEntry fork := by
  constructor
  · intro he
    obtain ⟨fork, hfork, hcard⟩ := h.consistent.indexed he
    have hcounts := h.consistent.counts hfork
    refine ⟨fork, hfork, ?_⟩
    rw [hcounts.card_signers] at hcard
    exact Prod.ext (congrArg Prod.fst hcounts.key_eq).symm
      (Prod.ext hcard.symm (congrArg Prod.snd hcounts.key_eq).symm)
  · rintro ⟨fork, hfork, rfl⟩
    have hmem := h.complete hfork
    rw [(h.consistent.counts hfork).card_signers] at hmem
    exact hmem

theorem Indexed.leadsIn_iff (h : f.Indexed) {l : List (ℕ × ℕ × H)}
    (hl : ∀ e, e ∈ l ↔ e ∈ f.byHeightSize) {e : ℕ × ℕ × H} :
    f.LeadsIn target l e ↔ ∃ fork, f.Leads target fork ∧ e = indexEntry fork := by
  constructor
  · intro he
    obtain ⟨fork, hfork, rfl⟩ := h.mem_iff.1 ((hl e).1 he.mem)
    refine ⟨fork, ⟨hfork, he.active, he.enough, fun digest other hne hother hactive => ?_⟩, rfl⟩
    have hkey := (h.consistent.counts hother).key_eq
    have hmem : indexEntry other ∈ f.byHeightSize := h.mem_iff.2 ⟨other, by
      rw [← hkey] at hother
      exact hother, rfl⟩
    have hheight : other.height = fork.height := congrArg Prod.fst hkey
    have hdigest : other.digest = digest := congrArg Prod.snd hkey
    refine he.most (indexEntry other) ((hl _).2 hmem) (fun heq => hne ?_) hheight ?_
    · rw [← hdigest]
      exact congrArg (fun e => e.2.2) heq
    · show (other.height, other.digest) ∉ f.deferred
      rw [hkey]
      exact hactive
  · rintro ⟨fork, hleads, rfl⟩
    refine ⟨(hl _).2 (h.mem_iff.2 ⟨fork, hleads.mem, rfl⟩), hleads.active, hleads.enough,
      fun e' he' hne hheight hactive => ?_⟩
    obtain ⟨other, hother, rfl⟩ := h.mem_iff.1 ((hl e').1 he')
    have hheight : other.height = fork.height := hheight
    refine hleads.most other.digest other (fun hdigest => hne ?_) (hheight ▸ hother)
      (hheight ▸ hactive)
    have hsame : some other = some fork := by
      rw [← hother, ← hleads.mem]
      exact congrArg f.byDigest.lookup (Prod.ext hheight hdigest)
    rw [Option.some.inj hsame]

theorem Indexed.best_cases (h : f.Indexed) (digestOrd : H → ℕ) (target : ℕ) :
    (∃ fork, f.best digestOrd target = some fork ∧ f.Leads target fork ∧
        ∀ other, f.Leads target other → other.height ≤ fork.height) ∨
      f.best digestOrd target = none ∧ ∀ fork, ¬ f.Leads target fork := by
  set l := f.byHeightSize.insertionSort (searchedBefore digestOrd) with hl
  have hmem : ∀ e, e ∈ l ↔ e ∈ f.byHeightSize := fun e => List.mem_insertionSort _
  have hnodup : l.Nodup := (List.perm_insertionSort _ _).nodup_iff.2 h.nodup
  have hsorted : l.Pairwise (searchedBefore digestOrd) := List.pairwise_insertionSort _ _
  have heligible : ∀ e, f.Eligible target none l e ↔
      ∃ fork, f.Leads target fork ∧ e = indexEntry fork := fun e =>
    (and_iff_left (Option.some_ne_none _).symm).trans (h.leadsIn_iff hmem)
  have hskip : ∀ n ∈ (none : Option ℕ), ∀ e ∈ l, e.1 ≤ n := fun n hn => by cases hn
  rcases bestFrom_spec f target hsorted hnodup hskip with
    ⟨e, he, hgreatest, hbest⟩ | ⟨hnone, hbest⟩
  · obtain ⟨fork, hleads, rfl⟩ := (heligible e).1 he
    refine .inl ⟨fork, hbest.trans hleads.mem, hleads, fun other hother => ?_⟩
    exact hgreatest _ ((heligible _).2 ⟨other, hother, rfl⟩)
  · exact .inr ⟨hbest, fun fork hleads => hnone _ ((heligible _).2 ⟨fork, hleads, rfl⟩)⟩

end Forks

/-- **The choice of a fork.** In every pool that is reached, the search returns the fork that leads
the greatest height at which a fork leads, and nothing if there is no such height. -/
theorem best_spec (config : PoolConfig H A) (actions : List (PoolAction H A)) (digestOrd : H → ℕ)
    (target : ℕ) :
    let f := ((Pool.new config).run actions).forks
    (∀ fork, f.best digestOrd target = some fork ↔
        f.Leads target fork ∧ ∀ other, f.Leads target other → other.height ≤ fork.height) ∧
      (f.best digestOrd target = none ↔ ∀ fork, ¬ f.Leads target fork) := by
  intro f
  have hindexed : f.Indexed := Pool.indexed_run config actions
  rcases hindexed.best_cases digestOrd target with ⟨best, hbest, hleads, hgreatest⟩ | ⟨hbest, hnone⟩
  · refine ⟨fun fork => ?_, ?_⟩
    · rw [hbest]
      constructor
      · rintro h
        obtain rfl := Option.some.inj h
        exact ⟨hleads, hgreatest⟩
      · rintro ⟨hfork, hmax⟩
        have hheight : best.height = fork.height :=
          le_antisymm (hmax best hleads) (hgreatest fork hfork)
        exact congrArg some (hleads.eq_of_height_eq hfork hheight)
    · rw [hbest]
      exact iff_of_false (Option.some_ne_none _) fun hnone => hnone best hleads
  · rw [hbest]
    exact ⟨fun fork => iff_of_false (Option.some_ne_none _).symm fun h => hnone fork h.1,
      iff_of_true rfl hnone⟩

/-! ## The store -/

/-- The operations of the store. -/
inductive ForkOp (H A : Type)
  | push (vote : Vote H A)
  | dropFork (height : ℕ) (digest : H)
  | invalidateFork (height : ℕ) (digest : H)
  | retainSigners (keep : Finset A)
  | splitOff (finalizedHeight : ℕ)
  | clear
  | noteFinalized (height : ℕ) (digest : H)
  /-- A fork is set aside if it is stored with this many votes. -/
  | defer (height : ℕ) (digest : H) (voteCount : ℕ)
  /-- The quorum has changed. -/
  | clearDeferred

namespace Forks

variable {f f' : Forks H A}

def apply (f : Forks H A) : ForkOp H A → Forks H A
  | .push vote =>
    match f.push vote with
    | .ok f' => f'
    | .error _ => f
  | .dropFork height digest => f.dropFork height digest
  | .invalidateFork height digest => f.invalidateFork height digest
  | .retainSigners keep => f.retainSigners keep
  | .splitOff finalizedHeight => f.splitOff finalizedHeight
  | .clear => f.clear
  | .noteFinalized height digest => f.noteFinalized height digest
  | .defer height digest voteCount =>
    if (f.byDigest.lookup (height, digest)).any (fun fork => fork.votes.length = voteCount) then
      { f with deferred := insert (height, digest) f.deferred }
    else f
  | .clearDeferred => { f with deferred := ∅ }

theorem Indexed.apply (h : f.Indexed) (op : ForkOp H A) : (f.apply op).Indexed := by
  cases op with
  | push vote =>
    simp only [Forks.apply]
    split
    · next hpush => exact h.push hpush
    · exact h
  | dropFork height digest => exact h.dropFork height digest
  | invalidateFork height digest => exact h.invalidateFork height digest
  | retainSigners keep => exact h.retainSigners keep
  | splitOff finalizedHeight => exact h.splitOff finalizedHeight
  | clear => exact indexed_of_empty rfl rfl
  | noteFinalized height digest => exact h.noteFinalized height digest
  | defer height digest voteCount =>
    simp only [Forks.apply]
    split
    · exact h.setDeferred _
    · exact h
  | clearDeferred => exact h.setDeferred ∅

theorem DeferredForks.apply (h : f.DeferredForks) (op : ForkOp H A) :
    (f.apply op).DeferredForks := by
  cases op with
  | push vote =>
    simp only [Forks.apply]
    split
    · next hpush => exact h.push hpush
    · exact h
  | dropFork height digest => exact h.dropFork height digest
  | invalidateFork height digest => exact h.dropFork height digest
  | retainSigners keep =>
    intro key hkey
    rw [Forks.apply, deferred_retainSigners] at hkey
    cases hkey
  | splitOff _ | noteFinalized _ _ => exact h.splitOff
  | defer height digest voteCount =>
    simp only [Forks.apply]
    split
    · next hany =>
      intro key hkey
      rcases Finset.mem_insert.1 hkey with rfl | hkey
      · exact Option.isSome_iff_exists.1 (Option.isSome_of_any hany)
      · exact h key hkey
    · exact h
  | clear | clearDeferred =>
    intro key hkey
    cases hkey

end Forks

/-- **The store of the forks.** After all operations, the index has one entry for each fork, the
votes of a fork are one for each of its signers, and its signers are recorded with its digest. The
forks that are set aside are stored, and no stored fork is one that was found to be invalid. -/
theorem forks_represented (config : PoolConfig H A) (ops : List (ForkOp H A)) :
    let f := ops.foldl Forks.apply (Pool.new config).forks
    f.byHeightSize.Nodup ∧
      (∀ e, e ∈ f.byHeightSize ↔ ∃ fork, f.byDigest.lookup (e.1, e.2.2) = some fork ∧
        fork.signers.card = e.2.1) ∧
      (∀ key fork, f.byDigest.lookup key = some fork →
        fork.Counts key ∧ ∀ a ∈ fork.signers, f.seen.lookup (key.1, a) = some key.2) ∧
      (∀ key ∈ f.deferred, (f.byDigest.lookup key).isSome) ∧
      ∀ key ∈ f.invalid, f.byDigest.lookup key = none := by
  intro f
  have hrun : ∀ (ops : List (ForkOp H A)) {f : Forks H A}, f.Indexed ∧ f.DeferredForks →
      (ops.foldl Forks.apply f).Indexed ∧ (ops.foldl Forks.apply f).DeferredForks := by
    intro ops
    induction ops with
    | nil => exact fun h => h
    | cons op ops ih => exact fun h => ih ⟨h.1.apply op, h.2.apply op⟩
  have hnew : (Pool.new config).forks.DeferredForks := fun key hkey => by cases hkey
  obtain ⟨hindexed, hdeferred⟩ := hrun ops ⟨Forks.indexed_of_empty rfl rfl, hnew⟩
  refine ⟨hindexed.nodup, fun e => ⟨hindexed.consistent.indexed, ?_⟩,
    fun key fork hfork => ⟨hindexed.consistent.counts hfork, fun a ha =>
      hindexed.consistent.seen_eq hfork ha⟩,
    fun key hkey => Option.isSome_iff_exists.2 (hdeferred key hkey),
    fun key hkey => hindexed.consistent.valid hkey⟩
  rintro ⟨fork, hfork, hcard⟩
  have hmem := hindexed.complete hfork
  rwa [hcard] at hmem

end Creditcoin.Attestor
