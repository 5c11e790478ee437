import Creditcoin.Attestor.Pool

/-!
# Safety of the vote pool

The forks, their index by size, the table of who voted for what and the tombstones agree
(`Forks.Consistent`). Most operations only remove forks (`Forks.Restricts`). The pool adds that
signers are in the committee and that heights lie above what is finalized and what is locked
(`Pool.Sound`).

A tombstone is kept until the pool is reset or a height at or above its own is finalized, so every
quorum is what it claims to be (`quorum_sound`). Finalization at decreasing heights lets a fork
return that was found to be invalid (`exists_invalid_quorum`). -/

namespace Creditcoin.Attestor

variable {H A : Type} [DecidableEq H] [DecidableEq A]

/-! ## Forks -/

/-- A fork belongs to its key and counts each of its signers once. -/
structure AttestationVote.Counts (fork : AttestationVote H A) (key : ℕ × H) : Prop where
  key_eq : (fork.height, fork.digest) = key
  votes_key : ∀ v ∈ fork.votes, (v.height, v.digest) = key
  nodup : (fork.votes.map (·.attestor)).Nodup
  signers_eq : fork.signers = (fork.votes.map (·.attestor)).toFinset

namespace AttestationVote.Counts

variable {fork : AttestationVote H A} {key : ℕ × H}

omit [DecidableEq H]

theorem card_signers (h : fork.Counts key) : fork.signers.card = fork.votes.length := by
  rw [h.signers_eq, List.toFinset_card_of_nodup h.nodup, List.length_map]

theorem mem_signers (h : fork.Counts key) {v : Vote H A} (hv : v ∈ fork.votes) :
    v.attestor ∈ fork.signers := by
  rw [h.signers_eq, List.mem_toFinset]
  exact List.mem_map_of_mem hv

theorem add (h : fork.Counts key) {vote : Vote H A} (hkey : (vote.height, vote.digest) = key)
    (hnew : vote.attestor ∉ fork.signers) :
    AttestationVote.Counts
      { fork with signers := insert vote.attestor fork.signers, votes := fork.votes ++ [vote] }
      key := by
  have hvotes : ∀ v ∈ fork.votes ++ [vote], (v.height, v.digest) = key := fun v hv =>
    (List.mem_append.1 hv).elim (h.votes_key v) fun hv => List.mem_singleton.1 hv ▸ hkey
  refine ⟨h.key_eq, hvotes, ?_, ?_⟩
  · rw [List.map_append, List.map_singleton, List.nodup_append]
    refine ⟨h.nodup, List.nodup_singleton _, fun a ha b hb hab => hnew ?_⟩
    rw [h.signers_eq, List.mem_toFinset, ← List.mem_singleton.1 hb, ← hab]
    exact ha
  · ext a
    simp [h.signers_eq]

theorem retain (h : fork.Counts key) (keep : Finset A) : (fork.retain keep).Counts key := by
  refine ⟨h.key_eq, fun v hv => h.votes_key v (List.mem_of_mem_filter hv), ?_, ?_⟩
  · exact h.nodup.sublist (List.filter_sublist.map _)
  · ext a
    simp only [AttestationVote.retain, h.signers_eq, Finset.mem_inter, List.mem_toFinset,
      List.mem_map, List.mem_filter, decide_eq_true_eq]
    constructor
    · rintro ⟨⟨v, hv, rfl⟩, hkeep⟩
      exact ⟨v, ⟨hv, hkeep⟩, rfl⟩
    · rintro ⟨v, ⟨hv, hkeep⟩, rfl⟩
      exact ⟨⟨v, hv, rfl⟩, hkeep⟩

end AttestationVote.Counts

namespace Forks

variable {f f' : Forks H A} {key : ℕ × H} {fork : AttestationVote H A} {height : ℕ} {digest : H}

/-- The tables agree. -/
structure Consistent (f : Forks H A) : Prop where
  counts : ∀ {key fork}, f.byDigest.lookup key = some fork → fork.Counts key
  indexed : ∀ {e}, e ∈ f.byHeightSize →
    ∃ fork, f.byDigest.lookup (e.1, e.2.2) = some fork ∧ fork.signers.card = e.2.1
  seen_eq : ∀ {key fork a}, f.byDigest.lookup key = some fork → a ∈ fork.signers →
    f.seen.lookup (key.1, a) = some key.2
  valid : ∀ {key}, key ∈ f.invalid → f.byDigest.lookup key = none

/-- `f'` has some of the forks of `f`, as they were. -/
structure Restricts (f f' : Forks H A) : Prop where
  lookup : ∀ {key fork}, f'.byDigest.lookup key = some fork → f.byDigest.lookup key = some fork
  index : ∀ {e}, e ∈ f'.byHeightSize →
    e ∈ f.byHeightSize ∧ f'.byDigest.lookup (e.1, e.2.2) = f.byDigest.lookup (e.1, e.2.2)
  seen : ∀ {key fork a}, f'.byDigest.lookup key = some fork → a ∈ fork.signers →
    f'.seen.lookup (key.1, a) = f.seen.lookup (key.1, a)
  invalid : ∀ {key}, key ∈ f'.invalid → key ∈ f.invalid ∨ f'.byDigest.lookup key = none

theorem Consistent.restrict (h : f.Consistent) (hr : f.Restricts f') : f'.Consistent where
  counts hlookup := h.counts (hr.lookup hlookup)
  indexed he := by
    obtain ⟨hold, heq⟩ := hr.index he
    rw [heq]
    exact h.indexed hold
  seen_eq hlookup ha := (hr.seen hlookup ha).trans (h.seen_eq (hr.lookup hlookup) ha)
  valid {key} hkey := by
    rcases hr.invalid hkey with hold | hnone
    · rw [Option.eq_none_iff_forall_ne_some]
      intro fork hlookup
      simpa [h.valid hold] using hr.lookup hlookup
    · exact hnone

theorem Consistent.size_eq (h : f.Consistent) {e : ℕ × ℕ × H} (he : e ∈ f.byHeightSize)
    (hfork : f.byDigest.lookup (e.1, e.2.2) = some fork) : e.2.1 = fork.signers.card := by
  obtain ⟨fork', hlookup, hcard⟩ := h.indexed he
  rw [hfork] at hlookup
  rw [← hcard, Option.some.inj hlookup]

theorem Consistent.ne_of_mem_filter (h : f.Consistent) (key : ℕ × H) {n : ℕ}
    (hfork : ∀ fork, f.byDigest.lookup key = some fork → fork.signers.card = n)
    {e : ℕ × ℕ × H} (he : e ∈ f.byHeightSize.filter (· ≠ (key.1, n, key.2))) :
    e ∈ f.byHeightSize ∧ (e.1, e.2.2) ≠ key := by
  obtain ⟨hmem, hne⟩ := List.mem_filter.1 he
  refine ⟨hmem, ?_⟩
  rintro rfl
  obtain ⟨fork, hlookup, hcard⟩ := h.indexed hmem
  refine of_decide_eq_true hne ?_
  rw [← hfork fork hlookup, hcard]

theorem Consistent.replace (h : f.Consistent) (key : ℕ × H) (hcounts : fork.Counts key)
    (hkey : key ∉ f.invalid)
    (hlookup : ∀ key', f'.byDigest.lookup key' =
      if key' = key then some fork else f.byDigest.lookup key')
    (hindex : ∀ e ∈ f'.byHeightSize, e = (key.1, fork.signers.card, key.2) ∨
      e ∈ f.byHeightSize ∧ ((e.1, e.2.2) = key → e.2.1 = fork.signers.card))
    (hsigners : ∀ a ∈ fork.signers, f'.seen.lookup (key.1, a) = some key.2)
    (hseen : ∀ {k d}, f.seen.lookup k = some d → f'.seen.lookup k = some d)
    (hinvalid : f'.invalid = f.invalid) : f'.Consistent where
  counts {key' fork'} hfork := by
    rw [hlookup] at hfork
    split at hfork
    · next heq =>
      obtain rfl := Option.some.inj hfork
      exact heq ▸ hcounts
    · exact h.counts hfork
  indexed {e} he := by
    rw [hlookup]
    rcases hindex e he with rfl | ⟨hold, hcard⟩
    · exact ⟨fork, if_pos rfl, rfl⟩
    · split
      · next heq => exact ⟨fork, rfl, (hcard heq).symm⟩
      · exact h.indexed hold
  seen_eq {key' fork' a} hfork ha := by
    rw [hlookup] at hfork
    split at hfork
    · next heq =>
      obtain rfl := Option.some.inj hfork
      rw [heq]
      exact hsigners a ha
    · exact hseen (h.seen_eq hfork ha)
  valid {key'} hmem := by
    rw [hinvalid] at hmem
    rw [hlookup, if_neg (ne_of_mem_of_not_mem hmem hkey)]
    exact h.valid hmem

/-! ## What the operations do -/

variable {vote : Vote H A}

theorem Consistent.addVote (h : f.Consistent) (hinvalid : (vote.height, vote.digest) ∉ f.invalid)
    (hseen : f.seen.lookup (vote.height, vote.attestor) = none) : (f.addVote vote).Consistent := by
  have hentry : (f.entry vote).Counts (vote.height, vote.digest) := by
    unfold entry
    rcases hlookup : f.byDigest.lookup (vote.height, vote.digest) with _ | fork
    · exact ⟨rfl, by simp, by simp, rfl⟩
    · exact h.counts hlookup
  have hsigners : ∀ a ∈ (f.entry vote).signers,
      f.seen.lookup (vote.height, a) = some vote.digest := by
    unfold entry
    rcases hlookup : f.byDigest.lookup (vote.height, vote.digest) with _ | fork
    · simp
    · intro a ha
      exact h.seen_eq hlookup ha
  have hnew : vote.attestor ∉ (f.entry vote).signers := fun hmem => by
    simp [hsigners _ hmem] at hseen
  have hother : ∀ {k d}, f.seen.lookup k = some d →
      (f.seen.insert (vote.height, vote.attestor) vote.digest).lookup k = some d := by
    intro k d hk
    rw [StorageMap.lookup_insert_eq, if_neg, hk]
    rintro rfl
    simp [hseen] at hk
  refine h.replace (vote.height, vote.digest) (hentry.add rfl hnew) hinvalid
    (fun key' => StorageMap.lookup_insert_eq _ _ _ _) (fun e he => ?_) (fun a ha => ?_) hother rfl
  · rcases List.mem_insert_iff.1 he with heq | he
    · exact .inl heq
    · have hsize : ∀ fork, f.byDigest.lookup (vote.height, vote.digest) = some fork →
          fork.signers.card = (f.entry vote).signers.card := fun fork hfork => by
        rw [entry, hfork, Option.getD_some]
      obtain ⟨hmem, hne⟩ := h.ne_of_mem_filter (vote.height, vote.digest) hsize he
      exact .inr ⟨hmem, fun heq => absurd heq hne⟩
  · rcases Finset.mem_insert.1 ha with rfl | ha
    · exact AList.lookup_insert _
    · exact hother (hsigners a ha)

/-- A vote that is taken repeats one on record, or is added. -/
theorem push_cases (hpush : f.push vote = .ok f') :
    f' = f ∨ (vote.height, vote.digest) ∉ f.invalid ∧
      f.seen.lookup (vote.height, vote.attestor) = none ∧ f' = f.addVote vote := by
  unfold Forks.push at hpush
  split at hpush
  · cases hpush
  · next hinvalid =>
    split at hpush
    · split at hpush
      · cases hpush
        exact .inl rfl
      · cases hpush
    · next hseen =>
      cases hpush
      exact .inr ⟨hinvalid, hseen, rfl⟩

theorem Consistent.push (h : f.Consistent) (hpush : f.push vote = .ok f') : f'.Consistent := by
  rcases push_cases hpush with rfl | ⟨hinvalid, hseen, rfl⟩
  · exact h
  · exact h.addVote hinvalid hseen

theorem lookup_push (hpush : f.push vote = .ok f') (hfork : f'.byDigest.lookup key = some fork) :
    f.byDigest.lookup key = some fork ∨
      key = (vote.height, vote.digest) ∧ ∀ a ∈ fork.signers, a = vote.attestor ∨
        ∃ fork₀, f.byDigest.lookup key = some fork₀ ∧ a ∈ fork₀.signers := by
  rcases push_cases hpush with rfl | ⟨-, -, rfl⟩
  · exact .inl hfork
  · rw [addVote, StorageMap.lookup_insert_eq] at hfork
    split_ifs at hfork with hkey
    · refine .inr ⟨hkey, fun a ha => ?_⟩
      rw [← Option.some.inj hfork] at ha
      refine (Finset.mem_insert.1 ha).imp_right fun ha => ?_
      rw [hkey]
      unfold entry at ha
      rcases hold : f.byDigest.lookup (vote.height, vote.digest) with _ | fork₀
      · simp [hold] at ha
      · exact ⟨fork₀, rfl, by simpa [hold] using ha⟩
    · exact .inl hfork

theorem push_frame (hpush : f.push vote = .ok f') :
    f'.invalid = f.invalid ∧ f'.lastFinalizedHeight = f.lastFinalizedHeight := by
  rcases push_cases hpush with rfl | ⟨-, -, rfl⟩
  · exact ⟨rfl, rfl⟩
  · exact ⟨rfl, rfl⟩

omit [DecidableEq A] in
theorem lookup_dropFork (key : ℕ × H) :
    (f.dropFork height digest).byDigest.lookup key =
      if key = (height, digest) then none else f.byDigest.lookup key := by
  unfold dropFork
  split
  · exact StorageMap.lookup_erase_eq _ _ _
  · next hnone =>
    split
    · next heq => rw [heq, hnone]
    · rfl

omit [DecidableEq A] in
theorem dropFork_frame (f : Forks H A) (height : ℕ) (digest : H) :
    (f.dropFork height digest).seen = f.seen ∧ (f.dropFork height digest).invalid = f.invalid ∧
      (f.dropFork height digest).lastFinalizedHeight = f.lastFinalizedHeight := by
  unfold dropFork
  split <;> exact ⟨rfl, rfl, rfl⟩

theorem Consistent.restricts_dropFork (h : f.Consistent) (height : ℕ) (digest : H) :
    f.Restricts (f.dropFork height digest) where
  lookup {key fork} hlookup := by
    rw [lookup_dropFork] at hlookup
    split at hlookup
    · cases hlookup
    · exact hlookup
  index {e} he := by
    have hmem : e ∈ f.byHeightSize ∧ (e.1, e.2.2) ≠ (height, digest) := by
      unfold dropFork at he
      split at he
      · next fork hfork =>
        refine h.ne_of_mem_filter (height, digest) (fun fork' hfork' => ?_) he
        rw [hfork] at hfork'
        rw [Option.some.inj hfork']
      · next hnone =>
        refine ⟨he, fun heq => ?_⟩
        obtain ⟨fork, hfork, -⟩ := h.indexed he
        rw [heq, hnone] at hfork
        cases hfork
    exact ⟨hmem.1, by rw [lookup_dropFork, if_neg hmem.2]⟩
  seen _ _ := by rw [(f.dropFork_frame height digest).1]
  invalid hkey := .inl ((f.dropFork_frame height digest).2.1 ▸ hkey)

theorem Consistent.invalidateFork (h : f.Consistent) :
    (f.invalidateFork height digest).Consistent := by
  have hdrop := h.restrict (h.restricts_dropFork height digest)
  refine ⟨hdrop.counts, hdrop.indexed, hdrop.seen_eq, fun {key} hkey => ?_⟩
  rcases Finset.mem_insert.1 hkey with rfl | hold
  · exact (lookup_dropFork _).trans (if_pos rfl)
  · exact hdrop.valid hold

/-! ### Splitting off -/

theorem foldl_forgetFork (split : ℕ) (rows : List ((ℕ × H) × AttestationVote H A))
    (hrows : ∀ row ∈ rows, row.1.1 < split) (f : Forks H A) :
    (rows.foldl forgetFork f).byDigest = f.byDigest ∧
      (rows.foldl forgetFork f).invalid = f.invalid ∧
      (rows.foldl forgetFork f).lastFinalizedHeight = f.lastFinalizedHeight ∧
      (∀ e ∈ (rows.foldl forgetFork f).byHeightSize, e ∈ f.byHeightSize) ∧
      ∀ k : ℕ × A, split ≤ k.1 →
        (rows.foldl forgetFork f).seen.lookup k = f.seen.lookup k := by
  induction rows generalizing f with
  | nil => exact ⟨rfl, rfl, rfl, fun _ => id, fun _ _ => rfl⟩
  | cons row rows ih =>
    obtain ⟨hrow, hrest⟩ := List.forall_mem_cons.1 hrows
    obtain ⟨hdigest, hinvalid, hlast, hindex, hseen⟩ := ih hrest (forgetFork f row)
    refine ⟨hdigest, hinvalid, hlast, fun e he => List.mem_of_mem_filter (hindex e he),
      fun k hk => ?_⟩
    have hne : k.1 ≠ row.1.1 := by omega
    rw [List.foldl_cons, hseen k hk, forgetFork, StorageMap.lookup_retain, if_pos (by simp [hne])]

section SplitOff

variable (f) (n : ℕ)

omit [DecidableEq H] [DecidableEq A] in
theorem splitOff_rows_lt : ∀ row ∈ (f.byDigest.entries.filter fun row =>
    row.1.1 < satAdd u64Max n 1).map fun row => (row.1, row.2), row.1.1 < satAdd u64Max n 1 := by
  intro row hrow
  obtain ⟨entry, hentry, rfl⟩ := List.mem_map.1 hrow
  exact of_decide_eq_true (List.mem_filter.1 hentry).2

theorem splitOff_eq :
    (∀ key, (f.splitOff n).byDigest.lookup key =
        if satAdd u64Max n 1 ≤ key.1 then f.byDigest.lookup key else none) ∧
      (f.splitOff n).invalid = f.invalid ∧
      (f.splitOff n).lastFinalizedHeight = f.lastFinalizedHeight ∧
      (∀ e ∈ (f.splitOff n).byHeightSize, e ∈ f.byHeightSize ∧ satAdd u64Max n 1 ≤ e.1) ∧
      ∀ k : ℕ × A, satAdd u64Max n 1 ≤ k.1 →
        (f.splitOff n).seen.lookup k = f.seen.lookup k := by
  obtain ⟨hdigest, hinvalid, hlast, hindex, hseen⟩ :=
    foldl_forgetFork _ _ (splitOff_rows_lt f n)
      { f with byDigest := f.byDigest.retain fun key => satAdd u64Max n 1 ≤ key.1 }
  refine ⟨fun key => ?_, hinvalid, hlast, fun e he => ?_, fun k hk => ?_⟩
  · refine (congrArg (AList.lookup key) hdigest).trans ?_
    rw [StorageMap.lookup_retain]
    simp only [decide_eq_true_eq]
  · obtain ⟨hmem, hle⟩ := List.mem_filter.1 he
    exact ⟨hindex e hmem, of_decide_eq_true hle⟩
  · refine Eq.trans ?_ (hseen k hk)
    exact (StorageMap.lookup_retain _ _ _).trans (if_pos (decide_eq_true hk))

theorem splitOff_restricts : f.Restricts (f.splitOff n) := by
  obtain ⟨hlookup, hinvalid, -, hindex, hseen⟩ := splitOff_eq f n
  refine ⟨fun {key fork} hfork => ?_, fun {e} he => ?_, fun {key fork a} hfork _ => ?_,
    fun hkey => .inl (hinvalid ▸ hkey)⟩
  · rw [hlookup] at hfork
    split at hfork
    · exact hfork
    · cases hfork
  · obtain ⟨hmem, hle⟩ := hindex e he
    exact ⟨hmem, by rw [hlookup, if_pos hle]⟩
  · rw [hlookup] at hfork
    split at hfork
    · next hle => exact hseen _ hle
    · cases hfork

theorem lt_of_lookup_splitOff (hn : n < u64Max)
    (h : (f.splitOff n).byDigest.lookup key = some fork) : n < key.1 := by
  rw [(splitOff_eq f n).1] at h
  split at h
  · next hle =>
    rw [satAdd_of_le hn] at hle
    exact hle
  · cases h

end SplitOff

/-! ### Keeping the committee -/

section Retain

variable {keep : Finset A} {key' : ℕ × H} {fork' : AttestationVote H A}

theorem lookup_retainFork (h : (f.retainFork keep key).byDigest.lookup key' = some fork') :
    key' ≠ key ∧ f.byDigest.lookup key' = some fork' ∨
      key' = key ∧ ∃ fork, f.byDigest.lookup key = some fork ∧ fork' = fork.retain keep := by
  unfold retainFork at h
  split at h
  · next hnone =>
    refine .inl ⟨?_, h⟩
    rintro rfl
    simp [hnone] at h
  · next entry hentry =>
    dsimp only at h
    split_ifs at h
    all_goals
      simp only [StorageMap.lookup_insert_eq, StorageMap.lookup_erase_eq] at h
      split_ifs at h with hkey
    · exact .inr ⟨hkey, entry, hentry, (Option.some.inj h).symm⟩
    · exact .inl ⟨hkey, h⟩
    · exact .inl ⟨hkey, h⟩
    · exact .inr ⟨hkey, entry, hentry, (Option.some.inj h).symm⟩
    · exact .inl ⟨hkey, h⟩

theorem retainFork_frame (f : Forks H A) (keep : Finset A) (key : ℕ × H) :
    (f.retainFork keep key).seen = f.seen ∧ (f.retainFork keep key).invalid = f.invalid ∧
      (f.retainFork keep key).lastFinalizedHeight = f.lastFinalizedHeight := by
  unfold retainFork
  split
  · exact ⟨rfl, rfl, rfl⟩
  · dsimp only
    split_ifs <;> exact ⟨rfl, rfl, rfl⟩

theorem Consistent.retainFork (h : f.Consistent) (keep : Finset A) (key : ℕ × H) :
    (f.retainFork keep key).Consistent := by
  rcases hentry : f.byDigest.lookup key with _ | entry
  · simpa only [Forks.retainFork, hentry] using h
  have hkey : key ∉ f.invalid := fun hmem => by simp [h.valid hmem] at hentry
  have hsigners : ∀ a ∈ (entry.retain keep).signers, f.seen.lookup (key.1, a) = some key.2 :=
    fun a ha => h.seen_eq hentry (Finset.mem_inter.1 ha).1
  have hcounts := (h.counts hentry).retain keep
  have hsize : ∀ fork, f.byDigest.lookup key = some fork →
      fork.signers.card = entry.signers.card := fun fork hfork => by
    rw [hentry] at hfork
    rw [Option.some.inj hfork]
  simp only [Forks.retainFork, hentry]
  split_ifs with hcard hempty
  · -- All signers stay, and so does the entry of the index.
    refine h.replace key hcounts hkey (fun _ => StorageMap.lookup_insert_eq _ _ _ _)
      (fun e he => .inr ⟨he, ?_⟩) hsigners id rfl
    rintro rfl
    rw [hcard]
    exact h.size_eq he hentry
  · refine h.restrict ⟨fun {key' fork'} hfork => ?_, fun {e} he => ?_, fun _ _ => rfl, .inl⟩
    · rw [StorageMap.lookup_erase_eq] at hfork
      split at hfork
      · cases hfork
      · exact hfork
    · obtain ⟨hmem, hne⟩ := h.ne_of_mem_filter key hsize he
      exact ⟨hmem, (StorageMap.lookup_erase_eq _ _ _).trans (if_neg hne)⟩
  · refine h.replace key hcounts hkey (fun _ => StorageMap.lookup_insert_eq _ _ _ _)
      (fun e he => ?_) hsigners id rfl
    rcases List.mem_insert_iff.1 he with heq | he
    · exact .inl heq
    · obtain ⟨hmem, hne⟩ := h.ne_of_mem_filter key hsize he
      exact .inr ⟨hmem, fun heq => absurd heq hne⟩

theorem foldl_retainFork_frame (f : Forks H A) (keep : Finset A) (keys : List (ℕ × H)) :
    let f' := keys.foldl (fun f key => Forks.retainFork f keep key) f
    f'.invalid = f.invalid ∧ f'.lastFinalizedHeight = f.lastFinalizedHeight := by
  induction keys generalizing f with
  | nil => exact ⟨rfl, rfl⟩
  | cons key keys ih =>
    obtain ⟨-, hinvalid, hlast⟩ := retainFork_frame f keep key
    obtain ⟨hinvalid', hlast'⟩ := ih (f.retainFork keep key)
    exact ⟨hinvalid'.trans hinvalid, hlast'.trans hlast⟩

theorem foldl_retainFork (keep : Finset A) (keys : List (ℕ × H)) (h : f.Consistent) :
    let f' := keys.foldl (fun f key => Forks.retainFork f keep key) f
    f'.Consistent ∧ ∀ {key' fork'}, f'.byDigest.lookup key' = some fork' →
      ∃ fork, f.byDigest.lookup key' = some fork ∧ fork'.signers ⊆ fork.signers ∧
        (key' ∈ keys → fork'.signers ⊆ keep) := by
  induction keys generalizing f with
  | nil => exact ⟨h, fun hfork => ⟨_, hfork, subset_rfl, by simp⟩⟩
  | cons key keys ih =>
    obtain ⟨hcons, hlookup⟩ := ih (h.retainFork keep key)
    refine ⟨hcons, fun {key' fork'} hfork => ?_⟩
    obtain ⟨fork₁, hfork₁, hsub, hkeep⟩ := hlookup hfork
    rcases lookup_retainFork hfork₁ with ⟨hne, hold⟩ | ⟨rfl, fork, hold, rfl⟩
    · refine ⟨fork₁, hold, hsub, fun hmem => hkeep ?_⟩
      exact (List.mem_cons.1 hmem).resolve_left hne
    · exact ⟨fork, hold, hsub.trans Finset.inter_subset_left,
        fun _ => hsub.trans Finset.inter_subset_right⟩

theorem retainSigners_frame (f : Forks H A) (keep : Finset A) :
    (f.retainSigners keep).invalid = f.invalid ∧
      (f.retainSigners keep).lastFinalizedHeight = f.lastFinalizedHeight :=
  foldl_retainFork_frame { f with deferred := ∅ } keep f.byDigest.keys

theorem Consistent.retainSigners (h : f.Consistent) (keep : Finset A) :
    (f.retainSigners keep).Consistent ∧
      ∀ {key fork'}, (f.retainSigners keep).byDigest.lookup key = some fork' →
        fork'.signers ⊆ keep ∧ ∃ fork, f.byDigest.lookup key = some fork := by
  have hstart : Consistent { f with deferred := ∅ } :=
    ⟨h.counts, h.indexed, h.seen_eq, h.valid⟩
  obtain ⟨hcons, hlookup⟩ := foldl_retainFork keep f.byDigest.keys hstart
  have hkeep : ∀ {key fork'}, (f.retainSigners keep).byDigest.lookup key = some fork' →
      fork'.signers ⊆ keep ∧ ∃ fork, f.byDigest.lookup key = some fork := by
    intro key fork' hfork
    obtain ⟨fork, hold, -, hsub⟩ := hlookup hfork
    exact ⟨hsub ((StorageMap.mem_keys_iff _ _).2 ⟨fork, hold⟩), fork, hold⟩
  refine ⟨⟨hcons.counts, hcons.indexed, fun {key fork a} hfork ha => ?_, hcons.valid⟩, hkeep⟩
  refine (StorageMap.lookup_retain _ _ _).trans ?_
  rw [if_pos (decide_eq_true ((hkeep hfork).1 ha))]
  exact hcons.seen_eq hfork ha

end Retain

/-! ### The best fork -/

omit [DecidableEq A] in
theorem mem_of_bestFrom {target : ℕ} {skip : Option ℕ} {l : List (ℕ × ℕ × H)}
    (h : f.bestFrom target skip l = some fork) :
    ∃ e ∈ l, target ≤ e.2.1 ∧ f.byDigest.lookup (e.1, e.2.2) = some fork := by
  induction l generalizing skip with
  | nil => cases h
  | cons e l ih =>
    have hrest : ∀ {skip}, f.bestFrom target skip l = some fork →
        ∃ e' ∈ e :: l, target ≤ e'.2.1 ∧ f.byDigest.lookup (e'.1, e'.2.2) = some fork := by
      intro skip hl
      obtain ⟨e', he', hfork⟩ := ih hl
      exact ⟨e', List.mem_cons_of_mem _ he', hfork⟩
    unfold bestFrom at h
    split_ifs at h with hskip hdeferred hbest
    · exact hrest h
    · exact hrest h
    · exact ⟨e, List.mem_cons_self, hbest.1, h⟩
    · exact hrest h

theorem Consistent.best (h : f.Consistent) {digestOrd : H → ℕ} {target : ℕ}
    (hbest : f.best digestOrd target = some fork) :
    target ≤ fork.votes.length ∧ f.byDigest.lookup (fork.height, fork.digest) = some fork := by
  obtain ⟨e, he, htarget, hfork⟩ := mem_of_bestFrom hbest
  have hsize := h.size_eq ((List.mem_insertionSort _).1 he) hfork
  have hcounts := h.counts hfork
  rw [hcounts.key_eq, ← hcounts.card_signers, ← hsize]
  exact ⟨htarget, hfork⟩

/-! ### Forks that are set aside -/

/-- What is set aside is a fork. -/
def DeferredForks (f : Forks H A) : Prop :=
  ∀ key ∈ f.deferred, ∃ fork, f.byDigest.lookup key = some fork

theorem DeferredForks.push (h : f.DeferredForks) (hpush : f.push vote = .ok f') :
    f'.DeferredForks := by
  rcases push_cases hpush with rfl | ⟨-, -, rfl⟩
  · exact h
  · intro key hkey
    obtain ⟨hne, hmem⟩ := Finset.mem_erase.1 hkey
    rw [addVote, StorageMap.lookup_insert_eq, if_neg hne]
    exact h key hmem

omit [DecidableEq A] in
theorem mem_deferred_dropFork :
    key ∈ (f.dropFork height digest).deferred ↔ key ≠ (height, digest) ∧ key ∈ f.deferred := by
  unfold dropFork
  split <;> exact Finset.mem_erase

omit [DecidableEq A] in
theorem DeferredForks.dropFork (h : f.DeferredForks) (height : ℕ) (digest : H) :
    (f.dropFork height digest).DeferredForks := by
  intro key hkey
  obtain ⟨hne, hmem⟩ := mem_deferred_dropFork.1 hkey
  rw [lookup_dropFork, if_neg hne]
  exact h key hmem

theorem foldl_forgetFork_deferred (rows : List ((ℕ × H) × AttestationVote H A))
    (f : Forks H A) : (rows.foldl forgetFork f).deferred = f.deferred := by
  induction rows generalizing f with
  | nil => rfl
  | cons row rows ih => exact ih (forgetFork f row)

theorem mem_deferred_splitOff {key : ℕ × H} :
    key ∈ (f.splitOff n).deferred ↔ key ∈ f.deferred ∧ satAdd u64Max n 1 ≤ key.1 := by
  simp only [splitOff, Finset.mem_filter, foldl_forgetFork_deferred]

theorem DeferredForks.splitOff (h : f.DeferredForks) : (f.splitOff n).DeferredForks := by
  intro key hkey
  obtain ⟨hmem, hle⟩ := mem_deferred_splitOff.1 hkey
  rw [(splitOff_eq f n).1, if_pos hle]
  exact h key hmem

theorem foldl_retainFork_deferred (keep : Finset A) (keys : List (ℕ × H)) (f : Forks H A) :
    let f' := keys.foldl (fun f key => Forks.retainFork f keep key) f
    f'.deferred = f.deferred ∧ f'.seen = f.seen := by
  induction keys generalizing f with
  | nil => exact ⟨rfl, rfl⟩
  | cons key keys ih =>
    have hstep : (f.retainFork keep key).deferred = f.deferred := by
      unfold retainFork
      split
      · rfl
      · dsimp only
        split_ifs <;> rfl
    obtain ⟨hdeferred, hseen⟩ := ih (f.retainFork keep key)
    exact ⟨hdeferred.trans hstep, hseen.trans (retainFork_frame f keep key).1⟩

theorem deferred_retainSigners (f : Forks H A) (keep : Finset A) :
    (f.retainSigners keep).deferred = ∅ :=
  (foldl_retainFork_deferred keep f.byDigest.keys { f with deferred := ∅ }).1

end Forks

/-! ## The pool -/

theorem ValidateQuorum.lt_of_heightAdmissible {v : ValidateQuorum} {height : ℕ}
    {lastFinalized : Option ℕ} (h : v.heightAdmissible height lastFinalized = true) :
    ∀ n ∈ lastFinalized, n < height := by
  rintro n hn
  obtain rfl := Option.mem_def.1 hn
  simp only [heightAdmissible, Bool.and_eq_true, decide_eq_true_eq] at h
  exact h.1.1

namespace Pool

variable {p p' : Pool H A}

structure Sound (p : Pool H A) : Prop where
  consistent : p.forks.Consistent
  elected : ∀ {key fork}, p.forks.byDigest.lookup key = some fork → fork.signers ⊆ p.attestors
  above_finalized : ∀ {key fork}, p.forks.byDigest.lookup key = some fork →
    ∀ n ∈ p.forks.lastFinalizedHeight, n < key.1
  above_lock : ∀ {key fork}, p.forks.byDigest.lookup key = some fork →
    ∀ n ∈ p.locallyValidatedHeight, n < key.1

theorem sound_of_empty (h : p.forks.byDigest = ∅) (hindex : p.forks.byHeightSize = []) :
    p.Sound := by
  have hnone : ∀ key, p.forks.byDigest.lookup key = none := fun key => by
    rw [h, StorageMap.lookup_empty_eq]
  refine ⟨⟨?_, ?_, ?_, fun _ => hnone _⟩, ?_, ?_, ?_⟩ <;> simp [hnone, hindex]

theorem Sound.restrict (h : p.Sound) (hr : p.forks.Restricts p'.forks)
    (hattestors : p'.attestors = p.attestors)
    (hfinalized : p'.forks.lastFinalizedHeight = p.forks.lastFinalizedHeight)
    (hlock : p'.locallyValidatedHeight = p.locallyValidatedHeight) : p'.Sound where
  consistent := h.consistent.restrict hr
  elected hfork := hattestors ▸ h.elected (hr.lookup hfork)
  above_finalized hfork := hfinalized ▸ h.above_finalized (hr.lookup hfork)
  above_lock hfork := hlock ▸ h.above_lock (hr.lookup hfork)

omit [DecidableEq H] [DecidableEq A] in
theorem le_lowerBound {n : ℕ} (h : n ∈ p.forks.lastFinalizedHeight ∨ n ∈ p.locallyValidatedHeight) :
    ∃ m ∈ p.lowerBound, n ≤ m := by
  unfold lowerBound
  rcases h with h | h
  · rw [Option.mem_def.1 h]
    cases p.locallyValidatedHeight with
    | none => exact ⟨n, rfl, le_rfl⟩
    | some b => exact ⟨max n b, rfl, le_max_left n b⟩
  · rw [Option.mem_def.1 h]
    cases p.forks.lastFinalizedHeight with
    | none => exact ⟨n, rfl, le_rfl⟩
    | some b => exact ⟨max b n, rfl, le_max_right b n⟩

/-- A vote that is taken is by an elected attestor, and above the last finalized height and the
lock. -/
theorem push_eq_ok {vote : Vote H A} (hpush : p.push vote = .ok p') :
    vote.attestor ∈ p.attestors ∧
      (∀ n, n ∈ p.forks.lastFinalizedHeight ∨ n ∈ p.locallyValidatedHeight → n < vote.height) ∧
      ∃ forks, p.forks.push vote = .ok forks ∧ p' = { p with forks := forks } := by
  simp only [Pool.push, bind_eq_ok, ensure_eq_ok, pure_eq_ok] at hpush
  obtain ⟨-, hattestor, -, hheight, forks, hforks, rfl⟩ := hpush
  refine ⟨hattestor, fun n hn => ?_, forks, hforks, rfl⟩
  obtain ⟨m, hm, hle⟩ := le_lowerBound hn
  exact hle.trans_lt (ValidateQuorum.lt_of_heightAdmissible hheight m hm)

theorem Sound.push (h : p.Sound) {vote : Vote H A} (hpush : p.push vote = .ok p') : p'.Sound := by
  obtain ⟨hattestor, habove, forks, hforks, rfl⟩ := push_eq_ok hpush
  obtain ⟨-, hlast⟩ := Forks.push_frame hforks
  refine ⟨h.consistent.push hforks, fun {key fork} hfork => ?_, fun {key fork} hfork n hn => ?_,
    fun {key fork} hfork n hn => ?_⟩
  · rcases Forks.lookup_push hforks hfork with hold | ⟨-, hsigners⟩
    · exact h.elected hold
    · intro a ha
      rcases hsigners a ha with rfl | ⟨fork₀, hold, ha⟩
      · exact hattestor
      · exact h.elected hold ha
  · change n ∈ forks.lastFinalizedHeight at hn
    rw [hlast] at hn
    rcases Forks.lookup_push hforks hfork with hold | ⟨rfl, -⟩
    · exact h.above_finalized hold n hn
    · exact habove n (.inl hn)
  · rcases Forks.lookup_push hforks hfork with hold | ⟨rfl, -⟩
    · exact h.above_lock hold n hn
    · exact habove n (.inr hn)

theorem Sound.noteFinalized (h : p.Sound) {height : ℕ} (digest : H) (hheight : height < u64Max)
    (valid : StorageMap ℕ (SignedQuorum H A)) :
    Sound { p with valid := valid, forks := p.forks.noteFinalized height digest } := by
  have hr := p.forks.splitOff_restricts height
  have hcons := h.consistent.restrict hr
  refine ⟨⟨hcons.counts, hcons.indexed, hcons.seen_eq,
      fun hkey => hcons.valid (Finset.mem_filter.1 hkey).1⟩,
    fun hfork => h.elected (hr.lookup hfork), fun hfork n hn => ?_,
    fun hfork => h.above_lock (hr.lookup hfork)⟩
  rw [← Option.some.inj (Option.mem_def.1 hn)]
  exact p.forks.lt_of_lookup_splitOff height hheight hfork

theorem Sound.markValid (h : p.Sound) {permit : Permit H} (hheight : permit.height < u64Max) :
    (p.markValid permit).Sound := by
  have hr := p.forks.splitOff_restricts permit.height
  have hlast := (p.forks.splitOff_eq permit.height).2.2.1
  refine ⟨h.consistent.restrict hr, fun hfork => h.elected (hr.lookup hfork),
    fun {key fork} hfork n hn => ?_, fun {key fork} hfork n hn => ?_⟩
  · change n ∈ (p.forks.splitOff permit.height).lastFinalizedHeight at hn
    rw [hlast] at hn
    exact h.above_finalized (hr.lookup hfork) n hn
  · have hpermit := p.forks.lt_of_lookup_splitOff permit.height hheight hfork
    have hlock := h.above_lock (hr.lookup hfork)
    simp only [Pool.markValid, Option.mem_def, Option.some.injEq] at hn
    rcases hold : p.locallyValidatedHeight with _ | m
    · rw [hold, Option.map_none, Option.getD_none] at hn
      exact hn ▸ hpermit
    · rw [hold, Option.map_some, Option.getD_some] at hn
      exact hn ▸ max_lt (hlock m hold) hpermit

end Pool

/-- The heights of an operation are below the greatest `u64`. -/
def PoolAction.InRange : PoolAction H A → Prop
  | .send vote => vote.height < u64Max
  | .noteAttestationFinalization height _ => height < u64Max
  | .noteMajorityNotReached height => height < u64Max
  | .noteAttestationChainReversion height _ => height < u64Max
  | .markValid permit => permit.height < u64Max
  | .markInvalid permit => permit.height < u64Max
  | .markSkipped permit => permit.height < u64Max
  | .defer permit => permit.height < u64Max
  | .markForLater permit signed => permit.height < u64Max ∧ signed.height < u64Max
  | _ => True

def PoolAction.Resets : PoolAction H A → Prop
  | .noteAttestationIntervalChange _ => True
  | .noteAttestationChainReversion _ _ => True
  | _ => False

def PoolAction.finalizes : PoolAction H A → Option ℕ
  | .noteAttestationFinalization height _ => some height
  | _ => none

/-- The operations that remove the tombstones of a height. -/
def PoolAction.Forgets (height : ℕ) : PoolAction H A → Prop
  | .noteAttestationFinalization finalized _ => height ≤ finalized
  | action => action.Resets

omit [DecidableEq H] [DecidableEq A] in
theorem PoolAction.exists_finalizes {action : PoolAction H A} {height : ℕ}
    (h : action.Forgets height) (hreset : ¬ action.Resets) :
    ∃ n ∈ action.finalizes, height ≤ n := by
  cases action with
  | noteAttestationFinalization finalized digest => exact ⟨finalized, rfl, h⟩
  | _ => exact absurd h hreset

namespace Pool

variable {p : Pool H A} {action : PoolAction H A}

theorem Sound.step (h : p.Sound) (haction : action.InRange) : (p.step action).Sound := by
  have hdefer : ∀ deferred : Finset (ℕ × H),
      p.forks.Restricts { p.forks with deferred := deferred } := fun _ =>
    ⟨id, fun he => ⟨he, rfl⟩, fun _ _ => rfl, .inl⟩
  cases action with
  | send vote =>
    simp only [Pool.step]
    split
    · next hpush => exact h.push hpush
    · exact h
  | noteAttestationFinalization height digest => exact h.noteFinalized digest haction _
  | noteAttestationIntervalChange _ | noteAttestationChainReversion _ _ =>
    exact sound_of_empty rfl rfl
  | noteAttestorsElected attestors =>
    obtain ⟨hcons, hlookup⟩ := h.consistent.retainSigners attestors.toFinset
    obtain ⟨-, hlast⟩ := p.forks.retainSigners_frame attestors.toFinset
    refine ⟨hcons, fun hfork => (hlookup hfork).1, fun {key fork} hfork n hn => ?_,
      fun {key fork} hfork n hn => ?_⟩
    · obtain ⟨-, fork₀, hold⟩ := hlookup hfork
      change n ∈ (p.forks.retainSigners attestors.toFinset).lastFinalizedHeight at hn
      rw [hlast] at hn
      exact h.above_finalized hold n hn
    · obtain ⟨-, fork₀, hold⟩ := hlookup hfork
      exact h.above_lock hold n hn
  | noteMaxCatchupChange maxCatchup =>
    exact ⟨h.consistent, h.elected, h.above_finalized, h.above_lock⟩
  | noteQuorumChange threshold =>
    simp only [Pool.step]
    split
    · exact h.restrict (hdefer ∅) rfl rfl rfl
    · exact h
  | noteMajorityNotReached height =>
    simp only [Pool.step]
    split
    · exact ⟨h.consistent, h.elected, h.above_finalized, by simp⟩
    · exact h
  | markValid permit => exact h.markValid haction
  | markInvalid permit =>
    have hr := h.consistent.restricts_dropFork permit.height permit.digest
    have hdrop : Sound { p with forks := p.forks.dropFork permit.height permit.digest } :=
      h.restrict hr rfl (p.forks.dropFork_frame _ _).2.2 rfl
    exact ⟨h.consistent.invalidateFork, hdrop.elected, hdrop.above_finalized, hdrop.above_lock⟩
  | markSkipped permit =>
    have hr := h.consistent.restricts_dropFork permit.height permit.digest
    exact h.restrict hr rfl (p.forks.dropFork_frame _ _).2.2 rfl
  | defer permit =>
    simp only [Pool.step, Pool.defer]
    split
    · exact h.restrict (hdefer _) rfl rfl rfl
    · exact h
  | markForLater permit signed =>
    have hpushed : Sound { p with valid := p.valid.insert signed.height signed } :=
      ⟨h.consistent, h.elected, h.above_finalized, h.above_lock⟩
    exact hpushed.markValid haction.1
  | takeNextValidated =>
    simp only [Pool.step]
    split
    · exact ⟨h.consistent, h.elected, h.above_finalized, h.above_lock⟩
    · exact h

variable {actions : List (PoolAction H A)}

theorem Sound.run (h : p.Sound) (hrange : ∀ action ∈ actions, action.InRange) :
    (p.run actions).Sound := by
  induction actions generalizing p with
  | nil => exact h
  | cons action actions ih =>
    obtain ⟨haction, hrest⟩ := List.forall_mem_cons.1 hrange
    exact ih (h.step haction) hrest

/-! ## Tombstones -/

/-- Operations other than finalizations and resets keep all tombstones and the last finalized
height. -/
theorem step_frame (p : Pool H A) (hreset : ¬ action.Resets) (hfinal : action.finalizes = none) :
    p.forks.invalid ⊆ (p.step action).forks.invalid ∧
      (p.step action).forks.lastFinalizedHeight = p.forks.lastFinalizedHeight := by
  have hmark : ∀ permit : Permit H, p.forks.invalid ⊆ (p.forks.splitOff permit.height).invalid ∧
      (p.forks.splitOff permit.height).lastFinalizedHeight = p.forks.lastFinalizedHeight :=
    fun permit => ⟨(p.forks.splitOff_eq permit.height).2.1.symm.subset,
      (p.forks.splitOff_eq permit.height).2.2.1⟩
  cases action with
  | send vote =>
    simp only [Pool.step]
    split
    · next hpush =>
      obtain ⟨-, -, forks, hforks, rfl⟩ := push_eq_ok hpush
      obtain ⟨hinvalid, hlast⟩ := Forks.push_frame hforks
      exact ⟨hinvalid.symm.subset, hlast⟩
    · exact ⟨subset_rfl, rfl⟩
  | noteAttestationFinalization height digest => cases hfinal
  | noteAttestationIntervalChange _ | noteAttestationChainReversion _ _ =>
    exact absurd trivial hreset
  | noteAttestorsElected attestors =>
    obtain ⟨hinvalid, hlast⟩ := p.forks.retainSigners_frame attestors.toFinset
    exact ⟨hinvalid.symm.subset, hlast⟩
  | noteMaxCatchupChange maxCatchup => exact ⟨subset_rfl, rfl⟩
  | noteQuorumChange _ | noteMajorityNotReached _ | takeNextValidated =>
    simp only [Pool.step]
    split <;> exact ⟨subset_rfl, rfl⟩
  | markValid permit => exact hmark permit
  | markInvalid permit =>
    obtain ⟨-, hinvalid, hlast⟩ := p.forks.dropFork_frame permit.height permit.digest
    exact ⟨hinvalid.symm.subset.trans (Finset.subset_insert _ _), hlast⟩
  | markSkipped permit =>
    obtain ⟨-, hinvalid, hlast⟩ := p.forks.dropFork_frame permit.height permit.digest
    exact ⟨hinvalid.symm.subset, hlast⟩
  | defer permit =>
    simp only [Pool.step, Pool.defer]
    split <;> exact ⟨subset_rfl, rfl⟩
  | markForLater permit signed => exact hmark permit

variable {key : ℕ × H}

theorem mem_invalid_step (hkey : key ∈ p.forks.invalid) (haction : ¬ action.Forgets key.1) :
    key ∈ (p.step action).forks.invalid := by
  rcases hfinal : action.finalizes with _ | n
  · refine (p.step_frame (fun hreset => haction ?_) hfinal).1 hkey
    cases action with
    | noteAttestationFinalization height digest => cases hfinal
    | _ => exact hreset
  · cases action with
    | noteAttestationFinalization height digest =>
      have hlt : height < key.1 := Nat.lt_of_not_le haction
      refine Finset.mem_filter.2 ⟨(p.forks.splitOff_eq height).2.1 ▸ hkey, ?_⟩
      exact (satAdd_le _ _ _).trans hlt
    | _ => cases hfinal

theorem mem_invalid_run (hkey : key ∈ p.forks.invalid)
    (hactions : ∀ action ∈ actions, ¬ action.Forgets key.1) :
    key ∈ (p.run actions).forks.invalid := by
  induction actions generalizing p with
  | nil => exact hkey
  | cons action actions ih =>
    obtain ⟨hstep, hrest⟩ := List.forall_mem_cons.1 hactions
    exact ih (mem_invalid_step hkey hstep) hrest

theorem lastFinalizedHeight_step (haction : ¬ action.Resets) :
    (p.step action).forks.lastFinalizedHeight =
      action.finalizes.or p.forks.lastFinalizedHeight := by
  rcases hfinal : action.finalizes with _ | n
  · exact (p.step_frame haction hfinal).2
  · cases action with
    | noteAttestationFinalization height digest => exact hfinal
    | _ => cases hfinal

theorem le_lastFinalizedHeight_run (hreset : ∀ action ∈ actions, ¬ action.Resets) {n : ℕ}
    (hn : ∃ m ∈ p.forks.lastFinalizedHeight, n ≤ m)
    (hactions : ∀ action ∈ actions, ∀ m ∈ action.finalizes, n ≤ m) :
    ∃ m ∈ (p.run actions).forks.lastFinalizedHeight, n ≤ m := by
  induction actions generalizing p with
  | nil => exact hn
  | cons action actions ih =>
    obtain ⟨hstep, hreset⟩ := List.forall_mem_cons.1 hreset
    obtain ⟨hfinal, hactions⟩ := List.forall_mem_cons.1 hactions
    refine ih hreset ?_ hactions
    rw [lastFinalizedHeight_step hstep]
    rcases hm : action.finalizes with _ | m
    · exact hn
    · exact ⟨m, rfl, hfinal m hm⟩

theorem run_append (p : Pool H A) (actions actions' : List (PoolAction H A)) :
    p.run (actions ++ actions') = (p.run actions).run actions' := List.foldl_append

/-! ## Quorums -/

/-- A quorum of the pool in its present state. -/
structure Genuine (p : Pool H A) (q : Quorum H A) : Prop where
  enough : p.validateQuorum.target ≤ q.votes.length
  one : ∀ v ∈ q.votes, v.height = q.height ∧ v.digest = q.digest
  distinct : (q.votes.map (·.attestor)).Nodup
  elected : ∀ v ∈ q.votes, v.attestor ∈ p.attestors
  above_finalized : ∀ n ∈ p.forks.lastFinalizedHeight, n < q.height
  above_lock : ∀ n ∈ p.locallyValidatedHeight, n < q.height

theorem Sound.peek (h : p.Sound) {digestOrd : H → ℕ} {q : Quorum H A} {permit : Permit H}
    (hpeek : p.peek digestOrd = some (q, permit)) :
    p.Genuine q ∧ ∃ fork, p.forks.byDigest.lookup (q.height, q.digest) = some fork := by
  obtain ⟨fork, hbest, heq⟩ := Option.map_eq_some_iff.1 hpeek
  obtain ⟨rfl, rfl⟩ := Prod.mk.inj heq
  obtain ⟨htarget, hfork⟩ := h.consistent.best hbest
  have hcounts := h.consistent.counts hfork
  refine ⟨⟨htarget, fun v hv => Prod.mk.inj (hcounts.votes_key v hv), hcounts.nodup,
    fun v hv => h.elected hfork (hcounts.mem_signers hv), h.above_finalized hfork,
    h.above_lock hfork⟩, fork, hfork⟩

theorem Sound.fork_unique (h : p.Sound) {key' : ℕ × H} {fork fork' : AttestationVote H A}
    (hfork : p.forks.byDigest.lookup key = some fork)
    (hfork' : p.forks.byDigest.lookup key' = some fork') {v v' : Vote H A} (hv : v ∈ fork.votes)
    (hv' : v' ∈ fork'.votes) (hattestor : v.attestor = v'.attestor) (hheight : key.1 = key'.1) :
    key = key' := by
  have hseen := h.consistent.seen_eq hfork ((h.consistent.counts hfork).mem_signers hv)
  have hseen' := h.consistent.seen_eq hfork' ((h.consistent.counts hfork').mem_signers hv')
  rw [hattestor, hheight, hseen'] at hseen
  exact Prod.ext hheight (Option.some.inj hseen).symm

end Pool

open Pool in
/-- **Safety of the pool.** After any operations, a quorum that is handed out has as many votes as
are asked for, all for its height and digest, from different members of the committee, above what is
finalized and what is locked. If its fork was found to be invalid before, then in the meantime the
pool was reset, or the finalized heights went down past its own. And no attestor is counted in two
forks of one height. -/
theorem quorum_sound (digestOrd : H → ℕ) (config : PoolConfig H A)
    (actions : List (PoolAction H A)) (hrange : ∀ action ∈ actions, action.InRange) :
    let p := (Pool.new config).run actions
    (∀ q permit, p.peek digestOrd = some (q, permit) →
      p.Genuine q ∧ ∀ before mark since, actions = before ++ .markInvalid mark :: since →
        mark.height = q.height → mark.digest = q.digest →
          (∃ action ∈ since, action.Resets) ∨
            ∃ earlier final later, since = earlier ++ final :: later ∧
              (∃ n ∈ final.finalizes, q.height ≤ n) ∧
              ∃ action ∈ later, ∃ n ∈ action.finalizes, n < q.height) ∧
    ∀ key key' fork fork', p.forks.byDigest.lookup key = some fork →
      p.forks.byDigest.lookup key' = some fork' → ∀ v ∈ fork.votes, ∀ v' ∈ fork'.votes,
        v.attestor = v'.attestor → key.1 = key'.1 → key = key' := by
  intro p
  have hnew : (Pool.new config).Sound := sound_of_empty rfl rfl
  have hsound : p.Sound := hnew.run hrange
  refine ⟨fun q permit hpeek => ?_, fun key key' fork fork' hfork hfork' v hv v' hv' =>
    hsound.fork_unique hfork hfork' hv hv'⟩
  obtain ⟨hgenuine, fork, hfork⟩ := hsound.peek hpeek
  refine ⟨hgenuine, fun before mark since hactions hheight hdigest => ?_⟩
  by_cases hreset : ∃ action ∈ since, action.Resets
  · exact .inl hreset
  push Not at hreset
  have hrun : p = (((Pool.new config).run before).step (.markInvalid mark)).run since := by
    change (Pool.new config).run actions = _
    rw [hactions, run_append]
    rfl
  have hmarked : (q.height, q.digest) ∈
      (((Pool.new config).run before).step (.markInvalid mark)).forks.invalid := by
    rw [← hheight, ← hdigest]
    exact Finset.mem_insert_self _ _
  -- A fork with a tombstone has no votes, so the tombstone was removed.
  obtain ⟨final, hfinal, hforgets⟩ : ∃ action ∈ since, action.Forgets q.height := by
    by_contra! hkept
    have hmem := mem_invalid_run hmarked hkept
    rw [← hrun] at hmem
    simp [hsound.consistent.valid hmem] at hfork
  obtain ⟨earlier, later, rfl⟩ := List.append_of_mem hfinal
  obtain ⟨n, hn, hle⟩ := PoolAction.exists_finalizes hforgets (hreset final hfinal)
  refine .inr ⟨earlier, final, later, rfl, ⟨n, hn, hle⟩, ?_⟩
  -- The height is open again, so a lower one was finalized after that.
  by_contra! hlater
  rw [List.forall_mem_append, List.forall_mem_cons] at hreset
  have hpassed : ∃ m ∈ ((((Pool.new config).run before).step (.markInvalid mark)).run earlier
      |>.step final).forks.lastFinalizedHeight, q.height ≤ m := by
    refine ⟨n, ?_, hle⟩
    rw [lastFinalizedHeight_step hreset.2.1, hn]
    rfl
  obtain ⟨m, hm, hlt⟩ := le_lastFinalizedHeight_run hreset.2.2 hpassed hlater
  refine absurd hlt (Nat.not_le_of_lt (hgenuine.above_finalized m ?_))
  rw [hrun, run_append]
  exact hm

/-! ## Two pools -/

/-- A pool for four attestors, three of whom are a quorum. -/
def committeeConfig : PoolConfig ℕ ℕ := ⟨[1, 2, 3, 4], 3, 1, 0, 1000, none, none⟩

def voteOf (attestor digest : ℕ) : Vote ℕ ℕ := ⟨1, 10, digest, attestor, .zero⟩

/-- The fork of one attestor is found to be invalid. Then the others vote for another fork of the
height, and so does a stranger. -/
def contested : List (PoolAction ℕ ℕ) :=
  [.send (voteOf 4 6), .markInvalid ⟨10, 6, 0, 1⟩, .send (voteOf 1 7), .send (voteOf 9 7),
    .send (voteOf 2 7), .send (voteOf 3 7)]

/-- The three votes are a quorum. -/
theorem quorum_sound_contested :
    ∃ permit, ((Pool.new committeeConfig).run contested).peek id =
        some (⟨10, 7, 1, [voteOf 1 7, voteOf 2 7, voteOf 3 7]⟩, permit) ∧
      ((Pool.new committeeConfig).run contested).Genuine
        ⟨10, 7, 1, [voteOf 1 7, voteOf 2 7, voteOf 3 7]⟩ := by
  have hpeek : ((Pool.new committeeConfig).run contested).peek id =
      some (⟨10, 7, 1, [voteOf 1 7, voteOf 2 7, voteOf 3 7]⟩, ⟨10, 7, 0, 3⟩) := by rfl
  refine ⟨_, hpeek, ((quorum_sound id committeeConfig contested ?_).1 _ _ hpeek).1⟩
  simp [contested, PoolAction.InRange, voteOf, u64Max]

/-- A pool for one attestor, who is the whole committee. -/
def loneConfig : PoolConfig ℕ ℕ := ⟨[1], 1, 1, 0, 1000, none, none⟩

/-- The vote of that attestor for the digest 7 at height 10. -/
def loneVote : Vote ℕ ℕ := ⟨1, 10, 7, 1, .zero⟩

/-- **A fork that was found to be invalid returns.** The quorum at height 10 is handed out and
marked as invalid. Then height 20 is finalized, which removes the tombstone, and then height 5,
which admits votes at height 10 again. There was no reset. -/
theorem exists_invalid_quorum :
    ∃ (config : PoolConfig ℕ ℕ) (before since : List (PoolAction ℕ ℕ)) (mark : Permit ℕ)
      (first again : Quorum ℕ ℕ) (permit : Permit ℕ),
      (∀ action ∈ before ++ .markInvalid mark :: since, action.InRange) ∧
      ((Pool.new config).run before).peek id = some (first, mark) ∧
      (∀ action ∈ since, ¬ action.Resets) ∧
      ((Pool.new config).run (before ++ .markInvalid mark :: since)).peek id =
        some (again, permit) ∧
      again.height = mark.height ∧ again.digest = mark.digest := by
  refine ⟨loneConfig, [.send loneVote],
    [.noteAttestationFinalization 20 0, .noteAttestationFinalization 5 0, .send loneVote],
    ⟨10, 7, 0, 1⟩, ⟨10, 7, 1, [loneVote]⟩, ⟨10, 7, 1, [loneVote]⟩, ⟨10, 7, 0, 1⟩, ?_, ?_, ?_, ?_,
    rfl, rfl⟩
  · simp [PoolAction.InRange, loneVote, u64Max]
  · rfl
  · simp [PoolAction.Resets]
  · rfl

end Creditcoin.Attestor
