import Creditcoin.Attestation.ActiveSet

/-!
# Who signed an attestation

Validation counts the active attestors of a payload, gathers their keys, drops repeated ones and
aggregates the rest. They are the keys of a quorum of the active set, one for each of its members
(`SignedBy`), and two quorums overlap in more than a third of it. -/

namespace Creditcoin

variable {H A B : Type} [DecidableEq A] {T : Config H A B} {r : Roster A}

/-! ## The passes -/

theorem gatherAttestorPublicKeys_eq_ok {attestors : List A} {keys : List T.bls.PublicKey}
    (h : gatherAttestorPublicKeys T r attestors = .ok keys) :
    List.Forall₂ (fun a key => attestorPublicKey T r a = .ok key) attestors keys := by
  induction attestors generalizing keys with
  | nil =>
    obtain rfl := Except.ok.inj h
    exact .nil
  | cons attestor attestors ih =>
    simp only [gatherAttestorPublicKeys, bind_eq_ok, pure_eq_ok] at h
    obtain ⟨key, hkey, rest, hrest, rfl⟩ := h
    exact .cons hkey (ih hrest)

omit [DecidableEq A] in
theorem dedupPublicKeys_eq_ok {R : A → T.bls.PublicKey → Prop} {seen : List (List UInt8)}
    {attestors : List A} {pks keys : List T.bls.PublicKey} (hR : List.Forall₂ R attestors pks)
    (h : dedupPublicKeys T seen pks = .ok keys) :
    ∃ signers, signers.Sublist attestors ∧ List.Forall₂ R signers keys ∧
      (keys.map T.bls.publicKeyAsBytes).Nodup ∧
      ∀ key ∈ keys, T.bls.publicKeyAsBytes key ∉ seen := by
  induction hR generalizing seen keys with
  | nil =>
    obtain rfl := Except.ok.inj h
    exact ⟨[], .slnil, .nil, List.nodup_nil, by simp⟩
  | @cons attestor pk attestors pks hhead _ ih =>
    simp only [dedupPublicKeys, bind_eq_ok, ensure_eq_ok] at h
    obtain ⟨-, -, h⟩ := h
    split at h
    · obtain ⟨signers, hsub, hkeys, hnodup, hseen⟩ := ih h
      exact ⟨signers, hsub.cons _, hkeys, hnodup, hseen⟩
    · next hnew =>
      simp only [bind_eq_ok, pure_eq_ok] at h
      obtain ⟨rest, hrest, rfl⟩ := h
      obtain ⟨signers, hsub, hkeys, hnodup, hseen⟩ := ih hrest
      refine ⟨attestor :: signers, hsub.cons_cons _, .cons hhead hkeys, ?_, ?_⟩
      · rw [List.map_cons, List.nodup_cons]
        refine ⟨fun hmem => ?_, hnodup⟩
        obtain ⟨key, hkey, hbytes⟩ := List.mem_map.1 hmem
        exact hseen key hkey (hbytes ▸ List.mem_cons_self)
      · intro key hkey
        rcases List.mem_cons.1 hkey with rfl | hkey
        · exact hnew
        · exact fun hmem => hseen key hkey (List.mem_cons_of_mem _ hmem)

/-! ## Signers -/

/-- The keys aggregated for an attestation belong to the signers: each of them is active and
listed in the payload, their keys are pairwise different, and the signature verifies under their
aggregate. -/
structure SignedBy (T : Config H A B) (r : Roster A) (att : SignedAttestation H A)
    (keys : List T.bls.PublicKey) (signers : List A) : Prop where
  nodup : signers.Nodup
  active : ∀ a ∈ signers, a ∈ r.activeAttestors
  listed : ∀ a ∈ signers, a ∈ att.attestors
  keys_eq : List.Forall₂ (fun a key => attestorPublicKey T r a = .ok key) signers keys
  distinct : (keys.map T.bls.publicKeyAsBytes).Nodup
  verified : ∃ aggregated signature, T.bls.aggregatePublicKeys keys = some aggregated ∧
    T.bls.signatureFromBytes att.signature.val = some signature ∧
    T.bls.verifyAggMessage signature (att.attestation.serialize T.hashBytes) aggregated = true

theorem validateSignatures_eq_ok {att : SignedAttestation H A} {keys : List T.bls.PublicKey}
    (h : validateSignatures T r att = .ok keys) :
    ∃ signers, SignedBy T r att keys signers ∧
      calculateQuorum r.activeAttestors.toFinset.card ≤ signers.length := by
  simp only [validateSignatures, bind_eq_ok, ensure_eq_ok, okOr_eq_ok, pure_eq_ok] at h
  obtain ⟨-, -, signature, hsignature, pks, hgather, deduped, hdedup, -, hquorum, aggregated,
    haggregated, -, hverified, rfl⟩ := h
  obtain ⟨signers, hsub, hkeys, hdistinct, -⟩ :=
    dedupPublicKeys_eq_ok (gatherAttestorPublicKeys_eq_ok hgather) hdedup
  have heligible : ∀ a ∈ signers, a ∈ att.attestors ∧ a ∈ r.activeAttestors := by
    intro a ha
    have hmem := hsub.subset ha
    simpa [eligibleAttestors, activeSet] using hmem
  refine ⟨signers, ⟨(nodup_sortedSet _ _).sublist hsub, fun a ha => (heligible a ha).2,
    fun a ha => (heligible a ha).1, hkeys, hdistinct,
    aggregated, signature, haggregated, hsignature, hverified⟩, ?_⟩
  rw [hkeys.length_eq, ← length_sortedSet T.accountOrd]
  exact hquorum

/-! ## Quorums -/

section Quorum

variable [DecidableEq H] {s s' : State H A B} {k k' : ChainKey} {att att' : SignedAttestation H A}
  {keys keys' : List T.bls.PublicKey}

theorem isQuorum_of_validate (hreach : Reachable T s)
    (h : validateAttestation T att (s.isChainSupported k) (s.chain T k) = .ok keys) :
    ∃ signers, SignedBy T (s.chain T k).roster att keys signers ∧
      IsQuorum (s.chain T k).roster.activeAttestors.toFinset signers.toFinset := by
  simp only [validateAttestation, bind_eq_ok, ensure_eq_ok, pure_eq_ok] at h
  obtain ⟨-, hsup, -, -, -, -, -, -, -, -, keys, hkeys, -, -, rfl⟩ := h
  obtain ⟨signers, hsigned, hquorum⟩ := validateSignatures_eq_ok hkeys
  refine ⟨signers, hsigned, fun a ha => ?_, ?_⟩
  · exact List.mem_toFinset.2 (hsigned.active a (List.mem_toFinset.1 ha))
  · have hcoherent := coherent_of_live hreach (.inl hsup)
    have hcard : (s.chain T k).roster.activeAttestors.toFinset.card ≤ T.maxAttestationNodes :=
      (List.toFinset_card_le _).trans (hcoherent.roster.length_le.trans
        (hcoherent.count_le.trans hcoherent.max_le))
    have hnodes := T.nodes_lt
    rw [List.toFinset_card_of_nodup hsigned.nodup]
    refine le_trans (le_of_eq ?_) hquorum
    rw [calculateQuorum, calculateThreshold, satMul_of_le (by unfold u32Max; omega), mul_comm]

/-- **Soundness of quorums.** The keys aggregated for an accepted attestation are the pairwise
different keys of a quorum of the active set, whatever its payload lists; and the signers of two
attestations accepted against the same active set share more than a third of it. -/
theorem quorums_intersect (hreach : Reachable T s) (hreach' : Reachable T s')
    (h : validateAttestation T att (s.isChainSupported k) (s.chain T k) = .ok keys)
    (h' : validateAttestation T att' (s'.isChainSupported k') (s'.chain T k') = .ok keys')
    (hsame : (s'.chain T k').roster.activeAttestors.toFinset =
      (s.chain T k).roster.activeAttestors.toFinset) :
    ∃ signers signers', SignedBy T (s.chain T k).roster att keys signers ∧
      SignedBy T (s'.chain T k').roster att' keys' signers' ∧
      2 * (s.chain T k).roster.activeAttestors.toFinset.card / 3 + 1 ≤ signers.length ∧
      2 * (s.chain T k).roster.activeAttestors.toFinset.card / 3 + 1 ≤ signers'.length ∧
      (s.chain T k).roster.activeAttestors.toFinset.card <
        3 * (signers.toFinset ∩ signers'.toFinset).card := by
  obtain ⟨signers, hsigned, hquorum⟩ := isQuorum_of_validate hreach h
  obtain ⟨signers', hsigned', hquorum'⟩ := isQuorum_of_validate hreach' h'
  rw [hsame] at hquorum'
  refine ⟨signers, signers', hsigned, hsigned', ?_, ?_, hquorum.card_lt_inter hquorum'⟩
  · exact List.toFinset_card_of_nodup hsigned.nodup ▸ hquorum.card_ge
  · exact List.toFinset_card_of_nodup hsigned'.nodup ▸ hquorum'.card_ge

end Quorum

section Devnet

open Devnet

/-- The first attestation of the source chain, with the given payload. -/
def listing (attestors : List ℕ) : SignedAttestation Word ℕ :=
  { attestation 0 none ⟨.zero, []⟩ with attestors := attestors }

/-- Of four attestors the first three sign one attestation and the last three another, whose payload
repeats one of them and lists a stranger. At least two of them have signed both. -/
theorem devnet_quorums_intersect :
    ∃ keys keys' signers signers',
      SignedBy config (committee.chain config 1).roster (listing [1, 2, 3]) keys signers ∧
      SignedBy config (committee.chain config 1).roster (listing [2, 3, 4, 2, 9]) keys' signers' ∧
      2 ≤ (signers.toFinset ∩ signers'.toFinset).card := by
  have hvalid : ∀ payload ∈ [[1, 2, 3], [2, 3, 4, 2, 9]],
      (validateAttestation config (listing payload) (committee.isChainSupported 1)
        (committee.chain config 1)).isOk = true := by
    decide +kernel
  obtain ⟨keys, hkeys⟩ := exists_of_isOk (hvalid [1, 2, 3] (by simp))
  obtain ⟨keys', hkeys'⟩ := exists_of_isOk (hvalid [2, 3, 4, 2, 9] (by simp))
  obtain ⟨signers, signers', hsigned, hsigned', -, -, hshared⟩ :=
    quorums_intersect reachable_committee reachable_committee hkeys hkeys' rfl
  have hcard : (committee.chain config 1).roster.activeAttestors.toFinset.card = 4 := by
    decide +kernel
  exact ⟨keys, keys', signers, signers', hsigned, hsigned', by omega⟩

end Devnet

end Creditcoin
