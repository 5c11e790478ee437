import Creditcoin.Attestor.Primitives
import Creditcoin.Foundations.StorageMap
import Mathlib.Data.PNat.Basic

/-!
# The vote pool of an attestor

The pool collects votes by height and digest, in one fork for each pair, and hands a fork out as a
quorum once it has enough votes. The task that validates quorums answers with the permit it was
given. Every operation takes the lock of the pool, so a run is a sequence of operations.

Arrival times, the counters of the metrics and the closing of the pool are left out. `digestOrd` is
the order of digests, by which the sorted index of the forks is searched. -/

namespace Creditcoin.Attestor

variable {H A : Type}

/-! ## Votes and forks -/

/-- A vote of an attestor for the digest of a height. -/
structure Vote (H A : Type) where
  chainKey : ChainKey
  height : ℕ
  digest : H
  attestor : A
  signatureBls : BlsSignature
  deriving DecidableEq

/-- Why a vote is turned down. -/
inductive PoolError (H A : Type)
  | unauthorized (attestor : A) (height : ℕ)
  | invalidHeight (attestor : A) (height lowerBound : ℕ)
  | equivocation (attestor : A) (height : ℕ)
  | knownInvalid (attestor : A) (height : ℕ) (digest : H)
  deriving DecidableEq

/-- The votes for one digest at one height. -/
structure AttestationVote (H A : Type) where
  height : ℕ
  digest : H
  chainKey : ChainKey
  votes : List (Vote H A)
  signers : Finset A
  deriving DecidableEq

/-- The votes whose signers are kept. -/
def AttestationVote.retain [DecidableEq A] (fork : AttestationVote H A) (keep : Finset A) :
    AttestationVote H A :=
  { fork with votes := fork.votes.filter (·.attestor ∈ keep), signers := fork.signers ∩ keep }

structure Forks (H A : Type) where
  /-- The votes of each fork. -/
  byDigest : StorageMap (ℕ × H) (AttestationVote H A)
  /-- The height, the number of signers and the digest of each fork. -/
  byHeightSize : List (ℕ × ℕ × H)
  /-- The digest each attestor voted for at a height. -/
  seen : StorageMap (ℕ × A) H
  /-- Forks that were found to be invalid. -/
  invalid : Finset (ℕ × H)
  /-- Forks set aside until something changes. -/
  deferred : Finset (ℕ × H)
  lastFinalizedHeight : Option ℕ
  lastFinalizedDigest : Option H

namespace Forks

section Votes

variable [DecidableEq H] [DecidableEq A] (f : Forks H A)

/-- The fork a vote belongs to, with no votes if it is new. -/
def entry (vote : Vote H A) : AttestationVote H A :=
  (f.byDigest.lookup (vote.height, vote.digest)).getD
    ⟨vote.height, vote.digest, vote.chainKey, [], ∅⟩

def addVote (vote : Vote H A) : Forks H A :=
  let entry := f.entry vote
  let signers := insert vote.attestor entry.signers
  { f with
    seen := f.seen.insert (vote.height, vote.attestor) vote.digest
    byDigest := f.byDigest.insert (vote.height, vote.digest)
      { entry with signers := signers, votes := entry.votes ++ [vote] }
    byHeightSize :=
      (f.byHeightSize.filter (· ≠ (vote.height, entry.signers.card, vote.digest))).insert
        (vote.height, signers.card, vote.digest)
    deferred := f.deferred.erase (vote.height, vote.digest) }

/-- Take a vote, unless its fork is invalid or the attestor voted for another digest. A repeated
vote changes nothing. -/
def push (vote : Vote H A) : Except (PoolError H A) (Forks H A) :=
  if (vote.height, vote.digest) ∈ f.invalid then
    .error (.knownInvalid vote.attestor vote.height vote.digest)
  else
    match f.seen.lookup (vote.height, vote.attestor) with
    | some prev =>
      if prev = vote.digest then .ok f else .error (.equivocation vote.attestor vote.height)
    | none => .ok (f.addVote vote)

/-- Remove a fork. Its signers cannot vote again at its height. -/
def dropFork (height : ℕ) (digest : H) : Forks H A :=
  let kept := { f with deferred := f.deferred.erase (height, digest) }
  match f.byDigest.lookup (height, digest) with
  | some entry =>
    { kept with
      byDigest := f.byDigest.erase (height, digest)
      byHeightSize := f.byHeightSize.filter (· ≠ (height, entry.signers.card, digest)) }
  | none => kept

/-- Remove a fork and turn down its votes from now on. -/
def invalidateFork (height : ℕ) (digest : H) : Forks H A :=
  let dropped := f.dropFork height digest
  { dropped with invalid := insert (height, digest) dropped.invalid }

/-- Drop the votes of one fork whose signers are not kept. -/
def retainFork (keep : Finset A) (key : ℕ × H) : Forks H A :=
  match f.byDigest.lookup key with
  | none => f
  | some entry =>
    let retained := entry.retain keep
    if retained.signers.card = entry.signers.card then
      { f with byDigest := f.byDigest.insert key retained }
    else
      let index := f.byHeightSize.filter (· ≠ (key.1, entry.signers.card, key.2))
      if retained.signers = ∅ then
        { f with byDigest := f.byDigest.erase key, byHeightSize := index }
      else
        { f with
          byDigest := f.byDigest.insert key retained
          byHeightSize := index.insert (key.1, retained.signers.card, key.2) }

/-- Drop every vote whose signer is not kept. -/
def retainSigners (keep : Finset A) : Forks H A :=
  let kept := f.byDigest.keys.foldl (fun f key => retainFork f keep key) { f with deferred := ∅ }
  { kept with seen := kept.seen.retain fun key => key.2 ∈ keep }

/-- Forget one fork that is split off, with what its signers voted. -/
def forgetFork (f : Forks H A) (dropped : (ℕ × H) × AttestationVote H A) : Forks H A :=
  { f with
    byHeightSize := f.byHeightSize.filter
      (· ≠ (dropped.1.1, dropped.2.signers.card, dropped.1.2))
    seen := f.seen.retain fun key => ¬ (key.1 = dropped.1.1 ∧ key.2 ∈ dropped.2.signers) }

/-- Remove every fork at or below a height. The zero digest and the zero account are the least ones,
so keys split at them are kept from the next height on. Tombstones stay, since a height that was
only validated here may be reopened. -/
def splitOff (finalizedHeight : ℕ) : Forks H A :=
  let split := satAdd u64Max finalizedHeight 1
  let toDrop := f.byDigest.entries.filter fun row => row.1.1 < split
  let kept := (toDrop.map fun row => (row.1, row.2)).foldl forgetFork
    { f with byDigest := f.byDigest.retain fun key => split ≤ key.1 }
  { kept with
    byHeightSize := kept.byHeightSize.filter fun row => split ≤ row.1
    deferred := kept.deferred.filter fun key => split ≤ key.1
    seen := kept.seen.retain fun key => split ≤ key.1 }

/-- Forget all votes and all marks. -/
def clear : Forks H A :=
  { f with byDigest := ∅, byHeightSize := [], seen := ∅, invalid := ∅, deferred := ∅ }

/-- An attestation was finalized on chain: nothing at or below its height is of interest. -/
def noteFinalized (height : ℕ) (digest : H) : Forks H A :=
  let split := f.splitOff height
  { split with
    invalid := split.invalid.filter fun key => satAdd u64Max height 1 ≤ key.1
    lastFinalizedHeight := some height
    lastFinalizedDigest := some digest }

end Votes

/-! ## The best fork -/

section Best

variable [DecidableEq H] (digestOrd : H → ℕ) (f : Forks H A)

/-- The order in which the index is searched: heights, sizes and digests from the largest down. -/
def searchedBefore (e e' : ℕ × ℕ × H) : Prop :=
  e'.1 < e.1 ∨ (e'.1 = e.1 ∧
    (e'.2.1 < e.2.1 ∨ (e'.2.1 = e.2.1 ∧ digestOrd e'.2.2 ≤ digestOrd e.2.2)))

instance : DecidableRel (searchedBefore digestOrd) :=
  fun _ _ => inferInstanceAs (Decidable (_ ∨ _))

/-- Is the next fork of the same height that is not set aside as large as this one? -/
def tied (height size : ℕ) (rest : List (ℕ × ℕ × H)) : Bool :=
  ((rest.takeWhile (·.1 = height)).find? fun e => (e.1, e.2.2) ∉ f.deferred).any (·.2.1 = size)

/-- The loop of `best`. The rest of the height `skip` is passed over. -/
def bestFrom (target : ℕ) : Option ℕ → List (ℕ × ℕ × H) → Option (AttestationVote H A)
  | _, [] => none
  | skip, (height, size, digest) :: rest =>
    if skip = some height then bestFrom target skip rest
    else if (height, digest) ∈ f.deferred then bestFrom target none rest
    else if target ≤ size ∧ f.tied height size rest = false then
      f.byDigest.lookup (height, digest)
    else bestFrom target (some height) rest

/-- The fork at the greatest height with a quorum that no other fork of that height equals. -/
def best (target : ℕ) : Option (AttestationVote H A) :=
  f.bestFrom target none (f.byHeightSize.insertionSort (searchedBefore digestOrd))

end Best

end Forks

/-! ## The pool -/

/-- A token that stands for a quorum that was handed out. -/
structure Permit (H : Type) where
  height : ℕ
  digest : H
  validationGeneration : ℕ
  voteCount : ℕ
  deriving DecidableEq

/-- What the validation task receives. -/
structure Quorum (H A : Type) where
  height : ℕ
  digest : H
  chainKey : ChainKey
  votes : List (Vote H A)
  deriving DecidableEq

/-- A quorum that was validated here and waits for an earlier one to be finalized. -/
structure SignedQuorum (H A : Type) where
  height : ℕ
  digest : H
  signed : SignedAttestation H A
  votes : List (Vote H A)

/-- How the pool is started. -/
structure PoolConfig (H A : Type) where
  attestors : List A
  quorum : ℕ+
  attestationInterval : ℕ+
  startHeight : ℕ
  maxCatchup : ℕ+
  startDigest : Option H
  startHeightFinalized : Option ℕ

/-- The quorum that is asked for, and the heights that votes may have. -/
structure ValidateQuorum where
  target : ℕ+
  interval : ℕ+
  startHeight : ℕ
  maxCatchup : ℕ+

/-- Is a height within reach of the last finalized one? -/
def ValidateQuorum.heightAdmissible (v : ValidateQuorum) (height : ℕ) (lastFinalized : Option ℕ) :
    Bool :=
  let window : ℕ := max v.maxCatchup v.interval
  let upper := satAdd u64Max (lastFinalized.getD v.startHeight) window
  let above : Bool := match lastFinalized with
    | some finalized => finalized < height
    | none => v.startHeight ≤ height
  above && v.startHeight ≤ height && height ≤ upper

structure Pool (H A : Type) where
  forks : Forks H A
  valid : StorageMap ℕ (SignedQuorum H A)
  attestors : Finset A
  validateQuorum : ValidateQuorum
  /-- The digest of the last quorum that was marked as valid. -/
  digestLocal : Option H
  /-- The greatest height that was marked as valid: the local validation lock. -/
  locallyValidatedHeight : Option ℕ
  /-- Changes with the committee and with every reset. -/
  validationGeneration : ℕ

namespace Pool

variable [DecidableEq H] [DecidableEq A]

def new (config : PoolConfig H A) : Pool H A where
  forks := ⟨∅, [], ∅, ∅, ∅, config.startHeightFinalized, config.startDigest⟩
  valid := ∅
  attestors := config.attestors.toFinset
  validateQuorum :=
    ⟨config.quorum, config.attestationInterval, config.startHeight, config.maxCatchup⟩
  digestLocal := none
  locallyValidatedHeight := none
  validationGeneration := 0

variable (p : Pool H A)

/-- The height above which votes are taken: what is finalized or, if greater, what is locked. -/
def lowerBound : Option ℕ :=
  Option.merge max p.forks.lastFinalizedHeight p.locallyValidatedHeight

def push (vote : Vote H A) : Except (PoolError H A) (Pool H A) := do
  ensure (vote.attestor ∈ p.attestors) (.unauthorized vote.attestor vote.height)
  ensure (p.validateQuorum.heightAdmissible vote.height p.lowerBound = true)
    (.invalidHeight vote.attestor vote.height (p.lowerBound.getD p.validateQuorum.startHeight))
  let forks ← p.forks.push vote
  pure { p with forks := forks }

/-- The next quorum, with its permit. -/
def peek (digestOrd : H → ℕ) : Option (Quorum H A × Permit H) :=
  (p.forks.best digestOrd p.validateQuorum.target).map fun fork =>
    (⟨fork.height, fork.digest, fork.chainKey, fork.votes⟩,
      ⟨fork.height, fork.digest, p.validationGeneration, fork.votes.length⟩)

/-- Commit to a quorum: its height is locked. -/
def markValid (permit : Permit H) : Pool H A :=
  { p with
    forks := p.forks.splitOff permit.height
    digestLocal := some permit.digest
    locallyValidatedHeight :=
      some ((p.locallyValidatedHeight.map (max · permit.height)).getD permit.height) }

/-- A new generation of validation results, a wrapping counter. -/
def nextGeneration : ℕ := (p.validationGeneration + 1) % 2 ^ 64

/-- Forget all votes, marks and locks. -/
def reset : Pool H A :=
  { p with
    validationGeneration := p.nextGeneration
    forks := p.forks.clear
    valid := ∅
    digestLocal := none
    locallyValidatedHeight := none }

/-- Validated quorums at or below a height are dropped. -/
def dropUpTo (height : ℕ) : StorageMap ℕ (SignedQuorum H A) :=
  p.valid.retain fun h => satAdd u64Max height 1 ≤ h

/-- Set a quorum aside, unless it changed since the permit was issued. -/
def defer (permit : Permit H) : Pool H A :=
  let key := (permit.height, permit.digest)
  if p.validationGeneration = permit.validationGeneration ∧
      (p.forks.byDigest.lookup key).any (fun fork => fork.votes.length = permit.voteCount) then
    { p with forks := { p.forks with deferred := insert key p.forks.deferred } }
  else p

end Pool

/-! ## Runs -/

/-- The operations of the two ends of the pool. -/
inductive PoolAction (H A : Type)
  | send (vote : Vote H A)
  | noteAttestationFinalization (height : ℕ) (digest : H)
  | noteAttestationIntervalChange (interval : ℕ+)
  | noteAttestorsElected (attestors : List A)
  | noteMaxCatchupChange (maxCatchup : ℕ+)
  | noteQuorumChange (threshold : ℕ)
  | noteMajorityNotReached (height : ℕ)
  | noteAttestationChainReversion (height : ℕ) (digest : H)
  | markValid (permit : Permit H)
  | markInvalid (permit : Permit H)
  | markSkipped (permit : Permit H)
  | defer (permit : Permit H)
  | markForLater (permit : Permit H) (signed : SignedQuorum H A)
  | takeNextValidated

namespace Pool

variable [DecidableEq H] [DecidableEq A]

/-- The least height of a validated quorum. -/
def firstValidated (p : Pool H A) : Option ℕ := (p.valid.iterKeys id).head?

def step (p : Pool H A) : PoolAction H A → Pool H A
  | .send vote =>
    match p.push vote with
    | .ok p' => p'
    | .error _ => p
  | .noteAttestationFinalization height digest =>
    { p with valid := p.dropUpTo height, forks := p.forks.noteFinalized height digest }
  | .noteAttestationIntervalChange interval =>
    { p.reset with validateQuorum := { p.validateQuorum with interval := interval } }
  | .noteAttestorsElected attestors =>
    { p with
      validationGeneration := p.nextGeneration
      attestors := attestors.toFinset
      forks := p.forks.retainSigners attestors.toFinset }
  | .noteMaxCatchupChange maxCatchup =>
    { p with validateQuorum := { p.validateQuorum with maxCatchup := maxCatchup } }
  | .noteQuorumChange threshold =>
    if h : 0 < threshold then
      { p with
        validateQuorum := { p.validateQuorum with target := ⟨threshold, h⟩ }
        validationGeneration := p.nextGeneration
        forks := { p.forks with deferred := ∅ } }
    else p
  | .noteMajorityNotReached height =>
    if p.locallyValidatedHeight = some height then
      { p with locallyValidatedHeight := none, digestLocal := none }
    else p
  | .noteAttestationChainReversion height digest =>
    let cleared := p.reset
    { cleared with
      forks := { cleared.forks with
        lastFinalizedHeight := some height
        lastFinalizedDigest := some digest } }
  | .markValid permit => p.markValid permit
  | .markInvalid permit =>
    { p with forks := p.forks.invalidateFork permit.height permit.digest }
  | .markSkipped permit => { p with forks := p.forks.dropFork permit.height permit.digest }
  | .defer permit => p.defer permit
  | .markForLater permit signed =>
    markValid { p with valid := p.valid.insert signed.height signed } permit
  | .takeNextValidated =>
    match p.firstValidated with
    | some height => { p with valid := p.valid.erase height }
    | none => p

def run (p : Pool H A) (actions : List (PoolAction H A)) : Pool H A := actions.foldl step p

end Pool

end Creditcoin.Attestor
