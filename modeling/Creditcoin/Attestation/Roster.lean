import Creditcoin.Attestation.Maintenance
import Creditcoin.Foundations.Vectors

/-!
# Attestors and their keys

What the calls of attestors, stashes and operators do to the roster of one chain. A controller
claims its BLS key when it starts attesting. After unregistration the key is among the retired keys
until the bond is released, so that nobody else can take it. The retired keys of all chains are
indexed by stash. -/

namespace Creditcoin

variable {H A B : Type} [DecidableEq A]

/-- The retired keys of each stash, as pairs of chain and controller. -/
abbrev RetiredIndex (A : Type) := StorageMap A (List (ChainKey × A))

/-- The bound on the retired keys of a stash. -/
def maxRetiredPerStash : ℕ := 64

/-- Drop one pair from the index of a stash. No empty list is kept. -/
def removeStashRetiredIndexPair (index : RetiredIndex A) (stash : A) (k : ChainKey)
    (attestorId : A) : RetiredIndex A :=
  match index.lookup stash with
  | none => index
  | some pairs =>
    if swapErase pairs (k, attestorId) = [] then index.erase stash
    else index.insert stash (swapErase pairs (k, attestorId))

namespace Roster

variable (r : Roster A)

/-! ## Registration -/

/-- Give up the claim on a key, if the controller still holds it. -/
def releaseKey (key : BlsPublicKey) (attestorId : A) : Roster A :=
  if r.blsKeyOwner.lookup key = some attestorId then
    { r with blsKeyOwner := r.blsKeyOwner.erase key }
  else r

/-- Drop the controller's own retired key, so that it can register again. Only the stash that
retired it may do so. -/
def clearRetiredBlsEntryForController (index : RetiredIndex A) (k : ChainKey)
    (attestorId registeringStash : A) : Except Error (Roster A × RetiredIndex A) :=
  match r.retiredAttestorBlsKeys.lookup attestorId with
  | none => .ok (r, index)
  | some entry => do
    ensure (entry.stash = registeringStash) .controllerRetiredByAnotherStash
    let cleared := { r with retiredAttestorBlsKeys := r.retiredAttestorBlsKeys.erase attestorId }
    pure (cleared.releaseKey entry.blsPublicKey attestorId,
      removeStashRetiredIndexPair index entry.stash k attestorId)

/-- Register a controller as idle, and record its collateral. -/
def registerAttestor (st : Settings) (index : RetiredIndex A) (k : ChainKey)
    (stash attestorId : A) : Except Error (Roster A × RetiredIndex A) := do
  ensure (st.chainElectionPolicy = .authorizedOnly →
    (r.authorizedAttestors.lookup attestorId).isSome = true) .notPreAuthorizedToRegister
  ensure (r.attestors.lookup attestorId = none) .alreadyAttestor
  let (cleared, index') ← r.clearRetiredBlsEntryForController index k attestorId stash
  ensure (cleared.attestorsCount < st.maxAttestors) .attestorListFull
  ensure (attestorId ≠ stash) .invalidAttestorAccount
  pure ({ cleared with
    attestors := cleared.attestors.insert attestorId ⟨none, .idle, stash⟩
    attestorsCount := satAdd u32Max cleared.attestorsCount 1
    attestorCollateral := cleared.attestorCollateral.insert attestorId st.minBondRequirement
    events := cleared.events ++ [.attestorRegistered attestorId] }, index')

def removeActiveAttestorFromSet (attestorId : A) : Roster A :=
  { r with activeAttestors := swapErase r.activeAttestors attestorId }

/-- Append a pair to the index of a stash. -/
def pushRetired (index : RetiredIndex A) (stash : A) (pair : ChainKey × A) :
    Except Error (RetiredIndex A) := do
  let pairs := (index.lookup stash).getD []
  ensure (pairs.length < maxRetiredPerStash) .retiredAttestorPendingFull
  pure (index.insert stash (pairs ++ [pair]))

/-- Keep the key of an attestor that is about to be removed. -/
def retireKey (index : RetiredIndex A) (k : ChainKey) (stash attestorId : A) (purgeAtEra : ℕ)
    (key : Option BlsPublicKey) : Except Error (Roster A × RetiredIndex A) :=
  match key with
  | none => .ok (r, index)
  | some blsPublicKey => do
    let index' ← pushRetired index stash (k, attestorId)
    pure ({ r with
      retiredAttestorBlsKeys :=
        r.retiredAttestorBlsKeys.insert attestorId ⟨blsPublicKey, purgeAtEra, stash⟩ }, index')

/-- The attestor that a stash may unregister: its own, and idle. -/
def removableAttestor (stash attestorId : A) : Except Error (Attestor A) := do
  let attestor ← okOr (r.attestors.lookup attestorId) .addressNotAttestor
  ensure (attestor.stash = stash) .notYourAttestor
  ensure (attestor.status = .idle) .attestorNotIdle
  pure attestor

/-- Unregister a controller, keeping its key as retired. -/
def unregisterAttestor (index : RetiredIndex A) (k : ChainKey) (stash attestorId : A)
    (purgeAtEra : ℕ) (attestor : Attestor A) : Except Error (Roster A × RetiredIndex A) := do
  let (retired, index') ← r.retireKey index k stash attestorId purgeAtEra attestor.blsPublicKey
  let inactive := retired.removeActiveAttestorFromSet attestorId
  pure ({ inactive with
    attestorCollateral := inactive.attestorCollateral.erase attestorId
    attestors := inactive.attestors.erase attestorId
    attestorsCount := inactive.attestorsCount - 1
    events := inactive.events ++ [.attestorUnregistered attestorId] }, index')

/-! ## Attesting and chilling -/

/-- Claim a BLS key and wait for the next election. An idle attestor may change its key, which gives
up the claim on the old one. -/
def startAttesting (T : Config H A B) (supported : Bool) (k : ChainKey) (attestorId : A)
    (blsPublicKey : BlsPublicKey) (proofOfPossession : BlsSignature) :
    Except Error (Roster A) := do
  ensure (supported = true) .chainNotSupported
  let attestor ← okOr (r.attestors.lookup attestorId) .addressNotAttestor
  ensure (attestor.blsPublicKey.isSome = true → attestor.status = .idle) .attestorNotIdle
  let publicKey ← okOr (T.bls.publicKeyFromBytes blsPublicKey.val) .invalidBlsPublicKey
  let signature ← okOr (T.bls.signatureFromBytes proofOfPossession.val) .invalidBlsSignature
  ensure (T.bls.verify signature
    (proofOfPossessionMessage k (T.accountBytes attestorId) blsPublicKey) publicKey = true)
    .invalidProofOfPossession
  ensure (∀ owner ∈ r.blsKeyOwner.lookup blsPublicKey, owner = attestorId)
    .blsKeyAlreadyRegistered
  let released :=
    match attestor.blsPublicKey with
    | some oldKey => if oldKey = blsPublicKey then r.blsKeyOwner else r.blsKeyOwner.erase oldKey
    | none => r.blsKeyOwner
  pure { r with
    blsKeyOwner := released.insert blsPublicKey attestorId
    attestors := r.attestors.insert attestorId
      { attestor with status := .waiting, blsPublicKey := some blsPublicKey }
    events := r.events ++ [.attestorActivated attestorId blsPublicKey] }

def attestorStatus (attestorId : A) : Option AttestorStatus :=
  (r.attestors.lookup attestorId).map (·.status)

def setStatus (attestorId : A) (status : AttestorStatus) : Roster A :=
  match r.attestors.lookup attestorId with
  | none => r
  | some attestor =>
    { r with attestors := r.attestors.insert attestorId { attestor with status := status } }

/-- Schedule a chill for the next election. -/
def scheduleVoluntaryChill (attestorId : A) : Roster A := r.setStatus attestorId .leaving

def doChillAttestorImmediate (attestorId : A) : Roster A :=
  let chilled := (r.setStatus attestorId .idle).removeActiveAttestorFromSet attestorId
  { chilled with events := chilled.events ++ [.attestorChilled attestorId] }

/-- The call `chill`: a waiting attestor is chilled at once, an active one at the next election. -/
def chill (who attestorId : A) : Except Error (Roster A) := do
  let attestor ← okOr (r.attestors.lookup attestorId) .addressNotAttestor
  ensure (attestor.stash = who) .notYourAttestor
  match attestor.status with
  | .idle => .error .attestorAlreadyIdle
  | .leaving => .error .attestorChillAlreadyScheduled
  | .waiting => pure (r.doChillAttestorImmediate attestorId)
  | .active => pure (r.scheduleVoluntaryChill attestorId)

/-! ## Elections -/

/-- May a waiting attestor be elected under the policy? -/
def admits (policy : AttestorElectionPolicy) (attestorId : A) : Bool :=
  match policy with
  | .openToAny => true
  | .authorizedOnly => (r.authorizedAttestors.lookup attestorId).isSome
  | .deniedToAll => false

/-- The loop of an election: active attestors stay, waiting ones are admitted by the policy, leaving
ones become idle. -/
def electLoop (policy : AttestorElectionPolicy) : List A → Roster A → List A × Roster A
  | [], r => ([], r)
  | account :: accounts, r =>
    match r.attestorStatus account with
    | some .active =>
      let rest := electLoop policy accounts r
      (account :: rest.1, rest.2)
    | some .waiting =>
      if r.admits policy account then
        let rest := electLoop policy accounts (r.setStatus account .active)
        (account :: rest.1, rest.2)
      else electLoop policy accounts r
    | some .leaving =>
      let idle := r.setStatus account .idle
      electLoop policy accounts { idle with events := idle.events ++ [.attestorChilled account] }
    | some .idle => electLoop policy accounts r
    | none => electLoop policy accounts r

/-- Do two duplicate-free lists have the same members? -/
def sameMembership (l l' : List A) : Bool := l.length = l'.length && l.all fun x => x ∈ l'

/-- Elect the active set of a chain. The set is rewritten only when it changes. -/
def electAttestorsForChain (T : Config H A B) (policy : AttestorElectionPolicy) (epoch : ℕ) :
    Roster A :=
  let elected := electLoop policy (r.attestors.iterKeys T.accountRank) r
  if sameMembership elected.1 elected.2.activeAttestors then elected.2
  else
    { elected.2 with
      activeAttestors := elected.1
      events := elected.2.events ++ [.attestorsElected epoch elected.1] }

/-! ## Invulnerables and authorizations -/

def registerInvulnerable (supported : Bool) (st : Settings) (address : A) :
    Except Error (Roster A) := do
  ensure (supported = true) .chainNotSupported
  ensure (r.invulnerables.keys.length < st.maxInvulnerables) .invulnerableListFull
  pure { r with
    invulnerables := r.invulnerables.insert address true
    events := r.events ++ [.invulnerableRegistered address] }

def unregisterInvulnerable (address : A) : Except Error (Roster A) := do
  ensure ((r.invulnerables.lookup address).isSome = true) .addressIsNotInvulnerable
  pure { r with
    invulnerables := r.invulnerables.erase address
    events := r.events ++ [.invulnerableUnregistered address] }

def authorizeAttestor (supported : Bool) (attestorId : A) : Except Error (Roster A) := do
  ensure (supported = true) .chainNotSupported
  ensure ((r.authorizedAttestors.lookup attestorId).isSome = false) .attestorAlreadyAuthorized
  pure { r with
    authorizedAttestors := r.authorizedAttestors.insert attestorId ()
    events := r.events ++ [.authorizedAttestorAdded attestorId] }

def removeAuthorizedAttestor (attestorId : A) : Except Error (Roster A) := do
  ensure ((r.authorizedAttestors.lookup attestorId).isSome = true) .attestorNotAuthorized
  pure { r with
    authorizedAttestors := r.authorizedAttestors.erase attestorId
    events := r.events ++ [.authorizedAttestorRemoved attestorId] }

end Roster

/-! ## Cleanup of a removed chain -/

section Cleanup

variable (T : Config H A B) (host : Host H A) (k : ChainKey)

/-- The largest number of items cleaned up in a block. -/
def maxRemovalCleanupItemsPerBlock : ℕ := 40

/-- The attestors after a cursor, in the order of iteration. -/
def attestorsAfter (r : Roster A) : Option A → List A
  | none => r.attestors.iterKeys T.accountRank
  | some cursor =>
    (r.attestors.iterKeys T.accountRank).filter fun a => T.accountRank cursor < T.accountRank a

/-- Set an attestor of a removed chain to idle. -/
def chillRemoved (r : Roster A) (attestorId : A) : Roster A :=
  let idle := r.setStatus attestorId .idle
  { idle with events := idle.events ++ [.attestorChilled attestorId] }

/-- Drop a retired key of a removed chain with its index pair. -/
def clearRetired (rows : Roster A × RetiredIndex A) (attestorId : A) : Roster A × RetiredIndex A :=
  match rows.1.retiredAttestorBlsKeys.lookup attestorId with
  | none => rows
  | some entry =>
    ({ rows.1 with retiredAttestorBlsKeys := rows.1.retiredAttestorBlsKeys.erase attestorId },
      removeStashRetiredIndexPair rows.2 entry.stash k attestorId)

def cleanupInvulnerables (budget : ℕ) (r : Roster A) :
    Roster A × Option (RemovedChainCleanupPhase A) :=
  let cleared := r.invulnerables.clearPrefix (host.invulnerables budget r.invulnerables)
  ({ r with invulnerables := cleared.1 }, cleared.2.map fun _ => .invulnerables)

/-- Clear up to `budget` key owners, then go on with what is left of the budget. -/
def cleanupBlsKeyOwners (budget : ℕ) (r : Roster A) :
    Roster A × Option (RemovedChainCleanupPhase A) :=
  let cleared := r.blsKeyOwner.clearPrefix (host.blsKeyOwner budget r.blsKeyOwner)
  let r' := { r with blsKeyOwner := cleared.1 }
  if cleared.2.isSome then (r', some .blsKeyOwners)
  else cleanupInvulnerables host (budget - r.blsKeyOwner.removedBy cleared.1) r'

/-- Clear up to `budget` retired keys, then go on. -/
def cleanupRetiredKeys (budget : ℕ) (r : Roster A) (index : RetiredIndex A) :
    Roster A × RetiredIndex A × Option (RemovedChainCleanupPhase A) :=
  let rows := r.retiredAttestorBlsKeys.iterKeys T.accountRank
  let (r', index') := (rows.take budget).foldl (clearRetired k) (r, index)
  if rows.length ≤ budget then
    let (r'', phase) := cleanupBlsKeyOwners host (budget - rows.length) r'
    (r'', index', phase)
  else (r', index', some .retiredKeys)

/-- Chill up to `budget` attestors, then go on. -/
def cleanupChill (budget : ℕ) (cursor : Option A) (r : Roster A) (index : RetiredIndex A) :
    Roster A × RetiredIndex A × Option (RemovedChainCleanupPhase A) :=
  let ids := attestorsAfter T r cursor
  let r' := (ids.take budget).foldl chillRemoved r
  if ids.length ≤ budget then cleanupRetiredKeys T host k (budget - ids.length) r' index
  else (r', index, some (.chillAttestors (((ids.take budget).getLast?).or cursor)))

/-- Work through the phases from `phase` until the budget runs out. -/
def runRemovedChainCleanup (phase : RemovedChainCleanupPhase A) (r : Roster A)
    (index : RetiredIndex A) : Roster A × RetiredIndex A × Option (RemovedChainCleanupPhase A) :=
  match phase with
  | .chillAttestors cursor => cleanupChill T host k maxRemovalCleanupItemsPerBlock cursor r index
  | .retiredKeys => cleanupRetiredKeys T host k maxRemovalCleanupItemsPerBlock r index
  | .blsKeyOwners =>
    let (r', phase') := cleanupBlsKeyOwners host maxRemovalCleanupItemsPerBlock r
    (r', index, phase')
  | .invulnerables =>
    let (r', phase') := cleanupInvulnerables host maxRemovalCleanupItemsPerBlock r
    (r', index, phase')

/-- Run one batch and remember where the next one picks up. -/
def continueRemovedChainCleanup (phase : RemovedChainCleanupPhase A) (r : Roster A)
    (index : RetiredIndex A) : Roster A × RetiredIndex A :=
  let (r', index', next) := runRemovedChainCleanup T host k phase r index
  ({ r' with removedChainCleanup := next }, index')

def removeChainRoster (r : Roster A) (index : RetiredIndex A) : Roster A × RetiredIndex A :=
  continueRemovedChainCleanup T host k (.chillAttestors none) { r with activeAttestors := [] } index

end Cleanup

end Creditcoin
