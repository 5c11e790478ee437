import Creditcoin.Attestor.Pool

/-!
# The exchange of votes of an attestor

The gossip task receives the votes of other attestors. A vote can be verified only against the
attestation that this attestor has produced for its height. A vote that comes earlier is kept in a
buffer, one for each height and attestor, if it is of a height that may be produced soon. The
production task caches what it has produced and then signals the height in a watch, which keeps the
last value only. When the gossip task sees a new value, it empties the buffer up to that height and
hands the votes to verification for which there is local data. The buffer is also emptied up to each
height that is finalized.

Each write of the production task is a step of its own, and so are the reads of the gossip task that
have to agree with each other. The network, the scores of peers and the outgoing votes are left out.
Which heights are produced, finalized and reverted to, whether a key is known for an attestor, and
which peers have been learned, is up to the environment. -/

namespace Creditcoin.Attestor

variable {H A I : Type}

/-! ## The buffer -/

/-- Is a height within reach, and one that is attested? -/
def isBufferable (height genesis : ℕ) (interval maxCatchup : ℕ+) (finalized : Option ℕ)
    (startHeight : ℕ) : Bool :=
  if height ≠ genesis ∧ height % interval ≠ 0 then false
  else
    let window : ℕ := max maxCatchup interval
    match finalized with
    | some finalized => finalized < height && height ≤ satAdd u64Max finalized window
    | none => startHeight ≤ height && height ≤ satAdd u64Max startHeight window

/-- The votes of each height, one for each attestor. -/
abbrev PendingVotes (H A : Type) := StorageMap ℕ (StorageMap A (Vote H A))

/-- What is reported about a message. -/
inductive Acceptance
  | accept
  | ignore
  | reject
  deriving DecidableEq

section Buffer

variable [DecidableEq A] [DecidableEq I]

/-- Does the message come from the peer known for the attestor? Without a known peer the claim is
not authenticated; from another peer it is refused. -/
def claimAuthenticated (peersByAttestor : List (A × I)) (source : Option I) (attestor : A) :
    Option Bool :=
  match (peersByAttestor.find? fun row => row.1 = attestor).map Prod.snd with
  | some bound => if source = some bound then some true else none
  | none => some false

/-- Keep a vote. A place that is taken is given only to an authenticated vote. -/
def admitPendingVote (pendingVotes : PendingVotes H A) (maxPendingPerHeight : ℕ)
    (peersByAttestor : List (A × I)) (source : Option I) (vote : Vote H A) :
    PendingVotes H A × Acceptance :=
  match claimAuthenticated peersByAttestor source vote.attestor with
  | none => (pendingVotes, .reject)
  | some authenticated =>
    let entry := (pendingVotes.lookup vote.height).getD ∅
    if (entry.lookup vote.attestor).isSome then
      if authenticated then
        (pendingVotes.insert vote.height (entry.insert vote.attestor vote), .ignore)
      else (pendingVotes.insert vote.height entry, .ignore)
    else if entry.keys.length < maxPendingPerHeight then
      (pendingVotes.insert vote.height (entry.insert vote.attestor vote), .ignore)
    else (pendingVotes.insert vote.height entry, .ignore)

/-- The peer of an attestor, as learned from a verified vote. -/
def noteAttestorPeer (peersByAttestor : List (A × I)) (attestor : A) (peerId : I) : List (A × I) :=
  if peersByAttestor.any fun row => row.1 = attestor then
    peersByAttestor.map fun row => if row.1 = attestor then (attestor, peerId) else row
  else peersByAttestor ++ [(attestor, peerId)]

end Buffer

/-- Take heights out of the buffer. The votes of those with local data are ready. -/
def takeHeights (hasLocalData : ℕ → Bool) :
    List ℕ → List (Vote H A) → PendingVotes H A → List (Vote H A) × PendingVotes H A
  | [], ready, pendingVotes => (ready, pendingVotes)
  | height :: heights, ready, pendingVotes =>
    match pendingVotes.lookup height with
    | some queued =>
      takeHeights hasLocalData heights
        (if hasLocalData height then ready ++ queued.entries.map (·.2) else ready)
        (pendingVotes.erase height)
    | none => takeHeights hasLocalData heights ready pendingVotes

/-- Empty the buffer up to a height. -/
def drainPendingVotes (pendingVotes : PendingVotes H A) (producedThrough : ℕ)
    (hasLocalData : ℕ → Bool) : List (Vote H A) × PendingVotes H A :=
  takeHeights hasLocalData (pendingVotes.keys.filter fun height => height ≤ producedThrough) []
    pendingVotes

/-! ## The two tasks -/

structure GossipConfig where
  genesis : ℕ
  startHeight : ℕ
  maxPendingPerHeight : ℕ

/-- Where the gossip task is in its turn. -/
inductive GossipTurn (H A I : Type)
  | idle
  /-- There was no local data for a vote. -/
  | admitting (vote : Vote H A) (source : Option I) (known : Bool)
  /-- A new value was signalled. -/
  | waking
  /-- The buffer is emptied up to the value. -/
  | draining (height : ℕ)
  deriving DecidableEq

/-- What the production task is about to write. -/
inductive ProductionTurn
  | idle
  /-- It has stored what it produced, and signals the height. -/
  | signalling (height : ℕ)
  /-- It has dropped the data up to a finalized height, and tells of the height. -/
  | finalizing (height : ℕ)
  /-- It has told of the first finalized height, and drops the data up to there. -/
  | trimming (height : ℕ)
  /-- It has dropped all data for a reversion, and tells of its height. -/
  | reverting (height : ℕ)
  deriving DecidableEq

structure Gossip (H A I : Type) where
  pendingVotes : PendingVotes H A
  peersByAttestor : List (A × I)
  turn : GossipTurn H A I
  verified : List (Vote H A)
  production : ProductionTurn
  /-- The last finalized height that the production task knows of. -/
  latestCc3 : Option ℕ
  localData : Finset ℕ
  /-- The watch on the heights that were produced. -/
  localProduced : Option ℕ
  producedUnread : Bool
  /-- The watch on the finalized heights. -/
  latestFinalized : Option ℕ
  finalizedUnread : Bool
  attestationInterval : ℕ+
  maxCatchup : ℕ+

inductive GossipAction (H A I : Type)
  /-- The production task has produced an attestation and stores it. -/
  | store (height : ℕ)
  /-- It learns of an attestation on chain. -/
  | attested (height : ℕ)
  /-- It learns that the chain was reverted. -/
  | reverted (height : ℕ)
  | settings (interval maxCatchup : ℕ+)
  /-- It goes on with what it is about to write. -/
  | proceed
  /-- The gossip task receives a vote. -/
  | receive (vote : Vote H A) (source : Option I) (known : Bool)
  | admitPending
  | learn (attestor : A) (peerId : I)
  /-- It sees that a height was signalled. -/
  | wake
  | read
  | drain
  /-- It sees that a height was finalized. -/
  | prune

namespace Gossip

/-- The start of the two tasks. -/
def new (attestationInterval maxCatchup : ℕ+) (startAttestation : Option ℕ) : Gossip H A I where
  pendingVotes := ∅
  peersByAttestor := []
  turn := .idle
  verified := []
  production := .idle
  latestCc3 := startAttestation
  localData := ∅
  localProduced := none
  producedUnread := false
  latestFinalized := startAttestation
  finalizedUnread := false
  attestationInterval := attestationInterval
  maxCatchup := maxCatchup

variable (g : Gossip H A I)

/-! ### Production -/

/-- The production task is between two events. -/
def whenProduced (g' : Gossip H A I) : Option (Gossip H A I) :=
  match g.production with
  | .idle => some g'
  | _ => none

/-- Drop the data up to a height. -/
def noteFinalized (height : ℕ) : Gossip H A I :=
  { g with localData := g.localData.filter fun stored => height < stored }

def tellFinalized (height : ℕ) : Gossip H A I :=
  { g with latestFinalized := some height, finalizedUnread := true }

/-- An attestation on chain. The first one is told of before the data is dropped, the others after.
One that is not above the last is ignored. -/
def blockAttested (height : ℕ) : Gossip H A I :=
  match g.latestCc3 with
  | none => { g.tellFinalized height with latestCc3 := some height, production := .trimming height }
  | some latest =>
    if latest < height then
      { g.noteFinalized height with latestCc3 := some height, production := .finalizing height }
    else g

/-- The next write of the production task. -/
def proceed : Option (Gossip H A I) :=
  match g.production with
  | .idle => none
  | .signalling height =>
    some { g with production := .idle, localProduced := some height, producedUnread := true }
  | .finalizing height => some { g.tellFinalized height with production := .idle }
  | .trimming height => some { g.noteFinalized height with production := .idle }
  | .reverting height => some { g.tellFinalized height with production := .signalling height }

/-! ### Gossip -/

/-- The gossip task is between two turns. -/
def whenIdle (g' : Gossip H A I) : Option (Gossip H A I) :=
  match g.turn with
  | .idle => some g'
  | _ => none

variable [DecidableEq A] [DecidableEq I] (config : GossipConfig)

/-- Keep the vote if there is a key for the attestor and the height is within reach. -/
def admitVote (vote : Vote H A) (source : Option I) (known : Bool) : PendingVotes H A :=
  if known && isBufferable vote.height config.genesis g.attestationInterval g.maxCatchup
      g.latestFinalized config.startHeight then
    (admitPendingVote g.pendingVotes config.maxPendingPerHeight g.peersByAttestor source vote).1
  else g.pendingVotes

/-- The votes up to a height are taken out. What becomes of a vote depends on the data of its own
height only, so that this is one step. -/
def drainPending (producedThrough : ℕ) : Gossip H A I :=
  let drained := drainPendingVotes g.pendingVotes producedThrough fun height => height ∈ g.localData
  { g with turn := .idle, pendingVotes := drained.2, verified := g.verified ++ drained.1 }

/-- The votes up to the finalized height are dropped. -/
def prunePending : PendingVotes H A :=
  match g.latestFinalized with
  | some finalized => g.pendingVotes.retain fun height => finalized < height
  | none => g.pendingVotes

def step : GossipAction H A I → Option (Gossip H A I)
  | .store height =>
    g.whenProduced { g with
      localData := insert height g.localData
      production := .signalling height }
  | .attested height => g.whenProduced (g.blockAttested height)
  | .reverted height =>
    g.whenProduced { g with
      latestCc3 := some height
      localData := ∅
      production := .reverting height }
  | .settings interval maxCatchup =>
    g.whenProduced { g with attestationInterval := interval, maxCatchup := maxCatchup }
  | .proceed => g.proceed
  | .receive vote source known =>
    g.whenIdle (if vote.height ∈ g.localData then { g with verified := g.verified ++ [vote] }
      else { g with turn := .admitting vote source known })
  | .admitPending =>
    match g.turn with
    | .admitting vote source known =>
      some { g with turn := .idle, pendingVotes := g.admitVote config vote source known }
    | _ => none
  | .learn attestor peerId =>
    g.whenIdle { g with peersByAttestor := noteAttestorPeer g.peersByAttestor attestor peerId }
  | .wake =>
    if g.producedUnread then g.whenIdle { g with turn := .waking, producedUnread := false }
    else none
  | .read =>
    match g.turn with
    | .waking => some { g with turn := (g.localProduced.map .draining).getD .idle }
    | _ => none
  | .drain =>
    match g.turn with
    | .draining height => some (g.drainPending height)
    | _ => none
  | .prune =>
    if g.finalizedUnread then
      g.whenIdle { g with finalizedUnread := false, pendingVotes := g.prunePending }
    else none

def run : Gossip H A I → List (GossipAction H A I) → Option (Gossip H A I)
  | g, [] => some g
  | g, action :: actions => (g.step config action).bind fun g' => run g' actions

end Gossip

end Creditcoin.Attestor
