import Creditcoin.Attestation.Dispatch

/-!
# Blocks, runs and genesis

An `Action` is a call with its origin, the start of a block, the start of an epoch, a new era of the
staking pallet, or a transaction of another pallet on balances. A call that fails leaves the state
unchanged. A state is reachable if a run from a genesis state leads to it. -/

namespace Creditcoin

variable {H A B : Type} [DecidableEq H] [DecidableEq A] (T : Config H A B)

/-! ## The start of a block -/

/-- The first chain, in the order of iteration, for which something is pending. -/
def firstPending {X : Type} (s : State H A B) (pending : Chain H A → Option X) :
    Option (ChainKey × X) :=
  (s.chains.iterKeys T.chainRank).findSome? fun k => (pending (s.chain T k)).map (k, ·)

def onInitPruneCheckpoints (s : State H A B) : State H A B :=
  match firstPending T s (·.anchors.checkpointPruningState) with
  | some (k, state) => s.setAnchors T k (pruneCheckpoints T state (s.chain T k).anchors)
  | none => s

def onInitClearCheckpoints (host : Host H A) (s : State H A B) : State H A B :=
  match firstPending T s (·.anchors.checkpointClearingCursor) with
  | some (k, _) => s.setAnchors T k (clearCheckpoints host.checkpoints (s.chain T k).anchors)
  | none => s

def onInitClearBuckets (host : Host H A) (s : State H A B) : State H A B :=
  match firstPending T s (·.anchors.bucketClearingCursor) with
  | some (k, _) => s.setAnchors T k (clearBuckets host.checkpointBuckets (s.chain T k).anchors)
  | none => s

def onInitClearAttestations (host : Host H A) (s : State H A B) : State H A B :=
  match firstPending T s (·.anchors.attestationClearingCursor) with
  | some (k, _) => s.setAnchors T k ((s.chain T k).anchors.clearAttestations host.attestations)
  | none => s

def onInitCleanupRemovedChains (host : Host H A) (s : State H A B) : State H A B :=
  match firstPending T s (·.roster.removedChainCleanup) with
  | some (k, phase) =>
    let (r, index) := continueRemovedChainCleanup T host k phase (s.chain T k).roster
      s.retiredAttestorKeysByStash
    { s.setRoster T k r with retiredAttestorKeysByStash := index }
  | none => s

/-- The hook that runs at the start of a block. -/
def onInitialize (host : Host H A) (s : State H A B) : State H A B :=
  onInitCleanupRemovedChains T host (onInitClearAttestations T host (onInitClearBuckets T host
    (onInitClearCheckpoints T host (onInitPruneCheckpoints T s))))

/-! ## Runs -/

inductive Action (T : Config H A B)
  | call (host : Host H A) (origin : Origin A) (call : Call H A)
  /-- The next block starts. -/
  | block (host : Host H A)
  /-- An epoch starts: elections are held and pending updates applied. -/
  | epoch (epoch : ℕ)
  /-- The staking pallet moves to an era. -/
  | era (era : ℕ)
  /-- Another pallet changes balances. -/
  | currency (transaction : T.currency.Transaction)

/-- Perform an action. A call that fails changes nothing. -/
def step (s : State H A B) : Action T → State H A B
  | .call host origin call =>
    match dispatch T host s origin call with
    | .ok s' => s'
    | .error _ => s
  | .block host => onInitialize T host { s with blockNumber := s.blockNumber + 1 }
  | .epoch epoch =>
    let started : State H A B := { s with currentEpochIndex := epoch }
    (started.startElection T epoch).applyIntervalUpdates T
  | .era era => { s with currentEra := era }
  | .currency transaction =>
    { s with bonds := { s.bonds with balances := T.currency.exec transaction s.bonds.balances } }

def run (s : State H A B) (actions : List (Action T)) : State H A B := actions.foldl (step T) s

/-! ## Genesis -/

structure AttestationChainConfiguration (H : Type) where
  chainKey : ChainKey
  attestationInterval : ℕ
  attestationsPerCheckpoint : ℕ
  targetSampleSize : ℕ
  checkpoints : List (AttestationCheckpoint H)

/-- The genesis configuration of the two pallets, and the balances they start with. -/
structure GenesisConfig (H A B : Type) where
  supportedChains : List (ℕ × List UInt8 × ChainEncodingVersion × String)
  invulnerables : List A
  attestationChainConfigurations : List (AttestationChainConfiguration H)
  balances : B

/-- The checkpoint with the highest height; of several, the last. -/
def highestCheckpoint (checkpoints : List (AttestationCheckpoint H)) :
    Option (AttestationCheckpoint H) :=
  checkpoints.foldl
    (fun last c =>
      match last with
      | none => some c
      | some l => if l.blockNumber ≤ c.blockNumber then some c else some l) none

/-- Store the checkpoints of a configuration. -/
def buildAnchors (checkpoints : List (AttestationCheckpoint H)) (a : Anchors H A) : Anchors H A :=
  let stored := checkpoints.foldl Anchors.storeCheckpoint a
  { stored with lastCheckpoint := (highestCheckpoint checkpoints).or stored.lastCheckpoint }

/-- Set up a chain at genesis. The build aborts on values the setters would refuse. -/
def buildChain (invulnerables : List A) (cfg : AttestationChainConfiguration H) (c : Chain H A) :
    Option (Chain H A) :=
  if 0 < cfg.targetSampleSize ∧
      (0 < cfg.attestationInterval ∧ cfg.attestationInterval ≤ T.maxChainAttestationInterval ∧
        cfg.attestationInterval ≤ T.defaultMaxCatchup) ∧
      0 < cfg.attestationsPerCheckpoint ∧
      cfg.attestationsPerCheckpoint ≤ T.maxAttestationCheckpointInterval then
    some
      { anchors := buildAnchors cfg.checkpoints c.anchors
        roster :=
          { c.roster with
            invulnerables :=
              invulnerables.foldl (fun m address => m.insert address true) c.roster.invulnerables }
        settings :=
          { c.settings with
            targetSampleSize := cfg.targetSampleSize
            chainAttestationInterval := cfg.attestationInterval
            attestationCheckpointInterval := cfg.attestationsPerCheckpoint
            maxAttestors := T.maxAttestationNodes
            maxInvulnerables := T.maxAttestationNodes } }
  else none

/-- Set up the configured chains, one entry after the other. -/
def buildConfigurations (invulnerables : List A) :
    List (AttestationChainConfiguration H) → State H A B → Option (State H A B)
  | [], s => some s
  | cfg :: cfgs, s => do
    let c ← buildChain T invulnerables cfg (s.chain T cfg.chainKey)
    buildConfigurations invulnerables cfgs (s.setChain cfg.chainKey c)

def emptyState (registry : Registry) (balances : B) : State H A B where
  blockNumber := 0
  currentEpochIndex := 0
  currentEra := 0
  registry := registry
  chains := ∅
  retiredAttestorKeysByStash := ∅
  bonds := ⟨∅, balances, []⟩

/-- Build the genesis state, unless the configuration aborts the build. -/
def genesis (gc : GenesisConfig H A B) : Option (State H A B) := do
  let registry ← Registry.build T gc.supportedChains
  buildConfigurations T gc.invulnerables gc.attestationChainConfigurations
    (emptyState registry gc.balances)

/-- The states that runs from genesis lead to. -/
def Reachable (s : State H A B) : Prop :=
  ∃ gc s₀ actions, genesis T gc = some s₀ ∧ run T s₀ actions = s

end Creditcoin
