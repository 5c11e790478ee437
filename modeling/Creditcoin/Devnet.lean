import Creditcoin.Attestation.Invariants

/-!
# A development network

The configuration of the runtime with its own constants, over simple stand-ins for what lies outside
the pallets: hashes are terms, so that keccak has no collisions, every BLS signature verifies, and
balances never run out. The attestor of the source chain 1 is the account 1 with the stash 10; where
there are several attestors they have the same stash. -/

namespace Creditcoin.Devnet

/-! ## Hashes -/

/-- Hashes as terms: the zero hash, roots, and the digests of blocks. -/
inductive Word
  | zero
  | root (n : ℕ)
  | first (n : ℕ) (root : Word)
  | next (n : ℕ) (root prev : Word)
  deriving DecidableEq

/-- The digest of a block is the term of what is hashed. -/
def keccak (n : ℕ) (root : Word) : Option Word → Word
  | none => .first n root
  | some prev => .next n root prev

/-! ## The configuration -/

def bls : BlsScheme where
  PublicKey := List UInt8
  Signature := List UInt8
  publicKeyFromBytes := some
  publicKeyAsBytes := id
  signatureFromBytes := some
  verify _ _ _ := true
  aggregatePublicKeys := List.head?
  verifyAggMessage _ _ _ := true

def currency : Currency ℕ Unit where
  freeBalance _ _ := 10 ^ 30
  minimumBalance := 500
  bondLock _ _ := 0
  transfer b _ _ _ := some b
  setLock b _ _ := b
  removeLock b _ := b
  incConsumers b _ := some b
  decConsumers b _ := b
  Transaction := Unit
  exec _ b := b

/-- The constants of the runtime over any type of hashes. Only root is an operator. -/
def configOver {H : Type} (keccak : ℕ → H → Option H → H) (zero : H) (hashBytes : H → List UInt8) :
    Config H ℕ Unit where
  bls := bls
  currency := currency
  keccak := keccak
  zero := zero
  hashBytes := hashBytes
  accountBytes account := [UInt8.ofNat account]
  operatorsOrigin
    | .root => true
    | _ => false
  chainRank := id
  accountRank := id
  heightRank := id
  accountOrd := id
  defaultAttestationsPerCheckpoint := 10
  maxAttestationCheckpointInterval := 1000
  defaultAttestationInterval := 10
  maxChainAttestationInterval := 10000
  defaultTargetSampleSize := 120
  defaultMaxCatchup := 500
  maxCatchupCeiling := 2000
  maxAttestationNodes := 100
  defaultMinBondRequirement := 100_000_000_000_000_000_000
  maxUnlockingChunks := 5
  bondingDuration := 2
  defaultAttestationRetentionDuration := 10
  maxAttestationsPerBlock := 10
  maxCheckpointingQueueLen := 2048
  maxCheckpointsImportedPerCall := 100
  defaultAttestationChainGenesisBlockNumber := 0
  maxSupportedChains := 32
  defaultMaturityStrategy := "EvmSafe"
  maxAttestationsPerBlock_pos := by decide
  defaultInterval_le_catchup := by decide
  queueLen_gt := by decide
  defaultCatchup_le := by decide
  defaultInterval_pos := by decide
  defaultInterval_le := by decide
  defaultPerCheckpoint_pos := by decide
  defaultPerCheckpoint_le := by decide
  defaultGenesis_lt := by decide
  defaultMinBond_lt := by decide
  width_lt := by decide
  catchup_lt := by decide
  nodes_lt := by decide
  queuedRoots_lt := by decide

def config : Config Word ℕ Unit := configOver keccak .zero fun _ => []

/-! ## Genesis and the first attestor -/

/-- Delete all rows, or as many as the limit allows. -/
def clearUpTo {K V : Type} (limit : ℕ) (m : StorageMap K V) : KillResult K :=
  if m.keys.length ≤ limit then .allRemoved else .someRemaining [] (m.keys.take limit)

/-- A host that deletes as much as it is asked to. -/
def host : Host Word ℕ := ⟨.allRemoved, .allRemoved, .allRemoved, clearUpTo, clearUpTo⟩

/-- One source chain with the given intervals and checkpoints. -/
def genesisConfig (interval perCheckpoint : ℕ) (checkpoints : List (AttestationCheckpoint Word)) :
    GenesisConfig Word ℕ Unit where
  supportedChains := [(1, [], .v1, "EvmSafe")]
  invulnerables := []
  attestationChainConfigurations := [⟨1, interval, perCheckpoint, 120, checkpoints⟩]
  balances := ()

/-- The genesis state, for a configuration that is accepted. -/
def genesisState (gc : GenesisConfig Word ℕ Unit) : State Word ℕ Unit :=
  (genesis config gc).getD (emptyState .empty ())

/-- A call of an operator. -/
def byRoot (call : Call Word ℕ) : Action config := .call host .root call

/-- A checkpoint of the source chain. -/
def checkpoint (n : U64) : AttestationCheckpoint Word :=
  .of n (.root n)

/-- The attestor registers, activates and is elected. -/
def setup : List (Action config) :=
  [.call host (.signed 10) (.registerAttestor 1 1),
    .call host (.signed 1)
      (.attest 1 .zero .zero),
    byRoot (.forceElection 1)]

/-- The state after the setup and the given actions. -/
def after (gc : GenesisConfig Word ℕ Unit) (actions : List (Action config)) : State Word ℕ Unit :=
  run config (genesisState gc) (setup ++ actions)

theorem genesis_eq_genesisState {gc : GenesisConfig Word ℕ Unit}
    (h : (genesis config gc).isSome = true) : genesis config gc = some (genesisState gc) := by
  obtain ⟨s, hs⟩ := Option.isSome_iff_exists.1 h
  rw [genesisState, hs, Option.getD_some]

theorem reachable_genesisRun {H A B : Type} [DecidableEq H] [DecidableEq A] {T : Config H A B}
    {gc : GenesisConfig H A B} {s : State H A B} (h : (genesis T gc).isSome = true)
    (actions : List (Action T)) : Reachable T (run T ((genesis T gc).getD s) actions) := by
  obtain ⟨s₀, hs₀⟩ := Option.isSome_iff_exists.1 h
  exact ⟨gc, s₀, actions, hs₀, by rw [hs₀, Option.getD_some]⟩

theorem reachable_after {gc : GenesisConfig Word ℕ Unit} (h : (genesis config gc).isSome = true)
    (actions : List (Action config)) : Reachable config (after gc actions) :=
  reachable_genesisRun h (setup ++ actions)

theorem dispatch_eq_step {s : State Word ℕ Unit} {o : Origin ℕ} {call : Call Word ℕ}
    (h : (dispatch config host s o call).isOk = true) :
    dispatch config host s o call = .ok (step config s (.call host o call)) := by
  obtain ⟨s', hs'⟩ := exists_of_isOk h
  simp only [step, hs']

/-- The error of a call that fails. -/
def failure {ε α : Type} : Except ε α → Option ε
  | .error e => some e
  | .ok _ => none

theorem eq_error_of_failure {ε α : Type} {x : Except ε α} {e : ε} (h : failure x = some e) :
    x = .error e := by
  rcases x with e' | v
  · rw [Option.some.inj h]
  · simp [failure] at h

/-! ## Several attestors -/

/-- The key of an attestor. -/
def blsKey (a : ℕ) : BlsPublicKey := ⟨List.replicate 48 (UInt8.ofNat a), by simp⟩

/-- Four attestors of one stash register, activate and are elected. -/
def electing : List (Action config) :=
  [1, 2, 3, 4].flatMap (fun a => [.call host (.signed 10) (.registerAttestor 1 a),
    .call host (.signed a) (.attest 1 (blsKey a) .zero)]) ++ [byRoot (.forceElection 1)]

def committee : State Word ℕ Unit := run config (genesisState (genesisConfig 10 10 [])) electing

/-- The first two of them are chilled, and unregistered after the next election. -/
def resigned : State Word ℕ Unit :=
  run config committee
    [.call host (.signed 10) (.chill 1 1), .call host (.signed 10) (.chill 1 2),
      byRoot (.forceElection 1), .call host (.signed 10) (.unregisterAttestor 1 1),
      .call host (.signed 10) (.unregisterAttestor 1 2)]

theorem reachable_committee : Reachable config committee := reachable_genesisRun (by rfl) _

theorem reachable_resigned : Reachable config resigned := reachable_committee.run _

/-! ## Retired keys -/

/-- The attestor registers, claims its key, is chilled and unregistered; then the era of its bond
comes. -/
def retiring : List (Action config) :=
  [.call host (.signed 10) (.registerAttestor 1 1),
    .call host (.signed 1)
      (.attest 1 .zero .zero),
    .call host (.signed 10) (.chill 1 1), .call host (.signed 10) (.unregisterAttestor 1 1), .era 2]

/-- The network with the retired key of its attestor. -/
def retired : State Word ℕ Unit := run config (genesisState (genesisConfig 10 10 [])) retiring

theorem reachable_retired : Reachable config retired := reachable_genesisRun (by rfl) _

/-- No bond is required; the attestor registers and its stash withdraws. -/
def unbacked : State Word ℕ Unit :=
  run config (genesisState (genesisConfig 10 10 []))
    [byRoot (.setMinBondRequirement 1 0), .call host (.signed 10) (.registerAttestor 1 1),
      .call host (.signed 10) .withdrawUnbonded]

/-- No bond is required; the stash withdraws before the era of the retired key comes. -/
def stranded : State Word ℕ Unit :=
  run config (genesisState (genesisConfig 10 10 []))
    (byRoot (.setMinBondRequirement 1 0) :: retiring.take 4 ++
      [.call host (.signed 10) .withdrawUnbonded, .era 2])

/-! ## Without an existential deposit -/

/-- The network over a currency without an existential deposit. -/
def noDeposit : Config Word ℕ Unit :=
  { config with currency := { currency with minimumBalance := 0 } }

/-- The stash registers two attestors. -/
def registrations : List (Action noDeposit) :=
  [.call host (.signed 10) (.registerAttestor 1 1), .call host (.signed 10) (.registerAttestor 1 2)]

/-- The network without a deposit after both registrations. -/
def bondedTwice : State Word ℕ Unit :=
  run noDeposit ((genesis noDeposit (genesisConfig 10 10 [])).getD (emptyState .empty ()))
    registrations

theorem reachable_bondedTwice (h : (genesis noDeposit (genesisConfig 10 10 [])).isSome = true) :
    Reachable noDeposit bondedTwice := reachable_genesisRun h registrations

/-! ## With locks and references -/

/-- The locks of this pallet and its references to accounts. -/
structure Accounts where
  locks : ℕ → ℕ
  consumers : ℕ → ℕ

/-- A currency that keeps locks and references. A lock of zero is not set. -/
def accountCurrency : Currency ℕ Accounts where
  freeBalance _ _ := 10 ^ 30
  minimumBalance := 500
  bondLock b := b.locks
  transfer b _ _ _ := some b
  setLock b account amount :=
    if amount = 0 then b else { b with locks := Function.update b.locks account amount }
  removeLock b account := { b with locks := Function.update b.locks account 0 }
  incConsumers b account :=
    some { b with consumers := Function.update b.consumers account (b.consumers account + 1) }
  decConsumers b account :=
    { b with consumers := Function.update b.consumers account (b.consumers account - 1) }
  Transaction := Unit
  exec _ b := b

/-- The network over that currency. -/
def withAccounts : Config Word ℕ Accounts := { config with currency := accountCurrency }

def accountGenesis : GenesisConfig Word ℕ Accounts :=
  { genesisConfig 10 10 [] with balances := ⟨fun _ => 0, fun _ => 0⟩ }

/-- In the first era the stash registers its attestor and unregisters it. -/
def unbondingRun : List (Action withAccounts) :=
  [.era 1, .call host (.signed 10) (.registerAttestor 1 1),
    .call host (.signed 10) (.unregisterAttestor 1 1)]

/-- The network after that run. -/
def unbonding : State Word ℕ Accounts :=
  run withAccounts
    ((genesis withAccounts accountGenesis).getD (emptyState .empty ⟨fun _ => 0, fun _ => 0⟩))
    unbondingRun

/-! ## Attestations of the source chain -/

/-- An attestation of the block at a height. -/
def attestation (header : U64) (prevDigest : Option Word) (proof : ContinuityProof Word) :
    SignedAttestation Word ℕ where
  attestation := ⟨1, header, .zero, .root header, prevDigest, header.isLt⟩
  signature := .zero
  attestors := [1]
  continuityProof := proof

/-- The attestation that continues the point `(n, d)`, with a proof of the blocks in between. -/
def continuing (n : ℕ) (d : Word) (header : U64) : SignedAttestation Word ℕ :=
  let roots := (List.range' (n + 1) (header - n - 1)).map Word.root
  attestation header (some (HashChain.foldFrom (hashPayload keccak) (n + 1) d roots)) ⟨d, roots⟩

/-- The attestation of a height that continues the chain, or starts it. -/
def nextAttestation (s : State Word ℕ Unit) (header : U64) : SignedAttestation Word ℕ :=
  let a := (s.chain config 1).anchors
  match a.lastDigest.or (a.lastCheckpoint.map fun c => (c.blockNumber, c.digest)) with
  | some (n, d) => continuing n d header
  | none => attestation header none ⟨.zero, []⟩

def commit (att : SignedAttestation Word ℕ) : Action config :=
  .call host (.signed 1) (.commitAttestation att)

/-- A new block for each commit of the given heights, one after the other. -/
def commits : State Word ℕ Unit → List U64 → List (Action config)
  | _, [] => []
  | s, header :: headers =>
    let acts := [.block host, commit (nextAttestation s header)]
    acts ++ commits (run config s acts) headers

/-- The network after the first attestation of the source chain. -/
def started (interval perCheckpoint : ℕ) : State Word ℕ Unit :=
  after (genesisConfig interval perCheckpoint []) [commit (attestation 0 none ⟨.zero, []⟩)]

end Creditcoin.Devnet
