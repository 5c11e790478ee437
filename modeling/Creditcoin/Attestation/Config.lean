import Creditcoin.Attestor.Primitives

/-!
# The configuration of the pallet

What the pallet takes from outside: the constants of the runtime, the hash function, the BLS
library, the currency, the origin of operators, and the order in which the host iterates over hashed
keys. A property that the development relies on is a field: the constants satisfy the checks of
`integrity_test` and fit the 32-bit words of the target.

`H` is the type of hashes, `A` the type of accounts, `B` the state of the balances pallet. -/

namespace Creditcoin

/-- The BLS signature library. -/
structure BlsScheme where
  PublicKey : Type
  Signature : Type
  publicKeyFromBytes : List UInt8 → Option PublicKey
  publicKeyAsBytes : PublicKey → List UInt8
  signatureFromBytes : List UInt8 → Option Signature
  /-- Does the signature verify for this message under this key? -/
  verify : Signature → List UInt8 → PublicKey → Bool
  aggregatePublicKeys : List PublicKey → Option PublicKey
  /-- Does the aggregated signature verify for the one message all keys signed? -/
  verifyAggMessage : Signature → List UInt8 → PublicKey → Bool

/-- The balances pallet, as far as bonding uses it. -/
structure Currency (A B : Type) where
  freeBalance : B → A → ℕ
  minimumBalance : ℕ
  /-- The amount held under the lock identifier of this pallet. -/
  bondLock : B → A → ℕ
  /-- A transfer that keeps the sender alive. -/
  transfer : B → A → A → ℕ → Option B
  setLock : B → A → ℕ → B
  removeLock : B → A → B
  incConsumers : B → A → Option B
  decConsumers : B → A → B
  /-- What other pallets may do to balances. -/
  Transaction : Type
  exec : Transaction → B → B

inductive Origin (A : Type)
  | root
  | signed (account : A)
  | none

structure Config (H A B : Type) where
  bls : BlsScheme
  currency : Currency A B
  /-- Keccak-256 of height, root and previous digest. -/
  keccak : ℕ → H → Option H → H
  zero : H
  hashBytes : H → List UInt8
  accountBytes : A → List UInt8
  operatorsOrigin : Origin A → Bool
  /-- The place of a chain key, of an account and of a height among the hashed keys of a map. -/
  chainRank : ChainKey → ℕ
  accountRank : A → ℕ
  heightRank : ℕ → ℕ
  /-- The place of an account in the order of its type. -/
  accountOrd : A → ℕ
  defaultAttestationsPerCheckpoint : ℕ
  maxAttestationCheckpointInterval : ℕ
  defaultAttestationInterval : ℕ
  maxChainAttestationInterval : ℕ
  defaultTargetSampleSize : ℕ
  defaultMaxCatchup : ℕ
  maxCatchupCeiling : ℕ
  maxAttestationNodes : ℕ
  defaultMinBondRequirement : ℕ
  maxUnlockingChunks : ℕ
  bondingDuration : ℕ
  defaultAttestationRetentionDuration : ℕ
  maxAttestationsPerBlock : ℕ
  maxCheckpointingQueueLen : ℕ
  maxCheckpointsImportedPerCall : ℕ
  defaultAttestationChainGenesisBlockNumber : ℕ
  maxSupportedChains : ℕ
  defaultMaturityStrategy : String
  -- The asserts of `integrity_test`.
  maxAttestationsPerBlock_pos : 0 < maxAttestationsPerBlock
  defaultInterval_le_catchup : defaultAttestationInterval ≤ defaultMaxCatchup
  queueLen_gt : 2 * maxAttestationCheckpointInterval + 1 < maxCheckpointingQueueLen
  defaultCatchup_le : defaultMaxCatchup ≤ maxCatchupCeiling
  -- The defaults pass the checks of the calls that set the same values.
  defaultInterval_pos : 0 < defaultAttestationInterval
  defaultInterval_le : defaultAttestationInterval ≤ maxChainAttestationInterval
  defaultPerCheckpoint_pos : 0 < defaultAttestationsPerCheckpoint
  defaultPerCheckpoint_le : defaultAttestationsPerCheckpoint ≤ maxAttestationCheckpointInterval
  defaultGenesis_lt : defaultAttestationChainGenesisBlockNumber < 2 ^ 64
  defaultMinBond_lt : defaultMinBondRequirement < 2 ^ 128
  -- The ceilings are small enough for the 32-bit arithmetic done with them.
  width_lt : 2 * (maxChainAttestationInterval * maxAttestationCheckpointInterval) + 1 < 2 ^ 32
  catchup_lt : maxCatchupCeiling < 2 ^ 32
  nodes_lt : 2 * maxAttestationNodes < 2 ^ 32
  queuedRoots_lt :
    (maxCheckpointingQueueLen + 1) * max maxCatchupCeiling maxChainAttestationInterval < 2 ^ 32

variable {H A B : Type}

/-- The origin is the account that signed. -/
def Origin.ensureSigned {ε : Type} (e : ε) : Origin A → Except ε A
  | .signed account => .ok account
  | _ => .error e

@[simp] theorem ensureSigned_eq_ok {ε : Type} {e : ε} {o : Origin A} {a : A} :
    o.ensureSigned e = .ok a ↔ o = .signed a := by
  cases o <;> simp [Origin.ensureSigned]

/-- Hashes of different heights differ, as for a hash without collisions. -/
def HeightBinding (keccak : ℕ → H → Option H → H) : Prop :=
  ∀ n r p n' r' p', keccak n r p = keccak n' r' p' → n = n'

end Creditcoin
