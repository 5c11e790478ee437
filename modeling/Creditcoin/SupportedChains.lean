import Creditcoin.Attestation.State

/-!
# The registry of supported chains

Chains are registered under consecutive keys that are never reused. No two registered chains have
the same identifier and name.
-/

namespace Creditcoin

variable {H A B : Type}

/-! ## Maturity strategies -/

/-- Unicode white space. -/
def isWhiteSpace (c : Char) : Bool :=
  (9 ≤ c.toNat && c.toNat ≤ 13) || (0x2000 ≤ c.toNat && c.toNat ≤ 0x200A) ||
    [0x20, 0x85, 0xA0, 0x1680, 0x2028, 0x2029, 0x202F, 0x205F, 0x3000].contains c.toNat

def trimChars (cs : List Char) : List Char :=
  ((cs.dropWhile isWhiteSpace).reverse.dropWhile isWhiteSpace).reverse

/-- The digits of a decimal number, most significant first. -/
def parseDigits : ℕ → List Char → Option ℕ
  | n, [] => if n ≤ u64Max then some n else none
  | n, c :: cs => if c.isDigit then parseDigits (10 * n + (c.toNat - 48)) cs else none

/-- The parser of `u64`: decimal digits after an optional plus sign. -/
def parseU64 : List Char → Option ℕ
  | [] => none
  | '+' :: [] => none
  | '+' :: cs => parseDigits 0 cs
  | c :: cs => parseDigits 0 (c :: cs)

/-- Is the text one of the known maturity strategies? -/
def isValidMaturityStrategy (strategy : String) : Bool :=
  ["EvmFinalized", "EvmSafe", "EvmLatest", "RpcSafe", "RpcFinalized"].contains strategy ||
    ("FixedDelay:".toList.isPrefixOf strategy.toList &&
      (parseU64 (trimChars (strategy.toList.drop "FixedDelay:".length))).isSome)

/-! ## Registration and removal -/

namespace Registry

variable (g : Registry)

/-- Register a chain under the next key, which is returned. -/
def registerChain (T : Config H A B) (chainId : ℕ) (chainName : List UInt8)
    (encoding : ChainEncodingVersion) (maturityStrategy : Option String) :
    Except Error (ChainKey × Registry) := do
  ensure (g.chainIdAndNameToUniqKey.lookup (chainId, chainName) = none) .chainAlreadyRegistered
  ensure (g.supportedChainsCount < T.maxSupportedChains) .tooManyChains
  ensure (∀ strategy ∈ maturityStrategy, isValidMaturityStrategy strategy = true)
    .invalidMaturityStrategy
  ensure (g.chainKeyValue + 1 ≤ u64Max) .arithmetic
  pure (g.chainKeyValue,
    { supportedChains := g.supportedChains.insert g.chainKeyValue
        ⟨chainId, chainName, encoding, maturityStrategy.getD T.defaultMaturityStrategy⟩
      chainIdAndNameToUniqKey :=
        g.chainIdAndNameToUniqKey.insert (chainId, chainName) g.chainKeyValue
      chainKeyValue := g.chainKeyValue + 1
      supportedChainsCount := satAdd u32Max g.supportedChainsCount 1 })

def removeChain (k : ChainKey) : Except Error Registry := do
  let item ← okOr (g.supportedChains.lookup k) .chainNotSupported
  pure { g with
    chainIdAndNameToUniqKey := g.chainIdAndNameToUniqKey.erase (item.chainId, item.chainName)
    supportedChains := g.supportedChains.erase k
    supportedChainsCount := g.supportedChainsCount - 1 }

def setMaturityStrategy (k : ChainKey) (maturityStrategy : String) : Except Error Registry := do
  ensure (isValidMaturityStrategy maturityStrategy = true) .invalidMaturityStrategy
  let chain ← okOr (g.supportedChains.lookup k) .chainNotSupported
  ensure (chain.maturityStrategy ≠ maturityStrategy) .maturityStrategyUnchanged
  pure { g with
    supportedChains :=
      g.supportedChains.insert k { chain with maturityStrategy := maturityStrategy } }

def setChainName (k : ChainKey) (chainName : List UInt8) : Except Error Registry := do
  let chain ← okOr (g.supportedChains.lookup k) .chainNotSupported
  ensure (chain.chainName ≠ chainName) .chainNameUnchanged
  ensure (g.chainIdAndNameToUniqKey.lookup (chain.chainId, chainName) = none)
    .chainAlreadyRegistered
  pure { g with
    chainIdAndNameToUniqKey :=
      (g.chainIdAndNameToUniqKey.erase (chain.chainId, chain.chainName)).insert
        (chain.chainId, chainName) k
    supportedChains := g.supportedChains.insert k { chain with chainName := chainName } }

/-! ## Genesis -/

/-- The registry of the chains of a genesis configuration, registered from the key 1. The build
aborts when two of them have the same identifier and name. -/
def buildChains : List (ℕ × List UInt8 × ChainEncodingVersion × String) → Registry → Option Registry
  | [], g => some g
  | (chainId, chainName, encoding, maturityStrategy) :: chains, g =>
    if (g.chainIdAndNameToUniqKey.lookup (chainId, chainName)).isSome then none
    else
      buildChains chains
        { supportedChains := g.supportedChains.insert g.chainKeyValue
            ⟨chainId, chainName, encoding, maturityStrategy⟩
          chainIdAndNameToUniqKey :=
            g.chainIdAndNameToUniqKey.insert (chainId, chainName) g.chainKeyValue
          chainKeyValue := g.chainKeyValue + 1
          supportedChainsCount := g.supportedChainsCount + 1 }

/-- The registry before any chain is registered. -/
def empty : Registry := ⟨∅, 0, ∅, 1⟩

def build (T : Config H A B) (chains : List (ℕ × List UInt8 × ChainEncodingVersion × String)) :
    Option Registry :=
  if chains.length ≤ T.maxSupportedChains then buildChains chains empty else none

end Registry

end Creditcoin
