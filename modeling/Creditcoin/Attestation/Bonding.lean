import Creditcoin.Attestation.State

/-!
# Bonds of stashes

A stash bonds the minimum of the chain for each attestor it registers. Its ledger sums up the bonds,
and the same amount is locked. Unregistering moves the attestor's share to a chunk that unlocks some
eras later. -/

namespace Creditcoin

variable {H A B : Type} [DecidableEq A]

/-- One tenth of a coin, with which a stash funds each attestor it registers. -/
def oneTenthCtc : ℕ := 100_000_000_000_000_000

/-- Free balance less the existential deposit and what this pallet has locked. -/
def getFreeBalance (T : Config H A B) (balances : B) (account : A) : ℕ :=
  T.currency.freeBalance balances account - T.currency.minimumBalance -
    T.currency.bondLock balances account

namespace AttestorLedger

/-- The ledger of a stash that bonds for the first time. -/
def new (stash : A) (stake : ℕ) : AttestorLedger A := ⟨stash, stake, stake, []⟩

/-- Drop the chunks that are free at `currentEra`. -/
def consolidateUnlocked (l : AttestorLedger A) (currentEra : ℕ) : AttestorLedger A :=
  { l with
    totalStaked := (l.unlocking.filter fun chunk => chunk.era ≤ currentEra).foldl
      (fun total chunk => total - chunk.value) l.totalStaked
    unlocking := l.unlocking.filter fun chunk => currentEra < chunk.era }

/-- Add an amount that unlocks at `era`: to the last chunk if it is of that era, else as a new
one. -/
def pushChunk (maxChunks : ℕ) (unlocking : List UnlockChunk) (value era : ℕ) :
    Except Error (List UnlockChunk) :=
  match unlocking.getLast? with
  | some chunk =>
    if chunk.era = era then
      .ok (unlocking.dropLast ++ [{ chunk with value := satAdd u128Max chunk.value value }])
    else if unlocking.length < maxChunks then .ok (unlocking ++ [⟨value, era⟩])
    else .error .noMoreChunks
  | none =>
    if unlocking.length < maxChunks then .ok (unlocking ++ [⟨value, era⟩])
    else .error .noMoreChunks

end AttestorLedger

namespace Bonds

variable (T : Config H A B) (b : Bonds A B)

/-- Write a ledger and set the lock to its total. -/
def update (l : AttestorLedger A) : Except Error (Bonds A B) := do
  ensure ((b.ledger.lookup l.stash).isSome = true) .notStash
  pure { b with
    balances := T.currency.setLock b.balances l.stash l.totalStaked
    ledger := b.ledger.insert l.stash l }

/-- Open the ledger of a stash. -/
def bond (l : AttestorLedger A) : Except Error (Bonds A B) := do
  ensure ((b.ledger.lookup l.stash).isSome = false) .alreadyBonded
  update T { b with ledger := b.ledger.insert l.stash l } l

/-- Bond the requirement of one more attestor. -/
def bondExtra (bond : ℕ) (stash : A) : Except Error (Bonds A B) := do
  let l ← okOr (b.ledger.lookup stash) .notStash
  ensure (l.totalStaked ≤ T.currency.freeBalance b.balances stash) .arithmeticOverflow
  ensure (bond ≤ T.currency.freeBalance b.balances stash - l.totalStaked) .insufficientBalance
  ensure (l.totalStaked + bond ≤ u128Max) .arithmeticOverflow
  ensure (l.active + bond ≤ u128Max) .arithmeticOverflow
  let b' ← b.update T
    { l with totalStaked := l.totalStaked + bond, active := l.active + bond }
  pure { b' with events := b'.events ++ [.bonded stash bond] }

/-- Fund a new attestor and bond for it. -/
def bondForAttestor (minBond : ℕ) (stash attestorId : A) : Except Error (Bonds A B) := do
  ensure (satAdd u128Max minBond oneTenthCtc ≤ getFreeBalance T b.balances stash)
    .insufficientBalance
  let funded ← okOr (T.currency.transfer b.balances stash attestorId oneTenthCtc) .transferFailed
  match bond T { b with balances := funded } (.new stash minBond) with
  | .error _ => bondExtra T { b with balances := funded } minBond stash
  | .ok bonded => do
    let consumed ← okOr (T.currency.incConsumers bonded.balances stash) .noProviders
    pure { bonded with
      balances := consumed
      events := bonded.events ++ [.bonded stash minBond] }

/-- When the chunks are at their bound, release those that are free already. -/
def releaseMatured (currentEra : ℕ) (l : AttestorLedger A) : AttestorLedger A × Bonds A B :=
  if T.maxUnlockingChunks ≤ l.unlocking.length then
    let released := l.totalStaked - (l.consolidateUnlocked currentEra).totalStaked
    (l.consolidateUnlocked currentEra,
      if released = 0 then b else { b with events := b.events ++ [.withdrawn l.stash released] })
  else (l, b)

/-- Start unlocking the bond of an attestor. A remainder below the existential deposit goes with
it. -/
def unbond (currentEra purgeAtEra : ℕ) (stash : A) (bond : ℕ) : Except Error (Bonds A B) := do
  let l ← okOr (b.ledger.lookup stash) .notStash
  if min bond l.active = 0 then pure b
  else do
    let (l', b') := b.releaseMatured T currentEra l
    let rest := l'.active - min bond l.active
    let dust := rest < T.currency.minimumBalance
    let value := if dust then min bond l.active + rest else min bond l.active
    let unlocking ← AttestorLedger.pushChunk T.maxUnlockingChunks l'.unlocking value purgeAtEra
    let b'' ← b'.update T
      { l' with active := if dust then 0 else rest, unlocking := unlocking }
    pure { b'' with events := b''.events ++ [.unbonded stash value] }

/-- Close the ledger of a stash. -/
def killStash (stash : A) : Except Error (Bonds A B) := do
  ensure ((b.ledger.lookup stash).isSome = true) .notStash
  pure { b with
    balances := T.currency.decConsumers (T.currency.removeLock b.balances stash) stash
    ledger := b.ledger.erase stash }

/-- Release what is free; close the ledger when nothing is left. -/
def withdrawUnbonded (currentEra : ℕ) (stash : A) : Except Error (Bonds A B) := do
  let l ← okOr (b.ledger.lookup stash) .notStash
  let l' := if 0 < currentEra then l.consolidateUnlocked currentEra else l
  let b' ←
    if l'.unlocking = [] ∧ (l'.active < T.currency.minimumBalance ∨ l'.active = 0) then
      b.killStash T l'.stash
    else b.update T l'
  pure
    (if l'.totalStaked < l.totalStaked then
      { b' with events := b'.events ++ [.withdrawn l.stash (l.totalStaked - l'.totalStaked)] }
    else b')

end Bonds

end Creditcoin
