import Creditcoin.Attestation.State
import Mathlib.Data.PNat.Basic

/-!
# The attestation stream of an attestor

`StreamAttestation` turns the roots of the source chain into attestations that continue the last
finalized point. It fetches roots into a cache, up to a bound on catching up, and then produces
attestations for the range of heights it has computed, from the greatest height down. Finalizations
move the point it builds on; reversions and new settings rebuild it.

Roots arrive with consecutive heights, so a stream of roots is the next height it will yield, over
the blocks `source`; the tips are whatever is answered. A poll is given the answers to the polls it
makes in turn, and its outer loop is bounded by fuel. An assertion that fails is an outcome of its
own. Signatures are left out. -/

namespace Creditcoin.Attestor

variable {H : Type}

/-! ## Data -/

/-- The root of a block of the source chain, and its hash. -/
structure RootInfo (H : Type) where
  height : ℕ
  root : H
  hash : H
  deriving DecidableEq

/-- The block of the source chain at a height. -/
def rootInfo (source : ℕ → H × H) (height : ℕ) : RootInfo H :=
  ⟨height, (source height).1, (source height).2⟩

/-- A finalized point. -/
structure AttestationInfo (H : Type) where
  height : ℕ
  digest : H
  height_lt : height < 2 ^ 64

instance [DecidableEq H] : DecidableEq (AttestationInfo H) := fun x y =>
  decidable_of_iff (x.height = y.height ∧ x.digest = y.digest) (by cases x; cases y; simp)

/-- A point at a height that fits. -/
def AttestationInfo.of (height : U64) (digest : H) : AttestationInfo H :=
  ⟨height, digest, height.isLt⟩

/-- A block of a continuity proof. -/
structure Block (H : Type) where
  blockNumber : ℕ
  root : H
  prevDigest : H
  digest : H

/-- The digest is that of the content. -/
def Block.newFromPrevDigest (keccak : ℕ → H → Option H → H) (blockNumber : ℕ)
    (root prevDigest : H) :
    Block H :=
  ⟨blockNumber, root, prevDigest, hashPayload keccak blockNumber root prevDigest⟩

/-- The proof over a list of blocks. Over no blocks it is the default one. -/
def continuityProofFromBlocks (zero : H) : List (Block H) → ContinuityProof H
  | [] => ⟨zero, []⟩
  | block :: blocks => ⟨block.prevDigest, (block :: blocks).map (·.root)⟩

/-- An attestation before it is signed. -/
structure Produced (H : Type) where
  data : AttestationData H
  continuityProof : ContinuityProof H

/-- What a stream answers when it is polled. -/
inductive Polled (α : Type)
  | ready (value : α)
  | ended
  | pending

/-- The answers of the stream of roots and of the stream of tips. -/
structure Answers where
  roots : Polled Unit
  tip : Polled ℕ

/-! ## The stream -/

structure StreamAttestation (H : Type) where
  chainKey : ChainKey
  /-- The next height of the stream of roots. -/
  nextRoot : ℕ
  fetching : Bool
  cache : List (RootInfo H)
  maxCatchup : ℕ+
  attestationInterval : ℕ+
  /-- The point that attestations continue. -/
  attestationPrev : AttestationInfo H
  /-- The range of heights for which attestations are produced. -/
  computedStart : ℕ
  computedEnd : ℕ
  tip : ℕ
  /-- The next height in that range. -/
  cursor : ℕ

/-- The bound on catching up is a multiple of the interval, and at least the interval. -/
def alignedCatchup (interval maxCatchup : ℕ+) : ℕ+ :=
  ⟨satMul u64Max interval (max ((maxCatchup : ℕ) / interval) 1),
    lt_min (Nat.mul_pos interval.pos (lt_max_of_lt_right one_pos)) (by decide)⟩

namespace StreamAttestation

/-- A stream whose roots start at `startHeight`. -/
def new (chainKey : ChainKey) (interval maxCatchup : ℕ+) (prev : AttestationInfo H)
    (startHeight : ℕ) : StreamAttestation H where
  chainKey := chainKey
  nextRoot := startHeight
  fetching := false
  cache := []
  maxCatchup := alignedCatchup interval maxCatchup
  attestationInterval := interval
  attestationPrev := prev
  computedStart := prev.height
  computedEnd := prev.height
  tip := 0
  cursor := 0

variable (s : StreamAttestation H)

/-! ### Notifications -/

/-- Drop the roots up to a height. -/
def drain (height : ℕ) : List (RootInfo H) :=
  match s.cache.head? with
  | some first =>
    if first.height ≤ height then
      s.cache.drop (min (height - first.height) (s.cache.length - 1) + 1)
    else s.cache
  | none => s.cache

/-- An attestation was finalized. Points below the last one are ignored. -/
def noteAttestationFinalization (info : AttestationInfo H) : StreamAttestation H :=
  if s.attestationPrev.height ≤ info.height then
    { s with
      computedStart := info.height
      computedEnd := max info.height s.computedEnd
      cursor := max info.height s.computedEnd
      attestationPrev := info
      cache := s.drain info.height }
  else s

/-- The height right above the last finalized point. -/
def nextHeight : ℕ := (s.attestationPrev.height + 1) % 2 ^ 64

/-- Start over with a new interval. The bound on catching up is the one that was aligned before. -/
def noteAttestationIntervalChange (interval : ℕ+) : StreamAttestation H :=
  new s.chainKey interval s.maxCatchup s.attestationPrev s.nextHeight

/-- Start over with a new bound on catching up. -/
def noteMaxCatchupChange (maxCatchup : ℕ+) : StreamAttestation H :=
  new s.chainKey s.attestationInterval maxCatchup s.attestationPrev s.nextHeight

/-- Start over from the point the chain was reverted to. -/
def noteAttestationChainReversion (info : AttestationInfo H) : StreamAttestation H :=
  new s.chainKey s.attestationInterval s.maxCatchup info info.height

/-! ### Producing an attestation -/

section Generate

variable (keccak : ℕ → H → Option H → H) (zero : H)

/-- The blocks of the cached roots, each on top of the one before. -/
def blocksFrom : H → List (RootInfo H) → List (Block H)
  | _, [] => []
  | digestPrev, info :: infos =>
    let block := Block.newFromPrevDigest keccak info.height info.root digestPrev
    block :: blocksFrom block.digest infos

/-- The attestation of a height, or nothing if an assertion fails. -/
def generateAttestation (target : ℕ) : Option (Produced H) := do
  let first ← s.cache.head?
  let last ← s.cache.getLast?
  guard (s.computedStart < target ∧ target ≤ s.computedEnd)
  guard (first.height ≤ target ∧ target ≤ last.height)
  let index := target - first.height
  let info ← s.cache[index]?
  if h : info.height = target ∧ target < 2 ^ 64 then
    let proof := continuityProofFromBlocks zero
      (blocksFrom keccak s.attestationPrev.digest (s.cache.take index))
    let prevDigest := if proof.isEmpty then s.attestationPrev.digest
      else proof.computeContinuityDigest keccak first.height
    some ⟨⟨s.chainKey, target, info.hash, info.root, some prevDigest, h.2⟩, proof⟩
  else none

end Generate

/-! ### Fetching -/

/-- The height up to which roots are needed. -/
def stop : ℕ := min (satAdd u64Max s.computedStart s.maxCatchup) s.tip

def missingRoots : Bool := ((s.cache.getLast?.map (·.height)).getD 0) < s.stop

def hasSpaceLeft : Bool := s.cache.length ≤ s.maxCatchup

/-- The stream of roots yields the next block. Blocks up to the start of the range are skipped. -/
def takeRoot (source : ℕ → H × H) : StreamAttestation H :=
  { s with
    nextRoot := s.nextRoot + 1
    cache := if s.computedStart < s.nextRoot then s.cache ++ [rootInfo source s.nextRoot]
      else s.cache }

/-- The stream of tips yields a tip. It is rounded down to the interval. -/
def takeTip (tip : ℕ) : StreamAttestation H :=
  { s with tip := tip - tip % s.attestationInterval }

/-- What a poll may end with. -/
inductive Outcome (α H : Type)
  | done (value : α) (s : StreamAttestation H)
  | pending (s : StreamAttestation H)
  | ended (s : StreamAttestation H)
  | panicked
  | running

/-- Poll for a root, unless the cache is full or there are no more heights. The value is whether
there was progress. -/
def pollRoots (source : ℕ → H × H) : Polled Unit → Outcome Bool H
  | .ready _ =>
    if s.hasSpaceLeft ∧ s.nextRoot < 2 ^ 64 then .done true (s.takeRoot source) else .done false s
  | .ended => if s.hasSpaceLeft then .ended s else .done false s
  | .pending => .done false s

def pollTip : Polled ℕ → Outcome Bool H
  | .ready tip => .done true (s.takeTip tip)
  | .ended => .ended s
  | .pending => .done false s

/-- The loop that fetches roots until the tip is past `next` and no root is missing. The value is
what is left of the answers. -/
def fetch (source : ℕ → H × H) (next : ℕ) :
    List Answers → StreamAttestation H → Outcome (List Answers) H
  | [], s => if s.tip < next ∨ s.missingRoots then .pending s else .done [] s
  | answer :: answers, s =>
    if s.tip < next ∨ s.missingRoots then
      match s.pollRoots source answer.roots with
      | .done progress s₁ =>
        match s₁.pollTip answer.tip with
        | .done progress' s₂ =>
          if progress || progress' then fetch source next answers s₂ else .pending s₂
        | _ => .ended s₁
      | _ => .ended s
    else .done (answer :: answers) s

/-! ### Polling -/

/-- Attestations closer than the interval to the last finalized point are passed over. -/
def settle : StreamAttestation H :=
  if s.cursor < satAdd u64Max s.attestationPrev.height s.attestationInterval then
    { s with cursor := s.computedStart }
  else s

/-- The least tip at which something can be produced. -/
def nextTip : ℕ :=
  let next := satAdd u64Max s.computedEnd s.attestationInterval
  next - next % s.attestationInterval

/-- The roots have been fetched: produce attestations for the new range. -/
def advance : StreamAttestation H :=
  { s with computedStart := s.computedEnd, computedEnd := s.stop, cursor := s.stop }

section Poll

variable (keccak : ℕ → H → Option H → H) (zero : H) (source : ℕ → H × H)

/-- Produce the attestation at the cursor. -/
def produce : Outcome (Produced H) H :=
  if (s.cache.getLast?).any (fun last => s.cursor ≤ last.height) then
    match s.generateAttestation keccak zero s.cursor with
    | some produced => .done produced { s with cursor := s.cursor - s.attestationInterval }
    | none => .panicked
  else .panicked

def pollNext : ℕ → StreamAttestation H → List Answers → Outcome (Produced H) H
  | 0, _, _ => .running
  | fuel + 1, s, answers =>
    let s := s.settle
    if s.computedStart < s.cursor then s.produce keccak zero
    else if s.fetching = false ∧ s.maxCatchup < s.cache.length then .pending s
    else
      match fetch source s.nextTip answers { s with fetching := true } with
      | .done answers s =>
        if s.cache.length ≤ s.maxCatchup + 1 then
          pollNext fuel (advance { s with fetching := false }) answers
        else .panicked
      | .pending s => .pending s
      | .ended s => .ended s
      | .panicked => .panicked
      | .running => .running

end Poll

end StreamAttestation

/-! ## Runs -/

inductive StreamAction (H : Type)
  | poll (fuel : ℕ) (answers : List Answers)
  | finalized (info : AttestationInfo H)
  | reverted (info : AttestationInfo H)
  | settings (event : SettingsEvent)

namespace StreamAttestation

/-- An event about the settings. Others than those on the interval and the bound on catching up, and
zero values, are ignored. -/
def noteSettings (s : StreamAttestation H) : SettingsEvent → StreamAttestation H
  | .attestationIntervalChanged raw =>
    if h : 0 < raw then s.noteAttestationIntervalChange ⟨raw, h⟩ else s
  | .maxCatchupChanged raw => if h : 0 < raw then s.noteMaxCatchupChange ⟨raw, h⟩ else s
  | _ => s

variable (keccak : ℕ → H → Option H → H) (zero : H) (source : ℕ → H × H)

/-- The stream after something happened. There is none after a failed assertion, nor while a poll
does not return. -/
def step (s : StreamAttestation H) : StreamAction H → Option (StreamAttestation H)
  | .poll fuel answers =>
    match pollNext keccak zero source fuel s answers with
    | .done _ s' => some s'
    | .pending s' => some s'
    | .ended s' => some s'
    | .panicked => none
    | .running => none
  | .finalized info => some (s.noteAttestationFinalization info)
  | .reverted info => some (s.noteAttestationChainReversion info)
  | .settings event => some (s.noteSettings event)

def run (s : StreamAttestation H) : List (StreamAction H) → Option (StreamAttestation H)
  | [] => some s
  | action :: actions => (step keccak zero source s action).bind fun s' => run s' actions

end StreamAttestation

end Creditcoin.Attestor
