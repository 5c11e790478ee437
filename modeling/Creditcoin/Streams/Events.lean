import Creditcoin.Foundations.Consecutive
import Mathlib.Data.List.Infix

/-!
# The stream of finalized blocks

`StreamCC3` follows the finalized blocks of Creditcoin through a subscription, which may skip
blocks, repeat them, end or fall silent. From each block it has not seen it walks back over the
parents to the last one it has, collects the events, and yields them in ascending order. Failed
requests are repeated, unless the node has dropped the state asked for. A step is the answer to a
request, by a node that holds the finalized chain, or the consumer taking a batch. Waiting times and
reports on progress are left out. -/

namespace Creditcoin.Streams

variable {H E : Type}

/-! ## Blocks -/

structure Block (H E : Type) where
  number : ℕ
  hash : H
  parentHash : H
  events : E

/-- The finalized chain, and the blocks that a node returns by their hash. -/
structure FinalizedChain (H E : Type) where
  block : ℕ → Block H E
  blockAt : H → Option (Block H E)
  number_block : ∀ n, (block n).number = n
  parentHash_block : ∀ n, (block (n + 1)).parentHash = (block n).hash
  blockAt_hash : ∀ n, blockAt (block n).hash = some (block n)

namespace FinalizedChain

variable (chain : FinalizedChain H E)

def batch (n : ℕ) : ℕ × E := (n, (chain.block n).events)

/-- The batches of consecutive heights. -/
def batches (start count : ℕ) : List (ℕ × E) := (List.range' start count).map chain.batch

variable {chain}

@[simp]
theorem length_batches (start count : ℕ) : (chain.batches start count).length = count := by
  simp [batches]

theorem batches_append (start count count' : ℕ) :
    chain.batches start count ++ chain.batches (start + count) count' =
      chain.batches start (count + count') := by
  rw [batches, batches, batches, ← List.map_append, List.range'_append_1]

theorem batches_sub_append {a b c : ℕ} (hab : a ≤ b) (hbc : b ≤ c) :
    chain.batches a (b - a) ++ chain.batches b (c - b) = chain.batches a (c - a) := by
  rw [batches, batches, batches, ← List.map_append, range'_sub_append hab hbc]

theorem eq_batches_of_append {start count : ℕ} {first rest : List (ℕ × E)}
    (h : first ++ rest = chain.batches start count) : first = chain.batches start first.length := by
  have hcount : first.length + rest.length = count := by
    rw [← List.length_append, h, length_batches]
  rw [← hcount, ← batches_append] at h
  exact (List.append_inj h (length_batches _ _).symm).1

theorem mem_batches {a b n : ℕ} (ha : a ≤ n) (hb : n < b) :
    chain.batch n ∈ chain.batches a (b - a) :=
  List.mem_map_of_mem (List.mem_range'_1.2 ⟨ha, by omega⟩)

end FinalizedChain

/-! ## Errors -/

/-- A request is answered, or fails with a message. -/
inductive Answer
  | ok
  | error (text : String)

/-- The node has pruned the state, or never had the block. -/
def isPermanentBackfillError (text : String) : Bool :=
  ["state already discarded", "unknownblock", "unknown block", "header was not found",
    "body was not found"].any fun message => message.toList <:+: text.toList.map Char.toLower

def maxBackfillBlocks : ℕ := 10000

/-! ## The stream -/

/-- What the stream waits for. -/
inductive Phase (H E : Type)
  /-- The first block of the initial subscription. -/
  | subscribing
  /-- The next block of the subscription. -/
  | waiting
  /-- The finalized head of the node, since the subscription is silent. -/
  | probing
  | resubscribing
  | fetchingHead (block : Block H E)
  | refetchingHead (block : Block H E)
  /-- The block with a parent hash, on the way from block `n` down to the last known one. -/
  | walking (n walkN : ℕ) (walkParent : H)
  | fetchingParent (n walkN : ℕ) (walkParent : H) (parent : Block H E)
  /-- The consumer. -/
  | yielding (rest : List (ℕ × E))
  | ended

structure StreamCC3 (H E : Type) where
  /-- The height up to which everything is known to the consumer. -/
  latest : Option ℕ
  backfill : List (ℕ × E)
  phase : Phase H E
  /-- The batches that the consumer has taken. No step depends on it. -/
  yielded : List (ℕ × E)

inductive StreamAction
  /-- The initial subscription, with its first block unless it fails. -/
  | subscribed (first : Option ℕ)
  | delivered (n : ℕ)
  /-- The subscription has ended, or fails. -/
  | closed
  | silent
  | probed (head : Option ℕ)
  | resubscribed (ok : Bool)
  | fetched (answer : Answer)
  | refetched (ok : Bool)
  | taken

namespace StreamCC3

def new (resumeFrom : Option ℕ) : StreamCC3 H E := ⟨resumeFrom, [], .subscribing, []⟩

variable (s : StreamCC3 H E)

/-- A block of the subscription. One that is not above the last is skipped, and one that is too far
above it ends the stream. -/
def receive (block : Block H E) : StreamCC3 H E :=
  if s.latest.any fun latest => block.number ≤ latest then { s with phase := .waiting }
  else if maxBackfillBlocks < s.latest.elim 0 fun latest => block.number - latest - 1 then
    { s with phase := .ended }
  else { s with phase := .fetchingHead block }

/-- Where the walk from block `n` ends. -/
def walkFloor (n : ℕ) : ℕ := s.latest.elim n (· + 1)

/-- The events of a block are collected. The walk goes on, or the batches are yielded. -/
def push (n : ℕ) (block : Block H E) : StreamCC3 H E :=
  let backfill := s.backfill ++ [(block.number, block.events)]
  if s.walkFloor n < block.number then
    { s with
      backfill := backfill
      phase := .walking n block.number block.parentHash }
  else
    { s with
      latest := some n
      backfill := []
      phase := .yielding backfill.reverse }

variable {s} in
theorem push_of_lt {n : ℕ} {block : Block H E} (h : s.walkFloor n < block.number) :
    s.push n block = { s with
      backfill := s.backfill ++ [(block.number, block.events)]
      phase := .walking n block.number block.parentHash } :=
  if_pos h

variable {s} in
theorem push_of_le {n : ℕ} {block : Block H E} (h : block.number ≤ s.walkFloor n) :
    s.push n block = { s with
      latest := some n
      backfill := []
      phase := .yielding (s.backfill ++ [(block.number, block.events)]).reverse } :=
  if_neg (Nat.not_lt.2 h)

def failed (text : String) (retry : Phase H E) : StreamCC3 H E :=
  { s with phase := if isPermanentBackfillError text then .ended else retry }

/-- The answer to a request for a block or its events. -/
def fetched (chain : FinalizedChain H E) (answer : Answer) : Option (StreamCC3 H E) :=
  match s.phase, answer with
  | .fetchingHead block, .ok => some (s.push block.number block)
  | .fetchingHead block, .error text => some (s.failed text (.refetchingHead block))
  | .walking n walkN walkParent, .ok =>
    (chain.blockAt walkParent).map fun parent =>
      { s with phase := .fetchingParent n walkN walkParent parent }
  | .walking n walkN walkParent, .error text =>
    some (s.failed text (.walking n walkN walkParent))
  | .fetchingParent n _ _ parent, .ok => some (s.push n parent)
  | .fetchingParent n walkN walkParent _, .error text =>
    some (s.failed text (.walking n walkN walkParent))
  | _, _ => none

/-- The node was asked for its finalized head. If it is ahead, or does not answer, the subscription
is replaced. -/
def probed (head : Option ℕ) : StreamCC3 H E :=
  { s with phase :=
      if head.all fun head => s.latest.all (· < head) then .resubscribing else .waiting }

def step (chain : FinalizedChain H E) : StreamAction → Option (StreamCC3 H E)
  | .subscribed first =>
    match s.phase with
    | .subscribing => some (first.elim s fun n => s.receive (chain.block n))
    | _ => none
  | .delivered n =>
    match s.phase with
    | .waiting => some (s.receive (chain.block n))
    | _ => none
  | .closed =>
    match s.phase with
    | .waiting => some { s with phase := .resubscribing }
    | _ => none
  | .silent =>
    match s.phase with
    | .waiting => some { s with phase := .probing }
    | _ => none
  | .probed head =>
    match s.phase with
    | .probing => some (s.probed head)
    | _ => none
  | .resubscribed ok =>
    match s.phase with
    | .resubscribing => some { s with phase := if ok then .waiting else .resubscribing }
    | _ => none
  | .fetched answer => s.fetched chain answer
  | .refetched ok =>
    match s.phase with
    | .refetchingHead block =>
      if ok then (chain.blockAt block.hash).map fun block => { s with phase := .fetchingHead block }
      else some { s with phase := .fetchingHead block }
    | _ => none
  | .taken =>
    match s.phase with
    | .yielding (batch :: rest) =>
      some { s with
        phase := if rest.isEmpty then .waiting else .yielding rest
        yielded := s.yielded ++ [batch] }
    | _ => none

def run (chain : FinalizedChain H E) : StreamCC3 H E → List StreamAction → Option (StreamCC3 H E)
  | s, [] => some s
  | s, action :: actions => (s.step chain action).bind fun s' => run chain s' actions

end StreamCC3

/-- The heights of the blocks that the subscriptions have delivered. -/
def delivered (actions : List StreamAction) : List ℕ :=
  actions.filterMap fun
    | .subscribed first => first
    | .delivered n => some n
    | _ => none

/-- The first height to yield: the one above the height to resume from, or that of the first block.
-/
def startHeight (resumeFrom : Option ℕ) (heights : List ℕ) : ℕ :=
  resumeFrom.elim (heights.head?.getD 0) (· + 1)

theorem startHeight_append (resumeFrom : Option ℕ) {heights : List ℕ} (h : heights ≠ [])
    (new : List ℕ) : startHeight resumeFrom (heights ++ new) = startHeight resumeFrom heights := by
  obtain ⟨first, rest, rfl⟩ := List.exists_cons_of_ne_nil h
  rfl

/-! ## No gaps -/

namespace StreamCC3

variable {chain : FinalizedChain H E} {resumeFrom : Option ℕ} {heights : List ℕ}
  {s s' : StreamCC3 H E} {start n k : ℕ}

/-- The next height that the consumer does not know of. -/
def next (s : StreamCC3 H E) (start : ℕ) : ℕ := s.latest.elim start (· + 1)

/-- The consumer has all batches up to the last known height. -/
structure UpToDate (chain : FinalizedChain H E) (start : ℕ) (s : StreamCC3 H E) : Prop where
  start_le : start ≤ s.next start
  yielded : s.yielded = chain.batches start (s.next start - start)

/-- The batches above height `k` are collected, on the way down from block `n`. -/
structure Collects (chain : FinalizedChain H E) (start : ℕ) (heights : List ℕ) (s : StreamCC3 H E)
    (n k : ℕ) : Prop extends s.UpToDate chain start where
  heights_ne : heights ≠ []
  next_le : s.next start ≤ k
  le : k ≤ n
  first : s.latest = none → k = start ∧ n = start
  backfill : s.backfill = (chain.batches (k + 1) (n - k)).reverse
  seen : ∀ m ∈ heights, m < s.next start ∨ m = n

/-- The stream is between two blocks of the subscription. -/
structure Idle (chain : FinalizedChain H E) (start : ℕ) (heights : List ℕ) (s : StreamCC3 H E) :
    Prop extends s.UpToDate chain start where
  heights_ne : heights ≠ []
  isSome : s.latest ≠ none
  backfill : s.backfill = []
  seen : ∀ m ∈ heights, m < s.next start

/-- What holds in each phase. -/
def Gapless (chain : FinalizedChain H E) (resumeFrom : Option ℕ) (heights : List ℕ)
    (s : StreamCC3 H E) : Prop :=
  let start := startHeight resumeFrom heights
  match s.phase with
  | .subscribing => heights = [] ∧ s = new resumeFrom
  | .waiting => s.Idle chain start heights
  | .probing => s.Idle chain start heights
  | .resubscribing => s.Idle chain start heights
  | .fetchingHead block =>
    block = chain.block block.number ∧ s.Collects chain start heights block.number block.number
  | .refetchingHead block =>
    block = chain.block block.number ∧ s.Collects chain start heights block.number block.number
  | .walking n walkN walkParent => ∃ k, walkN = k + 1 ∧
      walkParent = (chain.block walkN).parentHash ∧ s.Collects chain start heights n k
  | .fetchingParent n walkN walkParent parent => ∃ k, walkN = k + 1 ∧
      walkParent = (chain.block walkN).parentHash ∧ parent = chain.block k ∧
      s.Collects chain start heights n k
  | .yielding rest => ∃ yielded, { s with yielded := yielded }.Idle chain start heights ∧
      rest ≠ [] ∧ yielded = s.yielded ++ rest
  | .ended => s.UpToDate chain start

theorem Collects.setPhase (h : s.Collects chain start heights n k) (phase : Phase H E) :
    Collects chain start heights { s with phase := phase } n k := by
  obtain ⟨⟨hstart, hyielded⟩, hne, hnext, hle, hfirst, hbackfill, hseen⟩ := h
  exact ⟨⟨hstart, hyielded⟩, hne, hnext, hle, hfirst, hbackfill, hseen⟩

theorem Idle.setPhase (h : s.Idle chain start heights) (phase : Phase H E) :
    Idle chain start heights { s with phase := phase } := by
  obtain ⟨⟨hstart, hyielded⟩, hne, hsome, hbackfill, hseen⟩ := h
  exact ⟨⟨hstart, hyielded⟩, hne, hsome, hbackfill, hseen⟩

theorem gapless_receive (h : s.UpToDate chain (startHeight resumeFrom (heights ++ [n])))
    (hbackfill : s.backfill = [])
    (hfirst : s.latest = none → n = startHeight resumeFrom (heights ++ [n]))
    (hseen : ∀ m ∈ heights, m < s.next (startHeight resumeFrom (heights ++ [n]))) :
    (s.receive (chain.block n)).Gapless chain resumeFrom (heights ++ [n]) := by
  have hne : heights ++ [n] ≠ [] := by simp
  generalize hstart : startHeight resumeFrom (heights ++ [n]) = start at *
  unfold receive
  rw [chain.number_block]
  split
  · next hold =>
    have hold : s.latest ≠ none ∧ n < s.next start := by
      obtain hlatest | ⟨latest, hlatest⟩ := Option.eq_none_or_eq_some s.latest
      · simp [hlatest] at hold
      · simp only [hlatest, Option.any_some, decide_eq_true_eq] at hold
        simp only [hlatest, next, Option.elim_some]
        exact ⟨by simp, by omega⟩
    show Idle chain (startHeight resumeFrom (heights ++ [n])) _ _
    rw [hstart]
    refine ⟨⟨h.start_le, h.yielded⟩, hne, hold.1, hbackfill, fun m hm => ?_⟩
    rcases List.mem_append.1 hm with hm | hm
    · exact hseen m hm
    · exact List.mem_singleton.1 hm ▸ hold.2
  · next hnew =>
    have hnext : s.next start ≤ n := by
      obtain hlatest | ⟨latest, hlatest⟩ := Option.eq_none_or_eq_some s.latest
      · simp only [hlatest, next, Option.elim_none]
        exact (hfirst hlatest).ge
      · simp only [hlatest, Option.any_some, decide_eq_true_eq] at hnew
        simp only [hlatest, next, Option.elim_some]
        omega
    split
    · show UpToDate chain (startHeight resumeFrom (heights ++ [n])) _
      rw [hstart]
      exact ⟨h.start_le, h.yielded⟩
    · show _ ∧ Collects chain (startHeight resumeFrom (heights ++ [n])) _ _ _ _
      rw [hstart, chain.number_block]
      refine ⟨rfl, ⟨h.start_le, h.yielded⟩, hne, hnext, le_rfl,
        fun hnone => ⟨hfirst hnone, hfirst hnone⟩, ?_, fun m hm => ?_⟩
      · rw [Nat.sub_self]
        exact hbackfill
      · rcases List.mem_append.1 hm with hm | hm
        · exact .inl (hseen m hm)
        · exact .inr (List.mem_singleton.1 hm)

theorem gapless_push (h : s.Collects chain (startHeight resumeFrom heights) heights n k) :
    (s.push n (chain.block k)).Gapless chain resumeFrom heights := by
  have hcollected : s.backfill ++ [(k, (chain.block k).events)] =
      (chain.batches k (n + 1 - k)).reverse := by
    rw [h.backfill, Nat.succ_sub h.le]
    simp [FinalizedChain.batches, FinalizedChain.batch, List.range'_succ]
  generalize hstart : startHeight resumeFrom heights = start at *
  have hnext := h.next_le
  have hle := h.le
  unfold push
  rw [chain.number_block, hcollected]
  split
  · next hlt =>
    obtain ⟨latest, hlatest⟩ : ∃ latest, s.latest = some latest := by
      refine Option.ne_none_iff_exists'.1 fun hnone => ?_
      rw [walkFloor, hnone] at hlt
      exact absurd hlt (Nat.not_lt.2 hle)
    simp only [walkFloor, hlatest, Option.elim_some] at hlt
    have hsome : s.next start = latest + 1 := by rw [next, hlatest]; rfl
    show ∃ k', k = k' + 1 ∧ _ ∧ Collects chain (startHeight resumeFrom heights) _ _ _ _
    rw [hstart]
    refine ⟨k - 1, by omega, rfl, ⟨h.start_le, h.yielded⟩, h.heights_ne, ?_, by omega,
      fun hnone => ?_, ?_, h.seen⟩
    · show s.next start ≤ k - 1
      omega
    · cases hlatest.symm.trans hnone
    · rw [show k - 1 + 1 = k by omega, show n - (k - 1) = n + 1 - k by omega]
  · next hge =>
    have hk : s.next start = k := by
      obtain hlatest | ⟨latest, hlatest⟩ := Option.eq_none_or_eq_some s.latest
      · rw [next, hlatest]
        exact (h.first hlatest).1.symm
      · simp only [walkFloor, hlatest, Option.elim_some] at hge
        simp only [next, hlatest, Option.elim_some] at hnext ⊢
        omega
    show ∃ yielded, Idle chain (startHeight resumeFrom heights) _ _ ∧ _ ∧ yielded = _
    rw [hstart, List.reverse_reverse]
    have hstart_le := h.start_le
    refine ⟨chain.batches start (n + 1 - start), ⟨⟨?_, rfl⟩, h.heights_ne, by simp, rfl,
      fun m hm => ?_⟩, ?_, ?_⟩
    · show start ≤ n + 1
      omega
    · show m < n + 1
      rcases h.seen m hm with hlt | rfl <;> omega
    · rw [Nat.succ_sub hle]
      simp [FinalizedChain.batches, List.range'_succ]
    · show _ = s.yielded ++ _
      rw [h.yielded, hk, FinalizedChain.batches_sub_append (hk ▸ hstart_le) (by omega)]

theorem gapless_failed (h : s.UpToDate chain (startHeight resumeFrom heights)) {text : String}
    {retry : Phase H E} (hretry : Gapless chain resumeFrom heights { s with phase := retry }) :
    (s.failed text retry).Gapless chain resumeFrom heights := by
  unfold failed
  split
  · exact ⟨h.start_le, h.yielded⟩
  · exact hretry

theorem gapless_fetched {answer : Answer} (h : s.Gapless chain resumeFrom heights)
    (hstep : s.fetched chain answer = some s') : s'.Gapless chain resumeFrom heights := by
  unfold fetched at hstep
  split at hstep
  · next block hphase =>
    rw [Gapless, hphase] at h
    obtain ⟨hblock, h⟩ := h
    cases hstep
    rw [hblock, chain.number_block]
    exact gapless_push h
  · next block text hphase =>
    rw [Gapless, hphase] at h
    cases hstep
    exact gapless_failed h.2.toUpToDate ⟨h.1, h.2.setPhase _⟩
  · next n walkN walkParent hphase =>
    rw [Gapless, hphase] at h
    obtain ⟨k, rfl, rfl, h⟩ := h
    rw [chain.parentHash_block, chain.blockAt_hash, Option.map_some] at hstep
    cases hstep
    exact ⟨k, rfl, (chain.parentHash_block k).symm, rfl, h.setPhase _⟩
  · next n walkN walkParent text hphase =>
    rw [Gapless, hphase] at h
    obtain ⟨k, hwalk, hparent, h⟩ := h
    cases hstep
    exact gapless_failed h.toUpToDate ⟨k, hwalk, hparent, h.setPhase _⟩
  · next n walkN walkParent parent hphase =>
    rw [Gapless, hphase] at h
    obtain ⟨k, -, -, rfl, h⟩ := h
    cases hstep
    exact gapless_push h
  · next n walkN walkParent parent text hphase =>
    rw [Gapless, hphase] at h
    obtain ⟨k, hwalk, hparent, -, h⟩ := h
    cases hstep
    exact gapless_failed h.toUpToDate ⟨k, hwalk, hparent, h.setPhase _⟩
  · cases hstep

theorem gapless_new : (new resumeFrom : StreamCC3 H E).Gapless chain resumeFrom [] := ⟨rfl, rfl⟩

theorem gapless_first :
    ((new resumeFrom).receive (chain.block n)).Gapless chain resumeFrom ([] ++ [n]) := by
  refine gapless_receive ?_ rfl (fun hnone => ?_) fun m hm => absurd hm List.not_mem_nil
  · cases resumeFrom with
    | none => exact ⟨le_rfl, by simp [new, next, FinalizedChain.batches]⟩
    | some latest => exact ⟨le_rfl, by simp [new, next, startHeight, FinalizedChain.batches]⟩
  · obtain rfl : resumeFrom = none := hnone
    rfl

theorem Idle.gapless_receive (h : s.Idle chain (startHeight resumeFrom heights) heights) :
    (s.receive (chain.block n)).Gapless chain resumeFrom (heights ++ [n]) := by
  have hstart := startHeight_append resumeFrom h.heights_ne [n]
  refine StreamCC3.gapless_receive ?_ h.backfill (fun hnone => absurd hnone h.isSome) ?_
  · rw [hstart]
    exact h.toUpToDate
  · rw [hstart]
    exact h.seen

theorem gapless_refetched {ok : Bool} (h : s.Gapless chain resumeFrom heights)
    (hstep : s.step chain (.refetched ok) = some s') : s'.Gapless chain resumeFrom heights := by
  simp only [step] at hstep
  split at hstep
  · next block hphase =>
    rw [Gapless, hphase] at h
    obtain ⟨hblock, h⟩ := h
    have hat : chain.blockAt block.hash = some block := by rw [hblock, chain.blockAt_hash]
    rw [hat, Option.map_some, ite_self] at hstep
    cases hstep
    exact ⟨hblock, h.setPhase _⟩
  · cases hstep

theorem gapless_taken (h : s.Gapless chain resumeFrom heights)
    (hstep : s.step chain .taken = some s') : s'.Gapless chain resumeFrom heights := by
  simp only [step] at hstep
  split at hstep
  · next batch rest hphase =>
    rw [Gapless, hphase] at h
    obtain ⟨yielded, h, -, rfl⟩ := h
    cases hstep
    cases rest with
    | nil => exact h.setPhase _
    | cons batch' rest =>
      exact ⟨_, h.setPhase _, List.cons_ne_nil batch' rest, by simp⟩
  · cases hstep

theorem gapless_step {action : StreamAction} (h : s.Gapless chain resumeFrom heights)
    (hstep : s.step chain action = some s') :
    s'.Gapless chain resumeFrom (heights ++ delivered [action]) := by
  have hsame : heights ++ [] = heights := List.append_nil heights
  cases action with
  | subscribed first =>
    simp only [step] at hstep
    split at hstep
    · next hphase =>
      rw [Gapless, hphase] at h
      obtain ⟨rfl, rfl⟩ := h
      cases hstep
      cases first with
      | none => exact gapless_new
      | some n => exact gapless_first
    · cases hstep
  | delivered n =>
    simp only [step] at hstep
    split at hstep
    · next hphase =>
      rw [Gapless, hphase] at h
      cases hstep
      exact h.gapless_receive
    · cases hstep
  | closed | silent =>
    simp only [step] at hstep
    split at hstep
    · next hphase =>
      rw [Gapless, hphase] at h
      cases hstep
      exact hsame.symm ▸ h.setPhase _
    · cases hstep
  | probed head =>
    simp only [step] at hstep
    split at hstep
    · next hphase =>
      rw [Gapless, hphase] at h
      cases hstep
      show Gapless _ _ (heights ++ []) _
      rw [hsame, probed]
      split <;> exact h.setPhase _
    · cases hstep
  | resubscribed ok =>
    simp only [step] at hstep
    split at hstep
    · next hphase =>
      rw [Gapless, hphase] at h
      cases hstep
      show Gapless _ _ (heights ++ []) _
      rw [hsame]
      split <;> exact h.setPhase _
    · cases hstep
  | fetched answer => exact hsame.symm ▸ gapless_fetched h hstep
  | refetched ok => exact hsame.symm ▸ gapless_refetched h hstep
  | taken => exact hsame.symm ▸ gapless_taken h hstep

theorem gapless_run {actions : List StreamAction} (h : s.Gapless chain resumeFrom heights)
    (hrun : s.run chain actions = some s') :
    s'.Gapless chain resumeFrom (heights ++ delivered actions) := by
  induction actions generalizing s heights with
  | nil =>
    cases hrun
    exact (List.append_nil heights).symm ▸ h
  | cons action actions ih =>
    obtain ⟨s₁, hstep, hrun⟩ := Option.bind_eq_some_iff.1 hrun
    have hnext := ih (gapless_step h hstep) hrun
    rwa [List.append_assoc, delivered, delivered, ← List.filterMap_append] at hnext

theorem Gapless.exists_yielded (h : s.Gapless chain resumeFrom heights) :
    ∃ count, s.yielded = chain.batches (startHeight resumeFrom heights) count := by
  unfold Gapless at h
  split at h
  · obtain ⟨-, rfl⟩ := h
    exact ⟨0, rfl⟩
  · exact ⟨_, h.yielded⟩
  · exact ⟨_, h.yielded⟩
  · exact ⟨_, h.yielded⟩
  · exact ⟨_, h.2.yielded⟩
  · exact ⟨_, h.2.yielded⟩
  · obtain ⟨k, -, -, h⟩ := h
    exact ⟨_, h.yielded⟩
  · obtain ⟨k, -, -, -, h⟩ := h
    exact ⟨_, h.yielded⟩
  · obtain ⟨yielded, h, -, heq⟩ := h
    exact ⟨_, FinalizedChain.eq_batches_of_append (heq.symm.trans h.yielded)⟩
  · exact ⟨_, h.yielded⟩

/-! ## Progress -/

/-- A run in which no request fails, and the consumer takes what is yielded. -/
def Reaches (chain : FinalizedChain H E) (s s' : StreamCC3 H E) : Prop :=
  ∃ actions, (∀ action ∈ actions, action = .fetched .ok ∨ action = .taken) ∧
    s.run chain actions = some s'

theorem Reaches.refl : Reaches chain s s := ⟨[], fun _ hmem => absurd hmem List.not_mem_nil, rfl⟩

theorem Reaches.head {action : StreamAction} {s₁ : StreamCC3 H E}
    (haction : action = .fetched .ok ∨ action = .taken) (hstep : s.step chain action = some s₁)
    (h : Reaches chain s₁ s') : Reaches chain s s' := by
  obtain ⟨actions, hactions, hrun⟩ := h
  exact ⟨action :: actions, List.forall_mem_cons.2 ⟨haction, hactions⟩,
    Option.bind_eq_some_iff.2 ⟨s₁, hstep, hrun⟩⟩

theorem exists_reaches_waiting {rest : List (ℕ × E)} (hphase : s.phase = .yielding rest)
    (hne : rest ≠ []) :
    ∃ s', Reaches chain s s' ∧ s'.phase = .waiting ∧ s'.latest = s.latest := by
  induction rest generalizing s with
  | nil => exact absurd rfl hne
  | cons batch rest ih =>
    have hstep : s.step chain .taken = some { s with
        phase := if rest.isEmpty then .waiting else .yielding rest
        yielded := s.yielded ++ [batch] } := by simp only [step, hphase]
    cases rest with
    | nil => exact ⟨_, .head (.inr rfl) hstep .refl, rfl, rfl⟩
    | cons batch' rest =>
      obtain ⟨s', hreaches, hwaiting, hlatest⟩ := ih (s := { s with
        phase := .yielding (batch' :: rest)
        yielded := s.yielded ++ [batch] }) rfl (List.cons_ne_nil batch' rest)
      exact ⟨s', .head (.inr rfl) hstep hreaches, hwaiting, hlatest⟩

theorem Reaches.walk (hphase : s.phase = .walking n (k + 1) (chain.block (k + 1)).parentHash)
    (h : Reaches chain (push { s with
        phase := .fetchingParent n (k + 1) (chain.block (k + 1)).parentHash (chain.block k) }
      n (chain.block k)) s') : Reaches chain s s' := by
  have hheader : s.step chain (.fetched .ok) = some { s with
      phase := .fetchingParent n (k + 1) (chain.block (k + 1)).parentHash (chain.block k) } := by
    simp only [step, fetched, hphase, chain.parentHash_block, chain.blockAt_hash, Option.map_some]
  exact .head (.inl rfl) hheader (.head (.inl rfl) rfl h)

theorem Collects.exists_reaches
    (h : s.Collects chain (startHeight resumeFrom heights) heights n k) :
    ∃ s', Reaches chain (s.push n (chain.block k)) s' ∧ s'.phase = .waiting ∧
      s'.latest = some n := by
  induction k generalizing s with
  | zero =>
    rw [push_of_le (by simp [chain.number_block])]
    exact exists_reaches_waiting rfl (by simp)
  | succ k ih =>
    by_cases hlt : s.walkFloor n < k + 1
    · have hgapless := gapless_push h
      rw [push_of_lt (by rwa [chain.number_block])] at hgapless ⊢
      rw [chain.number_block] at hgapless ⊢
      obtain ⟨j, hj, -, hcollects⟩ := hgapless
      obtain rfl : k = j := Nat.succ.inj hj
      obtain ⟨s', hreaches, hrest⟩ := ih (hcollects.setPhase
        (.fetchingParent n (k + 1) (chain.block (k + 1)).parentHash (chain.block k)))
      exact ⟨s', .walk rfl hreaches, hrest⟩
    · rw [push_of_le (by rwa [chain.number_block, ← Nat.not_lt])]
      exact exists_reaches_waiting rfl (by simp)

theorem Idle.exists_reaches (h : s.Idle chain (startHeight resumeFrom heights) heights)
    (hphase : s.phase = .waiting) {latest : ℕ} (hlatest : s.latest = some latest)
    (hlt : latest < n) (hgap : n - latest - 1 ≤ maxBackfillBlocks) :
    ∃ actions s', (∀ action ∈ actions, action = .fetched .ok ∨ action = .taken) ∧
      s.run chain (.delivered n :: actions) = some s' ∧ s'.phase = .waiting ∧
      s'.latest = some n := by
  have hreceive : s.receive (chain.block n) =
      { s with phase := .fetchingHead (chain.block n) } := by
    simp [receive, hlatest, chain.number_block, Nat.not_le.2 hlt, Nat.not_lt.2 hgap]
  have hgapless := h.gapless_receive (n := n)
  rw [hreceive] at hgapless
  obtain ⟨-, hcollects⟩ := hgapless
  rw [chain.number_block] at hcollects
  obtain ⟨s', hreaches, hrest⟩ := hcollects.exists_reaches
  obtain ⟨actions, hactions, hrun⟩ := Reaches.head (.inl rfl)
    (show step { s with phase := .fetchingHead (chain.block n) } chain (.fetched .ok) = some _ by
      simp only [step, fetched, chain.number_block]) hreaches
  refine ⟨actions, s', hactions, ?_, hrest⟩
  rw [run, step, hphase]
  dsimp only
  rw [hreceive]
  exact hrun

end StreamCC3

/-- **No gaps.** For all deliveries, errors, silent periods and reconnects over a finalized chain,
the stream yields the batches of consecutive heights, in ascending order and each once, from the
height above the one to resume from, or from the first block delivered. Whenever it waits for the
next block, it has yielded all heights up to the highest one delivered; the next block, if it is
above and not too far, is answered with all heights up to that one as long as no request fails. Once
it has ended it does nothing. -/
theorem events_gapless (chain : FinalizedChain H E) (resumeFrom : Option ℕ)
    {actions : List StreamAction} {s : StreamCC3 H E}
    (hrun : (StreamCC3.new resumeFrom).run chain actions = some s) :
    (∃ count, s.yielded = chain.batches (startHeight resumeFrom (delivered actions)) count) ∧
    (s.phase = .waiting →
      (∀ n ∈ delivered actions, startHeight resumeFrom (delivered actions) ≤ n →
        chain.batch n ∈ s.yielded) ∧
      ∃ latest, s.latest = some latest ∧
        ∀ n, latest < n → n - latest - 1 ≤ maxBackfillBlocks →
          ∃ answers s', (∀ action ∈ answers, action = .fetched .ok ∨ action = .taken) ∧
            s.run chain (.delivered n :: answers) = some s' ∧ s'.phase = .waiting ∧
            s'.yielded = s.yielded ++ chain.batches (latest + 1) (n - latest)) ∧
    (s.phase = .ended → ∀ action, s.step chain action = none) := by
  have h : s.Gapless chain resumeFrom (delivered actions) :=
    StreamCC3.gapless_run StreamCC3.gapless_new hrun
  refine ⟨h.exists_yielded, fun hphase => ?_, fun hphase action => ?_⟩
  · have hidle : s.Idle chain (startHeight resumeFrom (delivered actions)) (delivered actions) := by
      rwa [StreamCC3.Gapless, hphase] at h
    obtain ⟨latest, hlatest⟩ := Option.ne_none_iff_exists'.1 hidle.isSome
    refine ⟨fun n hn hle => ?_, latest, hlatest, fun n hlt hgap => ?_⟩
    · rw [hidle.yielded]
      exact FinalizedChain.mem_batches hle (hidle.seen n hn)
    · obtain ⟨answers, s', hanswers, hrun', hphase', hlatest'⟩ :=
        hidle.exists_reaches hphase hlatest hlt hgap
      have h' := StreamCC3.gapless_run h hrun'
      rw [StreamCC3.Gapless, hphase'] at h'
      refine ⟨answers, s', hanswers, hrun', hphase', ?_⟩
      have hstart := hidle.start_le
      have hnew := h'.yielded
      have hold := hidle.yielded
      rw [startHeight_append resumeFrom hidle.heights_ne] at hnew
      simp only [StreamCC3.next, hlatest, hlatest', Option.elim_some] at hnew hold hstart
      generalize startHeight resumeFrom (delivered actions) = start at *
      rw [hnew, hold, ← Nat.add_sub_add_right n 1 latest,
        FinalizedChain.batches_sub_append hstart (by omega)]
  · cases action <;> simp only [StreamCC3.step, StreamCC3.fetched, hphase]

/-! ## A run -/

/-- A chain whose blocks have their height as events, and the next height as hash. -/
def countingChain : FinalizedChain ℕ ℕ where
  block n := ⟨n, n + 1, n, n⟩
  blockAt hash := some ⟨hash - 1, hash, hash - 1, hash - 1⟩
  number_block _ := rfl
  parentHash_block _ := rfl
  blockAt_hash _ := rfl

/-- The subscription fails at first and then delivers block 5, repeats it and falls silent. The next
one delivers block 8, whose events are refused once, as are those of block 7. -/
def silentRun : List StreamAction :=
  [.subscribed none, .subscribed (some 5), .fetched .ok, .taken, .delivered 5, .silent,
    .probed (some 8), .resubscribed true, .delivered 8, .fetched (.error "connection reset"),
    .refetched true, .fetched .ok, .fetched .ok, .fetched (.error "request timeout"),
    .fetched .ok, .fetched .ok, .fetched .ok, .fetched .ok, .taken, .taken, .taken]

theorem silentRun_gapless : ∃ s : StreamCC3 ℕ ℕ,
    (StreamCC3.new none).run countingChain silentRun = some s ∧
      s.yielded = [(5, 5), (6, 6), (7, 7), (8, 8)] ∧
      ∃ answers s', s.run countingChain (.delivered 10 :: answers) = some s' ∧
        s'.yielded = s.yielded ++ [(9, 9), (10, 10)] := by
  have hrun : (StreamCC3.new none).run countingChain silentRun = some _ := rfl
  obtain ⟨-, hwaiting, -⟩ := events_gapless countingChain none hrun
  obtain ⟨-, latest, hlatest, hdelivered⟩ := hwaiting rfl
  obtain rfl : 8 = latest := Option.some.inj hlatest
  obtain ⟨answers, s', -, hrun', -, hyielded⟩ := hdelivered 10 (by decide) (by decide)
  exact ⟨_, hrun, rfl, answers, s', hrun', hyielded⟩

end Creditcoin.Streams
