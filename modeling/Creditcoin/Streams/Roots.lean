import Creditcoin.Attestor.Stream
import Creditcoin.Foundations.Consecutive

/-!
# The stream of roots

`StreamRoots` yields the roots of the source chain in the order of their heights. Each connection
releases the heights up to the bounds it is given and requests their blocks; blocks arrive and roots
are computed in any order, and a heap puts them back in order. Both stages are limited in size. When
a connection fails, all that is not yielded is dropped, and the next one begins at the next height
to yield.

A connection is polled only while the stream does not hold a block, and the bounds, which are
arbitrary, only while no height is left to release. Additions of heights wrap around, as they do in
a release build. -/

namespace Creditcoin.Streams

open Attestor (RootInfo)
open List (Perm)
open scoped List

variable {H : Type}

structure RootsConfig where
  startHeight : U64
  /-- The number of blocks that are requested at a time. -/
  maxConcurrency : ℕ+
  /-- The number of roots that are computed at a time. -/
  maxParallelism : ℕ+
  stopOnUnrecoverable : Bool

/-- How a request for a block ends. -/
inductive FetchAnswer (H : Type)
  /-- The block that was asked for, as far as its root is concerned. -/
  | block (root hash : H)
  | error (unrecoverable : Bool)
  /-- The user stops the node. -/
  | stop

/-! ## Connections -/

/-- The heights that become mature. -/
def newlyMature (nextUnfetched mature : ℕ) : List ℕ :=
  if nextUnfetched ≤ mature then List.range' nextUnfetched (mature + 1 - nextUnfetched) else []

structure Connection where
  nextUnfetched : ℕ
  /-- The heights that are released next. -/
  released : List ℕ
  /-- A height that waits until it may be requested. -/
  height : Option ℕ
  /-- The heights that are being requested. -/
  blocks : List ℕ
  /-- There may be more bounds. -/
  isOpen : Bool

namespace Connection

def new (startHeight : ℕ) : Connection := ⟨startHeight, [], none, [], true⟩

variable (c : Connection)

/-- The connection waits for a bound. -/
def awaitsBound : Bool := c.isOpen && c.released.isEmpty && c.height.isNone

/-- The heights up to a new bound are released. -/
def bound (bound : ℕ) : Connection :=
  if (newlyMature c.nextUnfetched bound).isEmpty then c
  else
    { c with
      nextUnfetched := (bound + 1) % 2 ^ 64
      released := newlyMature c.nextUnfetched bound }

/-- The next height is taken. -/
def release : Option Connection :=
  match c.height, c.released with
  | none, height :: released => some { c with height := some height, released := released }
  | _, _ => none

/-- The block at the height in hand is requested, unless there are too many requests. -/
def fetch (maxConcurrency : ℕ+) : Option Connection :=
  match c.height with
  | some height =>
    if c.blocks.length < maxConcurrency then
      some { c with height := none, blocks := c.blocks ++ [height] }
    else none
  | none => none

/-- A request ends. Requests are waited for when there is no height in hand, or when there are too
many of them. -/
def join (maxConcurrency : ℕ+) (i : ℕ) : Option (ℕ × Connection) :=
  if c.height.isNone || maxConcurrency ≤ c.blocks.length then
    c.blocks[i]?.map fun height => (height, { c with blocks := c.blocks.eraseIdx i })
  else none

/-- There are no more bounds, heights or requests. -/
def isClosed : Bool := !c.isOpen && c.released.isEmpty && c.height.isNone && c.blocks.isEmpty

end Connection

/-! ## The stream -/

structure StreamRoots (H : Type) where
  next : ℕ
  connection : Connection
  /-- A block whose root waits to be computed. -/
  block : Option (RootInfo H)
  /-- The roots that are being computed. -/
  roots : List (RootInfo H)
  /-- The roots that wait for their turn, in the order of their heights. -/
  heap : List (RootInfo H)
  ended : Bool
  /-- What was yielded. No step depends on it. -/
  yielded : List (RootInfo H)

inductive RootsAction (H : Type)
  /-- A candidate bound, if it could be resolved. -/
  | bound (bound : Option U64)
  | boundsEnd
  | release
  | fetch
  | fetched (i : ℕ) (answer : FetchAnswer H)
  | closed
  | compute
  | computed (i : ℕ)
  | panicked

/-- A task ends without a failure, or one is started. -/
def RootsAction.succeeds : RootsAction H → Bool
  | .release | .fetch | .fetched _ (.block _ _) | .compute | .computed _ => true
  | _ => false

namespace StreamRoots

def new (config : RootsConfig) : StreamRoots H :=
  ⟨config.startHeight, .new config.startHeight, none, [], [], false, []⟩

variable (s : StreamRoots H)

def polls : Bool := !s.ended && s.block.isNone

/-- All that is not yielded is dropped. -/
def reconnect : StreamRoots H :=
  { s with connection := .new s.next, roots := [], heap := [] }

/-- Roots are yielded as long as they are the next ones. -/
def drain (s : StreamRoots H) : List (RootInfo H) → StreamRoots H
  | [] => { s with heap := [] }
  | info :: heap =>
    if info.height = s.next then
      drain { s with
        next := (s.next + 1) % 2 ^ 64
        yielded := s.yielded ++ [info] } heap
    else { s with heap := info :: heap }

def push (info : RootInfo H) : StreamRoots H :=
  s.drain (s.heap.orderedInsert (fun a b => a.height ≤ b.height) info)

variable (config : RootsConfig)

def fetched (i : ℕ) (answer : FetchAnswer H) : Option (StreamRoots H) :=
  if s.polls then
    (s.connection.join config.maxConcurrency i).map fun joined =>
      match answer with
      | .block root hash =>
        { s with connection := joined.2, block := some ⟨joined.1, root, hash⟩ }
      | .error unrecoverable =>
        if config.stopOnUnrecoverable && unrecoverable then { s with ended := true }
        else s.reconnect
      | .stop => { s with ended := true }
  else none

/-- The computation of a root begins, unless there are too many. -/
def compute : Option (StreamRoots H) :=
  match s.block with
  | some info =>
    if !s.ended && s.roots.length < config.maxParallelism then
      some { s with block := none, roots := s.roots ++ [info] }
    else none
  | none => none

/-- The computation of a root ends. -/
def computed (i : ℕ) : Option (StreamRoots H) :=
  if !s.ended && (s.block.isNone || config.maxParallelism ≤ s.roots.length) then
    s.roots[i]?.map fun info => push { s with roots := s.roots.eraseIdx i } info
  else none

def step : RootsAction H → Option (StreamRoots H)
  | .bound bound =>
    if s.polls && s.connection.awaitsBound then
      some (bound.elim s fun bound => { s with connection := s.connection.bound bound })
    else none
  | .boundsEnd =>
    if s.polls && s.connection.awaitsBound then
      some { s with connection := { s.connection with isOpen := false } }
    else none
  | .release =>
    if s.polls then
      s.connection.release.map fun connection => { s with connection := connection }
    else none
  | .fetch =>
    if s.polls then
      (s.connection.fetch config.maxConcurrency).map fun connection =>
        { s with connection := connection }
    else none
  | .fetched i answer => s.fetched config i answer
  | .closed => if s.polls && s.connection.isClosed then some s.reconnect else none
  | .compute => s.compute config
  | .computed i => s.computed config i
  | .panicked => if s.ended then none else some { s with ended := true }

def run : StreamRoots H → List (RootsAction H) → Option (StreamRoots H)
  | s, [] => some s
  | s, action :: actions => (s.step config action).bind fun s' => run s' actions

end StreamRoots

/-- The bounds that were resolved. -/
def bounds (actions : List (RootsAction H)) : List ℕ :=
  actions.filterMap fun
    | .bound bound => bound.map (·.val)
    | _ => none

/-! ## Heights in flight -/

/-- The heights that were released and not yielded. -/
def Connection.inFlight (c : Connection) : List ℕ := c.blocks ++ (c.height.toList ++ c.released)

namespace Connection

variable {c c' : Connection} {maxConcurrency : ℕ+}

theorem inFlight_release (h : c.release = some c') :
    c'.inFlight = c.inFlight ∧ c'.nextUnfetched = c.nextUnfetched := by
  unfold release at h
  split at h
  · next height released hheight hreleased =>
    cases h
    simp [inFlight, hheight, hreleased]
  · cases h

theorem inFlight_fetch (h : c.fetch maxConcurrency = some c') :
    c'.inFlight = c.inFlight ∧ c'.nextUnfetched = c.nextUnfetched := by
  unfold fetch at h
  split at h
  · next height hheight =>
    split at h
    · cases h
      simp [inFlight, hheight]
    · cases h
  · cases h

theorem inFlight_join {i height : ℕ} (h : c.join maxConcurrency i = some (height, c')) :
    (height :: c'.inFlight).Perm c.inFlight ∧ c'.nextUnfetched = c.nextUnfetched := by
  unfold join at h
  split at h
  · obtain ⟨n, hn, heq⟩ := Option.map_eq_some_iff.1 h
    cases heq
    exact ⟨(perm_eraseIdx hn).append_right _, rfl⟩
  · cases h

theorem inFlight_bound (h : c.awaitsBound = true) {bound : ℕ} (hbound : bound + 1 < 2 ^ 64) :
    (c.bound bound).nextUnfetched = max c.nextUnfetched (bound + 1) ∧
      (c.bound bound).inFlight = c.inFlight ++
        List.range' c.nextUnfetched (max c.nextUnfetched (bound + 1) - c.nextUnfetched) := by
  simp only [awaitsBound, Bool.and_eq_true, List.isEmpty_iff, Option.isNone_iff_eq_none] at h
  obtain ⟨⟨-, hreleased⟩, hheight⟩ := h
  by_cases hle : c.nextUnfetched ≤ bound
  · have hcount : bound + 1 - c.nextUnfetched = bound - c.nextUnfetched + 1 := by omega
    have hmod : (bound + 1) % 18446744073709551616 = bound + 1 := Nat.mod_eq_of_lt hbound
    simp [Connection.bound, newlyMature, inFlight, hle, hcount, hreleased, hheight, hmod,
      Nat.max_eq_right (Nat.le_succ_of_le hle)]
  · simp [Connection.bound, newlyMature, hle, Nat.max_eq_left (Nat.lt_of_not_le hle)]

end Connection

namespace StreamRoots

variable {s s' : StreamRoots H} {start : ℕ} {seen : List ℕ}

/-- The heights that were released and not yielded. -/
def inFlight (s : StreamRoots H) : List ℕ :=
  s.heap.map (·.height) ++
    (s.roots.map (·.height) ++ (s.block.toList.map (·.height) ++ s.connection.inFlight))

/-- The heights that were yielded are the first ones, and those in flight the next ones, up to the
bounds seen. -/
structure Flows (start : ℕ) (seen : List ℕ) (s : StreamRoots H) : Prop where
  start_le : start ≤ s.next
  yielded : s.yielded.map (·.height) = List.range' start (s.next - start)
  next_le : s.next ≤ s.connection.nextUnfetched
  lt : s.connection.nextUnfetched < 2 ^ 64
  inFlight : s.inFlight.Perm (List.range' s.next (s.connection.nextUnfetched - s.next))
  sorted : s.heap.Pairwise fun a b => a.height ≤ b.height
  bounded : ∀ n, start ≤ n → n < s.connection.nextUnfetched → ∃ b ∈ seen, n ≤ b

/-- Moreover, the first root in the heap is not the next one. -/
structure Ordered (start : ℕ) (seen : List ℕ) (s : StreamRoots H) : Prop
    extends s.Flows start seen where
  drained : ∀ info ∈ s.heap.head?, info.height ≠ s.next

theorem Flows.drain {heap : List (RootInfo H)} (h : Flows start seen { s with heap := heap }) :
    (s.drain heap).Ordered start seen := by
  induction heap generalizing s with
  | nil => exact ⟨h, fun info hinfo => by cases hinfo⟩
  | cons info heap ih =>
    unfold StreamRoots.drain
    split
    · next heq =>
      obtain ⟨hstart, hyielded, hle, hlt, hperm, hsorted, hbounded⟩ := h
      dsimp only at hstart hyielded hle hlt hperm hsorted hbounded
      -- the root is the first of those in flight
      obtain ⟨k, hk⟩ : ∃ k, s.connection.nextUnfetched - s.next = k + 1 := by
        refine Nat.exists_eq_succ_of_ne_zero fun hzero => ?_
        have hlength := hperm.length_eq
        simp [hzero, StreamRoots.inFlight] at hlength
      have hmod : (s.next + 1) % 2 ^ 64 = s.next + 1 := Nat.mod_eq_of_lt (by omega)
      refine ih ⟨?_, ?_, ?_, hlt, ?_, (List.pairwise_cons.1 hsorted).2, hbounded⟩
      · dsimp only
        omega
      · dsimp only
        rw [hmod, List.map_append, hyielded, Nat.succ_sub hstart, List.range'_1_concat,
          Nat.add_sub_cancel' hstart]
        simp [heq]
      · dsimp only
        omega
      · dsimp only
        rw [hmod, Nat.sub_succ, hk]
        rw [hk, List.range'_succ] at hperm
        simp only [StreamRoots.inFlight, List.map_cons, heq, List.cons_append] at hperm
        exact hperm.cons_inv
    · next hne =>
      refine ⟨h, fun first hfirst => ?_⟩
      obtain rfl : info = first := Option.some.inj hfirst
      exact hne

theorem Flows.push (h : s.Flows start seen) {roots : List (RootInfo H)} {info : RootInfo H}
    (hperm : (info :: roots).Perm s.roots) :
    (push { s with roots := roots } info).Ordered start seen := by
  refine Flows.drain ⟨h.start_le, h.yielded, h.next_le, h.lt, ?_, ?_, h.bounded⟩
  · have hheap := (List.perm_orderedInsert (fun a b : RootInfo H => a.height ≤ b.height) info
      s.heap).map (·.height)
    have hroots := hperm.map (·.height)
    calc _ ~ _ := hheap.append_right _
      _ ~ _ := List.perm_middle.symm
      _ ~ _ := (hroots.append_right _).append_left _
      _ ~ _ := h.inFlight
  · have : IsTrans (RootInfo H) fun a b => a.height ≤ b.height := ⟨fun _ _ _ => Nat.le_trans⟩
    have : Std.Total fun a b : RootInfo H => a.height ≤ b.height :=
      ⟨fun a b => Nat.le_total a.height b.height⟩
    exact h.sorted.orderedInsert info s.heap

theorem Ordered.setConnection (h : s.Ordered start seen) {connection : Connection}
    {block : Option (RootInfo H)}
    (hperm : block.toList.map (·.height) ++ connection.inFlight ~
      s.block.toList.map (·.height) ++ s.connection.inFlight)
    (hnext : connection.nextUnfetched = s.connection.nextUnfetched) :
    Ordered start seen { s with connection := connection, block := block } := by
  refine ⟨⟨h.start_le, h.yielded, ?_, ?_, ?_, h.sorted, ?_⟩, h.drained⟩
  · exact hnext ▸ h.next_le
  · exact hnext ▸ h.lt
  · dsimp only
    rw [hnext]
    exact ((hperm.append_left _).append_left _).trans h.inFlight
  · exact hnext ▸ h.bounded

theorem Ordered.reconnect (h : s.Ordered start seen) (hblock : s.block = none) :
    s.reconnect.Ordered start seen := by
  refine ⟨⟨h.start_le, h.yielded, le_rfl, h.next_le.trans_lt h.lt, ?_, List.Pairwise.nil,
    fun n hn hlt => h.bounded n hn (hlt.trans_le h.next_le)⟩, fun info hinfo => by cases hinfo⟩
  simp [StreamRoots.inFlight, StreamRoots.reconnect, Connection.new, Connection.inFlight, hblock]

theorem Ordered.setEnded (h : s.Ordered start seen) : Ordered start seen { s with ended := true } :=
  ⟨⟨h.start_le, h.yielded, h.next_le, h.lt, h.inFlight, h.sorted, h.bounded⟩, h.drained⟩

theorem Ordered.bound (h : s.Ordered start seen) (hawaits : s.connection.awaitsBound = true)
    {bound : ℕ} (hbound : bound + 1 < 2 ^ 64) :
    Ordered start (seen ++ [bound]) { s with connection := s.connection.bound bound } := by
  obtain ⟨hnext, hflight⟩ := Connection.inFlight_bound hawaits hbound
  have hle := h.next_le
  refine ⟨⟨h.start_le, h.yielded, ?_, ?_, ?_, h.sorted, fun n hn hlt => ?_⟩, h.drained⟩
  · exact hnext ▸ hle.trans (le_max_left _ _)
  · exact hnext ▸ max_lt h.lt hbound
  · dsimp only
    rw [hnext, ← range'_sub_append hle (le_max_left _ _)]
    refine List.Perm.trans ?_ (h.inFlight.append_right _)
    simp [StreamRoots.inFlight, hflight]
  · dsimp only at hlt
    rw [hnext] at hlt
    rcases lt_max_iff.1 hlt with hlt | hlt
    · obtain ⟨b, hb, hle⟩ := h.bounded n hn hlt
      exact ⟨b, List.mem_append_left _ hb, hle⟩
    · exact ⟨bound, List.mem_append_right _ (List.mem_singleton_self bound), Nat.le_of_lt_succ hlt⟩

variable {config : RootsConfig}

theorem Ordered.fetched (h : s.Ordered start seen) {i : ℕ} {answer : FetchAnswer H}
    (hstep : s.fetched config i answer = some s') : s'.Ordered start seen := by
  unfold StreamRoots.fetched at hstep
  split at hstep
  · next hpolls =>
    have hblock : s.block = none := by
      simp only [polls, Bool.and_eq_true, Option.isNone_iff_eq_none] at hpolls
      exact hpolls.2
    obtain ⟨⟨height, connection⟩, hjoin, rfl⟩ := Option.map_eq_some_iff.1 hstep
    obtain ⟨hperm, hnext⟩ := Connection.inFlight_join hjoin
    cases answer with
    | block root hash =>
      refine h.setConnection ?_ hnext
      rw [hblock]
      exact hperm
    | error unrecoverable =>
      dsimp only
      split
      · exact h.setEnded
      · exact h.reconnect hblock
    | stop => exact h.setEnded
  · cases hstep

theorem Ordered.compute (h : s.Ordered start seen) (hstep : s.compute config = some s') :
    s'.Ordered start seen := by
  unfold StreamRoots.compute at hstep
  split at hstep
  · next info hblock =>
    split at hstep
    · cases hstep
      refine ⟨⟨h.start_le, h.yielded, h.next_le, h.lt, ?_, h.sorted, h.bounded⟩, h.drained⟩
      refine List.Perm.trans (List.Perm.of_eq ?_) h.inFlight
      simp [StreamRoots.inFlight, hblock]
    · cases hstep
  · cases hstep

theorem Ordered.computed (h : s.Ordered start seen) {i : ℕ}
    (hstep : s.computed config i = some s') : s'.Ordered start seen := by
  unfold StreamRoots.computed at hstep
  split at hstep
  · obtain ⟨info, hinfo, rfl⟩ := Option.map_eq_some_iff.1 hstep
    exact h.toFlows.push (perm_eraseIdx hinfo)
  · cases hstep

theorem Ordered.step (h : s.Ordered start seen) {action : RootsAction H}
    (hbounds : ∀ b ∈ bounds [action], b < 2 ^ 64 - 1)
    (hstep : s.step config action = some s') :
    s'.Ordered start (seen ++ bounds [action]) := by
  have hsame : seen ++ [] = seen := List.append_nil seen
  cases action with
  | bound bound =>
    simp only [StreamRoots.step] at hstep
    split at hstep
    · next hmay =>
      cases hstep
      cases bound with
      | none => exact hsame.symm ▸ h
      | some bound =>
        have hlt : bound.val < 2 ^ 64 - 1 := hbounds _ (List.mem_singleton_self _)
        show Ordered start (seen ++ [bound.val]) _
        exact h.bound (Bool.and_eq_true_iff.1 hmay).2 (Nat.add_lt_of_lt_sub hlt)
    · cases hstep
  | boundsEnd =>
    simp only [StreamRoots.step] at hstep
    split at hstep
    · cases hstep
      exact hsame.symm ▸ h.setConnection (.refl _) rfl
    · cases hstep
  | release =>
    simp only [StreamRoots.step] at hstep
    split at hstep
    · obtain ⟨connection, hrelease, rfl⟩ := Option.map_eq_some_iff.1 hstep
      obtain ⟨hflight, hnext⟩ := Connection.inFlight_release hrelease
      exact hsame.symm ▸ h.setConnection (.of_eq (congrArg _ hflight)) hnext
    · cases hstep
  | fetch =>
    simp only [StreamRoots.step] at hstep
    split at hstep
    · obtain ⟨connection, hfetch, rfl⟩ := Option.map_eq_some_iff.1 hstep
      obtain ⟨hflight, hnext⟩ := Connection.inFlight_fetch hfetch
      exact hsame.symm ▸ h.setConnection (.of_eq (congrArg _ hflight)) hnext
    · cases hstep
  | fetched i answer => exact hsame.symm ▸ h.fetched hstep
  | closed =>
    simp only [StreamRoots.step] at hstep
    split at hstep
    · next hmay =>
      cases hstep
      have hpolls := (Bool.and_eq_true_iff.1 hmay).1
      simp only [polls, Bool.and_eq_true, Option.isNone_iff_eq_none] at hpolls
      exact hsame.symm ▸ h.reconnect hpolls.2
    · cases hstep
  | compute => exact hsame.symm ▸ h.compute hstep
  | computed i => exact hsame.symm ▸ h.computed hstep
  | panicked =>
    simp only [StreamRoots.step] at hstep
    split at hstep
    · cases hstep
    · cases hstep
      exact hsame.symm ▸ h.setEnded

theorem ordered_new : (new config : StreamRoots H).Ordered config.startHeight [] := by
  refine ⟨⟨le_rfl, ?_, le_rfl, config.startHeight.isLt, ?_, .nil, fun n hn hlt => ?_⟩, ?_⟩
  · simp [new]
  · simp [new, inFlight, Connection.new, Connection.inFlight]
  · exact absurd hlt (Nat.not_lt.2 hn)
  · intro info hinfo
    cases hinfo

theorem Ordered.run (h : s.Ordered start seen) {actions : List (RootsAction H)}
    (hbounds : ∀ b ∈ bounds actions, b < 2 ^ 64 - 1)
    (hrun : s.run config actions = some s') : s'.Ordered start (seen ++ bounds actions) := by
  induction actions generalizing s seen with
  | nil =>
    cases hrun
    exact (List.append_nil seen).symm ▸ h
  | cons action actions ih =>
    obtain ⟨s₁, hstep, hrun⟩ := Option.bind_eq_some_iff.1 hrun
    have hsplit : bounds (action :: actions) = bounds [action] ++ bounds actions := by
      rw [bounds, bounds, bounds, ← List.filterMap_append]
      rfl
    rw [hsplit] at hbounds ⊢
    rw [← List.append_assoc]
    exact ih (h.step (fun b hb => hbounds b (List.mem_append_left _ hb)) hstep)
      (fun b hb => hbounds b (List.mem_append_right _ hb)) hrun

/-! ## Progress -/

/-- The steps that are left until everything in flight is in the heap or was yielded. -/
def work (s : StreamRoots H) : ℕ :=
  5 * s.connection.released.length + 4 * s.connection.height.toList.length +
    3 * s.connection.blocks.length + 2 * s.block.toList.length + s.roots.length

theorem drain_frame (s : StreamRoots H) (heap : List (RootInfo H)) :
    (s.drain heap).connection = s.connection ∧ (s.drain heap).block = s.block ∧
      (s.drain heap).roots = s.roots ∧ (s.drain heap).ended = s.ended := by
  induction heap generalizing s with
  | nil => exact ⟨rfl, rfl, rfl, rfl⟩
  | cons info heap ih =>
    unfold drain
    split
    · exact ih _
    · exact ⟨rfl, rfl, rfl, rfl⟩

/-- Nothing but work in flight has changed. -/
structure Works (config : RootsConfig) (s s' : StreamRoots H) : Prop where
  exists_step : ∃ action : RootsAction H, action.succeeds = true ∧ s.step config action = some s'
  work_lt : s'.work < s.work
  nextUnfetched : s'.connection.nextUnfetched = s.connection.nextUnfetched
  isOpen : s'.connection.isOpen = s.connection.isOpen
  ended : s'.ended = s.ended

theorem exists_works_computed (hended : s.ended = false) (hroots : s.roots ≠ [])
    (hmay : s.block = none ∨ config.maxParallelism ≤ s.roots.length) :
    ∃ s', s.Works config s' := by
  obtain ⟨info, roots, hcons⟩ := List.exists_cons_of_ne_nil hroots
  have hstep : s.step config (.computed 0) = some (push { s with roots := roots } info) := by
    have hguard : (!s.ended &&
        (s.block.isNone || config.maxParallelism ≤ s.roots.length)) = true := by
      simpa [hended] using hmay
    rw [StreamRoots.step, StreamRoots.computed, if_pos hguard, hcons]
    rfl
  obtain ⟨hconnection, hblock, hroots', hended'⟩ := drain_frame { s with roots := roots }
    (s.heap.orderedInsert (fun a b => a.height ≤ b.height) info)
  refine ⟨_, ⟨.computed 0, rfl, hstep⟩, ?_, ?_, ?_, hended'⟩
  · rw [work, work, push, hconnection, hblock, hroots', hcons]
    simp
  · rw [push, hconnection]
  · rw [push, hconnection]

theorem exists_works_compute {info : RootInfo H} (hended : s.ended = false)
    (hblock : s.block = some info) (hlt : s.roots.length < config.maxParallelism) :
    ∃ s', s.Works config s' := by
  refine ⟨{ s with block := none, roots := s.roots ++ [info] }, ⟨.compute, rfl, ?_⟩, ?_, rfl, rfl,
    rfl⟩
  · simp [StreamRoots.step, StreamRoots.compute, hblock, hended, hlt]
  · simp [work, hblock]
    omega

theorem exists_works_fetched [Inhabited H] (hpolls : s.polls = true)
    (hblocks : s.connection.blocks ≠ [])
    (hmay : s.connection.height = none ∨ config.maxConcurrency ≤ s.connection.blocks.length) :
    ∃ s', s.Works config s' := by
  obtain ⟨height, blocks, hcons⟩ := List.exists_cons_of_ne_nil hblocks
  have hjoin : s.connection.join config.maxConcurrency 0 =
      some (height, { s.connection with blocks := blocks }) := by
    have hguard : (s.connection.height.isNone ||
        config.maxConcurrency ≤ s.connection.blocks.length) = true := by
      simpa using hmay
    rw [Connection.join, if_pos hguard, hcons]
    rfl
  have hblock : s.block = none := by
    simp only [polls, Bool.and_eq_true, Option.isNone_iff_eq_none] at hpolls
    exact hpolls.2
  refine ⟨{ s with
      connection := { s.connection with blocks := blocks }
      block := some ⟨height, default, default⟩ },
    ⟨.fetched 0 (.block default default), rfl, ?_⟩, ?_, rfl, rfl, rfl⟩
  · rw [StreamRoots.step, StreamRoots.fetched, if_pos hpolls, hjoin]
    rfl
  · simp [work, hblock, hcons]
    omega

variable (config) in
theorem exists_works [Inhabited H] (hended : s.ended = false) (hwork : 0 < s.work) :
    ∃ s', s.Works config s' := by
  cases hblock : s.block with
  | some info =>
    by_cases hlt : s.roots.length < config.maxParallelism
    · exact exists_works_compute hended hblock hlt
    · have hge := Nat.not_lt.1 hlt
      refine exists_works_computed hended ?_ (.inr hge)
      exact List.length_pos_iff.1 (config.maxParallelism.pos.trans_le hge)
  | none =>
    by_cases hroots : s.roots = []
    · have hpolls : s.polls = true := by simp [polls, hended, hblock]
      cases hheight : s.connection.height with
      | some height =>
        by_cases hlt : s.connection.blocks.length < config.maxConcurrency
        · refine ⟨{ s with connection := { s.connection with
              height := none
              blocks := s.connection.blocks ++ [height] } }, ⟨.fetch, rfl, ?_⟩, ?_, rfl, rfl, rfl⟩
          · simp [StreamRoots.step, hpolls, Connection.fetch, hheight, hlt]
          · simp [work, hheight]
            omega
        · have hge := Nat.not_lt.1 hlt
          refine exists_works_fetched hpolls ?_ (.inr hge)
          exact List.length_pos_iff.1 (config.maxConcurrency.pos.trans_le hge)
      | none =>
        cases hreleased : s.connection.released with
        | cons height released =>
          refine ⟨{ s with connection := { s.connection with
              height := some height
              released := released } }, ⟨.release, rfl, ?_⟩, ?_, rfl, rfl, rfl⟩
          · simp [StreamRoots.step, hpolls, Connection.release, hheight, hreleased]
          · simp [work, hheight, hreleased]
            omega
        | nil =>
          refine exists_works_fetched hpolls (fun hblocks => ?_) (.inl hheight)
          simp [work, hblock, hroots, hheight, hreleased, hblocks] at hwork
    · exact exists_works_computed hended hroots (.inl hblock)

/-- A run in which tasks end without a failure. -/
def Finishes (config : RootsConfig) (s s' : StreamRoots H) : Prop :=
  ∃ actions, (∀ action ∈ actions, action.succeeds = true) ∧ s.run config actions = some s'

theorem bounds_of_succeeds {actions : List (RootsAction H)}
    (h : ∀ action ∈ actions, action.succeeds = true) : bounds actions = [] := by
  refine List.filterMap_eq_nil_iff.2 fun action hmem => ?_
  have haction := h action hmem
  cases action with
  | bound bound => cases haction
  | _ => rfl

variable (config) in
theorem exists_finishes [Inhabited H] (hended : s.ended = false) :
    ∃ s', s.Finishes config s' ∧ s'.work = 0 ∧
      s'.connection.nextUnfetched = s.connection.nextUnfetched ∧
      s'.connection.isOpen = s.connection.isOpen ∧ s'.ended = false := by
  induction hn : s.work using Nat.strong_induction_on generalizing s with
  | _ n ih =>
    rcases Nat.eq_zero_or_pos s.work with hzero | hpos
    · exact ⟨s, ⟨[], by simp, rfl⟩, hzero, rfl, rfl, hended⟩
    · obtain ⟨s₁, ⟨action, hsucceeds, hstep⟩, hlt, hnext, hopen, hended₁⟩ :=
        exists_works config hended hpos
      obtain ⟨s', ⟨actions, hactions, hrun⟩, hzero, hnext', hopen', hended'⟩ :=
        ih _ (hn ▸ hlt) (hended₁.trans hended) rfl
      refine ⟨s', ⟨action :: actions, List.forall_mem_cons.2 ⟨hsucceeds, hactions⟩, ?_⟩, hzero,
        hnext'.trans hnext, hopen'.trans hopen, hended'⟩
      exact Option.bind_eq_some_iff.2 ⟨s₁, hstep, hrun⟩

theorem Ordered.finishes (h : s.Ordered start seen) (hfinishes : s.Finishes config s') :
    s'.Ordered start seen := by
  obtain ⟨actions, hactions, hrun⟩ := hfinishes
  have hbounds := bounds_of_succeeds hactions
  have h' := h.run (hbounds ▸ fun b hb => absurd hb List.not_mem_nil) hrun
  rwa [hbounds, List.append_nil] at h'

theorem eq_nil_of_work (h : s.work = 0) :
    s.connection.released = [] ∧ s.connection.height = none ∧ s.connection.blocks = [] ∧
      s.block = none ∧ s.roots = [] := by
  simpa [work, and_assoc] using h

theorem Ordered.next_eq (h : s.Ordered start seen) (hwork : s.work = 0) :
    s.next = s.connection.nextUnfetched := by
  obtain ⟨hreleased, hheight, hblocks, hblock, hroots⟩ := eq_nil_of_work hwork
  have hperm := h.inFlight
  simp only [StreamRoots.inFlight, Connection.inFlight, hreleased, hheight, hblocks, hblock, hroots,
    Option.toList_none, List.map_nil, List.append_nil] at hperm
  have hheap := eq_range'_of_perm hperm (List.pairwise_map.2 h.sorted)
  have hle := h.next_le
  rcases Nat.eq_zero_or_pos (s.connection.nextUnfetched - s.next) with hzero | hpos
  · omega
  · obtain ⟨k, hk⟩ := Nat.exists_eq_succ_of_ne_zero hpos.ne'
    rw [hk, List.range'_succ] at hheap
    obtain ⟨info, heap, hcons, hinfo, -⟩ := List.map_eq_cons_iff.1 hheap
    exact absurd hinfo (h.drained info (by rw [hcons]; rfl))

theorem run_append (actions actions' : List (RootsAction H)) :
    s.run config (actions ++ actions') = (s.run config actions).bind (run config · actions') := by
  induction actions generalizing s with
  | nil => rfl
  | cons action actions ih =>
    rw [List.cons_append, StreamRoots.run, StreamRoots.run, Option.bind_assoc]
    exact congrArg _ (funext fun s₁ => ih)

theorem Ordered.exists_run [Inhabited H] (h : s.Ordered start seen) (hended : s.ended = false)
    (hopen : s.connection.isOpen = true) {bound : U64} (hbound : bound.val < 2 ^ 64 - 1) :
    ∃ before after s', (∀ action ∈ before ++ after, action.succeeds = true) ∧
      s.run config (before ++ .bound (some bound) :: after) = some s' ∧
      s'.yielded.map (·.height) =
        List.range' start (max s.connection.nextUnfetched (bound + 1) - start) := by
  obtain ⟨s₁, hfinishes₁, hwork₁, hnext₁, hopen₁, hended₁⟩ := exists_finishes config hended
  obtain ⟨hreleased, hheight, -, hblock, -⟩ := eq_nil_of_work hwork₁
  have hawaits : s₁.connection.awaitsBound = true := by
    simp [Connection.awaitsBound, hopen₁, hopen, hreleased, hheight]
  have hstep : s₁.step config (.bound (some bound)) =
      some { s₁ with connection := s₁.connection.bound bound } := by
    simp [StreamRoots.step, polls, hended₁, hblock, hawaits]
  have hlt : bound.val + 1 < 2 ^ 64 := Nat.add_lt_of_lt_sub hbound
  have h₂ := (h.finishes hfinishes₁).bound hawaits hlt
  obtain ⟨s₃, hfinishes₃, hwork₃, hnext₃, -⟩ := exists_finishes config (s := { s₁ with
    connection := s₁.connection.bound bound }) hended₁
  have h₃ := h₂.finishes hfinishes₃
  have hnext : s₃.next = max s.connection.nextUnfetched (bound + 1) := by
    rw [h₃.next_eq hwork₃, hnext₃, (Connection.inFlight_bound hawaits hlt).1, hnext₁]
  obtain ⟨before, hbefore, hrun₁⟩ := hfinishes₁
  obtain ⟨after, hafter, hrun₃⟩ := hfinishes₃
  refine ⟨before, after, s₃, List.forall_mem_append.2 ⟨hbefore, hafter⟩, ?_, ?_⟩
  · rw [run_append, hrun₁, Option.bind_some, StreamRoots.run, hstep]
    exact hrun₃
  · rw [h₃.yielded, hnext]

end StreamRoots

/-- **Roots are yielded in order.** For every order in which requests and computations end, all
bounds below the greatest height, and failures at any point, the heights that were yielded are
consecutive from the first one on, and none is above all bounds seen. As long as nothing fails and
there are more bounds, all heights up to the next bound are yielded. -/
theorem roots_ordered [Inhabited H] (config : RootsConfig) {actions : List (RootsAction H)}
    {s : StreamRoots H} (hrun : (StreamRoots.new config).run config actions = some s)
    (hbounds : ∀ b ∈ bounds actions, b < 2 ^ 64 - 1) :
    (∃ count, s.yielded.map (·.height) = List.range' config.startHeight count) ∧
    (∀ info ∈ s.yielded, ∃ b ∈ bounds actions, info.height ≤ b) ∧
    (s.ended = false → s.connection.isOpen = true → ∀ b : U64, b.val < 2 ^ 64 - 1 →
      ∃ before after s', (∀ action ∈ before ++ after, action.succeeds = true) ∧
        s.run config (before ++ .bound (some b) :: after) = some s' ∧
        s'.yielded.map (·.height) = List.range' config.startHeight
          (max s.connection.nextUnfetched (b + 1) - config.startHeight)) := by
  have h : s.Ordered config.startHeight (bounds actions) := StreamRoots.ordered_new.run hbounds hrun
  refine ⟨⟨_, h.yielded⟩, fun info hinfo => ?_,
    fun hended hopen b hb => h.exists_run hended hopen hb⟩
  have hmem : info.height ∈ s.yielded.map (·.height) := List.mem_map_of_mem hinfo
  rw [h.yielded, List.mem_range'_1] at hmem
  have hstart := h.start_le
  have hnext := h.next_le
  exact h.bounded _ hmem.1 (by omega)

/-! ## Runs -/

namespace Wrapped

def config (startHeight : U64) : RootsConfig := ⟨startHeight, 2, 2, false⟩

/-- The next two blocks arrive in the other order. -/
def twoBlocks : List (RootsAction ℕ) :=
  [.release, .fetch, .release, .fetch, .fetched 1 (.block 0 0), .compute, .fetched 0 (.block 0 0),
    .compute, .computed 0, .computed 0]

/-- The bound 6 is seen. The request for block 7 fails, and the next connection sees the bound 8. -/
def interrupted : List (RootsAction ℕ) :=
  [.bound (some 6)] ++ twoBlocks ++
    [.bound none, .bound (some 7), .release, .fetch, .fetched 0 (.error false), .bound (some 8)] ++
    twoBlocks

theorem interrupted_ordered : ∃ s : StreamRoots ℕ,
    (StreamRoots.new (config 5)).run (config 5) interrupted = some s ∧
      s.yielded.map (·.height) = [5, 6, 7, 8] ∧
      ∀ info ∈ s.yielded, ∃ b ∈ [6, 7, 8], info.height ≤ b := by
  have hrun : (StreamRoots.new (config 5)).run (config 5) interrupted = some _ := rfl
  obtain ⟨-, hseen, -⟩ := roots_ordered (config 5) hrun (by decide)
  exact ⟨_, hrun, rfl, hseen⟩

def oneBlock : List (RootsAction ℕ) :=
  [.release, .fetch, .fetched 0 (.block 0 0), .compute, .computed 0]

/-- **The heights wrap around.** The first height is the greatest one, and so is the first bound.
After it height 0 is yielded, as soon as there is another bound. -/
theorem exists_wrapped : ∃ s : StreamRoots ℕ,
    (StreamRoots.new (config (Fin.last _))).run (config (Fin.last _))
        ([.bound (some (Fin.last _))] ++ oneBlock ++ [.bound (some 0)] ++ oneBlock) = some s ∧
      s.yielded.map (·.height) = [2 ^ 64 - 1, 0] :=
  ⟨_, rfl, rfl⟩

end Wrapped

end Creditcoin.Streams
