import Mathlib.Data.List.TakeWhile
import Mathlib.Logic.Function.Basic
import Pisces.Transition

/-! # A queue that any number of threads use

`enqueue` and `dequeue` of `util-queue.c`, step by step.  What is done under the
lock is one step; the test for room is made before it.
-/

namespace Pisces.Queue

open Transition

/-- A `void *`, with `NULL` as 0 -/
abbrev Pointer := UInt64

/-- `struct gen_queue` -/
structure GenQueue where
  numEntries : UInt32
  maxEntries : UInt32
  entries : List Pointer
  deriving DecidableEq

def initQueue (maxEntries : UInt32) : GenQueue := { numEntries := 0, maxEntries, entries := [] }

namespace GenQueue

def isFull (queue : GenQueue) : Bool := queue.maxEntries ≤ queue.numEntries

/-- The locked part of `enqueue` -/
def addTail (queue : GenQueue) (entry : Pointer) : GenQueue :=
  { queue with entries := queue.entries ++ [entry], numEntries := queue.numEntries + 1 }

/-- `dequeue`, all of which is done under the lock -/
def dequeue (queue : GenQueue) : Pointer × GenQueue :=
  match queue.entries with
  | [] => (0, queue)
  | entry :: rest => (entry, { queue with entries := rest, numEntries := queue.numEntries - 1 })

theorem dequeue_shrinks (queue : GenQueue) (some : queue.dequeue.1 ≠ 0) :
    queue.dequeue.2.entries.length < queue.entries.length := by
  unfold dequeue at some ⊢
  split
  · rename_i empty
    simp [empty] at some
  · rename_i entry rest split
    simp [split]

/-- The loop of `deinit_queue` -/
def deinitQueue (queue : GenQueue) : GenQueue :=
  if _ : queue.dequeue.1 = 0 then queue.dequeue.2 else queue.dequeue.2.deinitQueue
termination_by queue.entries.length
decreasing_by exact dequeue_shrinks queue ‹_›

end GenQueue

/-- Control points of one thread -/
inductive Phase where
  | idle
  | test (entry : Pointer)
  | allocate (entry : Pointer)
  | insert (entry : Pointer)
  | enqueued (result : Int)
  | remove
  | dequeued (entryVal : Pointer)
  deriving DecidableEq

/-- The queue, its threads, the entries put into the list so far, and the values
that calls of `dequeue` which found an entry return. -/
structure State where
  queue : GenQueue
  threads : Nat → Phase
  inserted : List Pointer
  removed : List Pointer

inductive Action where
  | enqueue (thread : Nat) (entry : Pointer)
  | dequeue (thread : Nat)
  /-- The next step of a call, with what `kmalloc` answers -/
  | go (thread : Nat) (kmalloc : Bool)
  deriving DecidableEq

def State.set (state : State) (thread : Nat) (phase : Phase) : State :=
  { state with threads := Function.update state.threads thread phase }

def step (state : State) : Action → Option State
  | .enqueue thread entry => if state.threads thread = .idle then some (state.set thread (.test entry)) else none
  | .dequeue thread => if state.threads thread = .idle then some (state.set thread .remove) else none
  | .go thread kmalloc =>
      match state.threads thread with
      | .idle => none
      | .test entry => some (state.set thread (if state.queue.isFull then .enqueued (-1) else .allocate entry))
      | .allocate entry => some (state.set thread (if kmalloc then .insert entry else .enqueued (-1)))
      | .insert entry =>
          some ({ state with
            queue := state.queue.addTail entry
            inserted := state.inserted ++ [entry] }.set thread (.enqueued 0))
      | .remove =>
          some ({ state with
            queue := state.queue.dequeue.2
            removed := if state.queue.entries = [] then state.removed else state.removed ++ [state.queue.dequeue.1]
            }.set thread (.dequeued state.queue.dequeue.1))
      | .enqueued _ | .dequeued _ => some (state.set thread .idle)

structure Initial (maxEntries : UInt32) (state : State) : Prop where
  queue : state.queue = initQueue maxEntries
  threads : ∀ thread, state.threads thread = .idle
  inserted : state.inserted = []
  removed : state.removed = []

def system (maxEntries : UInt32) : System State Action where
  initial := Initial maxEntries
  step := step

/-- An entry is inserted while there is room, whatever the test has found before. -/
def InTime (state : State) : Action → Prop
  | .go thread _ =>
      ∀ entry, state.threads thread = .insert entry → state.queue.numEntries < state.queue.maxEntries
  | _ => True

/-- `num_entries` is the number of entries and within the bound. -/
def Bounded (queue : GenQueue) : Prop :=
  queue.numEntries.toNat = queue.entries.length ∧ queue.numEntries ≤ queue.maxEntries

/-- The list holds what was inserted and not yet removed, in that order, and the
counter follows it as far as its type goes. -/
structure Accounted (state : State) : Prop where
  history : state.inserted = state.removed ++ state.queue.entries
  counted : state.queue.numEntries.toNat = state.queue.entries.length % 0x100000000

/-- A call of `dequeue` returns the oldest entry, which leaves the list, and `NULL`
from an empty list. -/
structure HandedOut (state : State) (thread : Nat) (next : State) : Prop where
  returned : next.threads thread = .dequeued (state.queue.entries.headD 0)
  removed : next.removed = state.removed ++ state.queue.entries.head?.toList
  entries : next.queue.entries = state.queue.entries.tail

variable {state next : State} {action : Action} {maxEntries : UInt32} {queue : GenQueue} {entry : Pointer}

theorem dequeue_returned (queue : GenQueue) : queue.dequeue.1 = queue.entries.headD 0 := by
  unfold GenQueue.dequeue
  split <;> simp [*]

theorem dequeue_entries (queue : GenQueue) : queue.dequeue.2.entries = queue.entries.tail := by
  unfold GenQueue.dequeue
  split <;> simp [*]

/-- The returned values follow the list. -/
theorem removed_append (queue : GenQueue) (removed : List Pointer) :
    (if queue.entries = [] then removed else removed ++ [queue.dequeue.1]) = removed ++ queue.entries.head?.toList := by
  rw [dequeue_returned]
  cases queue.entries <;> simp

theorem step_handedOut {thread : Nat} {kmalloc : Bool} (phase : state.threads thread = .remove)
    (stepped : step state (.go thread kmalloc) = some next) : HandedOut state thread next := by
  simp only [step, phase, Option.some.injEq] at stepped
  subst stepped
  refine ⟨?_, removed_append _ _, dequeue_entries _⟩
  rw [← dequeue_returned]
  exact Function.update_self ..

/-- What a step does to the queue -/
inductive Move (state : State) (action : Action) (next : State) : Prop where
  | stay (queue : next.queue = state.queue) (inserted : next.inserted = state.inserted)
      (removed : next.removed = state.removed)
      (other : ∀ thread kmalloc entry, action = .go thread kmalloc → state.threads thread ≠ .insert entry)
  | insert (thread : Nat) (kmalloc : Bool) (entry : Pointer) (label : action = .go thread kmalloc)
      (phase : state.threads thread = .insert entry) (queue : next.queue = state.queue.addTail entry)
      (inserted : next.inserted = state.inserted ++ [entry]) (removed : next.removed = state.removed)
  | remove (queue : next.queue = state.queue.dequeue.2) (inserted : next.inserted = state.inserted)
      (removed : next.removed = state.removed ++ state.queue.entries.head?.toList)
      (other : ∀ thread kmalloc entry, action = .go thread kmalloc → state.threads thread ≠ .insert entry)

theorem step_move (stepped : step state action = some next) : Move state action next := by
  cases action with
  | enqueue | dequeue =>
      simp only [step] at stepped
      split at stepped
      · cases stepped
        exact .stay rfl rfl rfl nofun
      · cases stepped
  | go thread kmalloc =>
      have same {phase : Phase} (found : state.threads thread = phase) (other : ∀ entry, phase ≠ .insert entry) :
          ∀ thread' kmalloc' entry, Action.go thread kmalloc = .go thread' kmalloc' →
            state.threads thread' ≠ .insert entry := by
        rintro _ _ entry ⟨⟩
        rw [found]
        exact other entry
      cases phase : state.threads thread with
      | idle => simp [step, phase] at stepped
      | insert entry =>
          simp only [step, phase, Option.some.injEq] at stepped
          subst stepped
          exact .insert thread kmalloc entry rfl phase rfl rfl rfl
      | remove =>
          simp only [step, phase, Option.some.injEq] at stepped
          subst stepped
          exact .remove rfl rfl (removed_append _ _) (same phase nofun)
      | test _ | allocate _ | enqueued _ | dequeued _ =>
          simp only [step, phase, Option.some.injEq] at stepped
          subst stepped
          exact .stay rfl rfl rfl (same phase nofun)

/-! ## Order -/

theorem Initial.accounted (initial : Initial maxEntries state) : Accounted state where
  history := by rw [initial.inserted, initial.removed, initial.queue]; rfl
  counted := by rw [initial.queue]; rfl

theorem Accounted.step (accounted : Accounted state) (stepped : step state action = some next) : Accounted next := by
  obtain ⟨history, counted⟩ := accounted
  cases step_move stepped with
  | stay queue inserted removed => exact ⟨by rw [queue, inserted, removed, history], by rw [queue, counted]⟩
  | insert thread kmalloc entry _ _ queue inserted removed =>
      refine ⟨?_, ?_⟩
      · rw [queue, inserted, removed, history, List.append_assoc]
        rfl
      · rw [queue]
        simp only [GenQueue.addTail, UInt32.toNat_add, List.length_append, List.length_singleton, counted,
          UInt32.toNat_one]
        omega
  | remove queue inserted removed =>
      cases entries : state.queue.entries with
      | nil =>
          have empty : state.queue.dequeue.2 = state.queue := by simp [GenQueue.dequeue, entries]
          refine ⟨?_, by rw [queue, empty, counted]⟩
          rw [queue, inserted, removed, history, empty, entries]
          simp
      | cons entry rest =>
          rw [entries, List.length_cons] at counted
          refine ⟨?_, ?_⟩
          · rw [queue, inserted, removed, history, entries]
            simp [GenQueue.dequeue, entries]
          · rw [queue]
            simp only [GenQueue.dequeue, entries, UInt32.toNat_sub, counted, UInt32.toNat_one]
            omega

/-! ## Room -/

theorem Accounted.bounded_iff (accounted : Accounted state) :
    Bounded state.queue ↔ state.queue.entries.length ≤ state.queue.maxEntries.toNat := by
  have limit := state.queue.maxEntries.toNat_lt
  have counted := accounted.counted
  rw [Bounded, UInt32.le_iff_toNat_le]
  omega

theorem step_maxEntries (stepped : step state action = some next) : next.queue.maxEntries = state.queue.maxEntries := by
  cases step_move stepped with
  | stay queue => rw [queue]
  | insert _ _ _ _ _ queue =>
      rw [queue]
      rfl
  | remove queue =>
      rw [queue, GenQueue.dequeue]
      split <;> rfl

/-- A step keeps the bound exactly if it does not insert without room. -/
theorem Bounded.step_iff (bounded : Bounded state.queue) (accounted : Accounted state)
    (stepped : step state action = some next) : Bounded next.queue ↔ InTime state action := by
  have entries := accounted.bounded_iff.mp bounded
  rw [(accounted.step stepped).bounded_iff, step_maxEntries stepped]
  have untouched (other : ∀ thread kmalloc entry, action = .go thread kmalloc → state.threads thread ≠ .insert entry) :
      InTime state action := by
    cases action with
    | enqueue => exact trivial
    | dequeue => exact trivial
    | go thread kmalloc => exact fun entry phase => absurd phase (other thread kmalloc entry rfl)
  cases step_move stepped with
  | stay queue _ _ other =>
      rw [queue]
      exact iff_of_true entries (untouched other)
  | insert thread kmalloc entry label phase queue =>
      subst label
      have inTime : InTime state (.go thread kmalloc) ↔ state.queue.numEntries < state.queue.maxEntries :=
        ⟨fun room => room entry phase, fun room _ _ => room⟩
      rw [queue, inTime, UInt32.lt_iff_toNat_lt, bounded.1]
      simp only [GenQueue.addTail, List.length_append, List.length_singleton]
      omega
  | remove queue _ _ other =>
      refine iff_of_true ?_ (untouched other)
      have shorter : state.queue.dequeue.2.entries.length ≤ state.queue.entries.length := by
        unfold GenQueue.dequeue
        split <;> simp_all
      rw [queue]
      omega

/-! ## Draining -/

/-- The loop ends behind the first `NULL` entry. -/
theorem deinitQueue_entries (queue : GenQueue) :
    queue.deinitQueue.entries = (queue.entries.dropWhile (· != 0)).tail := by
  induction entries : queue.entries generalizing queue with
  | nil =>
      rw [GenQueue.deinitQueue]
      simp [GenQueue.dequeue, entries]
  | cons entry rest ih =>
      rw [GenQueue.deinitQueue]
      by_cases null : entry = 0
      · simp [GenQueue.dequeue, entries, null]
      · simpa [GenQueue.dequeue, entries, null] using ih ({ queue with
          entries := rest
          numEntries := queue.numEntries - 1 } : GenQueue) rfl

theorem deinitQueue_empty (queue : GenQueue) : queue.deinitQueue.entries = [] ↔ 0 ∉ queue.entries.dropLast := by
  rw [deinitQueue_entries]
  induction queue.entries with
  | nil => simp
  | cons entry rest ih =>
      by_cases null : entry = 0
      · cases rest <;> simp [null]
      · cases rest with
        | nil => simp [null]
        | cons second rest =>
            rw [List.dropWhile_cons_of_pos (by simpa using null), ih, List.dropLast_cons_cons, List.mem_cons]
            simp [Ne.symm null]

/-- Calls of `dequeue` return the entries in the order in which they came, each once,
and the counter follows the list.  The bound is kept by every run that inserts only while
there is room, and broken by the first step that does otherwise.  Draining
empties a list without a `NULL` in front of its last entry, and no other. -/
theorem queue_bounded_fifo (maxEntries : UInt32) :
    (∀ state, (system maxEntries).Reachable (fun _ _ => True) state →
      state.inserted = state.removed ++ state.queue.entries ∧
        state.queue.numEntries.toNat = state.queue.entries.length % 0x100000000 ∧
        ∀ thread kmalloc next, state.threads thread = .remove → step state (.go thread kmalloc) = some next →
          HandedOut state thread next) ∧
    (∀ state, (system maxEntries).Reachable InTime state →
      Bounded state.queue ∧ ∀ action next, step state action = some next → (Bounded next.queue ↔ InTime state action)) ∧
    ∀ queue : GenQueue, queue.deinitQueue.entries = [] ↔ 0 ∉ queue.entries.dropLast := by
  have accounted {allowed state} (reached : (system maxEntries).Reachable allowed state) : Accounted state :=
    reached.invariant (fun initial => initial.accounted) fun accounted _ stepped => accounted.step stepped
  refine ⟨fun state reached => ⟨(accounted reached).history, (accounted reached).counted, fun _ _ _ => step_handedOut⟩,
    fun state reached => ?_, deinitQueue_empty⟩
  have bounded : Accounted state ∧ Bounded state.queue := by
    refine @System.Reachable.invariant _ _ (system maxEntries) InTime state
      (fun state => Accounted state ∧ Bounded state.queue) reached ?_ ?_
    · intro state initial
      refine ⟨initial.accounted, initial.accounted.bounded_iff.mpr ?_⟩
      rw [initial.queue]
      exact Nat.zero_le _
    · rintro state action next ⟨kept, bounded⟩ room stepped
      exact ⟨kept.step stepped, (bounded.step_iff kept stepped).mpr room⟩
  exact ⟨bounded.2, fun action next stepped => bounded.2.step_iff bounded.1 stepped⟩

def unused (maxEntries : UInt32) : State where
  queue := initQueue maxEntries
  threads := fun _ => .idle
  inserted := []
  removed := []

theorem unused_initial (maxEntries : UInt32) : Initial maxEntries (unused maxEntries) :=
  ⟨rfl, fun _ => rfl, rfl, rfl⟩

/-- Both threads find room for one entry before either has inserted its own. -/
def twoTests : List Action :=
  [.enqueue 0 5, .enqueue 1 6, .go 0 true, .go 1 true, .go 0 true, .go 1 true, .go 0 true, .go 1 true]

/-- One thread puts `NULL` into the queue and then something else. -/
def nullFirst : List Action :=
  [.enqueue 0 0, .go 0 true, .go 0 true, .go 0 true, .go 0 true, .enqueue 0 5, .go 0 true, .go 0 true, .go 0 true]

theorem queue_exceeds_bound :
    (∃ state, (system 1).Reachable (fun _ _ => True) state ∧ state.queue.entries = [5, 6] ∧
      ¬ Bounded state.queue) ∧
    ∃ state, (system 2).Reachable (fun _ _ => True) state ∧ state.queue.entries = [0, 5] ∧
      state.queue.deinitQueue.entries = [5] := by
  have reached {maxEntries : UInt32} {schedule : List Action} {state : State}
      (executed : (system maxEntries).run (fun _ _ => true) (unused maxEntries) schedule = some state) :
      (system maxEntries).Reachable (fun _ _ => True) state :=
    ⟨_, unused_initial maxEntries, System.run_path (fun _ => trivial) executed⟩
  refine ⟨⟨_, @reached 1 twoTests _ rfl, rfl, fun bounded => ?_⟩, _, @reached 2 nullFirst _ rfl, rfl, ?_⟩
  · exact absurd bounded.2 (by decide)
  · rw [deinitQueue_entries]
    rfl

end Pisces.Queue
