import Mathlib.Tactic.Basic
import Pisces.Atomic
import Pisces.Mutex

/-! # The spin lock

`pisces_lock.c`, and a procedure that runs on shared data between
`pisces_spin_lock` and `pisces_spin_unlock`.  A move is one access of one CPU to
the memory that it shares with the others.
-/

namespace Pisces.Lock

open Atomic Mutex Transition

/-- `struct pisces_spinlock` -/
structure PiscesSpinlock where
  rawLock : UInt64
  deriving DecidableEq

/-- `pisces_lock_init` -/
def piscesLockInit : PiscesSpinlock where
  rawLock := 0

/-- `pisces_xchg8` on the lock: the low byte as it was, and the lock with `x` there. -/
def piscesXchg8 (lock : PiscesSpinlock) (x : UInt8) : UInt8 × PiscesSpinlock :=
  (lock.rawLock.toUInt8, { rawLock := (lock.rawLock &&& 0xffffffffffffff00) ||| x.toUInt64 })

/-- The store of `pisces_spin_unlock` -/
def piscesSpinUnlock : PiscesSpinlock where
  rawLock := 0

variable {Data Call Point Answer Id : Type*}

/-- Where a CPU is. -/
inductive Phase (Call Point Answer : Type*) where
  | idle
  /-- About to exchange -/
  | exchanging (call : Call)
  /-- In `while (lock->raw_lock)` -/
  | relaxing (call : Call)
  | inside (call : Call) (point : Point)
  | unlocking (call : Call) (answer : Answer)
  | returning (answer : Answer)

def Phase.holds : Phase Call Point Answer → Bool
  | .inside _ _ | .unlocking _ _ => true
  | .idle | .exchanging _ | .relaxing _ | .returning _ => false

structure Machine (Data Call Point Answer Id : Type*) where
  lock : PiscesSpinlock
  data : Data
  phase : Id → Phase Call Point Answer
  history : List (Event Id Call Answer)

inductive Label (Id Call : Type*) where
  | call (id : Id) (call : Call)
  | move (id : Id)

section Step

variable [DecidableEq Id]

def Machine.become (machine : Machine Data Call Point Answer Id) (id : Id) (phase : Phase Call Point Answer) :
    Machine Data Call Point Answer Id :=
  { machine with phase := Function.update machine.phase id phase }

def Machine.step (routine : Routine Data Call Point Answer) (machine : Machine Data Call Point Answer Id) :
    Label Id Call → Option (Machine Data Call Point Answer Id)
  | .call id call =>
      match machine.phase id with
      | .idle => some { machine.become id (.exchanging call) with history := .invoked id call :: machine.history }
      | _ => none
  | .move id =>
      match machine.phase id with
      | .idle => none
      | .exchanging call =>
          let (x, lock) := piscesXchg8 machine.lock 1
          some { machine.become id (if x = 0 then .inside call (routine.enter call) else .relaxing call) with
            lock := lock }
      | .relaxing call =>
          some (machine.become id (if machine.lock.rawLock = 0 then .exchanging call else .relaxing call))
      | .inside call point =>
          match routine.step machine.data point with
          | none => none
          | some (data, .inl next) => some { machine.become id (.inside call next) with data := data }
          | some (data, .inr answer) => some { machine.become id (.unlocking call answer) with data := data }
      | .unlocking _ answer => some { machine.become id (.returning answer) with lock := piscesSpinUnlock }
      | .returning answer =>
          some { machine.become id .idle with history := .returned id answer :: machine.history }

def system (routine : Routine Data Call Point Answer) (start : Data) :
    System (Machine Data Call Point Answer Id) (Label Id Call) where
  initial machine :=
    machine.lock = piscesLockInit ∧ machine.data = start ∧ (∀ id, machine.phase id = .idle) ∧ machine.history = []
  step := Machine.step routine

end Step

/-- Whatever the CPUs do -/
def anyLabel (_ : Machine Data Call Point Answer Id) (_ : Label Id Call) : Prop :=
  True

/-- CPUs go on with their calls and begin no others. -/
def movesOnly (_ : Machine Data Call Point Answer Id) : Label Id Call → Prop
  | .call _ _ => False
  | .move _ => True

/-! ## Calls as the callers see them -/

/-- A call is decided when the lock is given back. -/
def Phase.stage : Phase Call Point Answer → Stage Call Answer
  | .idle => .idle
  | .exchanging call | .relaxing call | .inside call _ | .unlocking call _ => .pending call
  | .returning answer => .decided answer

/-- What the holder has still to do turns the data it found into the data it leaves. -/
def Section (routine : Routine Data Call Point Answer) (serve : Data → Call → Option (Data × Answer))
    (found current : Data) : Phase Call Point Answer → Prop
  | .inside call point => ∃ after answer, serve found call = some (after, answer) ∧
      routine.Finishes current point after answer
  | .unlocking call answer => serve found call = some (current, answer)
  | .idle | .exchanging _ | .relaxing _ | .returning _ => False

/-- The lock of a holder or of nobody -/
def lockOf (holder : Option Id) : PiscesSpinlock where
  rawLock := if holder.isSome then 1 else 0

/-- The CPUs and an object whose calls take effect at one moment -/
structure Follows (routine : Routine Data Call Point Answer) (invariant : Data → Prop)
    (serve : Data → Call → Option (Data × Answer)) (holder : Option Id)
    (machine : Machine Data Call Point Answer Id) (object : Object Data Id Call Answer) : Prop where
  history : object.history = machine.history
  stage : object.stage = Phase.stage ∘ machine.phase
  tracks : Tracks id Phase.holds machine.phase holder
  lock : machine.lock = lockOf holder
  ordered : invariant object.data
  free : holder = none → machine.data = object.data
  held : ∀ cpu, holder = some cpu → Section routine serve object.data machine.data (machine.phase cpu)

variable {routine : Routine Data Call Point Answer} {invariant : Data → Prop}
  {serve : Data → Call → Option (Data × Answer)} {holder : Option Id}
  {machine next : Machine Data Call Point Answer Id} {object : Object Data Id Call Answer} {cpu : Id} {call : Call}
  {point : Point} {answer : Answer}

theorem xchg_free : piscesXchg8 (lockOf (none : Option Id)) 1 = (0, lockOf (some cpu)) := by
  simp only [lockOf, Option.isSome_none, Option.isSome_some, Bool.false_eq_true, if_false, if_true]
  decide

theorem xchg_held : piscesXchg8 (lockOf (some cpu)) 1 = (1, lockOf (some cpu)) := by
  simp only [lockOf, Option.isSome_some, if_true]
  decide

namespace Follows

section Stage

variable (follows : Follows routine invariant serve holder machine object)

include follows

theorem stage_of {stage : Stage Call Answer} (at_ : (machine.phase cpu).stage = stage) :
    object.stage cpu = stage := by
  rw [follows.stage, Function.comp_apply, at_]

theorem not_holding {holding : Id} (outside : (machine.phase cpu).holds = false) (held : holder = some holding) :
    holding ≠ cpu := by
  rintro rfl
  have inside := (follows.tracks holding).mpr held
  rw [outside] at inside
  cases inside

theorem holding (inside : (machine.phase cpu).holds = true) : holder = some cpu :=
  (follows.tracks cpu).mp inside

end Stage

variable [DecidableEq Id]

/-- A CPU that does not hold the lock moves on; what its caller sees may change
with what the callers of the object see. -/
theorem outside (phase : Phase Call Point Answer) (history : List (Event Id Call Answer))
    (follows : Follows routine invariant serve holder machine object)
    (before : (machine.phase cpu).holds = false) (after : phase.holds = false) :
    Follows routine invariant serve holder { machine.become cpu phase with history := history }
      { object with stage := Function.update object.stage cpu phase.stage, history := history } where
  history := rfl
  stage := by rw [follows.stage, Machine.become, Function.comp_update]
  tracks := follows.tracks.keep (by rw [before, after])
  lock := follows.lock
  ordered := follows.ordered
  free := follows.free
  held := by
    intro holding held
    simp only [Machine.become, Function.update_of_ne (follows.not_holding before held)]
    exact follows.held holding held

/-- The object is where it was while a CPU works for one call. -/
theorem silent (cpu : Id) (phase : Phase Call Point Answer)
    (follows : Follows routine invariant serve holder machine object)
    (same : phase.stage = (machine.phase cpu).stage) :
    { object with stage := Function.update object.stage cpu phase.stage, history := machine.history } = object := by
  have stage : Function.update object.stage cpu phase.stage = object.stage := by
    rw [same, ← follows.stage_of rfl]
    exact Function.update_eq_self cpu object.stage
  rw [stage, ← follows.history]

/-- The lock is taken. -/
theorem take (follows : Follows routine invariant serve none machine object)
    (implements : routine.Implements invariant serve) (waits : machine.phase cpu = .exchanging call) :
    Follows routine invariant serve (some cpu)
      { machine.become cpu (.inside call (routine.enter call)) with lock := lockOf (some cpu) } object where
  history := follows.history
  stage := by
    have same := congrArg Object.stage (follows.silent cpu (.inside call (routine.enter call)) (by rw [waits]; rfl))
    rw [Machine.become, Function.comp_update, ← follows.stage]
    exact same.symm
  tracks := follows.tracks.take Function.injective_id rfl rfl
  lock := rfl
  ordered := follows.ordered
  free := by
    intro free
    cases free
  held := by
    rintro holding held
    cases held
    obtain ⟨after, answer, served, _, finishes⟩ := implements object.data call follows.ordered
    rw [← follows.free rfl] at finishes
    simp only [Machine.become, Function.update_self]
    exact ⟨after, answer, served, finishes⟩

/-- The holder makes an access. -/
theorem work {phase : Phase Call Point Answer} {data : Data}
    (follows : Follows routine invariant serve holder machine object)
    (before : (machine.phase cpu).holds = true) (after : phase.holds = true)
    (same : phase.stage = (machine.phase cpu).stage) (rest : Section routine serve object.data data phase) :
    Follows routine invariant serve holder { machine.become cpu phase with data := data } object where
  history := follows.history
  stage := by
    have same := congrArg Object.stage (follows.silent cpu phase same)
    rw [Machine.become, Function.comp_update, ← follows.stage]
    exact same.symm
  tracks := follows.tracks.keep (by rw [before, after])
  lock := follows.lock
  ordered := follows.ordered
  free := by
    intro free
    rw [follows.holding before] at free
    cases free
  held := by
    intro holding held
    rw [follows.holding before] at held
    cases held
    simp only [Machine.become, Function.update_self]
    exact rest

/-- The lock is given back, and the call takes effect. -/
theorem give (follows : Follows routine invariant serve holder machine object)
    (implements : routine.Implements invariant serve) (ends : machine.phase cpu = .unlocking call answer) :
    serve object.data call = some (machine.data, answer) ∧
      Follows routine invariant serve none { machine.become cpu (.returning answer) with lock := piscesSpinUnlock }
        { object with data := machine.data, stage := Function.update object.stage cpu (.decided answer) } := by
  have inside : (machine.phase cpu).holds = true := by
    rw [ends]
    rfl
  have held := follows.holding inside
  have served := follows.held cpu held
  rw [ends] at served
  have ordered : invariant machine.data := by
    obtain ⟨after, answer, computed, ordered, _⟩ := implements object.data call follows.ordered
    rw [served] at computed
    cases computed
    exact ordered
  refine ⟨served, ?_⟩
  exact
    { history := follows.history
      stage := by
        rw [Machine.become, Function.comp_update, ← follows.stage]
        rfl
      tracks := follows.tracks.give Function.injective_id (by rw [ends]; rfl) rfl
      lock := rfl
      ordered := ordered
      free := fun _ => rfl
      held := fun holding held => nomatch held }

end Follows

section Runs

variable [DecidableEq Id] {start : Data}

/-- The object does what a step of the CPUs asks for, if anything. -/
def Matched (routine : Routine Data Call Point Answer) (invariant : Data → Prop)
    (serve : Data → Call → Option (Data × Answer)) (start : Data) (next : Machine Data Call Point Answer Id)
    (object : Object Data Id Call Answer) : Prop :=
  ∃ holder after, Follows routine invariant serve holder next after ∧
    (Atomic.system serve start).Path anyAction object after

theorem Follows.matched_silent {phase : Phase Call Point Answer}
    (follows : Follows routine invariant serve holder machine object)
    (before : (machine.phase cpu).holds = false) (after : phase.holds = false)
    (same : phase.stage = (machine.phase cpu).stage) :
    Matched routine invariant serve start (machine.become cpu phase) object := by
  have moved := follows.outside phase machine.history before after
  rw [follows.silent cpu phase same] at moved
  exact ⟨holder, object, moved, .refl⟩

theorem Follows.matched_exchange (follows : Follows routine invariant serve holder machine object)
    (implements : routine.Implements invariant serve) (at_ : machine.phase cpu = .exchanging call)
    (stepped : machine.step routine (.move cpu) = some next) : Matched routine invariant serve start next object := by
  simp only [Machine.step, at_, follows.lock, Option.some.injEq] at stepped
  subst stepped
  cases holder with
  | none =>
      rw [@xchg_free _ cpu]
      exact ⟨some cpu, object, follows.take implements at_, .refl⟩
  | some holding =>
      rw [xchg_held, ← follows.lock]
      exact follows.matched_silent (by rw [at_]; rfl) rfl (by rw [at_]; rfl)

theorem Follows.matched_inside (follows : Follows routine invariant serve holder machine object)
    (at_ : machine.phase cpu = .inside call point)
    (stepped : machine.step routine (.move cpu) = some next) : Matched routine invariant serve start next object := by
  have held := follows.held cpu (follows.holding (by rw [at_]; rfl))
  rw [at_] at held
  obtain ⟨after, answer, served, finishes⟩ := held
  rcases finishes.cases_step with last | ⟨middle, following, more, rest⟩
  · simp only [Machine.step, at_, last, Option.some.injEq] at stepped
    subst stepped
    exact ⟨holder, object, follows.work (by rw [at_]; rfl) rfl (by rw [at_]; rfl) served, .refl⟩
  · simp only [Machine.step, at_, more, Option.some.injEq] at stepped
    subst stepped
    exact ⟨holder, object,
      follows.work (by rw [at_]; rfl) rfl (by rw [at_]; rfl) ⟨after, answer, served, rest⟩, .refl⟩

theorem Follows.matched (follows : Follows routine invariant serve holder machine object)
    (implements : routine.Implements invariant serve) {label : Label Id Call}
    (stepped : machine.step routine label = some next) : Matched routine invariant serve start next object := by
  cases label with
  | call cpu call =>
      cases at_ : machine.phase cpu with
      | idle =>
          simp only [Machine.step, at_, Option.some.injEq] at stepped
          subst stepped
          have invoked := @Object.invoke_eq _ _ _ _ _ serve object cpu call (follows.stage_of (by rw [at_]; rfl))
          rw [follows.history] at invoked
          exact ⟨holder, _, follows.outside (.exchanging call) _ (by rw [at_]; rfl) rfl, Object.acts start invoked⟩
      | exchanging _ | relaxing _ | inside _ _ | unlocking _ _ | returning _ =>
          simp only [Machine.step, at_, reduceCtorEq] at stepped
  | move cpu =>
      cases at_ : machine.phase cpu with
      | idle => simp only [Machine.step, at_, reduceCtorEq] at stepped
      | exchanging call => exact follows.matched_exchange implements at_ stepped
      | relaxing call =>
          simp only [Machine.step, at_, Option.some.injEq] at stepped
          subst stepped
          apply follows.matched_silent (by rw [at_]; rfl)
          · split <;> rfl
          · rw [at_]
            split <;> rfl
      | inside call point => exact follows.matched_inside at_ stepped
      | unlocking call answer =>
          simp only [Machine.step, at_, Option.some.injEq] at stepped
          subst stepped
          obtain ⟨served, given⟩ := follows.give implements at_
          have decided := Object.decide_eq (follows.stage_of (by rw [at_]; rfl)) served
          exact ⟨none, _, given, Object.acts start decided⟩
      | returning answer =>
          simp only [Machine.step, at_, Option.some.injEq] at stepped
          subst stepped
          have returned := @Object.return_eq _ _ _ _ _ serve object cpu answer (follows.stage_of (by rw [at_]; rfl))
          rw [follows.history] at returned
          exact ⟨holder, _, follows.outside .idle _ (by rw [at_]; rfl) rfl, Object.acts start returned⟩

/-- The CPUs run as the object does. -/
def Simulated (routine : Routine Data Call Point Answer) (invariant : Data → Prop)
    (serve : Data → Call → Option (Data × Answer)) (start : Data) (machine : Machine Data Call Point Answer Id) : Prop :=
  ∃ holder object, Follows routine invariant serve holder machine object ∧
    (Atomic.system serve start).Reachable anyAction object

theorem Simulated.step (implements : routine.Implements invariant serve)
    (simulated : Simulated routine invariant serve start machine) {label : Label Id Call}
    (stepped : machine.step routine label = some next) : Simulated routine invariant serve start next := by
  obtain ⟨holder, object, follows, reached⟩ := simulated
  obtain ⟨holder, after, follows, path⟩ := follows.matched implements stepped
  exact ⟨holder, after, follows, reached.extend path⟩

theorem simulated_of_reachable (implements : routine.Implements invariant serve) (ordered : invariant start)
    (reached : (system routine start).Reachable anyLabel machine) :
    Simulated routine invariant serve start machine := by
  refine reached.invariant ?_ fun simulated _ stepped => simulated.step implements stepped
  rintro machine ⟨lock, data, idle, history⟩
  refine ⟨none, ⟨start, fun _ => .idle, []⟩, ?_, ⟨_, ⟨rfl, fun _ => rfl, rfl⟩, .refl⟩⟩
  exact
    { history := history.symm
      stage := by
        funext cpu
        rw [Function.comp_apply, idle]
        rfl
      tracks := by
        intro cpu
        rw [idle]
        exact iff_of_false Bool.false_ne_true nofun
      lock := lock
      ordered := ordered
      free := fun _ => data
      held := fun cpu held => nomatch held }

/-! ## Calls return -/

theorem moves (start : Data) (stepped : machine.step routine (.move cpu) = some next) :
    (system routine start).Path movesOnly machine next :=
  .single (show movesOnly machine (.move cpu) from trivial) stepped

theorem Simulated.follow (implements : routine.Implements invariant serve)
    (simulated : Simulated routine invariant serve start machine)
    (path : (system routine start).Path movesOnly machine next) : Simulated routine invariant serve start next :=
  path.invariant simulated fun simulated _ stepped => simulated.step implements stepped

/-- The accesses that are left of a procedure are made. -/
theorem finish_path {after : Data} (start : Data) (finishes : routine.Finishes machine.data point after answer)
    (at_ : machine.phase cpu = .inside call point) :
    ∃ next, (system routine start).Path movesOnly machine next ∧
      next.phase = Function.update machine.phase cpu (.unlocking call answer) := by
  generalize found : machine.data = data at finishes
  induction finishes generalizing machine with
  | @last data after point answer stepped =>
      have moved : machine.step routine (.move cpu) =
          some { machine.become cpu (.unlocking call answer) with data := after } := by
        simp only [Machine.step, at_, found, stepped]
      exact ⟨_, moves start moved, rfl⟩
  | @next data middle after point following answer stepped rest ih =>
      have moved : machine.step routine (.move cpu) =
          some { machine.become cpu (.inside call following) with data := middle } := by
        simp only [Machine.step, at_, found, stepped]
      obtain ⟨next, path, phase⟩ := @ih { machine.become cpu (.inside call following) with data := middle }
        (Function.update_self ..) rfl
      refine ⟨next, (moves start moved).trans path, ?_⟩
      rw [phase, Machine.become, Function.update_idem]

theorem unlock_path (start : Data) (at_ : machine.phase cpu = .unlocking call answer) :
    ∃ next, (system routine start).Path movesOnly machine next ∧
      next.phase = Function.update machine.phase cpu (.returning answer) ∧ next.lock = lockOf (none : Option Id) := by
  have moved : machine.step routine (.move cpu) =
      some { machine.become cpu (.returning answer) with lock := piscesSpinUnlock } := by
    simp only [Machine.step, at_]
  exact ⟨_, moves start moved, rfl, rfl⟩

/-- The holder comes to give the lock back. -/
theorem release_path (start : Data) (follows : Follows routine invariant serve (some cpu) machine object) :
    ∃ next answer, (system routine start).Path movesOnly machine next ∧
      next.phase = Function.update machine.phase cpu (.returning answer) ∧ next.lock = lockOf (none : Option Id) := by
  have held := follows.held cpu rfl
  cases at_ : machine.phase cpu with
  | inside call point =>
      rw [at_] at held
      obtain ⟨after, answer, _, finishes⟩ := held
      obtain ⟨middle, first, phase⟩ := finish_path start finishes at_
      have ends : middle.phase cpu = .unlocking call answer := by rw [phase, Function.update_self]
      obtain ⟨next, second, left, free⟩ := unlock_path start ends
      refine ⟨next, answer, first.trans second, ?_, free⟩
      rw [left, phase, Function.update_idem]
  | unlocking call answer =>
      obtain ⟨next, path, left, free⟩ := unlock_path start at_
      exact ⟨next, answer, path, left, free⟩
  | idle | exchanging _ | relaxing _ | returning _ =>
      rw [at_] at held
      exact held.elim

theorem exchange_path (start : Data) (free : machine.lock = lockOf (none : Option Id))
    (at_ : machine.phase cpu = .exchanging call) :
    ∃ next, (system routine start).Path movesOnly machine next ∧
      next.phase = Function.update machine.phase cpu (.inside call (routine.enter call)) := by
  have moved : machine.step routine (.move cpu) =
      some { machine.become cpu (.inside call (routine.enter call)) with lock := lockOf (some cpu) } := by
    simp only [Machine.step, at_, free, @xchg_free _ cpu]
    rfl
  exact ⟨_, moves start moved, rfl⟩

/-- A CPU that waits takes a free lock. -/
theorem take_path (start : Data) (free : machine.lock = lockOf (none : Option Id))
    (at_ : machine.phase cpu = .exchanging call ∨ machine.phase cpu = .relaxing call) :
    ∃ next, (system routine start).Path movesOnly machine next ∧
      next.phase = Function.update machine.phase cpu (.inside call (routine.enter call)) := by
  rcases at_ with at_ | at_
  · exact exchange_path start free at_
  · have moved : machine.step routine (.move cpu) = some (machine.become cpu (.exchanging call)) := by
      simp only [Machine.step, at_, free]
      rfl
    have ready : (machine.become cpu (.exchanging call)).phase cpu = .exchanging call := Function.update_self ..
    obtain ⟨next, path, phase⟩ := exchange_path start (by exact free) ready
    refine ⟨next, (moves start moved).trans path, ?_⟩
    rw [phase, Machine.become, Function.update_idem]

/-- The end of a call -/
def Returns (routine : Routine Data Call Point Answer) (start : Data) (machine : Machine Data Call Point Answer Id)
    (cpu : Id) : Prop :=
  ∃ after answer history, (system routine start).Path movesOnly machine after ∧ after.phase cpu = .idle ∧
    after.history = .returned cpu answer :: history

theorem Returns.after (path : (system routine start).Path movesOnly machine next)
    (returns : Returns routine start next cpu) :
    Returns routine start machine cpu := by
  obtain ⟨after, answer, history, rest, idle, last⟩ := returns
  exact ⟨after, answer, history, path.trans rest, idle, last⟩

theorem returns_of_returning (start : Data) (at_ : machine.phase cpu = .returning answer) :
    Returns routine start machine cpu := by
  have moved : machine.step routine (.move cpu) =
      some { machine.become cpu .idle with history := .returned cpu answer :: machine.history } := by
    simp only [Machine.step, at_]
  refine ⟨_, answer, machine.history, moves start moved, ?_, rfl⟩
  simp only [Machine.become, Function.update_self]

theorem returns_of_holding (simulated : Simulated routine invariant serve start machine)
    (holds : (machine.phase cpu).holds = true) : Returns routine start machine cpu := by
  obtain ⟨holder, object, follows, _⟩ := simulated
  have held := follows.holding holds
  subst held
  obtain ⟨next, answer, path, phase, _⟩ := release_path start follows
  exact (returns_of_returning start (by rw [phase, Function.update_self])).after path

/-- Whoever holds the lock gives it back while the others wait. -/
theorem free_path (simulated : Simulated routine invariant serve start machine)
    (outside : (machine.phase cpu).holds = false) :
    ∃ next, (system routine start).Path movesOnly machine next ∧ next.phase cpu = machine.phase cpu ∧
      next.lock = lockOf (none : Option Id) := by
  obtain ⟨holder, object, follows, _⟩ := simulated
  cases holder with
  | none => exact ⟨machine, .refl, rfl, follows.lock⟩
  | some holding =>
      have other := follows.not_holding outside rfl
      obtain ⟨next, _, path, phase, free⟩ := release_path start follows
      exact ⟨next, path, by rw [phase, Function.update_of_ne other.symm], free⟩

theorem returns_of_waiting (implements : routine.Implements invariant serve)
    (simulated : Simulated routine invariant serve start machine)
    (at_ : machine.phase cpu = .exchanging call ∨ machine.phase cpu = .relaxing call) :
    Returns routine start machine cpu := by
  have outside : (machine.phase cpu).holds = false := by
    rcases at_ with at_ | at_ <;> rw [at_] <;> rfl
  obtain ⟨middle, first, same, free⟩ := free_path simulated outside
  rw [← same] at at_
  obtain ⟨inside, second, phase⟩ := take_path start free at_
  have path := first.trans second
  exact (returns_of_holding (simulated.follow implements path)
    (by rw [phase, Function.update_self]; rfl)).after path

theorem returns_of_busy (implements : routine.Implements invariant serve)
    (simulated : Simulated routine invariant serve start machine) (busy : machine.phase cpu ≠ .idle) :
    Returns routine start machine cpu := by
  cases at_ : machine.phase cpu with
  | idle => exact absurd at_ busy
  | exchanging call => exact returns_of_waiting implements simulated (.inl at_)
  | relaxing call => exact returns_of_waiting implements simulated (.inr at_)
  | inside _ _ | unlocking _ _ => exact returns_of_holding simulated (by rw [at_]; rfl)
  | returning answer => exact returns_of_returning start at_

/-- No access of a CPU faults. -/
theorem move_of_busy (simulated : Simulated routine invariant serve start machine) (busy : machine.phase cpu ≠ .idle) :
    ∃ next, machine.step routine (.move cpu) = some next := by
  obtain ⟨holder, object, follows, _⟩ := simulated
  cases at_ : machine.phase cpu with
  | idle => exact absurd at_ busy
  | exchanging _ | relaxing _ | unlocking _ _ | returning _ =>
      simp only [Machine.step, at_]
      exact ⟨_, rfl⟩
  | inside call point =>
      have held := follows.held cpu (follows.holding (by rw [at_]; rfl))
      rw [at_] at held
      obtain ⟨after, answer, _, finishes⟩ := held
      rcases finishes.cases_step with last | ⟨middle, following, more, _⟩
      · simp only [Machine.step, at_, last]
        exact ⟨_, rfl⟩
      · simp only [Machine.step, at_, more]
        exact ⟨_, rfl⟩

theorem unique_holder (simulated : Simulated routine invariant serve start machine) {other : Id}
    (left : (machine.phase cpu).holds = true) (right : (machine.phase other).holds = true) : cpu = other := by
  obtain ⟨holder, object, follows, _⟩ := simulated
  exact follows.tracks.unique Function.injective_id left right

/-- What the lock gives the procedure that runs under it, on any number of CPUs:
there is one holder at most, every CPU with a call can go on and comes to its
return without further calls, and the calls might each have been a single step. -/
theorem spin_lock_atomic (implements : routine.Implements invariant serve) (ordered : invariant start)
    (reached : (system routine start).Reachable anyLabel machine) :
    (∀ cpu other, (machine.phase cpu).holds = true → (machine.phase other).holds = true → cpu = other) ∧
      (∀ cpu, machine.phase cpu ≠ .idle →
        (∃ next, machine.step routine (.move cpu) = some next) ∧ Returns routine start machine cpu) ∧
      ∃ object, (Atomic.system serve start).Reachable anyAction object ∧ object.history = machine.history := by
  have simulated := simulated_of_reachable implements ordered reached
  refine ⟨fun cpu other left right => unique_holder simulated left right, ?_, ?_⟩
  · intro cpu busy
    exact ⟨move_of_busy simulated busy, returns_of_busy implements simulated busy⟩
  · obtain ⟨holder, object, follows, same⟩ := simulated
    exact ⟨object, same, follows.history⟩

end Runs

/-- A counter read in one access and written in another -/
def counter : Routine Nat Unit (Option Nat) Nat where
  enter _ := none
  step
    | count, none => some (count, .inl (some count))
    | _, some seen => some (seen + 1, .inr seen)

def count (value : Nat) (_ : Unit) : Option (Nat × Nat) :=
  some (value + 1, value)

theorem counter_implements : counter.Implements (fun _ => True) count := by
  intro value _ _
  exact ⟨value + 1, value, rfl, trivial, .next rfl (.last rfl)⟩

def counterStart : Machine Nat Unit (Option Nat) Nat Bool where
  lock := piscesLockInit
  data := 0
  phase _ := .idle
  history := []

/-- One CPU counts while the other waits, then the other does. -/
theorem spin_lock_atomic_counter :
    ∃ machine : Machine Nat Unit (Option Nat) Nat Bool, (system counter 0).Reachable anyLabel machine ∧
      machine.history = [.returned false 1, .returned true 0, .invoked false (), .invoked true ()] ∧
      ∃ object, (Atomic.system count 0).Reachable anyAction object ∧ object.history = machine.history := by
  obtain ⟨machine, executed, observed⟩ := Option.map_eq_some_iff.mp
    (show ((system counter 0).run (fun _ _ => true) counterStart
      [.call true (), .call false (), .move true, .move false, .move true, .move true, .move false, .move true,
        .move false, .move true, .move false, .move false, .move false, .move false, .move false]).map (·.history) =
        some [.returned false 1, .returned true 0, .invoked false (), .invoked true ()] by decide)
  have reached : (system counter 0).Reachable anyLabel machine :=
    ⟨counterStart, ⟨rfl, rfl, fun _ => rfl, rfl⟩, System.run_path (fun _ => trivial) executed⟩
  exact ⟨machine, reached, observed, (spin_lock_atomic counter_implements trivial reached).2.2⟩

end Pisces.Lock
