import Pisces.Mutex
import Pisces.Xbuf.Ownership

/-! # Interrupts on many processors

`irq_handler` as any number of processors run it at the same time, with the
lock that its test and its raising of ACTIVE stand under.  The calls and the
receivers are those of a channel.
-/

namespace Pisces.Interrupts

open Transition Channel

/-- Control points of `irq_handler` on one processor. -/
inductive Cpu where
  | idle
  | lock
  | test
  | raise
  | unlock (validIpi : Bool)
  | handler
  | noHandler
deriving DecidableEq, Repr

/-- The channel's own interrupt handler stays idle: each processor has one, with
`irqLock` between them.  `invoked` counts the calls of `recv_handler`. -/
structure State where
  channel : Channel.State
  cpus : Nat → Cpu
  irqLock : Option Nat
  invoked : Nat

/-- `merge` makes one interrupt of two. -/
inductive Action where
  | channel (action : Channel.Action)
  | deliver (cpu : Nat)
  | spurious (cpu : Nat)
  | merge
  | irq (cpu : Nat)
deriving DecidableEq, Repr

namespace State

variable (state : State)

def xbuf : Xbuf := state.channel.xbuf

def setCpu (cpu : Nat) (point : Cpu) : State :=
  { state with cpus := Function.update state.cpus cpu point }

def setXbuf (xbuf : Xbuf) : State :=
  { state with channel := { state.channel with xbuf } }

end State

/-- The two flags are tested in one load of the word they are in. -/
def irqStep (params : Params) (state : State) (cpu : Nat) : Option State :=
  match state.cpus cpu with
  | .idle => none
  | .lock => if state.irqLock = none then some ({ state with irqLock := some cpu }.setCpu cpu .test) else none
  | .test =>
      some (state.setCpu cpu
        (if state.xbuf.flags.pending && !state.xbuf.flags.active then .raise else .unlock false))
  | .raise => some ((state.setXbuf (state.xbuf.raiseFlag xbufActive)).setCpu cpu (.unlock true))
  | .unlock validIpi =>
      some ({ state with irqLock := none }.setCpu cpu
        (if validIpi then (if params.hasHandler then .handler else .noHandler) else .idle))
  | .handler => some ({ state with invoked := state.invoked + 1 }.setCpu cpu .idle)
  | .noHandler => some ((state.setXbuf (state.xbuf.raiseFlag xbufComplete)).setCpu cpu .idle)

/-- What a channel does on its own account, with one run of `pisces_xbuf_recv`
and `pisces_xbuf_complete` for each call of the handler. -/
def channelStep (params : Params) (state : State) : Channel.Action → Option State
  | .deliver | .spurious | .irq => none
  | .spawn =>
      if state.channel.started < state.invoked then
        (Channel.step params state.channel .spawn).map fun channel => { state with channel }
      else none
  | action => (Channel.step params state.channel action).map fun channel => { state with channel }

def step (params : Params) (state : State) : Action → Option State
  | .channel action => channelStep params state action
  | .deliver cpu =>
      if state.cpus cpu = .idle ∧ 0 < state.channel.ipis then
        some ({ state with channel := { state.channel with ipis := state.channel.ipis - 1 } }.setCpu cpu .lock)
      else none
  | .spurious cpu => if state.cpus cpu = .idle then some (state.setCpu cpu .lock) else none
  | .merge =>
      if 1 < state.channel.ipis then some { state with channel := { state.channel with ipis := state.channel.ipis - 1 } }
      else none
  | .irq cpu => irqStep params state cpu

structure Initial (size : Nat) (state : State) : Prop where
  channel : Channel.Initial size state.channel
  cpus : ∀ cpu, state.cpus cpu = .idle
  irqLock : state.irqLock = none
  invoked : state.invoked = 0

def system (params : Params) (size : Nat) : System State Action where
  initial := Initial size
  step := step params

/-- `pisces_xbuf_enable` is called once, before the buffer is used. -/
def Enabled (_ : State) (action : Action) : Prop :=
  ∀ ctl, action ≠ .channel (.set ctl)

variable {params : Params} {state next : State} {action : Action} {cpu : Nat} {size : Nat}

/-! ## What a step can do -/

/-- Everything a step of one processor can do. -/
inductive IrqMove (params : Params) (state : State) (cpu : Nat) : State → Prop where
  | lock (point : state.cpus cpu = .lock) (free : state.irqLock = none) :
      IrqMove params state cpu ({ state with irqLock := some cpu }.setCpu cpu .test)
  | pass (point : state.cpus cpu = .test) (pending : state.xbuf.flags.pending = true)
      (inactive : state.xbuf.flags.active = false) : IrqMove params state cpu (state.setCpu cpu .raise)
  | refuse (point : state.cpus cpu = .test)
      (taken : ¬ (state.xbuf.flags.pending = true ∧ state.xbuf.flags.active = false)) :
      IrqMove params state cpu (state.setCpu cpu (.unlock false))
  | raise (point : state.cpus cpu = .raise) :
      IrqMove params state cpu ((state.setXbuf (state.xbuf.raiseFlag xbufActive)).setCpu cpu (.unlock true))
  | ignore (point : state.cpus cpu = .unlock false) :
      IrqMove params state cpu ({ state with irqLock := none }.setCpu cpu .idle)
  | accept (point : state.cpus cpu = .unlock true) :
      IrqMove params state cpu
        ({ state with irqLock := none }.setCpu cpu (if params.hasHandler then .handler else .noHandler))
  | handler (point : state.cpus cpu = .handler) :
      IrqMove params state cpu ({ state with invoked := state.invoked + 1 }.setCpu cpu .idle)
  | noHandler (point : state.cpus cpu = .noHandler) :
      IrqMove params state cpu ((state.setXbuf (state.xbuf.raiseFlag xbufComplete)).setCpu cpu .idle)

theorem irqStep_move (stepped : irqStep params state cpu = some next) : IrqMove params state cpu next := by
  cases point : state.cpus cpu with
  | idle => simp [irqStep, point] at stepped
  | lock =>
      simp only [irqStep, point] at stepped
      split at stepped
      · cases stepped
        exact .lock point ‹_›
      · cases stepped
  | test =>
      simp only [irqStep, point] at stepped
      cases stepped
      split
      · rename_i passed
        rw [Bool.and_eq_true, Bool.not_eq_true'] at passed
        exact .pass point passed.1 passed.2
      · rename_i failed
        rw [Bool.and_eq_true, Bool.not_eq_true'] at failed
        exact .refuse point failed
  | raise =>
      simp only [irqStep, point] at stepped
      cases stepped
      exact .raise point
  | unlock validIpi =>
      simp only [irqStep, point] at stepped
      cases stepped
      cases validIpi with
      | false => exact .ignore point
      | true => exact .accept point
  | handler =>
      simp only [irqStep, point] at stepped
      cases stepped
      exact .handler point
  | noHandler =>
      simp only [irqStep, point] at stepped
      cases stepped
      exact .noHandler point

/-- The channel moves as it does alone; a receiver begins only after a call of
the handler. -/
theorem channelStep_move {action : Channel.Action} (stepped : channelStep params state action = some next) :
    ∃ channel, Channel.step params state.channel action = some channel ∧ next = { state with channel } ∧
      action ≠ .deliver ∧ action ≠ .spurious ∧ action ≠ .irq ∧
      (action = .spawn → state.channel.started < state.invoked) := by
  cases action with
  | deliver | spurious | irq => cases stepped
  | spawn =>
      simp only [channelStep] at stepped
      split at stepped
      · rename_i called
        obtain ⟨channel, moved, same⟩ := Option.map_eq_some_iff.mp stepped
        exact ⟨channel, moved, same.symm, by simp, by simp, by simp, fun _ => called⟩
      · cases stepped
  | start | call | signal | receiver | disable | lower | enable | set =>
      obtain ⟨channel, moved, same⟩ := Option.map_eq_some_iff.mp stepped
      exact ⟨channel, moved, same.symm, by simp, by simp, by simp, by simp⟩

/-- Everything a step can do. -/
inductive Move (params : Params) (state : State) : Action → State → Prop where
  | channel {action : Channel.Action} {channel : Channel.State}
      (moved : Channel.step params state.channel action = some channel) :
      Move params state (.channel action) { state with channel }
  | deliver {cpu : Nat} (idle : state.cpus cpu = .idle) (sent : 0 < state.channel.ipis) :
      Move params state (.deliver cpu)
        ({ state with channel := { state.channel with ipis := state.channel.ipis - 1 } }.setCpu cpu .lock)
  | spurious {cpu : Nat} (idle : state.cpus cpu = .idle) : Move params state (.spurious cpu) (state.setCpu cpu .lock)
  | merge (two : 1 < state.channel.ipis) :
      Move params state .merge { state with channel := { state.channel with ipis := state.channel.ipis - 1 } }
  | irq {cpu : Nat} {next : State} (moved : IrqMove params state cpu next) : Move params state (.irq cpu) next

theorem move_of_step (stepped : step params state action = some next) : Move params state action next := by
  cases action with
  | channel action =>
      obtain ⟨channel, moved, rfl, _⟩ := channelStep_move stepped
      exact .channel moved
  | deliver cpu =>
      simp only [step] at stepped
      split at stepped
      · rename_i delivered
        cases stepped
        exact .deliver delivered.1 delivered.2
      · cases stepped
  | spurious cpu =>
      simp only [step] at stepped
      split at stepped
      · cases stepped
        exact .spurious ‹_›
      · cases stepped
  | merge =>
      simp only [step] at stepped
      split at stepped
      · cases stepped
        exact .merge ‹_›
      · cases stepped
  | irq cpu => exact .irq (irqStep_move stepped)

/-! ## The course of an exchange -/

/-- Where the message of the call that has the buffer stands: the handler is
called by the processor that took it, and one receiver serves it. -/
inductive Stage where
  | free
  | waiting
  | taken (cpu : Nat)
  | called
  | serving (index : Nat)
  | completed
deriving DecidableEq, Repr

def Cpu.holdsLock : Cpu → Bool
  | .test | .raise | .unlock _ => true
  | _ => false

/-- On the way from the successful test to the call of the handler. -/
def Cpu.taking : Cpu → Bool
  | .raise | .unlock true | .handler | .noHandler => true
  | _ => false

/-- Not yet past raising COMPLETE. -/
def early : Receiver → Bool
  | .testActive | .recvLen | .recv _ _ _ | .received _ _ | .testComplete _ | .stage _ _ | .raiseComplete _ => true
  | _ => false

/-- Past the wait for COMPLETE. -/
def concluding : Owner → Bool
  | .testResp | .recvLen | .recv _ _ _ | .finish _ => true
  | _ => false

def Stage.active (cpus : Nat → Cpu) : Stage → Bool
  | .free | .waiting => false
  | .taken cpu => cpus cpu != .raise
  | .called | .serving _ | .completed => true

/-- The flags, the processors, the receivers and the counters at a stage. -/
structure Phase (state : State) (stage : Stage) : Prop where
  pending : state.xbuf.flags.pending = (stage != .free)
  active : state.xbuf.flags.active = stage.active state.cpus
  complete : state.xbuf.flags.complete = (stage == .completed)
  taking : ∀ cpu, (state.cpus cpu).taking = true ↔ stage = .taken cpu
  serving : ∀ index, early (state.channel.receivers index) = true ↔ stage = .serving index
  counted : state.invoked = state.channel.started + if stage = .called then 1 else 0

/-- What one step can make of a stage. -/
inductive Follows (state : State) (action : Action) (next : State) : Stage → Stage → Prop where
  | stay {stage : Stage} (same : next.invoked = state.invoked) : Follows state action next stage stage
  | raise {call : Nat} (acts : action = .channel (.call call)) (point : state.channel.calls call = .raisePending)
      (same : next.invoked = state.invoked) : Follows state action next .free .waiting
  | take {cpu : Nat} (same : next.invoked = state.invoked) : Follows state action next .waiting (.taken cpu)
  | call {cpu : Nat} (one : next.invoked = state.invoked + 1) : Follows state action next (.taken cpu) .called
  | serve {index : Nat} (same : next.invoked = state.invoked) : Follows state action next .called (.serving index)
  | complete {index : Nat} (same : next.invoked = state.invoked) : Follows state action next (.serving index) .completed
  | refuse {cpu : Nat} (same : next.invoked = state.invoked) : Follows state action next (.taken cpu) .completed
  | reset {call : Nat} {resp : Option Bytes} (acts : action = .channel (.call call))
      (point : state.channel.calls call = .owner (.finish resp)) (same : next.invoked = state.invoked) :
      Follows state action next .completed .free

/-- Only one call has the buffer, the lock is held by one processor, and calls
past their wait for COMPLETE have seen it. -/
structure Guarded (state : State) : Prop where
  exclusive : Exclusive state.channel
  locked : Mutex.Tracks id Cpu.holdsLock state.cpus state.irqLock
  concluded : ∀ call point, state.channel.calls call = .owner point → concluding point = true →
    state.xbuf.flags.complete = true

theorem Phase.frame {stage : Stage} (phase : Phase state stage)
    (pending : next.xbuf.flags.pending = state.xbuf.flags.pending)
    (active : next.xbuf.flags.active = state.xbuf.flags.active)
    (complete : next.xbuf.flags.complete = state.xbuf.flags.complete) (cpus : next.cpus = state.cpus)
    (receivers : ∀ index, early (next.channel.receivers index) = early (state.channel.receivers index))
    (started : next.channel.started = state.channel.started) (invoked : next.invoked = state.invoked) :
    Phase next stage where
  pending := pending.trans phase.pending
  active := by rw [cpus, active, phase.active]
  complete := complete.trans phase.complete
  taking := by
    rw [cpus]
    exact phase.taking
  serving := by
    intro index
    rw [receivers]
    exact phase.serving index
  counted := by rw [invoked, started, phase.counted]

/-- A receiver ends by raising COMPLETE, and nothing it does afterwards changes
the flags that an interrupt looks at. -/
theorem receiver_step {xbuf after : Xbuf} {response : Bytes → Bytes} {receiver point : Receiver}
    (stepped : receiver.step xbuf response = some (after, point)) :
    after.flags.active = xbuf.flags.active ∧
      (early receiver = false → early point = false ∧ after.flags.complete = xbuf.flags.complete) ∧
      (early receiver = true → xbuf.flags.active = true →
        early point = true ∧ after.flags.complete = xbuf.flags.complete ∨
          early point = false ∧ after.flags.complete = true) := by
  cases receiver with
  | testActive =>
      cases stepped
      refine ⟨rfl, by simp [early], fun _ active => .inl ⟨?_, rfl⟩⟩
      rw [if_pos active]
      rfl
  | recvLen =>
      cases stepped
      refine ⟨rfl, by simp [early], fun _ _ => .inl ⟨?_, rfl⟩⟩
      unfold enterRecv
      split <;> rfl
  | recv pc len read =>
      cases stepped
      have same := recvData_sameOutside xbuf len read pc
      refine ⟨same.active, by simp [early], fun _ _ => .inl ⟨?_, same.complete⟩⟩
      cases (recvData xbuf len read pc).2 <;> rfl
  | received len read =>
      cases stepped
      exact ⟨rfl, by simp [early], fun _ _ => .inl ⟨rfl, rfl⟩⟩
  | testComplete resp =>
      cases stepped
      refine ⟨rfl, by simp [early], fun _ active => .inl ⟨?_, rfl⟩⟩
      rw [if_pos active]
      split <;> rfl
  | stage pc resp =>
      have same := initStageData_sameControl xbuf resp pc
      cases pc <;> cases stepped <;>
        exact ⟨same.active, by simp [early], fun _ _ => .inl ⟨rfl, same.complete⟩⟩
  | raiseComplete left =>
      cases stepped
      refine ⟨by simp, by simp [early], fun _ _ => .inr ⟨?_, by simp⟩⟩
      unfold enterSend
      split <;> rfl
  | reply pc left =>
      cases stepped
      have same := sendData_sameOutside xbuf left pc
      refine ⟨same.active, fun _ => ⟨?_, same.complete⟩, by simp [early]⟩
      cases (sendData xbuf left pc).2 <;> rfl
  | idle | done | inactive => cases stepped

section Steps

variable {stage : Stage} {channel : Channel.State}

theorem Phase.free_of_clear (phase : Phase state stage) (clear : state.xbuf.flags.pending = false) : stage = .free := by
  have pending := phase.pending
  rw [clear] at pending
  simpa using pending.symm

theorem Phase.completed_of_complete (phase : Phase state stage) (complete : state.xbuf.flags.complete = true) :
    stage = .completed := by
  have same := phase.complete
  rw [complete] at same
  simpa using same.symm

theorem Phase.unserved {later : Stage} (phase : Phase state stage) (before : ∀ index, stage ≠ .serving index)
    (after : ∀ index, later ≠ .serving index) :
    ∀ index, early (state.channel.receivers index) = true ↔ later = .serving index :=
  fun index => iff_of_false (fun began => before index ((phase.serving index).mp began)) (after index)

theorem Phase.untaken {later : Stage} (phase : Phase state stage) (before : ∀ cpu, stage ≠ .taken cpu)
    (after : ∀ cpu, later ≠ .taken cpu) : ∀ cpu, (state.cpus cpu).taking = true ↔ later = .taken cpu :=
  fun cpu => iff_of_false (fun taking => before cpu ((phase.taking cpu).mp taking)) (after cpu)

theorem Phase.receiver_step {index : Nat} {after : Xbuf} {point : Receiver} {received : List Bytes}
    (phase : Phase state stage)
    (stepped : (state.channel.receivers index).step state.channel.xbuf params.response = some (after, point))
    (moved : channel = { state.channel with
      xbuf := after
      receivers := Function.update state.channel.receivers index point
      received }) :
    ∃ stage', Phase { state with channel } stage' ∧ Follows state action { state with channel } stage stage' := by
  obtain ⟨active, late, serves⟩ := Interrupts.receiver_step stepped
  have pending := (Receiver.step_pending stepped).1
  subst moved
  have others : ∀ other, other ≠ index →
      early (Function.update state.channel.receivers index point other) = early (state.channel.receivers other) :=
    fun other apart => by rw [Function.update_of_ne apart]
  have kept (same : early point = early (state.channel.receivers index)) : ∀ other,
      early (Function.update state.channel.receivers index point other) = early (state.channel.receivers other) := by
    intro other
    by_cases mine : other = index
    · rw [mine, Function.update_self, same]
    · exact others other mine
  cases began : early (state.channel.receivers index) with
  | false =>
      obtain ⟨still, complete⟩ := late began
      exact ⟨stage, phase.frame pending active complete rfl (kept (still.trans began.symm)) rfl rfl, .stay rfl⟩
  | true =>
      obtain rfl := (phase.serving index).mp began
      rcases serves began phase.active with ⟨still, complete⟩ | ⟨ends, complete⟩
      · exact ⟨_, phase.frame pending active complete rfl (kept (still.trans began.symm)) rfl rfl, .stay rfl⟩
      · refine ⟨.completed, ⟨pending.trans phase.pending, active.trans phase.active, complete,
          phase.untaken (by simp) (by simp), ?_, phase.counted⟩, .complete rfl⟩
        · intro other
          by_cases mine : other = index
          · subst mine
            simp [ends]
          · rw [others other mine, phase.serving other]
            simpa using fun same => mine same.symm

theorem Phase.owner_step {call : Nat} {owner : Owner} {lock : Option Nat} {ipis : Nat} (phase : Phase state stage)
    (guarded : Guarded state) (point : state.channel.calls call = .owner owner)
    (moved : channel = { state.channel with
      xbuf := (owner.step state.channel.xbuf (params.message call) (params.wantsResp call)).1
      lock
      ipis }.setCall call (owner.step state.channel.xbuf (params.message call) (params.wantsResp call)).2) :
    ∃ stage', Phase { state with channel } stage' ∧
      Follows state (.channel (.call call)) { state with channel } stage stage' := by
  subst moved
  by_cases ends : ∃ resp, owner = .finish resp
  · -- Only a call that has seen COMPLETE resets the flags.
    obtain ⟨resp, rfl⟩ := ends
    obtain rfl := phase.completed_of_complete (guarded.concluded call _ point rfl)
    refine ⟨.free, ⟨?_, ?_, ?_, phase.untaken (by simp) (by simp), phase.unserved (by simp) (by simp), phase.counted⟩,
      .reset rfl point rfl⟩
    · simp [State.xbuf, Owner.step]
    · simp [State.xbuf, Owner.step, Stage.active]
    · simp [State.xbuf, Owner.step]
  · have same := owner.step_sameControl state.channel.xbuf (params.message call) (params.wantsResp call)
      fun resp finishes => ends ⟨resp, finishes⟩
    exact ⟨stage, phase.frame same.pending same.active same.complete rfl (fun _ => rfl) rfl rfl, .stay rfl⟩

theorem Phase.channel_step {action : Channel.Action} (phase : Phase state stage) (guarded : Guarded state)
    (enabled : Enabled state (.channel action)) (stepped : channelStep params state action = some next) :
    ∃ stage', Phase next stage' ∧ Follows state (.channel action) next stage stage' := by
  obtain ⟨channel, moved, rfl, noDeliver, noSpurious, noIrq, called⟩ := channelStep_move stepped
  cases step_move moved with
  | start | lock | testReady | testPending | unlockErr | unlockBusy | wake | signal | disable | enable =>
      exact ⟨stage, phase.frame rfl rfl rfl rfl (fun _ => rfl) rfl rfl, .stay rfl⟩
  | lower =>
      exact ⟨stage, phase.frame (by simp [State.xbuf]) (by simp [State.xbuf]) (by simp [State.xbuf]) rfl
        (fun _ => rfl) rfl rfl, .stay rfl⟩
  | resetFlags point =>
      have clear := guarded.exclusive.clear (.inl point)
      obtain rfl := phase.free_of_clear clear
      refine ⟨.free, phase.frame ?_ ?_ ?_ rfl (fun _ => rfl) rfl rfl, .stay rfl⟩
      · rw [phase.pending]
        simp [State.xbuf]
      · rw [phase.active]
        simp [State.xbuf, Stage.active]
      · rw [phase.complete]
        simp [State.xbuf]
  | raisePending point =>
      have clear := guarded.exclusive.clear (.inr point)
      obtain rfl := phase.free_of_clear clear
      refine ⟨.waiting, ⟨?_, ?_, ?_, phase.untaken (by simp) (by simp), phase.unserved (by simp) (by simp),
        phase.counted⟩,
        .raise rfl point rfl⟩
      · simp [State.xbuf]
      · simpa [State.xbuf, Stage.active] using phase.active
      · simp only [State.xbuf, State.setCall_xbuf, Xbuf.raiseFlag_pending]
        exact phase.complete
  | owner point => exact phase.owner_step guarded point rfl
  | spawn =>
      have behind := called rfl
      have counted := phase.counted
      have once : stage = .called := by
        by_contra other
        rw [if_neg other] at counted
        omega
      subst once
      refine ⟨.serving state.channel.started, ⟨phase.pending, phase.active, phase.complete,
        phase.untaken (by simp) (by simp), ?_, ?_⟩, .serve rfl⟩
      · intro index
        by_cases mine : index = state.channel.started
        · subst mine
          simp [early]
        · have idle := phase.serving index
          simp only [Function.update_of_ne mine, idle]
          simpa using fun same => mine same.symm
      · simpa using counted
  | receiver served => exact phase.receiver_step served rfl
  | set => exact absurd rfl (enabled _)
  | deliver => exact absurd rfl noDeliver
  | spurious => exact absurd rfl noSpurious
  | irqTest | irqRaise | irqNoHandler => exact absurd rfl noIrq

theorem Phase.aside {point : Cpu} {irqLock : Option Nat} {ipis : Nat} (phase : Phase state stage)
    (was : (state.cpus cpu).taking = false) (now : point.taking = false) :
    Phase ({ state with channel := { state.channel with ipis }, irqLock }.setCpu cpu point) stage := by
  have others : ∀ other, other ≠ cpu → Function.update state.cpus cpu point other = state.cpus other :=
    fun other apart => Function.update_of_ne apart ..
  have apart : ∀ other, stage = .taken other → other ≠ cpu := by
    rintro other same rfl
    rw [(phase.taking other).mpr same] at was
    contradiction
  refine ⟨phase.pending, ?_, phase.complete, ?_, phase.serving, phase.counted⟩
  · cases stage with
    | taken other =>
        rw [Stage.active]
        change _ = (Function.update state.cpus cpu point other != .raise)
        rw [others other (apart other rfl)]
        exact phase.active
    | free | waiting | called | serving | completed => exact phase.active
  · intro other
    by_cases mine : other = cpu
    · subst mine
      change (Function.update state.cpus other point other).taking = true ↔ _
      rw [Function.update_self, now]
      refine iff_of_false (by simp) fun same => apart other same rfl
    · change (Function.update state.cpus cpu point other).taking = true ↔ _
      rw [others other mine]
      exact phase.taking other

theorem Phase.holding {point : Cpu} (phase : Phase state (.taken cpu)) (irqLock : Option Nat) (xbuf : Xbuf)
    (now : point.taking = true) (pending : xbuf.flags.pending = state.xbuf.flags.pending)
    (complete : xbuf.flags.complete = state.xbuf.flags.complete) (active : xbuf.flags.active = (point != .raise)) :
    Phase (({ state with irqLock }.setXbuf xbuf).setCpu cpu point) (.taken cpu) := by
  refine ⟨pending.trans phase.pending, ?_, complete.trans phase.complete, ?_, phase.serving, phase.counted⟩
  · change xbuf.flags.active = (Function.update state.cpus cpu point cpu != .raise)
    rw [Function.update_self, active]
  · intro other
    change (Function.update state.cpus cpu point other).taking = true ↔ _
    by_cases mine : other = cpu
    · subst mine
      rw [Function.update_self]
      exact iff_of_true now rfl
    · rw [Function.update_of_ne mine]
      exact phase.taking other

theorem Phase.taking_done (phase : Phase state (.taken cpu)) {later : Stage} (past : ∀ other, later ≠ .taken other) :
    ∀ other, (Function.update state.cpus cpu .idle other).taking = true ↔ later = .taken other := by
  intro other
  refine iff_of_false ?_ (past other)
  by_cases mine : other = cpu
  · subst mine
    simp [Cpu.taking]
  · rw [Function.update_of_ne mine, phase.taking other]
    simpa using fun same => mine same.symm

theorem Phase.taken_active (phase : Phase state (.taken cpu)) (past : state.cpus cpu ≠ .raise) :
    state.xbuf.flags.active = true := by
  rw [phase.active, Stage.active]
  simpa using past

theorem Phase.irq_step (phase : Phase state stage) (guarded : Guarded state)
    (stepped : irqStep params state cpu = some next) :
    ∃ stage', Phase next stage' ∧ Follows state (.irq cpu) next stage stage' := by
  have taken (taking : (state.cpus cpu).taking = true) : stage = .taken cpu := (phase.taking cpu).mp taking
  cases irqStep_move stepped with
  | lock point | refuse point | ignore point =>
      exact ⟨stage, phase.aside (by rw [point]; rfl) rfl, .stay rfl⟩
  | pass point pending inactive =>
      have waits : stage = .waiting := by
        have busy := phase.pending
        have idle := phase.active
        rw [pending] at busy
        rw [inactive] at idle
        cases stage with
        | free => simp at busy
        | waiting => rfl
        | taken other =>
            -- The lock keeps two processors from testing at the same time.
            exfalso
            have raising : state.cpus other = .raise := by simpa [Stage.active] using idle.symm
            have same : cpu = other := guarded.locked.unique Function.injective_id (by rw [point]; rfl)
                (by rw [raising]; rfl)
            rw [same, raising] at point
            cases point
        | called | serving | completed => simp [Stage.active] at idle
      subst waits
      refine ⟨.taken cpu, ⟨phase.pending, ?_, phase.complete, ?_, phase.unserved (by simp) (by simp), phase.counted⟩,
        .take rfl⟩
      · change state.xbuf.flags.active = (Function.update state.cpus cpu .raise cpu != .raise)
        rw [Function.update_self, inactive]
        rfl
      · intro other
        change (Function.update state.cpus cpu .raise other).taking = true ↔ _
        by_cases mine : other = cpu
        · subst mine
          simp [Cpu.taking]
        · rw [Function.update_of_ne mine, phase.taking other]
          simpa using fun same => mine same.symm
  | raise point =>
      obtain rfl := taken (by rw [point]; rfl)
      exact ⟨_, phase.holding state.irqLock _ rfl (by simp) (by simp) (by simp), .stay rfl⟩
  | accept point =>
      obtain rfl := taken (by rw [point]; rfl)
      have active := phase.taken_active (by simp [point])
      refine ⟨.taken cpu, phase.holding none state.xbuf ?_ rfl rfl ?_, .stay rfl⟩
      · split <;> rfl
      · rw [active]
        split <;> rfl
  | handler point =>
      obtain rfl := taken (by rw [point]; rfl)
      have active := phase.taken_active (by simp [point])
      have counted := phase.counted
      refine ⟨.called, ⟨phase.pending, active, phase.complete, phase.taking_done (by simp),
        phase.unserved (by simp) (by simp), ?_⟩, .call rfl⟩
      change state.invoked + 1 = state.channel.started + 1
      rw [counted]
      rfl
  | noHandler point =>
      obtain rfl := taken (by rw [point]; rfl)
      have active := phase.taken_active (by simp [point])
      have pending : state.xbuf.flags.pending = true := phase.pending
      refine ⟨.completed, ⟨?_, ?_, ?_, phase.taking_done (by simp), phase.unserved (by simp) (by simp), phase.counted⟩,
        .refuse rfl⟩
      · change (state.xbuf.raiseFlag xbufComplete).flags.pending = true
        simpa using pending
      · change (state.xbuf.raiseFlag xbufComplete).flags.active = true
        simpa using active
      · change (state.xbuf.raiseFlag xbufComplete).flags.complete = true
        simp

theorem Phase.step (phase : Phase state stage) (guarded : Guarded state) (enabled : Enabled state action)
    (stepped : step params state action = some next) :
    ∃ stage', Phase next stage' ∧ Follows state action next stage stage' := by
  cases move_of_step stepped with
  | channel => exact phase.channel_step guarded enabled stepped
  | deliver idle | spurious idle => exact ⟨stage, phase.aside (by rw [idle]; rfl) rfl, .stay rfl⟩
  | merge => exact ⟨stage, phase.frame rfl rfl rfl rfl (fun _ => rfl) rfl rfl, .stay rfl⟩
  | irq => exact phase.irq_step guarded stepped

end Steps

/-! ## Locks and owners -/

theorem receiver_keeps_complete {xbuf after : Xbuf} {response : Bytes → Bytes} {receiver point : Receiver}
    (stepped : receiver.step xbuf response = some (after, point)) (complete : xbuf.flags.complete = true) :
    after.flags.complete = true := by
  cases receiver with
  | testActive | recvLen | received | testComplete => cases stepped; exact complete
  | recv pc len read =>
      cases stepped
      exact (recvData_sameOutside xbuf len read pc).complete.trans complete
  | stage pc resp =>
      have same := (initStageData_sameControl xbuf resp pc).complete.trans complete
      cases pc <;> cases stepped <;> exact same
  | raiseComplete left => cases stepped; simp
  | reply pc left =>
      cases stepped
      exact (sendData_sameOutside xbuf left pc).complete.trans complete
  | idle | done | inactive => cases stepped

theorem concluding_step {point after : Owner} {xbuf : Xbuf} {message : Bytes} {wants : Bool}
    (moved : (point.step xbuf message wants).2 = .owner after) (past : concluding after = true) :
    concluding point = true ∨ xbuf.flags.complete = true := by
  cases point with
  | unlock =>
      simp only [Owner.step] at moved
      split at moved <;> cases moved <;> cases past
  | stage pc => cases pc <;> cases moved <;> cases past
  | ipi left =>
      simp only [Owner.step, enterSend] at moved
      split at moved <;> cases moved <;> cases past
  | send pc left =>
      simp only [Owner.step] at moved
      cases out : (sendData xbuf left pc).2 <;> rw [out] at moved <;> cases moved <;> cases past
  | waitComplete =>
      simp only [Owner.step] at moved
      split at moved
      · exact .inr ‹_›
      · cases moved
        cases past
  | waitReady =>
      simp only [Owner.step] at moved
      split at moved <;> cases moved
      cases past
  | testResp | recvLen | recv | finish => exact .inl rfl

theorem concluded_step {channel after : Channel.State} {action : Channel.Action} (exclusive : Exclusive channel)
    (enabled : ∀ ctl, action ≠ .set ctl)
    (concluded : ∀ call point, channel.calls call = .owner point → concluding point = true →
      channel.xbuf.flags.complete = true)
    (stepped : Channel.step params channel action = some after) :
    ∀ call point, after.calls call = .owner point → concluding point = true → after.xbuf.flags.complete = true := by
  intro call point reached past
  cases step_move stepped with
  | @start other | @lock other | @wake other | @signal other | @unlockErr other | @unlockBusy other =>
      by_cases mine : call = other
      · simp [mine] at reached
      · exact concluded call point (by simpa [mine] using reached) past
  | @testReady other | @testPending other =>
      by_cases mine : call = other
      · rw [State.setCall_calls, if_pos mine] at reached
        split at reached <;> cases reached
      · exact concluded call point (by simpa [mine] using reached) past
  | @resetFlags other moving =>
      have clear := exclusive.clear (.inl moving)
      by_cases mine : call = other
      · simp [mine] at reached
      · have owns : (channel.calls call).owns = true := by
          rw [State.setCall_calls, if_neg mine] at reached
          change channel.calls call = _ at reached
          rw [reached]
          rfl
        rw [exclusive.marks owns] at clear
        contradiction
  | @raisePending other =>
      by_cases mine : call = other
      · rw [State.setCall_calls, if_pos mine] at reached
        cases reached
        cases past
      · have kept := concluded call point (by simpa [mine] using reached) past
        simpa using kept
  | @owner other owner moving =>
      by_cases mine : call = other
      · subst mine
        rw [State.setCall_calls, if_pos rfl] at reached
        have unfinished : ∀ resp, owner ≠ .finish resp := by
          rintro resp rfl
          cases reached
        have same := (owner.step_sameControl channel.xbuf (params.message call)
            (params.wantsResp call) unfinished).complete
        refine same.trans ?_
        rcases concluding_step reached past with before | complete
        · exact concluded call owner moving before
        · exact complete
      · exfalso
        rw [State.setCall_calls, if_neg mine] at reached
        change channel.calls call = _ at reached
        exact mine (exclusive.unique (by rw [reached]; rfl) (by rw [moving]; rfl))
  | receiver moved => exact receiver_keeps_complete moved (concluded call point reached past)
  | deliver | spurious | irqTest | spawn | disable | enable => exact concluded call point reached past
  | irqRaise | lower =>
      have kept := concluded call point reached past
      simpa using kept
  | irqNoHandler => simp
  | set => exact absurd rfl (enabled _)

theorem Guarded.initial (start : Initial size state) : Guarded state where
  exclusive := .initial start.channel
  locked := by
    intro cpu
    simp [start.cpus cpu, start.irqLock, Cpu.holdsLock]
  concluded := by
    intro call point owner
    rw [start.channel.calls call] at owner
    cases owner

theorem Guarded.irq_step (guarded : Guarded state) (stepped : irqStep params state cpu = some next) : Guarded next := by
  have injective : Function.Injective (id : Nat → Nat) := Function.injective_id
  cases irqStep_move stepped with
  | lock point free =>
      exact ⟨guarded.exclusive, guarded.locked.take injective free rfl, guarded.concluded⟩
  | pass point | refuse point =>
      exact ⟨guarded.exclusive, guarded.locked.keep (by rw [point]; rfl), guarded.concluded⟩
  | raise point =>
      refine ⟨guarded.exclusive.frame guarded.exclusive.locked rfl ?_, guarded.locked.keep (by rw [point]; rfl), ?_⟩
      · change (state.xbuf.raiseFlag xbufActive).flags.pending = _
        simp [State.xbuf]
      · intro call owner reached past
        have complete := guarded.concluded call owner reached past
        change (state.xbuf.raiseFlag xbufActive).flags.complete = true
        simpa using complete
  | ignore point =>
      exact ⟨guarded.exclusive, guarded.locked.give injective (by rw [point]; rfl) rfl, guarded.concluded⟩
  | accept point =>
      refine ⟨guarded.exclusive, guarded.locked.give injective (by rw [point]; rfl) ?_, guarded.concluded⟩
      split <;> rfl
  | handler point =>
      exact ⟨guarded.exclusive, guarded.locked.keep (by rw [point]; rfl), guarded.concluded⟩
  | noHandler point =>
      refine ⟨guarded.exclusive.frame guarded.exclusive.locked rfl ?_, guarded.locked.keep (by rw [point]; rfl), ?_⟩
      · change (state.xbuf.raiseFlag xbufComplete).flags.pending = _
        simp [State.xbuf]
      · intro call owner reached past
        change (state.xbuf.raiseFlag xbufComplete).flags.complete = true
        simp

theorem Guarded.step (guarded : Guarded state) (enabled : Enabled state action)
    (stepped : step params state action = some next) : Guarded next := by
  cases move_of_step stepped with
  | @channel action channel moved =>
      have unset : ∀ ctl, action ≠ .set ctl := fun ctl same => enabled ctl (by rw [same])
      exact ⟨guarded.exclusive.step (fun ctl same => absurd same (unset ctl)) moved, guarded.locked,
        concluded_step guarded.exclusive unset guarded.concluded moved⟩
  | deliver idle =>
      exact ⟨guarded.exclusive.frame guarded.exclusive.locked rfl rfl, guarded.locked.keep (by rw [idle]; rfl),
        guarded.concluded⟩
  | spurious idle => exact ⟨guarded.exclusive, guarded.locked.keep (by rw [idle]; rfl), guarded.concluded⟩
  | merge => exact ⟨guarded.exclusive.frame guarded.exclusive.locked rfl rfl, guarded.locked, guarded.concluded⟩
  | irq => exact guarded.irq_step stepped

/-! ## One exchange -/

/-- The step is not the `reset_flags` with which the call ends its exchange. -/
def Unfinished (call : Nat) (state : State) (action : Action) : Prop :=
  action = .channel (.call call) → ∀ resp, state.channel.calls call ≠ .owner (.finish resp)

theorem owns_step {channel after : Channel.State} {action : Channel.Action} {call : Nat}
    (stepped : Channel.step params channel action = some after) (owns : (after.calls call).owns = true) :
    (channel.calls call).owns = true ∨ channel.calls call = .raisePending := by
  cases step_move stepped with
  | @start other | @lock other | @wake other | @signal other | @unlockErr other | @unlockBusy other | @resetFlags other =>
      by_cases mine : call = other
      · simp [mine, Call.owns] at owns
      · exact .inl (by simpa [mine] using owns)
  | @testReady other | @testPending other =>
      by_cases mine : call = other
      · rw [State.setCall_calls, if_pos mine] at owns
        split at owns <;> cases owns
      · exact .inl (by simpa [mine] using owns)
  | @raisePending other point =>
      by_cases mine : call = other
      · exact .inr (mine ▸ point)
      · exact .inl (by simpa [mine] using owns)
  | @owner other owner point =>
      by_cases mine : call = other
      · left
        rw [mine, point]
        rfl
      · exact .inl (by simpa [mine] using owns)
  | receiver | deliver | spurious | irqTest | irqRaise | irqNoHandler | spawn | disable | enable | lower | set =>
      exact .inl owns

theorem owns_of_step {other : Nat} (stepped : step params state action = some next)
    (owns : (next.channel.calls other).owns = true) :
    (state.channel.calls other).owns = true ∨ state.channel.calls other = .raisePending := by
  cases move_of_step stepped with
  | channel moved => exact owns_step moved owns
  | deliver | spurious | merge => exact .inl owns
  | irq moved => cases moved <;> exact .inl owns

/-- How often the handler has been called when the exchange has got to a stage -/
def Stage.calls : Stage → Nat
  | .free | .waiting | .taken _ => 0
  | .called | .serving _ | .completed => 1

/-- The exchange of `call` goes on, and the handler was called no more often
than the stage says since it had been called `base` times. -/
structure Ongoing (call base : Nat) (state : State) : Prop where
  guarded : Guarded state
  sole : ∀ other, (state.channel.calls other).owns = true → other = call
  stage : ∃ stage, Phase state stage ∧ stage ≠ .free ∧ state.invoked ≤ base + stage.calls

section Exchange

variable {stage : Stage} {call base : Nat}

theorem sole_step (guarded : Guarded state) (phase : Phase state stage) (busy : stage ≠ .free)
    (sole : ∀ other, (state.channel.calls other).owns = true → other = call)
    (stepped : step params state action = some next) :
    ∀ other, (next.channel.calls other).owns = true → other = call := by
  intro other owns
  rcases owns_of_step stepped owns with before | raising
  · exact sole other before
  · exact absurd (phase.free_of_clear (guarded.exclusive.clear (.inr raising))) busy

theorem unreset {resp : Option Bytes} {other : Nat}
    (sole : ∀ other, (state.channel.calls other).owns = true → other = call)
    (unfinished : Unfinished call state action) (acts : action = .channel (.call other)) :
    state.channel.calls other ≠ .owner (.finish resp) := by
  intro point
  obtain rfl := sole other (by rw [point]; rfl)
  exact unfinished acts resp point

theorem Ongoing.step (ongoing : Ongoing call base state) (enabled : Enabled state action)
    (unfinished : Unfinished call state action) (stepped : step params state action = some next) :
    Ongoing call base next := by
  obtain ⟨guarded, sole, stage, phase, busy, bound⟩ := ongoing
  obtain ⟨stage', after, follows⟩ := phase.step guarded enabled stepped
  refine ⟨guarded.step enabled stepped, sole_step guarded phase busy sole stepped, stage', after, ?_⟩
  cases follows with
  | stay same => exact ⟨busy, by rw [same]; exact bound⟩
  | raise => exact absurd rfl busy
  | take same | serve same | complete same =>
      rw [same]
      exact ⟨by simp, bound⟩
  | refuse same =>
      rw [same]
      exact ⟨by simp, Nat.le_succ_of_le bound⟩
  | call one =>
      rw [one]
      exact ⟨by simp, Nat.succ_le_succ bound⟩
  | reset acts point => exact absurd point (unreset sole unfinished acts)

theorem channel_active {channel after : Channel.State} {action : Channel.Action} (enabled : ∀ ctl, action ≠ .set ctl)
    (stepped : Channel.step params channel action = some after) (active : channel.xbuf.flags.active = true) :
    after.xbuf.flags.active = true ∨
      ∃ other, action = .call other ∧
        (channel.calls other = .resetFlags ∨ ∃ resp, channel.calls other = .owner (.finish resp)) := by
  cases step_move stepped with
  | @resetFlags other point => exact .inr ⟨other, rfl, .inl point⟩
  | @owner other owner point =>
      by_cases ends : ∃ resp, owner = .finish resp
      · obtain ⟨resp, rfl⟩ := ends
        exact .inr ⟨other, rfl, .inr ⟨resp, point⟩⟩
      · have same := owner.step_sameControl channel.xbuf (params.message other) (params.wantsResp other)
          fun resp finishes => ends ⟨resp, finishes⟩
        exact .inl (same.active.trans active)
  | receiver moved => exact .inl ((receiver_step moved).1.trans active)
  | set => exact absurd rfl (enabled _)
  | irqRaise => exact .inl (by simp)
  | raisePending | lower | irqNoHandler => exact .inl (by simpa using active)
  | start | lock | testReady | testPending | unlockErr | unlockBusy | wake | signal | deliver | spurious | irqTest | spawn
  | disable | enable => exact .inl active

theorem active_step (guarded : Guarded state) (phase : Phase state stage) (busy : stage ≠ .free)
    (sole : ∀ other, (state.channel.calls other).owns = true → other = call) (enabled : Enabled state action)
    (unfinished : Unfinished call state action) (active : state.xbuf.flags.active = true)
    (stepped : Interrupts.step params state action = some next) : next.xbuf.flags.active = true := by
  cases move_of_step stepped with
  | @channel action channel moved =>
      have unset : ∀ ctl, action ≠ .set ctl := fun ctl same => enabled ctl (by rw [same])
      rcases channel_active unset moved active with kept | ⟨other, acts, resetting | ⟨resp, point⟩⟩
      · exact kept
      · exact absurd (phase.free_of_clear (guarded.exclusive.clear (.inl resetting))) busy
      · exact absurd point (unreset sole unfinished (by rw [acts]))
  | deliver | spurious | merge => exact active
  | irq moved =>
      cases moved with
      | raise =>
          change (state.xbuf.raiseFlag xbufActive).flags.active = true
          simp
      | noHandler =>
          change (state.xbuf.raiseFlag xbufComplete).flags.active = true
          simpa using active
      | lock | pass | refuse | ignore | accept | handler => exact active

/-- The exchange of `call` goes on, and `cpu` has raised ACTIVE for it. -/
structure Accepted (call cpu : Nat) (state : State) : Prop where
  guarded : Guarded state
  sole : ∀ other, (state.channel.calls other).owns = true → other = call
  active : state.xbuf.flags.active = true
  stage : ∃ stage, Phase state stage ∧ stage ≠ .free ∧ ∀ other, stage = .taken other → other = cpu

theorem Accepted.step (accepted : Accepted call cpu state) (enabled : Enabled state action)
    (unfinished : Unfinished call state action) (stepped : Interrupts.step params state action = some next) :
    Accepted call cpu next := by
  obtain ⟨guarded, sole, active, stage, phase, busy, taken⟩ := accepted
  obtain ⟨stage', after, follows⟩ := phase.step guarded enabled stepped
  refine ⟨guarded.step enabled stepped, sole_step guarded phase busy sole stepped,
    active_step guarded phase busy sole enabled unfinished active stepped, stage', after, ?_⟩
  cases follows with
  | stay => exact ⟨busy, taken⟩
  | raise => exact absurd rfl busy
  | take =>
      rw [phase.active] at active
      contradiction
  | serve | complete | refuse | call => exact ⟨by simp, by simp⟩
  | reset acts point => exact absurd point (unreset sole unfinished acts)

theorem Ongoing.accept {accepted : State} (ongoing : Ongoing call base state) (point : state.cpus cpu = .raise)
    (raised : irqStep params state cpu = some accepted) : Accepted call cpu accepted := by
  obtain ⟨guarded, sole, stage, phase, busy, _⟩ := ongoing
  obtain rfl := (phase.taking cpu).mp (by rw [point]; rfl)
  obtain ⟨stage', after, follows⟩ := phase.irq_step guarded raised
  refine ⟨guarded.irq_step raised, ?_, ?_, stage', after, ?_⟩
  · have stepped : Interrupts.step params state (.irq cpu) = some accepted := raised
    exact sole_step guarded phase busy sole stepped
  · simp only [irqStep, point] at raised
    cases raised
    change (state.xbuf.raiseFlag xbufActive).flags.active = true
    simp
  · cases follows with
    | stay => exact ⟨by simp, by simp⟩
    | call | refuse => exact ⟨by simp, by simp⟩

theorem Accepted.flags (accepted : Accepted call cpu state) (interrupt : ∀ own, action ≠ .channel own)
    (stepped : Interrupts.step params state action = some next) :
    next.xbuf.flags = state.xbuf.flags ∨ action = .irq cpu ∧ state.cpus cpu = .noHandler := by
  obtain ⟨_, _, active, stage, phase, _, taken⟩ := accepted
  cases move_of_step stepped with
  | @channel own => exact absurd rfl (interrupt own)
  | deliver | spurious | merge => exact .inl rfl
  | @irq other _ moved =>
      cases moved with
      | raise point =>
          -- Before it raises ACTIVE, the flag is not set.
          obtain rfl := (phase.taking other).mp (by rw [point]; rfl)
          rw [phase.active, Stage.active, point] at active
          contradiction
      | noHandler point =>
          obtain rfl := taken other ((phase.taking other).mp (by rw [point]; rfl))
          exact .inr ⟨rfl, point⟩
      | lock | pass | refuse | ignore | accept | handler => exact .inl rfl

end Exchange

theorem Phase.initial (start : Initial size state) : Phase state .free where
  pending := by simp [State.xbuf, start.channel.flags, xbufReady]
  active := by simp [State.xbuf, start.channel.flags, xbufReady, Stage.active]
  complete := by
    rw [State.xbuf, start.channel.flags]
    rfl
  taking := by
    intro cpu
    simp [start.cpus cpu, Cpu.taking]
  serving := by
    intro index
    simp [start.channel.receivers index, early]
  counted := by rw [start.invoked, start.channel.started]; rfl

theorem reachable_phase (reached : (system params size).Reachable Enabled state) :
    Guarded state ∧ ∃ stage, Phase state stage := by
  obtain ⟨start, initial, path⟩ := reached
  induction path with
  | refl => exact ⟨.initial initial, _, .initial initial⟩
  | snoc _ enabled stepped ih =>
      obtain ⟨guarded, stage, phase⟩ := ih
      obtain ⟨stage', after, _⟩ := phase.step guarded enabled stepped
      exact ⟨guarded.step enabled stepped, stage', after⟩

theorem Guarded.unowned {call : Nat} (guarded : Guarded state) (raising : state.channel.calls call = .raisePending)
    (other : Nat) : (state.channel.calls other).owns = false := by
  refine Bool.eq_false_iff.mpr fun owns => ?_
  have clear := guarded.exclusive.clear (.inr raising)
  rw [guarded.exclusive.marks owns] at clear
  contradiction

theorem ongoing_of_raise {opened : State} {call : Nat} (guarded : Guarded state) {stage : Stage}
    (phase : Phase state stage)
    (raising : state.channel.calls call = .raisePending)
    (raised : step params state (.channel (.call call)) = some opened) : Ongoing call opened.invoked opened := by
  have enabled : Enabled state (.channel (.call call)) := fun _ same => by cases same
  obtain rfl := phase.free_of_clear (guarded.exclusive.clear (.inr raising))
  obtain ⟨stage', after, follows⟩ := phase.step guarded enabled raised
  have acted : channelStep params state (.call call) = some opened := raised
  obtain ⟨channel, moved, rfl, _⟩ := channelStep_move acted
  simp only [Channel.step, callStep, raising] at moved
  cases moved
  refine ⟨guarded.step enabled raised, ?_, stage', after, ?_, Nat.le_add_right ..⟩
  · intro other owns
    by_contra apart
    rw [State.setCall_calls, if_neg apart] at owns
    exact absurd ((guarded.unowned raising other).symm.trans owns) Bool.false_ne_true
  · rintro rfl
    have pending := after.pending
    simp [State.xbuf] at pending

/-- Between the raising of PENDING and the reset that ends the exchange the
handler is called at most once, and once a processor has raised ACTIVE, no
interrupt but that one changes the flags. -/
theorem one_handler_call {opened later : State} {call : Nat} (reached : (system params size).Reachable Enabled state)
    (raising : state.channel.calls call = .raisePending)
    (raised : step params state (.channel (.call call)) = some opened)
    (path : (system params size).Path (fun state action => Enabled state action ∧ Unfinished call state action)
      opened later) :
    later.invoked ≤ opened.invoked + 1 ∧
      ∀ cpu accepted last action next, later.cpus cpu = .raise → step params later (.irq cpu) = some accepted →
        (system params size).Path (fun state action => Enabled state action ∧
          Unfinished call state action) accepted last →
        (∀ own, action ≠ .channel own) → step params last action = some next →
        next.xbuf.flags = last.xbuf.flags ∨ action = .irq cpu ∧ last.cpus cpu = .noHandler := by
  obtain ⟨guarded, stage, phase⟩ := reachable_phase reached
  have ongoing : Ongoing call opened.invoked later :=
    path.invariant (ongoing_of_raise guarded phase raising raised)
      (fun ongoing allowed stepped => ongoing.step allowed.1 allowed.2 stepped)
  refine ⟨?_, ?_⟩
  · obtain ⟨_, _, stage, _, _, bound⟩ := ongoing
    refine Nat.le_trans bound (Nat.add_le_add_left ?_ _)
    cases stage <;> simp [Stage.calls]
  · intro cpu accepted last action next point accepts rest interrupt stepped
    have still : Accepted call cpu last := rest.invariant (ongoing.accept point accepts)
      (fun accepted allowed stepped => accepted.step allowed.1 allowed.2 stepped)
    exact still.flags interrupt stepped

def boot (size : Nat) : State where
  channel := Channel.boot size
  cpus := fun _ => .idle
  irqLock := none
  invoked := 0

theorem boot_initial (size : Nat) : Initial size (boot size) :=
  ⟨Channel.boot_initial size, fun _ => rfl, rfl, rfl⟩

def leavesOpen (state : State) : Action → Bool
  | .channel (.set _) => false
  | .channel (.call call) =>
      match state.channel.calls call with
      | .owner (.finish _) => false
      | _ => true
  | _ => true

theorem leavesOpen_sound (checked : leavesOpen state action = true) :
    Enabled state action ∧ Unfinished 0 state action := by
  refine ⟨?_, ?_⟩
  · rintro ctl rfl
    contradiction
  · rintro rfl resp point
    simp [leavesOpen, point] at checked

/-- Two processors are interrupted before the message is staged; one of them
takes it. -/
theorem one_handler_call_spurious :
    ∃ opened later : State, opened.invoked = 0 ∧ later.invoked = 1 ∧ later.invoked ≤ opened.invoked + 1 := by
  have executed : (((system echo 1).run leavesOpen (boot 1)
      (.channel (.start 0) :: List.replicate 4 (.channel (.call 0)))).bind
      fun state => (step echo state (.channel (.call 0))).bind fun opened =>
        ((system echo 1).run leavesOpen opened
          [.spurious 0, .spurious 1, .irq 0, .irq 0, .irq 0, .irq 0, .irq 1, .irq 1, .irq 1, .irq 0]).map fun later =>
            (state.channel.calls 0, opened.invoked, later.invoked)) = some (.raisePending, 0, 1) := by
    decide +kernel
  simp only [Option.bind_eq_some_iff, Option.map_eq_some_iff, Prod.mk.injEq] at executed
  obtain ⟨state, first, opened, raised, later, second, raising, none, once⟩ := executed
  have reached : (system echo 1).Reachable Enabled state :=
    ⟨boot 1, boot_initial 1, System.run_path (fun checked => (leavesOpen_sound checked).1) first⟩
  exact ⟨opened, later, none, once,
    (one_handler_call reached raising raised (System.run_path leavesOpen_sound second)).1⟩

end Pisces.Interrupts
