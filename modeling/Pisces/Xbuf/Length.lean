import Pisces.Xbuf.Interrupts
import Pisces.Xbuf.Supply

/-! # The length of a message

`data_len` from the call that sends a message to the receiver that reads it,
whatever exchanges there were before.
-/

namespace Pisces.Interrupts

open Transition Channel

/-- A call that has still to stage its data -/
def Unstaged (message : Bytes) (call : Call) : Prop :=
  message ≠ [] ∧ call.staging = true

instance (message : Bytes) (call : Call) : Decidable (Unstaged message call) :=
  inferInstanceAs (Decidable (message ≠ [] ∧ call.staging = true))

/-- A call without data finds no old length when it raises PENDING, no interrupt
looks at a message that is still being staged, and READY is set when a receiver
looks at it. -/
structure Timely (params : Params) (state : State) (action : Action) : Prop where
  enabled : Enabled state action
  fresh : ∀ call, action = .channel (.call call) → state.channel.calls call = .raisePending →
    params.message call = [] → state.xbuf.dataLen = 0
  staged : ∀ cpu call, action = .irq cpu → state.cpus cpu = .test → state.channel.acquired.getLast? = some call →
    ¬ Unstaged (params.message call) (state.channel.calls call)
  ready : ∀ index pc len read, action = .channel (.receiver index) → state.channel.receivers index = .recv pc len read →
    pc = .ready ∨ pc = .spin → state.xbuf.flags.ready = true

/-- A processor has accepted the message, and no receiver has begun with it. -/
def Taken (state : State) : Prop :=
  (∃ cpu, (state.cpus cpu).taking = true) ∨ state.channel.started < state.invoked

/-- What a receiver has read of the length -/
def Receiving (length dataLen : Nat) : Receiver → Prop
  | .testActive | .recvLen => dataLen = length
  | .recv pc len read => len = length ∧ 0 < length ∧ read.length ≤ length ∧ (pc ≠ .lower → read.length < length)
  | .received len read => len = length ∧ read.length = length
  | _ => True

/-- Inside `pisces_xbuf_recv` -/
def receives : Receiver → Bool
  | .testActive | .recvLen | .recv _ _ _ => true
  | _ => false

/-- Whoever accepts a message finds its length, a receiver returns as many bytes
and waits for some only if there are any, and it can return if READY is set. -/
structure LengthSent (params : Params) (size : Nat) (state : State) : Prop where
  accepted : ∀ call, state.channel.acquired.getLast? = some call → Taken state →
    state.xbuf.dataLen = (params.message call).length
  received : ∀ call index, state.channel.acquired.getLast? = some call →
    Receiving (params.message call).length state.xbuf.dataLen (state.channel.receivers index)
  returns : 0 < size → ∀ call index, state.channel.acquired.getLast? = some call →
    receives (state.channel.receivers index) = true → state.xbuf.flags.ready = true →
    ∃ after read, (system params size).Path (Timely params) state after ∧
      after.channel.receivers index = .received (params.message call).length read ∧
      read.length = (params.message call).length

/-! ## The call that has the buffer -/

/-- The length is in place unless the call has still to write it. -/
def Prepared (dataLen : Nat) (message : Bytes) : Call → Prop
  | .owner .unlock | .owner (.stage .len) => message = [] → dataLen = 0
  | _ => dataLen = message.length

/-- The receiver that has to do with the message, or one that is still to begin -/
def Reader (state : State) (receiver : Receiver) : Prop :=
  (∃ index, early (state.channel.receivers index) = true ∧ receiver = state.channel.receivers index) ∨
    (∀ index, early (state.channel.receivers index) = false) ∧ receiver = .testActive

/-- What holds of the call that raised PENDING last while the flag is set -/
structure Current (params : Params) (state : State) (call : Nat) : Prop where
  last : state.channel.acquired.getLast? = some call
  acquired : (state.channel.calls call).hasAcquired = true
  sole : ∀ other, (state.channel.calls other).owns = true → other = call
  prepared : state.xbuf.flags.active = false →
    Prepared state.xbuf.dataLen (params.message call) (state.channel.calls call)
  staged : Taken state ∨ state.xbuf.flags.active = true →
    ¬ Unstaged (params.message call) (state.channel.calls call)
  taken : Taken state → state.xbuf.dataLen = (params.message call).length
  receiving : ∀ index, Receiving (params.message call).length state.xbuf.dataLen (state.channel.receivers index)
  supply : state.xbuf.flags.ready = true → state.xbuf.flags.complete = false → ∀ receiver, Reader state receiver →
    Supply state.xbuf (params.message call) (state.channel.calls call) receiver

variable {params : Params} {state next : State} {action : Action} {cpu call size : Nat} {stage : Stage}
  {length dataLen : Nat} {message : Bytes}

theorem Receiving.late {receiver : Receiver} (late : early receiver = false) : Receiving length dataLen receiver := by
  cases receiver with
  | testActive | recvLen | recv | received => contradiction
  | _ => trivial

theorem Receiving.rewrite {receiver : Receiver} {after : Nat} (receiving : Receiving length dataLen receiver)
    (same : after = dataLen ∨ after = length) : Receiving length after receiver := by
  cases receiver with
  | testActive | recvLen =>
      rcases same with rfl | same
      · exact receiving
      · exact same
  | _ => exact receiving

/-- A receiver reads the length once and then as many bytes. -/
theorem Receiving.step {xbuf after : Xbuf} {response : Bytes → Bytes} {receiver point : Receiver}
    (receiving : Receiving length xbuf.dataLen receiver)
    (ready : ∀ pc len read, receiver = .recv pc len read → pc = .ready ∨ pc = .spin → xbuf.flags.ready = true)
    (stepped : receiver.step xbuf response = some (after, point)) : Receiving length after.dataLen point := by
  cases receiver with
  | testActive =>
      cases stepped
      split
      · exact receiving
      · trivial
  | recvLen =>
      have same : xbuf.dataLen = length := receiving
      cases stepped
      rw [same]
      simp only [enterRecv, List.length_nil, Nat.sub_zero]
      split
      · rename_i some
        exact ⟨rfl, some, Nat.zero_le _, fun _ => some⟩
      · rename_i none
        exact ⟨rfl, (Nat.le_zero.mp (Nat.not_lt.mp none)).symm⟩
  | recv pc len read =>
      obtain ⟨rfl, some, within, more⟩ := receiving
      cases stepped
      cases pc with
      | ready | spin =>
          simp only [recvData, ready _ _ _ rfl (by simp), if_true]
          exact ⟨rfl, some, within, fun _ => more (by simp)⟩
      | staged =>
          simp only [recvData]
          split <;> exact ⟨rfl, some, within, fun _ => more (by simp)⟩
      | copy =>
          refine ⟨rfl, some, ?_, by simp⟩
          have chunk := stagedLen_eq_min (len - read.length) xbuf.totalSize
          simp only [List.length_append, List.length_take]
          omega
      | lower =>
          simp only [recvData, enterRecv]
          split
          · exact ⟨rfl, some, within, fun _ => by omega⟩
          · exact ⟨rfl, by omega⟩
  | received => cases stepped; trivial
  | testComplete resp =>
      cases stepped
      split
      · split <;> trivial
      · trivial
  | stage pc resp => cases pc <;> cases stepped <;> trivial
  | raiseComplete left =>
      cases stepped
      unfold enterSend
      split <;> trivial
  | reply pc left =>
      cases stepped
      cases (sendData xbuf left pc).2 <;> trivial
  | idle | done | inactive => cases stepped

theorem late_step {xbuf after : Xbuf} {response : Bytes → Bytes} {receiver point : Receiver}
    (late : early receiver = false) (stepped : receiver.step xbuf response = some (after, point)) :
    Fuller xbuf after ∧ after.dataLen = xbuf.dataLen := by
  cases receiver with
  | reply pc left =>
      cases stepped
      exact ⟨sendData_fuller xbuf left pc, (sendData_sameOutside xbuf left pc).dataLen⟩
  | idle | done | inactive => cases stepped
  | _ => contradiction

theorem Prepared.written {point : Call} (prepared : Prepared dataLen message point) (staged : ¬ Unstaged message point) :
    dataLen = message.length := by
  have settled (staging : point.staging = true) (fresh : message = [] → dataLen = 0) : dataLen = message.length := by
    have empty : message = [] := by
      by_contra sent
      exact staged ⟨sent, staging⟩
    rw [fresh empty, empty]
    rfl
  cases point with
  | owner owner =>
      cases owner with
      | unlock => exact settled rfl prepared
      | stage pc =>
          cases pc with
          | len => exact settled rfl prepared
          | copy | raise => exact prepared
      | _ => exact prepared
  | _ => exact prepared

/-! ## Steps of the call -/

theorem Prepared.of_written {point : Call} (written : dataLen = message.length) : Prepared dataLen message point := by
  have fresh : message = [] → dataLen = 0 := by
    rintro rfl
    exact written
  cases point with
  | owner owner =>
      cases owner with
      | unlock => exact fresh
      | stage pc =>
          cases pc with
          | len => exact fresh
          | copy | raise => exact written
      | _ => exact written
  | _ => exact written

theorem Prepared.owner_step {owner : Owner} {xbuf : Xbuf} {wants : Bool}
    (prepared : Prepared xbuf.dataLen message (.owner owner)) :
    Prepared (owner.step xbuf message wants).1.dataLen message (owner.step xbuf message wants).2 := by
  have settled (written : xbuf.dataLen = message.length) :
      Prepared (owner.step xbuf message wants).1.dataLen message (owner.step xbuf message wants).2 := by
    apply Prepared.of_written
    rcases owner.step_dataLen xbuf message wants with same | same
    · exact same.trans written
    · exact same
  cases owner with
  | unlock =>
      by_cases empty : message = []
      · subst empty
        exact settled (prepared rfl)
      · simp only [Owner.step, List.length_pos_iff.mpr empty, if_true]
        exact prepared
  | stage pc =>
      cases pc with
      | len => exact .of_written rfl
      | copy | raise => exact settled prepared
  | _ => exact settled prepared

/-! ## The invariant -/

theorem Reader.of_receivers {receiver : Receiver} (reader : Reader next receiver)
    (same : next.channel.receivers = state.channel.receivers) : Reader state receiver := by
  unfold Reader at *
  rw [same] at reader
  exact reader

theorem Current.frame (current : Current params state call) (acquired : next.channel.acquired = state.channel.acquired)
    (calls : next.channel.calls call = state.channel.calls call)
    (sole : ∀ other, (next.channel.calls other).owns = true → other = call)
    (dataLen : next.xbuf.dataLen = state.xbuf.dataLen) (fuller : Fuller state.xbuf next.xbuf)
    (ready : next.xbuf.flags.ready = true → state.xbuf.flags.ready = true)
    (complete : next.xbuf.flags.complete = false → state.xbuf.flags.complete = false)
    (active : next.xbuf.flags.active = false → state.xbuf.flags.active = false)
    (staged : Taken next ∨ next.xbuf.flags.active = true →
      ¬ Unstaged (params.message call) (state.channel.calls call))
    (taken : Taken next → state.xbuf.dataLen = (params.message call).length)
    (receiving : ∀ index, Receiving (params.message call).length state.xbuf.dataLen (next.channel.receivers index))
    (reader : ∀ receiver, Reader next receiver → Reader state receiver) : Current params next call where
  last := acquired ▸ current.last
  acquired := calls ▸ current.acquired
  sole := sole
  prepared := by
    intro inactive
    rw [dataLen, calls]
    exact current.prepared (active inactive)
  staged := by
    rw [calls]
    exact staged
  taken := by
    rw [dataLen]
    exact taken
  receiving := by
    rw [dataLen]
    exact receiving
  supply := by
    intro readyNow incomplete receiver isReader
    rw [calls]
    exact (current.supply (ready readyNow) (complete incomplete) receiver (reader receiver isReader)).fuller fuller

theorem Current.aside {channel : Channel.State} (current : Current params state call)
    (acquired : channel.acquired = state.channel.acquired) (calls : channel.calls call = state.channel.calls call)
    (sole : ∀ other, (channel.calls other).owns = true → other = call) (xbuf : channel.xbuf = state.channel.xbuf)
    (started : channel.started = state.channel.started) (receivers : channel.receivers = state.channel.receivers) :
    Current params { state with channel } call := by
  have taken : Taken { state with channel } → Taken state := by
    unfold Taken
    rw [started]
    exact id
  have same : ({ state with channel } : State).xbuf = state.xbuf := xbuf
  refine current.frame acquired calls sole (by rw [same]) (by rw [same]; exact .refl _)
    (by rw [same]; exact id) (by rw [same]; exact id) (by rw [same]; exact id) ?_
    (fun now => current.taken (taken now)) ?_ (fun _ reader => reader.of_receivers receivers)
  · rw [same]
    exact fun now => current.staged (now.imp_left taken)
  · change ∀ index, Receiving _ _ (channel.receivers index)
    rw [receivers]
    exact current.receiving

/-- While PENDING is set, some call has the buffer or gave up on it. -/
def Measured (params : Params) (state : State) : Prop :=
  state.xbuf.flags.pending = true → ∃ call, Current params state call

theorem Phase.busy (phase : Phase state stage) (pending : state.xbuf.flags.pending = true) : stage ≠ .free := by
  rintro rfl
  have clear := phase.pending
  rw [pending] at clear
  contradiction

theorem Phase.of_taken (phase : Phase state stage) (taken : Taken state) :
    (∃ cpu, stage = .taken cpu) ∨ stage = .called := by
  rcases taken with ⟨cpu, taking⟩ | behind
  · exact .inl ⟨cpu, (phase.taking cpu).mp taking⟩
  · have counted := phase.counted
    by_contra other
    rw [if_neg fun called => other (.inr called)] at counted
    omega

theorem Phase.untaken_serving {index : Nat} (phase : Phase state (.serving index)) : ¬ Taken state := fun taken => by
  simpa using phase.of_taken taken

theorem Phase.untaken_free (phase : Phase state .free) : ¬ Taken state := fun taken => by
  simpa using phase.of_taken taken

theorem Current.unbegun {receiver : Receiver} (current : Current params state call) (phase : Phase state stage)
    (unstaged : Unstaged (params.message call) (state.channel.calls call)) (reader : Reader state receiver) :
    receiver = .testActive := by
  rcases reader with ⟨index, began, _⟩ | ⟨_, same⟩
  · obtain rfl := (phase.serving index).mp began
    exact absurd unstaged (current.staged (.inr phase.active))
  · exact same

theorem Current.owner_step {owner : Owner} {lock : Option Nat} {ipis : Nat} (current : Current params state call)
    (phase : Phase state stage) (point : state.channel.calls call = .owner owner)
    (unfinished : ∀ resp, owner ≠ .finish resp) (moved : next = { state with
      channel := { state.channel with
        xbuf := (owner.step state.channel.xbuf (params.message call) (params.wantsResp call)).1
        lock
        ipis }.setCall call (owner.step state.channel.xbuf (params.message call) (params.wantsResp call)).2 })
    (sole : ∀ other, (next.channel.calls other).owns = true → other = call) : Current params next call := by
  have same := owner.step_sameControl state.channel.xbuf (params.message call) (params.wantsResp call) unfinished
  have length := owner.step_dataLen state.channel.xbuf (params.message call) (params.wantsResp call)
  have calls : next.channel.calls call =
      (owner.step state.channel.xbuf (params.message call) (params.wantsResp call)).2 := by
    rw [moved, State.setCall_calls, if_pos rfl]
  subst moved
  refine ⟨current.last, ?_, sole, ?_, ?_, ?_, ?_, ?_⟩
  · rw [calls]
    exact owner.step_hasAcquired ..
  · intro inactive
    have prepared := current.prepared (same.active.symm.trans inactive)
    rw [point] at prepared
    rw [calls]
    exact prepared.owner_step
  · rw [calls]
    intro now unstaged
    apply current.staged (now.imp_right same.active.symm.trans)
    rw [point]
    exact ⟨unstaged.1, Owner.staging_of_step unstaged.2⟩
  · intro taken
    rcases length with kept | written
    · exact kept.trans (current.taken taken)
    · exact written
  · exact fun index => (current.receiving index).rewrite length
  · intro ready incomplete receiver reader
    have complete : state.xbuf.flags.complete = false := same.complete.symm.trans incomplete
    have supply := current.supply (same.ready.symm.trans ready) complete receiver reader
    rw [point] at supply
    rw [calls]
    refine supply.owner_step (same.ready.symm.trans ready) complete ?_
    intro staging sent
    rw [current.unbegun phase ⟨sent, by rw [point]; exact staging⟩ reader]
    rfl

theorem Reader.late {receiver point : Receiver} {index : Nat} (reader : Reader next receiver)
    (moved : next.channel.receivers = Function.update state.channel.receivers index point)
    (was : early (state.channel.receivers index) = false) (now : early point = false) : Reader state receiver := by
  have same : ∀ other, early (next.channel.receivers other) = early (state.channel.receivers other) := by
    intro other
    rw [moved]
    by_cases mine : other = index
    · rw [mine, Function.update_self, was, now]
    · rw [Function.update_of_ne mine]
  rcases reader with ⟨other, began, rfl⟩ | ⟨none, rfl⟩
  · have apart : other ≠ index := by
      rintro rfl
      rw [same, was] at began
      contradiction
    refine .inl ⟨other, by rw [← same]; exact began, ?_⟩
    rw [moved, Function.update_of_ne apart]
  · exact .inr ⟨fun other => by rw [← same]; exact none other, rfl⟩

theorem Reader.early {receiver point : Receiver} {index : Nat} (reader : Reader next receiver)
    (phase : Phase state (.serving index))
    (moved : next.channel.receivers = Function.update state.channel.receivers index point) :
    receiver = point ∨ early point = false := by
  rcases reader with ⟨other, began, rfl⟩ | ⟨none, _⟩
  · rw [moved] at began ⊢
    by_cases mine : other = index
    · rw [mine, Function.update_self]
      exact .inl rfl
    · rw [Function.update_of_ne mine] at began
      have same := (phase.serving other).mp began
      exact absurd (Stage.serving.inj same).symm mine
  · have last := none index
    rw [moved, Function.update_self] at last
    exact .inr last

theorem Current.receiver_step {index : Nat} {after : Xbuf} {point : Receiver} {received : List Bytes}
    (current : Current params state call) (phase : Phase state stage)
    (ready : ∀ pc len read, state.channel.receivers index = .recv pc len read → pc = .ready ∨ pc = .spin →
      state.xbuf.flags.ready = true)
    (stepped : (state.channel.receivers index).step state.channel.xbuf params.response = some (after, point))
    (moved : next = { state with
      channel := { state.channel with
        xbuf := after
        receivers := Function.update state.channel.receivers index point
        received } }) : Current params next call := by
  obtain ⟨active, late, serves⟩ := Interrupts.receiver_step stepped
  obtain ⟨_, sameReady, _⟩ := Receiver.step_pending stepped
  subst moved
  cases began : early (state.channel.receivers index) with
  | false =>
      obtain ⟨still, complete⟩ := late began
      obtain ⟨fuller, dataLen⟩ := late_step began stepped
      refine current.frame rfl rfl current.sole dataLen fuller sameReady.symm.trans complete.symm.trans
        active.symm.trans ?_ current.taken ?_ (fun _ reader => reader.late rfl began still)
      · exact fun now => current.staged (now.imp_right active.symm.trans)
      · intro other
        change Receiving _ _ (Function.update state.channel.receivers index point other)
        by_cases mine : other = index
        · rw [mine, Function.update_self]
          exact .late still
        · rw [Function.update_of_ne mine]
          exact current.receiving other
  | true =>
      obtain rfl := (phase.serving index).mp began
      have isActive : state.xbuf.flags.active = true := phase.active
      refine ⟨current.last, current.acquired, current.sole, ?_, fun _ => current.staged (.inr isActive),
        fun taken => absurd taken phase.untaken_serving, ?_, ?_⟩
      · exact fun inactive => absurd (inactive.symm.trans (active.trans isActive)) Bool.false_ne_true
      · intro other
        change Receiving _ after.dataLen (Function.update state.channel.receivers index point other)
        by_cases mine : other = index
        · rw [mine, Function.update_self]
          exact (current.receiving index).step ready stepped
        · rw [Function.update_of_ne mine]
          apply Receiving.late
          refine Bool.eq_false_iff.mpr fun began => ?_
          have same := (phase.serving other).mp began
          exact mine (Stage.serving.inj same).symm
      · intro readyNow incomplete receiver reader
        have before : state.xbuf.flags.complete = false := Bool.eq_false_iff.mpr fun complete =>
          Bool.false_ne_true (incomplete.symm.trans (receiver_keeps_complete stepped complete))
        have supply := current.supply (sameReady.symm.trans readyNow) before _ (.inl ⟨index, began, rfl⟩)
        rcases reader.early phase rfl with rfl | ends
        · refine supply.receiver_step ?_ stepped
          intro pc len read reached
          have receiving := current.receiving index
          rw [reached] at receiving
          exact receiving.1
        · rcases serves began isActive with ⟨still, _⟩ | ⟨_, complete⟩
          · exact absurd (ends.symm.trans still) Bool.false_ne_true
          · exact absurd (incomplete.symm.trans complete) Bool.false_ne_true

theorem Current.spawn (current : Current params state call) (phase : Phase state stage)
    (called : state.channel.started < state.invoked) (moved : next = { state with
      channel := { state.channel with
        receivers := Function.update state.channel.receivers state.channel.started .testActive
        started := state.channel.started + 1 } }) : Current params next call := by
  have length := current.taken (.inr called)
  have taken : Taken next → Taken state := by
    rw [moved]
    rintro (taking | behind)
    · exact .inl taking
    · exact .inr called
  have none : ∀ index, early (state.channel.receivers index) = false := by
    intro index
    refine Bool.eq_false_iff.mpr fun began => ?_
    obtain rfl := (phase.serving index).mp began
    exact phase.untaken_serving (.inr called)
  subst moved
  refine current.frame rfl rfl current.sole rfl (.refl _) id id id (fun now => current.staged (now.imp_left taken))
    (fun now => current.taken (taken now)) ?_ ?_
  · intro index
    change Receiving _ _ (Function.update state.channel.receivers state.channel.started .testActive index)
    by_cases mine : index = state.channel.started
    · rw [mine, Function.update_self]
      exact length
    · rw [Function.update_of_ne mine]
      exact current.receiving index
  · rintro receiver (⟨index, began, rfl⟩ | ⟨_, rfl⟩)
    · refine .inr ⟨none, ?_⟩
      change early (Function.update state.channel.receivers state.channel.started .testActive index) = true at began
      change Function.update state.channel.receivers state.channel.started .testActive index = _
      by_cases mine : index = state.channel.started
      · rw [mine, Function.update_self]
      · rw [Function.update_of_ne mine, none] at began
        contradiction
    · exact .inr ⟨none, rfl⟩

theorem Current.raise (guarded : Guarded state) (phase : Phase state stage)
    (point : state.channel.calls call = .raisePending)
    (fresh : params.message call = [] → state.xbuf.dataLen = 0) (moved : next = { state with
      channel := { state.channel with
        xbuf := state.channel.xbuf.raiseFlag xbufPending
        acquired := state.channel.acquired ++ [call] }.setCall call (.owner .unlock) }) :
    Current params next call := by
  have clear := guarded.exclusive.clear (.inr point)
  obtain rfl := phase.free_of_clear clear
  have none : ∀ index, early (state.channel.receivers index) = false := by
    intro index
    refine Bool.eq_false_iff.mpr fun began => ?_
    have serving := (phase.serving index).mp began
    cases serving
  have untaken := phase.untaken_free
  have inactive : (state.channel.xbuf.raiseFlag xbufPending).flags.active = false := by
    have active : state.channel.xbuf.flags.active = false := phase.active
    simpa using active
  have calls : next.channel.calls call = .owner .unlock := by
    rw [moved, State.setCall_calls, if_pos rfl]
  subst moved
  refine ⟨by simp, by rw [calls]; rfl, ?_, ?_, ?_, fun taken => absurd taken untaken, fun index => .late (none index), ?_⟩
  · intro other owns
    by_contra apart
    rw [State.setCall_calls, if_neg apart] at owns
    exact absurd ((guarded.unowned point other).symm.trans owns) Bool.false_ne_true
  · intro _
    rw [calls]
    exact fresh
  · rintro (taken | active)
    · exact absurd taken untaken
    · exact absurd (inactive.symm.trans active) Bool.false_ne_true
  · rintro _ _ receiver (⟨index, began, _⟩ | ⟨_, rfl⟩)
    · exact absurd ((none index).symm.trans began) Bool.false_ne_true
    · rw [calls]
      exact ⟨by simp [Receiver.consuming], trivial⟩

-- Only a call that raises PENDING becomes current; every other step keeps the
-- current call, unless it lowers the flag and ends the exchange.
theorem Measured.channel_step {action : Channel.Action} (measured : Measured params state) (guarded : Guarded state)
    (phase : Phase state stage) (timely : Timely params state (.channel action))
    (stepped : channelStep params state action = some next) : Measured params next := by
  intro pending
  have stepping : Interrupts.step params state (.channel action) = some next := stepped
  have sole : ∀ {call}, Current params state call → state.xbuf.flags.pending = true →
      ∀ other, (next.channel.calls other).owns = true → other = call := fun current before =>
    sole_step guarded phase (phase.busy before) current.sole stepping
  obtain ⟨channel, moved, rfl, noDeliver, noSpurious, noIrq, called⟩ := channelStep_move stepped
  cases step_move moved with
  | @start other point | @lock other point | @testReady other point | @testPending other point | @unlockErr other point
  | @unlockBusy other point | @wake other point | @signal other point =>
      obtain ⟨call, current⟩ := measured pending
      have apart : ¬ call = other := by
        rintro rfl
        have acquired := current.acquired
        rw [point] at acquired
        contradiction
      exact ⟨call, current.aside rfl (by simp [apart]) (sole current pending) rfl rfl rfl⟩
  | resetFlags => simp [State.xbuf] at pending
  | @raisePending call point => exact ⟨call, .raise guarded phase point (timely.fresh call rfl point) rfl⟩
  | @owner other owner point =>
      by_cases ends : ∃ resp, owner = .finish resp
      · obtain ⟨resp, rfl⟩ := ends
        simp [State.xbuf, Owner.step] at pending
      · have unfinished : ∀ resp, owner ≠ .finish resp := fun resp finishes => ends ⟨resp, finishes⟩
        have same := owner.step_sameControl state.channel.xbuf (params.message other) (params.wantsResp other) unfinished
        have before : state.xbuf.flags.pending = true := same.pending.symm.trans pending
        obtain ⟨call, current⟩ := measured before
        obtain rfl := current.sole other (by rw [point]; rfl)
        exact ⟨other, current.owner_step phase point unfinished rfl (sole current before)⟩
  | spawn =>
      obtain ⟨call, current⟩ := measured pending
      exact ⟨call, current.spawn phase (called rfl) rfl⟩
  | @receiver index after point served =>
      obtain ⟨call, current⟩ := measured ((Receiver.step_pending served).1.symm.trans pending)
      exact ⟨call, current.receiver_step phase (fun pc len read => timely.ready index pc len read rfl) served rfl⟩
  | disable | enable =>
      obtain ⟨call, current⟩ := measured pending
      exact ⟨call, current.aside rfl rfl current.sole rfl rfl rfl⟩
  | lower =>
      obtain ⟨call, current⟩ := measured (by simpa [State.xbuf] using pending)
      have same : state.channel.xbuf.lowerFlag xbufReady =
          { state.channel.xbuf with flags := { state.channel.xbuf.flags with ready := false } } := by simp
      refine ⟨call, current.frame rfl rfl current.sole rfl ⟨?_, Nat.le_refl _, rfl⟩ ?_ ?_ ?_ ?_ current.taken
        current.receiving fun _ reader => reader⟩
      all_goals simp only [State.xbuf, State.setCtl_xbuf, same]
      · exact id
      · exact fun lowered => absurd lowered Bool.false_ne_true
      · exact id
      · exact id
      · exact current.staged
  | set => exact absurd rfl (timely.enabled _)
  | deliver => exact absurd rfl noDeliver
  | spurious => exact absurd rfl noSpurious
  | irqTest | irqRaise | irqNoHandler => exact absurd rfl noIrq

theorem Current.elsewhere {point : Cpu} {irqLock : Option Nat} {ipis : Nat} (current : Current params state call)
    (other : point.taking = false) :
    Current params ({ state with channel := { state.channel with ipis }, irqLock }.setCpu cpu point) call := by
  have before : Taken ({ state with channel := { state.channel with ipis }, irqLock }.setCpu cpu point) →
      Taken state := by
    rintro (⟨holder, taking⟩ | behind)
    · change (Function.update state.cpus cpu point holder).taking = true at taking
      by_cases mine : holder = cpu
      · rw [mine, Function.update_self] at taking
        exact absurd (other.symm.trans taking) Bool.false_ne_true
      · rw [Function.update_of_ne mine] at taking
        exact .inl ⟨holder, taking⟩
    · exact .inr behind
  exact current.frame rfl rfl current.sole rfl (.refl _) id id id (fun now => current.staged (now.imp_left before))
    (fun now => current.taken (before now)) current.receiving (fun _ reader => reader)

theorem Current.holding {point : Cpu} {irqLock : Option Nat} {invoked : Nat} {flags : Flags}
    (current : Current params state call)
    (staged : ¬ Unstaged (params.message call) (state.channel.calls call))
    (length : state.xbuf.dataLen = (params.message call).length)
    (same : flags.staged = state.xbuf.flags.staged) (ready : flags.ready = state.xbuf.flags.ready)
    (complete : flags.complete = false → state.xbuf.flags.complete = false)
    (active : flags.active = false → state.xbuf.flags.active = false) :
    Current params (({ state with irqLock, invoked }.setXbuf { state.xbuf with flags }).setCpu cpu point) call :=
  current.frame rfl rfl current.sole rfl ⟨same.trans, Nat.le_refl _, rfl⟩ ready.symm.trans complete active
      (fun _ => staged)
    (fun _ => length) current.receiving (fun _ reader => reader)

theorem Current.irq_step (current : Current params state call) (timely : Timely params state (.irq cpu))
    (stepped : irqStep params state cpu = some next) : Current params next call := by
  have taken (point : Cpu) (irqLock : Option Nat) (invoked : Nat) (flags : Flags)
      (taking : (state.cpus cpu).taking = true) (same : flags.staged = state.xbuf.flags.staged)
      (ready : flags.ready = state.xbuf.flags.ready)
      (complete : flags.complete = false → state.xbuf.flags.complete = false)
      (active : flags.active = false → state.xbuf.flags.active = false) :
      Current params (({ state with irqLock, invoked }.setXbuf { state.xbuf with flags }).setCpu cpu point) call :=
    current.holding (current.staged (.inl (.inl ⟨cpu, taking⟩))) (current.taken (.inl ⟨cpu, taking⟩)) same ready
      complete active
  cases irqStep_move stepped with
  | lock | refuse | ignore => exact current.elsewhere rfl
  | pass point pending inactive =>
      have staged := timely.staged cpu call rfl point current.last
      exact current.holding staged ((current.prepared inactive).written staged) rfl rfl id id
  | raise point =>
      rw [Xbuf.raiseFlag_active]
      exact taken _ _ _ _ (by rw [point]; rfl) rfl rfl id (fun lowered => absurd lowered (by simp))
  | accept point => exact taken _ none state.invoked state.xbuf.flags (by rw [point]; rfl) rfl rfl id id
  | handler point =>
      exact taken _ state.irqLock (state.invoked + 1) state.xbuf.flags (by rw [point]; rfl) rfl rfl id id
  | noHandler point =>
      rw [Xbuf.raiseFlag_complete]
      exact taken _ _ _ _ (by rw [point]; rfl) rfl rfl (fun lowered => absurd lowered (by simp)) id

theorem irqStep_pending (stepped : irqStep params state cpu = some next) :
    next.xbuf.flags.pending = state.xbuf.flags.pending := by
  cases irqStep_move stepped with
  | raise =>
      change (state.xbuf.raiseFlag xbufActive).flags.pending = _
      simp
  | noHandler =>
      change (state.xbuf.raiseFlag xbufComplete).flags.pending = _
      simp
  | lock | pass | refuse | ignore | accept | handler => rfl

theorem Measured.step (measured : Measured params state) (guarded : Guarded state) (phase : Phase state stage)
    (timely : Timely params state action) (stepped : step params state action = some next) : Measured params next := by
  cases move_of_step stepped with
  | channel => exact measured.channel_step guarded phase timely stepped
  | deliver | spurious =>
      intro pending
      obtain ⟨call, current⟩ := measured pending
      exact ⟨call, current.elsewhere rfl⟩
  | merge =>
      intro pending
      obtain ⟨call, current⟩ := measured pending
      exact ⟨call, current.aside rfl rfl current.sole rfl rfl rfl⟩
  | irq =>
      intro pending
      obtain ⟨call, current⟩ := measured ((irqStep_pending stepped).symm.trans pending)
      exact ⟨call, current.irq_step timely stepped⟩

structure Kept (params : Params) (size : Nat) (state : State) : Prop where
  guarded : Guarded state
  phase : ∃ stage, Phase state stage
  totalSize : state.xbuf.totalSize = size
  measured : Measured params state

theorem channel_totalSize {channel after : Channel.State} {action : Channel.Action}
    (stepped : Channel.step params channel action = some after) : after.xbuf.totalSize = channel.xbuf.totalSize := by
  cases step_move stepped with
  | @owner other owner =>
      by_cases ends : ∃ resp, owner = .finish resp
      · obtain ⟨resp, rfl⟩ := ends
        rfl
      · exact (owner.step_sameControl channel.xbuf (params.message other) (params.wantsResp other)
          fun resp finishes => ends ⟨resp, finishes⟩).totalSize
  | receiver moved => exact (Receiver.step_pending moved).2.2
  | _ => rfl

theorem step_totalSize (stepped : step params state action = some next) : next.xbuf.totalSize = state.xbuf.totalSize := by
  cases move_of_step stepped with
  | channel moved => exact channel_totalSize moved
  | deliver | spurious | merge => rfl
  | irq moved => cases moved <;> rfl

theorem Kept.initial (start : Initial size state) : Kept params size state where
  guarded := .initial start
  phase := ⟨_, .initial start⟩
  totalSize := start.channel.totalSize
  measured := by
    intro pending
    exact absurd ((Phase.initial start).pending.symm.trans pending) Bool.false_ne_true

theorem Kept.step (kept : Kept params size state) (timely : Timely params state action)
    (stepped : step params state action = some next) : Kept params size next := by
  obtain ⟨guarded, ⟨stage, phase⟩, totalSize, measured⟩ := kept
  obtain ⟨stage', after, _⟩ := phase.step guarded timely.enabled stepped
  exact ⟨guarded.step timely.enabled stepped, ⟨stage', after⟩, (step_totalSize stepped).trans totalSize,
    measured.step guarded phase timely stepped⟩

theorem Kept.current (kept : Kept params size state) (last : state.channel.acquired.getLast? = some call)
    (busy : Taken state ∨ ∃ index, early (state.channel.receivers index) = true) : Current params state call := by
  obtain ⟨_, ⟨stage, phase⟩, _, measured⟩ := kept
  have pending : state.xbuf.flags.pending = true := by
    rw [phase.pending, bne_iff_ne]
    rintro rfl
    rcases busy with taken | ⟨index, began⟩
    · exact phase.untaken_free taken
    · have serving := (phase.serving index).mp began
      cases serving
  obtain ⟨other, current⟩ := measured pending
  have same : other = call := Option.some.inj (current.last.symm.trans last)
  exact same ▸ current

/-! ## The way to the end of a receive -/

theorem Timely.call_step (stepping : state.channel.calls call ≠ .raisePending) :
    Timely params state (.channel (.call call)) where
  enabled := fun _ same => by cases same
  fresh := by
    intro other same
    cases same
    exact fun raising => absurd raising stepping
  staged := fun _ _ same => by cases same
  ready := fun _ _ _ _ same => by cases same

theorem Timely.receiver_step {index : Nat} (ready : state.xbuf.flags.ready = true) :
    Timely params state (.channel (.receiver index)) where
  enabled := fun _ same => by cases same
  fresh := fun _ same => by cases same
  staged := fun _ _ same => by cases same
  ready := fun _ _ _ _ _ _ _ => ready

theorem Kept.receiver_moves {index : Nat} {after : Xbuf} {point : Receiver} (kept : Kept params size state)
    (ready : state.xbuf.flags.ready = true)
    (served : (state.channel.receivers index).step state.channel.xbuf params.response = some (after, point)) :
    ∃ next, (system params size).Path (Timely params) state next ∧ Kept params size next ∧
      next.channel.acquired = state.channel.acquired ∧ next.xbuf.flags.ready = true ∧
      next.channel.receivers index = point ∧ next.channel.calls = state.channel.calls := by
  have stepped : Interrupts.step params state (.channel (.receiver index)) = some { state with
      channel := { state.channel with
        xbuf := after
        receivers := Function.update state.channel.receivers index point
        received := recordReceived state.channel.received point } } := by
    simp only [Interrupts.step, channelStep, Channel.step, served, Option.map_some]
  have timely : Timely params state (.channel (.receiver index)) := .receiver_step ready
  refine ⟨_, .single timely stepped, kept.step timely stepped, rfl, ?_, ?_, rfl⟩
  · exact (Receiver.step_pending served).2.1.trans ready
  · change Function.update state.channel.receivers index point index = point
    rw [Function.update_self]

theorem Kept.owner_moves {owner : Owner} (kept : Kept params size state) (ready : state.xbuf.flags.ready = true)
    (point : state.channel.calls call = .owner owner) (unfinished : ∀ resp, owner ≠ .finish resp) :
    ∃ next, (system params size).Path (Timely params) state next ∧ Kept params size next ∧
      next.channel.acquired = state.channel.acquired ∧ next.xbuf.flags.ready = true ∧
      next.channel.receivers = state.channel.receivers ∧
      next.channel.calls call = (owner.step state.channel.xbuf (params.message call) (params.wantsResp call)).2 := by
  have stepped : Interrupts.step params state (.channel (.call call)) = some { state with
      channel := { state.channel with
        xbuf := (owner.step state.channel.xbuf (params.message call) (params.wantsResp call)).1
        lock := owner.lockAfter state.channel.lock
        ipis := state.channel.ipis + owner.ipisSent }.setCall call
          (owner.step state.channel.xbuf (params.message call) (params.wantsResp call)).2 } := by
    simp only [Interrupts.step, channelStep, Channel.step, callStep, point, Option.map_some]
  have timely : Timely params state (.channel (.call call)) := .call_step (by simp [point])
  have same := owner.step_sameControl state.channel.xbuf (params.message call) (params.wantsResp call) unfinished
  refine ⟨_, .single timely stepped, kept.step timely stepped, rfl, same.ready.trans ready, rfl, ?_⟩
  rw [State.setCall_calls, if_pos rfl]

theorem Kept.supply {index len : Nat} {pc : RecvPc} {read : Bytes} (kept : Kept params size state)
    (ready : state.xbuf.flags.ready = true) (last : state.channel.acquired.getLast? = some call)
    (reached : state.channel.receivers index = .recv pc len read) :
    Receiving (params.message call).length state.xbuf.dataLen (.recv pc len read) ∧
      Supply state.xbuf (params.message call) (state.channel.calls call) (.recv pc len read) ∧
      (state.channel.calls call).staging = false := by
  have began : early (state.channel.receivers index) = true := by rw [reached]; rfl
  have current := kept.current last (.inr ⟨index, began⟩)
  obtain ⟨_, ⟨stage, phase⟩, _, _⟩ := kept
  obtain rfl := (phase.serving index).mp began
  have receiving := current.receiving index
  rw [reached] at receiving
  refine ⟨receiving, current.supply ready phase.complete _ (.inl ⟨index, began, reached.symm⟩), ?_⟩
  exact Bool.eq_false_iff.mpr fun staging =>
    current.staged (.inr phase.active) ⟨List.length_pos_iff.mp receiving.2.1, staging⟩

theorem Kept.receiving (kept : Kept params size state) (last : state.channel.acquired.getLast? = some call)
    (index : Nat) :
    Receiving (params.message call).length state.xbuf.dataLen (state.channel.receivers index) := by
  cases began : early (state.channel.receivers index) with
  | true => exact (kept.current last (.inr ⟨index, began⟩)).receiving index
  | false => exact .late began

theorem Kept.received {index len : Nat} {read : Bytes} (kept : Kept params size state)
    (last : state.channel.acquired.getLast? = some call) (reached : state.channel.receivers index = .received len read) :
    len = (params.message call).length ∧ read.length = (params.message call).length := by
  have receiving := kept.receiving last index
  rw [reached] at receiving
  exact receiving

/-- A receiver that waits for a chunk lets its caller go on, and each step brings
it closer to its end. -/
theorem Kept.receives_all {index rank : Nat} (positive : 0 < size) :
    ∀ {state : State} {pc : RecvPc} {len : Nat} {read : Bytes}, Kept params size state → state.xbuf.flags.ready = true →
      state.channel.acquired.getLast? = some call → state.channel.receivers index = .recv pc len read →
      8 * (len - read.length) + pc.rank + (state.channel.calls call).unsent ≤ rank →
      ∃ after read, (system params size).Path (Timely params) state after ∧
        after.channel.receivers index = .received (params.message call).length read ∧
        read.length = (params.message call).length := by
  induction rank with
  | zero =>
      intro state pc len read _ _ _ _ bound
      cases pc <;> simp only [RecvPc.rank] at bound <;> omega
  | succ rank ih =>
      intro state pc len read kept ready last reached bound
      obtain ⟨⟨rfl, sent, within, more⟩, supply, begun⟩ := kept.supply ready last reached
      have size : 0 < state.xbuf.totalSize := kept.totalSize ▸ positive
      by_cases waits : pc = .staged ∧ state.xbuf.flags.staged = false
      · obtain ⟨rfl, clear⟩ := waits
        obtain ⟨owner, point, less⟩ := supply.moves (more (by simp)) clear ready size begun
          (params.wantsResp call)
        have unfinished : ∀ resp, owner ≠ .finish resp := by
          rintro resp rfl
          rw [point] at less
          exact Nat.not_lt_zero _ less
        obtain ⟨next, path, kept', acquired, ready', receivers, calls⟩ := kept.owner_moves ready point unfinished
        have closer : (next.channel.calls call).unsent < (state.channel.calls call).unsent := by
          rw [calls]
          exact less
        obtain ⟨after, read', rest, done⟩ := ih kept' ready' (acquired ▸ last) (receivers ▸ reached) (by omega)
        exact ⟨after, read', path.trans rest, done⟩
      · have unwaiting : pc = .staged → state.xbuf.flags.staged = true := by
          intro atTest
          cases staged : state.xbuf.flags.staged with
          | true => rfl
          | false => exact absurd ⟨atTest, staged⟩ waits
        have chunk : pc = .copy → ChunkReady state.xbuf (params.message call).length read := by
          rintro rfl
          have filled := supply.filled begun
          have unread := more (by simp)
          unfold Filled at filled
          unfold ChunkReady
          rw [List.length_take, stagedLen_eq_min]
          omega
        obtain ⟨unaborted, less⟩ := recvData_rank ready more unwaiting chunk
        have served : (state.channel.receivers index).step state.channel.xbuf params.response = some
            ((recvData state.xbuf (params.message call).length read pc).1,
              .afterRecv (params.message call).length (recvData state.xbuf (params.message call).length read pc).2) := by
          rw [reached]
          rfl
        obtain ⟨next, path, kept', acquired, ready', moved, calls⟩ := kept.receiver_moves ready served
        cases out : (recvData state.xbuf (params.message call).length read pc).2 with
        | running pc' read' =>
            rw [out] at moved less
            obtain ⟨after, bytes, rest, done⟩ := ih kept' ready' (acquired ▸ last) moved (by
              rw [calls]
              simp only [RecvOut.rank] at less
              omega)
            exact ⟨after, bytes, path.trans rest, done⟩
        | finished read' =>
            rw [out] at moved
            exact ⟨next, read', path, moved, (kept'.received (acquired ▸ last) moved).2⟩
        | aborted read' => exact absurd out (unaborted read')

theorem Kept.returns {index : Nat} (positive : 0 < size) (kept : Kept params size state)
    (last : state.channel.acquired.getLast? = some call) (inside : receives (state.channel.receivers index) = true)
    (ready : state.xbuf.flags.ready = true) :
    ∃ after read, (system params size).Path (Timely params) state after ∧
      after.channel.receivers index = .received (params.message call).length read ∧
      read.length = (params.message call).length := by
  have from_length : ∀ {state : State}, Kept params size state → state.channel.acquired.getLast? = some call →
      state.xbuf.flags.ready = true → state.channel.receivers index = .recvLen →
      ∃ after read, (system params size).Path (Timely params) state after ∧
        after.channel.receivers index = .received (params.message call).length read ∧
        read.length = (params.message call).length := by
    intro state kept last ready reached
    have served : (state.channel.receivers index).step state.channel.xbuf params.response = some
        (state.channel.xbuf, .afterRecv state.xbuf.dataLen (enterRecv state.xbuf.dataLen [])) := by
      rw [reached]
      rfl
    obtain ⟨next, path, kept', acquired, ready', moved, _⟩ := kept.receiver_moves ready served
    unfold enterRecv at moved
    split at moved
    · obtain ⟨after, read, rest, done⟩ := kept'.receives_all positive ready' (acquired ▸ last) moved (Nat.le_refl _)
      exact ⟨after, read, path.trans rest, done⟩
    · obtain ⟨same, whole⟩ := kept'.received (acquired ▸ last) moved
      exact ⟨next, [], path, same ▸ moved, whole⟩
  cases reached : state.channel.receivers index with
  | testActive =>
      have began : early (state.channel.receivers index) = true := by rw [reached]; rfl
      obtain ⟨stage, phase⟩ := kept.phase
      obtain rfl := (phase.serving index).mp began
      have active : state.channel.xbuf.flags.active = true := phase.active
      have served : (state.channel.receivers index).step state.channel.xbuf params.response =
          some (state.channel.xbuf, .recvLen) := by
        rw [reached, Receiver.step, if_pos active]
      obtain ⟨next, path, kept', acquired, ready', moved, _⟩ := kept.receiver_moves ready served
      obtain ⟨after, read, rest, done⟩ := from_length kept' (acquired ▸ last) ready' moved
      exact ⟨after, read, path.trans rest, done⟩
  | recvLen => exact from_length kept last ready reached
  | recv => exact kept.receives_all positive ready last reached (Nat.le_refl _)
  | _ =>
      rw [reached] at inside
      contradiction

/-- In every run in which a call without data finds no old length, no interrupt
looks at a message that is still being staged and READY stays set under a
receiver, the length that is received is the length that was sent. -/
theorem received_length_sent (reached : (system params size).Reachable (Timely params) state) :
    LengthSent params size state := by
  have kept : Kept params size state := reached.invariant .initial fun kept timely stepped => kept.step timely stepped
  refine ⟨?_, ?_, ?_⟩
  · exact fun call last taken => (kept.current last (.inl taken)).taken taken
  · exact fun call index last => kept.receiving last index
  · exact fun positive call index last inside ready => kept.returns positive last inside ready

/-- The message of call `i` has `i` bytes, and is answered with one more. -/
def growing : Params where
  message call := List.replicate call 0
  wantsResp _ := true
  response message := 1 :: message
  hasHandler := true

def timely (params : Params) (state : State) : Action → Bool
  | .channel (.set _) => false
  | .channel (.call call) => state.channel.calls call != .raisePending || params.message call != [] ||
      state.xbuf.dataLen == 0
  | .channel (.receiver _) => state.xbuf.flags.ready
  | .irq cpu =>
      state.cpus cpu != .test || state.channel.acquired.getLast?.all fun call =>
        !decide (Unstaged (params.message call) (state.channel.calls call))
  | _ => true

theorem timely_sound (checked : timely params state action = true) : Timely params state action where
  enabled := by
    rintro ctl rfl
    contradiction
  fresh := by
    rintro call rfl raising empty
    simpa [timely, raising, empty] using checked
  staged := by
    rintro cpu call rfl testing last
    simpa [timely, testing, last] using checked
  ready := by
    rintro index pc len read rfl _ _
    exact checked

/-- A call up to the wait for its receiver's answer. -/
def request (call index calls : Nat) : List Action :=
  .channel (.start call) :: List.replicate calls (.channel (.call call)) ++ .deliver 0 :: List.replicate 5 (.irq 0) ++
    .channel .spawn :: List.replicate 3 (.channel (.receiver index))

/-- The whole exchange of call 1 through a one-byte staging area. -/
def oneByte : List Action :=
  request 1 0 10 ++ List.replicate 9 (.channel (.receiver 0)) ++ List.replicate 7 (.channel (.call 1)) ++
    List.replicate 4 (.channel (.receiver 0)) ++ List.replicate 5 (.channel (.call 1))

/-- After an exchange of one byte, the receiver of two is about to wait for the
first of them, and can still return both. -/
theorem received_length_sent_two :
    ∃ state after : State, ∃ read, state.channel.receivers 1 = .recv .staged 2 [] ∧
      after.channel.receivers 1 = .received 2 read ∧ read.length = 2 := by
  obtain ⟨state, executed, shown⟩ := Option.map_eq_some_iff.mp
    (show ((system growing 1).run (timely growing) (boot 1) (oneByte ++ request 2 1 10)).map
      (fun state => (state.channel.receivers 1, state.channel.acquired.getLast?, state.xbuf.flags.ready)) =
        some (.recv .staged 2 [], some 2, true) by decide +kernel)
  obtain ⟨waits, last, ready⟩ := by simpa only [Prod.mk.injEq] using shown
  have reached : (system growing 1).Reachable (Timely growing) state :=
    ⟨boot 1, boot_initial 1, System.run_path timely_sound executed⟩
  obtain ⟨after, read, _, done, whole⟩ := (received_length_sent reached).returns (by decide) 2 1 last
    (by rw [waits]; rfl) ready
  exact ⟨state, after, read, waits, done, whole⟩

/-- READY stays set, and every interrupt was sent. -/
def plain : Action → Bool
  | .spurious _ | .channel (.lower _) | .channel (.set _) => false
  | _ => true

/-- A call without data is accepted with the length of the answer to the call
before it, and its receiver waits for as many bytes. -/
theorem old_length_received :
    ∃ taken waiting : State, (system growing 1).Reachable (fun _ action => plain action = true) taken ∧
      taken.channel.acquired.getLast? = some 0 ∧ Taken taken ∧ taken.xbuf.dataLen ≠ (growing.message 0).length ∧
      (system growing 1).Path (fun _ action => plain action = true) taken waiting ∧
      waiting.channel.acquired.getLast? = some 0 ∧ waiting.channel.receivers 1 = .recv .staged 2 [] := by
  have executed : ((system growing 1).run (fun _ => plain) (boot 1) (oneByte ++ (request 0 1 7).take 11)).bind
      (fun taken => ((system growing 1).run (fun _ => plain) taken ((request 0 1 7).drop 11)).map fun waiting =>
        (taken.channel.acquired.getLast?, (taken.cpus 0).taking, taken.xbuf.dataLen,
          waiting.channel.acquired.getLast?, waiting.channel.receivers 1)) =
        some (some 0, true, 2, some 0, .recv .staged 2 []) := by
    decide +kernel
  simp only [Option.bind_eq_some_iff, Option.map_eq_some_iff, Prod.mk.injEq] at executed
  obtain ⟨taken, first, waiting, second, last, taking, stale, still, waits⟩ := executed
  refine ⟨taken, waiting, ⟨boot 1, boot_initial 1, System.run_path id first⟩, last, .inl ⟨0, taking⟩, ?_,
    System.run_path id second, still, waits⟩
  rw [stale]
  decide

end Pisces.Interrupts
