import Mathlib.Data.List.Nodup
import Pisces.Xbuf.Exchange

/-! # Who owns the buffer

The descriptor's lock, the acquisition history and PENDING.  The lock and the
history are right in every run.  PENDING marks an owner only as long as no
owner gives up and nobody enables the buffer under one.
-/

namespace Pisces.Channel

open Transition

variable {params : Params} {state next : State} {action : Action}

/-- Between taking the descriptor's lock and dropping it. -/
def Call.holdsLock : Call → Bool
  | .testReady | .testPending | .resetFlags | .raisePending | .unlockErr | .unlockBusy
  | .owner .unlock => true
  | _ => false

/-- Between raising PENDING and returning. -/
def Call.owns : Call → Bool
  | .owner _ => true
  | _ => false

def Call.hasAcquired : Call → Bool
  | .owner _ | .returned _ | .failed => true
  | _ => false

theorem afterRecv_call (len : Nat) (out : RecvOut) :
    (∃ after, Call.afterRecv len out = .owner after ∧ after ≠ .unlock) ∨ Call.afterRecv len out = .failed := by
  cases out with
  | running pc read => exact .inl ⟨_, rfl, by simp⟩
  | finished read =>
      simp only [Call.afterRecv]
      split
      · exact .inr rfl
      · exact .inl ⟨_, rfl, by simp⟩
  | aborted read => exact .inr rfl

theorem Owner.step_call (point : Owner) (xbuf : Xbuf) (message : Bytes) (wants : Bool) :
    (∃ after, (point.step xbuf message wants).2 = .owner after ∧ after ≠ .unlock) ∨
      (point.step xbuf message wants).2 = .failed ∨
      ∃ result, point = .finish result ∧ (point.step xbuf message wants).2 = .returned result := by
  cases point with
  | unlock | waitComplete | testResp =>
      simp only [Owner.step]
      split <;> exact .inl ⟨_, rfl, by simp⟩
  | stage pc => cases pc <;> exact .inl ⟨_, rfl, by simp⟩
  | ipi left =>
      simp only [Owner.step, enterSend]
      split <;> exact .inl ⟨_, rfl, by simp⟩
  | send pc left =>
      simp only [Owner.step]
      cases (sendData xbuf left pc).2 <;> exact .inl ⟨_, rfl, by simp⟩
  | waitReady =>
      simp only [Owner.step]
      split
      · exact .inl ⟨_, rfl, by simp⟩
      · exact .inr (.inl rfl)
  | recvLen =>
      simp only [Owner.step]
      exact (afterRecv_call _ _).imp_right .inl
  | recv pc len read =>
      simp only [Owner.step]
      exact (afterRecv_call _ _).imp_right .inl
  | finish result => exact .inr (.inr ⟨result, rfl, rfl⟩)

theorem Owner.step_hasAcquired (point : Owner) (xbuf : Xbuf) (message : Bytes) (wants : Bool) :
    (point.step xbuf message wants).2.hasAcquired = true := by
  rcases point.step_call xbuf message wants with ⟨after, moved, _⟩ | moved | ⟨result, _, moved⟩ <;>
    rw [moved] <;> rfl

theorem Owner.step_holdsLock (point : Owner) (xbuf : Xbuf) (message : Bytes) (wants : Bool) :
    (point.step xbuf message wants).2.holdsLock = false := by
  rcases point.step_call xbuf message wants with ⟨after, moved, later⟩ | moved | ⟨result, _, moved⟩
  · rw [moved]
    cases after with
    | unlock => contradiction
    | _ => rfl
  · rw [moved]; rfl
  · rw [moved]; rfl

theorem step_idle {call : Nat} (stepped : step params state action = some next) (busy : next.calls call ≠ .idle) :
    state.calls call ≠ .idle ∨ action = .start call := by
  by_cases apart : action.concerns call = false
  · rw [step_calls_other apart stepped] at busy
    exact .inl busy
  · cases action with
    | start other =>
        have same : other = call := by simpa [Action.concerns] using apart
        exact .inr (by rw [same])
    | call other =>
        have same : other = call := by simpa [Action.concerns] using apart
        subst same
        refine .inl fun idle => ?_
        simp [step, callStep, idle] at stepped
    | signal other =>
        have same : other = call := by simpa [Action.concerns] using apart
        subst same
        refine .inl fun idle => ?_
        simp [step, idle] at stepped
    | _ => simp [Action.concerns] at apart

theorem step_returned {call : Nat} {resp : Option Bytes} (stepped : step params state action = some next)
    (before : state.calls call ≠ .returned resp) (returned : next.calls call = .returned resp) :
    action = .call call ∧ state.calls call = .owner (.finish resp) := by
  by_cases apart : action.concerns call = false
  · rw [step_calls_other apart stepped] at returned
    exact absurd returned before
  · cases step_move stepped with
    | @owner mine owner point =>
        have same : mine = call := by simpa [Action.concerns] using apart
        subst same
        rw [State.setCall_calls, if_pos rfl] at returned
        rcases owner.step_call state.xbuf (params.message mine) (params.wantsResp mine) with
          ⟨after, moved, _⟩ | moved | ⟨result, rfl, moved⟩
        · rw [moved] at returned
          contradiction
        · rw [moved] at returned
          contradiction
        · rw [moved] at returned
          cases returned
          exact ⟨rfl, point⟩
    | start | lock | resetFlags | raisePending | unlockErr | unlockBusy | wake | signal =>
        simp only [Action.concerns, Bool.not_eq_false, decide_eq_true_eq] at apart
        rw [State.setCall_calls, if_pos apart.symm] at returned
        contradiction
    | testReady | testPending =>
        simp only [Action.concerns, Bool.not_eq_false, decide_eq_true_eq] at apart
        rw [State.setCall_calls, if_pos apart.symm] at returned
        split at returned <;> contradiction
    | _ => simp [Action.concerns] at apart

/-- The lock is held by exactly the call inside the locked region. -/
def Locked (state : State) : Prop :=
  ∀ call, (state.calls call).holdsLock = true ↔ state.lock = some call

theorem Locked.setCall {call : Nat} {point : Call} (locked : Locked state)
    (same : point.holdsLock = (state.calls call).holdsLock) : Locked (state.setCall call point) := by
  intro other
  by_cases mine : other = call
  · subst mine
    simpa [same] using locked other
  · simpa [mine] using locked other

theorem Locked.take {call : Nat} {point : Call} (locked : Locked state) (free : state.lock = none)
    (holds : point.holdsLock = true) : Locked ({ state with lock := some call }.setCall call point) := by
  intro other
  by_cases mine : other = call
  · subst mine
    simp [holds]
  · have unheld := locked other
    rw [free] at unheld
    simp only [State.setCall_calls, if_neg mine, State.setCall_lock, Option.some.injEq]
    constructor
    · intro holding
      have impossible := unheld.mp holding
      contradiction
    · intro same
      exact absurd same.symm mine

theorem Locked.release {call : Nat} {point : Call} (locked : Locked state)
    (held : (state.calls call).holdsLock = true) (drops : point.holdsLock = false) :
    Locked ({ state with lock := none }.setCall call point) := by
  have owner := (locked call).mp held
  intro other
  by_cases mine : other = call
  · subst mine
    simp [drops]
  · have unheld := locked other
    rw [owner] at unheld
    have apart : ¬ some call = some other := by
      intro same
      exact mine (Option.some.inj same).symm
    simp only [State.setCall_calls, if_neg mine, State.setCall_lock]
    constructor
    · intro holding
      exact absurd (unheld.mp holding) apart
    · intro impossible
      contradiction

theorem Locked.step (locked : Locked state) (stepped : step params state action = some next) :
    Locked next := by
  cases step_move stepped with
  | start point | wake point | signal point => exact locked.setCall (by rw [point]; rfl)
  | lock point free => exact locked.take free rfl
  | testReady point | testPending point =>
      apply locked.setCall
      rw [point]
      split <;> rfl
  | resetFlags point | raisePending point => exact Locked.setCall locked (by rw [point]; rfl)
  | unlockErr point | unlockBusy point => exact locked.release (by rw [point]; rfl) rfl
  | @owner call owner point =>
      have released := owner.step_holdsLock state.xbuf (params.message call) (params.wantsResp call)
      cases owner with
      | unlock => exact Locked.release locked (by rw [point]; rfl) released
      | _ => exact Locked.setCall locked (by rw [point, released]; rfl)
  | _ => exact locked

/-- The acquisition history lists the calls that have the buffer or had it. -/
structure Acquisition (state : State) : Prop where
  nodup : state.acquired.Nodup
  mem : ∀ call, call ∈ state.acquired ↔ (state.calls call).hasAcquired = true

theorem Acquisition.setCall {call : Nat} {point : Call} (kept : Acquisition state)
    (same : point.hasAcquired = (state.calls call).hasAcquired) :
    Acquisition (state.setCall call point) := by
  refine ⟨kept.nodup, ?_⟩
  intro other
  by_cases mine : other = call
  · subst mine
    simpa [same] using kept.mem other
  · simpa [mine] using kept.mem other

theorem Acquisition.append {call : Nat} (kept : Acquisition state) (point : Owner)
    (outside : (state.calls call).hasAcquired = false) :
    Acquisition ({ state with acquired := state.acquired ++ [call] }.setCall call (.owner point)) := by
  have fresh : call ∉ state.acquired := by
    rw [kept.mem, outside]
    simp
  refine ⟨?_, ?_⟩
  · simpa [List.concat_eq_append] using List.Nodup.concat fresh kept.nodup
  · intro other
    by_cases mine : other = call
    · subst mine
      simp [Call.hasAcquired]
    · simpa [mine] using kept.mem other

theorem Acquisition.step (kept : Acquisition state) (stepped : step params state action = some next) :
    Acquisition next := by
  cases step_move stepped with
  | start point | wake point | signal point | lock point | resetFlags point | unlockErr point
  | unlockBusy point => exact Acquisition.setCall ⟨kept.nodup, kept.mem⟩ (by rw [point]; rfl)
  | testReady point | testPending point =>
      apply kept.setCall
      rw [point]
      split <;> rfl
  | raisePending point =>
      have appended := kept.append .unlock (by rw [point]; rfl)
      exact ⟨appended.nodup, appended.mem⟩
  | @owner call owner point =>
      have acquired := owner.step_hasAcquired state.xbuf (params.message call) (params.wantsResp call)
      exact Acquisition.setCall ⟨kept.nodup, kept.mem⟩ (by rw [point, acquired]; rfl)
  | _ => exact ⟨kept.nodup, kept.mem⟩

/-! ## PENDING -/

/-- The owner is about to take the error exit. -/
def Owner.givesUp (xbuf : Xbuf) : Owner → Bool
  | .waitReady | .recv .ready _ _ | .recv .spin _ _ => !xbuf.flags.ready
  | .recvLen => xbuf.dataLen = 0
  | _ => false

/-- `recv_data` is inside its loop only for a non-empty response. -/
def Owner.Sized : Owner → Prop
  | .recv _ len _ => 0 < len
  | _ => True

theorem Owner.step_sized {point after : Owner} {xbuf : Xbuf} {message : Bytes} {wants : Bool}
    (sized : point.Sized) (moved : (point.step xbuf message wants).2 = .owner after) : after.Sized := by
  cases after with
  | recv pc len read =>
      cases point with
      | unlock | waitComplete | testResp =>
          simp only [Owner.step, Call.owner.injEq] at moved
          split at moved <;> cases moved
      | stage pc => cases pc <;> cases moved
      | ipi left =>
          simp only [Owner.step, enterSend] at moved
          split at moved <;> cases moved
      | send pc left =>
          simp only [Owner.step] at moved
          cases out : (sendData xbuf left pc).2 <;> rw [out] at moved <;> cases moved
      | waitReady =>
          simp only [Owner.step] at moved
          split at moved <;> cases moved
      | recvLen =>
          simp only [Owner.step, enterRecv] at moved
          split at moved
          · rename_i more
            cases moved
            exact Nat.lt_of_lt_of_le more (Nat.sub_le _ _)
          · simp only [Call.afterRecv] at moved
            split at moved <;> cases moved
      | recv pc len read =>
          simp only [Owner.step] at moved
          cases out : (recvData xbuf len read pc).2 with
          | running next rest =>
              rw [out] at moved
              cases moved
              exact sized
          | finished rest =>
              rw [out] at moved
              simp only [Call.afterRecv] at moved
              split at moved <;> cases moved
          | aborted rest =>
              rw [out] at moved
              cases moved
      | finish result => cases moved
  | _ => trivial

theorem Owner.step_failed {point : Owner} {xbuf : Xbuf} (sized : point.Sized) (message : Bytes)
    (wants : Bool) :
    (point.step xbuf message wants).2 = .failed ↔ point.givesUp xbuf = true := by
  cases point with
  | unlock | waitComplete | testResp =>
      simp only [Owner.step, Owner.givesUp]
      split <;> simp
  | stage pc => cases pc <;> simp [Owner.step, Owner.givesUp, initStageData]
  | ipi left =>
      simp only [Owner.step, enterSend, Owner.givesUp]
      split <;> simp [Call.afterSend]
  | send pc left =>
      simp only [Owner.step, Owner.givesUp]
      cases (sendData xbuf left pc).2 <;> simp [Call.afterSend]
  | waitReady =>
      simp only [Owner.step, Owner.givesUp]
      split
      · rename_i ready
        simp [ready]
      · rename_i lowered
        simpa using lowered
  | recvLen =>
      simp only [Owner.step, Owner.givesUp, enterRecv]
      split
      · rename_i more
        have some : xbuf.dataLen ≠ 0 := by
          intro none
          simp [none] at more
        simp [Call.afterRecv, some]
      · rename_i none
        have empty : xbuf.dataLen = 0 := by simpa using none
        simp [Call.afterRecv, empty]
  | recv pc len read =>
      cases pc with
      | ready | spin =>
          simp only [Owner.step, Owner.givesUp, recvData]
          split
          · rename_i ready
            simp [Call.afterRecv, ready]
          · rename_i lowered
            simpa [Call.afterRecv] using lowered
      | staged =>
          simp only [Owner.step, Owner.givesUp, recvData]
          split <;> simp [Call.afterRecv]
      | copy => simp [Owner.step, Owner.givesUp, recvData, Call.afterRecv]
      | lower =>
          simp only [Owner.step, Owner.givesUp, recvData, enterRecv]
          split
          · simp [Call.afterRecv]
          · rename_i all
            have some : read.length ≠ 0 := by
              have positive : 0 < len := sized
              omega
            simp [Call.afterRecv, some]
  | finish result => simp [Owner.step, Owner.givesUp]

/-- PENDING keeps every other call out while there is an owner. -/
structure Exclusive (state : State) : Prop where
  locked : Locked state
  unique : ∀ {call other}, (state.calls call).owns = true → (state.calls other).owns = true → call = other
  marks : ∀ {call}, (state.calls call).owns = true → state.xbuf.flags.pending = true
  clear : ∀ {call}, state.calls call = .resetFlags ∨ state.calls call = .raisePending →
    state.xbuf.flags.pending = false
  sized : ∀ {call point}, state.calls call = .owner point → point.Sized

theorem Exclusive.initial {size : Nat} (start : Initial size state) : Exclusive state where
  locked := by
    intro call
    simp [start.calls call, Call.holdsLock, start.lock]
  unique := by
    intro call other owns
    simp [start.calls call, Call.owns] at owns
  marks := by
    intro call owns
    simp [start.calls call, Call.owns] at owns
  clear := by
    intro call point
    simp [start.calls call] at point
  sized := by
    intro call point owner
    simp [start.calls call] at owner

theorem Exclusive.frame (kept : Exclusive state) (locked : Locked next)
    (calls : next.calls = state.calls)
    (pending : next.xbuf.flags.pending = state.xbuf.flags.pending) : Exclusive next where
  locked := locked
  unique := by
    rw [calls]
    exact kept.unique
  marks := by
    rw [calls, pending]
    exact kept.marks
  clear := by
    rw [calls, pending]
    exact kept.clear
  sized := by
    rw [calls]
    exact kept.sized

theorem Exclusive.outside {call : Nat} {point : Call} (kept : Exclusive state) (locked : Locked next)
    (calls : next.calls = Function.update state.calls call point)
    (pending : next.xbuf.flags.pending = state.xbuf.flags.pending)
    (was : (state.calls call).owns = false) (now : point.owns = false)
    (clear : point = .resetFlags ∨ point = .raisePending → state.xbuf.flags.pending = false) :
    Exclusive next := by
  have owners : ∀ other, (next.calls other).owns = (state.calls other).owns := by
    intro other
    by_cases mine : other = call
    · subst mine
      simp [calls, was, now]
    · simp [calls, mine]
  refine ⟨locked, ?_, ?_, ?_, ?_⟩
  · intro left right
    rw [owners, owners]
    exact kept.unique
  · intro other owns
    rw [owners] at owns
    exact pending.trans (kept.marks owns)
  · intro other reached
    rw [pending]
    by_cases mine : other = call
    · subst mine
      rw [calls, Function.update_self] at reached
      exact clear reached
    · rw [calls, Function.update_of_ne mine] at reached
      exact kept.clear reached
  · intro other owner reached
    have owns : (next.calls other).owns = true := by rw [reached]; rfl
    rw [owners] at owns
    have apart : other ≠ call := by
      intro mine
      rw [mine, was] at owns
      contradiction
    rw [calls, Function.update_of_ne apart] at reached
    exact kept.sized reached

/-- Acquiring: the lock keeps every other call out of the two steps. -/
theorem Exclusive.acquire {call : Nat} (kept : Exclusive state) (locked : Locked next)
    (point : state.calls call = .raisePending)
    (calls : next.calls = Function.update state.calls call (.owner .unlock))
    (raised : next.xbuf.flags.pending = true) : Exclusive next := by
  have unowned : ∀ other, (state.calls other).owns = false := by
    intro other
    have clear := kept.clear (.inr point)
    cases owns : (state.calls other).owns with
    | false => rfl
    | true => exact absurd (kept.marks owns) (by simp [clear])
  have sole : ∀ {other}, (next.calls other).owns = true → other = call := by
    intro other owns
    by_contra apart
    rw [calls, Function.update_of_ne apart, unowned] at owns
    contradiction
  have holder : state.lock = some call := (kept.locked call).mp (by rw [point]; rfl)
  refine ⟨locked, ?_, fun _ => raised, ?_, ?_⟩
  · intro left right first second
    rw [sole first, sole second]
  · intro other reached
    exfalso
    by_cases mine : other = call
    · rw [mine, calls, Function.update_self] at reached
      rcases reached with reached | reached <;> cases reached
    · rw [calls, Function.update_of_ne mine] at reached
      have holds : (state.calls other).holdsLock = true := by
        rcases reached with reached | reached <;> rw [reached] <;> rfl
      rw [kept.locked other, holder] at holds
      exact mine (Option.some.inj holds).symm
  · intro other owner reached
    have mine : other = call := sole (by rw [reached]; rfl)
    rw [mine, calls, Function.update_self] at reached
    cases reached
    trivial

theorem Exclusive.hold {call : Nat} {owner after : Owner} (kept : Exclusive state) (locked : Locked next)
    (point : state.calls call = .owner owner)
    (calls : next.calls = Function.update state.calls call (.owner after))
    (pending : next.xbuf.flags.pending = state.xbuf.flags.pending) (sized : after.Sized) :
    Exclusive next := by
  have owners : ∀ other, (next.calls other).owns = (state.calls other).owns := by
    intro other
    by_cases mine : other = call
    · rw [mine, calls, Function.update_self, point]
      rfl
    · rw [calls, Function.update_of_ne mine]
  refine ⟨locked, ?_, ?_, ?_, ?_⟩
  · intro left right
    rw [owners, owners]
    exact kept.unique
  · intro other owns
    rw [owners] at owns
    exact pending.trans (kept.marks owns)
  · intro other reached
    rw [pending]
    by_cases mine : other = call
    · rw [mine, calls, Function.update_self] at reached
      rcases reached with reached | reached <;> cases reached
    · rw [calls, Function.update_of_ne mine] at reached
      exact kept.clear reached
  · intro other following reached
    by_cases mine : other = call
    · rw [mine, calls, Function.update_self] at reached
      cases reached
      exact sized
    · rw [calls, Function.update_of_ne mine] at reached
      exact kept.sized reached

theorem Exclusive.release {call : Nat} {point : Call} (kept : Exclusive state) (locked : Locked next)
    (owned : (state.calls call).owns = true) (gone : point.owns = false) (left : point.hasAcquired = true)
    (calls : next.calls = Function.update state.calls call point) : Exclusive next := by
  have unowned : ∀ other, (next.calls other).owns = false := by
    intro other
    by_cases mine : other = call
    · rw [mine, calls, Function.update_self]
      exact gone
    · rw [calls, Function.update_of_ne mine]
      cases owns : (state.calls other).owns with
      | false => rfl
      | true => exact absurd (kept.unique owns owned) mine
  refine ⟨locked, ?_, ?_, ?_, ?_⟩
  · intro left right owns
    rw [unowned] at owns
    contradiction
  · intro other owns
    rw [unowned] at owns
    contradiction
  · intro other reached
    exfalso
    by_cases mine : other = call
    · rw [mine, calls, Function.update_self] at reached
      rcases reached with reached | reached <;> rw [reached] at left <;> cases left
    · rw [calls, Function.update_of_ne mine] at reached
      have clear := kept.clear reached
      rw [kept.marks owned] at clear
      contradiction
  · intro other owner reached
    have owns : (next.calls other).owns = true := by rw [reached]; rfl
    rw [unowned] at owns
    contradiction

theorem Exclusive.step (kept : Exclusive state)
    (unused : ∀ ctl, action = .set ctl → ∀ call, (state.calls call).owns = false)
    (stepped : step params state action = some next) : Exclusive next := by
  have locked := kept.locked.step stepped
  cases step_move stepped with
  | start point | wake point | signal point | lock point | unlockErr point | unlockBusy point =>
      exact kept.outside locked rfl rfl (by rw [point]; rfl) rfl (by simp)
  | testReady point =>
      refine kept.outside locked rfl rfl (by rw [point]; rfl) ?_ ?_
      · split <;> rfl
      · split <;> simp
  | testPending point =>
      refine kept.outside locked rfl rfl (by rw [point]; rfl) ?_ ?_
      · split <;> rfl
      · split
        · simp
        · rename_i clear
          intro _
          simpa using clear
  | resetFlags point =>
      have clear := kept.clear (.inl point)
      exact kept.outside locked rfl (by simp [clear]) (by rw [point]; rfl) rfl (fun _ => clear)
  | raisePending point => exact kept.acquire locked point rfl (by simp)
  | @owner call owner point =>
      have owned : (state.calls call).owns = true := by rw [point]; rfl
      rcases owner.step_call state.xbuf (params.message call) (params.wantsResp call) with
        ⟨after, moved, _⟩ | moved | ⟨result, rfl, moved⟩
      · have unfinished : ∀ result, owner ≠ .finish result := by
          intro result same
          rw [same] at moved
          cases moved
        have same := owner.step_sameControl state.xbuf (params.message call) (params.wantsResp call) unfinished
        exact kept.hold locked point (by simp only [State.setCall, moved]) same.pending
          (Owner.step_sized (kept.sized point) moved)
      · have gone : Call.failed.owns = false := rfl
        exact kept.release locked owned gone rfl (by simp only [State.setCall, moved])
      · have gone : (Call.returned result).owns = false := rfl
        exact kept.release locked owned gone rfl rfl
  | deliver | spurious | irqTest | spawn | disable | enable => exact kept.frame locked rfl rfl
  | irqRaise | irqNoHandler | lower => exact kept.frame locked rfl (by simp)
  | receiver moved => exact kept.frame locked rfl (Receiver.step_pending moved).1
  | @set ctl =>
      refine ⟨locked, kept.unique, ?_, fun _ => rfl, kept.sized⟩
      intro call owns
      have unowned := unused ctl rfl call
      exact absurd owns (by simp [State.setCtl, unowned])

/-- At most one call is between raising PENDING and returning, and PENDING is
set only while there is one. -/
structure SoleOwner (state : State) : Prop where
  unique : ∀ {call other}, (state.calls call).owns = true → (state.calls other).owns = true → call = other
  marked : state.xbuf.flags.pending = true → ∃ call, (state.calls call).owns = true

/-- No owner takes the error exit and the buffer is not enabled under an
owner. -/
def KeepsOwner (state : State) : Action → Prop
  | .call call => ∀ point, state.calls call = .owner point → point.givesUp state.xbuf = false
  | .set _ => ∀ call, (state.calls call).owns = false
  | _ => True

theorem step_pending (stepped : step params state action = some next)
    (pending : next.xbuf.flags.pending = true) :
    state.xbuf.flags.pending = true ∨ ∃ call, next.calls call = .owner .unlock := by
  cases step_move stepped with
  | resetFlags => simp at pending
  | @raisePending call => exact .inr ⟨call, by simp⟩
  | @owner call owner =>
      by_cases last : ∃ result, owner = .finish result
      · obtain ⟨result, rfl⟩ := last
        simp [Owner.step] at pending
      · have same := owner.step_sameControl state.xbuf (params.message call) (params.wantsResp call)
          (fun result same => last ⟨result, same⟩)
        exact .inl (same.pending ▸ pending)
  | receiver moved => exact .inl ((Receiver.step_pending moved).1 ▸ pending)
  | irqRaise | irqNoHandler | lower => exact .inl (by simpa using pending)
  | set => cases pending
  | _ => exact .inl pending

theorem marked_step (kept : Exclusive state)
    (marked : state.xbuf.flags.pending = true → ∃ call, (state.calls call).owns = true)
    (keeps : KeepsOwner state action) (stepped : step params state action = some next)
    (pending : next.xbuf.flags.pending = true) : ∃ call, (next.calls call).owns = true := by
  rcases step_pending stepped pending with before | ⟨call, acquired⟩
  · obtain ⟨call, owns⟩ := marked before
    by_cases apart : action.concerns call = false
    · refine ⟨call, ?_⟩
      rw [step_calls_other apart stepped]
      exact owns
    · cases step_move stepped with
      | @owner mine owner point =>
          rcases owner.step_call state.xbuf (params.message mine) (params.wantsResp mine) with
            ⟨after, moved, _⟩ | moved | ⟨result, rfl, moved⟩
          · exact ⟨mine, by simp [moved, Call.owns]⟩
          · rw [Owner.step_failed (kept.sized point), keeps owner point] at moved
            contradiction
          · simp [Owner.step] at pending
      | start point | lock point | testReady point | testPending point | resetFlags point
      | raisePending point | unlockErr point | unlockBusy point | wake point | signal point =>
          simp only [Action.concerns, Bool.not_eq_false, decide_eq_true_eq] at apart
          subst apart
          rw [point] at owns
          contradiction
      | _ => simp [Action.concerns] at apart
  · refine ⟨call, ?_⟩
    rw [acquired]
    rfl

structure Ownership (state : State) : Prop extends Exclusive state where
  marked : state.xbuf.flags.pending = true → ∃ call, (state.calls call).owns = true

theorem Ownership.initial {size : Nat} (start : Initial size state) : Ownership state where
  toExclusive := .initial start
  marked := by
    intro pending
    rw [start.flags] at pending
    contradiction

theorem Ownership.step (kept : Ownership state) (keeps : KeepsOwner state action)
    (stepped : step params state action = some next) : Ownership next where
  toExclusive := by
    refine kept.toExclusive.step ?_ stepped
    rintro ctl rfl
    exact keeps
  marked := marked_step kept.toExclusive kept.marked keeps stepped

/-- While no owner gives up and nobody enables the buffer under one, PENDING and
the owner come and go together.  An owner that does give up leaves PENDING
behind. -/
theorem sole_owner_of_keepsOwner (params : Params) (size : Nat) :
    (∀ state, (system params size).Reachable KeepsOwner state → SoleOwner state) ∧
      ∀ state call point next, (system params size).Reachable KeepsOwner state →
        state.calls call = .owner point → point.givesUp state.xbuf = true →
        (system params size).step state (.call call) = some next → ¬ SoleOwner next := by
  have invariant : ∀ state, (system params size).Reachable KeepsOwner state → Ownership state := by
    intro state reached
    exact reached.invariant Ownership.initial (fun kept keeps stepped => kept.step keeps stepped)
  refine ⟨fun state reached => ⟨(invariant state reached).unique, (invariant state reached).marked⟩, ?_⟩
  intro state call owner next reached point gives stepped sole
  have kept := invariant state reached
  have owned : (state.calls call).owns = true := by rw [point]; rfl
  change step params state (.call call) = some next at stepped
  cases step_move stepped with
  | owner found =>
      rw [point] at found
      cases found
      have failed := (Owner.step_failed (kept.sized point) (params.message call)
        (params.wantsResp call)).mpr gives
      have unfinished : ∀ result, owner ≠ .finish result := by
        intro result same
        rw [same] at gives
        contradiction
      have same := owner.step_sameControl state.xbuf (params.message call) (params.wantsResp call) unfinished
      obtain ⟨other, owns⟩ := sole.marked (same.pending.trans (kept.marks owned))
      by_cases mine : other = call
      · simp [mine, failed, Call.owns] at owns
      · simp only [State.setCall_calls, if_neg mine] at owns
        exact mine (kept.unique owns owned)
  | _ => simp_all

/-- One-byte messages, answered with one byte more. -/
def echo : Params where
  message := fun _ => [0]
  wantsResp := fun _ => true
  response := fun message => 1 :: message
  hasHandler := true

/-- Call 0 acquires the buffer and drops the lock. -/
def acquire : List Action := [.start 0, .call 0, .call 0, .call 0, .call 0, .call 0, .call 0]

/-- A sufficient test for `KeepsOwner` that can be run. -/
def keepsOwner (state : State) : Action → Bool
  | .call call =>
      match state.calls call with
      | .owner point => !point.givesUp state.xbuf
      | _ => true
  | .set _ => false
  | _ => true

theorem keepsOwner_sound (checked : keepsOwner state action = true) : KeepsOwner state action := by
  cases action with
  | call call =>
      intro point reached
      simpa [keepsOwner, reached] using checked
  | set ctl => contradiction
  | _ => trivial

theorem sole_owner_acquired :
    ∃ state, (system echo 1).Reachable KeepsOwner state ∧ state.xbuf.flags.pending = true ∧
      SoleOwner state := by
  obtain ⟨state, executed, pending⟩ : ∃ state, (system echo 1).run keepsOwner (boot 1) acquire = some state ∧
      state.xbuf.flags.pending = true := ⟨_, rfl, rfl⟩
  have reached : (system echo 1).Reachable KeepsOwner state :=
    ⟨boot 1, boot_initial 1, System.run_path keepsOwner_sound executed⟩
  exact ⟨state, reached, pending, (sole_owner_of_keepsOwner echo 1).1 state reached⟩

/-- Call 0 acquires the buffer and sends, call 1 goes to sleep, the buffer is
disabled and call 0 gives up. -/
def abandon : List Action :=
  [.start 0, .call 0, .call 0, .call 0, .call 0, .call 0, .call 0, .call 0, .call 0, .call 0, .call 0,
    .start 1, .call 1, .call 1, .call 1, .call 1, .call 0, .disable 0, .lower 0, .call 0]

theorem abandoned_pending :
    ∃ state, (system echo 1).Reachable (fun _ _ => True) state ∧ state.calls 0 = .failed ∧
      state.calls 1 = .sleep ∧ state.xbuf.flags.pending = true ∧ ¬ SoleOwner state := by
  obtain ⟨state, executed, first, second, pending⟩ : ∃ state,
      (system echo 1).run (fun _ _ => true) (boot 1) abandon = some state ∧ state.calls 0 = .failed ∧
        state.calls 1 = .sleep ∧ state.xbuf.flags.pending = true :=
    ⟨_, rfl, rfl, rfl, rfl⟩
  refine ⟨state, ⟨boot 1, boot_initial 1, System.run_path
    (fun _ => trivial) executed⟩, first, second,
    pending, ?_⟩
  intro sole
  obtain ⟨call, owns⟩ := sole.marked pending
  match call with
  | 0 => simp [first, Call.owns] at owns
  | 1 => simp [second, Call.owns] at owns
  | call + 2 =>
      have apart : ∀ action ∈ abandon, action.concerns (call + 2) = false := by
        simp [abandon, Action.concerns]
      rw [run_calls_other apart executed] at owns
      simp [boot, Call.owns] at owns

end Pisces.Channel
