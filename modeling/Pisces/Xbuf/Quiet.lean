import Pisces.Xbuf.Rpc
import Pisces.Xbuf.Underway

/-! # The end of an exchange

What the receiving side can still write after `pisces_xbuf_sync_send` returned
0.
-/

namespace Pisces.Channel

open Transition

variable {params : Params} {state next : State} {action : Action} {call count size : Nat} {accept : Accept}
  {xbuf after : Xbuf} {message resp : Bytes} {owner : Call} {receiver point : Receiver}

/-- The next access to the buffer is a write. -/
def Receiver.writes : Receiver → Bool
  | .recv .lower _ _ | .stage _ _ | .raiseComplete _ | .reply .copy _ | .reply .raise _ => true
  | _ => false

def Irq.writes : Irq → Bool
  | .raise | .noHandler => true
  | _ => false

/-- Nothing on the receiving side is about to write. -/
structure Quiet (state : State) : Prop where
  receivers : ∀ index, (state.receivers index).writes = false
  irq : state.irq.writes = false

/-- The caller takes the response, or the response is staged in one piece. -/
def Fits (params : Params) (size call : Nat) : Prop :=
  params.hasHandler = true → params.wantsResp call = false →
    (params.response (params.message call)).length ≤ size

/-- READY stays set, and every call that is started fits. -/
def Fitting (params : Params) (size : Nat) (state : State) (action : Action) : Prop :=
  Steady state action ∧ ∀ call, action = .start call → Fits params size call

/-- No interrupt is delivered after a message that was raised later than `returned`. -/
def Unannounced (returned state : State) (action : Action) : Prop :=
  action = .deliver → state.acquired = returned.acquired

theorem Receiver.step_unwritten {response : Bytes → Bytes} (idle : receiver.writes = false)
    (stepped : receiver.step xbuf response = some (after, point)) : after = xbuf := by
  cases receiver with
  | testActive | recvLen | received | testComplete => cases stepped; rfl
  | recv pc len read =>
      cases pc with
      | lower => contradiction
      | ready | staged | spin | copy => cases stepped; rfl
  | reply pc left =>
      cases pc with
      | copy | raise => contradiction
      | ready | staged | spin => cases stepped; rfl
  | stage | raiseComplete => contradiction
  | idle | done | inactive => cases stepped

theorem Quiet.unwritten (quiet : Quiet state) (side : action = .irq ∨ ∃ index, action = .receiver index)
    (stepped : step params state action = some next) : next.xbuf = state.xbuf := by
  rcases side with rfl | ⟨index, rfl⟩
  · have idle := quiet.irq
    cases step_move stepped with
    | irqTest => rfl
    | irqRaise point | irqNoHandler point =>
        rw [point] at idle
        contradiction
  · cases step_move stepped with
    | receiver moved => exact Receiver.step_unwritten (quiet.receivers index) moved

/-! ## Runs -/

/-- `call` has the buffer, or gave up on it. -/
structure Holds (state : State) (call : Nat) : Prop where
  pending : state.xbuf.flags.pending = true
  sole : ∀ other, (state.calls other).owns = true → other = call
  acquired : (state.calls call).hasAcquired = true

/-- Nobody has the buffer, or the receiving side has to do with the message of
the call that has it, or is about to refuse it, or has done with it. -/
inductive Turn (params : Params) (state : State) : Prop where
  | free (count : Nat) (linked : Linked state count .before)
      (unowned : ∀ call, (state.calls call).owns = false)
      (flags : state.xbuf.flags = { ready := state.xbuf.flags.ready })
  | busy (count call : Nat) (accept : Accept) (linked : Linked state count accept) (holds : Holds state call)
      (handler : accept.handed = 1 → params.hasHandler = true)
      (underway : Underway state.xbuf (params.message call) (params.response (params.message call))
        (params.wantsResp call) (state.calls call) accept)
  | refusing (count call : Nat) (linked : Linked { state with irq := .idle } count .before)
      (irq : state.irq = .noHandler) (holds : Holds state call) (handler : params.hasHandler = false)
      (announced : Announced state.xbuf (params.message call) (state.calls call))
  | finished (count call : Nat) (linked : Linked state count .before) (holds : Holds state call)
      (notified : (state.calls call).notified = true)
      (concluding : params.hasHandler = true → params.wantsResp call = true →
        Concluding state.xbuf (params.response (params.message call)) (state.calls call))

theorem Holds.frame (holds : Holds state call) (calls : next.calls = state.calls)
    (pending : next.xbuf.flags.pending = state.xbuf.flags.pending) : Holds next call where
  pending := pending.trans holds.pending
  sole := by
    rw [calls]
    exact holds.sole
  acquired := by
    rw [calls]
    exact holds.acquired

theorem Holds.setCall {after : Call} (holds : Holds state call) {xbuf : Xbuf} {lock : Option Nat} {ipis : Nat}
    (pending : xbuf.flags.pending = state.xbuf.flags.pending) (acquired : after.hasAcquired = true) :
    Holds ({ state with xbuf, lock, ipis }.setCall call after) call where
  pending := pending.trans holds.pending
  sole := by
    intro other owns
    by_contra apart
    rw [State.setCall_calls, if_neg apart] at owns
    exact apart (holds.sole other owns)
  acquired := by
    rw [State.setCall_calls, if_pos rfl]
    exact acquired

theorem Holds.outside {other : Nat} {after : Call} (holds : Holds state call) (lock : Option Nat)
    (was : (state.calls other).hasAcquired = false) (now : after.owns = false) :
    Holds ({ state with lock }.setCall other after) call ∧
      ({ state with lock }.setCall other after).calls call = state.calls call := by
  have apart : call ≠ other := by
    rintro rfl
    rw [holds.acquired] at was
    contradiction
  have kept : ({ state with lock }.setCall other after).calls call = state.calls call := by
    rw [State.setCall_calls, if_neg apart]
  refine ⟨⟨holds.pending, ?_, kept ▸ holds.acquired⟩, kept⟩
  intro third owns
  rw [State.setCall_calls] at owns
  split at owns
  · rw [now] at owns
    contradiction
  · exact holds.sole third owns

theorem Turn.outside {after : Call} {lock : Option Nat} (turn : Turn params state)
    (was : (state.calls call).hasAcquired = false) (now : after.owns = false) :
    Turn params ({ state with lock }.setCall call after) := by
  cases turn with
  | free count linked unowned flags =>
      refine .free count (linked.frame rfl rfl rfl rfl rfl) ?_ flags
      intro other
      rw [State.setCall_calls]
      split
      · exact now
      · exact unowned other
  | busy count owner accept linked holds handler underway =>
      obtain ⟨held, kept⟩ := holds.outside lock was now
      refine .busy count owner accept (linked.frame rfl rfl rfl rfl rfl) held handler ?_
      rw [kept]
      exact underway
  | refusing count owner linked irq holds handler announced =>
      obtain ⟨held, kept⟩ := holds.outside lock was now
      refine .refusing count owner (linked.frame rfl rfl rfl rfl rfl) irq held handler ?_
      rw [kept]
      exact announced
  | finished count owner linked holds notified concluding =>
      obtain ⟨held, kept⟩ := holds.outside lock was now
      refine .finished count owner (linked.frame rfl rfl rfl rfl rfl) held ?_ ?_
      · rw [kept]
        exact notified
      · rw [kept]
        exact concluding

theorem Turn.flags_of_clear (turn : Turn params state) (clear : state.xbuf.flags.pending = false) :
    ∃ count, Linked state count .before ∧ (∀ call, (state.calls call).owns = false) ∧
      state.xbuf.flags = { ready := state.xbuf.flags.ready } := by
  cases turn with
  | free count linked unowned flags => exact ⟨count, linked, unowned, flags⟩
  | busy _ _ _ _ holds | refusing _ _ _ _ holds | finished _ _ _ holds =>
      rw [holds.pending] at clear
      contradiction

theorem Turn.acquire (turn : Turn params state) (clear : state.xbuf.flags.pending = false) :
    Turn params ({ state with
      xbuf := state.xbuf.raiseFlag xbufPending
      acquired := state.acquired ++ [call] }.setCall call (.owner .unlock)) := by
  obtain ⟨count, linked, unowned, flags⟩ := turn.flags_of_clear clear
  refine .busy count call .before (linked.frame rfl rfl rfl rfl rfl) ⟨by simp, ?_, by simp [Call.hasAcquired]⟩
    (by simp [Accept.handed]) ?_
  · intro other owns
    by_contra apart
    rw [State.setCall_calls, if_neg apart, unowned] at owns
    contradiction
  · rw [State.setCall_calls, if_pos rfl, State.setCall_xbuf]
    change Underway (state.xbuf.raiseFlag xbufPending) _ _ _ _ _
    rw [Xbuf.raiseFlag_pending]
    refine ⟨by rw [flags], by rw [flags], ?_⟩
    by_cases sent : params.message call = []
    · exact .inr ⟨sent, by rw [flags], .inl rfl⟩
    · refine .inl ⟨sent, ?_⟩
      change state.xbuf.flags.staged = false
      rw [flags]

theorem Linked.busy_or {index : Nat} (linked : Linked state count accept)
    (moved : (state.receivers index).step xbuf params.response = some (after, point)) :
    index = count ∧ accept = .running (state.receivers index) := by
  have busy : ¬ (state.receivers index = .done ∨ state.receivers index = .idle) := by
    rintro (still | still) <;> rw [still] at moved <;> cases moved
  cases accept with
  | running receiver =>
      have mine : index = count := by
        by_contra apart
        exact busy (linked.still (fun _ _ => apart))
      subst mine
      rw [linked.running receiver rfl]
      exact ⟨rfl, rfl⟩
  | _ => exact absurd (linked.still (by simp)) busy

theorem Turn.owner_step {owner : Owner} (turn : Turn params state) (reached : state.calls call = .owner owner) :
    Turn params
      ({ state with
        xbuf := (owner.step state.xbuf (params.message call) (params.wantsResp call)).1
        lock := owner.lockAfter state.lock
        ipis := state.ipis + owner.ipisSent }.setCall call
          (owner.step state.xbuf (params.message call) (params.wantsResp call)).2) := by
  have owns : (state.calls call).owns = true := by rw [reached]; rfl
  have acquired := owner.step_hasAcquired state.xbuf (params.message call) (params.wantsResp call)
  cases turn with
  | free count linked unowned flags =>
      rw [unowned] at owns
      contradiction
  | busy count mine accept linked holds handler underway =>
      obtain rfl := holds.sole call owns
      rw [reached] at underway
      have unfinished : ∀ result, owner ≠ .finish result := by
        rintro result rfl
        exact underway.unfinished
      have same := owner.step_sameControl state.xbuf (params.message call) (params.wantsResp call) unfinished
      by_cases early : ∃ left, owner = .ipi left
      · obtain ⟨left, rfl⟩ := early
        obtain ⟨rfl, sent⟩ := underway.ipi_step
        refine .busy count call .ipi (linked.sent rfl rfl rfl rfl rfl) (holds.setCall same.pending acquired)
          (by simp [Accept.handed]) ?_
        rw [State.setCall_calls, if_pos rfl]
        exact sent
      · have quiet : owner.ipisSent = 0 := by
          cases owner with
          | ipi left => exact absurd ⟨left, rfl⟩ early
          | _ => rfl
        refine .busy count call accept (linked.frame ?_ rfl rfl rfl rfl) (holds.setCall same.pending acquired)
          handler ?_
        · change state.ipis + owner.ipisSent = state.ipis
          rw [quiet, Nat.add_zero]
        · rw [State.setCall_calls, if_pos rfl]
          exact underway.owner_step (fun left same => early ⟨left, same⟩)
  | refusing count mine linked irq holds handler announced =>
      obtain rfl := holds.sole call owns
      rw [reached] at announced
      have kept := announced.owner_step (params.wantsResp call)
      have same : state.xbuf.SameOutside (owner.step state.xbuf (params.message call) (params.wantsResp call)).1 :=
        (announced.2.2.owner_step announced.1).1
      have quiet := (Owner.step_notified announced.2.2.notified state.xbuf (params.message call)
        (params.wantsResp call)).1
      refine .refusing count call (linked.frame ?_ rfl rfl rfl rfl) irq (holds.setCall same.pending acquired)
        handler ?_
      · change state.ipis + owner.ipisSent = state.ipis
        rw [quiet, Nat.add_zero]
      · rw [State.setCall_calls, if_pos rfl]
        exact kept
  | finished count mine linked holds notified concluding =>
      obtain rfl := holds.sole call owns
      rw [reached] at notified concluding
      obtain ⟨quiet, later⟩ := Owner.step_notified notified state.xbuf (params.message call)
        (params.wantsResp call)
      have receiving : Linked ({ state with
          xbuf := (owner.step state.xbuf (params.message call) (params.wantsResp call)).1
          lock := owner.lockAfter state.lock
          ipis := state.ipis + owner.ipisSent }.setCall call
            (owner.step state.xbuf (params.message call) (params.wantsResp call)).2) count .before := by
        refine linked.frame ?_ rfl rfl rfl rfl
        change state.ipis + owner.ipisSent = state.ipis
        rw [quiet, Nat.add_zero]
      by_cases last : ∃ result, owner = .finish result
      · obtain ⟨result, rfl⟩ := last
        refine .free count receiving ?_ (by simp [Owner.step])
        intro other
        by_cases mine : other = call
        · rw [State.setCall_calls, if_pos mine]
          rfl
        · rw [State.setCall_calls, if_neg mine]
          cases owned : (state.calls other).owns with
          | false => rfl
          | true => exact absurd (holds.sole other owned) mine
      · have unfinished : ∀ result, owner ≠ .finish result := fun result same => last ⟨result, same⟩
        have same := owner.step_sameControl state.xbuf (params.message call) (params.wantsResp call) unfinished
        refine .finished count call receiving (holds.setCall same.pending acquired) ?_ ?_
        · rw [State.setCall_calls, if_pos rfl]
          exact later.resolve_right last
        · intro handler wants
          rw [State.setCall_calls, if_pos rfl]
          have kept := (concluding handler wants).owner_step unfinished (params.message call)
          rw [← wants] at kept
          exact kept

theorem Turn.deliver (turn : Turn params state) (sent : 0 < state.ipis) :
    Turn params { state with irq := .test, ipis := state.ipis - 1 } := by
  cases turn with
  | busy count call accept linked holds handler underway =>
      rw [linked.ipis] at sent
      cases accept with
      | ipi => exact .busy count call .irqTest linked.deliver (holds.frame rfl rfl) (by simp [Accept.handed]) underway
      | _ => exact absurd sent (Nat.lt_irrefl 0)
  | free _ linked | finished _ _ linked =>
      rw [linked.ipis] at sent
      exact absurd sent (Nat.lt_irrefl 0)
  | refusing _ _ linked =>
      have ipis : state.ipis = 0 := linked.ipis
      omega

theorem Turn.irqTest (turn : Turn params state) (reached : state.irq = .test) :
    Turn params { state with
      irq := if state.xbuf.flags.pending && !state.xbuf.flags.active then .raise else .idle } := by
  cases turn with
  | busy count call accept linked holds handler underway =>
      have irq := linked.irq
      rw [reached] at irq
      cases accept with
      | irqTest =>
          rw [holds.pending, underway.1]
          exact .busy count call .irqRaise linked.irqTest (holds.frame rfl rfl) (by simp [Accept.handed]) underway
      | _ => contradiction
  | free _ linked | finished _ _ linked =>
      have irq := linked.irq
      rw [reached] at irq
      contradiction
  | refusing _ _ _ irq =>
      rw [reached] at irq
      contradiction

theorem Announced.raise_active (announced : Announced xbuf message owner) :
    Announced { xbuf with flags := { xbuf.flags with active := true } } message owner :=
  ⟨announced.1, announced.2.1, announced.2.2.of_flags rfl id⟩

theorem Turn.irqRaise (turn : Turn params state) (reached : state.irq = .raise) :
    Turn params { state with
      xbuf := state.xbuf.raiseFlag xbufActive
      irq := if params.hasHandler then .idle else .noHandler
      accepted := if params.hasHandler then state.accepted + 1 else state.accepted } := by
  rw [Xbuf.raiseFlag_active]
  cases turn with
  | busy count call accept linked holds handler underway =>
      have irq := linked.irq
      rw [reached] at irq
      cases accept with
      | irqRaise =>
          cases handled : params.hasHandler with
          | true =>
              exact .busy count call .accepted linked.irqRaise (holds.frame rfl rfl) (fun _ => handled)
                ⟨rfl, underway.2.raise_active⟩
          | false =>
              exact .refusing count call
                ⟨linked.ipis, rfl, linked.accepted, linked.started, by simp, linked.served, linked.fresh⟩
                rfl (holds.frame rfl rfl) handled underway.2.raise_active
      | _ => contradiction
  | free _ linked | finished _ _ linked =>
      have irq := linked.irq
      rw [reached] at irq
      contradiction
  | refusing _ _ _ irq =>
      rw [reached] at irq
      contradiction

theorem Turn.irqNoHandler (turn : Turn params state) (reached : state.irq = .noHandler) :
    Turn params { state with xbuf := state.xbuf.raiseFlag xbufComplete, irq := .idle } := by
  rw [Xbuf.raiseFlag_complete]
  cases turn with
  | refusing count call linked irq holds handler announced =>
      refine .finished count call (linked.frame rfl rfl rfl rfl rfl) (holds.frame rfl rfl) announced.2.2.notified ?_
      intro handled
      rw [handler] at handled
      contradiction
  | busy _ _ accept linked =>
      have irq := linked.irq
      rw [reached] at irq
      cases accept <;> contradiction
  | free _ linked | finished _ _ linked =>
      have irq := linked.irq
      rw [reached] at irq
      contradiction

theorem Turn.spawn (turn : Turn params state) (waiting : state.started < state.accepted) :
    Turn params { state with
      receivers := Function.update state.receivers state.started .testActive
      started := state.started + 1 } := by
  cases turn with
  | busy count call accept linked holds handler underway =>
      have accepted := linked.accepted
      have started := linked.started
      cases accept with
      | accepted =>
          exact .busy count call (.running .testActive) linked.spawn (holds.frame rfl rfl) handler underway
      | _ =>
          simp only [Accept.handed, Accept.begun] at accepted started
          omega
  | free _ linked | finished _ _ linked =>
      have accepted := linked.accepted
      have started := linked.started
      simp only [Accept.handed, Accept.begun] at accepted started
      omega
  | refusing _ _ linked =>
      have accepted := linked.accepted
      have started := linked.started
      simp only [Accept.handed, Accept.begun] at accepted started
      omega

theorem Turn.receiver_step {index : Nat} (turn : Turn params state) (ready : state.xbuf.flags.ready = true)
    (fits : ∀ call, state.calls call ≠ .idle → Fits params state.xbuf.totalSize call)
    (moved : (state.receivers index).step state.xbuf params.response = some (after, point)) :
    Turn params { state with
      xbuf := after
      receivers := Function.update state.receivers index point
      received := recordReceived state.received point } := by
  cases turn with
  | busy count call accept linked holds handler underway =>
      obtain ⟨rfl, rfl⟩ := linked.busy_or moved
      have started : state.calls call ≠ .idle := by
        intro idle
        have acquired := holds.acquired
        rw [idle] at acquired
        contradiction
      have pending := (Receiver.step_pending moved).1
      obtain ⟨active, kept | ⟨rfl, ended⟩⟩ := underway.2.receiver_step underway.1 ready rfl
        (fits call started (handler rfl)) moved
      · exact .busy index call (.running point) linked.receive (holds.frame rfl pending) handler ⟨active, kept⟩
      · exact .finished (index + 1) call linked.receive.finish (holds.frame rfl pending) ended.1 (fun _ => ended.2)
  | free _ linked | finished _ _ linked =>
      have none := (linked.busy_or moved).2
      contradiction
  | refusing _ _ linked =>
      have none := (Linked.busy_or linked moved).2
      contradiction

theorem Turn.frame (turn : Turn params state) (xbuf : next.xbuf = state.xbuf)
    (calls : next.calls = state.calls) (ipis : next.ipis = state.ipis) (irq : next.irq = state.irq)
    (accepted : next.accepted = state.accepted) (started : next.started = state.started)
    (receivers : next.receivers = state.receivers) : Turn params next := by
  have pending : next.xbuf.flags.pending = state.xbuf.flags.pending := by rw [xbuf]
  cases turn with
  | free count linked unowned flags =>
      refine .free count (linked.frame ipis irq accepted started receivers) ?_ ?_
      · rw [calls]
        exact unowned
      · rw [xbuf]
        exact flags
  | busy count call accept linked holds handler underway =>
      refine .busy count call accept (linked.frame ipis irq accepted started receivers)
        (holds.frame calls pending) handler ?_
      rw [xbuf, calls]
      exact underway
  | refusing count call linked reached holds handler announced =>
      refine .refusing count call (linked.frame ipis rfl accepted started receivers) (irq.trans reached)
        (holds.frame calls pending) handler ?_
      rw [xbuf, calls]
      exact announced
  | finished count call linked holds notified concluding =>
      refine .finished count call (linked.frame ipis irq accepted started receivers) (holds.frame calls pending) ?_ ?_
      · rw [calls]
        exact notified
      · rw [xbuf, calls]
        exact concluding

theorem Turn.initial (start : Initial size state) : Turn params state := by
  refine .free 0 ⟨start.ipis, start.irq, start.accepted, start.started, by simp, by simp, ?_⟩ ?_ ?_
  · exact fun index _ => start.receivers index
  · intro call
    rw [start.calls call]
    rfl
  · rw [start.flags]
    rfl

theorem Turn.step (turn : Turn params state) (exclusive : Exclusive state) (ready : state.xbuf.flags.ready = true)
    (unset : ∀ ctl, state.ctls ctl ≠ .set)
    (fits : ∀ call, state.calls call ≠ .idle → Fits params state.xbuf.totalSize call)
    (steady : Steady state action) (stepped : step params state action = some next) : Turn params next := by
  cases step_move stepped with
  | start point | wake point | signal point | lock point | unlockErr point | unlockBusy point =>
      exact turn.outside (by rw [point]; rfl) rfl
  | testReady point | testPending point =>
      refine turn.outside (by rw [point]; rfl) ?_
      split <;> rfl
  | resetFlags point =>
      obtain ⟨_, _, _, flags⟩ := turn.flags_of_clear (exclusive.clear (.inl point))
      rw [Xbuf.resetFlags_eq, ← flags]
      exact turn.outside (by rw [point]; rfl) rfl
  | raisePending point => exact turn.acquire (exclusive.clear (.inr point))
  | owner point => exact turn.owner_step point
  | deliver _ sent => exact turn.deliver sent
  | irqTest point => exact turn.irqTest point
  | irqRaise point => exact turn.irqRaise point
  | irqNoHandler point => exact turn.irqNoHandler point
  | spawn => exact turn.spawn steady
  | receiver moved => exact turn.receiver_step ready fits moved
  | disable | enable => exact turn.frame rfl rfl rfl rfl rfl rfl rfl
  | spurious | lower => exact steady.elim
  | @set ctl point => exact absurd point (unset ctl)

structure Orderly (params : Params) (size : Nat) (state : State) : Prop where
  exclusive : Exclusive state
  ready : state.xbuf.flags.ready = true
  totalSize : state.xbuf.totalSize = size
  ctls : ∀ ctl, state.ctls ctl ≠ .set
  fits : ∀ call, state.calls call ≠ .idle → Fits params size call
  turn : Turn params state
  responses : ∀ {call resp}, params.hasHandler = true → params.wantsResp call = true →
    state.calls call = .returned resp →
    resp = if params.response (params.message call) = [] then none
      else some (params.response (params.message call))

/-- Whoever ends an exchange has had all there is to have. -/
theorem Turn.finish {result : Option Bytes} (turn : Turn params state)
    (reached : state.calls call = .owner (.finish result)) :
    (∃ count, Linked state count .before) ∧
      (params.hasHandler = true → params.wantsResp call = true →
        result = if params.response (params.message call) = [] then none
          else some (params.response (params.message call))) := by
  have owns : (state.calls call).owns = true := by rw [reached]; rfl
  cases turn with
  | free count linked unowned flags =>
      rw [unowned] at owns
      contradiction
  | busy count mine accept linked holds handler underway =>
      obtain rfl := holds.sole call owns
      rw [reached] at underway
      exact underway.unfinished.elim
  | refusing count mine linked irq holds handler announced =>
      obtain rfl := holds.sole call owns
      rw [reached] at announced
      obtain ⟨_, _, _, sending, _⟩ := announced
      exact sending.elim
  | finished count mine linked holds notified concluding =>
      obtain rfl := holds.sole call owns
      rw [reached] at concluding
      exact ⟨⟨count, linked⟩, fun handler wants => (concluding handler wants).finish⟩

theorem Orderly.initial (start : Initial size state) : Orderly params size state where
  exclusive := .initial start
  ready := by simp [start.flags, xbufReady]
  totalSize := start.totalSize
  ctls := by
    intro ctl
    rw [start.ctls ctl]
    simp
  fits := fun call busy => absurd (start.calls call) busy
  turn := .initial start
  responses := by
    intro call resp _ _ returned
    rw [start.calls call] at returned
    contradiction

theorem Orderly.step (orderly : Orderly params size state) (fitting : Fitting params size state action)
    (stepped : step params state action = some next) : Orderly params size next where
  exclusive := by
    refine orderly.exclusive.step ?_ stepped
    rintro ctl rfl
    cases step_move stepped with
    | set point => exact absurd point (orderly.ctls ctl)
  ready := (step_ready fitting.1 orderly.ctls stepped).1.trans orderly.ready
  totalSize := (step_ready fitting.1 orderly.ctls stepped).2.trans orderly.totalSize
  ctls := step_ctls orderly.ready orderly.ctls stepped
  fits := by
    intro call busy
    rcases step_idle stepped busy with already | started
    · exact orderly.fits call already
    · exact fitting.2 call started
  turn := by
    refine orderly.turn.step orderly.exclusive orderly.ready orderly.ctls ?_ fitting.1 stepped
    rw [orderly.totalSize]
    exact orderly.fits
  responses := by
    intro call resp handler wants returned
    by_cases before : state.calls call = .returned resp
    · exact orderly.responses handler wants before
    · obtain ⟨_, point⟩ := step_returned stepped before returned
      exact (orderly.turn.finish point).2 handler wants

theorem orderly_of_reachable (reached : (system params size).Reachable (Fitting params size) state) :
    Orderly params size state :=
  reached.invariant Orderly.initial (fun orderly fitting stepped => orderly.step fitting stepped)

/-- Nothing is left to do of the exchange that ended in `returned`. -/
structure Lull (returned state : State) : Prop where
  irq : state.irq = .idle
  receivers : ∀ index, state.receivers index = .done ∨ state.receivers index = .idle
  started : state.started = state.accepted
  later : (state.acquired = returned.acquired ∧ state.ipis = 0 ∧ ∀ call, (state.calls call).owns = false) ∨
    returned.acquired.length < state.acquired.length

theorem Lull.quiet {returned : State} (lull : Lull returned state) : Quiet state where
  receivers := by
    intro index
    rcases lull.receivers index with still | still <;> rw [still] <;> rfl
  irq := by
    rw [lull.irq]
    rfl

/-- The exchange that a call returns from is over on both sides. -/
theorem lull_of_finish {resp : Option Bytes} {returned : State} (orderly : Orderly params size state)
    (reached : state.calls call = .owner (.finish resp)) (stepped : step params state (.call call) = some returned) :
    Lull returned returned := by
  obtain ⟨count, linked⟩ := (orderly.turn.finish reached).1
  have accepted := linked.accepted
  have started := linked.started
  have owns : (state.calls call).owns = true := by rw [reached]; rfl
  simp only [step, callStep, reached] at stepped
  cases stepped
  refine ⟨linked.irq, fun index => linked.still (by simp), ?_, .inl ⟨rfl, linked.ipis, ?_⟩⟩
  · simp only [Accept.handed, Accept.begun] at accepted started
    exact started.trans accepted.symm
  · intro other
    by_cases mine : other = call
    · rw [State.setCall_calls, if_pos mine]
      rfl
    · rw [State.setCall_calls, if_neg mine]
      cases owned : (state.calls other).owns with
      | false => rfl
      | true => exact absurd (orderly.exclusive.unique owned owns) mine

theorem Lull.outside {returned : State} {after : Call} {lock : Option Nat} {xbuf : Xbuf}
    (lull : Lull returned state) (now : after.owns = false) :
    Lull returned ({ state with lock, xbuf }.setCall call after) := by
  refine ⟨lull.irq, lull.receivers, lull.started, ?_⟩
  rcases lull.later with ⟨same, ipis, unowned⟩ | longer
  · refine .inl ⟨same, ipis, ?_⟩
    intro other
    rw [State.setCall_calls]
    split
    · exact now
    · exact unowned other
  · exact .inr longer

theorem Lull.step {returned : State} (lull : Lull returned state) (steady : Steady state action)
    (unannounced : Unannounced returned state action) (stepped : step params state action = some next) :
    Lull returned next := by
  cases step_move stepped with
  | start | wake | signal | lock | unlockErr | unlockBusy | resetFlags => exact lull.outside rfl
  | testReady | testPending =>
      apply lull.outside
      split <;> rfl
  | raisePending =>
      refine ⟨lull.irq, lull.receivers, lull.started, .inr ?_⟩
      simp only [State.setCall_acquired, List.length_append, List.length_singleton]
      rcases lull.later with ⟨same, _⟩ | longer
      · rw [same]
        exact Nat.lt_succ_self _
      · omega
  | @owner call _ point =>
      refine ⟨lull.irq, lull.receivers, lull.started, ?_⟩
      rcases lull.later with ⟨_, _, unowned⟩ | longer
      · have owns := unowned call
        rw [point] at owns
        contradiction
      · exact .inr longer
  | deliver _ sent =>
      have same := unannounced rfl
      rcases lull.later with ⟨_, none, _⟩ | longer
      · omega
      · rw [same] at longer
        exact absurd longer (Nat.lt_irrefl _)
  | irqTest point | irqRaise point | irqNoHandler point =>
      have idle := lull.irq
      rw [point] at idle
      contradiction
  | spawn =>
      have started := lull.started
      simp only [Steady] at steady
      omega
  | receiver moved =>
      rcases lull.receivers _ with still | still
      · rw [still] at moved
        cases moved
      · rw [still] at moved
        cases moved
  | disable | enable | set => exact ⟨lull.irq, lull.receivers, lull.started, lull.later⟩
  | spurious | lower => exact steady.elim

/-- Once a call has returned 0, nothing on the receiving side is about to write before
the interrupt of a later message, and so none of its steps changes the buffer. -/
theorem quiet_after_return (params : Params) (size : Nat) (state returned later : State) (call : Nat)
    (resp : Option Bytes) (reached : (system params size).Reachable (Fitting params size) state)
    (stepped : step params state (.call call) = some returned) (zero : returned.calls call = .returned resp)
    (path : (system params size).Path
      (fun state action => Fitting params size state action ∧ Unannounced returned state action) returned later) :
    Quiet later ∧ ∀ action next, (action = .irq ∨ ∃ index, action = .receiver index) →
      step params later action = some next → next.xbuf = later.xbuf := by
  have orderly := orderly_of_reachable reached
  have running : state.calls call ≠ .returned resp := by
    intro already
    simp [step, callStep, already] at stepped
  obtain ⟨_, point⟩ := step_returned stepped running zero
  have lull : Lull returned later := path.invariant (lull_of_finish orderly point stepped)
    (fun lull allowed stepped => lull.step allowed.1.1 allowed.2 stepped)
  exact ⟨lull.quiet, fun _ _ side moved => lull.quiet.unwritten side moved⟩

/-- The next call raises its message and stages it. -/
def raiseNext : List Action := .start 1 :: List.replicate 9 (.call 1)

def beforeNext (state : State) (action : Action) : Bool := steady state action && action != .deliver

theorem beforeNext_sound (returned : State) (checked : beforeNext state action = true) :
    Steady state action ∧ Unannounced returned state action := by
  simp only [beforeNext, Bool.and_eq_true, bne_iff_ne] at checked
  exact ⟨steady_sound checked.1, fun delivered => absurd delivered checked.2⟩

theorem fitting_echo (size : Nat) (steady : Steady state action) : Fitting echo size state action :=
  ⟨steady, fun _ _ _ declined => Bool.noConfusion declined⟩

/-- Call 0 returns from its exchange through a one-byte staging area, and call 1
stages its message. -/
theorem quiet_after_return_echo :
    ∃ state returned later : State, (system echo 1).Reachable (Fitting echo 1) state ∧
      returned.calls 0 = .returned (some [1, 0]) ∧ later.calls 1 = .owner (.ipi []) ∧ Quiet later := by
  have executed : (((system echo 1).run steady (boot 1) exchange.dropLast).bind fun state =>
      (step echo state (.call 0)).bind fun returned =>
        ((system echo 1).run beforeNext returned raiseNext).map fun later =>
          (returned.calls 0, later.calls 1)) =
      some (.returned (some [1, 0]), .owner (.ipi [])) := by decide +kernel
  simp only [Option.bind_eq_some_iff, Option.map_eq_some_iff, Prod.mk.injEq] at executed
  obtain ⟨state, first, returned, stepped, later, second, zero, staged⟩ := executed
  have reached : (system echo 1).Reachable (Fitting echo 1) state :=
    ⟨boot 1, boot_initial 1, (System.run_path steady_sound first).mono (fun _ _ => fitting_echo 1)⟩
  have path : (system echo 1).Path
      (fun state action => Fitting echo 1 state action ∧ Unannounced returned state action) returned later := by
    refine System.run_path (fun checked => ?_) second
    obtain ⟨kept, unannounced⟩ := beforeNext_sound returned checked
    exact ⟨fitting_echo 1 kept, unannounced⟩
  exact ⟨state, returned, later, reached, zero, staged,
    (quiet_after_return echo 1 state returned later 0 _ reached stepped zero path).1⟩

/-- One-byte messages, answered with two bytes that nobody asked for. -/
def curt : Params where
  message := fun _ => [0]
  wantsResp := fun _ => false
  response := fun message => 1 :: message
  hasHandler := true

/-- Call 0 up to the step that ends its exchange, the receiver being about to
stage the second byte of the response. -/
def cutShort : List Action :=
  .start 0 :: List.replicate 10 (.call 0) ++ [.deliver, .irq, .irq, .spawn] ++
    List.replicate 12 (.receiver 0) ++ List.replicate 2 (.call 0)

/-- Call 0 has returned and call 1 has staged its message when the receiver of
call 0 writes to the buffer. -/
theorem tail_after_return :
    ∃ state returned later : State, (system curt 1).Reachable Steady state ∧
      step curt state (.call 0) = some returned ∧ returned.calls 0 = .returned none ∧
      (system curt 1).Path (fun state action => Steady state action ∧ Unannounced returned state action)
        returned later ∧
      later.calls 1 = .owner (.ipi []) ∧ ¬ Quiet later := by
  have executed : (((system curt 1).run steady (boot 1) cutShort).bind fun state =>
      (step curt state (.call 0)).bind fun returned =>
        ((system curt 1).run beforeNext returned (.receiver 0 :: .receiver 0 :: raiseNext)).map fun later =>
          (returned.calls 0, later.calls 1, later.receivers 0)) =
      some (.returned none, .owner (.ipi []), .reply .copy [0]) := by decide +kernel
  simp only [Option.bind_eq_some_iff, Option.map_eq_some_iff, Prod.mk.injEq] at executed
  obtain ⟨state, first, returned, stepped, later, second, zero, staged, tail⟩ := executed
  refine ⟨state, returned, later, ⟨boot 1, boot_initial 1, System.run_path steady_sound first⟩, stepped, zero,
    System.run_path (beforeNext_sound returned) second, staged, ?_⟩
  intro quiet
  have silent := quiet.receivers 0
  rw [tail] at silent
  contradiction

end Pisces.Channel
