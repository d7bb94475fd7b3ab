import Mathlib.Logic.Function.Basic
import Pisces.Transition

/-! # Procedures that take effect at one moment

A procedure works on shared data by one access after the other.  The object at
the end answers each call in a single step, somewhere between its invocation and
its return; a program that has the same histories is as good as the object.
-/

namespace Atomic

open Transition

variable {Data Other Call OtherCall Point Answer OtherAnswer Id : Type*}

/-- `step` is the access at a point and where it leads, `none` if it faults. -/
structure Routine (Data Call Point Answer : Type*) where
  enter : Call → Point
  step : Data → Point → Option (Data × (Point ⊕ Answer))

/-- A procedure that is left alone comes to an end. -/
inductive Routine.Finishes (routine : Routine Data Call Point Answer) : Data → Point → Data → Answer → Prop where
  | last {data after : Data} {point : Point} {answer : Answer}
      (stepped : routine.step data point = some (after, .inr answer)) : routine.Finishes data point after answer
  | next {data middle after : Data} {point following : Point} {answer : Answer}
      (stepped : routine.step data point = some (middle, .inl following))
      (rest : routine.Finishes middle following after answer) : routine.Finishes data point after answer

theorem Routine.Finishes.cases_step {routine : Routine Data Call Point Answer} {data after : Data} {point : Point}
    {answer : Answer} (finishes : routine.Finishes data point after answer) :
    routine.step data point = some (after, .inr answer) ∨
      ∃ middle following, routine.step data point = some (middle, .inl following) ∧
        routine.Finishes middle following after answer := by
  cases finishes with
  | last stepped => exact .inl stepped
  | next stepped rest => exact .inr ⟨_, _, stepped, rest⟩

/-- The procedure computes `serve` from data in order and leaves data in order. -/
def Routine.Implements (routine : Routine Data Call Point Answer) (invariant : Data → Prop)
    (serve : Data → Call → Option (Data × Answer)) : Prop :=
  ∀ data call, invariant data → ∃ after answer, serve data call = some (after, answer) ∧ invariant after ∧
    routine.Finishes data (routine.enter call) after answer

inductive Event (Id Call Answer : Type*) where
  | invoked (id : Id) (call : Call)
  | returned (id : Id) (answer : Answer)
  deriving DecidableEq

def Event.map (request : Call → OtherCall) (reply : Answer → OtherAnswer) :
    Event Id Call Answer → Event Id OtherCall OtherAnswer
  | .invoked id call => .invoked id (request call)
  | .returned id answer => .returned id (reply answer)

/-- Where a call of one party is. -/
inductive Stage (Call Answer : Type*) where
  | idle
  | pending (call : Call)
  | decided (answer : Answer)

def Stage.map (request : Call → OtherCall) (reply : Answer → OtherAnswer) :
    Stage Call Answer → Stage OtherCall OtherAnswer
  | .idle => .idle
  | .pending call => .pending (request call)
  | .decided answer => .decided (reply answer)

/-- An object with the history of its calls, newest first. -/
structure Object (Data Id Call Answer : Type*) where
  data : Data
  stage : Id → Stage Call Answer
  history : List (Event Id Call Answer)

inductive Action (Id Call : Type*) where
  | invoke (id : Id) (call : Call)
  | decide (id : Id)
  | return (id : Id)

variable [DecidableEq Id]

def Object.step (serve : Data → Call → Option (Data × Answer)) (object : Object Data Id Call Answer) :
    Action Id Call → Option (Object Data Id Call Answer)
  | .invoke id call =>
      match object.stage id with
      | .idle =>
          some { object with
            stage := Function.update object.stage id (.pending call)
            history := .invoked id call :: object.history }
      | _ => none
  | .decide id =>
      match object.stage id with
      | .pending call =>
          (serve object.data call).map fun (data, answer) =>
            { object with data := data, stage := Function.update object.stage id (.decided answer) }
      | _ => none
  | .return id =>
      match object.stage id with
      | .decided answer =>
          some { object with
            stage := Function.update object.stage id .idle
            history := .returned id answer :: object.history }
      | _ => none

def system (serve : Data → Call → Option (Data × Answer)) (start : Data) :
    System (Object Data Id Call Answer) (Action Id Call) where
  initial object := object.data = start ∧ (∀ id, object.stage id = .idle) ∧ object.history = []
  step := Object.step serve

/-- Whatever the parties do -/
def anyAction (_ : Object Data Id Call Answer) (_ : Action Id Call) : Prop :=
  True

variable {serve : Data → Call → Option (Data × Answer)} {object : Object Data Id Call Answer} {id : Id}
  {call : Call} {answer : Answer}

theorem Object.invoke_eq (idle : object.stage id = .idle) :
    object.step serve (.invoke id call) =
      some { object with
        stage := Function.update object.stage id (.pending call)
        history := .invoked id call :: object.history } := by
  simp only [Object.step, idle]

theorem Object.decide_eq {after : Data} (pending : object.stage id = .pending call)
    (served : serve object.data call = some (after, answer)) :
    object.step serve (.decide id) =
      some { object with data := after, stage := Function.update object.stage id (.decided answer) } := by
  simp only [Object.step, pending, served, Option.map_some]

theorem Object.return_eq (decided : object.stage id = .decided answer) :
    object.step serve (.return id) =
      some { object with
        stage := Function.update object.stage id .idle
        history := .returned id answer :: object.history } := by
  simp only [Object.step, decided]

theorem Object.acts {action : Action Id Call} {next : Object Data Id Call Answer} (start : Data)
    (stepped : object.step serve action = some next) : (system serve start).Path anyAction object next :=
  .single (show anyAction object action from trivial) stepped

/-! ## One object seen as another -/

section Map

variable (view : Data → Other) (request : Call → OtherCall) (reply : Answer → OtherAnswer)

def Object.map (object : Object Data Id Call Answer) : Object Other Id OtherCall OtherAnswer where
  data := view object.data
  stage := Stage.map request reply ∘ object.stage
  history := object.history.map (Event.map request reply)

def Action.map : Action Id Call → Action Id OtherCall
  | .invoke id call => .invoke id (request call)
  | .decide id => .decide id
  | .return id => .return id

variable {view request reply} {invariant : Data → Prop} {otherServe : Other → OtherCall → Option (Other × OtherAnswer)}

/-- An object that computes another's answers has the other's histories. -/
theorem Object.step_map
    (same : ∀ data call after answer, invariant data → serve data call = some (after, answer) →
      invariant after ∧ otherServe (view data) (request call) = some (view after, reply answer))
    (kept : invariant object.data) {action : Action Id Call} {next : Object Data Id Call Answer}
    (stepped : object.step serve action = some next) :
    invariant next.data ∧
      (object.map view request reply).step otherServe (action.map request) = some (next.map view request reply) := by
  cases action with
  | invoke id call =>
      cases at_ : object.stage id with
      | idle =>
          rw [Object.invoke_eq at_] at stepped
          cases stepped
          refine ⟨kept, ?_⟩
          rw [Action.map, Object.invoke_eq (by simp only [Object.map, Function.comp_apply, at_, Stage.map])]
          simp only [Object.map, Function.comp_update, Stage.map, List.map_cons, Event.map]
      | pending _ | decided _ => simp only [Object.step, at_, reduceCtorEq] at stepped
  | decide id =>
      cases at_ : object.stage id with
      | pending call =>
          cases served : serve object.data call with
          | none => simp only [Object.step, at_, served, Option.map_none, reduceCtorEq] at stepped
          | some result =>
              obtain ⟨after, answer⟩ := result
              rw [Object.decide_eq at_ served] at stepped
              cases stepped
              obtain ⟨ordered, matched⟩ := same _ _ _ _ kept served
              refine ⟨ordered, ?_⟩
              rw [Action.map, Object.decide_eq (by simp only [Object.map, Function.comp_apply, at_, Stage.map]) matched]
              simp only [Object.map, Function.comp_update, Stage.map]
      | idle | decided _ => simp only [Object.step, at_, reduceCtorEq] at stepped
  | «return» id =>
      cases at_ : object.stage id with
      | decided answer =>
          rw [Object.return_eq at_] at stepped
          cases stepped
          refine ⟨kept, ?_⟩
          rw [Action.map, Object.return_eq (by simp only [Object.map, Function.comp_apply, at_, Stage.map]; rfl)]
          simp only [Object.map, Function.comp_update, Stage.map, List.map_cons, Event.map]
      | idle | pending _ => simp only [Object.step, at_, reduceCtorEq] at stepped

theorem reachable_map {start : Data} {otherStart : Other}
    (same : ∀ data call after answer, invariant data → serve data call = some (after, answer) →
      invariant after ∧ otherServe (view data) (request call) = some (view after, reply answer))
    (ordered : invariant start) (starts : view start = otherStart)
    (reached : (system serve start).Reachable anyAction object) :
    (system otherServe otherStart).Reachable anyAction (object.map view request reply) := by
  obtain ⟨first, ⟨data, idle, history⟩, path⟩ := reached
  refine ⟨first.map view request reply, ⟨?_, ?_, ?_⟩, ?_⟩
  · simp only [Object.map, data, starts]
  · intro id
    simp only [Object.map, Function.comp_apply, idle, Stage.map]
  · simp only [Object.map, history, List.map_nil]
  · refine (path.project (fun object => invariant object.data) (Object.map view request reply)
      (by rw [data]; exact ordered) ?_).2
    intro object action next kept _ stepped
    obtain ⟨ordered, matched⟩ := Object.step_map same kept stepped
    exact ⟨ordered, Object.acts otherStart matched⟩

end Map

end Atomic
