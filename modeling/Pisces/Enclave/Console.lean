import Pisces.Enclave.Descriptors

/-! # Connecting the enclave console

The flag `cons.connected` against the console descriptors that are open.
-/

namespace Pisces.Enclave.Descriptors

open Transition

variable {state next : State}

/-- A connect that claims the console gets its descriptor, and the console is not
initialised again under an open one. -/
def Unshared (state : State) : Operation → Prop
  | .consConnect fd => state.connected = false → fd = true
  | .launch consInit _ _ => consInit = true → .cons ∉ state.opened
  | .reset consInit _ _ => state.kernThread = .live → consInit = true → .cons ∉ state.opened
  | _ => True

instance decidableUnshared (state : State) : (operation : Operation) → Decidable (Unshared state operation)
  | .consConnect fd => inferInstanceAs (Decidable (state.connected = false → fd = true))
  | .launch consInit _ _ => inferInstanceAs (Decidable (consInit = true → .cons ∉ state.opened))
  | .reset consInit _ _ =>
      inferInstanceAs (Decidable (state.kernThread = .live → consInit = true → .cons ∉ state.opened))
  | .openDevice | .ctrlConnect _ | .vmConsConnect _ | .openProc .. | .close _ | .free => .isTrue trivial

/-- The flag is set exactly if a console descriptor is open, and there is at most one. -/
structure Exclusive (state : State) : Prop where
  single : state.opened.count .cons ≤ 1
  connected : state.connected = true ↔ .cons ∈ state.opened

theorem Exclusive.of_same (exclusive : Exclusive state) (connected : next.connected = state.connected)
    (count : next.opened.count .cons = state.opened.count .cons) : Exclusive next := by
  have member : .cons ∈ next.opened ↔ .cons ∈ state.opened := by
    rw [← List.count_pos_iff, count, List.count_pos_iff]
  constructor
  · rw [count]
    exact exclusive.single
  · rw [connected, member]
    exact exclusive.connected

theorem Exclusive.connect (exclusive : Exclusive state) {fd : Bool} (claims : state.connected = false → fd = true) :
    Exclusive (state.piscesConsConnect fd) := by
  unfold State.piscesConsConnect
  cases connected : state.connected with
  | true => simpa using exclusive
  | false =>
      have absent : .cons ∉ state.opened := by
        intro present
        rw [exclusive.connected.mpr present] at connected
        cases connected
      have none := List.count_eq_zero_of_not_mem absent
      rw [claims connected]
      constructor
      · simp [State.install, none]
      · simp [State.install]

theorem Exclusive.close (exclusive : Exclusive state) {kind : Kind} (member : kind ∈ state.opened) :
    Exclusive ({ state with opened := state.opened.erase kind }.release kind) := by
  by_cases console : kind = .cons
  · subst console
    have single := exclusive.single
    have gone : (state.opened.erase .cons).count .cons = 0 := by
      rw [List.count_erase_self]
      omega
    constructor
    · simp [State.release, gone]
    · simp [State.release, ← List.count_pos_iff, gone]
  · have same : (state.opened.erase kind).count .cons = state.opened.count .cons := by
      rw [List.count_erase_of_ne (Ne.symm console)]
    cases kind with
    | cons => exact absurd rfl console
    | _ => exact exclusive.of_same rfl same

theorem Exclusive.launch (exclusive : Exclusive state) {consInit : Bool} (lcallInit launched : Bool)
    (unused : consInit = true → .cons ∉ state.opened) : Exclusive (state.launch consInit lcallInit launched) := by
  unfold State.launch
  cases consInit with
  | false => exact exclusive
  | true =>
      have absent := unused rfl
      constructor
      · exact exclusive.single
      · simpa using absent

theorem Exclusive.reset (exclusive : Exclusive state) {consInit : Bool} (lcallInit launched : Bool)
    (unused : state.kernThread = .live → consInit = true → .cons ∉ state.opened) :
    Exclusive (state.reset consInit lcallInit launched) := by
  unfold State.reset
  split
  · rename_i live
    have stopped : Exclusive { state with kernThread := .stopped } := exclusive.of_same rfl rfl
    exact stopped.launch lcallInit launched (unused live)
  · exact exclusive.of_same rfl rfl
  · exact exclusive.of_same rfl rfl

theorem State.free_same (state : State) :
    state.free.connected = state.connected ∧ state.free.opened = state.opened := by
  unfold State.free
  split <;> exact ⟨rfl, rfl⟩

theorem Exclusive.step (exclusive : Exclusive state) {operation : Operation}
    (unshared : Unshared state operation) (stepped : Descriptors.step state operation = some next) :
    Exclusive next := by
  cases operation with
  | openDevice =>
      simp only [Descriptors.step, Option.ite_none_right_eq_some, Option.some.injEq] at stepped
      obtain ⟨_, rfl⟩ := stepped
      exact exclusive.of_same rfl (by simp [State.install, State.enclaveGet])
  | ctrlConnect fd =>
      simp only [Descriptors.step, Option.ite_none_right_eq_some, Option.some.injEq] at stepped
      obtain ⟨_, rfl⟩ := stepped
      cases fd with
      | true => exact exclusive.of_same rfl (by simp [State.piscesCtrlConnect, State.install, State.enclaveGet])
      | false => exact exclusive.of_same rfl rfl
  | consConnect fd =>
      simp only [Descriptors.step, Option.ite_none_right_eq_some, Option.some.injEq] at stepped
      obtain ⟨_, rfl⟩ := stepped
      exact exclusive.connect unshared
  | vmConsConnect fd =>
      simp only [Descriptors.step, Option.ite_none_right_eq_some, Option.some.injEq] at stepped
      obtain ⟨_, rfl⟩ := stepped
      cases fd with
      | true => exact exclusive.of_same rfl (by simp [State.v3ConsoleConnect, State.install])
      | false => exact exclusive
  | openProc file opened =>
      simp only [Descriptors.step, Option.ite_none_right_eq_some, Option.some.injEq] at stepped
      obtain ⟨_, rfl⟩ := stepped
      cases opened with
      | true => exact exclusive.of_same rfl (by simp [State.procOpen, State.install, State.enclaveGet])
      | false => exact exclusive.of_same rfl rfl
  | close kind =>
      simp only [Descriptors.step, Option.ite_none_right_eq_some, Option.some.injEq] at stepped
      obtain ⟨member, rfl⟩ := stepped
      exact exclusive.close member
  | launch consInit lcallInit launched =>
      simp only [Descriptors.step, Option.ite_none_right_eq_some, Option.some.injEq] at stepped
      obtain ⟨_, rfl⟩ := stepped
      exact exclusive.launch lcallInit launched unshared
  | reset consInit lcallInit launched =>
      simp only [Descriptors.step, Option.ite_none_right_eq_some, Option.some.injEq] at stepped
      obtain ⟨_, rfl⟩ := stepped
      exact exclusive.reset lcallInit launched unshared
  | free =>
      simp only [Descriptors.step, Option.ite_none_right_eq_some, Option.some.injEq] at stepped
      obtain ⟨_, rfl⟩ := stepped
      obtain ⟨connected, opened⟩ := state.free_same
      exact exclusive.of_same connected (by rw [opened])

/-- If no claimed connect fails and nothing is relaunched under an open console,
the console has at most one descriptor and the flag tells. -/
theorem console_exclusive_of_unshared (reached : system.Reachable Unshared state) :
    state.opened.count .cons ≤ 1 ∧ (state.connected = true ↔ .cons ∈ state.opened) := by
  have exclusive : Exclusive state := by
    apply reached.invariant
    · rintro start rfl
      exact ⟨by decide, by decide⟩
    · intro state operation next exclusive unshared stepped
      exact exclusive.step unshared stepped
  exact ⟨exclusive.single, exclusive.connected⟩

theorem console_exclusive_reconnected :
    ∃ state, system.Reachable Unshared state ∧ state.connected = true ∧ .cons ∈ state.opened := by
  have executed : system.run (fun state operation => decide (Unshared state operation)) create
      [.openDevice, .launch true true true, .consConnect true, .close .cons, .reset true true true,
        .consConnect true] = some ⟨.running, 2, 0, true, true, .live, false, [.cons, .device]⟩ := by decide
  have reached : system.Reachable Unshared ⟨.running, 2, 0, true, true, .live, false, [.cons, .device]⟩ :=
    ⟨create, rfl, System.run_path of_decide_eq_true executed⟩
  exact ⟨_, reached, rfl, (console_exclusive_of_unshared reached).2.mp rfl⟩

/-- A failed connect blocks the console, and a relaunch admits a second reader. -/
theorem console_blocked_and_shared :
    (∃ state, system.Reachable anyOperation state ∧ state.connected = true ∧ .cons ∉ state.opened) ∧
      ∃ state, system.Reachable anyOperation state ∧ state.opened.count .cons = 2 := by
  have blocked : system.run (fun _ _ => true) create [.openDevice, .consConnect false] =
      some ⟨.loaded, 2, 0, true, true, .null, false, [.device]⟩ := by decide
  have shared : system.run (fun _ _ => true) create
      [.openDevice, .launch true true true, .consConnect true, .reset true true true, .consConnect true] =
        some ⟨.running, 2, 0, true, true, .live, false, [.cons, .cons, .device]⟩ := by decide
  constructor
  · exact ⟨_, ⟨create, rfl, System.run_path (fun _ => trivial) blocked⟩, rfl, by decide⟩
  · exact ⟨_, ⟨create, rfl, System.run_path (fun _ => trivial) shared⟩, by decide⟩

end Pisces.Enclave.Descriptors
