import Mathlib.Data.List.Nodup
import Pisces.Pci.Live

/-! # The names on the device list

Adds, removals and resets, one at a time, with long calls in between: a name is
looked up before its device joins the list, and stored after.
-/

namespace Pisces.Pci.Names

open Live Transition

inductive Label where
  | live (label : Live.Label)
  /-- `reset_enclave_pci`, with the devices that can be initialised again -/
  | reset (restarts : Nat → Bool)

def resetEnclavePci (state : Live.State) (restarts : Nat → Bool) : Live.State :=
  { state with
    heap := fun id =>
      if id ∈ state.devList then { state.heap id with ready := restarts id } else state.heap id }

def step (state : Live.State) : Label → Option Live.State
  | .live label => Live.step state label
  | .reset restarts =>
      match state.task with
      | .idle => some (resetEnclavePci state restarts)
      | _ => none

def system : System Live.State Label where
  initial state := state = initial
  step := step

/-- The name under which a device is on the list, or will be as soon as it is stored -/
def intended (heap : Nat → Dev) (task : Task) (id : Nat) : List UInt8 :=
  match task with
  | .listed spec new => if id = new then cString spec.name else cString (heap id).name
  | _ => cString (heap id).name

/-- The names on the list, with that of a device on its way, are distinct. -/
structure Named (heap : Nat → Dev) (devList : List Nat) (next : Nat) (task : Task) : Prop where
  bound : ∀ id ∈ devList, id < next
  distinct : (devList.map (intended heap task)).Nodup
  adding : ∀ id, task.adding = some id → id ∈ devList
  holding : ∀ id, task.holding = some id → id < next ∧ id ∉ devList

section Named

variable {heap later : Nat → Dev} {devList : List Nat} {next id : Nat} {task following : Task}

theorem intended_eq (finished : task.adding ≠ some id) : intended heap task id = cString (heap id).name := by
  cases task with
  | listed spec new =>
      have other : id ≠ new := fun same => finished (congrArg some same.symm)
      exact if_neg other
  | _ => rfl

theorem initial_named : Named initial.heap initial.devList initial.next initial.task where
  bound _ listed := absurd listed List.not_mem_nil
  distinct := List.nodup_nil
  adding _ adding := by cases adding
  holding _ holding := by cases holding

theorem Named.keep (named : Named heap devList next task)
    (names : ∀ id ∈ devList, intended later following id = intended heap task id)
    (adding : ∀ id, following.adding = some id → task.adding = some id)
    (holding : ∀ id, following.holding = some id → task.holding = some id) : Named later devList next following where
  bound := named.bound
  distinct := by
    rw [List.map_congr_left names]
    exact named.distinct
  adding id same := named.adding id (adding id same)
  holding id same := named.holding id (holding id same)

theorem Named.rewrite (named : Named heap devList next task) (names : ∀ id, (later id).name = (heap id).name) :
    Named later devList next task := by
  refine named.keep ?_ (fun _ same => same) (fun _ same => same)
  intro id _
  cases task with
  | _ => simp only [intended, names]

theorem Named.update (named : Named heap devList next task) {dev : Dev} (name : dev.name = (heap id).name) :
    Named (Function.update heap id dev) devList next task := by
  refine named.rewrite ?_
  intro other
  by_cases same : other = id
  · subst same
    rw [Function.update_self, name]
  · rw [Function.update_of_ne same]

theorem Named.advance (named : Named heap devList next task) {dev : Dev} (name : dev.name = (heap id).name)
    (names : ∀ other, intended heap following other = intended heap task other)
    (adding : ∀ id, following.adding = some id → task.adding = some id)
    (holding : ∀ id, following.holding = some id → task.holding = some id) :
    Named (Function.update heap id dev) devList next following :=
  (named.keep (fun other _ => names other) adding holding).update name

theorem Named.add (named : Named heap devList next .idle) (spec : Spec) (dev : Dev) :
    Named (Function.update heap next dev) devList (next + 1) (.allocated spec next) := by
  have older : ∀ id ∈ devList, id ≠ next := fun id listed => Nat.ne_of_lt (named.bound id listed)
  constructor
  · exact fun id listed => Nat.lt_succ_of_lt (named.bound id listed)
  · have names : ∀ id ∈ devList,
        intended (Function.update heap next dev) (.allocated spec next) id = intended heap .idle id := by
      intro id listed
      simp only [intended, Function.update_of_ne (older id listed)]
    rw [List.map_congr_left names]
    exact named.distinct
  · exact fun _ adding => by cases adding
  · intro id holding
    obtain rfl := Option.some.inj holding
    exact ⟨Nat.lt_succ_self _, fun listed => older _ listed rfl⟩

theorem Named.list {spec : Spec} (named : Named heap devList next (.allocated spec id))
    (absent : ∀ other ∈ devList, cString (heap other).name ≠ cString spec.name) :
    Named heap (id :: devList) next (.listed spec id) := by
  obtain ⟨bound, unlisted⟩ := named.holding id rfl
  have others : ∀ other ∈ devList, intended heap (.listed spec id) other = cString (heap other).name := by
    intro other listed
    have different : other ≠ id := by
      rintro rfl
      exact unlisted listed
    exact if_neg different
  constructor
  · intro other listed
    rcases List.mem_cons.mp listed with rfl | older
    · exact bound
    · exact named.bound other older
  · rw [List.map_cons, List.map_congr_left others, List.nodup_cons]
    refine ⟨?_, named.distinct⟩
    intro present
    obtain ⟨other, listed, same⟩ := List.mem_map.mp present
    exact absent other listed (same.trans (if_pos rfl))
  · intro other adding
    obtain rfl := Option.some.inj adding
    exact List.mem_cons_self ..
  · exact fun _ holding => by cases holding

theorem Named.fill {spec : Spec} (named : Named heap devList next (.listed spec id)) :
    Named (Function.update heap id { heap id with name := cString spec.name }) devList next (.named id) := by
  refine named.keep ?_ (fun _ same => same) (fun _ holding => by cases holding)
  intro other _
  by_cases same : other = id
  · subst same
    simp only [intended, Function.update_self, if_true, cString_idem]
  · simp only [intended, Function.update_of_ne same, if_neg same]

theorem Named.unlist (named : Named heap devList next task) (listed : id ∈ devList)
    (stored : ∀ spec new, task ≠ .listed spec new) :
    Named heap (devList.erase id) next (.unlisted id) := by
  have names : ∀ other ∈ devList.erase id, intended heap (.unlisted id) other = intended heap task other := by
    intro other _
    cases task with
    | listed spec new => exact absurd rfl (stored spec new)
    | _ => rfl
  constructor
  · exact fun other member => named.bound other (List.mem_of_mem_erase member)
  · rw [List.map_congr_left names]
    exact (List.erase_sublist.map _).nodup named.distinct
  · exact fun _ adding => by cases adding
  · intro other holding
    obtain rfl := Option.some.inj holding
    exact ⟨named.bound id listed, (List.Nodup.of_map _ named.distinct).not_mem_erase⟩

end Named

def HasNames (state : Live.State) : Prop :=
  Named state.heap state.devList state.next state.task

theorem take_name {kind : Kind} {dev taken : Dev} (took : take kind dev = some taken) : taken.name = dev.name := by
  cases kind <;> simp only [take] at took <;> try split at took
  all_goals cases took
  all_goals rfl

theorem release_name (kind : Kind) (dev : Dev) : (release kind dev).name = dev.name := by
  cases kind <;> rfl

theorem HasNames.live {state after : Live.State} {label : Live.Label} (named : HasNames state)
    (stepped : Live.step state label = some after) : HasNames after := by
  cases step_move stepped with
  | @add _ _ _ _ spec => exact Named.add named spec _
  | refuse => exact Named.keep named (fun _ _ => rfl) (fun _ adding => by cases adding) (fun _ same => same)
  | list absent => exact Named.list named absent
  | fill => exact Named.fill named
  | probe => exact Named.advance named rfl (fun _ => rfl) (fun _ same => same) (fun _ holding => by cases holding)
  | probeFails | initFails =>
      exact Named.keep named (fun _ _ => rfl) (fun _ same => same) (fun _ holding => by cases holding)
  | init | kfree =>
      exact Named.advance named rfl (fun _ => rfl) (fun _ adding => by cases adding) (fun _ holding => by cases holding)
  | unlist => exact Named.unlist named (named.adding _ rfl) (fun _ _ same => by cases same)
  | remove found =>
      have erased := Named.unlist named (found_mem found) (fun _ _ same => by cases same)
      exact erased.update rfl
  | lookup _ took => exact Named.update named (take_name took)
  | finish => exact Named.update named (release_name _ _)
  | stay => exact named

theorem HasNames.step {state after : Live.State} {label : Label} (named : HasNames state)
    (stepped : Names.step state label = some after) : HasNames after := by
  cases label with
  | live label => exact named.live stepped
  | reset restarts =>
      simp only [Names.step] at stepped
      split at stepped
      · cases stepped
        refine Named.rewrite named ?_
        intro id
        simp only [resetEnclavePci]
        split <;> rfl
      · cases stepped

/-- A name stands for one device at most that is fully added. -/
structure Unique (state : Live.State) : Prop where
  distinct : ∀ first ∈ state.devList, ∀ second ∈ state.devList,
    state.task.adding ≠ some first → state.task.adding ≠ some second →
      cString (state.heap first).name = cString (state.heap second).name → first = second
  single : ∀ name, (state.devList.filter fun id =>
    decide (state.task.adding ≠ some id) && cString (state.heap id).name == cString name).length ≤ 1

theorem length_le_one {list : List Nat} (nodup : list.Nodup) (same : ∀ first ∈ list, ∀ second ∈ list, first = second) :
    list.length ≤ 1 := by
  rcases list with _ | ⟨first, _ | ⟨second, rest⟩⟩
  · exact Nat.zero_le 1
  · exact Nat.le_refl 1
  · have equal := same first (by simp) second (by simp)
    simp [equal] at nodup

theorem HasNames.unique {state : Live.State} (named : HasNames state) : Unique state := by
  have distinct : ∀ first ∈ state.devList, ∀ second ∈ state.devList,
      state.task.adding ≠ some first → state.task.adding ≠ some second →
        cString (state.heap first).name = cString (state.heap second).name → first = second := by
    intro first listed second other firstAdded secondAdded same
    refine List.inj_on_of_nodup_map (Named.distinct named) listed other ?_
    rw [intended_eq firstAdded, intended_eq secondAdded, same]
  refine ⟨distinct, ?_⟩
  intro name
  have nodup := (List.Nodup.of_map _ (Named.distinct named)).filter fun id =>
    decide (state.task.adding ≠ some id) && cString (state.heap id).name == cString name
  refine length_le_one nodup fun first firstFound second secondFound => ?_
  simp only [List.mem_filter, Bool.and_eq_true, decide_eq_true_eq, beq_iff_eq] at firstFound secondFound
  exact distinct first firstFound.1 second secondFound.1 firstFound.2.1 secondFound.2.1
    (firstFound.2.2.trans secondFound.2.2.symm)

/-- Names of devices are unique in every run, whatever long calls come in between. -/
theorem names_unique {state : Live.State} (reached : system.Reachable (fun _ _ => True) state) : Unique state := by
  have named : HasNames state := reached.invariant (fun start => start ▸ initial_named)
    (fun named _ stepped => named.step stepped)
  exact named.unique

/-- After a reset an attached device meets one without a name, which is being added. -/
theorem twoDevices_unique : ∃ state, system.Reachable (fun _ _ => True) state ∧
    state.devList = [1, 0] ∧ state.handler = .operating .attach 0 ∧ Unique state := by
  have executed := Option.map_eq_some_iff.mp
    (show (system.run (fun _ _ => true) initial
      [.live (.add nic), .live .list, .live .fill, .live (.probe true), .live (.init true), .reset fun _ => true,
        .live (.add { nic with name := [] }), .live .list, .live (.lookup .attach nic.name)]).map
          (fun state => (state.devList, state.handler)) = some ([1, 0], .operating .attach 0) by decide)
  obtain ⟨state, executed, observed⟩ := executed
  obtain ⟨devList, handler⟩ := Prod.mk.inj observed
  have reached : system.Reachable (fun _ _ => True) state := ⟨_, rfl, System.run_path (fun _ => trivial) executed⟩
  exact ⟨state, reached, devList, handler, names_unique reached⟩

end Pisces.Pci.Names
