import Mathlib.Logic.Function.Basic
import Pisces.Pci.Device
import Pisces.Transition

/-! # Long calls on devices that come and go

`enclave_pci_add_dev` and `enclave_pci_remove_dev` step by step, against the
long-call thread, which looks a device up under the lock and uses it after.
`ctrl->lock` lets one control ioctl run at a time.
-/

namespace Pisces.Pci.Live

open Transition

/-- A `struct pisces_pci_dev` in memory -/
structure Dev where
  name : List UInt8
  /-- `dev` is not NULL. -/
  dev : Bool
  ready : Bool
  assigned : Bool
  freed : Bool
  deriving DecidableEq

/-- After `memset` -/
def Dev.zeroed : Dev := ⟨[], false, false, false, false⟩

def Dev.initialised (dev : Dev) : Prop := dev.dev = true ∧ dev.ready = true ∧ dev.freed = false

instance (dev : Dev) : Decidable dev.initialised := inferInstanceAs (Decidable (_ ∧ _))

/-- Where the control ioctl is -/
inductive Task where
  | idle
  | allocated (spec : Spec) (id : Nat)
  | listed (spec : Spec) (id : Nat)
  | named (id : Nat)
  | probed (id : Nat)
  /-- On the way out of a failed add -/
  | failed (id : Nat)
  | unlisted (id : Nat)
  deriving DecidableEq

/-- The device that an add has on the list -/
def Task.adding : Task → Option Nat
  | .listed _ id => some id
  | .named id => some id
  | .probed id => some id
  | .failed id => some id
  | _ => none

/-- The device that an add or a removal has off the list -/
def Task.holding : Task → Option Nat
  | .allocated _ id => some id
  | .unlisted id => some id
  | _ => none

inductive Kind where
  | attach
  | detach
  | iommuMap
  | iommuUnmap
  | ackIrq
  | cmd
  deriving DecidableEq

/-- The handlers that look at `assigned` -/
def Kind.checks : Kind → Bool
  | .ackIrq => false
  | .cmd => false
  | _ => true

/-- Where the long-call thread is -/
inductive Handler where
  | waiting
  | operating (kind : Kind) (id : Nat)
  deriving DecidableEq

def Handler.device : Handler → Option Nat
  | .waiting => none
  | .operating _ id => some id

structure State where
  heap : Nat → Dev
  devList : List Nat
  next : Nat
  task : Task
  handler : Handler

def findDevByName (state : State) (name : List UInt8) : Option Nat :=
  state.devList.find? fun id => cString (state.heap id).name == cString name

inductive Label where
  /-- `kmalloc` and `memset` -/
  | add (spec : Spec)
  /-- The locked part: `list_add` unless the name is there -/
  | list
  /-- `strncpy` and the other fields -/
  | fill
  /-- `pci_get_bus_and_slot` and the checks after it -/
  | probe (succeeds : Bool)
  /-- `__init_pci_dev` -/
  | init (succeeds : Bool)
  /-- `list_del` of a failed add -/
  | unlist
  /-- The locked part of a removal -/
  | remove (spec : Spec)
  /-- `kfree`, for a removal after `__deinit_pci_dev` -/
  | kfree
  /-- The locked part of a long-call handler -/
  | lookup (kind : Kind) (name : List UInt8)
  /-- The handler is done with the device. -/
  | finish
  deriving DecidableEq

/-- The checks that a handler makes under the lock, and the claim that an attach makes there -/
def take (kind : Kind) (dev : Dev) : Option Dev :=
  match kind with
  | .attach => if !dev.assigned && dev.ready then some { dev with assigned := true } else none
  | .ackIrq => some dev
  | .cmd => some dev
  | _ => if dev.assigned then some dev else none

/-- What a handler stores last -/
def release (kind : Kind) (dev : Dev) : Dev :=
  match kind with
  | .detach => { dev with assigned := false }
  | _ => dev

def step (state : State) : Label → Option State
  | .add spec =>
      match state.task with
      | .idle =>
          some { state with
            heap := Function.update state.heap state.next .zeroed
            next := state.next + 1
            task := .allocated spec state.next }
      | _ => none
  | .list =>
      match state.task with
      | .allocated spec id =>
          match findDevByName state spec.name with
          | some _ => some { state with task := .unlisted id }
          | none => some { state with devList := id :: state.devList, task := .listed spec id }
      | _ => none
  | .fill =>
      match state.task with
      | .listed spec id =>
          some { state with
            heap := Function.update state.heap id { state.heap id with name := cString spec.name }, task := .named id }
      | _ => none
  | .probe succeeds =>
      match state.task with
      | .named id =>
          if succeeds then
            some { state with
              heap := Function.update state.heap id { state.heap id with dev := true }
              task := .probed id }
          else some { state with task := .failed id }
      | _ => none
  | .init succeeds =>
      match state.task with
      | .probed id =>
          if succeeds then
            some { state with heap := Function.update state.heap id { state.heap id with ready := true }, task := .idle }
          else some { state with task := .failed id }
      | _ => none
  | .unlist =>
      match state.task with
      | .failed id => some { state with devList := state.devList.erase id, task := .unlisted id }
      | _ => none
  | .remove spec =>
      match state.task with
      | .idle =>
          match findDevByName state spec.name with
          | none => some state
          | some id =>
              if !(state.heap id).assigned && (state.heap id).ready then
                some { state with
                  heap := Function.update state.heap id { state.heap id with ready := false }
                  devList := state.devList.erase id
                  task := .unlisted id }
              else some state
      | _ => none
  | .kfree =>
      match state.task with
      | .unlisted id =>
          some { state with heap := Function.update state.heap id { state.heap id with freed := true }, task := .idle }
      | _ => none
  | .lookup kind name =>
      match state.handler with
      | .waiting =>
          match findDevByName state name with
          | none => some state
          | some id =>
              match take kind (state.heap id) with
              | none => some state
              | some taken =>
                  some { state with
                    heap := Function.update state.heap id taken
                    handler := .operating kind id }
      | _ => none
  | .finish =>
      match state.handler with
      | .operating kind id =>
          some { state with heap := Function.update state.heap id (release kind (state.heap id)), handler := .waiting }
      | _ => none

def initial : State where
  heap _ := .zeroed
  devList := []
  next := 0
  task := .idle
  handler := .waiting

def system : System State Label where
  initial state := state = initial
  step := step

/-- A handler without checks finds no device that is still being added, and no
removal takes the device that a handler is operating on. -/
def Serial (state : State) : Label → Prop
  | .lookup kind name =>
      kind.checks = true ∨ ∀ id ∈ findDevByName state name, state.task.adding ≠ some id
  | .remove spec =>
      ∀ id ∈ findDevByName state spec.name, (state.heap id).assigned = false →
        (state.heap id).ready = true → state.handler.device ≠ some id
  | _ => True

instance (state : State) : (label : Label) → Decidable (Serial state label)
  | .lookup .. => inferInstanceAs (Decidable (_ ∨ _))
  | .remove _ => inferInstanceAs (Decidable (∀ _ ∈ _, _))
  | .add _ => .isTrue trivial
  | .list => .isTrue trivial
  | .fill => .isTrue trivial
  | .probe _ => .isTrue trivial
  | .init _ => .isTrue trivial
  | .unlist => .isTrue trivial
  | .kfree => .isTrue trivial
  | .finish => .isTrue trivial

/-- Every listed device is initialised or still being added, and the long-call
thread operates on one of the former. -/
structure Sound (heap : Nat → Dev) (devList : List Nat) (next : Nat) (task : Task) (handler : Handler) : Prop where
  bound : ∀ id ∈ devList, id < next
  distinct : devList.Nodup
  listed : ∀ id ∈ devList, task.adding ≠ some id → (heap id).initialised
  adding : ∀ id, task.adding = some id →
    id ∈ devList ∧ (heap id).ready = false ∧ (heap id).assigned = false ∧ (heap id).freed = false
  probed : ∀ id, task = .probed id → (heap id).dev = true
  holding : ∀ id, task.holding = some id → id < next ∧ id ∉ devList
  allocated : ∀ spec id, task = .allocated spec id → heap id = .zeroed
  operating : ∀ kind id, handler = .operating kind id →
    id ∈ devList ∧ task.adding ≠ some id ∧ (kind.checks = true → (heap id).assigned = true)

section Sound

variable {heap : Nat → Dev} {devList : List Nat} {next id : Nat} {task : Task} {handler : Handler} {dev : Dev}

theorem initial_sound : Sound initial.heap initial.devList initial.next initial.task initial.handler where
  bound := fun _ listed => absurd listed List.not_mem_nil
  distinct := List.nodup_nil
  listed := fun _ listed => absurd listed List.not_mem_nil
  adding := fun _ adding => by cases adding
  probed := fun _ probed => by cases probed
  holding := fun _ holding => by cases holding
  allocated := fun _ _ allocated => by cases allocated
  operating := fun _ _ operating => by cases operating

theorem Sound.add (sound : Sound heap devList next .idle handler) (spec : Spec) :
    Sound (Function.update heap next .zeroed) devList (next + 1) (.allocated spec next) handler := by
  have older : ∀ id ∈ devList, id ≠ next := fun id listed => Nat.ne_of_lt (sound.bound id listed)
  constructor
  · exact fun id listed => Nat.lt_succ_of_lt (sound.bound id listed)
  · exact sound.distinct
  · intro id listed _
    rw [Function.update_of_ne (older id listed)]
    exact sound.listed id listed (by simp [Task.adding])
  · exact fun _ adding => by cases adding
  · exact fun _ probed => by cases probed
  · intro id holding
    obtain rfl := Option.some.inj holding
    exact ⟨Nat.lt_succ_self _, fun listed => older _ listed rfl⟩
  · intro _ id allocated
    cases allocated
    exact Function.update_self ..
  · intro kind id operating
    obtain ⟨listed, -, assigned⟩ := sound.operating kind id operating
    refine ⟨listed, by simp [Task.adding], fun checks => ?_⟩
    rw [Function.update_of_ne (older id listed)]
    exact assigned checks

theorem Sound.list {spec : Spec} (sound : Sound heap devList next (.allocated spec id) handler) :
    Sound heap (id :: devList) next (.listed spec id) handler := by
  obtain ⟨bound, absent⟩ := sound.holding id rfl
  have zeroed := sound.allocated spec id rfl
  constructor
  · intro other listed
    rcases List.mem_cons.mp listed with rfl | older
    · exact bound
    · exact sound.bound other older
  · exact List.nodup_cons.mpr ⟨absent, sound.distinct⟩
  · intro other listed finished
    rcases List.mem_cons.mp listed with rfl | older
    · exact absurd rfl finished
    · exact sound.listed other older (by simp [Task.adding])
  · intro other adding
    obtain rfl := Option.some.inj adding
    rw [zeroed]
    exact ⟨List.mem_cons_self .., rfl, rfl, rfl⟩
  · exact fun _ probed => by cases probed
  · exact fun _ holding => by cases holding
  · exact fun _ _ allocated => by cases allocated
  · intro kind other operating
    obtain ⟨listed, -, assigned⟩ := sound.operating kind other operating
    refine ⟨List.mem_cons_of_mem _ listed, ?_, assigned⟩
    intro adding
    exact absent (Option.some.inj adding ▸ listed)

theorem Sound.refuse {spec : Spec} (sound : Sound heap devList next (.allocated spec id) handler) :
    Sound heap devList next (.unlisted id) handler where
  bound := sound.bound
  distinct := sound.distinct
  listed := sound.listed
  adding := sound.adding
  probed := fun _ probed => by cases probed
  holding := sound.holding
  allocated := fun _ _ allocated => by cases allocated
  operating := sound.operating

theorem Sound.fill {later : Task} (sound : Sound heap devList next task handler) (adding : task.adding = some id)
    (ready : dev.ready = false) (assigned : dev.assigned = false) (live : dev.freed = false)
    (same : later.adding = some id) (handle : later = .probed id → dev.dev = true) :
    Sound (Function.update heap id dev) devList next later handler := by
  constructor
  · exact sound.bound
  · exact sound.distinct
  · intro other listed finished
    have different : other ≠ id := by
      rintro rfl
      exact finished same
    rw [Function.update_of_ne different]
    refine sound.listed other listed fun stillAdding => ?_
    exact different (Option.some.inj (stillAdding.symm.trans adding))
  · intro other stillAdding
    obtain rfl := Option.some.inj (same.symm.trans stillAdding)
    rw [Function.update_self]
    exact ⟨(sound.adding id adding).1, ready, assigned, live⟩
  · rintro other rfl
    obtain rfl := Option.some.inj same
    rw [Function.update_self]
    exact handle rfl
  · intro other holding
    cases later <;> cases same <;> cases holding
  · rintro spec other rfl
    cases same
  · intro kind other operating
    obtain ⟨listed, finished, claimed⟩ := sound.operating kind other operating
    have different : other ≠ id := by
      rintro rfl
      exact finished adding
    refine ⟨listed, fun stillAdding => different (Option.some.inj (stillAdding.symm.trans same)), fun checks => ?_⟩
    rw [Function.update_of_ne different]
    exact claimed checks

theorem Sound.fail (sound : Sound heap devList next task handler) (adding : task.adding = some id) :
    Sound heap devList next (.failed id) handler := by
  obtain ⟨-, ready, assigned, live⟩ := sound.adding id adding
  have failed : Task.adding (.failed id) = some id := rfl
  have filled := sound.fill adding ready assigned live failed (fun probed => by cases probed)
  rwa [Function.update_eq_self] at filled

theorem Sound.init (sound : Sound heap devList next (.probed id) handler) :
    Sound (Function.update heap id { heap id with ready := true }) devList next .idle handler := by
  obtain ⟨listed, -, -, live⟩ := sound.adding id rfl
  have handle := sound.probed id rfl
  constructor
  · exact sound.bound
  · exact sound.distinct
  · intro other member _
    by_cases here : other = id
    · subst here
      rw [Function.update_self]
      exact ⟨handle, rfl, live⟩
    · rw [Function.update_of_ne here]
      exact sound.listed other member fun adding => here (Option.some.inj adding).symm
  · exact fun _ adding => by cases adding
  · exact fun _ probed => by cases probed
  · exact fun _ holding => by cases holding
  · exact fun _ _ allocated => by cases allocated
  · intro kind other operating
    obtain ⟨member, finished, claimed⟩ := sound.operating kind other operating
    have different : other ≠ id := by
      rintro rfl
      exact finished rfl
    refine ⟨member, by simp [Task.adding], fun checks => ?_⟩
    rw [Function.update_of_ne different]
    exact claimed checks

theorem Sound.unlist {later : Nat → Dev} (sound : Sound heap devList next task handler) (listed : id ∈ devList)
    (alone : task.adding = some id ∨ task = .idle) (unused : handler.device ≠ some id)
    (others : ∀ other ≠ id, later other = heap other) :
    Sound later (devList.erase id) next (.unlisted id) handler := by
  have different : ∀ other ∈ devList.erase id, other ≠ id ∧ other ∈ devList := fun other member =>
    sound.distinct.mem_erase_iff.mp member
  constructor
  · exact fun other member => sound.bound other (different other member).2
  · exact sound.distinct.erase id
  · intro other member _
    obtain ⟨elsewhere, before⟩ := different other member
    rw [others other elsewhere]
    refine sound.listed other before fun adding => ?_
    rcases alone with own | rfl
    · exact elsewhere (Option.some.inj (adding.symm.trans own))
    · cases adding
  · exact fun _ adding => by cases adding
  · exact fun _ probed => by cases probed
  · intro other holding
    obtain rfl := Option.some.inj holding
    exact ⟨sound.bound id listed, fun member => (different id member).1 rfl⟩
  · exact fun _ _ allocated => by cases allocated
  · rintro kind other rfl
    obtain ⟨before, -, claimed⟩ := sound.operating kind other rfl
    have elsewhere : other ≠ id := by
      rintro rfl
      exact unused rfl
    refine ⟨sound.distinct.mem_erase_iff.mpr ⟨elsewhere, before⟩, by simp [Task.adding], fun checks => ?_⟩
    rw [others other elsewhere]
    exact claimed checks

theorem Sound.kfree (sound : Sound heap devList next (.unlisted id) handler) (dev : Dev) :
    Sound (Function.update heap id dev) devList next .idle handler := by
  obtain ⟨-, absent⟩ := sound.holding id rfl
  have different : ∀ other ∈ devList, other ≠ id := by
    rintro other listed rfl
    exact absent listed
  constructor
  · exact sound.bound
  · exact sound.distinct
  · intro other listed _
    rw [Function.update_of_ne (different other listed)]
    exact sound.listed other listed (by simp [Task.adding])
  · exact fun _ adding => by cases adding
  · exact fun _ probed => by cases probed
  · exact fun _ holding => by cases holding
  · exact fun _ _ allocated => by cases allocated
  · intro kind other operating
    obtain ⟨listed, -, claimed⟩ := sound.operating kind other operating
    refine ⟨listed, by simp [Task.adding], fun checks => ?_⟩
    rw [Function.update_of_ne (different other listed)]
    exact claimed checks

theorem Sound.assign {later : Handler} (sound : Sound heap devList next task handler) (listed : id ∈ devList)
    (finished : task.adding ≠ some id) (initialised : dev.initialised)
    (moves : ∀ kind other, later = .operating kind other →
      other = id ∧ (kind.checks = true → dev.assigned = true)) :
    Sound (Function.update heap id dev) devList next task later := by
  constructor
  · exact sound.bound
  · exact sound.distinct
  · intro other member complete
    by_cases here : other = id
    · subst here
      rw [Function.update_self]
      exact initialised
    · rw [Function.update_of_ne here]
      exact sound.listed other member complete
  · intro other adding
    have different : other ≠ id := by
      rintro rfl
      exact finished adding
    rw [Function.update_of_ne different]
    exact sound.adding other adding
  · rintro other rfl
    have different : other ≠ id := by
      rintro rfl
      exact finished rfl
    rw [Function.update_of_ne different]
    exact sound.probed other rfl
  · exact sound.holding
  · rintro spec other rfl
    have different : other ≠ id := by
      rintro rfl
      exact (sound.holding other rfl).2 listed
    rw [Function.update_of_ne different]
    exact sound.allocated spec other rfl
  · intro kind other operating
    obtain ⟨rfl, claimed⟩ := moves kind other operating
    rw [Function.update_self]
    exact ⟨listed, finished, claimed⟩

theorem Sound.take (sound : Sound heap devList next task handler) (listed : id ∈ devList) {kind : Kind}
    (serial : kind.checks = true ∨ task.adding ≠ some id) (taken : Live.take kind (heap id) = some dev) :
    task.adding ≠ some id ∧ dev.initialised ∧ (kind.checks = true → dev.assigned = true) := by
  -- A device that is still being added is neither ready nor assigned.
  have finished : task.adding ≠ some id := by
    intro adding
    obtain ⟨-, ready, assigned, -⟩ := sound.adding id adding
    cases kind <;> simp [Live.take, ready, assigned, Kind.checks, adding] at taken serial
  have initialised := sound.listed id listed finished
  refine ⟨finished, ?_⟩
  cases kind with
  | attach =>
      simp only [Live.take] at taken
      split at taken
      · cases taken
        exact ⟨initialised, fun _ => rfl⟩
      · cases taken
  | ackIrq | cmd =>
      cases taken
      exact ⟨initialised, fun checks => by cases checks⟩
  | _ =>
      simp only [Live.take] at taken
      split at taken
      · rename_i assigned
        cases taken
        exact ⟨initialised, fun _ => assigned⟩
      · cases taken

end Sound

def State.Sound (state : State) : Prop :=
  Live.Sound state.heap state.devList state.next state.task state.handler

theorem found_mem {state : State} {name : List UInt8} {id : Nat} (found : findDevByName state name = some id) :
    id ∈ state.devList := List.mem_of_find?_eq_some found

/-- Everything a step can do. -/
inductive Move : State → Label → State → Prop where
  | add {heap devList next handler spec} :
      Move ⟨heap, devList, next, .idle, handler⟩ (.add spec)
        ⟨Function.update heap next .zeroed, devList, next + 1, .allocated spec next, handler⟩
  | refuse {heap devList next handler spec id} :
      Move ⟨heap, devList, next, .allocated spec id, handler⟩ .list ⟨heap, devList, next, .unlisted id, handler⟩
  | list {heap devList next handler spec id}
      (absent : ∀ other ∈ devList, cString (heap other).name ≠ cString spec.name) :
      Move ⟨heap, devList, next, .allocated spec id, handler⟩ .list
        ⟨heap, id :: devList, next, .listed spec id, handler⟩
  | fill {heap devList next handler spec id} :
      Move ⟨heap, devList, next, .listed spec id, handler⟩ .fill
        ⟨Function.update heap id { heap id with name := cString spec.name }, devList, next, .named id, handler⟩
  | probe {heap devList next handler id} :
      Move ⟨heap, devList, next, .named id, handler⟩ (.probe true)
        ⟨Function.update heap id { heap id with dev := true }, devList, next, .probed id, handler⟩
  | probeFails {heap devList next handler id} :
      Move ⟨heap, devList, next, .named id, handler⟩ (.probe false) ⟨heap, devList, next, .failed id, handler⟩
  | init {heap devList next handler id} :
      Move ⟨heap, devList, next, .probed id, handler⟩ (.init true)
        ⟨Function.update heap id { heap id with ready := true }, devList, next, .idle, handler⟩
  | initFails {heap devList next handler id} :
      Move ⟨heap, devList, next, .probed id, handler⟩ (.init false) ⟨heap, devList, next, .failed id, handler⟩
  | unlist {heap devList next handler id} :
      Move ⟨heap, devList, next, .failed id, handler⟩ .unlist
        ⟨heap, devList.erase id, next, .unlisted id, handler⟩
  | remove {heap devList next handler spec id}
      (found : findDevByName ⟨heap, devList, next, .idle, handler⟩ spec.name = some id)
      (unassigned : (heap id).assigned = false) (ready : (heap id).ready = true) :
      Move ⟨heap, devList, next, .idle, handler⟩ (.remove spec)
        ⟨Function.update heap id { heap id with ready := false }, devList.erase id, next, .unlisted id, handler⟩
  | kfree {heap devList next handler id} :
      Move ⟨heap, devList, next, .unlisted id, handler⟩ .kfree
        ⟨Function.update heap id { heap id with freed := true }, devList, next, .idle, handler⟩
  | lookup {heap devList next task kind name id taken}
      (found : findDevByName ⟨heap, devList, next, task, .waiting⟩ name = some id)
      (took : take kind (heap id) = some taken) :
      Move ⟨heap, devList, next, task, .waiting⟩ (.lookup kind name)
        ⟨Function.update heap id taken, devList, next, task, .operating kind id⟩
  | finish {heap devList next task kind id} :
      Move ⟨heap, devList, next, task, .operating kind id⟩ .finish
        ⟨Function.update heap id (release kind (heap id)), devList, next, task, .waiting⟩
  /-- A name that is not found, or a device that is not in the right state -/
  | stay {state label} : Move state label state

theorem step_move {state after : State} {label : Label} (stepped : step state label = some after) :
    Move state label after := by
  obtain ⟨heap, devList, next, task, handler⟩ := state
  cases label with
  | add spec =>
      cases task <;> cases stepped
      exact .add
  | list =>
      cases task <;> try cases stepped
      simp only [step] at stepped
      split at stepped
      · cases stepped
        exact .refuse
      · rename_i absent
        cases stepped
        refine .list ?_
        intro other listed same
        have different := List.find?_eq_none.mp absent other listed
        exact different (beq_iff_eq.mpr same)
  | fill =>
      cases task <;> cases stepped
      exact .fill
  | probe succeeds =>
      cases task <;> cases succeeds <;> cases stepped
      · exact .probeFails
      · exact .probe
  | init succeeds =>
      cases task <;> cases succeeds <;> cases stepped
      · exact .initFails
      · exact .init
  | unlist =>
      cases task <;> cases stepped
      exact .unlist
  | remove spec =>
      cases task <;> try cases stepped
      simp only [step] at stepped
      split at stepped
      · cases stepped
        exact .stay
      · rename_i id found
        split at stepped
        · rename_i removable
          cases stepped
          simp only [Bool.and_eq_true, Bool.not_eq_true'] at removable
          exact .remove found removable.1 removable.2
        · cases stepped
          exact .stay
  | kfree =>
      cases task <;> cases stepped
      exact .kfree
  | lookup kind name =>
      cases handler <;> try cases stepped
      simp only [step] at stepped
      split at stepped
      · cases stepped
        exact .stay
      · rename_i id found
        split at stepped
        · cases stepped
          exact .stay
        · rename_i taken took
          cases stepped
          exact .lookup found took
  | finish =>
      cases handler <;> cases stepped
      exact .finish

theorem State.Sound.step {state after : State} {label : Label} (sound : state.Sound) (serial : Serial state label)
    (stepped : step state label = some after) : after.Sound := by
  cases step_move stepped with
  | @add _ _ _ _ spec => exact Live.Sound.add sound spec
  | refuse => exact Live.Sound.refuse sound
  | list => exact Live.Sound.list sound
  | fill =>
      obtain ⟨-, ready, assigned, live⟩ := sound.adding _ rfl
      exact Live.Sound.fill sound rfl ready assigned live rfl (fun probed => by cases probed)
  | probe =>
      obtain ⟨-, ready, assigned, live⟩ := sound.adding _ rfl
      exact Live.Sound.fill sound rfl ready assigned live rfl (fun _ => rfl)
  | probeFails | initFails => exact Live.Sound.fail sound rfl
  | init => exact Live.Sound.init sound
  | @unlist _ _ _ handler id =>
      have unused : handler.device ≠ some id := by
        rintro operating
        cases handler with
        | waiting => cases operating
        | operating kind other =>
            obtain rfl := Option.some.inj operating
            exact (sound.operating kind other rfl).2.1 rfl
      exact Live.Sound.unlist sound (sound.adding id rfl).1 (.inl rfl) unused (fun _ _ => rfl)
  | remove found unassigned ready =>
      have unused := serial _ found unassigned ready
      exact Live.Sound.unlist sound (found_mem found) (.inr rfl) unused fun other elsewhere =>
        Function.update_of_ne elsewhere ..
  | kfree => exact Live.Sound.kfree sound _
  | lookup found took =>
      have listed := found_mem found
      obtain ⟨finished, initialised, claimed⟩ :=
        Live.Sound.take sound listed (serial.imp_right fun free => free _ found) took
      refine Live.Sound.assign sound listed finished initialised ?_
      rintro _ _ ⟨⟩
      exact ⟨rfl, claimed⟩
  | @finish _ _ _ _ kind id =>
      obtain ⟨listed, finished, -⟩ := sound.operating kind id rfl
      have initialised := sound.listed id listed finished
      refine Live.Sound.assign sound listed finished ?_ (fun _ _ operating => by cases operating)
      cases kind <;> exact initialised
  | stay => exact sound

/-- Handlers operate on initialised devices that stay on the list, and a device
that is not initialised is not found. -/
structure OnlyLive (state : State) : Prop where
  live : ∀ id, state.handler.device = some id → (state.heap id).initialised ∧ id ∈ state.devList
  unfinished : ∀ kind name id, findDevByName state name = some id → ¬ (state.heap id).initialised →
    Serial state (.lookup kind name) → state.handler = .waiting → step state (.lookup kind name) = some state

theorem State.Sound.onlyLive {state : State} (sound : state.Sound) : OnlyLive state := by
  constructor
  · intro id operating
    cases busy : state.handler with
    | waiting =>
        rw [busy] at operating
        cases operating
    | operating kind other =>
        rw [busy] at operating
        obtain rfl := Option.some.inj operating
        obtain ⟨listed, finished, -⟩ := sound.operating kind other busy
        exact ⟨sound.listed other listed finished, listed⟩
  · intro kind name id found unfinished serial waiting
    have refused : take kind (state.heap id) = none := by
      by_contra goesOn
      obtain ⟨dev, taken⟩ := Option.ne_none_iff_exists'.mp goesOn
      obtain ⟨finished, -, -⟩ := Live.Sound.take sound (found_mem found)
        (serial.imp_right fun free => free id found) taken
      exact unfinished (sound.listed id (found_mem found) finished)
    simp [Live.step, waiting, found, refused]

theorem reachable_onlyLive {state : State} (reached : system.Reachable Serial state) : OnlyLive state := by
  have sound : state.Sound := reached.invariant (fun start => start ▸ initial_sound)
    (fun sound serial stepped => sound.step serial stepped)
  exact sound.onlyLive

def nic : Spec := ⟨[110, 105, 99], 3, 0, 0⟩

/-- A second device is added while the first is acknowledged. -/
theorem acknowledged_onlyLive : ∃ state, system.Reachable Serial state ∧
    state.handler = .operating .ackIrq 0 ∧ OnlyLive state := by
  have executed := Option.map_eq_some_iff.mp
    (show (system.run (fun state label => decide (Serial state label)) initial
      [.add nic, .list, .fill, .probe true, .init true, .add { nic with name := [97] }, .list,
        .lookup .ackIrq nic.name, .fill]).map (·.handler) = some (.operating .ackIrq 0) by decide)
  obtain ⟨state, executed, operating⟩ := executed
  have reached : system.Reachable Serial state := ⟨_, rfl, System.run_path of_decide_eq_true executed⟩
  exact ⟨state, reached, operating, reachable_onlyLive reached⟩

/-- An interrupt is acknowledged for a device that is listed and has no `dev` yet. -/
theorem unprobed_not_onlyLive :
    ¬ ∀ state, system.Reachable (fun _ _ => True) state → OnlyLive state := by
  intro always
  have executed := Option.map_eq_some_iff.mp
    (show (system.run (fun _ _ => true) initial [.add nic, .list, .fill, .lookup .ackIrq nic.name]).map
      (fun state => (state.handler, (state.heap 0).dev)) = some (.operating .ackIrq 0, false) by decide)
  obtain ⟨state, executed, observed⟩ := executed
  obtain ⟨operating, dev⟩ := Prod.mk.inj observed
  have live := (always state ⟨_, rfl, System.run_path (fun _ => trivial) executed⟩).live 0 (by rw [operating]; rfl)
  exact absurd (dev.symm.trans live.1.1) (by decide)

end Pisces.Pci.Live
