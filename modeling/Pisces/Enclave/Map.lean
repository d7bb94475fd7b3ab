import Mathlib.Data.Fin.Basic
import Mathlib.Data.List.FinRange
import Mathlib.Logic.Function.Basic
import Pisces.Transition

/-! # The enclave map

`PISCES_LOAD_IMAGE` and `PISCES_FREE_ENCLAVE` over `enclave_map`: a slot is
claimed before the registration of the enclave's device, and cleared when the
enclave is freed.
-/

namespace Pisces.Enclave.Map

open Transition

/-- A `struct pisces_enclave` in memory -/
structure PiscesEnclave where
  id : Fin 128
  /-- `pisces_enclave_create` has returned its index. -/
  created : Bool
  /-- `kfree` on the way out of `pisces_enclave_create` -/
  discarded : Bool
  /-- The FREE requests that freed it -/
  frees : Nat
  deriving DecidableEq

/-- After `memset` -/
def PiscesEnclave.zeroed : PiscesEnclave := ⟨0, false, false, 0⟩

/-- Created and not yet freed -/
def PiscesEnclave.live (enclave : PiscesEnclave) : Prop :=
  enclave.created = true ∧ enclave.discarded = false ∧ enclave.frees = 0

/-- Pointers are numbered as they are allocated. -/
structure State where
  enclaveMap : Fin 128 → Option Nat
  enclaves : Nat → PiscesEnclave
  next : Nat

/-- What `device_create` returns; only NULL is taken for a failure. -/
inductive DeviceCreate where
  | created
  | null
  | errPtr
  deriving DecidableEq

inductive Request where
  /-- With the results of `copy_from_user`, `cdev_add` and `device_create` -/
  | loadImage (copied : Bool) (cdevAdd : Int) (deviceCreate : DeviceCreate)
  | freeEnclave (arg : UInt64)
  deriving DecidableEq

/-- The slot that `alloc_enclave_index` takes -/
def firstFree (enclaveMap : Fin 128 → Option Nat) : Option (Fin 128) :=
  (List.finRange 128).find? fun i => (enclaveMap i).isNone

/-- `pisces_enclave_create`: the index or -1.  The slot stays claimed when the
registration fails. -/
def piscesEnclaveCreate (state : State) (cdevAdd : Int) (deviceCreate : DeviceCreate) : Int × State :=
  let pointer := state.next
  match firstFree state.enclaveMap with
  | none =>
      (-1, { state with
        enclaves := Function.update state.enclaves pointer { PiscesEnclave.zeroed with discarded := true }
        next := pointer + 1 })
  | some index =>
      let claimed := Function.update state.enclaveMap index (some pointer)
      if cdevAdd ≠ 0 ∨ deviceCreate = .null then
        (-1, { enclaveMap := claimed
               enclaves := Function.update state.enclaves pointer
                 { PiscesEnclave.zeroed with id := index, discarded := true }
               next := pointer + 1 })
      else
        (index.val, { enclaveMap := claimed
                      enclaves := Function.update state.enclaves pointer
                        { PiscesEnclave.zeroed with id := index, created := true }
                      next := pointer + 1 })

/-- `pisces_enclave_free`; the slot is the one that the enclave's own `id` names. -/
def piscesEnclaveFree (state : State) (pointer : Nat) : State :=
  let enclave := state.enclaves pointer
  { state with
    enclaveMap := Function.update state.enclaveMap enclave.id none
    enclaves := Function.update state.enclaves pointer { enclave with frees := enclave.frees + 1 } }

/-- `device_ioctl`; the argument of a FREE request is cut to an `int`. -/
def deviceIoctl (state : State) : Request → Int × State
  | .loadImage copied cdevAdd deviceCreate =>
      if !copied then (-14, state)
      else
        let (index, after) := piscesEnclaveCreate state cdevAdd deviceCreate
        (if index = -1 then -14 else index, after)
  | .freeEnclave arg =>
      let index := arg.toUInt32.toInt32.toInt
      if bounds : index < 0 ∨ index ≥ 128 then (-22, state)
      else
        match state.enclaveMap ⟨index.toNat, by omega⟩ with
        | none => (-22, state)
        | some pointer => (0, piscesEnclaveFree state pointer)

def initial : State where
  enclaveMap _ := none
  enclaves _ := .zeroed
  next := 0

def system : System State Request where
  initial state := state = initial
  step state request := some (deviceIoctl state request).2

/-- A create that has a slot gets through the registration. -/
def Registrable (state : State) : Request → Prop
  | .loadImage copied cdevAdd deviceCreate =>
      copied = true → (firstFree state.enclaveMap).isSome = true → cdevAdd = 0 ∧ deviceCreate ≠ .null
  | .freeEnclave _ => True

instance (state : State) : (request : Request) → Decidable (Registrable state request)
  | .loadImage .. => inferInstanceAs (Decidable (_ → _))
  | .freeEnclave _ => .isTrue trivial

/-- Every slot holds a live enclave of its own, no enclave was freed twice, and a
request that fails leaves the map alone. -/
structure MapSound (state : State) : Prop where
  live : ∀ index pointer, state.enclaveMap index = some pointer →
    (state.enclaves pointer).live ∧ (state.enclaves pointer).id = index
  distinct : ∀ left right pointer, state.enclaveMap left = some pointer →
    state.enclaveMap right = some pointer → left = right
  once : ∀ pointer, (state.enclaves pointer).frees ≤ 1
  failed : ∀ request, Registrable state request → (deviceIoctl state request).1 < 0 →
    (deviceIoctl state request).2.enclaveMap = state.enclaveMap

/-- The part of it that is kept from request to request -/
structure Held (state : State) : Prop where
  bound : ∀ index pointer, state.enclaveMap index = some pointer → pointer < state.next
  live : ∀ index pointer, state.enclaveMap index = some pointer →
    (state.enclaves pointer).live ∧ (state.enclaves pointer).id = index
  once : ∀ pointer, (state.enclaves pointer).frees ≤ 1

section Requests

variable {state : State}

theorem initial_held : Held initial where
  bound := fun _ _ mapped => by cases mapped
  live := fun _ _ mapped => by cases mapped
  once := fun _ => Nat.zero_le 1

theorem Held.enclaves_new (held : Held state) {enclave : PiscesEnclave} {index : Fin 128} {pointer : Nat}
    (mapped : state.enclaveMap index = some pointer) :
    Function.update state.enclaves state.next enclave pointer = state.enclaves pointer :=
  Function.update_of_ne (Nat.ne_of_lt (held.bound index pointer mapped)) ..

theorem Held.once_new (held : Held state) {enclave : PiscesEnclave} (unfreed : enclave.frees = 0) (pointer : Nat) :
    (Function.update state.enclaves state.next enclave pointer).frees ≤ 1 := by
  by_cases new : pointer = state.next
  · subst new
    rw [Function.update_self, unfreed]
    exact Nat.zero_le 1
  · rw [Function.update_of_ne new]
    exact held.once pointer

theorem Held.loadImage (held : Held state) {cdevAdd : Int} {deviceCreate : DeviceCreate}
    (registers : (firstFree state.enclaveMap).isSome = true → cdevAdd = 0 ∧ deviceCreate ≠ .null) :
    Held (piscesEnclaveCreate state cdevAdd deviceCreate).2 := by
  rw [piscesEnclaveCreate]
  cases free : firstFree state.enclaveMap with
  | none =>
      constructor
      · exact fun index pointer mapped => Nat.lt_succ_of_lt (held.bound index pointer mapped)
      · intro index pointer mapped
        dsimp only
        rw [held.enclaves_new mapped]
        exact held.live index pointer mapped
      · exact held.once_new rfl
  | some slot =>
      obtain ⟨added, present⟩ := registers (by simp [free])
      have registered : ¬ (cdevAdd ≠ 0 ∨ deviceCreate = .null) := by simp [added, present]
      simp only [registered, if_false]
      constructor
      · intro index pointer mapped
        dsimp only at mapped
        by_cases here : index = slot
        · subst here
          rw [Function.update_self] at mapped
          exact Option.some.inj mapped ▸ Nat.lt_succ_self _
        · rw [Function.update_of_ne here] at mapped
          exact Nat.lt_succ_of_lt (held.bound index pointer mapped)
      · intro index pointer mapped
        dsimp only at mapped
        by_cases here : index = slot
        · subst here
          rw [Function.update_self] at mapped
          obtain rfl := Option.some.inj mapped
          dsimp only
          rw [Function.update_self]
          exact ⟨⟨rfl, rfl, rfl⟩, rfl⟩
        · rw [Function.update_of_ne here] at mapped
          dsimp only
          rw [held.enclaves_new mapped]
          exact held.live index pointer mapped
      · exact held.once_new rfl

theorem Held.free (held : Held state) {index : Fin 128} {pointer : Nat}
    (mapped : state.enclaveMap index = some pointer) : Held (piscesEnclaveFree state pointer) := by
  obtain ⟨⟨created, kept, unfreed⟩, own⟩ := held.live index pointer mapped
  -- What is still mapped sits in another slot, so it is another enclave.
  have others : ∀ other still, (piscesEnclaveFree state pointer).enclaveMap other = some still →
      still ≠ pointer ∧ state.enclaveMap other = some still := by
    intro other still remains
    simp only [piscesEnclaveFree, own] at remains
    by_cases here : other = index
    · subst here
      rw [Function.update_self] at remains
      cases remains
    · rw [Function.update_of_ne here] at remains
      refine ⟨?_, remains⟩
      rintro rfl
      exact here ((held.live other still remains).2.symm.trans own)
  constructor
  · exact fun other still remains => held.bound other still (others other still remains).2
  · intro other still remains
    obtain ⟨different, before⟩ := others other still remains
    simp only [piscesEnclaveFree]
    rw [Function.update_of_ne different]
    exact held.live other still before
  · intro other
    simp only [piscesEnclaveFree]
    by_cases here : other = pointer
    · subst here
      rw [Function.update_self, unfreed]
    · rw [Function.update_of_ne here]
      exact held.once other

theorem Held.request (held : Held state) {request : Request} (registrable : Registrable state request) :
    Held (deviceIoctl state request).2 := by
  cases request with
  | loadImage copied cdevAdd deviceCreate =>
      cases copied with
      | false => exact held
      | true => exact held.loadImage (registrable rfl)
  | freeEnclave arg =>
      simp only [deviceIoctl]
      split
      · exact held
      · split
        · exact held
        · rename_i pointer mapped
          exact held.free mapped

theorem create_failed {cdevAdd : Int} {deviceCreate : DeviceCreate}
    (registers : (firstFree state.enclaveMap).isSome = true → cdevAdd = 0 ∧ deviceCreate ≠ .null)
    (failed : (deviceIoctl state (.loadImage true cdevAdd deviceCreate)).1 < 0) :
    (piscesEnclaveCreate state cdevAdd deviceCreate).2.enclaveMap = state.enclaveMap := by
  simp only [deviceIoctl, piscesEnclaveCreate] at failed ⊢
  cases free : firstFree state.enclaveMap with
  | none => rfl
  | some slot =>
      obtain ⟨added, present⟩ := registers (by simp [free])
      simp [free, added, present] at failed
      omega

theorem Held.mapSound (held : Held state) : MapSound state := by
  constructor
  · exact held.live
  · intro left right pointer mapped also
    exact (held.live left pointer mapped).2.symm.trans (held.live right pointer also).2
  · exact held.once
  · intro request registrable failed
    cases request with
    | loadImage copied cdevAdd deviceCreate =>
        cases copied with
        | false => rfl
        | true => exact create_failed (registrable rfl) failed
    | freeEnclave arg =>
        simp only [deviceIoctl] at failed ⊢
        split
        · rfl
        · rename_i inRange
          simp only [inRange, dif_neg, not_false_eq_true] at failed
          split
          · rfl
          · rename_i pointer mapped
            rw [mapped] at failed
            exact absurd failed (Int.lt_irrefl 0)

end Requests

/-- In a run in which every registration that is tried succeeds, the map is sound. -/
theorem reachable_mapSound {state : State} (reached : system.Reachable Registrable state) : MapSound state := by
  have held : Held state := reached.invariant (fun start => start ▸ initial_held)
    (fun held registrable stepped => Option.some.inj stepped ▸ held.request registrable)
  exact held.mapSound

/-- Two enclaves, the first freed and its slot taken again, and a request to free nothing -/
theorem reused_mapSound : ∃ state, system.Reachable Registrable state ∧
    (state.enclaveMap 0, state.enclaveMap 1) = (some 2, some 1) ∧ MapSound state := by
  have executed := Option.map_eq_some_iff.mp
    (show (system.run (fun state request => decide (Registrable state request)) initial
      [.loadImage true 0 .created, .loadImage true 0 .created, .freeEnclave 0, .freeEnclave 0,
        .loadImage true 0 .created]).map (fun state => (state.enclaveMap 0, state.enclaveMap 1)) =
          some (some 2, some 1) by decide)
  obtain ⟨state, executed, mapped⟩ := executed
  have reached : system.Reachable Registrable state := ⟨_, rfl, System.run_path of_decide_eq_true executed⟩
  exact ⟨state, reached, mapped, reachable_mapSound reached⟩

/-- A create whose `cdev_add` fails leaves a discarded enclave in the map. -/
theorem unregistered_not_mapSound :
    ¬ ∀ state, system.Reachable (fun _ _ => True) state → MapSound state := by
  intro always
  have executed := Option.map_eq_some_iff.mp
    (show (system.run (fun _ _ => true) initial [.loadImage true (-12) .created]).map
      (fun state => (state.enclaveMap 0, (state.enclaves 0).discarded)) = some (some 0, true) by decide)
  obtain ⟨state, executed, observed⟩ := executed
  obtain ⟨mapped, discarded⟩ := Prod.mk.inj observed
  have sound := always state ⟨_, rfl, System.run_path (fun _ => trivial) executed⟩
  exact absurd (discarded.symm.trans (sound.live 0 0 mapped).1.2.1) (by decide)

end Pisces.Enclave.Map
