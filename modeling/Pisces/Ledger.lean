import Mathlib.Data.List.Count
import Mathlib.Data.List.Infix
import Mathlib.Data.List.Nodup

/-! # Ledgers of acquired and released handles

The log of a resource manager, newest entry first.  A release records the
pointer it was given, so that releasing nothing, or something already
released, stays visible.
-/

namespace Ledger

variable {Handle Key : Type*} [DecidableEq Handle]

inductive Event (Handle : Type*) where
  | acquire (handle : Handle)
  | release (pointer : Option Handle)
  deriving DecidableEq

def live : List (Event Handle) → List Handle
  | [] => []
  | .acquire handle :: log => handle :: live log
  | .release (some handle) :: log => (live log).erase handle
  | .release none :: log => live log

/-- Every release was given a handle that was live at that time. -/
def Sound : List (Event Handle) → Prop
  | [] => True
  | .acquire _ :: log => Sound log
  | .release pointer :: log => (∃ handle ∈ live log, pointer = some handle) ∧ Sound log

/-- At no time were two live handles of one counted kind. -/
def Exclusive [DecidableEq Key] (key : Handle → Key) (counted : Key → Prop)
    (log : List (Event Handle)) : Prop :=
  ∀ earlier, earlier <:+ log → ∀ kind, counted kind →
    (live earlier).countP (key · = kind) ≤ 1

/-- Every acquired handle was released exactly once. -/
def Settled (log : List (Event Handle)) : Prop :=
  ∀ handle, .acquire handle ∈ log → log.count (.release (some handle)) = 1

/-- No handle was acquired twice. -/
def Fresh (log : List (Event Handle)) : Prop :=
  ∀ handle, log.count (.acquire handle) ≤ 1

variable {log earlier : List (Event Handle)} {handle : Handle} {pointer : Option Handle}

@[simp] theorem live_acquire : live (.acquire handle :: log) = handle :: live log :=
  rfl

@[simp] theorem live_release_some : live (.release (some handle) :: log) = (live log).erase handle :=
  rfl

theorem live_release_sublist : (live (.release pointer :: log)).Sublist (live log) := by
  cases pointer with
  | none => exact List.Sublist.refl _
  | some handle => exact List.erase_sublist

@[simp] theorem sound_acquire : Sound (.acquire handle :: log) ↔ Sound log :=
  Iff.rfl

@[simp] theorem sound_release :
    Sound (.release pointer :: log) ↔ (∃ handle ∈ live log, pointer = some handle) ∧ Sound log :=
  Iff.rfl

theorem acquired_of_live (member : handle ∈ live log) : .acquire handle ∈ log := by
  induction log with
  | nil => simp [live] at member
  | cons event log ih =>
      cases event with
      | acquire other =>
          simp only [live_acquire, List.mem_cons] at member
          rcases member with same | older
          · simp [same]
          · exact List.mem_cons_of_mem _ (ih older)
      | release pointer => exact List.mem_cons_of_mem _ (ih (live_release_sublist.subset member))

/-- Acquisitions are accounted for by releases and live handles. -/
theorem Sound.count_acquire (sound : Sound log) (handle : Handle) :
    log.count (.acquire handle) = log.count (.release (some handle)) + (live log).count handle := by
  induction log with
  | nil => rfl
  | cons event log ih =>
      cases event with
      | acquire other =>
          simp only [sound_acquire] at sound
          simp [List.count_cons, ih sound]
          omega
      | release pointer =>
          obtain ⟨⟨released, member, rfl⟩, sound⟩ := sound
          have present : 0 < (live log).count released := List.count_pos_iff.mpr member
          by_cases same : released = handle
          · subst same
            simp [ih sound]
            omega
          · have other : handle ≠ released := fun equal => same equal.symm
            simp [List.count_erase_of_ne other, ih sound, same]

theorem Sound.live_nodup (sound : Sound log) (fresh : Fresh log) : (live log).Nodup := by
  rw [List.nodup_iff_count]
  intro handle
  have counted := sound.count_acquire handle
  have once := fresh handle
  omega

/-- Without live handles the account is settled, and only then. -/
theorem Sound.settled_iff (sound : Sound log) (fresh : Fresh log) : Settled log ↔ live log = [] := by
  constructor
  · intro settled
    rw [List.eq_nil_iff_forall_not_mem]
    intro handle member
    have released := settled handle (acquired_of_live member)
    have counted := sound.count_acquire handle
    have once := fresh handle
    have present : 0 < (live log).count handle := List.count_pos_iff.mpr member
    omega
  · intro empty handle acquired
    have counted := sound.count_acquire handle
    have once := fresh handle
    have present : 0 < log.count (.acquire handle) := List.count_pos_iff.mpr acquired
    rw [empty, List.count_nil] at counted
    omega

theorem fresh_acquire (fresh : Fresh log) (new : .acquire handle ∉ log) :
    Fresh (.acquire handle :: log) := by
  intro other
  by_cases same : handle = other
  · subst same
    simp [List.count_eq_zero_of_not_mem new]
  · simpa [List.count_cons, same] using fresh other

theorem fresh_release (fresh : Fresh log) : Fresh (.release pointer :: log) := by
  intro other
  simpa [List.count_cons] using fresh other

theorem Sound.of_suffix (sound : Sound log) (suffix : earlier <:+ log) : Sound earlier := by
  induction log with
  | nil =>
      rw [List.suffix_nil.mp suffix]
      exact sound
  | cons event log ih =>
      rcases List.suffix_cons_iff.mp suffix with rfl | older
      · exact sound
      · cases event with
        | acquire _ => exact ih sound older
        | release _ => exact ih sound.2 older

/-- The account is sound, and its live handles are those of `held`, once each. -/
structure Holds (log : List (Event Handle)) (held : Handle → Prop) : Prop where
  sound : Sound log
  distinct : (live log).Nodup
  exact : ∀ handle, handle ∈ live log ↔ held handle

section Holds

variable {held other : Handle → Prop}

theorem Holds.nil (none : ∀ handle, ¬ held handle) : Holds [] held :=
  ⟨trivial, List.nodup_nil, fun handle => iff_of_false List.not_mem_nil (none handle)⟩

theorem Holds.congr (holds : Holds log held) (same : ∀ handle, other handle ↔ held handle) : Holds log other :=
  ⟨holds.sound, holds.distinct, fun handle => (holds.exact handle).trans (same handle).symm⟩

theorem Holds.acquire (holds : Holds log held) (new : ¬ held handle) :
    Holds (.acquire handle :: log) fun other => other = handle ∨ held other where
  sound := holds.sound
  distinct := List.nodup_cons.mpr ⟨fun member => new ((holds.exact handle).mp member), holds.distinct⟩
  exact := fun other => by rw [live_acquire, List.mem_cons, holds.exact]

theorem Holds.release (holds : Holds log held) (own : held handle) :
    Holds (.release (some handle) :: log) fun other => other ≠ handle ∧ held other where
  sound := ⟨⟨handle, (holds.exact handle).mpr own, rfl⟩, holds.sound⟩
  distinct := holds.distinct.erase handle
  exact := fun other => by rw [live_release_some, holds.distinct.mem_erase_iff, holds.exact]

theorem Holds.settled (holds : Holds log held) (gone : ¬ held handle) :
    log.count (.acquire handle) = log.count (.release (some handle)) := by
  have absent : handle ∉ live log := fun member => gone ((holds.exact handle).mp member)
  rw [holds.sound.count_acquire, List.count_eq_zero_of_not_mem absent, Nat.add_zero]

end Holds

section Exclusive

variable [DecidableEq Key] {key : Handle → Key} {counted : Key → Prop}

theorem Exclusive.of_suffix (exclusive : Exclusive key counted log) (suffix : earlier <:+ log) :
    Exclusive key counted earlier :=
  fun first isSuffix => exclusive first (isSuffix.trans suffix)

theorem Exclusive.unique (exclusive : Exclusive key counted log) {first second : Handle}
    (counts : counted (key second)) (left : first ∈ live log) (right : second ∈ live log)
    (same : key first = key second) : first = second := by
  have bound := exclusive log (List.suffix_refl _) (key second) counts
  rw [List.countP_eq_length_filter] at bound
  have leftKept : first ∈ (live log).filter (key · = key second) := by simp [left, same]
  have rightKept : second ∈ (live log).filter (key · = key second) := by simp [right]
  obtain ⟨leftIndex, leftBound, atLeft⟩ := List.getElem_of_mem leftKept
  obtain ⟨rightIndex, rightBound, atRight⟩ := List.getElem_of_mem rightKept
  have sameIndex : leftIndex = rightIndex := by omega
  subst sameIndex
  exact atLeft.symm.trans atRight

theorem exclusive_cons {event : Event Handle} : Exclusive key counted (event :: log) ↔
    Exclusive key counted log ∧
      ∀ kind, counted kind → (live (event :: log)).countP (key · = kind) ≤ 1 := by
  constructor
  · intro exclusive
    exact ⟨exclusive.of_suffix (List.suffix_cons event log), exclusive _ (List.suffix_refl _)⟩
  · rintro ⟨older, newest⟩ first suffix
    rcases List.suffix_cons_iff.mp suffix with rfl | suffix
    · exact newest
    · exact older first suffix

@[simp] theorem exclusive_acquire : Exclusive key counted (.acquire handle :: log) ↔
    Exclusive key counted log ∧ (counted (key handle) → ∀ other ∈ live log, key other ≠ key handle) := by
  rw [exclusive_cons]
  apply and_congr_right
  intro older
  constructor
  · intro bounded counts other member same
    have bound := bounded (key handle) counts
    have present : 0 < (live log).countP (key · = key handle) :=
      List.countP_pos_iff.mpr ⟨other, member, by simpa using same⟩
    simp only [live_acquire, List.countP_cons, decide_true, ite_true] at bound
    omega
  · intro distinct kind counts
    by_cases same : key handle = kind
    · subst same
      have none : (live log).countP (key · = key handle) = 0 :=
        List.countP_eq_zero.mpr fun other member => by simpa using distinct counts other member
      simp [none]
    · simpa [same] using older log (List.suffix_refl _) kind counts

@[simp] theorem exclusive_release :
    Exclusive key counted (.release pointer :: log) ↔ Exclusive key counted log := by
  rw [exclusive_cons]
  constructor
  · exact And.left
  · intro older
    refine ⟨older, ?_⟩
    intro kind counts
    exact (live_release_sublist.countP_le).trans (older log (List.suffix_refl _) kind counts)

end Exclusive

end Ledger
