import Mathlib.Logic.Function.Basic

/-! # Locks held by indexed parties

Each party is in a phase of its own, and the phase says whether the party holds
the lock.
-/

namespace Mutex

variable {Id Holder Phase : Type*} [DecidableEq Id]

/-- The lock is held by exactly the party whose phase owns it. -/
def Tracks (own : Id → Holder) (owns : Phase → Bool) (phase : Id → Phase) (lock : Option Holder) : Prop :=
  ∀ id, owns (phase id) = true ↔ lock = some (own id)

variable {own : Id → Holder} {owns : Phase → Bool} {phase : Id → Phase} {lock : Option Holder} {id : Id}
  {next : Phase}

theorem Tracks.keep (tracks : Tracks own owns phase lock) (same : owns next = owns (phase id)) :
    Tracks own owns (Function.update phase id next) lock := by
  intro other
  by_cases moved : other = id
  · subst moved
    rw [Function.update_self, same]
    exact tracks other
  · rw [Function.update_of_ne moved]
    exact tracks other

theorem Tracks.take (tracks : Tracks own owns phase lock) (injective : Function.Injective own)
    (free : lock = none) (taken : owns next = true) :
    Tracks own owns (Function.update phase id next) (some (own id)) := by
  intro other
  by_cases moved : other = id
  · subst moved
    rw [Function.update_self]
    exact iff_of_true taken rfl
  · rw [Function.update_of_ne moved, tracks other, free]
    refine iff_of_false (by simp) ?_
    intro same
    exact moved (injective (Option.some.inj same)).symm

theorem Tracks.give (tracks : Tracks own owns phase lock) (injective : Function.Injective own)
    (held : owns (phase id) = true) (given : owns next = false) :
    Tracks own owns (Function.update phase id next) none := by
  have holder := (tracks id).mp held
  intro other
  by_cases moved : other = id
  · subst moved
    rw [Function.update_self, given]
    simp
  · rw [Function.update_of_ne moved, tracks other, holder]
    refine iff_of_false ?_ (by simp)
    intro same
    exact moved (injective (Option.some.inj same)).symm

omit [DecidableEq Id] in
theorem Tracks.unique (tracks : Tracks own owns phase lock) (injective : Function.Injective own) {other : Id}
    (left : owns (phase id) = true) (right : owns (phase other) = true) : id = other := by
  have leftHolds := (tracks id).mp left
  rw [(tracks other).mp right] at leftHolds
  exact (injective (Option.some.inj leftHolds)).symm

end Mutex
