import Pisces.Job

/-! # Jobs in step

The same job over two states, one more detailed than the other.
-/

namespace Pisces.Job

variable {Event Low High Stop : Type*} {First Second : Type}

/-- From related states the lower job leaves the events of the higher one and
answers what that answers; when they go on, the states are related again. -/
def Refines (before after : Low → High → Prop) (low : Job Event Low Stop First)
    (high : Job Event High Stop First) : Prop :=
  ∀ concrete abstract, before concrete abstract →
    (low concrete).events = (high abstract).events ∧ (low concrete).answer = (high abstract).answer ∧
      ∀ answer, Answers high abstract answer → after (low concrete).state (high abstract).state

section Rules

variable {before between after : Low → High → Prop}

theorem refines_pure (answer : First) :
    Refines before before (Pure.pure answer : Job Event Low Stop First) (Pure.pure answer) :=
  fun _ _ related => ⟨rfl, rfl, fun _ _ => related⟩

theorem refines_stop (reason : Stop) :
    Refines before after (stop reason : Job Event Low Stop First) (stop reason) :=
  fun _ abstract _ => ⟨rfl, rfl, fun answer goes => ((answers_stop abstract reason answer).mp goes).elim⟩

theorem refines_emit {event : Event} {change : Low → Low} {update : High → High}
    (kept : ∀ concrete abstract, before concrete abstract → after (change concrete) (update abstract)) :
    Refines before after (emit event change : Job Event Low Stop Unit) (emit event update) :=
  fun _ _ related => ⟨rfl, rfl, fun _ _ => kept _ _ related⟩

theorem refines_bind {low : Job Event Low Stop First} {high : Job Event High Stop First}
    {lowNext : First → Job Event Low Stop Second} {highNext : First → Job Event High Stop Second}
    (first : Refines before between low high)
    (rest : ∀ answer, Refines between after (lowNext answer) (highNext answer)) :
    Refines before after (low >>= lowNext) (high >>= highNext) := by
  intro concrete abstract related
  obtain ⟨events, answers, left⟩ := first _ _ related
  simp only [Answers, Bind.bind, Job.bind, answers] at left ⊢
  cases goes : (high abstract).answer with
  | error reason => exact ⟨events, rfl, fun _ given => by cases given⟩
  | ok answer =>
      obtain ⟨later, ends, leaves⟩ := rest answer _ _ (left answer goes)
      exact ⟨congrArg₂ List.append events later, ends, leaves⟩

/-- A check of two conditions that come to the same -/
theorem refines_require {holds given : Prop} [Decidable holds] [Decidable given] (reason : Stop)
    (same : holds ↔ given) :
    Refines before before (require holds reason : Job Event Low Stop Unit) (require given reason) := by
  by_cases passed : given
  · rw [require, require, if_pos passed, if_pos (same.mpr passed)]
    exact refines_pure ()
  · rw [require, require, if_neg passed, if_neg fun held => passed (same.mp held)]
    exact refines_stop reason

/-- Both jobs read a value that is known. -/
theorem refines_read_bind {lowView : Low → First} {highView : High → First}
    {lowNext : First → Job Event Low Stop Second} {highNext : First → Job Event High Stop Second} {value : First}
    (seen : ∀ concrete abstract, before concrete abstract → lowView concrete = value ∧ highView abstract = value)
    (rest : Refines before after (lowNext value) (highNext value)) :
    Refines before after (read lowView >>= lowNext) (read highView >>= highNext) := by
  intro concrete abstract related
  have lowShown : (read lowView >>= lowNext) concrete = lowNext value concrete := by
    rw [← (seen _ _ related).1]
    rfl
  have highShown : (read highView >>= highNext) abstract = highNext value abstract := by
    rw [← (seen _ _ related).2]
    rfl
  simp only [Answers, lowShown, highShown]
  exact rest _ _ related

/-- Only the lower job reads, and what it reads is known. -/
theorem refines_read_known {lowView : Low → First} {lowNext : First → Job Event Low Stop Second}
    {high : Job Event High Stop Second} {value : First}
    (known : ∀ concrete abstract, before concrete abstract → lowView concrete = value)
    (rest : Refines before after (lowNext value) high) :
    Refines before after (read lowView >>= lowNext) high := by
  intro concrete abstract related
  have shown : (read lowView >>= lowNext) concrete = lowNext value concrete := by
    rw [← known _ _ related]
    rfl
  rw [shown]
  exact rest _ _ related

theorem Refines.weaken {weaker stronger : Low → High → Prop} {low : Job Event Low Stop First}
    {high : Job Event High Stop First} (refines : Refines before after low high)
    (gives : ∀ concrete abstract, stronger concrete abstract → before concrete abstract)
    (follows : ∀ concrete abstract, after concrete abstract → weaker concrete abstract) :
    Refines stronger weaker low high := by
  intro concrete abstract related
  obtain ⟨events, answers, left⟩ := refines _ _ (gives _ _ related)
  exact ⟨events, answers, fun answer goes => follows _ _ (left answer goes)⟩

end Rules

end Pisces.Job
