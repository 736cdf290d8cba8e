/-
Values bound to names. A name given again is bound anew, and its old value is gone.
-/

namespace RingTape

/-- names with the values bound to them, each name at most once -/
abbrev Bindings (α : Type) := List (String × α)

namespace Bindings

variable {α : Type}

/-- the value bound to a name -/
def find? (b : Bindings α) (name : String) : Option α :=
  b.lookup name

/-- the bindings without a name -/
def unbind (b : Bindings α) (name : String) : Bindings α :=
  b.filter fun p => p.1 != name

/-- the bindings with a name bound to a value -/
def bind (b : Bindings α) (name : String) (value : α) : Bindings α :=
  (name, value) :: b.unbind name

theorem find?_unbind (b : Bindings α) (name other : String) :
    (b.unbind name).find? other = if other = name then none else b.find? other := by
  induction b with
  | nil => simp [unbind, find?]
  | cons p rest ih =>
    obtain ⟨key, v⟩ := p
    simp only [unbind, find?] at ih ⊢
    by_cases hk : key = name
    · subst hk
      by_cases ho : other = key
      · subst ho
        simpa using ih
      · simpa [List.lookup_cons, beq_false_of_ne ho, ho] using ih
    · rw [List.filter_cons, if_pos (by simpa using hk), List.lookup_cons, List.lookup_cons, ih]
      by_cases ho : other = name
      · subst ho
        simp [beq_false_of_ne (Ne.symm hk)]
      · rw [if_neg ho, if_neg ho]

/-- a bound name has its new value, every other name the value it had -/
theorem find?_bind (b : Bindings α) (name other : String) (value : α) :
    (b.bind name value).find? other = if other = name then some value else b.find? other := by
  have h := find?_unbind b name other
  simp only [bind, find?, List.lookup_cons] at h ⊢
  by_cases ho : other = name
  · simp [ho]
  · rw [beq_false_of_ne ho, if_neg ho]
    rw [if_neg ho] at h
    exact h

end Bindings

end RingTape
