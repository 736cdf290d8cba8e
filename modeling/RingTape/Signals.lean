/-
Cancellation signals. Each signal is raised at most once: the first reason given for it stays, later ones
are ignored. A `Token` is a handle on a signal; copies of a handle are handles on the same signal, so every
holder of a copy sees the same reason.
-/

namespace RingTape

/-- a handle on a signal -/
structure Token where
  index : Nat
  deriving DecidableEq, Repr

/-- every signal there is, with the reason it was first raised for -/
structure Signals where
  reasons : Array (Option String) := #[]
  deriving DecidableEq, Repr

namespace Signals

/-- one more signal, not raised -/
def add (s : Signals) : Token × Signals :=
  (⟨s.reasons.size⟩, ⟨s.reasons.push none⟩)

/-- the reason a signal was first raised for -/
def reason? (s : Signals) (t : Token) : Option String :=
  (s.reasons[t.index]?).join

/-- raises a signal, which has no effect on one that was raised before -/
def raise (s : Signals) (t : Token) (why : String) : Signals :=
  ⟨s.reasons.modify t.index fun r => r.or (some why)⟩

/-- raises a signal for each of the reasons in turn -/
def raiseAll (s : Signals) (t : Token) (why : List String) : Signals :=
  why.foldl (fun s r => s.raise t r) s

theorem reason?_raise (s : Signals) (t u : Token) (why : String) :
    (s.raise t why).reason? u =
      if u = t ∧ t.index < s.reasons.size then (s.reason? u).or (some why) else s.reason? u := by
  obtain ⟨i⟩ := t
  obtain ⟨j⟩ := u
  simp only [raise, reason?, Token.mk.injEq, Array.getElem?_modify]
  by_cases h : i = j
  · subst h
    by_cases hi : i < s.reasons.size
    · simp [hi]
    · simp [hi]
  · simp [h, Ne.symm h]

end Signals

end RingTape
