import Mathlib
import Leone.Framework.Method

/-!
# Loops that decide when to stop

The body of the loop says whether the loop goes on. Turns are counted, so a loop is a total
method; a measure that every turn lowers bounds the turns that it needs.
-/

namespace Framework

namespace Method

variable {σ ε : Type}

/-- Repeat the body while it returns `true`. The result is `false` when the turns ran out. -/
def repeatWhile (body : Method σ ε Bool) : Nat → Method σ ε Bool
  | 0 => pure false
  | turns + 1 => do
    if ← body then repeatWhile body turns else return true

/-- A loop whose turns keep an invariant and lower a measure stops by itself. -/
theorem ends_repeatWhile {body : Method σ ε Bool} {I Q : σ → Prop}
    {E : Fault ε → σ → Prop} {measure : σ → Nat}
    (hbody : ∀ s, I s → body.Ends s
      (fun again s' => if again then I s' ∧ measure s' < measure s else Q s') E)
    {s : σ} (hs : I s) {turns : Nat} (hturns : measure s < turns) :
    (repeatWhile body turns).Ends s (fun stopped s' => stopped = true ∧ Q s') E := by
  induction turns generalizing s with
  | zero => exact absurd hturns (Nat.not_lt_zero _)
  | succ turns ih =>
    rw [repeatWhile, ends_bind]
    apply (hbody s hs).mono
    · intro again s' hagain
      cases again with
      | true =>
        simp only [if_true] at hagain ⊢
        exact ih hagain.1 (by omega)
      | false =>
        simp only [Bool.false_eq_true, if_false] at hagain ⊢
        exact ⟨rfl, hagain⟩
    · exact fun fault s' hfault => hfault

/-- However many turns a loop is given, its faults are those of a turn, and a loop that stops by
itself stops as a turn does. -/
theorem repeatWhile_partial {body : Method σ ε Bool} {I Q : σ → Prop}
    {E : Fault ε → σ → Prop}
    (hbody : ∀ s, I s → body.Ends s (fun again s' => if again then I s' else Q s') E)
    {s : σ} (hs : I s) (turns : Nat) :
    (repeatWhile body turns).Ends s (fun stopped s' => if stopped then Q s' else I s') E := by
  induction turns generalizing s with
  | zero => exact hs
  | succ turns ih =>
    rw [repeatWhile, ends_bind]
    apply (hbody s hs).mono
    · intro again s' hagain
      cases again with
      | true => exact ih hagain
      | false => exact hagain
    · exact fun fault s' hfault => hfault

end Method

end Framework
