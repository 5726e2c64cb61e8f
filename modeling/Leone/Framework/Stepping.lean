import Mathlib

/-!
# Stepped loops

A loop over the multiples of a step below a bound goes from each multiple to the next one or to the
bound. What each turn extends from where it begins to where it ends holds of the whole.
-/

namespace Framework

/-- `(0..stop).step_by(step)`. -/
def stepBy (stop step : Nat) : List Nat := List.range' 0 (stop ⌈/⌉ step) step

section Loop

variable {σ ε : Type} {stop step : Nat} {body : σ → Nat → Except ε σ} {P : Nat → σ → Prop}

theorem foldlM_range'_step (hstep : 0 < step)
    (hbody : ∀ offset s, step ∣ offset → offset < stop → P offset s →
      ∃ s', body s offset = .ok s' ∧ P (min (offset + step) stop) s')
    {turns offset : Nat} {s : σ} (hdvd : step ∣ offset) (hturns : turns = (stop - offset) ⌈/⌉ step)
    (hs : P (min offset stop) s) :
    ∃ s', (List.range' offset turns step).foldlM body s = .ok s' ∧ P stop s' := by
  induction turns generalizing offset s with
  | zero =>
    have hzero : stop - offset = 0 := by
      by_contra hne
      have := (Nat.ceilDiv_eq_add_pred_div (stop - offset) step).symm.trans hturns.symm
      rw [Nat.div_eq_zero_iff] at this
      omega
    rw [Nat.min_eq_right (by omega)] at hs
    exact ⟨s, rfl, hs⟩
  | succ turns ih =>
    have hlt : offset < stop := by
      by_contra hge
      rw [Nat.sub_eq_zero_of_le (Nat.not_lt.mp hge), Nat.ceilDiv_eq_add_pred_div,
        Nat.zero_add, Nat.div_eq_of_lt (by omega)] at hturns
      cases hturns
    rw [Nat.min_eq_left hlt.le] at hs
    rcases hbody offset s hdvd hlt hs with ⟨next, hnext, hP⟩
    have hrest : turns = (stop - (offset + step)) ⌈/⌉ step := by
      rw [Nat.ceilDiv_eq_add_pred_div] at hturns ⊢
      by_cases hlast : stop ≤ offset + step
      · rw [Nat.sub_eq_zero_of_le hlast, Nat.zero_add, Nat.div_eq_of_lt (by omega)]
        have hone : (stop - offset + step - 1) / step < 2 := by
          rw [Nat.div_lt_iff_lt_mul hstep]
          omega
        omega
      · rw [show stop - offset + step - 1 = stop - (offset + step) + step - 1 + step by omega,
          Nat.add_div_right _ hstep] at hturns
        omega
    rcases ih (Nat.dvd_add hdvd (Nat.dvd_refl step)) hrest hP with ⟨last, hlast, hstop⟩
    refine ⟨last, ?_, hstop⟩
    rw [List.range'_succ, List.foldlM_cons, hnext]
    exact hlast

/-- The rule of a stepped loop: what holds at the start and is extended by each turn holds at the
bound. -/
theorem foldlM_stepBy (hstep : 0 < step) {s : σ} (hs : P 0 s)
    (hbody : ∀ offset s, step ∣ offset → offset < stop → P offset s →
      ∃ s', body s offset = .ok s' ∧ P (min (offset + step) stop) s') :
    ∃ s', (stepBy stop step).foldlM body s = .ok s' ∧ P stop s' :=
  foldlM_range'_step hstep hbody (Nat.dvd_zero step) rfl (by rwa [Nat.zero_min])

end Loop

end Framework
