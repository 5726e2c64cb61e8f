import Leone.Metrics.History
import Leone.Metrics.Timeline

/-!
# Checks of the collector

A call writes nothing before its last check, and after it nothing can fail.
-/

namespace Leone.Metrics

open Framework Framework.Method

/-- A call that returned an error and left the collector as it was. -/
def Rejects (metrics : ServiceMetrics) (fault : Fault MetricsError) (after : ServiceMetrics) :
    Prop :=
  after = metrics ∧ fault ≠ .panic

section Checks

variable {α β : Type} {metrics : ServiceMetrics} {next : α → Collects β}
variable {Q : β → ServiceMetrics → Prop}

theorem rejects_error (error : MetricsError) : Rejects metrics (.error error) metrics :=
  ⟨rfl, nofun⟩

theorem check_ofExcept {result : Except MetricsError α}
    (h : ∀ value, result = .ok value → (next value).Ends metrics Q (Rejects metrics)) :
    (ofExcept result >>= next).Ends metrics Q (Rejects metrics) := by
  rw [ends_bind, ends_ofExcept]
  exact ⟨h, fun error _ => rejects_error error⟩

theorem check_orErr {result : Option α} {error : MetricsError}
    (h : ∀ value, result = some value → (next value).Ends metrics Q (Rejects metrics)) :
    (orErr result error >>= next).Ends metrics Q (Rejects metrics) := by
  rw [ends_bind, ends_orErr]
  exact ⟨h, fun _ => rejects_error error⟩

theorem check_ensure {condition : Prop} [Decidable condition] {error : MetricsError}
    {next : Unit → Collects β}
    (h : condition → (next ()).Ends metrics Q (Rejects metrics)) :
    (ensure condition error >>= next).Ends metrics Q (Rejects metrics) := by
  rw [ends_bind, ends_ensure]
  exact ⟨h, fun _ => rejects_error error⟩

/-- A subtraction that does not underflow. -/
theorem sub_orPanic {a b : Nat} {next : Nat → Collects β} (hle : b ≤ a)
    (h : (next (a - b)).Ends metrics Q (Rejects metrics)) :
    (orPanic (checkedSub a b) >>= next).Ends metrics Q (Rejects metrics) := by
  rw [checkedSub, if_pos hle]
  exact h

/-- An addition that does not overflow. -/
theorem add_orPanic {a b : Nat} {next : Nat → Collects β} (hlt : a + b < 2 ^ 64)
    (h : (next (a + b)).Ends metrics Q (Rejects metrics)) :
    (orPanic (checkedAdd 64 a b) >>= next).Ends metrics Q (Rejects metrics) := by
  rw [checkedAdd, if_pos hlt]
  exact h

end Checks

section Push

variable {α : Type} {limit : Nat} {all : List α} {history : BoundedHistory α}
variable {metrics : ServiceMetrics} {E : Fault MetricsError → ServiceMetrics → Prop}

theorem Retains.room {result : Unit} (h : Retains limit all history)
    (hok : history.canPush = .ok result) : all.length + 1 < 2 ^ 64 := by
  rw [h.canPush] at hok
  split_ifs at hok with hroom
  exact hroom

/-- A push onto one history of the collector. -/
theorem ends_push {view : ServiceMetrics → BoundedHistory α}
    {put : BoundedHistory α → ServiceMetrics → ServiceMetrics} {Q : Unit → ServiceMetrics → Prop}
    {value : α} (h : Retains limit all (view metrics)) (hroom : all.length + 1 < 2 ^ 64)
    (hnext : ∀ history, Retains limit (all ++ [value]) history → Q () (put history metrics)) :
    Ends (discard (zoom view put (BoundedHistory.pushValidated value))) metrics Q E := by
  rw [ends_discard, ends_zoom]
  apply (h.pushValidated hroom value).mono
  · intro _ history hhistory
    exact hnext history hhistory
  · intro _ _ hfalse
    exact hfalse.elim

end Push

/-! ## Outcomes -/

section Outcomes

variable {config : MetricsConfig} {record : Record} {metrics : ServiceMetrics} {outcome : String}

theorem Represents.getD_outcomes (h : Represents config record metrics) (outcome : String) :
    (metrics.outcomes.get? outcome).getD 0 = record.outcomes.count outcome := by
  rw [h.outcomes]
  split_ifs with hmem
  · rfl
  · exact (List.count_eq_zero_of_not_mem hmem).symm

/-- The counts of a collector that takes one more outcome. -/
theorem Represents.count_outcome (h : Represents config record metrics) (outcome : String) :
    (∀ other, (metrics.outcomes.insert outcome (record.outcomes.count outcome + 1)).get? other =
      if other ∈ record.outcomes ++ [outcome] then
        some ((record.outcomes ++ [outcome]).count other) else none) ∧
    (metrics.outcomes.insert outcome (record.outcomes.count outcome + 1)).sumBy id =
      (record.outcomes ++ [outcome]).length := by
  constructor
  · intro other
    rw [SortedMap.get?_insert, h.outcomes, List.count_append, List.count_singleton]
    by_cases hother : other = outcome
    · simp [hother]
    · simp [hother, Ne.symm hother]
  · have htotal := h.total
    have hgetD := h.getD_outcomes outcome
    rw [List.length_append, List.length_singleton]
    cases hcount : metrics.outcomes.get? outcome with
    | none =>
      rw [hcount] at hgetD
      rw [SortedMap.sumBy_insert_new _ _ hcount, ← hgetD, htotal]
      exact Nat.add_comm 1 _
    | some count =>
      rw [hcount] at hgetD
      have hsum := SortedMap.sumBy_insert_add (record.outcomes.count outcome + 1) id hcount
      rw [← hgetD] at hsum ⊢
      rw [htotal] at hsum
      simp only [Option.getD_some, id] at hsum ⊢
      omega

theorem Represents.preflight {result : Unit} (h : Represents config record metrics)
    (hok : metrics.preflightOutcome outcome = .ok result) :
    record.outcomes.length + 1 < 2 ^ 64 := by
  simp only [ServiceMetrics.preflightOutcome, bind_eq_ok] at hok
  rcases hok with ⟨_, _, hok⟩
  rw [h.requestCount] at hok
  by_contra hlong
  rw [checkedAdd, if_neg hlong] at hok
  cases hok

theorem count_lt {outcomes : List String} (h : outcomes.length + 1 < 2 ^ 64) (outcome : String) :
    outcomes.count outcome + 1 < 2 ^ 64 := by
  have hle := List.count_le_length (a := outcome) (l := outcomes)
  omega

end Outcomes

end Leone.Metrics
