import Mathlib
import Leone.Scheduler.Model

/-!
# Service order

The comparison of requests is a lexicographic order on a key, so it is total and transitive.
A batch is then a prefix of the queue in that order: nothing left queued precedes a selected
request.
-/

namespace Leone.Scheduler

open Framework

/-- The key that orders requests: urgent ones first and by deadline, the rest by virtual runtime,
then by falling priority, then in order of arrival. -/
def serviceKey (policy : SchedulerPolicy) (nowNs : Nat) (state : RequestState) :
    Bool ×ₗ ℕ ×ₗ ℕ ×ₗ ℕ ×ₗ ℕ :=
  if urgent policy nowNs state then
    toLex (false, toLex ((state.spec.deadlineNs.map Fin.val).getD 0,
      toLex (state.virtualRuntime, toLex (0, state.sequence))))
  else
    toLex (true, toLex (0,
      toLex (state.virtualRuntime, toLex (2 ^ 16 - state.spec.priority, state.sequence))))

/-- A falling comparison of priorities is a rising comparison of their complements. -/
theorem compare_priority (left right : U16) :
    compare (right : Nat) left = compare (2 ^ 16 - (left : Nat)) (2 ^ 16 - (right : Nat)) := by
  have hleft := left.isLt
  have hright := right.isLt
  rcases lt_trichotomy (left : Nat) right with h | h | h
  · rw [compare_gt_iff_gt.mpr h, compare_gt_iff_gt.mpr (by omega)]
  · rw [h, compare_eq_iff_eq.mpr rfl, compare_eq_iff_eq.mpr rfl]
  · rw [compare_lt_iff_lt.mpr h, compare_lt_iff_lt.mpr (by omega)]

theorem urgent_deadline {policy : SchedulerPolicy} {nowNs : Nat} {state : RequestState}
    (h : urgent policy nowNs state) : ∃ deadline, state.spec.deadlineNs = some deadline := by
  cases hd : state.spec.deadlineNs with
  | none => simp [urgent, hd] at h
  | some deadline => exact ⟨deadline, rfl⟩

theorem compareRequests_eq (policy : SchedulerPolicy) (nowNs : Nat) (left right : RequestState) :
    compareRequests policy nowNs left right =
      compare (serviceKey policy nowNs left) (serviceKey policy nowNs right) := by
  have hbool : compare true false = .gt ∧ compare false true = .lt := by decide
  cases hleft : urgent policy nowNs left with
  | false =>
    cases hright : urgent policy nowNs right with
    | false =>
      simp [compareRequests, serviceKey, hleft, hright, Prod.Lex.compare_def, compareLex,
        compareOn, compare_priority left.spec.priority right.spec.priority]
    | true =>
      simp [compareRequests, serviceKey, hleft, hright, Prod.Lex.compare_def, compareLex,
        compareOn, hbool]
  | true =>
    obtain ⟨dl, hdl⟩ := urgent_deadline hleft
    cases hright : urgent policy nowNs right with
    | false =>
      simp [compareRequests, serviceKey, hleft, hright, Prod.Lex.compare_def, compareLex,
        compareOn, hbool]
    | true =>
      obtain ⟨dr, hdr⟩ := urgent_deadline hright
      have hdeadline : compare (some (dl : Nat)) (some (dr : Nat)) = compare (dl : Nat) dr := rfl
      simp [compareRequests, serviceKey, hleft, hright, hdl, hdr, Prod.Lex.compare_def,
        compareLex, compareOn, hdeadline]

/-- The order in which a dispatch takes requests. -/
def Precedes (policy : SchedulerPolicy) (nowNs : Nat) (left right : RequestState) : Prop :=
  compareRequests policy nowNs left right ≠ .gt

theorem precedes_iff {policy : SchedulerPolicy} {nowNs : Nat} {left right : RequestState} :
    Precedes policy nowNs left right ↔
      serviceKey policy nowNs left ≤ serviceKey policy nowNs right := by
  rw [Precedes, compareRequests_eq, Ne, compare_gt_iff_gt, not_lt]

instance (policy : SchedulerPolicy) (nowNs : Nat) : Std.Total (Precedes policy nowNs) where
  total left right := by
    rw [precedes_iff, precedes_iff]
    exact le_total _ _

instance (policy : SchedulerPolicy) (nowNs : Nat) :
    IsTrans RequestState (Precedes policy nowNs) where
  trans left middle right := by
    rw [precedes_iff, precedes_iff, precedes_iff]
    exact le_trans

/-- A request that is not urgent goes before another only at no larger virtual runtime. -/
theorem runtime_le_of_serviceKey_le {policy : SchedulerPolicy} {nowNs : Nat}
    {left right : RequestState} (hleft : ¬ urgent policy nowNs left)
    (h : serviceKey policy nowNs left ≤ serviceKey policy nowNs right) :
    left.virtualRuntime ≤ right.virtualRuntime := by
  rw [serviceKey, if_neg hleft, serviceKey] at h
  split_ifs at h with hright
  · have hne : ¬ (true < false) := by decide
    simp [Prod.Lex.toLex_le_toLex, hne] at h
  · simp only [Prod.Lex.toLex_le_toLex, lt_self_iff_false, true_and, false_or] at h
    omega

instance (policy : SchedulerPolicy) (nowNs : Nat) : DecidableRel (Precedes policy nowNs) :=
  fun left right => inferInstanceAs (Decidable (compareRequests policy nowNs left right ≠ .gt))

/-- The queued requests in service order. -/
def serviceOrder (s : ContinuousScheduler) (nowNs : Nat) : List RequestState :=
  (s.requests.values.filter fun state => state.status = .queued).insertionSort
    (Precedes s.policy nowNs)

theorem selectBatchIds_eq (s : ContinuousScheduler) (nowNs limit : Nat) :
    selectBatchIds s nowNs limit =
      ((serviceOrder s nowNs).take limit).map fun state => state.spec.id := rfl

theorem pairwise_serviceOrder (s : ContinuousScheduler) (nowNs : Nat) :
    (serviceOrder s nowNs).Pairwise fun left right =>
      serviceKey s.policy nowNs left ≤ serviceKey s.policy nowNs right := by
  have hsorted := List.pairwise_insertionSort (Precedes s.policy nowNs)
    (s.requests.values.filter fun state => state.status = .queued)
  exact hsorted.imp precedes_iff.mp

/-- A selected request precedes every queued request that was not selected. -/
theorem serviceKey_le_of_selected {s : ContinuousScheduler} {nowNs limit : Nat}
    {left right : RequestState} (hleft : left ∈ (serviceOrder s nowNs).take limit)
    (hright : right ∈ s.requests.values) (hqueued : right.status = .queued)
    (hnot : right ∉ (serviceOrder s nowNs).take limit) :
    serviceKey s.policy nowNs left ≤ serviceKey s.policy nowNs right := by
  have hmem : right ∈ serviceOrder s nowNs := by
    rw [serviceOrder, List.mem_insertionSort, List.mem_filter]
    exact ⟨hright, by simpa using hqueued⟩
  have hdrop : right ∈ (serviceOrder s nowNs).drop limit := by
    rw [← List.take_append_drop limit (serviceOrder s nowNs), List.mem_append] at hmem
    exact hmem.resolve_left hnot
  have hpairs := pairwise_serviceOrder s nowNs
  rw [← List.take_append_drop limit (serviceOrder s nowNs), List.pairwise_append] at hpairs
  exact hpairs.2.2 left hleft right hdrop

end Leone.Scheduler
