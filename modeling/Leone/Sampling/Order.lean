import Leone.Sampling.Truncation

/-!
# The candidate order

`ranking` lists the finite logits of a row, the highest first. Of two equal logits the lower token
comes first, except that a negative zero comes after every other zero.
-/

namespace Leone.Sampling

open Framework

variable {K : Type} [Field K] [LinearOrder K] {logits : List (Logit K)} {left right : Nat}

/-- `left` is `right` or is ranked before it. -/
def Precedes (logits : List (Logit K)) (left right : Nat) : Prop :=
  valueOf logits right < valueOf logits left ∨
    valueOf logits right = valueOf logits left ∧
      (logitOf logits left ≠ .negativeZero ∧ logitOf logits right = .negativeZero ∨
        (logitOf logits left = .negativeZero ↔ logitOf logits right = .negativeZero) ∧
          left ≤ right)

theorem compareCandidates_ne_gt :
    compareCandidates logits left right ≠ .gt ↔ Precedes logits left right := by
  unfold compareCandidates Logit.totalCmp Precedes valueOf
  rcases lt_trichotomy (logitOf logits right).toF64 (logitOf logits left).toF64 with
    hlt | heq | hgt
  · simp [compare_lt_iff_lt.mpr hlt, hlt]
  · have hindex : compare left right ≠ .gt ↔ left ≤ right := Nat.compare_ne_gt
    have hdown : compare true false = .gt := rfl
    have hup : compare false true = .lt := rfl
    rw [compare_eq_iff_eq.mpr heq]
    simp only [heq, lt_irrefl, false_or, true_and]
    by_cases hleft : logitOf logits left = .negativeZero <;>
      by_cases hright : logitOf logits right = .negativeZero <;>
      simp [hleft, hright, hindex, hdown, hup]
  · simp [compare_gt_iff_gt.mpr hgt, hgt.ne', hgt.le]

theorem Precedes.total (logits : List (Logit K)) (left right : Nat) :
    Precedes logits left right ∨ Precedes logits right left := by
  unfold Precedes
  rcases lt_trichotomy (valueOf logits right) (valueOf logits left) with hlt | heq | hgt
  · exact .inl (.inl hlt)
  · rcases Nat.le_total left right with hle | hle
    · tauto
    · tauto
  · exact .inr (.inl hgt)

theorem Precedes.trans {middle : Nat} (h : Precedes logits left middle)
    (h' : Precedes logits middle right) : Precedes logits left right := by
  rcases h with hlt | ⟨heq, hsign⟩
  · left
    rcases h' with hlt' | ⟨heq', -⟩
    · exact hlt'.trans hlt
    · rwa [heq']
  · rcases h' with hlt' | ⟨heq', hsign'⟩
    · left
      rwa [← heq]
    · right
      refine ⟨heq'.trans heq, ?_⟩
      rcases hsign with ⟨hleft, hmiddle⟩ | ⟨hiff, hle⟩ <;>
        rcases hsign' with ⟨hmiddle', hright⟩ | ⟨hiff', hle'⟩
      · exact absurd hmiddle hmiddle'
      · exact .inl ⟨hleft, hiff'.mp hmiddle⟩
      · exact .inl ⟨fun h => hmiddle' (hiff.mp h), hright⟩
      · exact .inr ⟨hiff.trans hiff', hle.trans hle'⟩

theorem mem_ranking {index : Nat} :
    index ∈ ranking logits ↔ (logitOf logits index).isFinite = true := by
  rw [ranking, List.mem_insertionSort, List.mem_filter, List.mem_range]
  constructor
  · intro h
    exact h.2
  · intro h
    refine ⟨?_, h⟩
    by_contra hge
    simp [logitOf, not_lt.mp hge, Logit.isFinite] at h

theorem lt_length_of_mem {index : Nat} (h : index ∈ ranking logits) : index < logits.length := by
  rw [ranking, List.mem_insertionSort, List.mem_filter, List.mem_range] at h
  exact h.1

theorem nodup_ranking (logits : List (Logit K)) : (ranking logits).Nodup := by
  rw [ranking, (List.perm_insertionSort _ _).nodup_iff]
  exact List.nodup_range.filter _

theorem pairwise_ranking (logits : List (Logit K)) :
    (ranking logits).Pairwise (Precedes logits) := by
  have htotal : Std.Total fun left right => compareCandidates logits left right ≠ .gt :=
    ⟨fun left right => by simpa only [compareCandidates_ne_gt] using Precedes.total ..⟩
  have htrans : IsTrans Nat fun left right => compareCandidates logits left right ≠ .gt :=
    ⟨fun left middle right => by simpa only [compareCandidates_ne_gt] using Precedes.trans⟩
  have hsorted := List.pairwise_insertionSort
    (fun left right => compareCandidates logits left right ≠ .gt)
    ((List.range logits.length).filter fun index => (logitOf logits index).isFinite)
  exact hsorted.imp compareCandidates_ne_gt.mp

/-- A row with a finite logit ranks a token. -/
theorem ranking_ne_nil (h : ∃ logit ∈ logits, logit.isFinite = true) : ranking logits ≠ [] := by
  obtain ⟨logit, hlogit, hfinite⟩ := h
  obtain ⟨index, hindex, rfl⟩ := List.getElem_of_mem hlogit
  apply List.ne_nil_of_mem (a := index)
  rw [mem_ranking]
  simpa [logitOf, hindex] using hfinite

end Leone.Sampling
