import Leone.Metrics.Record

/-!
# Histories and peaks

A push onto a history that has room in its counters never overflows them. A peak is kept by comparing
it with each new sample.
-/

namespace Leone.Metrics

open Framework Framework.Method

/-! ## Histories -/

section Retains

variable {α : Type} {limit : Nat} {all : List α} {history : BoundedHistory α}

theorem Retains.length (h : Retains limit all history) :
    history.values.length = min limit all.length := by
  rw [h.values, List.length_drop]
  omega

/-- Every value is retained or dropped. -/
theorem Retains.conserved (h : Retains limit all history) :
    history.totalCount = history.values.length + history.droppedCount ∧
      history.values.length ≤ limit := by
  rw [h.total, h.length, h.dropped]
  omega

theorem retains_new {allocates : Nat → Bool} (h : BoundedHistory.new allocates limit = .ok history) :
    Retains limit [] history := by
  unfold BoundedHistory.new at h
  split_ifs at h with hzero
  cases h
  exact ⟨rfl, Nat.pos_of_ne_zero hzero, List.drop_nil.symm, rfl, (Nat.zero_sub limit).symm,
    Nat.two_pow_pos 64⟩

/-- A push is refused where the count of values would overflow. -/
theorem Retains.canPush (h : Retains limit all history) :
    history.canPush = if all.length + 1 < 2 ^ 64 then .ok () else .error .counterOverflow := by
  have hbound := h.bound
  unfold BoundedHistory.canPush
  rw [h.total, h.dropped]
  by_cases hroom : all.length + 1 < 2 ^ 64
  · have hdropped : all.length - limit + 1 < 2 ^ 64 := by omega
    simp only [checkedAdd, if_pos hroom, if_pos hdropped, ite_self]
  · simp only [checkedAdd, if_neg hroom]

theorem drop_append_singleton (all : List α) (value : α) {count : Nat} (h : count ≤ all.length) :
    (all ++ [value]).drop count = all.drop count ++ [value] :=
  List.drop_append_of_le_length h

theorem Retains.pushValidated (h : Retains limit all history) (hroom : all.length + 1 < 2 ^ 64)
    (value : α) : (BoundedHistory.pushValidated value).Ends history
      (fun _ history' => Retains limit (all ++ [value]) history') (fun _ _ => False) := by
  have hlength := h.length
  have hpositive := h.positive
  by_cases hfull : limit ≤ all.length
  · have hevict : history.values.length = history.capacity := by
      rw [hlength, h.capacity]
      omega
    have hdropped : checkedAdd 64 history.droppedCount 1 = some (all.length - limit + 1) := by
      rw [checkedAdd_eq_some, h.dropped]
      omega
    have htotal : checkedAdd 64 history.totalCount 1 = some (all.length + 1) := by
      rw [checkedAdd_eq_some, h.total]
      omega
    simp only [BoundedHistory.pushValidated, hevict, decide_true, if_true, ends_bind, ends_get,
      ends_modify, Bool.toNat_true, hdropped, htotal, ends_orPanic, ends_pure]
    refine ⟨?_, by simp⟩
    intro dropped hsome
    cases hsome
    refine ⟨?_, by simp⟩
    intro total hsome
    cases hsome
    refine ⟨h.capacity, hpositive, ?_, ?_, ?_, ?_⟩
    · rw [h.values, List.tail_drop, List.length_append, List.length_singleton,
        show all.length + 1 - limit = all.length - limit + 1 by omega,
        drop_append_singleton all value (by omega)]
    · rw [List.length_append, List.length_singleton]
    · rw [List.length_append, List.length_singleton]
      show all.length - limit + 1 = all.length + 1 - limit
      omega
    · rw [List.length_append, List.length_singleton]
      exact hroom
  · have hkeep : ¬ history.values.length = history.capacity := by
      rw [hlength, h.capacity]
      omega
    have hdropped : checkedAdd 64 history.droppedCount 0 = some 0 := by
      rw [checkedAdd_eq_some, h.dropped]
      omega
    have htotal : checkedAdd 64 history.totalCount 1 = some (all.length + 1) := by
      rw [checkedAdd_eq_some, h.total]
      omega
    simp only [BoundedHistory.pushValidated, hkeep, decide_false, Bool.false_eq_true, if_false,
      ends_bind, ends_get, ends_modify, Bool.toNat_false, hdropped, htotal, ends_orPanic, ends_pure]
    refine ⟨?_, by simp⟩
    intro dropped hsome
    cases hsome
    refine ⟨?_, by simp⟩
    intro total hsome
    cases hsome
    refine ⟨h.capacity, hpositive, ?_, ?_, ?_, ?_⟩
    · rw [h.values, List.length_append, List.length_singleton,
        show all.length + 1 - limit = all.length - limit by omega,
        drop_append_singleton all value (by omega)]
    · rw [List.length_append, List.length_singleton]
    · rw [List.length_append, List.length_singleton]
      show 0 = all.length + 1 - limit
      omega
    · rw [List.length_append, List.length_singleton]
      exact hroom

end Retains

/-! ## Peaks -/

section Peak

variable {α κ : Type} [LinearOrder κ] {key : α → κ} {entries : List α} {peak : α}

/-- The first of the largest entries so far gives way to a larger one. -/
theorem Peak.append (h : Peak key entries peak) (entry : α) :
    Peak key (entries ++ [entry]) (if key peak < key entry then entry else peak) := by
  split_ifs with hlt
  · refine ⟨List.mem_append_right entries List.mem_cons_self, ?_⟩
    intro other hother
    rcases List.mem_append.mp hother with hother | hother
    · exact (h.2 other hother).trans hlt.le
    · rw [List.mem_singleton.mp hother]
  · refine ⟨List.mem_append_left _ h.1, ?_⟩
    intro other hother
    rcases List.mem_append.mp hother with hother | hother
    · exact h.2 other hother
    · rw [List.mem_singleton.mp hother]
      exact not_lt.mp hlt

end Peak

theorem peakProcessMemory_eq (current candidate : ProcessMemorySample) :
    peakProcessMemory current candidate =
      if processKey current < processKey candidate then candidate else current := by
  unfold peakProcessMemory processKey measured
  cases hcurrent : current.residentBytes.value with
  | some bytes =>
    cases hcandidate : candidate.residentBytes.value with
    | some bytes' => simp [optionLt, Prod.Lex.toLex_lt_toLex]
    | none => simp [optionLt, Prod.Lex.toLex_lt_toLex]
  | none =>
    cases hcandidate : candidate.residentBytes.value with
    | some bytes' => simp [optionLt, Prod.Lex.toLex_lt_toLex]
    | none =>
      cases current.virtualBytes.value with
      | some bytes =>
        cases candidate.virtualBytes.value with
        | some bytes' => simp [optionLt, Prod.Lex.toLex_lt_toLex]
        | none => simp [optionLt, Prod.Lex.toLex_lt_toLex]
      | none =>
        cases candidate.virtualBytes.value with
        | some bytes' => simp [optionLt, Prod.Lex.toLex_lt_toLex]
        | none => simp [optionLt]

theorem peakSystemMemory_eq (current candidate : SystemMemorySample) :
    peakSystemMemory current candidate =
      if systemKey current < systemKey candidate then candidate else current := by
  unfold peakSystemMemory systemKey measured scarcity
  cases hcurrent : current.usedBytes.value with
  | some bytes =>
    cases hcandidate : candidate.usedBytes.value with
    | some bytes' => simp [optionLt, Prod.Lex.toLex_lt_toLex]
    | none => simp [optionLt, Prod.Lex.toLex_lt_toLex]
  | none =>
    cases hcandidate : candidate.usedBytes.value with
    | some bytes' => simp [optionLt, Prod.Lex.toLex_lt_toLex]
    | none =>
      cases current.availableBytes.value with
      | some bytes =>
        cases candidate.availableBytes.value with
        | some bytes' => simp [Prod.Lex.toLex_lt_toLex]
        | none => simp [Prod.Lex.toLex_lt_toLex]
      | none =>
        cases candidate.availableBytes.value with
        | some bytes' => simp [Prod.Lex.toLex_lt_toLex]
        | none => simp

theorem max?_append_singleton (values : List Nat) (value : Nat) :
    (values ++ [value]).max? = some (max (values.max?.getD 0) value) := by
  cases values with
  | nil => simp
  | cons first values =>
    rw [List.cons_append, List.max?_cons', List.max?_cons', List.foldl_append]
    rfl

/-- The peaks of classes whose names differ. -/
theorem get?_raisePeaks (peaks : SortedMap String Nat) (entries : List (String × Nat))
    (hnodup : (entries.map Prod.fst).Nodup) (cls : String) :
    (ServiceMetrics.raisePeaks peaks entries).get? cls =
      match (entries.find? fun entry => entry.1 = cls).map Prod.snd with
      | none => peaks.get? cls
      | some bytes => some (max ((peaks.get? cls).getD 0) bytes) := by
  induction entries generalizing peaks with
  | nil => rfl
  | cons entry entries ih =>
    rw [List.map_cons, List.nodup_cons] at hnodup
    have hrest : ServiceMetrics.raisePeaks peaks (entry :: entries) = ServiceMetrics.raisePeaks
        (peaks.insert entry.1 (max ((peaks.get? entry.1).getD 0) entry.2)) entries := rfl
    rw [hrest, ih _ hnodup.2, List.find?_cons]
    by_cases hcls : entry.1 = cls
    · have hout : entries.find? (fun entry => entry.1 = cls) = none := by
        rw [List.find?_eq_none]
        intro other hother heq
        apply hnodup.1
        rw [hcls, ← of_decide_eq_true heq]
        exact List.mem_map_of_mem hother
      simp [hcls, hout]
    · simp [hcls, SortedMap.get?_insert_of_ne (Ne.symm hcls)]

theorem classPeak_append (samples : List PhysicalBytesSample) (sample : PhysicalBytesSample)
    {peaks : SortedMap String Nat} (hpeaks : ∀ cls, peaks.get? cls = classPeak samples cls)
    (cls : String) : (ServiceMetrics.raisePeaks peaks sample.bytesByClass.entries).get? cls =
      classPeak (samples ++ [sample]) cls := by
  rw [get?_raisePeaks _ _ sample.bytesByClass.nodup_keys, hpeaks, classPeak, classPeak,
    List.filterMap_append]
  change (match sample.bytesByClass.get? cls with | none => _ | some bytes => _) = _
  cases hbytes : sample.bytesByClass.get? cls with
  | none => simp [hbytes]
  | some bytes =>
    have hlast : [sample].filterMap (fun sample => sample.bytesByClass.get? cls) = [bytes] := by
      simp [hbytes]
    rw [hlast]
    exact (max?_append_singleton _ _).symm

end Leone.Metrics
