import Mathlib

/-!
# Sub-slices of a buffer

A loop that fills the consecutive slices of a region leaves their concatenation there.
-/

namespace Framework

variable {α : Type*}

def slice (buffer : List α) (start stop : ℕ) : List α := (buffer.drop start).take (stop - start)

/-- Runs a function on the part of a buffer between two indices. -/
def modifySlice (buffer : List α) (start stop : ℕ) (f : List α → List α) : List α :=
  buffer.take start ++ (f (slice buffer start stop) ++ buffer.drop stop)

/-- Overwrites the buffer from an index on. -/
def copyFromSlice (buffer : List α) (start : ℕ) (source : List α) : List α :=
  modifySlice buffer start (start + source.length) fun _ => source

theorem length_slice (buffer : List α) {start stop : ℕ} (h : stop ≤ buffer.length) :
    (slice buffer start stop).length = stop - start := by
  rw [slice, List.length_take, List.length_drop]
  omega

theorem slice_append {before region after : List α} {start stop : ℕ}
    (hstart : before.length = start) (hstop : start + region.length = stop) :
    slice (before ++ (region ++ after)) start stop = region := by
  have hlen : stop - start = region.length := by omega
  rw [slice, ← hstart, List.drop_left, hstart, hlen, List.take_left]

theorem modifySlice_append {before region after : List α} {start stop : ℕ} {f : List α → List α}
    (hstart : before.length = start) (hstop : start + region.length = stop) :
    modifySlice (before ++ (region ++ after)) start stop f = before ++ (f region ++ after) := by
  have hdrop : (before ++ (region ++ after)).drop stop = after := by
    rw [← List.append_assoc, ← hstop, ← hstart, ← List.length_append, List.drop_left]
  rw [modifySlice, slice_append hstart hstop, hdrop, ← hstart, List.take_left]

theorem copyFromSlice_append {before region after source : List α} {start : ℕ}
    (hstart : before.length = start) (hlen : region.length = source.length) :
    copyFromSlice (before ++ (region ++ after)) start source = before ++ (source ++ after) :=
  modifySlice_append hstart (by rw [hlen])

theorem length_copyFromSlice {buffer source : List α} {start : ℕ}
    (h : start + source.length ≤ buffer.length) :
    (copyFromSlice buffer start source).length = buffer.length := by
  simp only [copyFromSlice, modifySlice, List.length_append, List.length_take, List.length_drop]
  omega

/-- A copied slice shows its source, and the rest of the buffer is as it was. -/
theorem getElem?_copyFromSlice {buffer source : List α} {start : ℕ}
    (h : start + source.length ≤ buffer.length) (i : ℕ) :
    (copyFromSlice buffer start source)[i]? =
      if start ≤ i ∧ i < start + source.length then source[i - start]? else buffer[i]? := by
  rw [copyFromSlice, modifySlice]
  by_cases hlow : i < start
  · rw [List.getElem?_append_left (by rw [List.length_take]; omega), List.getElem?_take_of_lt hlow,
      if_neg (by omega)]
  · rw [List.getElem?_append_right (by rw [List.length_take]; omega), List.length_take,
      Nat.min_eq_left (by omega)]
    by_cases hhigh : i < start + source.length
    · rw [List.getElem?_append_left (by omega), if_pos (by omega)]
    · rw [List.getElem?_append_right (by omega), List.getElem?_drop, if_neg (by omega)]
      congr 1
      omega

/-- A buffer is its first slices and the rest. -/
theorem split_at (buffer : List α) {n m : ℕ} (h : buffer.length = n + m) :
    ∃ first second, buffer = first ++ second ∧ first.length = n ∧ second.length = m := by
  refine ⟨buffer.take n, buffer.drop n, (List.take_append_drop n buffer).symm, ?_, ?_⟩
  · rw [List.length_take]
    omega
  · rw [List.length_drop]
    omega

theorem length_flatMap_range {f : ℕ → List α} {n stride : ℕ}
    (hf : ∀ k < n, (f k).length = stride) : ((List.range n).flatMap f).length = n * stride := by
  induction n with
  | zero => simp
  | succ n ih =>
    rw [List.range_succ, List.flatMap_append, List.length_append,
      ih (fun k hk => hf k (Nat.lt_succ_of_lt hk)), List.flatMap_singleton, hf n (Nat.lt_succ_self n),
      Nat.succ_mul]

theorem getD_slice (buffer : List α) {start stop i : ℕ} (hi : i < stop - start) (default : α) :
    (slice buffer start stop).getD i default = buffer.getD (start + i) default := by
  simp only [slice, List.getD_eq_getElem?_getD, List.getElem?_take_of_lt hi, List.getElem?_drop]

theorem slice_flatMap_range {f : ℕ → List α} {n stride k : ℕ}
    (hf : ∀ j < n, (f j).length = stride) (hk : k < n) :
    slice ((List.range n).flatMap f) (k * stride) ((k + 1) * stride) = f k := by
  obtain ⟨m, rfl⟩ : ∃ m, n = k + (1 + m) := ⟨n - k - 1, by omega⟩
  have hfront := length_flatMap_range fun j hj => hf j (Nat.lt_trans hj hk)
  rw [List.range_add, List.flatMap_append, List.range_add, List.map_append, List.flatMap_append]
  have hsingle : (List.map (k + ·) (List.range 1)).flatMap f = f k := by simp
  rw [hsingle]
  apply slice_append hfront
  rw [hf k hk, Nat.succ_mul]

/-- A loop that fills the slices of one region. -/
theorem foldl_fill {step : List α → ℕ → List α} {f : ℕ → List α} {n : ℕ} (stride : ℕ)
    (hf : ∀ k < n, (f k).length = stride)
    (hstep : ∀ k < n, ∀ before region after : List α, before.length = k * stride →
      region.length = stride → step (before ++ (region ++ after)) k = before ++ (f k ++ after))
    {region : List α} (after : List α) (hregion : region.length = n * stride) :
    (List.range n).foldl step (region ++ after) = (List.range n).flatMap f ++ after := by
  induction n generalizing region after with
  | zero =>
    obtain rfl : region = [] := List.eq_nil_of_length_eq_zero (by rw [hregion, Nat.zero_mul])
    rfl
  | succ n ih =>
    have hn := Nat.lt_succ_self n
    have hlow : ∀ k < n, (f k).length = stride := fun k hk => hf k (Nat.lt_succ_of_lt hk)
    obtain ⟨first, last, rfl, hfirst, hlast⟩ :=
      split_at region (n := n * stride) (m := stride) (by rw [hregion, Nat.succ_mul])
    rw [List.range_succ, List.foldl_append, List.append_assoc,
      ih hlow (fun k hk => hstep k (Nat.lt_succ_of_lt hk)) _ hfirst, List.foldl_cons, List.foldl_nil,
      hstep n hn _ last after (length_flatMap_range hlow) hlast, List.flatMap_append,
      List.flatMap_singleton, List.append_assoc]

/-- A loop that fills the slices of two regions side by side. -/
theorem foldl_fill_two {step : List α → ℕ → List α} {f g : ℕ → List α} {n total width depth : ℕ}
    (hn : n ≤ total) (hf : ∀ k < total, (f k).length = width)
    (hg : ∀ k < total, (g k).length = depth)
    (hstep : ∀ k < total, ∀ before region between region' after : List α,
      before.length = k * width → region.length = width →
      (before ++ (region ++ between)).length = total * width + k * depth →
      region'.length = depth →
      step (before ++ (region ++ (between ++ (region' ++ after)))) k =
        before ++ (f k ++ (between ++ (g k ++ after))))
    {region region' : List α} (hregion : region.length = total * width)
    (hregion' : region'.length = total * depth) :
    (List.range n).foldl step (region ++ region') =
      (List.range n).flatMap f ++ (region.drop (n * width) ++
        ((List.range n).flatMap g ++ region'.drop (n * depth))) := by
  induction n with
  | zero => simp
  | succ n ih =>
    have hlt : n < total := hn
    have hfront : ((List.range n).flatMap f).length = n * width :=
      length_flatMap_range fun k hk => hf k (Nat.lt_trans hk hlt)
    have hfront' : ((List.range n).flatMap g).length = n * depth :=
      length_flatMap_range fun k hk => hg k (Nat.lt_trans hk hlt)
    have hroom : (n + 1) * width ≤ total * width := Nat.mul_le_mul_right width hlt
    have hroom' : (n + 1) * depth ≤ total * depth := Nat.mul_le_mul_right depth hlt
    rw [Nat.succ_mul] at hroom hroom'
    obtain ⟨here, between, hrest, hhere, hbetween⟩ := split_at (region.drop (n * width))
      (n := width) (m := total * width - n * width - width) (by rw [List.length_drop]; omega)
    obtain ⟨here', after, hrest', hhere', _⟩ := split_at (region'.drop (n * depth))
      (n := depth) (m := total * depth - n * depth - depth) (by rw [List.length_drop]; omega)
    have hdrop : region.drop ((n + 1) * width) = between := by
      rw [Nat.succ_mul, ← List.drop_drop, hrest, ← hhere, List.drop_left]
    have hdrop' : region'.drop ((n + 1) * depth) = after := by
      rw [Nat.succ_mul, ← List.drop_drop, hrest', ← hhere', List.drop_left]
    have hbefore : ((List.range n).flatMap f ++ (here ++ (between ++
        (List.range n).flatMap g))).length = total * width + n * depth := by
      simp only [List.length_append, hfront, hfront', hhere, hbetween]
      omega
    have hgoal := hstep n hlt _ here (between ++ (List.range n).flatMap g) here' after hfront hhere
      hbefore hhere'
    rw [hdrop, hdrop', List.range_succ, List.foldl_append, ih (Nat.le_of_lt hlt), List.foldl_cons,
      List.foldl_nil, hrest, hrest']
    simp only [List.append_assoc] at hgoal ⊢
    rw [hgoal]
    simp only [List.flatMap_append, List.flatMap_singleton, List.append_assoc]

end Framework
