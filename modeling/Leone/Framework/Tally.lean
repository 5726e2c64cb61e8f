import Mathlib

/-!
# Tallies

What a total changes by when one of the things it counts changes.
-/

namespace Framework

variable {α ι : Type*}

/-- A list with one item taken out. -/
theorem coe_eq_cons_eraseIdx {l : List α} {i : Nat} {x : α} (h : l[i]? = some x) :
    (l : Multiset α) = x ::ₘ (l.eraseIdx i : Multiset α) := by
  obtain ⟨hi, rfl⟩ := List.getElem?_eq_some_iff.mp h
  exact Multiset.coe_eq_coe.mpr (List.getElem_cons_eraseIdx_perm hi).symm

/-- A list with one item replaced. -/
theorem coe_set {l : List α} {i : Nat} {x : α} (h : l[i]? = some x) (y : α) :
    (l.set i y : Multiset α) = y ::ₘ (l.eraseIdx i : Multiset α) := by
  obtain ⟨hi, rfl⟩ := List.getElem?_eq_some_iff.mp h
  exact Multiset.coe_eq_coe.mpr (List.set_perm_cons_eraseIdx hi y)

theorem sum_map_eraseIdx {l : List α} {i : Nat} {x : α} (h : l[i]? = some x) (f : α → Nat) :
    (l.map f).sum = f x + ((l.eraseIdx i).map f).sum := by
  have hsum := congrArg (fun m => (m.map f).sum) (coe_eq_cons_eraseIdx h)
  simpa using hsum

/-- Replacing one item changes the total by the difference. -/
theorem sum_map_set {l : List α} {i : Nat} {x : α} (h : l[i]? = some x) (y : α) (f : α → Nat) :
    ((l.set i y).map f).sum + f x = (l.map f).sum + f y := by
  have hset : ((l.set i y).map f).sum = f y + ((l.eraseIdx i).map f).sum := by
    have hsum := congrArg (fun m => (m.map f).sum) (coe_set h y)
    simpa using hsum
  have hsum := sum_map_eraseIdx h f
  omega

/-- One item is at most the total. -/
theorem le_sum_map {l : List α} {i : Nat} {x : α} (h : l[i]? = some x) (f : α → Nat) :
    f x ≤ (l.map f).sum := by
  have hsum := sum_map_eraseIdx h f
  omega

/-- Updating one entry of a table changes the total by the difference. -/
theorem sum_update [Fintype ι] [DecidableEq ι] (f : ι → α) (i : ι) (x : α) (g : α → Nat) :
    ∑ j, g (Function.update f i x j) + g (f i) = ∑ j, g (f j) + g x := by
  have hupdate : ∀ j, g (Function.update f i x j) = Function.update (g ∘ f) i (g x) j := by
    intro j
    by_cases h : j = i
    · subst h
      simp
    · simp [h]
  have hsplit := Finset.add_sum_erase Finset.univ (g ∘ f) (Finset.mem_univ i)
  rw [Finset.sum_congr rfl fun j _ => hupdate j, Finset.sum_update_of_mem (Finset.mem_univ i),
    ← Finset.erase_eq]
  simp only [Function.comp_apply] at hsplit ⊢
  omega

theorem le_sum_table [Fintype ι] [DecidableEq ι] (f : ι → Nat) (i : ι) : f i ≤ ∑ j, f j := by
  have hsplit := Finset.add_sum_erase Finset.univ f (Finset.mem_univ i)
  omega

theorem add_le_sum_table [Fintype ι] [DecidableEq ι] (f : ι → Nat) {i j : ι} (h : i ≠ j) :
    f i + f j ≤ ∑ k, f k := by
  have hsplit := Finset.add_sum_erase Finset.univ f (Finset.mem_univ i)
  have hrest := Finset.add_sum_erase (Finset.univ.erase i) f
    (Finset.mem_erase.mpr ⟨h.symm, Finset.mem_univ j⟩)
  omega

/-! ## The items of a list with one key -/

section Share

variable {κ : Type*} [DecidableEq κ] {key : α → κ} {l : List α} {i : Nat} {x y : α} {k : κ}

/-- The items whose key is `k`. -/
def share (key : α → κ) (l : List α) (k : κ) : Multiset α :=
  (l : Multiset α).filter fun x => key x = k

theorem filter_key_cons (m : Multiset α) :
    (x ::ₘ m).filter (fun y => key y = k) =
      if key x = k then x ::ₘ m.filter (fun y => key y = k) else m.filter fun y => key y = k := by
  rw [Multiset.filter_cons]
  split_ifs <;> simp

theorem share_append (l : List α) (x : α) :
    share key (l ++ [x]) (key x) = x ::ₘ share key l (key x) := by
  have hcons : ((l ++ [x] : List α) : Multiset α) = x ::ₘ (l : Multiset α) :=
    Multiset.coe_eq_coe.mpr List.perm_append_comm
  rw [share, hcons, filter_key_cons, if_pos rfl]
  rfl

theorem share_append_of_ne (l : List α) (h : k ≠ key x) :
    share key (l ++ [x]) k = share key l k := by
  have hcons : ((l ++ [x] : List α) : Multiset α) = x ::ₘ (l : Multiset α) :=
    Multiset.coe_eq_coe.mpr List.perm_append_comm
  rw [share, hcons, filter_key_cons, if_neg (Ne.symm h)]
  rfl

theorem share_eraseIdx (h : l[i]? = some x) :
    share key l (key x) = x ::ₘ share key (l.eraseIdx i) (key x) := by
  rw [share, coe_eq_cons_eraseIdx h, filter_key_cons, if_pos rfl]
  rfl

theorem share_eraseIdx_of_ne (h : l[i]? = some x) (hne : k ≠ key x) :
    share key (l.eraseIdx i) k = share key l k := by
  conv_rhs => rw [share, coe_eq_cons_eraseIdx h, filter_key_cons, if_neg (Ne.symm hne)]
  rfl

theorem share_set (h : l[i]? = some x) (hkey : key y = key x) :
    share key (l.set i y) (key x) = y ::ₘ share key (l.eraseIdx i) (key x) := by
  rw [share, coe_set h, filter_key_cons, if_pos hkey]
  rfl

theorem share_set_of_ne (h : l[i]? = some x) (hkey : key y = key x) (hne : k ≠ key x) :
    share key (l.set i y) k = share key l k := by
  rw [← share_eraseIdx_of_ne h hne, share, coe_set h, filter_key_cons,
    if_neg (by rw [hkey]; exact Ne.symm hne)]
  rfl

end Share

end Framework
