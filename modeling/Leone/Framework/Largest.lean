import Mathlib

/-!
# The largest entries

A bounded table keeps the entries with the largest keys. Which entries these are does not depend on
the order in which they arrive.
-/

namespace Framework

open scoped List

variable {α κ : Type*} [LinearOrder κ] {key : α → κ} {limit : ℕ} {xs kept : List α}

/-- `kept` are as many of the entries as the limit allows, and none of the others has a larger
key. -/
def Largest (key : α → κ) (limit : ℕ) (xs kept : List α) : Prop :=
  ∃ rest, xs.Perm (kept ++ rest) ∧ kept.length = min limit xs.length ∧
    ∀ a ∈ kept, ∀ b ∈ rest, key b ≤ key a

theorem largest_nil : Largest key limit [] [] :=
  ⟨[], .nil, (Nat.min_zero limit).symm, nofun⟩

theorem Largest.perm {ys : List α} (h : Largest key limit xs kept) (hperm : xs.Perm ys) :
    Largest key limit ys kept := by
  rcases h with ⟨rest, hrest, hlength, hle⟩
  refine ⟨rest, hperm.symm.trans hrest, ?_, hle⟩
  rw [hlength, hperm.length_eq]

theorem Largest.mem {a : α} (h : Largest key limit xs kept) (ha : a ∈ kept) : a ∈ xs := by
  rcases h with ⟨rest, hrest, _, _⟩
  exact hrest.mem_iff.mpr (List.mem_append_left rest ha)

theorem Largest.length (h : Largest key limit xs kept) : kept.length = min limit xs.length := by
  rcases h with ⟨_, _, hlength, _⟩
  exact hlength

/-- Below the limit every entry is kept. -/
theorem Largest.push (h : Largest key limit xs kept) (hroom : kept.length < limit) (x : α) :
    Largest key limit (x :: xs) (kept ++ [x]) := by
  rcases h with ⟨rest, hrest, hlength, _⟩
  have hcount := hrest.length_eq
  rw [List.length_append] at hcount
  have hnil : rest = [] := List.eq_nil_of_length_eq_zero (by omega)
  rw [hnil, List.append_nil] at hrest
  refine ⟨[], ?_, ?_, nofun⟩
  · rw [List.append_nil]
    exact (hrest.cons x).trans (List.perm_append_singleton x kept).symm
  · simp only [List.length_append, List.length_cons, List.length_nil]
    omega

/-- At the limit an entry that is not larger than the smallest one is dropped. -/
theorem Largest.drop (h : Largest key limit xs kept) (hfull : kept.length = limit) {x : α}
    (hx : ∀ a ∈ kept, key x ≤ key a) : Largest key limit (x :: xs) kept := by
  rcases h with ⟨rest, hrest, hlength, hle⟩
  refine ⟨x :: rest, ?_, ?_, ?_⟩
  · exact (hrest.cons x).trans List.perm_middle.symm
  · rw [List.length_cons]
    omega
  · intro a ha b hb
    rcases List.mem_cons.mp hb with rfl | hb
    · exact hx a ha
    · exact hle a ha b hb

/-- At the limit a larger entry takes the place of the smallest one. -/
theorem Largest.replace (h : Largest key limit xs kept) (hfull : kept.length = limit) {x : α}
    {slot : ℕ} (hslot : slot < kept.length) (hleast : ∀ a ∈ kept, key kept[slot] ≤ key a)
    (hx : key kept[slot] < key x) : Largest key limit (x :: xs) (kept.set slot x) := by
  rcases h with ⟨rest, hrest, hlength, hle⟩
  have herase := List.getElem_cons_eraseIdx_perm hslot
  have hset := List.set_perm_cons_eraseIdx hslot x
  refine ⟨kept[slot] :: rest, ?_, ?_, ?_⟩
  · calc x :: xs
      _ ~ x :: (kept ++ rest) := hrest.cons x
      _ ~ x :: (kept[slot] :: kept.eraseIdx slot ++ rest) := (herase.symm.append_right rest).cons x
      _ ~ (x :: kept.eraseIdx slot) ++ kept[slot] :: rest := (List.perm_middle.symm).cons x
      _ ~ kept.set slot x ++ kept[slot] :: rest := hset.symm.append_right _
  · rw [List.length_set, List.length_cons]
    omega
  · intro a ha b hb
    have hbound : key b ≤ key kept[slot] := by
      rcases List.mem_cons.mp hb with rfl | hb
      · exact le_refl _
      · exact hle _ (List.getElem_mem hslot) b hb
    rcases List.mem_or_eq_of_mem_set ha with ha | rfl
    · exact hbound.trans (hleast a ha)
    · exact hbound.trans hx.le

/-- Where keys differ, the largest entries are one set. -/
theorem Largest.unique {kept' : List α} (h : Largest key limit xs kept)
    (h' : Largest key limit xs kept') (hnodup : (xs.map key).Nodup) : kept'.Perm kept := by
  have hinj := List.inj_on_of_nodup_map hnodup
  have hxs := hnodup.of_map key
  rcases h with ⟨rest, hrest, hlength, hle⟩
  rcases h' with ⟨rest', hrest', hlength', hle'⟩
  have hkept : kept.Nodup := (hrest.nodup_iff.mp hxs).of_append_left
  have hkept' : kept'.Nodup := (hrest'.nodup_iff.mp hxs).of_append_left
  have hmem : ∀ a, a ∈ kept ∨ a ∈ rest ↔ a ∈ xs := by
    intro a
    rw [← List.mem_append, hrest.mem_iff]
  have hmem' : ∀ a, a ∈ kept' ∨ a ∈ rest' ↔ a ∈ xs := by
    intro a
    rw [← List.mem_append, hrest'.mem_iff]
  have hsubset : kept ⊆ kept' := by
    intro a ha
    by_contra hout
    have harest := ((hmem' a).mpr ((hmem a).mp (.inl ha))).resolve_left hout
    have hnot : ¬ kept' ⊆ kept := by
      intro hsub
      have hperm := (List.subperm_of_subset hkept' hsub).perm_of_length_le (by omega)
      exact hout (hperm.mem_iff.mpr ha)
    have hother : ∃ b ∈ kept', b ∉ kept := by
      by_contra hall
      push Not at hall
      exact hnot hall
    rcases hother with ⟨b, hb, hbout⟩
    have hbrest := ((hmem b).mpr ((hmem' b).mp (.inl hb))).resolve_left hbout
    have hkeys : key a = key b := le_antisymm (hle' b hb a harest) (hle a ha b hbrest)
    have heq := hinj ((hmem a).mp (.inl ha)) ((hmem' b).mp (.inl hb)) hkeys
    rw [heq] at ha
    exact hbout ha
  exact ((List.subperm_of_subset hkept hsubset).perm_of_length_le (by omega)).symm

end Framework
