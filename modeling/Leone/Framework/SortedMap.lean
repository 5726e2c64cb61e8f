import Mathlib

/-!
# Sorted finite maps

An ordered map is the list of its entries, in strictly increasing key order. The order is a
field of the structure, so two maps with the same lookups are equal and every traversal is in
key order. Totals over the stored values follow each update.
-/

namespace Framework

/-- An ordered finite map: the entry list, with its keys strictly increasing. -/
structure SortedMap (κ α : Type*) [LinearOrder κ] where
  entries : List (κ × α)
  sorted : (entries.map Prod.fst).Pairwise (· < ·)

namespace SortedMap

variable {κ α β : Type*} [LinearOrder κ]

instance [DecidableEq α] : DecidableEq (SortedMap κ α) := fun m n =>
  decidable_of_iff (m.entries = n.entries) <| by
    cases m; cases n; simp

instance : EmptyCollection (SortedMap κ α) := ⟨⟨[], .nil⟩⟩
instance : Inhabited (SortedMap κ α) := ⟨∅⟩

def get? (m : SortedMap κ α) (k : κ) : Option α :=
  (m.entries.find? fun e => e.1 = k).map Prod.snd

def contains (m : SortedMap κ α) (k : κ) : Bool := (m.get? k).isSome

def keys (m : SortedMap κ α) : List κ := m.entries.map Prod.fst
def values (m : SortedMap κ α) : List α := m.entries.map Prod.snd
def isEmpty (m : SortedMap κ α) : Bool := m.entries.isEmpty
def size (m : SortedMap κ α) : Nat := m.entries.length

/-- Place one entry in key order, replacing an entry of the same key. -/
def insertEntry (k : κ) (v : α) : List (κ × α) → List (κ × α)
  | [] => [(k, v)]
  | e :: es =>
    if k < e.1 then (k, v) :: e :: es
    else if k = e.1 then (k, v) :: es
    else e :: insertEntry k v es

theorem mem_insertEntry {k : κ} {v : α} {es : List (κ × α)}
    (hs : (es.map Prod.fst).Pairwise (· < ·)) (e : κ × α) :
    e ∈ insertEntry k v es ↔ e = (k, v) ∨ e ∈ es ∧ e.1 ≠ k := by
  induction es with
  | nil => simp [insertEntry]
  | cons d es ih =>
    simp only [List.map_cons, List.pairwise_cons, List.mem_map] at hs
    have hd : ∀ e ∈ es, d.1 < e.1 := fun e he => hs.1 e.1 ⟨e, he, rfl⟩
    simp only [insertEntry]
    split_ifs with hlt heq
    · have hne : ∀ e ∈ es, e.1 ≠ k := fun e he => (hlt.trans (hd e he)).ne'
      simp only [List.mem_cons]
      grind
    · have hne : ∀ e ∈ es, e.1 ≠ k := fun e he => (heq ▸ hd e he).ne'
      simp only [List.mem_cons]
      grind
    · rw [List.mem_cons, ih hs.2, List.mem_cons]
      grind

theorem sorted_insertEntry {k : κ} {v : α} {es : List (κ × α)}
    (hs : (es.map Prod.fst).Pairwise (· < ·)) :
    ((insertEntry k v es).map Prod.fst).Pairwise (· < ·) := by
  induction es with
  | nil => simp [insertEntry]
  | cons d es ih =>
    have hd := (List.pairwise_cons.mp hs).1
    have ht := (List.pairwise_cons.mp hs).2
    simp only [insertEntry]
    split_ifs with hlt heq
    · refine List.pairwise_cons.mpr ⟨?_, hs⟩
      intro x hx
      rcases List.mem_cons.mp hx with rfl | hx
      · exact hlt
      · exact hlt.trans (hd x hx)
    · exact List.pairwise_cons.mpr ⟨fun x hx => heq ▸ hd x hx, ht⟩
    · refine List.pairwise_cons.mpr ⟨?_, ih ht⟩
      intro x hx
      obtain ⟨e, he, rfl⟩ := List.mem_map.mp hx
      rcases (mem_insertEntry ht e).mp he with rfl | ⟨he, _⟩
      · exact lt_of_le_of_ne (not_lt.mp hlt) (Ne.symm heq)
      · exact hd e.1 (List.mem_map_of_mem he)

def insert (m : SortedMap κ α) (k : κ) (v : α) : SortedMap κ α :=
  ⟨insertEntry k v m.entries, sorted_insertEntry m.sorted⟩

/-- Keep the entries that satisfy `p`. -/
def retain (m : SortedMap κ α) (p : κ → α → Bool) : SortedMap κ α :=
  ⟨m.entries.filter fun e => p e.1 e.2, m.sorted.sublist (List.filter_sublist.map _)⟩

def remove (m : SortedMap κ α) (k : κ) : SortedMap κ α := m.retain fun k' _ => k' ≠ k

/-- Replace every value by its image. -/
def mapValues (f : α → β) (m : SortedMap κ α) : SortedMap κ β :=
  ⟨m.entries.map fun e => (e.1, f e.2), by simpa [Function.comp_def] using m.sorted⟩

theorem nodup_keys (m : SortedMap κ α) : m.keys.Nodup :=
  m.sorted.imp fun h => h.ne

theorem get?_eq_some_iff {m : SortedMap κ α} {k : κ} {v : α} :
    m.get? k = some v ↔ (k, v) ∈ m.entries := by
  have hinj : ∀ e ∈ m.entries, ∀ d ∈ m.entries, e.1 = d.1 → e = d := fun e he d hd h =>
    List.inj_on_of_nodup_map m.nodup_keys he hd h
  constructor
  · intro h
    obtain ⟨e, he, rfl⟩ := Option.map_eq_some_iff.mp h
    have hk : e.1 = k := by simpa using List.find?_some he
    exact hk ▸ List.mem_of_find?_eq_some he
  · intro h
    rw [get?]
    cases hf : m.entries.find? fun e => e.1 = k with
    | none => simpa using List.find?_eq_none.mp hf _ h
    | some e =>
      have hk : e.1 = k := by simpa using List.find?_some hf
      rw [hinj e (List.mem_of_find?_eq_some hf) _ h hk]
      rfl

theorem get?_eq_none_iff {m : SortedMap κ α} {k : κ} :
    m.get? k = none ↔ ∀ v, (k, v) ∉ m.entries := by
  rw [Option.eq_none_iff_forall_not_mem]
  exact forall_congr' fun v => not_congr get?_eq_some_iff

@[simp] theorem get?_empty (k : κ) : (∅ : SortedMap κ α).get? k = none := rfl
@[simp] theorem values_empty : (∅ : SortedMap κ α).values = [] := rfl
@[simp] theorem entries_empty : (∅ : SortedMap κ α).entries = [] := rfl

@[simp] theorem values_singleton (k : κ) (v : α) :
    ((∅ : SortedMap κ α).insert k v).values = [v] := rfl

theorem get?_insert (m : SortedMap κ α) (k k' : κ) (v : α) :
    (m.insert k v).get? k' = if k' = k then some v else m.get? k' := by
  apply Option.ext
  intro w
  rw [get?_eq_some_iff, insert, mem_insertEntry m.sorted]
  split_ifs with h
  · subst h
    simp [eq_comm]
  · simp [h, get?_eq_some_iff]

@[simp] theorem get?_insert_self (m : SortedMap κ α) (k : κ) (v : α) :
    (m.insert k v).get? k = some v := by simp [get?_insert]

theorem get?_insert_of_ne {m : SortedMap κ α} {k k' : κ} {v : α} (h : k' ≠ k) :
    (m.insert k v).get? k' = m.get? k' := by simp [get?_insert, h]

theorem get?_retain (m : SortedMap κ α) (p : κ → α → Bool) (k : κ) :
    (m.retain p).get? k = (m.get? k).filter (p k) := by
  apply Option.ext
  intro w
  simp [get?_eq_some_iff, retain, Option.filter_eq_some_iff]

theorem get?_remove (m : SortedMap κ α) (k k' : κ) :
    (m.remove k).get? k' = if k' = k then none else m.get? k' := by
  rw [remove, get?_retain]
  split_ifs with h <;> cases m.get? k' <;> simp [h, Option.filter]

theorem get?_mapValues (m : SortedMap κ α) (f : α → β) (k : κ) :
    (m.mapValues f).get? k = (m.get? k).map f := by
  apply Option.ext
  intro w
  simp [get?_eq_some_iff, mapValues, and_comm]

@[simp] theorem get?_remove_self (m : SortedMap κ α) (k : κ) : (m.remove k).get? k = none := by
  simp [get?_remove]

@[ext] theorem ext {m n : SortedMap κ α} (h : ∀ k, m.get? k = n.get? k) : m = n := by
  have hmem : ∀ e, e ∈ m.entries ↔ e ∈ n.entries := by
    rintro ⟨k, v⟩
    rw [← get?_eq_some_iff, ← get?_eq_some_iff, h]
  have hsub : m.entries = n.entries := by
    have hlt (l : SortedMap κ α) : l.entries.Pairwise fun a b => a.1 < b.1 :=
      List.pairwise_map.mp l.sorted
    have hperm : m.entries.Perm n.entries :=
      (List.perm_ext_iff_of_nodup ((hlt m).imp fun h he => (he ▸ h).false)
        ((hlt n).imp fun h he => (he ▸ h).false)).mpr hmem
    exact hperm.eq_of_pairwise (fun a b _ _ hab hba => absurd hab hba.asymm) (hlt m) (hlt n)
  cases m
  cases n
  simpa using hsub

theorem mapValues_insert (m : SortedMap κ α) (f : α → β) (k : κ) (v : α) :
    (m.insert k v).mapValues f = (m.mapValues f).insert k (f v) := by
  ext k' w
  rw [get?_mapValues, get?_insert, get?_insert, get?_mapValues]
  split_ifs <;> rfl

theorem mapValues_remove (m : SortedMap κ α) (f : α → β) (k : κ) :
    (m.remove k).mapValues f = (m.mapValues f).remove k := by
  ext k' w
  rw [get?_mapValues, get?_remove, get?_remove, get?_mapValues]
  split_ifs <;> simp

@[simp] theorem insert_insert (m : SortedMap κ α) (k : κ) (v w : α) :
    (m.insert k v).insert k w = m.insert k w := by
  ext k' x
  simp only [get?_insert]
  split_ifs <;> rfl

theorem insert_self {m : SortedMap κ α} {k : κ} {v : α} (h : m.get? k = some v) :
    m.insert k v = m := by
  ext k' w
  rw [get?_insert]
  split_ifs with hk
  · rw [hk, h]
  · rfl

theorem isEmpty_iff {m : SortedMap κ α} : m.isEmpty ↔ ∀ k, m.get? k = none := by
  rw [isEmpty, List.isEmpty_iff]
  constructor
  · intro h k
    simp [get?, h]
  · intro h
    by_contra hne
    obtain ⟨e, he⟩ := List.exists_mem_of_ne_nil _ hne
    exact absurd (h e.1) (by simp [get?_eq_some_iff.mpr he])

theorem contains_iff {m : SortedMap κ α} {k : κ} : m.contains k ↔ ∃ v, m.get? k = some v := by
  simp [contains, Option.isSome_iff_exists]

theorem mem_keys_iff {m : SortedMap κ α} {k : κ} : k ∈ m.keys ↔ ∃ v, m.get? k = some v := by
  simp [keys, get?_eq_some_iff]

theorem mem_values_iff {m : SortedMap κ α} {v : α} : v ∈ m.values ↔ ∃ k, m.get? k = some v := by
  simp [values, get?_eq_some_iff]

/-! ## Totals over the stored values -/

theorem remove_eq_self {m : SortedMap κ α} {k : κ} (h : m.get? k = none) : m.remove k = m := by
  ext k' w
  rw [get?_remove]
  split_ifs with hk
  · simp [hk, h]
  · rfl

@[simp] theorem remove_insert (m : SortedMap κ α) (k : κ) (v : α) :
    (m.insert k v).remove k = m.remove k := by
  ext k' w
  rw [get?_remove, get?_remove, get?_insert]
  split_ifs <;> rfl

theorem values_perm {m : SortedMap κ α} {k : κ} {v : α} (h : m.get? k = some v) :
    m.values.Perm (v :: (m.remove k).values) := by
  have hnd : m.entries.Nodup := m.nodup_keys.of_map _
  have hp : m.entries.Perm ((k, v) :: (m.remove k).entries) := by
    rw [List.perm_ext_iff_of_nodup hnd]
    · rintro ⟨k', w⟩
      rw [List.mem_cons, ← get?_eq_some_iff, ← get?_eq_some_iff, get?_remove]
      split_ifs with hk
      · subst hk
        simp [h, eq_comm]
      · simp [hk]
    · refine List.nodup_cons.mpr ⟨?_, hnd.filter _⟩
      simp [← get?_eq_some_iff]
  exact hp.map Prod.snd

theorem entries_insert_perm {m : SortedMap κ α} {k : κ} (v : α) (h : m.get? k = none) :
    (m.insert k v).entries.Perm ((k, v) :: m.entries) := by
  have hfresh : (k, v) ∉ m.entries := get?_eq_none_iff.mp h v
  rw [List.perm_ext_iff_of_nodup ((m.insert k v).nodup_keys.of_map _)
    (List.nodup_cons.mpr ⟨hfresh, m.nodup_keys.of_map _⟩)]
  intro entry
  rw [← get?_eq_some_iff, List.mem_cons, ← get?_eq_some_iff, get?_insert]
  obtain ⟨k', w⟩ := entry
  by_cases hk : k' = k
  · subst hk
    simp [h, eq_comm]
  · simp [hk]

theorem values_insert_perm (m : SortedMap κ α) (k : κ) (v : α) :
    (m.insert k v).values.Perm (v :: (m.remove k).values) := by
  simpa using values_perm (m.get?_insert_self k v)

/-- The total of `f` over the stored values. -/
def sumBy (f : α → Nat) (m : SortedMap κ α) : Nat := (m.values.map f).sum

/-- The number of stored values that satisfy `p`. -/
def countBy (p : α → Bool) (m : SortedMap κ α) : Nat := m.values.countP p

@[simp] theorem sumBy_empty (f : α → Nat) : sumBy f (∅ : SortedMap κ α) = 0 := rfl
@[simp] theorem countBy_empty (p : α → Bool) : countBy p (∅ : SortedMap κ α) = 0 := rfl

theorem sumBy_remove_add {m : SortedMap κ α} {k : κ} {v : α} (f : α → Nat)
    (h : m.get? k = some v) : sumBy f m = f v + sumBy f (m.remove k) := by
  simpa [sumBy] using ((values_perm h).map f).sum_eq

theorem sumBy_insert (m : SortedMap κ α) (k : κ) (v : α) (f : α → Nat) :
    sumBy f (m.insert k v) = f v + sumBy f (m.remove k) := by
  simpa [sumBy] using ((values_insert_perm m k v).map f).sum_eq

theorem sumBy_insert_new {m : SortedMap κ α} {k : κ} (v : α) (f : α → Nat)
    (h : m.get? k = none) : sumBy f (m.insert k v) = f v + sumBy f m := by
  rw [sumBy_insert, remove_eq_self h]

/-- Replacing one value moves the total by the difference of the two. -/
theorem sumBy_insert_add {m : SortedMap κ α} {k : κ} {w : α} (v : α) (f : α → Nat)
    (h : m.get? k = some w) : sumBy f (m.insert k v) + f w = sumBy f m + f v := by
  rw [sumBy_insert, sumBy_remove_add f h]
  omega

theorem le_sumBy {m : SortedMap κ α} {k : κ} {v : α} (f : α → Nat) (h : m.get? k = some v) :
    f v ≤ sumBy f m := by
  rw [sumBy_remove_add f h]
  exact Nat.le_add_right _ _

/-- A total splits into the part that is kept and the rest. -/
theorem sumBy_retain_add (m : SortedMap κ α) (p : κ → α → Bool) (f : α → Nat) :
    sumBy f (m.retain p) + sumBy f (m.retain fun k v => !p k v) = sumBy f m := by
  simp only [sumBy, values, retain, List.map_map]
  induction m.entries with
  | nil => rfl
  | cons e es ih =>
    cases hp : p e.1 e.2 with
    | true =>
      simp only [List.filter_cons, hp, Bool.not_true, if_true, Bool.false_eq_true, if_false,
        List.map_cons, List.sum_cons]
      omega
    | false =>
      simp only [List.filter_cons, hp, Bool.not_false, if_true, Bool.false_eq_true, if_false,
        List.map_cons, List.sum_cons]
      omega

/-- Dropping values that count for nothing leaves the total. -/
theorem sumBy_retain (m : SortedMap κ α) (p : κ → α → Bool) (f : α → Nat)
    (h : ∀ k v, m.get? k = some v → ¬ p k v → f v = 0) : sumBy f (m.retain p) = sumBy f m := by
  have hz : ∀ e ∈ m.entries, ¬ p e.1 e.2 → f e.2 = 0 := fun e he =>
    h e.1 e.2 (get?_eq_some_iff.mpr he)
  simp only [sumBy, values, retain, List.map_map]
  generalize m.entries = es at hz
  induction es with
  | nil => rfl
  | cons e es ih =>
    have ih := ih fun d hd => hz d (List.mem_cons_of_mem e hd)
    have he := hz e List.mem_cons_self
    by_cases hp : p e.1 e.2
    · simp_all
    · simp_all

theorem countBy_eq_sumBy (p : α → Bool) (m : SortedMap κ α) :
    countBy p m = sumBy (fun v => (p v).toNat) m := by
  simp only [countBy, sumBy]
  induction m.values with
  | nil => rfl
  | cons v vs ih => cases h : p v <;> simp [h, ih, Nat.add_comm]

theorem countBy_eq_length_keys (p : α → Bool) (m : SortedMap κ α) :
    countBy p m = (m.retain fun _ => p).keys.length := by
  rw [countBy, values, List.countP_map, List.countP_eq_length_filter, keys, List.length_map]
  rfl

theorem mem_keys_retain {m : SortedMap κ α} {p : α → Bool} {k : κ} :
    k ∈ (m.retain fun _ => p).keys ↔ (m.get? k).any p := by
  rw [mem_keys_iff, get?_retain]
  cases m.get? k <;> simp [Option.filter_eq_some_iff]

/-- Two counts agree when the same keys hold a counted value. -/
theorem countBy_congr {m : SortedMap κ α} {n : SortedMap κ β} {p : α → Bool} {q : β → Bool}
    (h : ∀ k, (m.get? k).any p = (n.get? k).any q) : countBy p m = countBy q n := by
  rw [countBy_eq_length_keys, countBy_eq_length_keys]
  refine ((List.perm_ext_iff_of_nodup (nodup_keys _) (nodup_keys _)).mpr fun k => ?_).length_eq
  rw [mem_keys_retain, mem_keys_retain, h]

theorem sumBy_mono {f g : α → Nat} {m : SortedMap κ α}
    (h : ∀ k v, m.get? k = some v → f v ≤ g v) : sumBy f m ≤ sumBy g m := by
  apply List.sum_le_sum
  intro v hv
  obtain ⟨k, hk⟩ := mem_values_iff.mp hv
  exact h k v hk

/-- What a key counts for in a total. -/
def share (f : α → Nat) (m : SortedMap κ α) (k : κ) : Nat := ((m.get? k).map f).getD 0

/-- A total is a sum over any keys that include the stored ones. -/
theorem sumBy_eq_sum {m : SortedMap κ α} (f : α → Nat) {keys : Finset κ}
    (h : ∀ k ∈ m.keys, k ∈ keys) : sumBy f m = ∑ k ∈ keys, share f m k := by
  have hentries : m.values.map f = m.keys.map (share f m) := by
    rw [values, SortedMap.keys, List.map_map, List.map_map]
    apply List.map_congr_left
    intro entry hentry
    have hget : m.get? entry.1 = some entry.2 := get?_eq_some_iff.mpr hentry
    simp [share, hget]
  rw [sumBy, hentries, ← List.sum_toFinset _ m.nodup_keys]
  apply Finset.sum_subset
  · intro k hk
    exact h k (List.mem_toFinset.mp hk)
  · intro k _ hk
    have hnone : m.get? k = none := by
      by_contra hne
      obtain ⟨v, hv⟩ := Option.ne_none_iff_exists'.mp hne
      exact hk (List.mem_toFinset.mpr (mem_keys_iff.mpr ⟨v, hv⟩))
    simp [share, hnone]

/-- Totals of two maps compare key by key. -/
theorem sumBy_le_sumBy {m : SortedMap κ α} {n : SortedMap κ β} {f : α → Nat} {g : β → Nat}
    (h : ∀ k, share f m k ≤ share g n k) : sumBy f m ≤ sumBy g n := by
  have hleft : ∀ k ∈ m.keys, k ∈ m.keys.toFinset ∪ n.keys.toFinset := fun k hk =>
    Finset.mem_union_left _ (List.mem_toFinset.mpr hk)
  have hright : ∀ k ∈ n.keys, k ∈ m.keys.toFinset ∪ n.keys.toFinset := fun k hk =>
    Finset.mem_union_right _ (List.mem_toFinset.mpr hk)
  rw [sumBy_eq_sum f hleft, sumBy_eq_sum g hright]
  exact Finset.sum_le_sum fun k _ => h k

end SortedMap

end Framework
