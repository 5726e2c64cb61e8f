import Mathlib

/-!
# Regular expressions that match leftmost first

A backtracking matcher tries the ways to match in order of preference: the first branch of an
alternation before the second, one more repetition before none. `rests` lists what each way
leaves of the input, and the match is the first of them.
-/

namespace Framework

inductive Regex (α : Type)
  | empty
  | set (p : α → Bool)
  | seq (first second : Regex α)
  | alt (first second : Regex α)
  | star (body : Regex α)
  | notAhead (body : Regex α)

namespace Regex

variable {α : Type}

/-- The rests of a greedy repetition. An iteration consumes something. -/
def repeatRests (rests : List α → List (List α)) (s : List α) : List (List α) :=
  (rests s).flatMap (fun t => if _h : t.length < s.length then repeatRests rests t else []) ++ [s]
termination_by s.length

/-- What each way to match leaves of the input, in order of preference. -/
def rests : Regex α → List α → List (List α)
  | empty, s => [s]
  | set p, c :: s => if p c then [s] else []
  | set _, [] => []
  | seq r t, s => (rests r s).flatMap (rests t)
  | alt r t, s => rests r s ++ rests t s
  | star r, s => repeatRests (rests r) s
  | notAhead r, s => if (rests r s).isEmpty then [s] else []

/-- What the preferred match leaves. -/
def first (r : Regex α) (s : List α) : Option (List α) := (r.rests s).head?

/-- One or more. -/
def plus (r : Regex α) : Regex α := seq r (star r)

/-- One or none, one preferred. -/
def opt (r : Regex α) : Regex α := alt r empty

/-- At most `n`, as many as possible preferred. -/
def upTo (r : Regex α) : Nat → Regex α
  | 0 => empty
  | n + 1 => opt (seq r (upTo r n))

/-- One of several, the first that matches preferred. -/
def choice : List (Regex α) → Regex α
  | [] => set fun _ => false
  | r :: rs => alt r (choice rs)

/-- The given symbols one after another. -/
def word : List (α → Bool) → Regex α
  | [] => empty
  | p :: ps => seq (set p) (word ps)

/-- The successive matches in the input. Where no match starts, one symbol is passed by. -/
def findAll (r : Regex α) (s : List α) : List (List α) :=
  match s with
  | [] => []
  | c :: s =>
    match r.first (c :: s) with
    | some t =>
      if _h : t.length < (c :: s).length then
        (c :: s).take ((c :: s).length - t.length) :: findAll r t
      else findAll r s
    | none => findAll r s
termination_by s.length
decreasing_by all_goals simp_all

section First

variable {p q : α → Bool} {r t : Regex α} {c : α} {s : List α}

@[simp] theorem rests_empty : (empty : Regex α).rests s = [s] := rfl

theorem rests_set_cons : (set p).rests (c :: s) = if p c then [s] else [] := rfl

theorem rests_seq : (seq r t).rests s = (r.rests s).flatMap t.rests := rfl

theorem rests_alt : (alt r t).rests s = r.rests s ++ t.rests s := rfl

theorem rests_star : (star r).rests s = repeatRests r.rests s := rfl

theorem rests_notAhead :
    (notAhead r).rests s = if (r.rests s).isEmpty then [s] else [] := rfl

@[simp] theorem first_empty : (empty : Regex α).first s = some s := rfl

@[simp] theorem first_alt : (alt r t).first s = (r.first s).or (t.first s) := List.head?_append

@[simp] theorem first_opt : (opt r).first s = some ((r.first s).getD s) := by
  rw [opt, first_alt, first_empty]
  cases r.first s <;> rfl

theorem first_set_cons : (set p).first (c :: s) = if p c then some s else none := by
  rw [first, rests_set_cons]
  split_ifs <;> rfl

@[simp] theorem first_set_nil : (set p).first [] = none := rfl

@[simp] theorem first_choice_nil : (choice ([] : List (Regex α))).first s = none := by
  cases s <;> rfl

@[simp] theorem first_choice_cons {rs : List (Regex α)} :
    (choice (r :: rs)).first s = (r.first s).or ((choice rs).first s) := first_alt

theorem first_seq_set_cons : (seq (set p) t).first (c :: s) = if p c then t.first s else none := by
  rw [first, rests_seq, rests_set_cons]
  split_ifs
  · rw [List.flatMap_singleton]
    rfl
  · rfl

@[simp] theorem first_seq_set_nil : (seq (set p) t).first [] = none := rfl

/-- What always matches needs no backtracking before it. -/
theorem first_seq_total (ht : ∀ s, t.first s ≠ none) :
    (seq r t).first s = (r.first s).bind t.first := by
  rw [first, rests_seq, first]
  cases r.rests s with
  | nil => rfl
  | cons rest others =>
    rw [List.flatMap_cons, List.head?_append, List.head?_cons, Option.bind_some]
    cases hrest : (t.rests rest).head? with
    | none => exact absurd hrest (ht rest)
    | some _ => exact hrest.symm

theorem first_seq_assoc {u : Regex α} :
    (seq (seq r t) u).first s = (seq r (seq t u)).first s := by
  rw [first, first, rests_seq, rests_seq, rests_seq, List.flatMap_assoc]
  rfl

/-- An optional part is tried, then left out. -/
theorem first_seq_opt :
    (seq (opt r) t).first s = ((seq r t).first s).or (t.first s) := by
  simp [first, opt, rests_seq, rests_alt, rests_empty, List.flatMap_append, List.head?_append]

@[simp] theorem rests_star_set_nil : (star (set p)).rests [] = [[]] := by
  rw [rests_star, repeatRests]
  rfl

theorem rests_star_set_cons : (star (set p)).rests (c :: s) =
    if p c then (star (set p)).rests s ++ [c :: s] else [c :: s] := by
  rw [rests_star, repeatRests, rests_set_cons]
  split_ifs
  · simp [rests_star]
  · rfl

theorem first_seq_star_set_cons : (seq (star (set p)) t).first (c :: s) =
    if p c then ((seq (star (set p)) t).first s).or (t.first (c :: s)) else t.first (c :: s) := by
  rw [first, rests_seq, rests_star_set_cons]
  split_ifs
  · rw [List.flatMap_append, List.head?_append, List.flatMap_singleton]
    rfl
  · rw [List.flatMap_singleton]
    rfl

theorem first_seq_star_set_nil : (seq (star (set p)) t).first [] = t.first [] := by
  rw [first, rests_seq, rests_star_set_nil, List.flatMap_singleton]
  rfl

@[simp] theorem first_star_set : (star (set p)).first s = some (s.dropWhile p) := by
  induction s with
  | nil => rw [first, rests_star_set_nil]; rfl
  | cons c s ih =>
    rw [first, rests_star_set_cons, List.dropWhile_cons]
    split_ifs
    · rw [List.head?_append, ← first, ih]
      rfl
    · rfl

theorem first_plus_set_cons :
    (plus (set p)).first (c :: s) = if p c then some (s.dropWhile p) else none := by
  rw [plus, first_seq_set_cons, first_star_set]

@[simp] theorem first_plus_set_nil : (plus (set p)).first [] = none := rfl

theorem first_upTo_ne_none (n : Nat) : (upTo r n).first s ≠ none := by
  cases n with
  | zero => exact Option.some_ne_none s
  | succ n =>
    rw [upTo, first_opt]
    exact Option.some_ne_none _

theorem first_notAhead : (notAhead r).first s = if r.first s = none then some s else none := by
  rw [first, rests_notAhead, first]
  cases r.rests s <;> rfl

theorem findAll_of_first {t : List α} (h : r.first s = some t) (hlt : t.length < s.length) :
    r.findAll s = s.take (s.length - t.length) :: r.findAll t := by
  cases s with
  | nil => cases hlt
  | cons c s =>
    rw [findAll]
    split
    · rename_i t' ht'
      obtain rfl : t' = t := Option.some.inj (ht'.symm.trans h)
      rw [dif_pos hlt]
    · rename_i hnone
      rw [h] at hnone
      cases hnone

end First

end Regex

end Framework
