import Mathlib.Logic.Function.Basic
import Mathlib.Logic.Relation

/-!
# Programs that share stores under locks

A program asks for operations on a store, and takes and releases the lock of the store. Any number of
programs run at once in any interleaving, each on the store of its key, and each may be killed between
two steps. What a program that changes the store only under the exclusive lock keeps and ends with is
what it keeps and ends with alone, as long as it holds a lock.
-/

namespace Framework

/-- How a program holds the lock of its store. -/
inductive Hold | free | shared | exclusive
  deriving DecidableEq, Repr

/-- Whether a lock may be granted beside one that is held. -/
def Hold.Beside : Hold → Hold → Prop
  | exclusive, held => held = free
  | shared, held => held ≠ exclusive
  | free, _ => True

/-- The operations on a store. An operation that is under way has no answer yet. -/
structure Interface (σ : Type) where
  Op : Type
  Answer : Op → Type
  Effect : (op : Op) → σ → Option (Answer op) → σ → Prop
  Reads : Op → Prop
  begun : ∀ op s, Effect op s none s
  further : ∀ {op s t answer u}, Effect op s none t → Effect op t answer u → Effect op s answer u
  unchanged : ∀ {op s answer t}, Reads op → Effect op s answer t → t = s

inductive Prog {σ : Type} (I : Interface σ) (ε α : Type)
  | done (a : α)
  | fail (e : ε)
  | ask (op : I.Op) (next : I.Answer op → Prog I ε α)
  | lock (hold : Hold) (next : Bool → Prog I ε α)
  | unlock (next : Prog I ε α)

namespace Prog

variable {σ ε ε' α β : Type} {I : Interface σ}

def bind : Prog I ε α → (α → Prog I ε β) → Prog I ε β
  | done a, f => f a
  | fail e, _ => fail e
  | ask op next, f => ask op fun answer => (next answer).bind f
  | lock hold next, f => lock hold fun granted => (next granted).bind f
  | unlock next, f => unlock (next.bind f)

instance instMonadProg : Monad (Prog I ε) where
  pure := done
  bind := bind

/-- One operation. -/
def call (op : I.Op) : Prog I ε (I.Answer op) := ask op done

/-- Release the lock behind a program, however it ends. -/
def releasing : Prog I ε α → Prog I ε α
  | done a => unlock (done a)
  | fail e => unlock (fail e)
  | ask op next => ask op fun answer => (next answer).releasing
  | lock hold next => lock hold fun granted => (next granted).releasing
  | unlock next => unlock next.releasing

/-- Hand over how a program ends. -/
def attempt : Prog I ε α → Prog I ε' (Except ε α)
  | done a => done (.ok a)
  | fail e => done (.error e)
  | ask op next => ask op fun answer => (next answer).attempt
  | lock hold next => lock hold fun granted => (next granted).attempt
  | unlock next => unlock next.attempt

/-- An answer that may be an error. -/
def ofExcept : Except ε α → Prog I ε α
  | .ok a => done a
  | .error e => fail e

/-- What a program knows of the store: nothing without a lock. -/
def Sees (hold : Hold) (s t : σ) : Prop := hold ≠ .free → t = s

/-- Every change that the program makes is one that `K` allows and made under the exclusive lock, and
the program ends with `Q` or fails with `E`, if the store is `s` and the lock is held so. -/
def Meets (K : σ → σ → Prop) (Q : Hold → σ → α → Prop) (E : Hold → σ → ε → Prop) :
    Prog I ε α → Hold → σ → Prop
  | done a, hold, s => ∀ t, Sees hold s t → Q hold t a
  | fail e, hold, s => ∀ t, Sees hold s t → E hold t e
  | ask op next, hold, s => ∀ t, Sees hold s t → (I.Reads op ∨ hold = .exclusive) ∧
      ∀ u, I.Effect op t none u → (∀ v, I.Effect op u none v → K u v) ∧
        ∀ answer v, I.Effect op u (some answer) v → K u v ∧ (next answer).Meets K Q E hold v
  | lock wanted next, hold, _ => hold = .free ∧
      ∀ t, (next true).Meets K Q E wanted t ∧ (next false).Meets K Q E .free t
  | unlock next, _, _ => ∀ t, next.Meets K Q E .free t

section Rules

variable {K : σ → σ → Prop} {Q : Hold → σ → α → Prop} {E : Hold → σ → ε → Prop} {hold : Hold} {s t : σ}

/-- Without a lock a program works on any store. -/
theorem Meets.any {p : Prog I ε α} (h : p.Meets K Q E .free s) (t : σ) : p.Meets K Q E .free t := by
  have hsees : ∀ u, Sees .free s u := fun u hheld => absurd rfl hheld
  cases p with
  | done a => exact fun u _ => h u (hsees u)
  | fail e => exact fun u _ => h u (hsees u)
  | ask op next => exact fun u _ => h u (hsees u)
  | lock wanted next => exact h
  | unlock next => exact h

theorem Meets.seen {p : Prog I ε α} (h : p.Meets K Q E hold s) (hsees : Sees hold s t) :
    p.Meets K Q E hold t := by
  by_cases hheld : hold = .free
  · subst hheld
    exact h.any t
  · rwa [hsees hheld]

theorem meets_pure {a : α} (h : ∀ t, Sees hold s t → Q hold t a) :
    (pure a : Prog I ε α).Meets K Q E hold s := h

/-- What an operation is followed by matters only from the operation on. -/
theorem meets_ask {Q' : Hold → σ → β → Prop} {E' : Hold → σ → ε' → Prop} {op : I.Op}
    {next : I.Answer op → Prog I ε α} {next' : I.Answer op → Prog I ε' β}
    (h : (ask op next).Meets K Q E hold s)
    (hnext : ∀ answer t, (next answer).Meets K Q E hold t → (next' answer).Meets K Q' E' hold t) :
    (ask op next').Meets K Q' E' hold s := by
  intro t ht
  obtain ⟨hallowed, heffect⟩ := h t ht
  refine ⟨hallowed, ?_⟩
  intro u hu
  obtain ⟨hunder, hanswer⟩ := heffect u hu
  refine ⟨hunder, ?_⟩
  intro answer v hv
  obtain ⟨hkept, hmeets⟩ := hanswer answer v hv
  exact ⟨hkept, hnext answer v hmeets⟩

theorem Meets.mono {Q' : Hold → σ → α → Prop} {E' : Hold → σ → ε → Prop} {p : Prog I ε α}
    (h : p.Meets K Q E hold s) (hQ : ∀ hold t a, Q hold t a → Q' hold t a)
    (hE : ∀ hold t e, E hold t e → E' hold t e) : p.Meets K Q' E' hold s := by
  induction p generalizing hold s with
  | done a => exact fun t ht => hQ _ _ _ (h t ht)
  | fail e => exact fun t ht => hE _ _ _ (h t ht)
  | ask op next ih => exact meets_ask h fun answer _ => ih answer
  | lock wanted next ih => exact ⟨h.1, fun t => ⟨ih true (h.2 t).1, ih false (h.2 t).2⟩⟩
  | unlock next ih => exact fun t => ih (h t)

theorem Meets.bind {f : α → Prog I ε β} {Q : Hold → σ → β → Prop} {p : Prog I ε α}
    (h : p.Meets K (fun hold t a => (f a).Meets K Q E hold t) E hold s) :
    (p >>= f).Meets K Q E hold s := by
  change (p.bind f).Meets K Q E hold s
  induction p generalizing hold s with
  | done a => exact h s fun _ => rfl
  | fail e => exact h
  | ask op next ih => exact meets_ask h fun answer _ => ih answer
  | lock wanted next ih => exact ⟨h.1, fun t => ⟨ih true (h.2 t).1, ih false (h.2 t).2⟩⟩
  | unlock next ih => exact fun t => ih (h t)

/-- Behind `releasing` the lock is free and the store may be any. -/
theorem Meets.releasing {p : Prog I ε α}
    (h : p.Meets K (fun _ _ a => ∀ t, Q .free t a) (fun _ _ e => ∀ t, E .free t e) hold s) :
    p.releasing.Meets K Q E hold s := by
  induction p generalizing hold s with
  | done a => exact fun t u _ => h s (fun _ => rfl) u
  | fail e => exact fun t u _ => h s (fun _ => rfl) u
  | ask op next ih => exact meets_ask h fun answer _ => ih answer
  | lock wanted next ih => exact ⟨h.1, fun t => ⟨ih true (h.2 t).1, ih false (h.2 t).2⟩⟩
  | unlock next ih => exact fun t => ih (h t)

theorem Meets.attempt {E' : Hold → σ → ε' → Prop} {Q : Hold → σ → Except ε α → Prop} {p : Prog I ε α}
    (h : p.Meets K (fun hold t a => Q hold t (.ok a)) (fun hold t e => Q hold t (.error e)) hold s) :
    (p.attempt : Prog I ε' _).Meets K Q E' hold s := by
  induction p generalizing hold s with
  | done a => exact h
  | fail e => exact h
  | ask op next ih => exact meets_ask h fun answer _ => ih answer
  | lock wanted next ih => exact ⟨h.1, fun t => ⟨ih true (h.2 t).1, ih false (h.2 t).2⟩⟩
  | unlock next ih => exact fun t => ih (h t)

/-- An operation that reads. -/
theorem meets_read {op : I.Op} {f : I.Answer op → Prog I ε α} (hreads : I.Reads op)
    (hK : ∀ t, K t t) (h : ∀ t answer, Sees hold s t → I.Effect op t (some answer) t →
      (f answer).Meets K Q E hold t) : (call op >>= f).Meets K Q E hold s := by
  intro t ht
  refine ⟨.inl hreads, ?_⟩
  intro u hu
  obtain rfl := I.unchanged hreads hu
  constructor
  · intro v hv
    rw [I.unchanged hreads hv]
    exact hK u
  · intro answer v hv
    obtain rfl := I.unchanged hreads hv
    exact ⟨hK v, h v answer ht hv⟩

/-- An operation under the exclusive lock. -/
theorem meets_change {op : I.Op} {f : I.Answer op → Prog I ε α}
    (hK : ∀ t answer u, I.Effect op s none t → I.Effect op t answer u → K t u)
    (h : ∀ answer t, I.Effect op s (some answer) t → (f answer).Meets K Q E .exclusive t) :
    (call op >>= f).Meets K Q E .exclusive s := by
  intro t ht
  obtain rfl := ht (by simp)
  refine ⟨.inr rfl, ?_⟩
  intro u hu
  constructor
  · exact fun v hv => hK u none v hu hv
  · exact fun answer v hv => ⟨hK u (some answer) v hu hv, h answer v (I.further hu hv)⟩

end Rules

end Prog

/-! ## Programs at once -/

structure Process {σ : Type} (I : Interface σ) (κ ε α : Type) where
  key : κ
  hold : Hold
  rest : Prog I ε α

structure World {σ : Type} (I : Interface σ) (κ ι ε α : Type) where
  store : κ → σ
  process : ι → Option (Process I κ ε α)

namespace World

open Function

variable {σ κ ι ε α : Type} {I : Interface σ} {w w' : World I κ ι ε α}

section Process

variable [DecidableEq ι]

/-- Give a process its next state. -/
def move (w : World I κ ι ε α) (i : ι) (p : Process I κ ε α) : World I κ ι ε α :=
  { w with process := update w.process i (some p) }

@[simp] theorem store_move (i : ι) (p : Process I κ ε α) : (w.move i p).store = w.store := rfl

theorem process_move {i j : ι} {p q : Process I κ ε α} (h : (w.move i p).process j = some q) :
    j = i ∧ q = p ∨ j ≠ i ∧ w.process j = some q := by
  unfold move at h
  dsimp only at h
  by_cases hj : j = i
  · subst hj
    rw [update_self] at h
    exact .inl ⟨rfl, (Option.some.inj h).symm⟩
  · rw [update_of_ne hj] at h
    exact .inr ⟨hj, h⟩

end Process

section Store

variable [DecidableEq κ]

/-- Change the store of a key. -/
def change (w : World I κ ι ε α) (k : κ) (s : σ) : World I κ ι ε α :=
  { w with store := update w.store k s }

@[simp] theorem process_change (k : κ) (s : σ) : (w.change k s).process = w.process := rfl

theorem store_change_self (k : κ) (s : σ) : (w.change k s).store k = s := by
  simp [change]

theorem store_change_of_ne {k k' : κ} (h : k' ≠ k) (s : σ) :
    (w.change k s).store k' = w.store k' := by
  simp [change, h]

end Store

variable [DecidableEq κ] [DecidableEq ι]

/-- One step of one process. A process that has ended keeps its lock until it leaves. -/
inductive Step (Begins : κ → Prog I ε α → Prop) (w : World I κ ι ε α) : World I κ ι ε α → Prop
  | begin (i : ι) (k : κ) (p : Prog I ε α) (hi : w.process i = none) (hp : Begins k p) :
      Step Begins w (w.move i ⟨k, .free, p⟩)
  | work (i : ι) (k : κ) (hold : Hold) (op : I.Op) (next : I.Answer op → Prog I ε α) (s : σ)
      (hi : w.process i = some ⟨k, hold, .ask op next⟩) (hop : I.Effect op (w.store k) none s) :
      Step Begins w (w.change k s)
  | answer (i : ι) (k : κ) (hold : Hold) (op : I.Op) (next : I.Answer op → Prog I ε α)
      (answer : I.Answer op) (s : σ) (hi : w.process i = some ⟨k, hold, .ask op next⟩)
      (hop : I.Effect op (w.store k) (some answer) s) :
      Step Begins w ((w.change k s).move i ⟨k, hold, next answer⟩)
  | grant (i : ι) (k : κ) (hold wanted : Hold) (next : Bool → Prog I ε α)
      (hi : w.process i = some ⟨k, hold, .lock wanted next⟩)
      (hbeside : ∀ j p, j ≠ i → w.process j = some p → p.key = k → wanted.Beside p.hold) :
      Step Begins w (w.move i ⟨k, wanted, next true⟩)
  | refuse (i : ι) (k : κ) (hold wanted : Hold) (next : Bool → Prog I ε α)
      (hi : w.process i = some ⟨k, hold, .lock wanted next⟩) :
      Step Begins w (w.move i ⟨k, hold, next false⟩)
  | release (i : ι) (k : κ) (hold : Hold) (next : Prog I ε α)
      (hi : w.process i = some ⟨k, hold, .unlock next⟩) :
      Step Begins w (w.move i ⟨k, .free, next⟩)
  | leave (i : ι) : Step Begins w { w with process := update w.process i none }

/-- What holds of every process, and of every two of them. -/
structure Sound (K : κ → σ → σ → Prop) (Q : κ → Hold → σ → α → Prop) (E : κ → Hold → σ → ε → Prop)
    (w : World I κ ι ε α) : Prop where
  meets : ∀ i p, w.process i = some p →
    p.rest.Meets (K p.key) (Q p.key) (E p.key) p.hold (w.store p.key)
  beside : ∀ i j p q, i ≠ j → w.process i = some p → w.process j = some q → p.key = q.key →
    p.hold.Beside q.hold

variable {K : κ → σ → σ → Prop} {Q : κ → Hold → σ → α → Prop} {E : κ → Hold → σ → ε → Prop}

theorem beside_comm {hold held : Hold} (h : hold.Beside held) : held.Beside hold := by
  cases hold <;> cases held <;> simp_all [Hold.Beside]

omit [DecidableEq κ] in
/-- A process goes on in the store that it has. -/
theorem Sound.move (h : Sound K Q E w) (i : ι) (p : Process I κ ε α)
    (hp : p.rest.Meets (K p.key) (Q p.key) (E p.key) p.hold (w.store p.key))
    (hbeside : ∀ j q, j ≠ i → w.process j = some q → q.key = p.key → p.hold.Beside q.hold) :
    Sound K Q E (w.move i p) := by
  constructor
  · intro j q hq
    rcases process_move hq with ⟨-, rfl⟩ | ⟨-, hq⟩
    · exact hp
    · exact h.meets j q hq
  · intro j l q r hne hq hr hkey
    rcases process_move hq with ⟨rfl, rfl⟩ | ⟨hj, hq'⟩
    · rcases process_move hr with ⟨rfl, -⟩ | ⟨hl, hr'⟩
      · exact absurd rfl hne
      · exact hbeside l r hl hr' hkey.symm
    · rcases process_move hr with ⟨rfl, rfl⟩ | ⟨hl, hr'⟩
      · exact beside_comm (hbeside j q hj hq' hkey)
      · exact h.beside j l q r hne hq' hr' hkey

omit [DecidableEq ι] in
/-- An operation is seen by no other process that holds a lock. -/
theorem Sound.change (h : Sound K Q E w) {i : ι} {k : κ} {hold : Hold} {op : I.Op}
    {next : I.Answer op → Prog I ε α} {answer : Option (I.Answer op)} {s : σ}
    (hi : w.process i = some ⟨k, hold, .ask op next⟩) (hop : I.Effect op (w.store k) answer s) :
    K k (w.store k) s ∧ (∀ j p, j ≠ i → w.process j = some p →
      p.rest.Meets (K p.key) (Q p.key) (E p.key) p.hold ((w.change k s).store p.key)) ∧
      ∀ a, answer = some a → (next a).Meets (K k) (Q k) (E k) hold s := by
  obtain ⟨hallowed, heffect⟩ := h.meets i _ hi (w.store k) fun _ => rfl
  obtain ⟨hunder, hanswer⟩ := heffect (w.store k) (I.begun op _)
  refine ⟨?_, ?_, ?_⟩
  · cases answer with
    | none => exact hunder s hop
    | some a => exact (hanswer a s hop).1
  · intro j p hj hp
    have hmeets := h.meets j p hp
    by_cases hkey : p.key = k
    · subst hkey
      rw [store_change_self]
      apply hmeets.seen
      rcases hallowed with hreads | hexclusive
      · exact fun _ => I.unchanged hreads hop
      · have hfree := h.beside i j _ p (Ne.symm hj) hi hp rfl
        rw [hexclusive] at hfree
        exact fun hheld => absurd hfree hheld
    · rwa [store_change_of_ne hkey]
  · intro a ha
    subst ha
    exact (hanswer a s hop).2

theorem Sound.step {Begins : κ → Prog I ε α → Prop}
    (hbegins : ∀ k p, Begins k p → ∀ s, p.Meets (K k) (Q k) (E k) .free s) (h : Sound K Q E w)
    (hstep : Step Begins w w') : Sound K Q E w' := by
  cases hstep with
  | begin i k p hi hp => exact h.move i _ (hbegins k p hp _) fun _ _ _ _ _ => trivial
  | work i k hold op next s hi hop =>
    obtain ⟨-, hothers, -⟩ := h.change hi hop
    constructor
    · intro j p hp
      by_cases hj : j = i
      · subst hj
        have hp' : p = ⟨k, hold, .ask op next⟩ := Option.some.inj (hp.symm.trans hi)
        subst hp'
        have hmeets := h.meets j _ hi
        rw [store_change_self]
        intro t ht
        by_cases hheld : hold = .free
        · exact hmeets t fun hne => absurd hheld hne
        · obtain rfl := ht hheld
          obtain ⟨hallowed, heffect⟩ := hmeets (w.store k) fun _ => rfl
          exact ⟨hallowed, fun u hu => heffect u (I.further hop hu)⟩
      · exact hothers j p hj hp
    · exact h.beside
  | answer i k hold op next answer s hi hop =>
    obtain ⟨-, hothers, hnext⟩ := h.change hi hop
    constructor
    · intro j p hp
      rcases process_move hp with ⟨-, rfl⟩ | ⟨hj, hp⟩
      · have hmeets := hnext answer rfl
        rw [store_move, store_change_self]
        exact hmeets
      · exact hothers j p hj hp
    · intro j l p q hne hp hq hkey
      rcases process_move hp with ⟨rfl, rfl⟩ | ⟨hj, hp'⟩
      · rcases process_move hq with ⟨rfl, -⟩ | ⟨hl, hq'⟩
        · exact absurd rfl hne
        · exact h.beside j l ⟨k, hold, .ask op next⟩ q hne hi hq' hkey
      · rcases process_move hq with ⟨rfl, rfl⟩ | ⟨hl, hq'⟩
        · exact h.beside j l p ⟨k, hold, .ask op next⟩ hne hp' hi hkey
        · exact h.beside j l p q hne hp' hq' hkey
  | grant i k hold wanted next hi hbeside =>
    exact h.move i _ ((h.meets i _ hi).2 _).1 hbeside
  | refuse i k hold wanted next hi =>
    obtain ⟨hfree, hnext⟩ := h.meets i _ hi
    have hfree : hold = .free := hfree
    subst hfree
    exact h.move i _ (hnext _).2 fun _ _ _ _ _ => trivial
  | release i k hold next hi => exact h.move i _ (h.meets i _ hi _) fun _ _ _ _ _ => trivial
  | leave i =>
    have hleft : ∀ {j p}, update w.process i none j = some p → w.process j = some p := by
      intro j p hp
      by_cases hj : j = i
      · rw [hj, update_self] at hp
        cases hp
      · rwa [update_of_ne hj] at hp
    constructor
    · exact fun j p hp => h.meets j p (hleft hp)
    · exact fun j l p q hne hp hq => h.beside j l p q hne (hleft hp) (hleft hq)

/-- A step changes a store as its program is allowed to. -/
theorem Sound.keeps {Begins : κ → Prog I ε α → Prop} (h : Sound K Q E w)
    (hrefl : ∀ k s, K k s s) (hstep : Step Begins w w') (k : κ) : K k (w.store k) (w'.store k) := by
  have hchange : ∀ {k' : κ} {s : σ}, K k' (w.store k') s → K k (w.store k) ((w.change k' s).store k) := by
    intro k' s hs
    by_cases hk : k = k'
    · subst hk
      rwa [store_change_self]
    · rw [store_change_of_ne hk]
      exact hrefl k _
  cases hstep with
  | begin | grant | refuse | release | leave => exact hrefl k _
  | work i k' hold op next s hi hop => exact hchange (h.change hi hop).1
  | answer i k' hold op next answer s hi hop => exact hchange (h.change hi hop).1

/-- Every program meets what it meets alone, in every run from a world without processes. -/
theorem sound_run {Begins : κ → Prog I ε α → Prop}
    (hbegins : ∀ k p, Begins k p → ∀ s, p.Meets (K k) (Q k) (E k) .free s)
    (hempty : ∀ i, w.process i = none) (hrun : Relation.ReflTransGen (Step Begins) w w') :
    Sound K Q E w' := by
  induction hrun with
  | refl =>
    constructor
    · intro i p hp
      rw [hempty i] at hp
      cases hp
    · intro i j p q _ hp
      rw [hempty i] at hp
      cases hp
  | tail _ hstep ih => exact ih.step hbegins hstep

end World

end Framework
