import Leone.Registry.Programs

/-!
# The leases of verified models

What a process returns has the digest of its model for as long as the process keeps the lock. No process
removes a verified file, or touches a file that is none of a model's own, such as one in quarantine.
-/

namespace Leone.Registry

open Framework Function

variable {C : Codecs} {entries : Set ModelEntry} {d : Digest} {s t u : Directory}

/-- The names of partial downloads and their identities. -/
def Scratch (entries : Set ModelEntry) (d : Digest) (name : Name) : Prop :=
  ∃ model ∈ entries, model.sha256 = d ∧ (name = partialPath model.artifact ∨
    name = partialIdentityPath (partialPath model.artifact))

/-- The names that the models of a digest use. -/
def Used (entries : Set ModelEntry) (d : Digest) (name : Name) : Prop :=
  Scratch entries d name ∨ ∃ model ∈ entries, model.sha256 = d ∧ name = model.artifact

def Verified (C : Codecs) (d : Digest) (s : Directory) (name : Name) : Prop :=
  ∃ bytes, s name = some (.file bytes) ∧ C.sha256 bytes = d

/-- What no change of a directory does away with. -/
structure Kept (C : Codecs) (entries : Set ModelEntry) (d : Digest) (s t : Directory) : Prop where
  files : ∀ name bytes, ¬ Used entries d name → s name = some (.file bytes) →
    t name = some (.file bytes)
  verified : ∀ name, ¬ Scratch entries d name → Verified C d s name → Verified C d t name

theorem Kept.refl (s : Directory) : Kept C entries d s s := ⟨fun _ _ _ h => h, fun _ _ h => h⟩

theorem Kept.trans (h : Kept C entries d s t) (h' : Kept C entries d t u) : Kept C entries d s u := by
  constructor
  · exact fun name bytes hname hfile => h'.files name bytes hname (h.files name bytes hname hfile)
  · exact fun name hname hverified => h'.verified name hname (h.verified name hname hverified)

/-- A change of a partial download or its identity. -/
theorem kept_scratch {name : Name} (hname : Scratch entries d name)
    (h : ∀ other, other ≠ name → t other = s other) : Kept C entries d s t := by
  constructor
  · intro other bytes hother hfile
    rw [h other fun heq => hother (.inl (heq ▸ hname)), hfile]
  · intro other hother hverified
    unfold Verified
    rw [h other fun heq => hother (heq ▸ hname)]
    exact hverified

theorem kept_quarantine {source target : Name} {node : Option Node} (hsource : Used entries d source)
    (hwrong : ¬ Verified C d s source) (htarget : ∀ bytes, s target ≠ some (.file bytes)) :
    Kept C entries d s (update (update s source none) target node) := by
  have hother : ∀ {name}, name ≠ source → (∃ bytes, s name = some (.file bytes)) →
      update (update s source none) target node name = s name := by
    intro name hname hfile
    obtain ⟨bytes, hfile⟩ := hfile
    have hne : name ≠ target := fun heq => htarget bytes (heq ▸ hfile)
    rw [update_of_ne hne, update_of_ne hname]
  constructor
  · intro name bytes hname hfile
    have hne : name ≠ source := by
      intro heq
      rw [heq] at hname
      exact hname hsource
    rw [hother hne ⟨bytes, hfile⟩, hfile]
  · intro name hname hverified
    have hne : name ≠ source := by
      intro heq
      rw [heq] at hverified
      exact hwrong hverified
    unfold Verified
    rw [hother hne (hverified.imp fun _ h => h.1)]
    exact hverified

theorem kept_install {source target : Name} {node : Option Node} (hsource : Scratch entries d source)
    (htarget : Used entries d target) (hfree : ¬ Scratch entries d target → ¬ Verified C d s target) :
    Kept C entries d s (update (update s source none) target node) := by
  constructor
  · intro name bytes hname hfile
    have hne : name ≠ target := by
      intro heq
      rw [heq] at hname
      exact hname htarget
    have hne' : name ≠ source := by
      intro heq
      rw [heq] at hname
      exact hname (.inl hsource)
    rw [update_of_ne hne, update_of_ne hne', hfile]
  · intro name hname hverified
    have hne : name ≠ target := by
      intro heq
      rw [heq] at hname hverified
      exact hfree hname hverified
    have hne' : name ≠ source := by
      intro heq
      rw [heq] at hname
      exact hname hsource
    unfold Verified
    rw [update_of_ne hne, update_of_ne hne']
    exact hverified

/-! ## Rules under the exclusive lock -/

/-- A program that keeps the exclusive lock and what is to be kept, and ends with `R`. -/
def Runs (C : Codecs) (entries : Set ModelEntry) (d : Digest) {α : Type}
    (R : Directory → α → Prop) (p : Task C α) (s : Directory) : Prop :=
  p.Meets (Kept C entries d) (fun hold t a => hold = .exclusive ∧ R t a)
    (fun hold _ _ => hold = .exclusive) .exclusive s

variable {α β : Type} {R : Directory → α → Prop} {R' : Directory → β → Prop}

theorem Runs.mono {R' : Directory → α → Prop} {p : Task C α} (h : Runs C entries d R p s)
    (hR : ∀ t a, R t a → R' t a) : Runs C entries d R' p s :=
  Prog.Meets.mono h (fun _ t a hend => ⟨hend.1, hR t a hend.2⟩) fun _ _ _ h => h

theorem Runs.bind {p : Task C α} {f : α → Task C β} (h : Runs C entries d R p s)
    (hf : ∀ t a, R t a → Runs C entries d R' (f a) t) : Runs C entries d R' (p >>= f) s := by
  apply Prog.Meets.bind
  apply Prog.Meets.mono h
  · intro hold t a hend
    obtain ⟨rfl, hR⟩ := hend
    exact hf t a hR
  · exact fun _ _ _ h => h

theorem runs_pure {a : α} (h : R s a) : Runs C entries d R (pure a) s := by
  intro t ht
  rw [ht (by simp)]
  exact ⟨rfl, h⟩

theorem runs_fail (e : Fault) : Runs C entries d R (Prog.fail e) s := fun _ _ => rfl

theorem runs_read {o : Op} (hreads : o.Reads) :
    Runs C entries d (fun t answer => t = s ∧ o.Effect C.sha256 s (some answer) s) (ask C o) s := by
  apply Prog.meets_read (f := pure) hreads Kept.refl
  intro t answer ht hop
  obtain rfl := ht (by simp)
  exact runs_pure ⟨rfl, hop⟩

theorem runs_change {o : Op} (hK : ∀ t answer u, o.Effect C.sha256 s none t →
    o.Effect C.sha256 t answer u → Kept C entries d t u) :
    Runs C entries d (fun t answer => o.Effect C.sha256 s (some answer) t) (ask C o) s := by
  apply Prog.meets_change (f := pure) hK
  intro answer t hop
  exact runs_pure hop

theorem Runs.perform {R : Directory → Except Fault α → Prop} {R' : Directory → α → Prop}
    {x : Task C (Except Fault α)} (h : Runs C entries d R x s)
    (hok : ∀ t a, R t (.ok a) → R' t a) : Runs C entries d R' (perform C x) s := by
  apply Runs.bind h
  intro t r hr
  cases r with
  | ok a => exact runs_pure (hok t a hr)
  | error e => exact runs_fail e

theorem Runs.attempt {R' : Directory → Except Fault α → Prop} {p : Task C α}
    (h : Runs C entries d R p s) (hok : ∀ t a, R t a → R' t (.ok a))
    (herror : ∀ t e, R' t (.error e)) : Runs C entries d R' p.attempt s := by
  apply Prog.Meets.attempt
  apply Prog.Meets.mono h
  · exact fun _ t a hend => ⟨hend.1, hok t a hend.2⟩
  · exact fun _ t e hend => ⟨hend, herror t e⟩

/-- The only name that an operation changes. -/
def Op.only : Op → Option Name
  | remove name | create name | write name _ | copy _ name | curl _ name => some name
  | _ => none

theorem effect_only {op : Op} {name : Name} {answer : Option op.Answer} (hop : op.only = some name)
    (h : op.Effect C.sha256 s answer t) : ∀ other, other ≠ name → t other = s other := by
  have hput : ∀ {content}, Put name content s t → ∀ other, other ≠ name → t other = s other := by
    intro content hput other hother
    obtain ⟨-, -, bytes, -, rfl⟩ := hput
    rw [update_of_ne hother]
  intro other hother
  cases op with
  | state | hash | load | length | fresh | rename => cases hop
  | remove path =>
    cases hop
    cases answer with
    | none =>
      rw [show t = s from h]
    | some r =>
      cases r with
      | ok value => rw [h.2.2, update_of_ne hother]
      | error e =>
        cases e with
        | notFound => rw [h.1]
        | system | invalid => rw [show t = s from h]
  | create path =>
    cases hop
    cases answer with
    | none => rw [show t = s from h]
    | some r =>
      cases r with
      | ok value => rw [h.2, update_of_ne hother]
      | error e => rw [show t = s from h]
  | write path bytes =>
    cases hop
    cases answer with
    | none => exact h.elim (fun h => by rw [h]) fun h => hput h other hother
    | some r =>
      cases r with
      | ok value => exact h.elim (fun h => hput h other hother) fun h => by rw [h.2]
      | error e => exact h.elim (fun h => by rw [h]) fun h => hput h other hother
  | copy source path | curl source path =>
    cases hop
    exact h.elim (fun h => by rw [h]) fun h => hput h other hother

/-! ## Programs that work on a partial download -/

/-- Two directories that differ in partial downloads and identities at most. -/
def Beyond (entries : Set ModelEntry) (d : Digest) (s t : Directory) : Prop :=
  ∀ name, ¬ Scratch entries d name → t name = s name

/-- A program that changes no more than partial downloads and identities. -/
def Calm (C : Codecs) (entries : Set ModelEntry) (d : Digest) (p : Task C α) : Prop :=
  ∀ s, p.Meets (Kept C entries d) (fun hold t _ => hold = .exclusive ∧ Beyond entries d s t)
    (fun hold t _ => hold = .exclusive ∧ Beyond entries d s t) .exclusive s

theorem Beyond.trans (h : Beyond entries d s t) (h' : Beyond entries d t u) : Beyond entries d s u :=
  fun name hname => (h' name hname).trans (h name hname)

theorem Calm.runs {p : Task C α} (h : Calm C entries d p) (s : Directory) :
    Runs C entries d (fun t _ => Beyond entries d s t) p s :=
  Prog.Meets.mono (h s) (fun _ _ _ hend => hend) fun _ _ _ hend => hend.1

theorem Calm.bind {p : Task C α} {f : α → Task C β} (hp : Calm C entries d p)
    (hf : ∀ a, Calm C entries d (f a)) : Calm C entries d (p >>= f) := by
  intro s
  apply Prog.Meets.bind
  apply Prog.Meets.mono (hp s)
  · intro hold t a hend
    obtain ⟨rfl, hst⟩ := hend
    apply Prog.Meets.mono (hf a t)
    · exact fun _ _ _ hend => ⟨hend.1, hst.trans hend.2⟩
    · exact fun _ _ _ hend => ⟨hend.1, hst.trans hend.2⟩
  · exact fun _ _ _ hend => hend

theorem calm_pure (a : α) : Calm C entries d (pure a : Task C α) := by
  intro s t ht
  rw [ht (by simp)]
  exact ⟨rfl, fun _ _ => rfl⟩

theorem calm_fail (e : Fault) : Calm C entries d (Prog.fail e : Task C α) := by
  intro s t ht
  rw [ht (by simp)]
  exact ⟨rfl, fun _ _ => rfl⟩

theorem calm_ofExcept (r : Except Fault α) : Calm C entries d (Prog.ofExcept r : Task C α) := by
  cases r with
  | ok a => exact calm_pure a
  | error e => exact calm_fail e

theorem Calm.ite {c : Prop} [Decidable c] {p q : Task C α} (hp : Calm C entries d p)
    (hq : Calm C entries d q) : Calm C entries d (if c then p else q) := by
  split
  · exact hp
  · exact hq

theorem Calm.perform {x : Task C (Except Fault α)} (h : Calm C entries d x) :
    Calm C entries d (perform C x) := h.bind calm_ofExcept

theorem Calm.attempt {p : Task C α} (h : Calm C entries d p) :
    Calm C entries d (p.attempt : Task C (Except Fault α)) :=
  fun s => Prog.Meets.attempt (h s)

theorem calm_read {o : Op} (hreads : o.Reads) : Calm C entries d (ask C o) := by
  intro s
  apply Prog.meets_read (f := pure) hreads Kept.refl
  intro t answer ht _
  obtain rfl := ht (by simp)
  exact calm_pure answer _

theorem calm_scratch {o : Op} {name : Name} (hop : o.only = some name)
    (hname : Scratch entries d name) : Calm C entries d (ask C o) := by
  have hne : ∀ {other}, ¬ Scratch entries d other → other ≠ name := by
    intro other hother heq
    rw [heq] at hother
    exact hother hname
  intro s
  apply Prog.meets_change (f := pure)
  · exact fun t answer u _ h => kept_scratch hname (effect_only hop h)
  · intro answer t h u hu
    rw [hu (by simp)]
    exact ⟨rfl, fun other hother => effect_only hop h other (hne hother)⟩

/-- What a check of a cache entry tells. -/
theorem cacheFileState_meets {K : Directory → Directory → Prop} (hK : ∀ t, K t t) {hold : Hold}
    (hheld : hold ≠ .free) (name : Name) (label : String) (s : Directory) :
    (cacheFileState C name label).Meets K
      (fun hold' t found => hold' = hold ∧ t = s ∧
        if found then ∃ bytes, s name = some (.file bytes) else s name = none)
      (fun hold' t _ => hold' = hold ∧ t = s) hold s := by
  refine Prog.meets_read ?_ hK ?_
  · exact trivial
  intro t answer ht hop
  obtain rfl := ht hheld
  cases answer with
  | ok kind =>
    cases kind with
    | file =>
      apply Prog.meets_pure
      intro u hu
      obtain ⟨-, hkind⟩ := hop
      refine ⟨rfl, hu hheld, ?_⟩
      obtain ⟨node, hnode, hkind⟩ := Option.map_eq_some_iff.mp hkind
      cases node with
      | file bytes => exact ⟨bytes, hnode⟩
      | link | directory => cases hkind
    | link | directory => exact fun u hu => ⟨rfl, hu hheld⟩
  | error e =>
    cases e with
    | notFound => exact fun u hu => ⟨rfl, hu hheld, hop.2⟩
    | system | invalid => exact fun u hu => ⟨rfl, hu hheld⟩

theorem calm_cacheFileState (name : Name) (label : String) :
    Calm C entries d (cacheFileState C name label) := by
  intro s
  apply Prog.Meets.mono (cacheFileState_meets Kept.refl (by simp) name label s)
  · intro hold t a hend
    obtain ⟨rfl, rfl, -⟩ := hend
    exact ⟨rfl, fun _ _ => rfl⟩
  · intro hold t a hend
    obtain ⟨rfl, rfl⟩ := hend
    exact ⟨rfl, fun _ _ => rfl⟩

theorem calm_isVerified (model : ModelEntry) (path : Name) :
    Calm C entries d (isVerified C model path) :=
  (calm_read (o := .hash path) trivial).perform.bind fun _ => calm_pure _

theorem calm_partialIdentityMatches (model : ModelEntry) (part : Name) :
    Calm C entries d (partialIdentityMatches C model part) := by
  apply (calm_cacheFileState _ _).bind
  intro found
  apply Calm.ite (calm_pure _)
  apply (calm_read (o := .load (partialIdentityPath part)) trivial).perform.bind
  intro bytes
  cases C.fromSlice bytes with
  | none => exact calm_pure _
  | some value => exact calm_pure _

theorem calm_removeIfPresent {path : Name} (hpath : Scratch entries d path) :
    Calm C entries d (removeIfPresent C path) := by
  apply (calm_cacheFileState _ _).bind
  intro found
  apply Calm.ite (calm_pure _)
  apply (calm_scratch rfl hpath).bind
  intro answer
  cases answer with
  | ok value => exact calm_pure _
  | error e =>
    cases e with
    | notFound => exact calm_pure _
    | system | invalid => exact calm_fail _

theorem calm_createPrivateFile {path : Name} (hpath : Scratch entries d path) (label : String) :
    Calm C entries d (createPrivateFile C path label) := by
  apply (calm_scratch rfl hpath).bind
  intro answer
  cases answer with
  | ok value => exact calm_pure _
  | error e => exact calm_fail _

theorem calm_writePrivateFile {path : Name} (hpath : Scratch entries d path) (bytes : Bytes)
    (label : String) : Calm C entries d (writePrivateFile C path bytes label) :=
  (calm_cacheFileState _ _).bind fun _ => (calm_scratch rfl hpath).perform

section Download

variable {model : ModelEntry} {part : Name} (hpart : Scratch entries d part)
  (hidentity : Scratch entries d (partialIdentityPath part))

include hpart

theorem calm_preparePartialFile : Calm C entries d (preparePartialFile C model part) := by
  have hcreate : ∀ a : Bool, Calm C entries d (do
      createPrivateFile C part "partial download"
      return a) := fun _ => (calm_createPrivateFile hpart _).bind fun _ => calm_pure _
  apply (calm_cacheFileState _ _).bind
  intro found
  apply Calm.ite (hcreate false)
  apply (calm_partialIdentityMatches _ _).bind
  intro matched
  apply Calm.ite (calm_pure _)
  exact (calm_removeIfPresent hpart).bind fun _ => hcreate false

theorem calm_retryEmptyDownload : Calm C entries d (retryEmptyDownload C model part) :=
  (calm_removeIfPresent hpart).bind fun _ => (calm_createPrivateFile hpart _).bind fun _ =>
    (calm_scratch rfl hpart).perform

theorem calm_handleResumeResult (resumed : Bool) (result : Except Fault Unit) :
    Calm C entries d (handleResumeResult C model part resumed result) := by
  apply Calm.ite (calm_ofExcept _)
  cases result with
  | ok value =>
    apply (calm_isVerified _ _).bind
    intro verified
    exact Calm.ite (calm_pure _) (calm_retryEmptyDownload hpart)
  | error e =>
    apply (calm_retryEmptyDownload hpart).attempt.bind
    intro answer
    cases answer with
    | ok value => exact calm_pure _
    | error e => exact calm_fail _

theorem calm_downloadModel : Calm C entries d (downloadModel C model part) := by
  apply (calm_cacheFileState _ _).bind
  intro _
  apply Calm.ite (calm_scratch rfl hpart).perform
  apply (calm_read (o := .length part) trivial).perform.bind
  intro offset
  apply (calm_scratch rfl hpart).perform.attempt.bind
  exact fun result => calm_handleResumeResult hpart _ _

include hidentity

theorem calm_preparePartial : Calm C entries d (preparePartial C model part) := by
  apply (calm_preparePartialFile hpart).bind
  intro kept
  have hwrite := calm_writePrivateFile (C := C) hidentity
    (C.toVec ⟨urlSha256 C model, model.sha256⟩) "partial identity"
  cases kept with
  | true => exact hwrite
  | false => exact (calm_removeIfPresent hidentity).bind fun _ => hwrite

end Download

/-! ## Programs that displace and install -/

/-- No verified file is at the name, unless it is that of a partial download. -/
def Vacant (C : Codecs) (entries : Set ModelEntry) (d : Digest) (s : Directory) (name : Name) : Prop :=
  ¬ Scratch entries d name → ¬ Verified C d s name

theorem Vacant.beyond {name : Name} (h : Vacant C entries d s name) (hst : Beyond entries d s t) :
    Vacant C entries d t name := by
  intro hname hverified
  unfold Verified at hverified
  rw [hst name hname] at hverified
  exact h hname hverified

theorem Runs.ite {c : Prop} [Decidable c] {p q : Task C α} (hp : c → Runs C entries d R p s)
    (hq : ¬ c → Runs C entries d R q s) : Runs C entries d R (if c then p else q) s := by
  split
  · exact hp ‹_›
  · exact hq ‹_›

/-- A calm program goes before one that is not. -/
theorem Calm.before {p : Task C α} {f : α → Task C β} (hp : Calm C entries d p)
    (hf : ∀ a s, Runs C entries d (fun t _ => Beyond entries d s t) (f a) s) (s : Directory) :
    Runs C entries d (fun t _ => Beyond entries d s t) (p >>= f) s := by
  apply (hp.runs s).bind
  intro t a hst
  exact (hf a t).mono fun _ _ htu => hst.trans htu

theorem runs_cacheFileState (name : Name) (label : String) (s : Directory) :
    Runs C entries d (fun t found => t = s ∧ (found = false → s name = none))
      (cacheFileState C name label) s := by
  apply Prog.Meets.mono (cacheFileState_meets Kept.refl (by simp) name label s)
  · intro hold t found hend
    obtain ⟨rfl, rfl, hfound⟩ := hend
    refine ⟨rfl, rfl, ?_⟩
    intro hno
    rwa [if_neg (by simp [hno])] at hfound
  · exact fun _ _ _ hend => hend.1

theorem runs_hash (name : Name) (s : Directory) :
    Runs C entries d (fun t actual => t = s ∧ (actual ≠ d → ¬ Verified C d s name))
      (perform C (ask C (.hash name))) s := by
  apply (runs_read (o := .hash name) trivial).perform
  intro t actual hend
  obtain ⟨rfl, -, hactual⟩ := hend
  refine ⟨rfl, ?_⟩
  rintro hne ⟨bytes, hfile, hbytes⟩
  exact hne ((hactual bytes hfile).trans hbytes)

theorem runs_fresh (name : Name) (digest : Digest) (s : Directory) :
    Runs C entries d (fun t (target : Name) => t = s ∧ ∀ bytes, s target ≠ some (.file bytes))
      (ask C (.fresh name digest)) s := by
  apply (runs_read (o := .fresh name digest) trivial).mono
  intro t target hend
  obtain ⟨rfl, -, -, hfree⟩ := hend
  exact ⟨rfl, hfree⟩

theorem effect_rename {source target : Name} {answer : Option (Op.rename source target).Answer}
    (h : (Op.rename source target).Effect C.sha256 s answer t) :
    t = s ∨ ∃ node, s source = some node ∧
      t = update (update s source none) target (some node) := by
  cases answer with
  | none => exact .inl h
  | some r =>
    cases r with
    | ok value =>
      obtain ⟨node, hnode, -, ht⟩ := h
      exact .inr ⟨node, hnode, ht⟩
    | error e => exact .inl h

/-- What is at a name and is not verified goes to a name of quarantine. -/
theorem runs_quarantine {source target : Name} (hsource : Used entries d source)
    (hwrong : ¬ Verified C d s source) (htarget : ∀ bytes, s target ≠ some (.file bytes)) :
    Runs C entries d (fun t _ => ¬ Verified C d t source)
      (perform C (ask C (.rename source target))) s := by
  apply (runs_change (o := .rename source target) ?_).perform
  · intro t value hend hverified
    rcases effect_rename hend with rfl | ⟨node, hnode, rfl⟩
    · exact hwrong hverified
    · obtain ⟨bytes, hfile, hbytes⟩ := hverified
      by_cases heq : source = target
      · subst heq
        rw [update_self, ← hnode] at hfile
        exact hwrong ⟨bytes, hfile, hbytes⟩
      · rw [update_of_ne heq, update_self] at hfile
        cases hfile
  · intro t answer u ht hend
    obtain rfl : t = s := ht
    rcases effect_rename hend with rfl | ⟨node, -, rfl⟩
    · exact Kept.refl _
    · exact kept_quarantine hsource hwrong htarget

/-- A partial download takes the place of no verified file. -/
theorem runs_install {source target : Name} (hsource : Scratch entries d source)
    (htarget : Used entries d target) (hvacant : Vacant C entries d s target) :
    Runs C entries d (fun t (r : Except Fault Unit) => ∀ e, r = .error e → t = s)
      (ask C (.rename source target)) s := by
  apply (runs_change (o := .rename source target) ?_).mono
  · intro t r hend e hr
    subst hr
    exact hend
  · intro t answer u ht hend
    obtain rfl : t = s := ht
    rcases effect_rename hend with rfl | ⟨node, -, rfl⟩
    · exact Kept.refl _
    · exact kept_install hsource htarget hvacant

section Install

variable {model : ModelEntry} {part destination : Name} (hd : model.sha256 = d)
  (hpart : Scratch entries d part) (hidentity : Scratch entries d (partialIdentityPath part))
  (hdestination : Used entries d destination)

include hd hdestination in
theorem runs_useVerifiedDestination (s : Directory) :
    Runs C entries d (fun t found => found = none → Vacant C entries d t destination)
      (useVerifiedDestination C model destination) s := by
  apply (runs_cacheFileState _ _ _).bind
  rintro t found ⟨rfl, hfound⟩
  apply Runs.ite
  · intro hno
    apply runs_pure
    rintro - - ⟨bytes, hfile, -⟩
    rw [hfound (by simpa using hno)] at hfile
    cases hfile
  · intro _
    apply (runs_hash _ _).bind
    rintro t actual ⟨rfl, hactual⟩
    apply Runs.ite
    · exact fun _ => runs_pure fun hnone => by cases hnone
    · intro hne
      rw [hd] at hne
      apply (runs_fresh _ _ _).bind
      rintro t target ⟨rfl, hfree⟩
      apply (runs_quarantine hdestination (hactual hne) hfree).bind
      exact fun u _ hwrong => runs_pure fun _ _ => hwrong

include hd hpart hidentity

theorem runs_verifyDownload (s : Directory) :
    Runs C entries d (fun t _ => Beyond entries d s t) (verifyDownload C model part) s := by
  apply (runs_hash _ _).bind
  rintro t actual ⟨rfl, hactual⟩
  apply Runs.ite
  · exact fun _ => runs_pure fun _ _ => rfl
  · intro hne
    rw [hd] at hne
    apply (runs_fresh _ _ _).bind
    rintro t target ⟨rfl, hfree⟩
    apply (runs_quarantine (.inl hpart) (hactual hne) hfree).bind
    intro u _ _
    exact ((calm_removeIfPresent hidentity).runs u).bind fun _ _ _ => runs_fail _

theorem runs_ensurePartial (s : Directory) :
    Runs C entries d (fun t _ => Beyond entries d s t) (ensurePartial C model part) s := by
  have hrest : ∀ s, Runs C entries d (fun t _ => Beyond entries d s t) (do
      preparePartial C model part
      downloadModel C model part
      verifyDownload C model part) s :=
    (calm_preparePartial hpart hidentity).before fun _ =>
      (calm_downloadModel hpart).before fun _ => runs_verifyDownload hd hpart hidentity
  apply (calm_cacheFileState _ _).before
  intro found t
  apply Runs.ite
  · intro _
    apply (calm_partialIdentityMatches _ _).before
    intro matched t
    apply Runs.ite
    · intro _
      apply (calm_isVerified _ _).before
      intro verified t
      exact Runs.ite (fun _ => runs_pure fun _ _ => rfl) fun _ => hrest t
    · exact fun _ => hrest t
  · exact fun _ => hrest t

include hdestination

theorem runs_recoverInstallError (renameError : Fault) (s : Directory) :
    Runs C entries d (fun _ _ => True)
      (recoverInstallError C model part destination renameError) s := by
  have hrun : ∀ {p : Task C Unit}, Calm C entries d p → ∀ s, Runs C entries d (fun _ _ => True) p s :=
    fun hp s => (hp.runs s).mono fun _ _ _ => trivial
  apply (runs_cacheFileState _ _ _).bind
  rintro t found -
  apply Runs.ite
  · intro _
    have hfail : Runs C entries d (fun _ (_ : Unit) => False) (Prog.fail renameError) t := runs_fail _
    exact hfail.bind fun _ _ hend => hend.elim
  · intro _
    apply (runs_hash _ _).bind
    rintro t actual ⟨rfl, hactual⟩
    apply Runs.ite
    · exact fun _ => hrun ((calm_removeIfPresent hpart).bind fun _ => calm_removeIfPresent hidentity) _
    · intro hne
      rw [hd] at hne
      apply (runs_fresh _ _ _).bind
      rintro t target ⟨rfl, hfree⟩
      apply (runs_quarantine hdestination (hactual hne) hfree).bind
      intro u _ hwrong
      apply (runs_install hpart hdestination fun _ => hwrong).bind
      intro v r _
      cases r with
      | ok value => exact hrun (calm_removeIfPresent hidentity) _
      | error e => exact runs_fail _

theorem runs_installVerifiedPartial (hvacant : Vacant C entries d s destination) :
    Runs C entries d (fun _ _ => True) (installVerifiedPartial C model part destination) s := by
  apply (runs_install hpart hdestination hvacant).bind
  intro t r _
  cases r with
  | ok value => exact ((calm_removeIfPresent hidentity).runs t).mono fun _ _ _ => trivial
  | error e => exact runs_recoverInstallError hd hpart hidentity hdestination e t

end Install

/-! ## What a process returns -/

/-- The process holds the shared lock, and the file it names has the digest. -/
def Leased (C : Codecs) (d : Digest) (hold : Hold) (t : Directory) (a : VerifiedArtifact) : Prop :=
  hold = .shared ∧ a.sha256 = d ∧ Verified C d t a.path

/-- A process that fails has no lock. -/
def Unlocked (hold : Hold) (_ : Directory) (_ : Fault) : Prop := hold = .free

section Lease

variable {model : ModelEntry} {destination : Name} (hd : model.sha256 = d)

include hd

theorem verifiedDestination_meets (s : Directory) :
    (verifiedDestination C model destination).Meets (Kept C entries d)
      (fun hold t found => hold = .shared ∧ ∀ path, found = some path → Verified C d t path)
      (fun hold _ _ => hold = .shared) .shared s := by
  apply Prog.Meets.bind
  apply Prog.Meets.mono (cacheFileState_meets Kept.refl (by simp) destination "model artifact" s)
  · rintro hold t found ⟨rfl, rfl, hfound⟩
    split
    · exact Prog.meets_pure fun u _ => ⟨rfl, fun path hpath => by cases hpath⟩
    · rename_i hyes
      rw [if_pos (by simpa using hyes)] at hfound
      obtain ⟨bytes, hfile⟩ := hfound
      apply Prog.Meets.bind
      refine Prog.meets_read ?_ Kept.refl ?_
      · exact trivial
      intro u answer hu hop
      obtain rfl := hu (by simp)
      cases answer with
      | error e => exact fun v _ => rfl
      | ok actual =>
        intro v hv w hw
        obtain rfl := hv (by simp)
        obtain rfl := hw (by simp)
        refine ⟨rfl, ?_⟩
        intro path hpath
        split at hpath
        · rename_i heq
          cases hpath
          exact ⟨bytes, hfile, (hop.2 bytes hfile).symm.trans (heq.trans hd)⟩
        · cases hpath
  · exact fun _ _ _ hend => hend.1

theorem verifiedDestinationWithSharedLock_meets (s : Directory) :
    (verifiedDestinationWithSharedLock C model destination).Meets (Kept C entries d)
      (fun hold t found => (found = none → hold = .free) ∧
        ∀ artifact, found = some artifact → Leased C d hold t artifact)
      Unlocked .free s := by
  apply Prog.Meets.bind
  refine ⟨rfl, fun t => ⟨?_, fun u _ => rfl⟩⟩
  intro u _
  apply Prog.Meets.bind
  apply Prog.Meets.attempt
  apply Prog.Meets.mono (verifiedDestination_meets hd u)
  · rintro hold v found ⟨rfl, hfound⟩
    cases found with
    | none => exact fun w x _ => ⟨fun _ => rfl, fun artifact hartifact => by cases hartifact⟩
    | some path =>
      intro w hw
      obtain rfl := hw (by simp)
      refine ⟨fun hnone => absurd hnone (by simp), ?_⟩
      rintro artifact ⟨⟩
      exact ⟨rfl, hd, hfound path rfl⟩
  · exact fun hold v e _ w x _ => rfl

theorem ensureModelWithExclusiveLock_meets (hmodel : model ∈ entries)
    (hdestination : destination = model.artifact) (s : Directory) :
    (ensureModelWithExclusiveLock C model destination).Meets (Kept C entries d) (Leased C d) Unlocked
      .free s := by
  have hpart : Scratch entries d (partialPath destination) :=
    ⟨model, hmodel, hd, .inl (hdestination ▸ rfl)⟩
  have hidentity : Scratch entries d (partialIdentityPath (partialPath destination)) :=
    ⟨model, hmodel, hd, .inr (hdestination ▸ rfl)⟩
  have hused : Used entries d destination := .inr ⟨model, hmodel, hd, hdestination⟩
  have hrepair : ∀ s, Runs C entries d (fun _ _ => True) (do
      if (← useVerifiedDestination C model destination).isSome then return false
      ensurePartial C model (partialPath destination)
      installVerifiedPartial C model (partialPath destination) destination
      return true) s := by
    intro s
    apply (runs_useVerifiedDestination hd hused s).bind
    intro t found hvacant
    apply Runs.ite
    · exact fun _ => runs_pure trivial
    · intro hnone
      apply (runs_ensurePartial hd hpart hidentity t).bind
      intro u _ htu
      have hvacant : Vacant C entries d u destination := (hvacant (by simpa using hnone)).beyond htu
      apply (runs_installVerifiedPartial hd hpart hidentity hused hvacant).bind
      exact fun _ _ _ => runs_pure trivial
  apply Prog.Meets.bind
  refine ⟨rfl, fun t => ⟨?_, fun u _ => rfl⟩⟩
  intro u _
  apply Prog.Meets.bind
  apply Prog.Meets.releasing
  apply Prog.Meets.mono (hrepair u)
  · intro hold v repaired _ w
    apply Prog.Meets.bind
    apply Prog.Meets.mono (verifiedDestinationWithSharedLock_meets hd w)
    · rintro hold x found ⟨hnone, hsome⟩
      cases found with
      | none =>
        intro y _
        exact hnone rfl
      | some artifact =>
        intro y hy
        have hleased := hsome artifact rfl
        rwa [hy (by simp [hleased.1])]
    · exact fun _ _ _ h => h
  · exact fun hold v e _ w => rfl

theorem ensureModel_meets (hmodel : model ∈ entries) (s : Directory) :
    (ensureModel C model).Meets (Kept C entries d) (Leased C d) Unlocked .free s := by
  apply Prog.Meets.bind
  apply Prog.Meets.mono (verifiedDestinationWithSharedLock_meets hd s)
  · rintro hold t found ⟨hnone, hsome⟩
    cases found with
    | none =>
      obtain rfl := hnone rfl
      exact ensureModelWithExclusiveLock_meets hd hmodel rfl t
    | some artifact =>
      intro u hu
      have hleased := hsome artifact rfl
      rwa [hu (by simp [hleased.1])]
  · exact fun _ _ _ h => h

end Lease

/-! ## Every run of processes -/

/-- A process of the directory of a digest ensures a model that has it. -/
def Ensures (C : Codecs) (entries : Set ModelEntry) (k : Digest) (p : Task C VerifiedArtifact) : Prop :=
  ∃ model ∈ entries, model.sha256 = k ∧ p = ensureModel C model

abbrev Cache (C : Codecs) := World (files C.sha256) Digest Nat Fault VerifiedArtifact

variable {w w' : Cache C}

theorem ensures_meets (k : Digest) (p : Task C VerifiedArtifact) (h : Ensures C entries k p)
    (s : Directory) : p.Meets (Kept C entries k) (Leased C k) Unlocked .free s := by
  obtain ⟨model, hmodel, hk, rfl⟩ := h
  exact ensureModel_meets hk hmodel s

theorem cache_sound (hempty : ∀ i, w.process i = none)
    (hrun : Relation.ReflTransGen (World.Step (Ensures C entries)) w w') :
    World.Sound (Kept C entries) (Leased C) (fun _ => Unlocked) w' :=
  World.sound_run ensures_meets hempty hrun

/-- The digest of a file without bytes. -/
def emptyDigest : Digest := "e3b0c44298fc1c149afbf4c8996fb92427ae41e4649b934ca495991b7852b855".toList

/-- What is asked of the codecs when every file is empty. -/
def emptyCodecs : Codecs := ⟨fun _ => emptyDigest, fun _ => [], fun _ => none⟩

def emptyModel : ModelEntry := ⟨"empty", "empty.gguf".toList, "file:///empty.gguf", emptyDigest⟩

def emptyCache : Cache emptyCodecs where
  store := fun _ => update (fun _ => none) emptyModel.artifact (some (.file []))
  process := fun _ => none

theorem emptyCache_run : ∃ w', Relation.ReflTransGen
    (World.Step (Ensures emptyCodecs {emptyModel})) emptyCache w' ∧
    w'.process 0 = some ⟨emptyDigest, .shared, .done ⟨emptyModel.artifact, emptyDigest⟩⟩ := by
  have hbegin : World.Step (Ensures emptyCodecs {emptyModel}) emptyCache
      (emptyCache.move 0 ⟨emptyDigest, .free, ensureModel emptyCodecs emptyModel⟩) :=
    .begin 0 emptyDigest _ rfl ⟨emptyModel, rfl, rfl, rfl⟩
  refine ⟨_, .tail (.tail (.tail (.tail .refl hbegin)
    (.grant 0 emptyDigest .free .shared _ rfl ?_))
    (World.Step.answer (I := files emptyCodecs.sha256) 0 emptyDigest .shared (Op.state emptyModel.artifact)
      _ (Except.ok .file : Except Fault Kind) _ rfl ⟨rfl, rfl⟩))
    (World.Step.answer (I := files emptyCodecs.sha256) 0 emptyDigest .shared (Op.hash emptyModel.artifact)
      _ (Except.ok emptyDigest : Except Fault Digest) _ rfl ⟨rfl, ?_⟩), ?_⟩
  · intro j p hj hp
    rcases World.process_move hp with ⟨heq, -⟩ | ⟨-, hp⟩
    · exact absurd heq hj
    · cases hp
  · exact fun _ _ => rfl
  · rfl

end Leone.Registry
