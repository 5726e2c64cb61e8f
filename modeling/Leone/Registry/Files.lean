import Leone.Framework.Sharing

/-!
# The directory of a cached model

The files of one digest are in one directory, which no others than the processes that share it under an
advisory lock change. An operation on a file may fail at any time, and one that writes may leave a part of
what it writes.
-/

namespace Leone.Registry

open Framework Function

abbrev Name := List Char

abbrev Bytes := List UInt8

/-- The hexadecimal text of a SHA-256 value. -/
abbrev Digest := List Char

inductive Kind | file | link | directory
  deriving DecidableEq, Repr

inductive Node
  | file (bytes : Bytes)
  | link
  | directory

def Node.kind : Node → Kind
  | file _ => .file
  | link => .link
  | directory => .directory

abbrev Directory := Name → Option Node

/-- What an operation or a check fails with. Its text has neither the path nor the error of the system. -/
inductive Fault
  | notFound
  | system
  | invalid (text : String)
  deriving DecidableEq, Repr

/-! ## Names -/

/-- The name up to its last dot, and what is behind the dot. A leading dot begins no extension. -/
def splitExtension (name : Name) : Name × Option Name :=
  let behind := name.reverse.takeWhile (· ≠ '.')
  let before := (name.reverse.dropWhile (· ≠ '.')).drop 1
  if before = [] then (name, none) else (before.reverse, some behind.reverse)

def extension (name : Name) : Name := (splitExtension name).2.getD "model".toList

def withExtension (name ext : Name) : Name := (splitExtension name).1 ++ '.' :: ext

/-- The name of a partial download. -/
def partialPath (destination : Name) : Name :=
  withExtension destination (extension destination ++ ".part".toList)

def partialIdentityPath (part : Name) : Name := withExtension part (extension part ++ ".meta".toList)

example : partialIdentityPath (partialPath "model.gguf".toList) = "model.gguf.part.meta".toList := by
  decide

/-- The names that `quarantine_path` tries. -/
def quarantineName (name : Name) (digest : Digest) (counter : Nat) : Name :=
  let first := name ++ ".invalid-".toList ++ digest.take 12
  if counter = 0 then first else first ++ '-' :: (toString counter).toList

/-! ## Operations -/

inductive Op
  | state (name : Name)
  | hash (name : Name)
  | load (name : Name)
  | length (name : Name)
  | fresh (name : Name) (digest : Digest)
  | rename (source target : Name)
  | remove (name : Name)
  | create (name : Name)
  | write (name : Name) (bytes : Bytes)
  | copy (source : String) (name : Name)
  | curl (url : String) (name : Name)

def Op.Answer : Op → Type
  | state _ => Except Fault Kind
  | hash _ => Except Fault Digest
  | load _ => Except Fault Bytes
  | length _ => Except Fault Nat
  | fresh _ _ => Name
  | _ => Except Fault Unit

def Op.Reads : Op → Prop
  | state _ | hash _ | load _ | length _ | fresh _ _ => True
  | _ => False

/-- A file is written in place. A directory cannot be, and what a link leads to is elsewhere. -/
def Put (name : Name) (content : Bytes → Prop) (s t : Directory) : Prop :=
  s name ≠ some .link ∧ s name ≠ some .directory ∧
    ∃ bytes, content bytes ∧ t = update s name (some (.file bytes))

/-- What an operation answers and leaves. A link may lead to any file. -/
def Op.Effect (sha256 : Bytes → Digest) : (op : Op) → Directory → Option op.Answer → Directory → Prop
  | state name, s, some (.ok kind), t => t = s ∧ (s name).map Node.kind = some kind
  | state name, s, some (.error .notFound), t => t = s ∧ s name = none
  | hash name, s, some (.ok digest), t =>
    t = s ∧ ∀ bytes, s name = some (.file bytes) → digest = sha256 bytes
  | load name, s, some (.ok content), t => t = s ∧ ∀ bytes, s name = some (.file bytes) → content = bytes
  | length name, s, some (.ok count), t =>
    t = s ∧ ∀ bytes, s name = some (.file bytes) → count = bytes.length
  | fresh name digest, s, some target, t =>
    t = s ∧ (∃ counter, target = quarantineName name digest counter) ∧
      ∀ bytes, s target ≠ some (.file bytes)
  | rename source target, s, some (.ok _), t =>
    ∃ node, s source = some node ∧ s target ≠ some .directory ∧
      t = update (update s source none) target (some node)
  | remove name, s, some (.ok _), t =>
    s name ≠ none ∧ s name ≠ some .directory ∧ t = update s name none
  | remove name, s, some (.error .notFound), t => t = s ∧ s name = none
  | create name, s, some (.ok _), t => s name = none ∧ t = update s name (some (.file []))
  | write name bytes, s, some (.ok _), t => Put name (· = bytes) s t ∨ s name = some .link ∧ t = s
  | write name bytes, s, _, t => t = s ∨ Put name (· <+: bytes) s t
  | copy _ name, s, _, t => t = s ∨ Put name (fun _ => True) s t
  | curl _ name, s, _, t => t = s ∨ Put name (fun _ => True) s t
  | _, s, _, t => t = s

theorem Put.trans {name : Name} {content content' : Bytes → Prop} {s t u : Directory}
    (h : Put name content s t) (h' : Put name content' t u) : Put name content' s u := by
  obtain ⟨hlink, hdirectory, bytes, -, rfl⟩ := h
  obtain ⟨-, -, bytes', hcontent, rfl⟩ := h'
  exact ⟨hlink, hdirectory, bytes', hcontent, by rw [update_idem]⟩

theorem Op.begun (sha256 : Bytes → Digest) (op : Op) (s : Directory) :
    op.Effect sha256 s none s := by
  cases op with
  | write | copy | curl => exact .inl rfl
  | state | hash | load | length | fresh | rename | remove | create => rfl

theorem Op.unchanged {sha256 : Bytes → Digest} {op : Op} {s t : Directory}
    {answer : Option op.Answer} (hreads : op.Reads) (h : op.Effect sha256 s answer t) : t = s := by
  cases answer with
  | none =>
    cases op with
    | state | hash | load | length | fresh => exact h
    | rename | remove | create | write | copy | curl => exact hreads.elim
  | some answer =>
    cases op with
    | state name =>
      cases answer with
      | ok kind => exact h.1
      | error e =>
        cases e with
        | notFound => exact h.1
        | system | invalid => exact h
    | hash | load | length =>
      cases answer with
      | ok value => exact h.1
      | error e => exact h
    | fresh => exact h.1
    | rename | remove | create | write | copy | curl => exact hreads.elim

theorem Op.further {sha256 : Bytes → Digest} {op : Op} {s t u : Directory}
    {answer : Option op.Answer} (h : op.Effect sha256 s none t) (h' : op.Effect sha256 t answer u) :
    op.Effect sha256 s answer u := by
  cases op with
  | state | hash | load | length | fresh | rename | remove | create =>
    obtain rfl : t = s := h
    exact h'
  | copy source name | curl source name =>
    rcases h with rfl | hput
    · exact h'
    · rcases h' with rfl | hput'
      · exact .inr hput
      · exact .inr (hput.trans hput')
  | write name bytes =>
    rcases h with rfl | hput
    · exact h'
    · cases answer with
      | none =>
        rcases h' with rfl | hput'
        · exact .inr hput
        · exact .inr (hput.trans hput')
      | some answer =>
        cases answer with
        | ok value =>
          rcases h' with hput' | ⟨hlink, rfl⟩
          · exact .inl (hput.trans hput')
          · obtain ⟨-, -, written, -, rfl⟩ := hput
            rw [update_self] at hlink
            cases hlink
        | error e =>
          rcases h' with rfl | hput'
          · exact .inr hput
          · exact .inr (hput.trans hput')

/-- The operations on the directory of a digest. -/
def files (sha256 : Bytes → Digest) : Interface Directory where
  Op := Op
  Answer := Op.Answer
  Effect := Op.Effect sha256
  Reads := Op.Reads
  begun := Op.begun sha256
  further := Op.further
  unchanged := Op.unchanged

end Leone.Registry
