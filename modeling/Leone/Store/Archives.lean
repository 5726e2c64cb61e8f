import Leone.Framework.Largest
import Leone.Framework.Machine
import Leone.Framework.Method
import Mathlib

/-!
# Session archives at startup

The server reads the stored session references, caches the most recently used ones and takes up the
clock where the last run left it.
-/

namespace Leone.Store

open Framework

structure StoredArchive where
  blobSha256 : String
  lastUsed : UInt64
  deriving DecidableEq, Repr

structure LoadedSessionArchive where
  sessionId : String
  archive : StoredArchive
  deriving DecidableEq, Repr

def archiveOrder (archive : LoadedSessionArchive) : ℕ ×ₗ String :=
  toLex (archive.archive.lastUsed.toNat, archive.sessionId)

def cacheSessionArchive (cached : List LoadedSessionArchive) (cacheLimit : Nat)
    (loaded : LoadedSessionArchive) : List LoadedSessionArchive :=
  if cacheLimit = 0 then cached
  else if cached.length < cacheLimit then cached ++ [loaded]
  else
    match cached.zipIdx.argmin fun entry => archiveOrder entry.1 with
    | none => cached
    | some (archive, oldest) =>
      if archiveOrder archive < archiveOrder loaded then cached.set oldest loaded else cached

section Load

variable {ε : Type}

/-- Reads one entry of the directory. Entries that are no references have no archive. -/
def loadEntry (cacheLimit : Nat) (state : List LoadedSessionArchive × UInt64)
    (entry : Except ε (Option LoadedSessionArchive)) :
    Except ε (List LoadedSessionArchive × UInt64) := do
  match ← entry with
  | none => return state
  | some loaded =>
    return (cacheSessionArchive state.1 cacheLimit loaded, max state.2 loaded.archive.lastUsed)

def loadSessionArchives (entries : List (Except ε (Option LoadedSessionArchive)))
    (cacheLimit : Nat) : Except ε (List LoadedSessionArchive × UInt64) :=
  if cacheLimit = 0 then .ok ([], 0) else entries.foldlM (loadEntry cacheLimit) ([], 0)

end Load

/-- The clock of a server that starts with the cached archives. -/
def serverClock (archives : List LoadedSessionArchive) : UInt64 :=
  ((archives.map fun archive => archive.archive.lastUsed).max?).getD 0

/-! ## The cache -/

theorem lastUsed_le {archive archive' : LoadedSessionArchive}
    (h : archiveOrder archive ≤ archiveOrder archive') :
    archive.archive.lastUsed ≤ archive'.archive.lastUsed := by
  rw [UInt64.le_iff_toNat_le]
  rcases Prod.Lex.le_iff.mp h with hlt | heq
  · exact hlt.le
  · exact heq.1.le

/-- Archives of different sessions have different places in the order. -/
theorem nodup_archiveOrder {archives : List LoadedSessionArchive}
    (h : (archives.map LoadedSessionArchive.sessionId).Nodup) :
    (archives.map archiveOrder).Nodup := by
  have hid : (fun archive => (ofLex (archiveOrder archive)).2) = LoadedSessionArchive.sessionId := rfl
  rw [← hid] at h
  apply List.Nodup.of_map fun order : ℕ ×ₗ String => (ofLex order).2
  rw [List.map_map]
  exact h

theorem cacheSessionArchive_largest {limit : Nat} {seen cached : List LoadedSessionArchive}
    (h : Largest archiveOrder limit seen cached) (hlimit : limit ≠ 0)
    (loaded : LoadedSessionArchive) :
    Largest archiveOrder limit (loaded :: seen) (cacheSessionArchive cached limit loaded) := by
  rw [cacheSessionArchive, if_neg hlimit]
  split_ifs with hroom
  · exact h.push hroom loaded
  · have hlength := h.length
    have hfull : cached.length = limit := by omega
    cases holdest : cached.zipIdx.argmin fun entry => archiveOrder entry.1 with
    | none =>
      rw [List.argmin_eq_none, List.zipIdx_eq_nil_iff] at holdest
      rw [holdest] at hfull
      exact absurd hfull.symm hlimit
    | some entry =>
      rcases entry with ⟨archive, oldest⟩
      have hget : cached[oldest]? = some archive :=
        List.mem_zipIdx_iff_getElem?.mp (List.argmin_mem holdest)
      rcases List.getElem?_eq_some_iff.mp hget with ⟨hslot, harchive⟩
      have hleast : ∀ a ∈ cached, archiveOrder archive ≤ archiveOrder a := by
        intro a ha
        rcases List.mem_iff_getElem?.mp ha with ⟨slot, hat⟩
        exact List.le_of_mem_argmin (a := (a, slot)) (List.mem_zipIdx_iff_getElem?.mpr hat) holdest
      dsimp only
      split_ifs with hnewer
      · rw [← harchive] at hleast hnewer
        exact h.replace hfull hslot hleast hnewer
      · apply h.drop hfull
        intro a ha
        exact (not_lt.mp hnewer).trans (hleast a ha)

/-! ## The clock -/

/-- The latest use of the archives, or zero. -/
structure IsClock (archives : List LoadedSessionArchive) (clock : UInt64) : Prop where
  bound : ∀ archive ∈ archives, archive.archive.lastUsed ≤ clock
  reached : clock = 0 ∨ ∃ archive ∈ archives, archive.archive.lastUsed = clock

theorem max_eq (a b : UInt64) : max a b = if a ≤ b then b else a := rfl

instance lawfulOrderMax_u64 : Std.LawfulOrderMax UInt64 where
  max_eq_or a b := by
    rw [max_eq]
    split_ifs
    · exact .inr rfl
    · exact .inl rfl
  max_le_iff a b c := by
    rw [max_eq]
    split_ifs with hle
    · exact ⟨fun h => ⟨UInt64.le_trans hle h, h⟩, And.right⟩
    · have hge := (UInt64.le_total a b).resolve_left hle
      exact ⟨fun h => ⟨h, UInt64.le_trans hge h⟩, And.left⟩

theorem isClock_nil : IsClock [] 0 := ⟨nofun, .inl rfl⟩

theorem IsClock.cons {archives : List LoadedSessionArchive} {clock : UInt64}
    (h : IsClock archives clock) (loaded : LoadedSessionArchive) :
    IsClock (loaded :: archives) (max clock loaded.archive.lastUsed) := by
  rw [max_eq]
  split_ifs with hlater
  · constructor
    · intro archive harchive
      rcases List.mem_cons.mp harchive with rfl | harchive
      · exact UInt64.le_refl _
      · exact UInt64.le_trans (h.bound archive harchive) hlater
    · exact .inr ⟨loaded, List.mem_cons_self, rfl⟩
  · constructor
    · intro archive harchive
      rcases List.mem_cons.mp harchive with rfl | harchive
      · exact (UInt64.le_total _ _).resolve_right hlater
      · exact h.bound archive harchive
    · rcases h.reached with hzero | ⟨archive, harchive, hclock⟩
      · exact .inl hzero
      · exact .inr ⟨archive, List.mem_cons_of_mem loaded harchive, hclock⟩

theorem IsClock.perm {archives archives' : List LoadedSessionArchive} {clock : UInt64}
    (h : IsClock archives clock) (hperm : archives.Perm archives') : IsClock archives' clock where
  bound archive harchive := h.bound archive (hperm.mem_iff.mpr harchive)
  reached := h.reached.imp_right fun ⟨archive, harchive, hclock⟩ =>
    ⟨archive, hperm.mem_iff.mp harchive, hclock⟩

theorem IsClock.unique {archives : List LoadedSessionArchive} {clock clock' : UInt64}
    (h : IsClock archives clock) (h' : IsClock archives clock') : clock = clock' := by
  have hle : ∀ {clock clock' : UInt64}, IsClock archives clock → IsClock archives clock' →
      clock ≤ clock' := by
    intro clock clock' h h'
    rcases h.reached with rfl | ⟨archive, harchive, rfl⟩
    · exact UInt64.zero_le
    · exact h'.bound archive harchive
  exact UInt64.le_antisymm (hle h h') (hle h' h)

/-- The clock of a server is the latest use of the archives it has. -/
theorem isClock_serverClock (archives : List LoadedSessionArchive) :
    IsClock archives (serverClock archives) := by
  rw [serverClock]
  cases hmax : (archives.map fun archive => archive.archive.lastUsed).max? with
  | none =>
    rw [List.max?_eq_none_iff, List.map_eq_nil_iff] at hmax
    rw [hmax]
    exact isClock_nil
  | some clock =>
    rcases List.max?_eq_some_iff.mp hmax with ⟨hmem, hbound⟩
    rcases List.mem_map.mp hmem with ⟨archive, harchive, hclock⟩
    constructor
    · intro other hother
      exact hbound _ (List.mem_map_of_mem hother)
    · exact .inr ⟨archive, harchive, hclock⟩

/-- The largest archives have the latest use. -/
theorem IsClock.of_largest {limit : Nat} {archives cached : List LoadedSessionArchive}
    {clock : UInt64} (h : IsClock archives clock) (hlimit : limit ≠ 0)
    (hlargest : Largest archiveOrder limit archives cached) : IsClock cached clock where
  bound archive harchive := h.bound archive (hlargest.mem harchive)
  reached := by
    rcases h.reached with hzero | ⟨archive, harchive, hclock⟩
    · exact .inl hzero
    · right
      have hbound := h.bound
      have hmem := fun other => hlargest.mem (a := other)
      rcases hlargest with ⟨rest, hrest, hlength, hle⟩
      rcases List.mem_append.mp (hrest.mem_iff.mp harchive) with hcached | hout
      · exact ⟨archive, hcached, hclock⟩
      · have hpos := List.length_pos_of_mem harchive
        cases cached with
        | nil => simp at hlength; omega
        | cons first others =>
          have hfirst := List.mem_cons_self (a := first) (l := others)
          refine ⟨first, hfirst, UInt64.le_antisymm (hbound first (hmem first hfirst)) ?_⟩
          rw [← hclock]
          exact lastUsed_le (hle first hfirst archive hout)

/-! ## Loading -/

section Load

variable {ε : Type}

theorem foldlM_loadEntry {limit : Nat} (hlimit : limit ≠ 0)
    {found : List (Option LoadedSessionArchive)} {seen cached : List LoadedSessionArchive}
    {clock : UInt64} (hlargest : Largest archiveOrder limit seen cached)
    (hclock : IsClock seen clock) :
    ∃ cached' clock', (found.map Except.ok).foldlM (loadEntry (ε := ε) limit) (cached, clock) =
        .ok (cached', clock') ∧
      Largest archiveOrder limit (found.reduceOption ++ seen) cached' ∧
      IsClock (found.reduceOption ++ seen) clock' := by
  induction found generalizing seen cached clock with
  | nil => exact ⟨cached, clock, rfl, hlargest, hclock⟩
  | cons entry found ih =>
    cases entry with
    | none =>
      rw [List.map_cons, List.foldlM_cons, List.reduceOption_cons_of_none]
      exact ih hlargest hclock
    | some loaded =>
      have hnext := cacheSessionArchive_largest hlargest hlimit loaded
      rcases ih hnext (hclock.cons loaded) with ⟨cached', clock', hfold, hlargest', hclock'⟩
      have hperm : (found.reduceOption ++ loaded :: seen).Perm
          ((some loaded :: found).reduceOption ++ seen) := by
        rw [List.reduceOption_cons_of_some]
        exact List.perm_middle
      rw [List.map_cons, List.foldlM_cons]
      exact ⟨cached', clock', hfold, hlargest'.perm hperm, hclock'.perm hperm⟩

/-- Loading leaves the largest archives of the directory and the clock of all of them. -/
theorem loadSessionArchives_eq_ok {limit : Nat} (hlimit : limit ≠ 0)
    (found : List (Option LoadedSessionArchive)) :
    ∃ cached clock, loadSessionArchives (ε := ε) (found.map Except.ok) limit = .ok (cached, clock) ∧
      Largest archiveOrder limit found.reduceOption cached ∧
      IsClock found.reduceOption clock := by
  rw [loadSessionArchives, if_neg hlimit]
  have hload : ∃ cached clock,
      (found.map Except.ok).foldlM (loadEntry (ε := ε) limit) ([], 0) = .ok (cached, clock) ∧
        Largest archiveOrder limit (found.reduceOption ++ []) cached ∧
        IsClock (found.reduceOption ++ []) clock :=
    foldlM_loadEntry hlimit largest_nil isClock_nil
  rwa [List.append_nil] at hload

end Load

/-! ## The server -/

/-- The clock of a server and the references its store has. -/
structure Server where
  clock : UInt64
  references : List LoadedSessionArchive

def Server.tick (server : Server) : Server :=
  { server with clock := UInt64.ofNat (saturatingAdd 64 server.clock.toNat 1) }

/-- The archive of a session that is persisted next. -/
def Server.persisted (server : Server) (sessionId blobSha256 : String) : LoadedSessionArchive :=
  ⟨sessionId, blobSha256, server.tick.clock⟩

inductive Event
  /-- A write that fails may have put the reference in place. -/
  | persistChatSession (sessionId blobSha256 : String) (written : Bool)
  | wakeForkParent
  | retainFailedSession
  | discardSession (sessionId : String) (removed : Bool)

def withoutSession (sessionId : String) (references : List LoadedSessionArchive) :
    List LoadedSessionArchive :=
  references.filter fun reference => reference.sessionId ≠ sessionId

def step (server : Server) : Event → Server
  | .persistChatSession sessionId blobSha256 written =>
    if written then
      { server.tick with
        references := server.persisted sessionId blobSha256 ::
          withoutSession sessionId server.references }
    else server.tick
  | .wakeForkParent | .retainFailedSession => server.tick
  | .discardSession sessionId removed =>
    if removed then { server with references := withoutSession sessionId server.references }
    else server

/-- The server that starts with the cached archives of a directory. -/
def startup (archives cached : List LoadedSessionArchive) : Server :=
  ⟨serverClock cached, archives⟩

/-- What is persisted before the clock saturates is later than everything stored. -/
def Later (server : Server) : Event → Prop
  | .persistChatSession sessionId blobSha256 _ =>
    server.clock.toNat + 1 < 2 ^ 64 → ∀ reference ∈ server.references,
      reference.archive.lastUsed < (server.persisted sessionId blobSha256).archive.lastUsed
  | _ => True

/-- No reference is later than the clock. -/
def Server.Dated (server : Server) : Prop :=
  ∀ reference ∈ server.references, reference.archive.lastUsed ≤ server.clock

theorem toNat_tick (server : Server) :
    server.tick.clock.toNat = saturatingAdd 64 server.clock.toNat 1 := by
  have hlt := server.clock.toNat_lt
  apply UInt64.toNat_ofNat_of_lt'
  show saturatingAdd 64 server.clock.toNat 1 < 2 ^ 64
  rw [saturatingAdd]
  omega

theorem clock_le_tick (server : Server) : server.clock ≤ server.tick.clock := by
  have hlt := server.clock.toNat_lt
  rw [UInt64.le_iff_toNat_le, toNat_tick, saturatingAdd]
  omega

theorem Server.Dated.tick {server : Server} (h : server.Dated) : server.tick.Dated := by
  intro reference hreference
  exact UInt64.le_trans (h reference hreference) (clock_le_tick server)

theorem Server.Dated.step {server : Server} (h : server.Dated) (event : Event) :
    (step server event).Dated := by
  cases event with
  | wakeForkParent => exact h.tick
  | retainFailedSession => exact h.tick
  | discardSession sessionId removed =>
    cases removed with
    | false => exact h
    | true =>
      intro reference hreference
      exact h reference (List.mem_of_mem_filter hreference)
  | persistChatSession sessionId blobSha256 written =>
    cases written with
    | false => exact h.tick
    | true =>
      intro reference hreference
      rcases List.mem_cons.mp hreference with rfl | hreference
      · exact UInt64.le_refl _
      · exact h.tick reference (List.mem_of_mem_filter hreference)

theorem Server.Dated.later {server : Server} (h : server.Dated) (event : Event) :
    Later server event := by
  cases event with
  | persistChatSession sessionId blobSha256 written =>
    intro hclock reference hreference
    have hle := UInt64.le_iff_toNat_le.mp (h reference hreference)
    rw [UInt64.lt_iff_toNat_lt, Server.persisted, toNat_tick, saturatingAdd]
    omega
  | wakeForkParent => trivial
  | retainFailedSession => trivial
  | discardSession sessionId removed => trivial

/-- A server that starts with a cache for at least one session has the most recently used sessions of
the directory in any order, and its clock goes on from the latest use. -/
theorem startup_newest {ε : Type} (limit : Nat) (hlimit : limit ≠ 0)
    (found : List (Option LoadedSessionArchive))
    (hdistinct : (found.reduceOption.map LoadedSessionArchive.sessionId).Nodup) :
    ∃ cached clock, loadSessionArchives (ε := ε) (found.map Except.ok) limit = .ok (cached, clock) ∧
      Largest archiveOrder limit found.reduceOption cached ∧
      IsClock found.reduceOption clock ∧ serverClock cached = clock ∧
      (∀ found' : List (Option LoadedSessionArchive),
        found'.reduceOption.Perm found.reduceOption →
        ∃ cached', loadSessionArchives (ε := ε) (found'.map Except.ok) limit = .ok (cached', clock) ∧
          cached'.Perm cached) ∧
      ∀ events, Along step Later (startup found.reduceOption cached) events := by
  rcases loadSessionArchives_eq_ok (ε := ε) hlimit found with ⟨cached, clock, hload, hlargest, hclock⟩
  have hserver : serverClock cached = clock :=
    (isClock_serverClock cached).unique (hclock.of_largest hlimit hlargest)
  refine ⟨cached, clock, hload, hlargest, hclock, hserver, ?_, ?_⟩
  · intro found' hperm
    rcases loadSessionArchives_eq_ok (ε := ε) hlimit found' with
      ⟨cached', clock', hload', hlargest', hclock'⟩
    obtain rfl := hclock.unique (hclock'.perm hperm)
    exact ⟨cached', hload', hlargest.unique (hlargest'.perm hperm) (nodup_archiveOrder hdistinct)⟩
  · intro events
    have hdated : (startup found.reduceOption cached).Dated := by
      intro reference hreference
      rw [startup, hserver]
      exact hclock.bound reference hreference
    exact along_of_inductive hdated (fun _ event h => h.step event) (fun _ event h => h.later event)
      events

/-- Two archives used at one time and a temporary file between them. -/
def directory : List (Option LoadedSessionArchive) :=
  [some ⟨"left", "3f", 5⟩, none, some ⟨"right", "a0", 5⟩, some ⟨"older", "77", 4⟩]

theorem startup_newest_directory : ∃ cached clock,
    loadSessionArchives (ε := Unit) (directory.map Except.ok) 2 = .ok (cached, clock) ∧
      Largest archiveOrder 2 directory.reduceOption cached ∧ serverClock cached = clock :=
  let ⟨cached, clock, hload, hlargest, _, hserver, _⟩ :=
    startup_newest (ε := Unit) 2 (by decide) directory (by decide)
  ⟨cached, clock, hload, hlargest, hserver⟩

/-- With no place for a session nothing is read. -/
theorem startup_no_limit : ∃ cached clock,
    loadSessionArchives (ε := Unit) (directory.map Except.ok) 0 = .ok (cached, clock) ∧
      ¬ IsClock directory.reduceOption clock := by
  refine ⟨[], 0, rfl, ?_⟩
  intro h
  exact absurd (h.bound ⟨"left", "3f", 5⟩ (by decide)) (by decide)

end Leone.Store
