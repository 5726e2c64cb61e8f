import Leone.State.Allocator

/-!
# The ledger of the state allocator

The used bytes are those of the live allocations, and what the calls of a run report determines
which allocations are live.
-/

namespace Leone.State

open Framework Framework.Method SortedMap

namespace StateAllocator

/-- The bytes of the live allocations. -/
def liveBytes (s : StateAllocator) : Nat := sumBy StateAllocation.bytes s.allocations

structure Sound (s : StateAllocator) : Prop where
  used : s.usedBytes = s.liveBytes
  capacity : s.usedBytes ≤ s.capacityBytes
  keyed : ∀ id allocation, s.allocations.get? id = some allocation → allocation.id = id
  fresh : ∀ id allocation, s.allocations.get? id = some allocation → id < s.nextAllocation
  owner : ∀ id allocation transaction, s.allocations.get? id = some allocation →
    allocation.lifetime = .transactional transaction → transaction ∈ s.activeTransactions
  begun : ∀ transaction ∈ s.activeTransactions, transaction < s.nextTransaction

theorem new_sound (capacityBytes : Nat) : (new capacityBytes).Sound := by
  constructor <;> simp [new, liveBytes]

variable {s : StateAllocator}

/-! ## What each call does -/

theorem beginTransaction_ends (s : StateAllocator) :
    beginTransaction.Ends s
      (fun id s' => id = s.nextTransaction ∧ s' = { s with
        nextTransaction := id + 1
        activeTransactions := insert id s.activeTransactions })
      (fun fault s' => fault ≠ .panic ∧ s' = s) := by
  simp only [beginTransaction, ends_bind, ends_get, ends_orErr, checkedAdd_eq_some,
    ends_modify, ends_pure]
  constructor
  · intro next hnext
    rw [hnext.2]
    trivial
  · intro _
    exact ⟨Fault.error_ne_panic, trivial⟩

theorem requireActive_ends (transaction : Nat) (s : StateAllocator) :
    (requireActive transaction).Ends s
      (fun _ s' => transaction ∈ s.activeTransactions ∧ s' = s)
      (fun fault s' => transaction ∉ s.activeTransactions ∧
        fault = .error (.inactiveTransaction transaction) ∧ s' = s) := by
  simp only [requireActive, ends_bind, ends_get, ends_ensure]
  exact ⟨fun h => ⟨h, trivial⟩, fun h => ⟨h, trivial, trivial⟩⟩

theorem requireOwner_ends (lifetime : StateLifetime) (s : StateAllocator) :
    (requireOwner lifetime).Ends s
      (fun _ s' => (∀ transaction, lifetime = .transactional transaction →
        transaction ∈ s.activeTransactions) ∧ s' = s)
      (fun fault s' => fault ≠ .panic ∧ s' = s) := by
  cases lifetime with
  | committed => exact ⟨by simp, rfl⟩
  | transactional transaction =>
    apply (requireActive_ends transaction s).mono
    · intro _ s' h
      refine ⟨fun owner howner => ?_, h.2⟩
      cases howner
      exact h.1
    · intro fault s' h
      rw [h.2.1]
      exact ⟨Fault.error_ne_panic, h.2.2⟩

/-- The state with one more allocation. -/
def add (s : StateAllocator) (allocation : StateAllocation) : StateAllocator := { s with
  nextAllocation := allocation.id + 1
  allocations := s.allocations.insert allocation.id allocation
  usedBytes := s.usedBytes + allocation.bytes }

theorem allocate_ends (kind : StateKind) (bytes : Nat) (lifetime : StateLifetime)
    (s : StateAllocator) :
    (allocate kind bytes lifetime).Ends s
      (fun allocation s' => allocation = ⟨s.nextAllocation, kind, bytes, lifetime⟩ ∧
        s.usedBytes + bytes ≤ s.capacityBytes ∧
        (∀ transaction, lifetime = .transactional transaction →
          transaction ∈ s.activeTransactions) ∧
        s' = s.add allocation)
      (fun fault s' => fault ≠ .panic ∧ s' = s) := by
  simp only [allocate, ends_bind, ends_ensure, ends_get, ends_orErr, ends_modify, ends_pure,
    checkedAdd_eq_some]
  refine ⟨fun _ => ?_, fun _ => ⟨Fault.error_ne_panic, trivial⟩⟩
  apply (requireOwner_ends lifetime s).mono
  · intro _ s' h
    rw [h.2]
    refine ⟨fun used hused => ⟨fun hfits => ⟨fun next hnext => ?_, ?_⟩, ?_⟩, ?_⟩
    · rw [← hused.2] at hfits
      rw [← hnext.2, ← hused.2]
      exact ⟨rfl, hfits, h.1, rfl⟩
    all_goals
      intro _
      exact ⟨Fault.error_ne_panic, rfl⟩
  · exact fun _ _ h => h

/-- The state without one of its allocations. -/
def without (s : StateAllocator) (allocation : StateAllocation) : StateAllocator := { s with
  allocations := s.allocations.remove allocation.id
  usedBytes := s.usedBytes - allocation.bytes }

theorem Sound.bytes_le (h : s.Sound) {id : Nat} {allocation : StateAllocation}
    (hget : s.allocations.get? id = some allocation) : allocation.bytes ≤ s.usedBytes := by
  rw [h.used]
  exact le_sumBy StateAllocation.bytes hget

theorem free_ends (h : s.Sound) (id : Nat) :
    (free id).Ends s
      (fun allocation s' => s.allocations.get? id = some allocation ∧ s' = s.without allocation)
      (fun fault s' => fault ≠ .panic ∧ s.allocations.get? id = none ∧ s' = s) := by
  simp only [free, ends_bind, ends_get, ends_orErr, ends_modify, ends_orPanic, ends_pure,
    checkedSub_eq_some, checkedSub_eq_none]
  refine ⟨fun allocation hget => ⟨fun used hused => ⟨hget, ?_⟩, fun hlt => ?_⟩, fun hnone =>
    ⟨Fault.error_ne_panic, hnone, trivial⟩⟩
  · rw [without, h.keyed id allocation hget, hused.2]
  · have hle := h.bytes_le hget
    omega

theorem Sound.without (h : s.Sound) {allocation : StateAllocation}
    (hget : s.allocations.get? allocation.id = some allocation) :
    (s.without allocation).Sound := by
  have hmem : ∀ id a, (s.without allocation).allocations.get? id = some a →
      s.allocations.get? id = some a := by
    intro id a ha
    rw [StateAllocator.without, get?_remove] at ha
    split_ifs at ha
    exact ha
  have hused := h.used
  have hcapacity := h.capacity
  rw [liveBytes, sumBy_remove_add _ hget] at hused
  constructor
  · show s.usedBytes - allocation.bytes = sumBy _ (s.allocations.remove allocation.id)
    omega
  · show s.usedBytes - allocation.bytes ≤ s.capacityBytes
    omega
  · exact fun id a ha => h.keyed id a (hmem id a ha)
  · exact fun id a ha => h.fresh id a (hmem id a ha)
  · exact fun id a transaction ha => h.owner id a transaction (hmem id a ha)
  · exact h.begun

theorem Sound.add (h : s.Sound) {allocation : StateAllocation}
    (hid : allocation.id = s.nextAllocation)
    (hfits : s.usedBytes + allocation.bytes ≤ s.capacityBytes)
    (howner : ∀ transaction, allocation.lifetime = .transactional transaction →
      transaction ∈ s.activeTransactions) : (s.add allocation).Sound := by
  have hnew : s.allocations.get? allocation.id = none := by
    rw [Option.eq_none_iff_forall_not_mem]
    intro a ha
    have hlt := h.fresh _ a ha
    omega
  have hmem : ∀ id a, (s.add allocation).allocations.get? id = some a →
      id = allocation.id ∧ a = allocation ∨ s.allocations.get? id = some a := by
    intro id a ha
    rw [StateAllocator.add, get?_insert] at ha
    split_ifs at ha with heq
    · exact .inl ⟨heq, (Option.some.inj ha).symm⟩
    · exact .inr ha
  have hused := h.used
  constructor
  · show s.usedBytes + allocation.bytes = sumBy _ (s.allocations.insert allocation.id allocation)
    rw [sumBy_insert_new _ _ hnew, hused, liveBytes, Nat.add_comm]
  · exact hfits
  · intro id a ha
    rcases hmem id a ha with ⟨hkey, hvalue⟩ | hold
    · rw [hkey, hvalue]
    · exact h.keyed id a hold
  · intro id a ha
    show id < allocation.id + 1
    rcases hmem id a ha with ⟨hkey, _⟩ | hold
    · omega
    · have hlt := h.fresh id a hold
      omega
  · intro id a transaction ha hlifetime
    rcases hmem id a ha with ⟨_, hvalue⟩ | hold
    · rw [hvalue] at hlifetime
      exact howner transaction hlifetime
    · exact h.owner id a transaction hold hlifetime
  · exact h.begun

/-- The state without the allocations at some identifiers, and with other transactions. -/
theorem Sound.replace (h : s.Sound) {allocations : SortedMap Nat StateAllocation}
    {active : Finset Nat} {used next : Nat}
    (hused : used = sumBy StateAllocation.bytes allocations) (hle : used ≤ s.usedBytes)
    (hmem : ∀ id a, allocations.get? id = some a → ∃ old, s.allocations.get? id = some old ∧
      a.id = old.id ∧ ∀ transaction, a.lifetime = .transactional transaction →
        old.lifetime = .transactional transaction ∧ transaction ∈ active)
    (hbegun : ∀ transaction ∈ active, transaction < next) :
    Sound { s with allocations, activeTransactions := active, usedBytes := used
                   nextTransaction := next } := by
  constructor
  · exact hused
  · exact hle.trans h.capacity
  · intro id a ha
    obtain ⟨old, hold, hid, _⟩ := hmem id a ha
    exact hid.trans (h.keyed id old hold)
  · intro id a ha
    obtain ⟨old, hold, _⟩ := hmem id a ha
    exact h.fresh id old hold
  · intro id a transaction ha hlifetime
    obtain ⟨old, _, _, howner⟩ := hmem id a ha
    exact (howner transaction hlifetime).2
  · exact hbegun

theorem settle_bytes (transaction : Nat) (allocation : StateAllocation) :
    (settle transaction allocation).bytes = allocation.bytes := by
  unfold settle
  split_ifs <;> rfl

theorem settle_id (transaction : Nat) (allocation : StateAllocation) :
    (settle transaction allocation).id = allocation.id := by
  unfold settle
  split_ifs <;> rfl

theorem settle_lifetime {transaction owner : Nat} {allocation : StateAllocation} :
    (settle transaction allocation).lifetime = .transactional owner ↔
      allocation.lifetime = .transactional owner ∧ owner ≠ transaction := by
  unfold settle
  split_ifs with h
  · rw [h]
    simp [eq_comm]
  · constructor
    · intro howner
      refine ⟨howner, fun heq => h ?_⟩
      rw [howner, heq]
    · exact And.left

/-- The state after a commit. -/
def settled (s : StateAllocator) (transaction : Nat) : StateAllocator := { s with
  allocations := s.allocations.mapValues (settle transaction)
  activeTransactions := s.activeTransactions.erase transaction }

theorem commit_ends (transaction : Nat) (s : StateAllocator) :
    (commit transaction).Ends s
      (fun _ s' => transaction ∈ s.activeTransactions ∧ s' = s.settled transaction)
      (fun fault s' => transaction ∉ s.activeTransactions ∧
        fault = .error (.inactiveTransaction transaction) ∧ s' = s) := by
  simp only [commit, ends_bind, ends_modify]
  apply (requireActive_ends transaction s).mono
  · intro _ s' h
    rw [h.2]
    exact ⟨h.1, rfl⟩
  · exact fun _ _ h => h

theorem sumBy_settle (transaction : Nat)
    (allocations : SortedMap Nat StateAllocation) :
    sumBy StateAllocation.bytes (allocations.mapValues (settle transaction)) =
      sumBy StateAllocation.bytes allocations := by
  simp only [sumBy, values, mapValues, List.map_map, Function.comp_def, settle_bytes]

theorem Sound.settled (h : s.Sound) (transaction : Nat) :
    (s.settled transaction).Sound := by
  apply h.replace
  · rw [sumBy_settle]
    exact h.used
  · exact le_rfl
  · intro id a ha
    rw [get?_mapValues] at ha
    obtain ⟨old, hold, rfl⟩ := Option.map_eq_some_iff.mp ha
    refine ⟨old, hold, settle_id transaction old, fun owner howner => ?_⟩
    obtain ⟨hlifetime, hne⟩ := settle_lifetime.mp howner
    exact ⟨hlifetime, Finset.mem_erase.mpr ⟨hne, h.owner id old owner hold hlifetime⟩⟩
  · exact fun owner howner => h.begun owner (Finset.mem_of_mem_erase howner)

/-- The state without some allocations. -/
def withoutAll (s : StateAllocator) (removed : List StateAllocation) : StateAllocator :=
  removed.foldl without s

/-- Freeing live allocations one after the other never fails. -/
theorem free_all {removed : List StateAllocation} (h : s.Sound)
    (hdistinct : (removed.map StateAllocation.id).Nodup)
    (hlive : ∀ a ∈ removed, s.allocations.get? a.id = some a) :
    ((removed.map StateAllocation.id).mapM free).Ends s
      (fun freed s' => freed = removed ∧ s' = s.withoutAll removed ∧ s'.Sound)
      (fun _ _ => False) := by
  induction removed generalizing s with
  | nil => exact ⟨rfl, rfl, h⟩
  | cons first rest ih =>
    obtain ⟨hfirst, hrest⟩ := List.nodup_cons.mp hdistinct
    have hget := hlive first List.mem_cons_self
    simp only [List.map_cons, List.mapM_cons, ends_bind, ends_pure]
    apply (free_ends h first.id).mono
    · intro freed s' hfreed
      obtain rfl : first = freed := Option.some.inj (hget.symm.trans hfreed.1)
      rw [hfreed.2]
      refine (ih (h.without hget) hrest fun a ha => ?_).mono ?_ fun _ _ hf => hf
      · have hne : a.id ≠ first.id := fun heq => hfirst (heq ▸ List.mem_map_of_mem ha)
        rw [StateAllocator.without, get?_remove, if_neg hne]
        exact hlive a (List.mem_cons_of_mem first ha)
      · intro others s'' hothers
        rw [hothers.1]
        exact ⟨rfl, hothers.2⟩
    · intro fault s' hfault
      rw [hget] at hfault
      exact absurd hfault.2.1 (by simp)

theorem get?_withoutAll (removed : List StateAllocation) (id : Nat) :
    (s.withoutAll removed).allocations.get? id =
      if id ∈ removed.map StateAllocation.id then none else s.allocations.get? id := by
  induction removed generalizing s with
  | nil => rfl
  | cons first rest ih =>
    rw [withoutAll, List.foldl_cons]
    rw [show rest.foldl without (s.without first) = (s.without first).withoutAll rest from rfl, ih]
    by_cases hfirst : id = first.id
    · simp [hfirst, without]
    · simp [hfirst, without, get?_remove]

theorem withoutAll_others (s : StateAllocator) (removed : List StateAllocation) :
    (s.withoutAll removed).activeTransactions = s.activeTransactions ∧
      (s.withoutAll removed).capacityBytes = s.capacityBytes ∧
      (s.withoutAll removed).nextAllocation = s.nextAllocation ∧
      (s.withoutAll removed).nextTransaction = s.nextTransaction := by
  induction removed generalizing s with
  | nil => exact ⟨rfl, rfl, rfl, rfl⟩
  | cons first rest ih => exact ih (s.without first)

/-- The state after a rollback. -/
def rolledBack (s : StateAllocator) (transaction : Nat) : StateAllocator :=
  let allocations := s.allocations.retain fun _ allocation =>
    allocation.lifetime ≠ .transactional transaction
  { s with
    allocations
    usedBytes := sumBy StateAllocation.bytes allocations
    activeTransactions := s.activeTransactions.erase transaction }

theorem mem_owned (h : s.Sound) {transaction : Nat} {allocation : StateAllocation} :
    allocation ∈ s.owned transaction ↔
      s.allocations.get? allocation.id = some allocation ∧
        allocation.lifetime = .transactional transaction := by
  rw [owned, List.mem_filter, mem_values_iff, decide_eq_true_iff]
  constructor
  · intro hmem
    obtain ⟨⟨id, hget⟩, hlifetime⟩ := hmem
    rw [h.keyed id allocation hget]
    exact ⟨hget, hlifetime⟩
  · exact fun hmem => ⟨⟨_, hmem.1⟩, hmem.2⟩

theorem owned_distinct (h : s.Sound) (transaction : Nat) :
    ((s.owned transaction).map StateAllocation.id).Nodup := by
  have hids : s.allocations.values.map StateAllocation.id = s.allocations.keys := by
    rw [values, keys, List.map_map]
    apply List.map_congr_left
    intro entry hentry
    exact h.keyed entry.1 entry.2 (get?_eq_some_iff.mpr hentry)
  have hnodup := s.allocations.nodup_keys
  rw [← hids] at hnodup
  exact hnodup.sublist (List.filter_sublist.map _)

theorem withoutAll_owned (h : s.Sound) (transaction : Nat) :
    (s.withoutAll (s.owned transaction)).allocations = (s.rolledBack transaction).allocations := by
  ext id a
  rw [get?_withoutAll, rolledBack, get?_retain]
  cases hget : s.allocations.get? id with
  | none => simp
  | some old =>
    have hid := h.keyed id old hget
    have hmem : id ∈ (s.owned transaction).map StateAllocation.id ↔
        old.lifetime = .transactional transaction := by
      rw [List.mem_map]
      constructor
      · intro hex
        obtain ⟨a, ha, heq⟩ := hex
        obtain ⟨hlive, hlifetime⟩ := (mem_owned h).mp ha
        rw [heq, hget] at hlive
        rw [Option.some.inj hlive]
        exact hlifetime
      · intro hlifetime
        refine ⟨old, (mem_owned h).mpr ⟨?_, hlifetime⟩, hid⟩
        rw [hid]
        exact hget
    by_cases hlifetime : old.lifetime = .transactional transaction
    · rw [if_pos (hmem.mpr hlifetime)]
      simp [Option.filter, hlifetime]
    · rw [if_neg (mt hmem.mp hlifetime)]
      simp [Option.filter, hlifetime]

theorem rollback_ends (h : s.Sound) (transaction : Nat) :
    (rollback transaction).Ends s
      (fun removed s' => transaction ∈ s.activeTransactions ∧ removed = s.owned transaction ∧
        s' = s.rolledBack transaction)
      (fun fault s' => transaction ∉ s.activeTransactions ∧
        fault = .error (.inactiveTransaction transaction) ∧ s' = s) := by
  simp only [rollback, ends_bind, ends_get, ends_modify, ends_pure]
  apply (requireActive_ends transaction s).mono
  · intro _ s' hactive
    rw [hactive.2]
    have hlive : ∀ a ∈ s.owned transaction, s.allocations.get? a.id = some a :=
      fun a ha => ((mem_owned h).mp ha).1
    apply (free_all h (owned_distinct h transaction) hlive).mono
    · intro freed s'' hfreed
      obtain ⟨heq, hstate, hsound⟩ := hfreed
      refine ⟨hactive.1, heq, ?_⟩
      obtain ⟨hactives, hcapacity, hnext, hnextTransaction⟩ :=
        withoutAll_others s (s.owned transaction)
      have hallocations := withoutAll_owned h transaction
      have hused := hsound.used
      rw [hstate] at hused ⊢
      rw [liveBytes, hallocations] at hused
      rw [hactives, hcapacity, hnext, hnextTransaction, hallocations, hused]
      rfl
    · exact fun _ _ hf => hf.elim
  · exact fun _ _ hfault => hfault

theorem Sound.rolledBack (h : s.Sound) (transaction : Nat) :
    (s.rolledBack transaction).Sound := by
  apply h.replace
  · rfl
  · have hused := h.used
    rw [liveBytes, ← sumBy_retain_add _ fun _ a => a.lifetime ≠ .transactional transaction] at hused
    show sumBy _ _ ≤ s.usedBytes
    omega
  · intro id a ha
    rw [get?_retain] at ha
    obtain ⟨hold, hkept⟩ := Option.filter_eq_some_iff.mp ha
    refine ⟨a, hold, rfl, fun owner howner => ⟨howner, ?_⟩⟩
    refine Finset.mem_erase.mpr ⟨fun heq => ?_, h.owner id a owner hold howner⟩
    simp [howner, heq] at hkept
  · exact fun owner howner => h.begun owner (Finset.mem_of_mem_erase howner)

end StateAllocator

/-! ## Runs -/

/-- What a call reports, or the fault it ends with. -/
def outcome (s : StateAllocator) (op : Op) : Except (Fault StateError) Effect := result op.exec s

/-- What the calls of a run report. Calls that fail leave no record. -/
def history : StateAllocator → List Op → List Effect
  | _, [] => []
  | s, op :: ops => (outcome s op).toOption.toList ++ history (step s op) ops

namespace Effect

/-- The live allocations after a report. -/
def apply (live : SortedMap Nat StateAllocation) : Effect → SortedMap Nat StateAllocation
  | began _ => live
  | allocated allocation => live.insert allocation.id allocation
  | freed allocation => live.remove allocation.id
  | committed transaction => live.mapValues (StateAllocator.settle transaction)
  | rolledBack transaction _ => live.retain fun _ allocation =>
    allocation.lifetime ≠ .transactional transaction
  | cleared => ∅

/-- The live allocations after all the reports of a run. -/
def replay (effects : List Effect) : SortedMap Nat StateAllocation := effects.foldl apply ∅

/-- The identifier that a report hands out for an allocation. -/
def newId : Effect → Option Nat
  | allocated allocation => some allocation.id
  | _ => none

/-- The report makes no allocation at an identifier outside `keep`. -/
def keeps (keep : Nat → Bool) (effect : Effect) : Bool := effect.newId.all keep

variable {live : SortedMap Nat StateAllocation} {keep : Nat → Bool} {effect : Effect}

theorem apply_retain (h : effect.keeps keep = true) :
    effect.apply (live.retain fun id _ => keep id) = (effect.apply live).retain fun id _ => keep id := by
  ext id a
  cases effect with
  | began _ => rfl
  | cleared => simp [apply, get?_retain]
  | allocated allocation =>
    have hkeep : keep allocation.id = true := h
    simp only [apply, get?_insert, get?_retain]
    split_ifs with heq
    · simp [Option.filter, heq, hkeep]
    · rfl
  | freed allocation =>
    simp only [apply, get?_remove, get?_retain]
    split_ifs <;> simp
  | committed transaction =>
    simp only [apply, get?_mapValues, get?_retain]
    cases live.get? id <;> cases keep id <;> simp [Option.filter]
  | rolledBack transaction removed =>
    simp only [apply, get?_retain]
    cases live.get? id with
    | none => rfl
    | some old =>
      by_cases howner : old.lifetime = .transactional transaction <;> cases keep id <;>
        simp [Option.filter, howner]

theorem apply_dropped (h : effect.keeps keep = false) :
    (effect.apply live).retain (fun id _ => keep id) = live.retain fun id _ => keep id := by
  cases effect with
  | allocated allocation =>
    have hdrop : keep allocation.id = false := h
    ext id a
    rw [apply, get?_retain, get?_retain, get?_insert]
    split_ifs with heq
    · rw [heq]
      cases live.get? allocation.id <;> simp [Option.filter, hdrop]
    · rfl
  | _ => cases h

/-- Leaving the allocations at some identifiers out of a history leaves them out at its end. -/
theorem replay_filter (keep : Nat → Bool) (effects : List Effect) :
    replay (effects.filter (keeps keep)) = (replay effects).retain fun id _ => keep id := by
  have hfold : ∀ live : SortedMap Nat StateAllocation,
      (effects.filter (keeps keep)).foldl apply (live.retain fun id _ => keep id) =
        (effects.foldl apply live).retain fun id _ => keep id := by
    induction effects with
    | nil => exact fun _ => rfl
    | cons effect effects ih =>
      intro live
      cases h : effect.keeps keep with
      | true =>
        rw [List.filter_cons_of_pos h, List.foldl_cons, List.foldl_cons, apply_retain h]
        exact ih (effect.apply live)
      | false =>
        rw [List.filter_cons_of_neg (by simp [h]), List.foldl_cons, ← apply_dropped h]
        exact ih (effect.apply live)
  exact hfold ∅

end Effect

variable {s : StateAllocator}

/-- What a call that succeeds leaves behind. -/
structure Follows (s : StateAllocator) (effect : Effect) (s' : StateAllocator) : Prop where
  sound : s'.Sound
  capacity : s'.capacityBytes = s.capacityBytes
  live : s'.allocations = effect.apply s.allocations
  next : s.nextAllocation ≤ s'.nextAllocation
  newId : ∀ id ∈ effect.newId, s.nextAllocation ≤ id ∧ id < s'.nextAllocation

open StateAllocator in
theorem exec_follows (h : s.Sound) (op : Op) :
    op.exec.Ends s (fun effect s' => Follows s effect s')
      (fun fault s' => fault ≠ .panic ∧ s' = s) := by
  cases op with
  | beginTransaction =>
    simp only [Op.exec, ends_map]
    apply (beginTransaction_ends s).mono _ fun _ _ hf => hf
    intro id s' hs'
    rw [hs'.2]
    refine ⟨?_, rfl, rfl, le_rfl, by simp [Effect.newId]⟩
    apply h.replace h.used le_rfl
    · intro id a ha
      exact ⟨a, ha, rfl, fun transaction howner =>
        ⟨howner, Finset.mem_insert_of_mem (h.owner id a transaction ha howner)⟩⟩
    · intro transaction hmem
      rw [hs'.1] at hmem ⊢
      rcases Finset.mem_insert.mp hmem with heq | hold
      · omega
      · have hlt := h.begun transaction hold
        omega
  | allocate kind bytes lifetime =>
    simp only [Op.exec, ends_map]
    apply (allocate_ends kind bytes lifetime s).mono _ fun _ _ hf => hf
    intro allocation s' hs'
    obtain ⟨hallocation, hfits, howner, hstate⟩ := hs'
    have hid : allocation.id = s.nextAllocation := by rw [hallocation]
    rw [hstate]
    refine ⟨?_, rfl, rfl, ?_, ?_⟩
    · apply h.add hid
      · rw [hallocation]
        exact hfits
      · rw [hallocation]
        exact howner
    · show s.nextAllocation ≤ allocation.id + 1
      omega
    · intro id heq
      obtain rfl : allocation.id = id := Option.some.inj heq
      exact ⟨hid.ge, Nat.lt_succ_self _⟩
  | free id =>
    simp only [Op.exec, ends_map]
    apply (free_ends h id).mono
    · intro allocation s' hs'
      rw [hs'.2]
      have hget := hs'.1
      rw [← h.keyed id allocation hget] at hget
      exact ⟨h.without hget, rfl, rfl, le_rfl, by simp [Effect.newId]⟩
    · exact fun fault s' hf => ⟨hf.1, hf.2.2⟩
  | commit transaction =>
    simp only [Op.exec, ends_bind, ends_pure]
    apply (commit_ends transaction s).mono
    · intro _ s' hs'
      rw [hs'.2]
      exact ⟨h.settled transaction, rfl, rfl, le_rfl, by simp [Effect.newId]⟩
    · intro fault s' hf
      rw [hf.2.1]
      exact ⟨Fault.error_ne_panic, hf.2.2⟩
  | rollback transaction =>
    simp only [Op.exec, ends_map]
    apply (rollback_ends h transaction).mono
    · intro removed s' hs'
      rw [hs'.2.2]
      exact ⟨h.rolledBack transaction, rfl, rfl, le_rfl, by simp [Effect.newId]⟩
    · intro fault s' hf
      rw [hf.2.1]
      exact ⟨Fault.error_ne_panic, hf.2.2⟩
  | reset =>
    simp only [Op.exec, ends_bind, StateAllocator.reset, ends_modify, ends_pure]
    refine ⟨?_, rfl, rfl, le_rfl, by simp [Effect.newId]⟩
    constructor <;> simp [liveBytes]

/-- A call either follows its report or fails and changes nothing. -/
theorem step_follows (h : s.Sound) (op : Op) :
    (∃ effect, outcome s op = .ok effect ∧ Follows s effect (step s op)) ∨
      ∃ fault, outcome s op = .error fault ∧ fault ≠ .panic ∧ step s op = s := by
  have hends := ends_iff_result.mp (exec_follows h op)
  cases hresult : outcome s op with
  | ok effect => exact .inl ⟨effect, rfl, hends.1 effect hresult⟩
  | error fault =>
    obtain ⟨hpanic, hstate⟩ := hends.2 fault hresult
    exact .inr ⟨fault, rfl, hpanic, hstate⟩

theorem step_sound (h : s.Sound) (op : Op) :
    (step s op).Sound ∧ (step s op).capacityBytes = s.capacityBytes := by
  rcases step_follows h op with ⟨effect, _, hfollows⟩ | ⟨fault, _, _, hstate⟩
  · exact ⟨hfollows.sound, hfollows.capacity⟩
  · rw [hstate]
    exact ⟨h, rfl⟩

theorem run_sound (h : s.Sound) (ops : List Op) :
    (run step s ops).Sound ∧ (run step s ops).capacityBytes = s.capacityBytes := by
  induction ops generalizing s with
  | nil => exact ⟨h, rfl⟩
  | cons op ops ih =>
    obtain ⟨hsound, hcapacity⟩ := step_sound h op
    obtain ⟨hend, hsame⟩ := ih hsound
    exact ⟨hend, hsame.trans hcapacity⟩

/-- The live allocations are those that the reports of the run leave. -/
theorem run_live (h : s.Sound) (ops : List Op) :
    (run step s ops).allocations = (history s ops).foldl Effect.apply s.allocations := by
  induction ops generalizing s with
  | nil => rfl
  | cons op ops ih =>
    rw [run_cons, ih (step_sound h op).1, history, List.foldl_append]
    rcases step_follows h op with ⟨effect, houtcome, hfollows⟩ | ⟨fault, houtcome, _, hstate⟩
    · rw [houtcome, hfollows.live]
      rfl
    · rw [houtcome, hstate]
      rfl

/-- The identifiers of a run grow with every allocation. -/
theorem history_newIds (h : s.Sound) (ops : List Op) :
    ((history s ops).filterMap Effect.newId).Pairwise (· < ·) ∧
      ∀ id ∈ (history s ops).filterMap Effect.newId, s.nextAllocation ≤ id := by
  induction ops generalizing s with
  | nil => exact ⟨.nil, nofun⟩
  | cons op ops ih =>
    obtain ⟨hsorted, hbound⟩ := ih (step_sound h op).1
    rw [history, List.filterMap_append]
    rcases step_follows h op with ⟨effect, houtcome, hfollows⟩ | ⟨fault, houtcome, _, hstate⟩
    · rw [houtcome]
      have hrest : ∀ id ∈ (history (step s op) ops).filterMap Effect.newId,
          s.nextAllocation ≤ id := fun id hid => hfollows.next.trans (hbound id hid)
      cases hnew : effect.newId with
      | none =>
        simp only [Except.toOption, Option.toList_some, List.filterMap_cons, hnew,
          List.filterMap_nil, List.nil_append]
        exact ⟨hsorted, hrest⟩
      | some id =>
        obtain ⟨hle, hlt⟩ := hfollows.newId id hnew
        simp only [Except.toOption, Option.toList_some, List.filterMap_cons, hnew,
          List.filterMap_nil, List.singleton_append, List.pairwise_cons, List.mem_cons]
        refine ⟨⟨fun later hlater => hlt.trans_le (hbound later hlater), hsorted⟩, ?_⟩
        intro other hother
        rcases hother with heq | hmem
        · rw [heq]
          exact hle
        · exact hrest other hmem
    · rw [houtcome]
      rw [hstate] at hbound hsorted ⊢
      exact ⟨hsorted, hbound⟩

/-! ## Commits and rollbacks -/

open StateAllocator in
theorem step_commit (s : StateAllocator) (t : Nat) :
    step s (.commit t) = (if t ∈ s.activeTransactions then s.settled t else s) ∧
      outcome s (.commit t) = if t ∈ s.activeTransactions then .ok (.committed t)
        else .error (.error (.inactiveTransaction t)) := by
  have hends : (Op.exec (.commit t)).Ends s
      (fun effect s' => t ∈ s.activeTransactions ∧ s' = s.settled t ∧ effect = .committed t)
      (fun fault s' => t ∉ s.activeTransactions ∧
        fault = .error (.inactiveTransaction t) ∧ s' = s) := by
    simp only [Op.exec, ends_bind, ends_pure]
    exact (commit_ends t s).mono (fun _ _ h => ⟨h.1, h.2, trivial⟩) fun _ _ h => h
  obtain ⟨hok, herror⟩ := ends_iff_result.mp hends
  cases hresult : outcome s (.commit t) with
  | ok effect =>
    obtain ⟨hactive, hstate, heffect⟩ := hok effect hresult
    rw [if_pos hactive, if_pos hactive, heffect]
    exact ⟨hstate, rfl⟩
  | error fault =>
    obtain ⟨hactive, hfault, hstate⟩ := herror fault hresult
    rw [if_neg hactive, if_neg hactive, hfault]
    exact ⟨hstate, rfl⟩

open StateAllocator in
theorem step_rollback (h : s.Sound) (t : Nat) :
    step s (.rollback t) = (if t ∈ s.activeTransactions then s.rolledBack t else s) ∧
      outcome s (.rollback t) = if t ∈ s.activeTransactions then .ok (.rolledBack t (s.owned t))
        else .error (.error (.inactiveTransaction t)) := by
  have hends : (Op.exec (.rollback t)).Ends s
      (fun effect s' => t ∈ s.activeTransactions ∧ s' = s.rolledBack t ∧
        effect = .rolledBack t (s.owned t))
      (fun fault s' => t ∉ s.activeTransactions ∧
        fault = .error (.inactiveTransaction t) ∧ s' = s) := by
    simp only [Op.exec, ends_map]
    exact (rollback_ends h t).mono (fun _ _ h => ⟨h.1, h.2.2, by rw [h.2.1]⟩) fun _ _ h => h
  obtain ⟨hok, herror⟩ := ends_iff_result.mp hends
  cases hresult : outcome s (.rollback t) with
  | ok effect =>
    obtain ⟨hactive, hstate, heffect⟩ := hok effect hresult
    rw [if_pos hactive, if_pos hactive, heffect]
    exact ⟨hstate, rfl⟩
  | error fault =>
    obtain ⟨hactive, hfault, hstate⟩ := herror fault hresult
    rw [if_neg hactive, if_neg hactive, hfault]
    exact ⟨hstate, rfl⟩

namespace StateAllocator

variable {t u : Nat}

theorem mem_settled_active (hne : t ≠ u) :
    u ∈ (s.settled t).activeTransactions ↔ u ∈ s.activeTransactions := by
  simp [settled, hne.symm]

theorem mem_rolledBack_active (hne : t ≠ u) :
    t ∈ (s.rolledBack u).activeTransactions ↔ t ∈ s.activeTransactions := by
  simp [rolledBack, hne]

theorem settled_rolledBack (s : StateAllocator) (hne : t ≠ u) :
    (s.settled t).rolledBack u = (s.rolledBack u).settled t := by
  have hallocations : ((s.settled t).rolledBack u).allocations =
      ((s.rolledBack u).settled t).allocations := by
    ext id a
    simp only [settled, rolledBack, get?_retain, get?_mapValues]
    cases s.allocations.get? id with
    | none => simp
    | some old =>
      have howner : (settle t old).lifetime = .transactional u ↔
          old.lifetime = .transactional u := by
        rw [settle_lifetime]
        exact and_iff_left hne.symm
      by_cases hold : old.lifetime = .transactional u
      · simp [Option.filter, hold, howner.mpr hold]
      · simp [Option.filter, hold, mt howner.mp hold]
  have hused : ((s.settled t).rolledBack u).usedBytes = ((s.rolledBack u).settled t).usedBytes := by
    show sumBy StateAllocation.bytes ((s.settled t).rolledBack u).allocations = _
    rw [hallocations]
    exact sumBy_settle t _
  have hactive : ((s.settled t).rolledBack u).activeTransactions =
      ((s.rolledBack u).settled t).activeTransactions := Finset.erase_right_comm
  show StateAllocator.mk _ _ _ _ _ _ = StateAllocator.mk _ _ _ _ _ _
  rw [StateAllocator.mk.injEq]
  exact ⟨rfl, hused, rfl, rfl, hallocations, hactive⟩

/-- A commit leaves the allocations of the other transactions alone. -/
theorem owned_settled (s : StateAllocator) (hne : t ≠ u) : (s.settled t).owned u = s.owned u := by
  have hvalues : (s.settled t).allocations.values = s.allocations.values.map (settle t) := by
    simp only [settled, values, mapValues, List.map_map, Function.comp_def]
  rw [owned, owned, hvalues]
  induction s.allocations.values with
  | nil => rfl
  | cons a as ih =>
    by_cases howner : a.lifetime = .transactional u
    · have hkept : settle t a = a := by
        rw [settle, if_neg]
        rw [howner]
        simp [hne.symm]
      simp [hkept, howner, ih]
    · have hsettled : (settle t a).lifetime ≠ .transactional u := fun heq =>
        howner (settle_lifetime.mp heq).1
      simp [hsettled, howner, ih]

end StateAllocator

/-- A commit and a rollback of different transactions do not affect each other. -/
theorem commit_rollback_comm (h : s.Sound) {t u : Nat} (hne : t ≠ u) :
    step (step s (.commit t)) (.rollback u) = step (step s (.rollback u)) (.commit t) ∧
      outcome (step s (.rollback u)) (.commit t) = outcome s (.commit t) ∧
      outcome (step s (.commit t)) (.rollback u) = outcome s (.rollback u) := by
  obtain ⟨hfirst, hfirstOutcome⟩ := step_commit s t
  obtain ⟨hsecond, hsecondOutcome⟩ := step_commit (step s (.rollback u)) t
  obtain ⟨hthird, hthirdOutcome⟩ := step_rollback h u
  obtain ⟨hlast, hlastOutcome⟩ := step_rollback (step_sound h (.commit t)).1 u
  rw [hsecond, hsecondOutcome, hlast, hlastOutcome, hfirst, hfirstOutcome, hthird, hthirdOutcome]
  by_cases ht : t ∈ s.activeTransactions <;> by_cases hu : u ∈ s.activeTransactions
  · simp [ht, hu, StateAllocator.mem_settled_active hne, StateAllocator.mem_rolledBack_active hne,
      StateAllocator.settled_rolledBack s hne, StateAllocator.owned_settled s hne]
  · simp [ht, hu, StateAllocator.mem_settled_active hne]
  · simp [ht, hu, StateAllocator.mem_rolledBack_active hne]
  · simp [ht, hu]

/-! ## The transactional ledger -/

/-- The report is no allocation that is still owned by the transaction. -/
def Spares (s : StateAllocator) (t : Nat) (effect : Effect) : Bool :=
  effect.keeps fun id => id ∉ (s.owned t).map StateAllocation.id

theorem rolledBack_replay (h : s.Sound) {reports : List Effect}
    (hlive : s.allocations = Effect.replay reports) (t : Nat) :
    (s.rolledBack t).allocations = Effect.replay (reports.filter (Spares s t)) := by
  have hspares : reports.filter (Spares s t) =
      reports.filter (Effect.keeps fun id => id ∉ (s.owned t).map StateAllocation.id) := rfl
  rw [hspares, Effect.replay_filter, ← hlive, ← StateAllocator.withoutAll_owned h]
  ext id a
  rw [StateAllocator.get?_withoutAll, get?_retain]
  split_ifs with hmem
  · cases s.allocations.get? id <;> simp [Option.filter, hmem]
  · cases s.allocations.get? id <;> simp [Option.filter, hmem]

end Leone.State
