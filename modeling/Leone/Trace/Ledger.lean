import Leone.Trace.Events

/-!
# What a lawful event log says

The account of an event list is read off the list itself: which reservations stand, which
quantum is open and how many tokens each request completed. A log is lawful when each event
agrees with the account of the events before it. The replay keeps exactly this account.
-/

namespace Leone.Trace

open Framework Framework.Method Scheduler

/-! ## The account of an event list -/

/-- The reservation that an event grants. -/
def ServiceEvent.grant? : ServiceEvent → Option (RequestId × Nat)
  | .admission _ id (.admitted bytes) => some (id, bytes)
  | _ => none

/-- Whether a request holds nothing after an event. -/
def ServiceEvent.frees (id : RequestId) : ServiceEvent → Bool
  | .cancel _ id' running => id' = id && !running
  | .expire _ id' _ => id' = id
  | .complete _ id' _ status _ _ => id' = id && status.isTerminal
  | _ => false

def ServiceEvent.isBoundary : ServiceEvent → Bool
  | .dispatch .. | .complete .. => true
  | _ => false

/-- A cancellation that reached a running request. -/
def ServiceEvent.isFlag : ServiceEvent → Bool
  | .cancel _ _ running => running
  | _ => false

/-- The tokens that an event completes for a request. -/
def ServiceEvent.completed? (id : RequestId) : ServiceEvent → Option Nat
  | .complete _ id' emitted _ _ _ => if id' = id then some emitted else none
  | _ => none

/-- The reservations granted and not given back. -/
def standing : List ServiceEvent → List (RequestId × Nat)
  | [] => []
  | event :: rest =>
    (event.grant?.filter fun grant => !rest.any (ServiceEvent.frees grant.1)).toList ++
      standing rest

def held (events : List ServiceEvent) : Nat := ((standing events).map Prod.snd).sum

/-- The quantum whose dispatch no later dispatch or completion follows. -/
def openQuantum : List ServiceEvent → Option OpenQuantum
  | [] => none
  | .dispatch _ id budget kind :: rest =>
    if rest.any ServiceEvent.isBoundary then openQuantum rest
    else some ⟨id, budget, kind, rest.any ServiceEvent.isFlag⟩
  | _ :: rest => openQuantum rest

/-- The token counts of a request's completions. -/
def completions (id : RequestId) (events : List ServiceEvent) : List Nat :=
  events.filterMap (ServiceEvent.completed? id)

theorem standing_snoc (events : List ServiceEvent) (event : ServiceEvent) :
    standing (events ++ [event]) =
      (standing events).filter (fun grant => !event.frees grant.1) ++ event.grant?.toList := by
  induction events with
  | nil => cases h : event.grant? <;> simp [standing, h]
  | cons first rest ih =>
    rw [List.cons_append, standing, ih, standing, List.filter_append, List.append_assoc]
    congr 1
    cases first.grant? with
    | none => rfl
    | some grant =>
      cases hrest : rest.any (ServiceEvent.frees grant.1) <;>
        cases hlast : event.frees grant.1 <;> simp [Option.filter, hrest, hlast]

theorem completions_snoc (id : RequestId) (events : List ServiceEvent) (event : ServiceEvent) :
    completions id (events ++ [event]) =
      completions id events ++ (event.completed? id).toList := by
  rw [completions, List.filterMap_append, ← completions]
  cases h : event.completed? id <;> simp [h]

/-- What an event does to the open quantum. -/
def ServiceEvent.opens (active : Option OpenQuantum) : ServiceEvent → Option OpenQuantum
  | .dispatch _ id budget kind => some ⟨id, budget, kind, false⟩
  | .complete .. => none
  | .cancel _ _ true => active.map fun active => { active with cancelled := true }
  | _ => active

theorem openQuantum_none {events : List ServiceEvent}
    (h : events.any ServiceEvent.isBoundary = false) : openQuantum events = none := by
  induction events with
  | nil => rfl
  | cons event rest ih =>
    rw [List.any_cons, Bool.or_eq_false_iff] at h
    cases event with
    | dispatch => cases h.1
    | admission | cancel | expire | complete => exact ih h.2

theorem openQuantum_snoc (events : List ServiceEvent) (event : ServiceEvent) :
    openQuantum (events ++ [event]) = event.opens (openQuantum events) := by
  induction events with
  | nil =>
    cases event with
    | cancel atNs id running => cases running <;> rfl
    | admission | dispatch | expire | complete => rfl
  | cons first rest ih =>
    cases first with
    | admission | cancel | expire | complete => exact ih
    | dispatch atNs id budget kind =>
      rw [List.cons_append, openQuantum, openQuantum, ih]
      cases hrest : rest.any ServiceEvent.isBoundary with
      | true => simp [hrest]
      | false =>
        cases event with
        | cancel atNs' id' running =>
          cases running <;> simp [hrest, ServiceEvent.isBoundary, ServiceEvent.isFlag,
            ServiceEvent.opens]
        | admission | expire =>
          simp [hrest, ServiceEvent.isBoundary, ServiceEvent.isFlag, ServiceEvent.opens]
        | dispatch | complete => simp [ServiceEvent.isBoundary, ServiceEvent.opens]

/-! ## Lawful logs -/

/-- An event agrees with the account of the events before it. -/
def EventLawful (capacity : Nat) (before : List ServiceEvent) (event : ServiceEvent) : Prop :=
  held (before ++ [event]) ≤ capacity ∧
  match event with
  | .admission _ id (.admitted _) => ∀ grant ∈ standing before, grant.1 ≠ id
  | .admission _ _ (.rejected _) => True
  | .dispatch _ id budget _ =>
    openQuantum before = none ∧ (∃ grant ∈ standing before, grant.1 = id) ∧ budget ≠ 0 ∧
      budget ≤ capacity
  | .cancel _ id running =>
    running → ∃ active, openQuantum before = some active ∧ active.requestId = id
  | .expire _ id reserved =>
    (∃ grant ∈ standing before, grant.1 = id) ∧ held (before ++ [event]) = reserved
  | .complete _ id emitted status reserved kind =>
    (∃ active, openQuantum before = some active ∧ active.requestId = id ∧ active.kind = kind ∧
      emitted ≤ active.tokenBudget ∧ (kind = .prefill → emitted = 0) ∧
      (active.cancelled → status = .cancelled)) ∧
    held (before ++ [event]) = reserved

/-- Every event of a log agrees with the account of the events before it. -/
def Lawful (capacity : Nat) (events : List ServiceEvent) : Prop :=
  ∀ before event after, events = before ++ event :: after → EventLawful capacity before event

/-- The replay holds the account of the events it has taken. -/
structure Accounts (events : List ServiceEvent) (replay : TraceReplay) : Prop where
  reservations : replay.reservations.entries.Perm (standing events)
  reserved : replay.reserved = held events
  running : replay.running = openQuantum events
  emitted : ∀ id, replay.emitted.get? id =
    if completions id events = [] then none else some ((completions id events).sum % 2 ^ 64)

theorem accounts_nil : Accounts [] TraceReplay.default := ⟨.nil, rfl, rfl, fun _ => rfl⟩

namespace Accounts

variable {capacity : Nat} {events : List ServiceEvent} {replay after : TraceReplay}
  {event : ServiceEvent}

theorem held_eq (h : replay.Exact) (hperm : replay.reservations.entries.Perm (standing events)) :
    replay.reserved = held events := by
  rw [h, held, ← (hperm.map Prod.snd).sum_eq, SortedMap.sumBy, SortedMap.values, List.map_map]
  rfl

theorem contains_iff (h : Accounts events replay) {id : RequestId} :
    replay.reservations.contains id ↔ ∃ grant ∈ standing events, grant.1 = id := by
  rw [SortedMap.contains_iff]
  constructor
  · intro hcontains
    obtain ⟨bytes, hget⟩ := hcontains
    exact ⟨(id, bytes), h.reservations.mem_iff.mp (SortedMap.get?_eq_some_iff.mp hget), rfl⟩
  · intro hstands
    obtain ⟨grant, hmem, hid⟩ := hstands
    subst hid
    exact ⟨grant.2, SortedMap.get?_eq_some_iff.mpr (h.reservations.mem_iff.mpr hmem)⟩

/-- An event that frees nothing keeps the standing reservations. -/
theorem standing_snoc_of_kept (hfrees : ∀ id, event.frees id = false) :
    standing (events ++ [event]) = standing events ++ event.grant?.toList := by
  rw [standing_snoc]
  congr 1
  simp [hfrees]

/-- An event that neither grants nor frees leaves the reservations. -/
theorem perm_kept (h : Accounts events replay) (event : ServiceEvent)
    (hfrees : ∀ id, event.frees id = false)
    (hgrant : event.grant? = none) :
    replay.reservations.entries.Perm (standing (events ++ [event])) := by
  rw [standing_snoc_of_kept hfrees, hgrant, Option.toList_none, List.append_nil]
  exact h.reservations

/-- An event that frees one request takes its reservation away. -/
theorem perm_released (h : Accounts events replay) (event : ServiceEvent) (id : RequestId)
    (hfrees : ∀ id', event.frees id' = decide (id = id')) (hgrant : event.grant? = none) :
    (replay.released id).reservations.entries.Perm (standing (events ++ [event])) := by
  rw [standing_snoc, hgrant, Option.toList_none, List.append_nil]
  have hfilter := h.reservations.filter (fun entry => decide (entry.1 ≠ id))
  refine hfilter.trans (List.Perm.of_eq (List.filter_congr fun grant _ => ?_))
  rw [hfrees, ← decide_not]
  exact decide_eq_decide.mpr ⟨fun hne heq => hne heq.symm, fun hne heq => hne heq.symm⟩

/-- An event that completes nothing leaves the token counts. -/
theorem emitted_kept (h : Accounts events replay) (hcompleted : ∀ id, event.completed? id = none)
    (id : RequestId) : replay.emitted.get? id =
      if completions id (events ++ [event]) = [] then none
      else some ((completions id (events ++ [event])).sum % 2 ^ 64) := by
  rw [completions_snoc, hcompleted, Option.toList_none, List.append_nil]
  exact h.emitted id

theorem emitted_counted (h : Accounts events replay) (event : ServiceEvent) {id : RequestId}
    {emitted : Nat}
    (hcompleted : ∀ id', event.completed? id' = if id = id' then some emitted else none)
    (id' : RequestId) : (replay.counted id emitted).emitted.get? id' =
      if completions id' (events ++ [event]) = [] then none
      else some ((completions id' (events ++ [event])).sum % 2 ^ 64) := by
  rw [completions_snoc, hcompleted, TraceReplay.counted, SortedMap.get?_insert, h.emitted,
    h.emitted]
  by_cases hid : id = id'
  · subst hid
    by_cases hnone : completions id events = []
    · simp [hnone, wrappingAdd]
    · simp [hnone, wrappingAdd]
  · simp [hid, Ne.symm hid]

/-- An accepted event moves the account by that event. -/
theorem replayed (h : Accounts events replay) (hexact : after.Exact)
    (hevent : Replayed capacity replay event after) : Accounts (events ++ [event]) after := by
  have hrunning := openQuantum_snoc events event
  rw [← h.running] at hrunning
  cases hevent with
  | @admitted atNs id bytes hnew =>
    have hperm : (replay.reservations.insert id bytes).entries.Perm
        (standing (events ++ [.admission atNs id (.admitted bytes)])) := by
      rw [standing_snoc_of_kept fun _ => rfl]
      refine (SortedMap.entries_insert_perm bytes hnew).trans ?_
      exact (h.reservations.cons (id, bytes)).trans (List.perm_append_singleton _ _).symm
    exact ⟨hperm, held_eq hexact hperm, hrunning.symm, h.emitted_kept fun _ => rfl⟩
  | @rejected atNs id reason =>
    have hperm := h.perm_kept (.admission atNs id (.rejected reason)) (fun _ => rfl) rfl
    exact ⟨hperm, held_eq hexact hperm, hrunning.symm, h.emitted_kept fun _ => rfl⟩
  | @dispatched atNs id budget kind =>
    have hperm := h.perm_kept (.dispatch atNs id budget kind) (fun _ => rfl) rfl
    exact ⟨hperm, held_eq hexact hperm, hrunning.symm, h.emitted_kept fun _ => rfl⟩
  | @flagged atNs id active hactive =>
    have hperm := h.perm_kept (.cancel atNs id true)
      (fun id' => by simp [ServiceEvent.frees]) rfl
    refine ⟨hperm, held_eq hexact hperm, ?_, h.emitted_kept fun _ => rfl⟩
    rw [hrunning, hactive]
    rfl
  | @withdrawn atNs id =>
    have hperm := h.perm_released (.cancel atNs id false) id
      (fun id' => by simp [ServiceEvent.frees]) rfl
    exact ⟨hperm, held_eq hexact hperm, hrunning.symm, h.emitted_kept fun _ => rfl⟩
  | @expired atNs id reserved =>
    have hperm := h.perm_released (.expire atNs id reserved) id (fun _ => rfl) rfl
    exact ⟨hperm, held_eq hexact hperm, hrunning.symm, h.emitted_kept fun _ => rfl⟩
  | @completed atNs id emitted status reserved kind active =>
    have hemitted := h.emitted_counted
      (.complete atNs id emitted status reserved kind) fun _ => rfl
    have hopen : none = openQuantum
        (events ++ [.complete atNs id emitted status reserved kind]) := hrunning.symm
    unfold TraceReplay.completed at hexact ⊢
    split_ifs at hexact ⊢ with hterm
    · have hperm := h.perm_released (.complete atNs id emitted status reserved kind) id
        (fun id' => by simp [ServiceEvent.frees, hterm]) rfl
      exact ⟨hperm, held_eq hexact hperm, hopen, hemitted⟩
    · have hperm := h.perm_kept (.complete atNs id emitted status reserved kind)
        (fun id' => by simp [ServiceEvent.frees, hterm]) rfl
      exact ⟨hperm, held_eq hexact hperm, hopen, hemitted⟩

/-- An event is lawful when the replay takes it to a total within the capacity. -/
theorem lawful_of_replayed (h : Accounts events replay) (hexact : replay.Exact)
    (hevent : Replayed capacity replay event after) (hwithin : after.reserved ≤ capacity) :
    EventLawful capacity events event := by
  have hafter := h.replayed (hexact.replayed hevent) hevent
  refine ⟨hafter.reserved ▸ hwithin, ?_⟩
  cases hevent with
  | admitted hnew =>
    intro grant hmem hid
    have hcontains := h.contains_iff.mpr ⟨grant, hmem, hid⟩
    simp [SortedMap.contains, hnew] at hcontains
  | rejected => trivial
  | dispatched hidle hheld hpos hle =>
    exact ⟨h.running ▸ hidle, h.contains_iff.mp hheld, hpos, hle⟩
  | flagged hactive hid => exact fun _ => ⟨_, h.running ▸ hactive, hid⟩
  | withdrawn => exact fun hrunning => absurd hrunning (by simp)
  | expired _ hheld hreserved =>
    exact ⟨h.contains_iff.mp hheld, hafter.reserved ▸ hreserved⟩
  | completed hactive hvalid _ hreserved =>
    exact ⟨⟨_, h.running ▸ hactive, TraceReplay.validateTraceCompletion_eq_ok.mp hvalid⟩,
      hafter.reserved ▸ hreserved⟩

/-- The replay takes every lawful event. -/
theorem replayed_of_lawful (h : Accounts events replay) (hexact : replay.Exact)
    (hcapacity : capacity < 2 ^ 64) (hlawful : EventLawful capacity events event) :
    ∃ after, Replayed capacity replay event after ∧ after.reserved ≤ capacity := by
  obtain ⟨hwithin, hchecks⟩ := hlawful
  suffices hstep : ∃ after, Replayed capacity replay event after by
    obtain ⟨after, hafter⟩ := hstep
    refine ⟨after, hafter, ?_⟩
    rw [(h.replayed (hexact.replayed hafter) hafter).reserved]
    exact hwithin
  cases event with
  | admission atNs id outcome =>
    cases outcome with
    | rejected reason => exact ⟨_, .rejected⟩
    | admitted bytes =>
      have hnew : replay.reservations.get? id = none := by
        by_contra hne
        obtain ⟨grant, hmem, hid⟩ := h.contains_iff.mp
          (SortedMap.contains_iff.mpr (Option.ne_none_iff_exists'.mp hne))
        exact hchecks grant hmem hid
      have hgrown : held (events ++ [.admission atNs id (.admitted bytes)]) =
          held events + bytes := by
        rw [held, standing_snoc_of_kept fun _ => rfl]
        simp [held, ServiceEvent.grant?]
      refine ⟨_, .admitted hnew ?_⟩
      rw [h.reserved]
      omega
  | dispatch atNs id budget kind =>
    obtain ⟨hidle, hheld, hpos, hle⟩ := hchecks
    exact ⟨_, .dispatched (h.running ▸ hidle) (h.contains_iff.mpr hheld) hpos hle⟩
  | cancel atNs id running =>
    cases running with
    | true =>
      obtain ⟨active, hactive, hid⟩ := hchecks rfl
      exact ⟨_, .flagged (h.running.trans hactive) hid⟩
    | false => exact ⟨_, .withdrawn (hexact.covers id)⟩
  | expire atNs id reserved =>
    obtain ⟨hheld, hreserved⟩ := hchecks
    have hperm := h.perm_released (.expire atNs id reserved) id (fun _ => rfl) rfl
    have heq := held_eq (hexact.released id) hperm
    exact ⟨_, .expired (hexact.covers id) (h.contains_iff.mpr hheld) (heq.trans hreserved)⟩
  | complete atNs id emitted status reserved kind =>
    obtain ⟨⟨active, hactive, hvalid⟩, hreserved⟩ := hchecks
    have hstep : Replayed capacity replay (.complete atNs id emitted status
        (replay.completed id emitted status).reserved kind)
        (replay.completed id emitted status) :=
      .completed (h.running.trans hactive)
        (TraceReplay.validateTraceCompletion_eq_ok.mpr hvalid) (fun _ => hexact.covers id) rfl
    have hafter := (h.replayed (hexact.replayed hstep) hstep).reserved
    refine ⟨_, .completed (h.running.trans hactive)
      (TraceReplay.validateTraceCompletion_eq_ok.mpr hvalid) (fun _ => hexact.covers id) ?_⟩
    rw [← hreserved, hafter, held, held, standing_snoc, standing_snoc]
    rfl

/-- The replay keeps the account through every list that it goes through. -/
theorem replays {rest : List ServiceEvent} (h : Accounts events replay) (hexact : replay.Exact)
    (hsteps : Replays capacity replay rest after) : Accounts (events ++ rest) after := by
  induction hsteps generalizing events with
  | nil => rwa [List.append_nil]
  | cons head _ _ ih =>
    rw [List.append_cons]
    exact ih (h.replayed (hexact.replayed head) head) (hexact.replayed head)

/-- The replay goes through a list exactly when each event is lawful after those before it. -/
theorem replays_iff (h : Accounts events replay) (hexact : replay.Exact)
    (hcapacity : capacity < 2 ^ 64) (rest : List ServiceEvent) :
    (∃ after, Replays capacity replay rest after) ↔
      ∀ before event tail, rest = before ++ event :: tail →
        EventLawful capacity (events ++ before) event := by
  induction rest generalizing events replay with
  | nil =>
    refine ⟨fun _ before event tail heq => ?_, fun _ => ⟨replay, .nil _⟩⟩
    simp at heq
  | cons first rest ih =>
    constructor
    · intro hreplays before event tail heq
      obtain ⟨after, hsteps⟩ := hreplays
      cases hsteps with
      | @cons _ middle _ _ _ head within tail' =>
        have hmiddle := h.replayed (hexact.replayed head) head
        cases before with
        | nil =>
          obtain ⟨rfl, rfl⟩ := List.cons.inj heq
          rw [List.append_nil]
          exact h.lawful_of_replayed hexact head within
        | cons skipped before =>
          obtain ⟨rfl, hrest⟩ := List.cons.inj heq
          rw [List.append_cons]
          exact (ih hmiddle (hexact.replayed head)).mp ⟨after, tail'⟩ before event tail hrest
    · intro hlawful
      have hfirst := hlawful [] first rest rfl
      rw [List.append_nil] at hfirst
      obtain ⟨middle, head, within⟩ := h.replayed_of_lawful hexact hcapacity hfirst
      have hmiddle := h.replayed (hexact.replayed head) head
      obtain ⟨after, tail⟩ := (ih hmiddle (hexact.replayed head)).mpr fun before event tail heq => by
        rw [← List.append_cons]
        exact hlawful (first :: before) event tail (by rw [heq, List.cons_append])
      exact ⟨after, .cons head within tail⟩

end Accounts

/-! ## The verdict -/

/-- A result is the isolated transcript of its request so far, with the tokens of the request's
completions. -/
def ResultLawful (sources : SortedMap RequestId ServiceTraceRequest)
    (events : List ServiceEvent) (result : ServiceTraceResult) : Prop :=
  ∃ source, sources.get? result.requestId = some source ∧
    result.outputTokens <+: source.isolatedTokens ∧
    (result.status = .finished → result.outputTokens = source.isolatedTokens) ∧
    (result.status ≠ .rejected → result.outputTokens.length < 2 ^ 64 ∧
      completions result.requestId events ≠ [] ∧
      (completions result.requestId events).sum % 2 ^ 64 = result.outputTokens.length)

/-- A report that the trace allows. -/
structure ReportLawful (trace : ServiceTrace) (report : ServiceTraceReport) : Prop where
  events : Lawful trace.policy.maxReservedKvBytes report.events
  closed : openQuantum report.events = none
  freed : held report.events = 0
  results : ∀ result ∈ report.results,
    ResultLawful (collectSources trace.requests) report.events result
  overshoot : report.stats.maxCancellationOvershootTokens ≤ trace.policy.serviceQuantumTokens

end Leone.Trace
