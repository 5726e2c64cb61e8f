import Leone.Trace.Model
import Leone.Scheduler.Invariant

/-!
# The requests of a trace

Ordering a trace succeeds exactly when its request identities differ, and then every request is
found under its identity. A request that is being served has received the first tokens of its
isolated transcript, and its reservation covers every quantum it can be given.
-/

namespace Leone.Trace

open Framework Framework.Method Scheduler

/-! ## Looking up a request -/

theorem collectSources_foldl (requests : List ServiceTraceRequest)
    (sources : SortedMap RequestId ServiceTraceRequest) :
    let collected := requests.foldl
      (fun sources request => sources.insert request.spec.id request) sources
    (∀ id source, collected.get? id = some source →
      (source ∈ requests ∧ source.spec.id = id) ∨ sources.get? id = some source) ∧
    ∀ id, (∃ request ∈ requests, request.spec.id = id) ∨ (∃ source, sources.get? id = some source) →
      ∃ source, collected.get? id = some source := by
  induction requests generalizing sources with
  | nil => simp
  | cons request rest ih =>
    obtain ⟨hfound, hkept⟩ := ih (sources.insert request.spec.id request)
    simp only [List.foldl_cons]
    constructor
    · intro id source hget
      rcases hfound id source hget with ⟨hmem, hid⟩ | hold
      · exact .inl ⟨List.mem_cons_of_mem _ hmem, hid⟩
      · rw [SortedMap.get?_insert] at hold
        split_ifs at hold with hid
        · cases hold
          exact .inl ⟨List.mem_cons_self, hid.symm⟩
        · exact .inr hold
    · intro id hknown
      apply hkept
      rcases hknown with ⟨other, hmem, hid⟩ | ⟨source, hget⟩
      · rcases List.mem_cons.mp hmem with heq | hrest
        · subst heq
          exact .inr ⟨other, by rw [← hid, SortedMap.get?_insert_self]⟩
        · exact .inl ⟨other, hrest, hid⟩
      · by_cases hid : id = request.spec.id
        · exact .inr ⟨request, by rw [hid, SortedMap.get?_insert_self]⟩
        · exact .inr ⟨source, by rw [SortedMap.get?_insert_of_ne hid, hget]⟩

/-- Every request of a list is found under its identity, and nothing else is. -/
structure SourcesOf (requests : List ServiceTraceRequest)
    (sources : SortedMap RequestId ServiceTraceRequest) : Prop where
  nodup : (requests.map fun request => request.spec.id).Nodup
  get?_iff : ∀ id source,
    sources.get? id = some source ↔ source ∈ requests ∧ source.spec.id = id

theorem mem_keys_collectSources {requests : List ServiceTraceRequest} {id : RequestId} :
    id ∈ (collectSources requests).keys ↔ id ∈ requests.map fun request => request.spec.id := by
  obtain ⟨hfound, hkept⟩ := collectSources_foldl requests ∅
  rw [SortedMap.mem_keys_iff, List.mem_map]
  constructor
  · intro hkey
    obtain ⟨source, hget⟩ := hkey
    rcases hfound id source hget with hmem | hnone
    · exact ⟨source, hmem⟩
    · cases hnone
  · intro hmem
    exact hkept id (.inl hmem)

theorem sourcesOf_collectSources {requests : List ServiceTraceRequest}
    (h : (requests.map fun request => request.spec.id).Nodup) :
    SourcesOf requests (collectSources requests) := by
  refine ⟨h, fun id source => ?_⟩
  obtain ⟨hfound, hkept⟩ := collectSources_foldl requests ∅
  constructor
  · intro hget
    rcases hfound id source hget with hmem | hnone
    · exact hmem
    · cases hnone
  · intro hmem
    obtain ⟨other, hother⟩ := hkept id (.inl ⟨source, hmem⟩)
    rcases hfound id other hother with hmem' | hnone
    · have hsame : other = source :=
        List.inj_on_of_nodup_map h hmem'.1 hmem.1 (hmem'.2.trans hmem.2.symm)
      exact hsame ▸ hother
    · cases hnone

/-- As many collected requests as there are requests means that their identities differ. -/
theorem nodup_of_size {requests : List ServiceTraceRequest}
    (h : (collectSources requests).size = requests.length) :
    (requests.map fun request => request.spec.id).Nodup := by
  have hkeys := (collectSources requests).nodup_keys
  have hsub : (collectSources requests).keys.Subperm
      (requests.map fun request => request.spec.id) :=
    hkeys.subperm fun id hid => mem_keys_collectSources.mp hid
  have hlength : (requests.map fun request => request.spec.id).length ≤
      (collectSources requests).keys.length := by
    rw [List.length_map, ← h, SortedMap.size, SortedMap.keys, List.length_map]
  exact (hsub.perm_of_length_le hlength).nodup_iff.mp hkeys

theorem SourcesOf.eq {requests requests' : List ServiceTraceRequest}
    {sources sources' : SortedMap RequestId ServiceTraceRequest} (h : SourcesOf requests sources)
    (h' : SourcesOf requests' sources') (hperm : requests.Perm requests') : sources = sources' := by
  ext id source
  rw [h.get?_iff, h'.get?_iff, hperm.mem_iff]

/-- Ordering a trace checks that its identities differ, and keeps its requests. -/
theorem orderServiceTrace_eq_ok {trace : ServiceTrace} {ordered : List ServiceTraceRequest}
    {sources : SortedMap RequestId ServiceTraceRequest}
    (h : orderServiceTrace trace = .ok (ordered, sources)) :
    SourcesOf ordered sources ∧ ordered.Perm trace.requests := by
  simp only [orderServiceTrace] at h
  split_ifs at h with hsize
  cases h
  refine ⟨sourcesOf_collectSources (nodup_of_size (not_not.mp hsize)), ?_⟩
  exact List.perm_insertionSort _ _

/-! ## Served requests -/

/-- A record serves the request that it was created for. -/
structure Serves (source : ServiceTraceRequest) (state : RequestState) : Prop where
  spec : state.spec = source.spec
  emitted_le : state.emittedTokens ≤ source.isolatedTokens.length
  emitted_le_max : state.emittedTokens ≤ state.spec.maxOutputTokens
  covers_prefill : ¬ state.status.isTerminal →
    state.remainingPrefillTokens ≤ state.reservedKvBytes
  covers_decode : ¬ state.status.isTerminal → state.remainingTokens ≤ state.reservedKvBytes
  unflagged : state.status = .queued → state.cancellationRequested = false
  finished : state.status = .finished →
    state.emittedTokens = source.isolatedTokens.length ∨
      state.emittedTokens = state.spec.maxOutputTokens

/-- The page-rounded charge covers the tokens it was computed for. -/
theorem le_reservation {policy : SchedulerPolicy} {spec : RequestSpec} {bytes : Nat}
    (hpolicy : PolicyOk policy) (h : reservation? policy spec = some bytes) :
    (spec.promptTokens : Nat) - spec.prefixReusedTokens + spec.maxOutputTokens ≤ bytes := by
  simp only [reservation?, Option.bind_eq_some_iff, checkedSub_eq_some, checkedAdd_eq_some,
    checkedMul_eq_some] at h
  obtain ⟨_, ⟨fresh, ⟨hle, rfl⟩, -, rfl⟩, pages, ⟨_, ⟨-, rfl⟩, hpages⟩, _, ⟨-, rfl⟩, -, rfl⟩ := h
  have hpage := hpolicy.page
  have hpages' : pages = ((spec.promptTokens : Nat) - spec.prefixReusedTokens +
      spec.maxOutputTokens + ((policy.kvPageTokens : Nat) - 1)) / policy.kvPageTokens := by
    unfold checkedDiv at hpages
    rw [if_neg (by omega)] at hpages
    exact (Option.some.inj hpages).symm
  have hround : (spec.promptTokens : Nat) - spec.prefixReusedTokens + spec.maxOutputTokens ≤
      pages * policy.kvPageTokens := by
    rw [hpages']
    generalize (spec.promptTokens : Nat) - spec.prefixReusedTokens + spec.maxOutputTokens = tokens
    have hlt : tokens + ((policy.kvPageTokens : Nat) - 1) <
        (tokens + ((policy.kvPageTokens : Nat) - 1)) / policy.kvPageTokens * policy.kvPageTokens +
          policy.kvPageTokens := Nat.lt_div_mul_add hpage
    omega
  exact hround.trans (Nat.le_mul_of_pos_right _ hpolicy.bytes)

end Leone.Trace
