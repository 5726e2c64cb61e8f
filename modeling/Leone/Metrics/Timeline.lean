import Leone.Metrics.Record

/-!
# Timelines

Accepted boundaries keep the timestamps of a request in order, and the first one of each request is
measured once.
-/

namespace Leone.Metrics

open Framework

/-! ## Lives -/

namespace Life

variable {life : Life} {atNs count : Nat}

theorem sound_start (atNs : Nat) : Life.Sound ⟨atNs, []⟩ :=
  ⟨nofun, Nat.le_refl atNs, Nat.two_pow_pos 64⟩

@[simp] theorem lastNs_push (life : Life) (atNs count : Nat) :
    (life.push atNs count).lastNs = atNs := by
  simp [lastNs, push]

@[simp] theorem tokens_push (life : Life) (atNs count : Nat) :
    (life.push atNs count).tokens = life.tokens + count := by
  simp [tokens, push]

@[simp] theorem seen_push (life : Life) (atNs count : Nat) : (life.push atNs count).seen = true := by
  simp [seen, push]

theorem Sound.push (h : life.Sound) (hle : life.lastNs ≤ atNs)
    (htokens : life.tokens + count < 2 ^ 64) : (life.push atNs count).Sound where
  started boundary hboundary := by
    rcases List.mem_append.mp hboundary with hboundary | hboundary
    · exact h.started boundary hboundary
    · rw [List.mem_singleton.mp hboundary]
      exact h.last.trans hle
  last := by
    rw [lastNs_push]
    exact h.last.trans hle
  tokens := by rwa [tokens_push]

theorem lastNs_of_not_seen (h : life.seen = false) : life.lastNs = life.startedNs := by
  have hnil : life.boundaries = [] := by simpa [seen] using h
  simp [lastNs, hnil]

end Life

/-! ## Steps -/

namespace Timeline

variable {timeline : Timeline} {requestId : String} {life : Life} {atNs count : Nat}

theorem countBy_insert (current : SortedMap String Life) (h : current.get? requestId = some life)
    (next : Life) : (current.insert requestId next).countBy Life.seen + life.seen.toNat =
      current.countBy Life.seen + next.seen.toNat := by
  rw [SortedMap.countBy_eq_sumBy, SortedMap.countBy_eq_sumBy]
  exact SortedMap.sumBy_insert_add next (fun life => life.seen.toNat) h

theorem Sound.start (h : timeline.Sound) (hnew : timeline.current.get? requestId = none)
    (atNs : Nat) : (timeline.start requestId atNs).Sound where
  current other found hfound := by
    rw [Timeline.start, SortedMap.get?_insert] at hfound
    split_ifs at hfound
    · cases hfound
      exact Life.sound_start atNs
    · exact h.current other found hfound
  ttft := h.ttft
  intervals := h.intervals
  finished := h.finished
  seen := by
    have hcount : (timeline.current.insert requestId ⟨atNs, []⟩).countBy Life.seen =
        timeline.current.countBy Life.seen := by
      rw [SortedMap.countBy_eq_sumBy, SortedMap.countBy_eq_sumBy,
        SortedMap.sumBy_insert_new _ _ hnew]
      exact Nat.zero_add _
    rw [seenCount, Timeline.start, hcount]
    exact h.seen

theorem Sound.boundary (h : timeline.Sound) (hlife : timeline.current.get? requestId = some life)
    (hle : life.lastNs ≤ atNs) (htokens : life.tokens + count < 2 ^ 64) :
    (timeline.boundary requestId atNs count).Sound := by
  have hsound := h.current requestId life hlife
  have hcount := countBy_insert timeline.current hlife (life.push atNs count)
  have hseen := h.seen
  simp only [Timeline.boundary, hlife]
  refine ⟨?_, ?_, h.intervals, h.finished, ?_⟩
  · intro other found hfound
    rw [SortedMap.get?_insert] at hfound
    split_ifs at hfound
    · cases hfound
      exact hsound.push hle htokens
    · exact h.current other found hfound
  · intro pair hpair
    dsimp only at hpair
    split_ifs at hpair
    · exact h.ttft pair hpair
    · rcases List.mem_append.mp hpair with hpair | hpair
      · exact h.ttft pair hpair
      · rw [List.mem_singleton.mp hpair]
        exact hsound.last.trans hle
  · rw [Life.seen_push, Bool.toNat_true] at hcount
    rw [seenCount] at hseen ⊢
    dsimp only
    by_cases hfirst : life.seen = true
    · rw [if_pos hfirst]
      rw [hfirst, Bool.toNat_true] at hcount
      omega
    · rw [if_neg hfirst, List.length_append, List.length_singleton]
      rw [Bool.not_eq_true] at hfirst
      rw [hfirst, Bool.toNat_false] at hcount
      omega

theorem Sound.token (h : timeline.Sound) (hlife : timeline.current.get? requestId = some life)
    (hle : life.lastNs ≤ atNs) (htokens : life.tokens + 1 < 2 ^ 64) :
    (timeline.token requestId atNs).Sound := by
  have hboundary := h.boundary hlife hle htokens
  simp only [Timeline.token, hlife]
  refine ⟨hboundary.current, hboundary.ttft, ?_, hboundary.finished, hboundary.seen⟩
  intro pair hpair
  dsimp only at hpair
  split_ifs at hpair
  · rcases List.mem_append.mp hpair with hpair | hpair
    · exact h.intervals pair hpair
    · rw [List.mem_singleton.mp hpair]
      exact hle
  · exact h.intervals pair hpair

theorem Sound.finish (h : timeline.Sound) (hlife : timeline.current.get? requestId = some life)
    {completedAtNs : Option Nat} (hle : ∀ atNs, completedAtNs = some atNs → life.lastNs ≤ atNs)
    (outcome : String) : (timeline.finish requestId completedAtNs outcome).Sound := by
  have hcount : timeline.current.countBy Life.seen = life.seen.toNat +
      (timeline.current.remove requestId).countBy Life.seen := by
    rw [SortedMap.countBy_eq_sumBy, SortedMap.countBy_eq_sumBy]
    exact SortedMap.sumBy_remove_add (fun life => life.seen.toNat) hlife
  have hseen := h.seen
  simp only [Timeline.finish, hlife]
  refine ⟨?_, h.ttft, h.intervals, ?_, ?_⟩
  · intro other found hfound
    rw [SortedMap.get?_remove] at hfound
    split_ifs at hfound
    exact h.current other found hfound
  · intro finish hfinish
    rcases List.mem_append.mp hfinish with hfinish | hfinish
    · exact h.finished finish hfinish
    · rw [List.mem_singleton.mp hfinish]
      exact ⟨h.current requestId life hlife, hle⟩
  · rw [seenCount] at hseen ⊢
    rw [List.countP_append, List.countP_singleton]
    cases hfirst : life.seen with
    | true =>
      rw [hfirst, Bool.toNat_true] at hcount
      simp only [if_true]
      omega
    | false =>
      rw [hfirst, Bool.toNat_false] at hcount
      simp only [Bool.false_eq_true, if_false]
      omega

theorem boundary_first (hlife : timeline.current.get? requestId = some life)
    (hseen : life.seen = false) (atNs count : Nat) : timeline.boundary requestId atNs count =
      { timeline with
        current := timeline.current.insert requestId (life.push atNs count)
        ttft := timeline.ttft ++ [(life.startedNs, atNs)] } := by
  simp [boundary, hlife, hseen]

theorem boundary_later (hlife : timeline.current.get? requestId = some life)
    (hseen : life.seen = true) (atNs count : Nat) : timeline.boundary requestId atNs count =
      { timeline with
        current := timeline.current.insert requestId (life.push atNs count) } := by
  simp [boundary, hlife, hseen]

theorem token_first (hlife : timeline.current.get? requestId = some life)
    (hseen : life.seen = false) (atNs : Nat) : timeline.token requestId atNs =
      { timeline with
        current := timeline.current.insert requestId (life.push atNs 1)
        ttft := timeline.ttft ++ [(life.startedNs, atNs)] } := by
  simp [token, boundary, hlife, hseen]

theorem token_later (hlife : timeline.current.get? requestId = some life)
    (hseen : life.seen = true) (atNs : Nat) : timeline.token requestId atNs =
      { timeline with
        current := timeline.current.insert requestId (life.push atNs 1)
        intervals := timeline.intervals ++ [(life.lastNs, atNs)] } := by
  simp [token, boundary, hlife, hseen]

theorem finish_eq (hlife : timeline.current.get? requestId = some life)
    (completedAtNs : Option Nat) (outcome : String) :
    timeline.finish requestId completedAtNs outcome =
      { timeline with
        current := timeline.current.remove requestId
        ended := timeline.ended ++ [life]
        finished := timeline.finished ++ [⟨requestId, outcome, life, completedAtNs⟩] } := by
  simp [finish, hlife]

theorem sound_empty : Timeline.empty.Sound :=
  ⟨nofun, nofun, nofun, nofun, rfl⟩

end Timeline

end Leone.Metrics
