import Leone.Cpu.Segments

/-!
# Attention over segments agrees with attention over a whole cache

The spans of a table find each position in its segment. Attention over them then folds over the same
values as attention over the whole cache, so the two write the same output or refuse alike.
-/

namespace Leone.Cpu

open Framework Framework.Method Kv

/-! ## Folds that agree -/

section Uniform

variable {R β ι ε σ : Type} {P : R → Prop}

theorem foldlM_uniform (is : List ι) {f : R → β → ι → Except ε β} {I : β → Prop}
    (hf : ∀ i ∈ is, ∀ b, I b → ∃ b', I b' ∧ ∀ r, P r → f r b i = .ok b') {b : β} (hb : I b) :
    ∃ b', I b' ∧ ∀ r, P r → is.foldlM (f r) b = .ok b' := by
  induction is generalizing b with
  | nil => exact ⟨b, hb, fun _ _ => rfl⟩
  | cons i is ih =>
    rw [List.forall_mem_cons] at hf
    obtain ⟨b', hb', hstep⟩ := hf.1 b hb
    obtain ⟨b'', hb'', hrest⟩ := ih hf.2 hb'
    refine ⟨b'', hb'', fun r hr => ?_⟩
    rw [List.foldlM_cons, hstep r hr]
    exact hrest r hr

theorem mapM_uniform (is : List ι) {f : R → ι → Except ε β} (hf : ∀ i ∈ is, ∃ b, ∀ r, P r → f r i = .ok b) :
    ∃ bs : List β, bs.length = is.length ∧ ∀ r, P r → is.mapM (f r) = .ok bs := by
  induction is with
  | nil => exact ⟨[], rfl, fun _ _ => rfl⟩
  | cons i is ih =>
    rw [List.forall_mem_cons] at hf
    obtain ⟨b, hb⟩ := hf.1
    obtain ⟨bs, hlength, hrest⟩ := ih hf.2
    refine ⟨b :: bs, by simp [hlength], fun r hr => ?_⟩
    rw [List.mapM_cons, hb r hr, hrest r hr]
    rfl

theorem forM_uniform (is : List ι) {f : R → ι → Method σ ε Unit} {I : σ → Prop}
    (hf : ∀ i ∈ is, ∀ s, I s → ∃ s', I s' ∧ ∀ r, P r → (f r i).run s = .ok () s') {s : σ} (hs : I s) :
    ∃ s', I s' ∧ ∀ r, P r → (forM is (f r)).run s = .ok () s' := by
  induction is generalizing s with
  | nil => exact ⟨s, hs, fun _ _ => rfl⟩
  | cons i is ih =>
    rw [List.forall_mem_cons] at hf
    obtain ⟨s', hs', hstep⟩ := hf.1 s hs
    obtain ⟨s'', hs'', hrest⟩ := ih hf.2 hs'
    refine ⟨s'', hs'', fun r hr => ?_⟩
    rw [List.forM_cons, EStateM.run_bind, hstep r hr]
    exact hrest r hr

theorem forM_eq_ok {is : List ι} {f : ι → Except ε Unit} (hf : ∀ i ∈ is, f i = .ok ()) :
    is.forM f = .ok () := by
  induction is with
  | nil => rfl
  | cons i is ih =>
    rw [List.forall_mem_cons] at hf
    show (f i >>= fun _ => is.forM f) = _
    rw [hf.1]
    exact ih hf.2

end Uniform

section Rows

variable {F : Type} (arith : AttentionArithmetic F) {shape : AttentionShape}

/-- A read gives these values for the first positions. -/
def ReadsAs (shape : AttentionShape) (positions : Nat) (values : Bool → Nat → Nat → Nat → F)
    (read : CacheRead F) : Prop :=
  ∀ key, ∀ kvHead < shape.nHeadKv, ∀ position < positions, ∀ dimension < shape.headDim,
    read key kvHead position dimension = .ok (values key kvHead position dimension)

variable {positions : Nat} (values : Bool → Nat → Nat → Nat → F) {query : List F}

theorem indexed_of_lt {index : Nat} (h : index < query.length) :
    ∃ value, indexed query index = .ok value := by
  unfold indexed
  rw [List.getElem?_eq_getElem h]
  exact ⟨_, rfl⟩

theorem dotProduct_uniform {queryBase kvHead position : Nat} (hhead : kvHead < shape.nHeadKv)
    (hposition : position < positions) (hquery : queryBase + shape.headDim ≤ query.length) :
    ∃ dot, ∀ read, ReadsAs shape positions values read →
      dotProduct arith read query queryBase kvHead position shape.headDim = .ok dot := by
  obtain ⟨dot, -, hdot⟩ : ∃ dot, True ∧ ∀ read, ReadsAs shape positions values read →
      dotProduct arith read query queryBase kvHead position shape.headDim = .ok dot := by
    unfold dotProduct
    apply foldlM_uniform (List.range shape.headDim) _ trivial
    intro dimension hdimension dot _
    rw [List.mem_range] at hdimension
    obtain ⟨value, hvalue⟩ := indexed_of_lt (show queryBase + dimension < query.length by omega)
    refine ⟨arith.mulAdd value (values true kvHead position dimension) dot, trivial, fun read hread => ?_⟩
    rw [hvalue, hread true kvHead hhead position hposition dimension hdimension]
    rfl
  exact ⟨dot, hdot⟩

theorem attendPosition_uniform {queryBase kvHead position : Nat} (hhead : kvHead < shape.nHeadKv)
    (hposition : position < positions) (hquery : queryBase + shape.headDim ≤ query.length)
    {state : Softmax F} (hstate : state.numerator.length = shape.headDim) :
    ∃ state' : Softmax F, state'.numerator.length = shape.headDim ∧
      ∀ read, ReadsAs shape positions values read →
        attendPosition arith read query queryBase kvHead shape.headDim state position = .ok state' := by
  obtain ⟨dot, hdot⟩ := dotProduct_uniform arith values hhead hposition hquery
  let score := arith.mul dot (arith.scale shape.headDim)
  let nextMax := arith.max state.runningMax score
  let previousScale := if arith.isZero state.runningSum then arith.zero
    else arith.exp (arith.sub state.runningMax nextMax)
  let scoreScale := arith.exp (arith.sub score nextMax)
  obtain ⟨numerator, hlength, hnumerator⟩ : ∃ numerator : List F,
      numerator.length = state.numerator.zipIdx.length ∧ ∀ read, ReadsAs shape positions values read →
        (state.numerator.zipIdx.mapM fun (entry : F × Nat) => do
          let value ← read false kvHead position entry.2
          return arith.add (arith.mul entry.1 previousScale) (arith.mul scoreScale value)) =
            .ok numerator := by
    apply mapM_uniform
    intro entry hentry
    have hdimension := (List.mem_zipIdx hentry).2.1
    rw [Nat.zero_add, hstate] at hdimension
    refine ⟨arith.add (arith.mul entry.1 previousScale)
      (arith.mul scoreScale (values false kvHead position entry.2)), fun read hread => ?_⟩
    rw [hread false kvHead hhead position hposition entry.2 hdimension]
    rfl
  rw [List.length_zipIdx, hstate] at hlength
  refine ⟨⟨numerator, nextMax,
    arith.add (arith.mul state.runningSum previousScale) scoreScale⟩, hlength, fun read hread => ?_⟩
  rw [attendPosition, hdot read hread]
  have hmapped := hnumerator read hread
  show (do
    let numerator ← state.numerator.zipIdx.mapM fun (entry : F × Nat) => do
      let value ← read false kvHead position entry.2
      return arith.add (arith.mul entry.1 previousScale) (arith.mul scoreScale value)
    return (⟨numerator, nextMax,
      arith.add (arith.mul state.runningSum previousScale) scoreScale⟩ : Softmax F)) = _
  rw [hmapped]
  rfl

theorem attendHead_uniform {queryBase kvHead contextLength elements : Nat}
    (hhead : kvHead < shape.nHeadKv) (hcontext : contextLength ≤ positions)
    (hquery : queryBase + shape.headDim ≤ query.length) (hfits : queryBase + shape.headDim ≤ elements)
    {output : List F} (houtput : output.length = elements) :
    ∃ output' : List F, output'.length = elements ∧ ∀ read, ReadsAs shape positions values read →
      (attendHead arith read query queryBase kvHead shape.headDim contextLength).run output =
        .ok () output' := by
  obtain ⟨state, hstate, hfold⟩ : ∃ state : Softmax F, state.numerator.length = shape.headDim ∧
      ∀ read, ReadsAs shape positions values read →
        (List.range contextLength).foldlM
          (attendPosition arith read query queryBase kvHead shape.headDim)
          ⟨List.replicate shape.headDim arith.zero, arith.negInfinity, arith.zero⟩ = .ok state := by
    apply foldlM_uniform
    · intro position hposition state hstate
      exact attendPosition_uniform arith values hhead ((List.mem_range.mp hposition).trans_le hcontext) hquery
        hstate
    · exact List.length_replicate
  let row := state.numerator.map fun value => arith.div value state.runningSum
  have hrow : queryBase + row.length ≤ output.length := by
    rw [List.length_map, hstate, houtput]
    exact hfits
  refine ⟨copyFromSlice output queryBase row, (length_copyFromSlice hrow).trans houtput,
    fun read hread => ?_⟩
  have hstored : storeAt output queryBase (state.numerator.map fun value =>
      arith.div value state.runningSum) = some (copyFromSlice output queryBase row) := storeAt_eq hrow
  simp only [EStateM.run, attendHead, hfold read hread, hstored]

/-- The KV head of a query head. -/
theorem kvHead_lt {queryHead : Nat} (hgroups : shape.nHead % shape.nHeadKv = 0)
    (h : queryHead < shape.nHead) : queryHead / (shape.nHead / shape.nHeadKv) < shape.nHeadKv := by
  have hproduct : shape.nHead / shape.nHeadKv * shape.nHeadKv = shape.nHead :=
    Nat.div_mul_cancel (Nat.dvd_of_mod_eq_zero hgroups)
  apply Nat.div_lt_of_lt_mul
  rwa [hproduct]

theorem attendRow_uniform {row tokens contextLength : Nat} (hgroups : shape.nHead % shape.nHeadKv = 0)
    (hrow : row < tokens) (hcontext : contextLength ≤ positions)
    (hquery : query.length = tokens * (shape.nHead * shape.headDim)) {output : List F}
    (houtput : output.length = tokens * (shape.nHead * shape.headDim)) :
    ∃ output' : List F, output'.length = tokens * (shape.nHead * shape.headDim) ∧
      ∀ read, ReadsAs shape positions values read →
        (attendRow arith read query shape row contextLength).run output = .ok () output' := by
  unfold attendRow
  refine forM_uniform (List.range shape.nHead) (I := fun output : List F =>
    output.length = tokens * (shape.nHead * shape.headDim)) ?_ houtput
  intro queryHead hmem output houtput
  have hqueryHead := List.mem_range.mp hmem
  have hplace : row * shape.nHead + queryHead + 1 ≤ tokens * shape.nHead := by
    have := Nat.mul_le_mul_right shape.nHead (Nat.succ_le_of_lt hrow)
    rw [Nat.succ_mul] at this
    omega
  have hfits : (row * shape.nHead + queryHead) * shape.headDim + shape.headDim ≤
      tokens * (shape.nHead * shape.headDim) := by
    rw [← Nat.succ_mul, ← Nat.mul_assoc]
    exact Nat.mul_le_mul_right _ hplace
  exact attendHead_uniform arith values (kvHead_lt hgroups hqueryHead) hcontext (hquery ▸ hfits) hfits houtput

theorem attendBlock_uniform {start tokens : Nat} (hgroups : shape.nHead % shape.nHeadKv = 0)
    (hend : start + tokens ≤ positions) (hquery : query.length = tokens * (shape.nHead * shape.headDim))
    {output : List F} (houtput : output.length = tokens * (shape.nHead * shape.headDim)) :
    ∃ output' : List F, output'.length = tokens * (shape.nHead * shape.headDim) ∧
      ∀ read, ReadsAs shape positions values read →
        (forM (List.range tokens) fun token =>
          attendRow arith read query shape token (start + token + 1) :
            Method (List F) BackendError Unit).run output = .ok () output' := by
  refine forM_uniform (List.range tokens) (I := fun output : List F =>
    output.length = tokens * (shape.nHead * shape.headDim)) ?_ houtput
  intro token hmem output houtput
  have htoken := List.mem_range.mp hmem
  exact attendRow_uniform arith values hgroups htoken (by omega) hquery houtput

end Rows

/-! ## Views -/

section Views

variable {F : Type}

/-- The span of a segment, if it maps any row. -/
def Segment.readSpan (segment : Segment F) (tokens : Nat) : Except BackendError (List (KvReadSpan F)) :=
  if tokens = 0 then .ok []
  else (KvReadSpan.new segment.caches segment.target.logicalStart tokens
    segment.target.capacityTokens).map fun span => [span]

/-- The spans of the segments. A tail with a pending append maps all its rows. -/
def readSpans (pending : Bool) : List (Segment F) → Except BackendError (List (KvReadSpan F))
  | [] => .ok []
  | segment :: segments => do
    let spans ← segment.readSpan (if pending ∧ segments = [] then segment.target.capacityTokens
      else segment.committedTokens)
    return spans ++ (← readSpans pending segments)

/-- The span of a segment, by the rows that it maps. -/
theorem Segment.readSpan_eq {segment : Segment F} {tokens : Nat}
    (hle : tokens ≤ segment.target.capacityTokens) : segment.readSpan tokens =
      .ok (if tokens = 0 then [] else [⟨segment.caches, segment.target.logicalStart, tokens,
        segment.target.capacityTokens⟩]) := by
  unfold Segment.readSpan
  split
  · rfl
  · rename_i htokens
    have hcapacity := segment.target.capacityTokens_pos
    have hspan : KvReadSpan.new segment.caches segment.target.logicalStart tokens
        segment.target.capacityTokens = .ok ⟨segment.caches, segment.target.logicalStart, tokens,
          segment.target.capacityTokens⟩ := by
      unfold KvReadSpan.new
      rw [nonzero, if_neg htokens, nonzero, if_neg (by omega), if_neg (by omega),
        sized_eq_ok.mpr (checkedAdd_eq_some.mpr ⟨segment.target.stop_lt, rfl⟩)]
      rfl
    rw [hspan]
    rfl

/-- A span that a list of spans finds for a position. -/
def spanAt (spans : List (KvReadSpan F)) (position : Nat) : Option (KvReadSpan F × Nat) :=
  KvReadView.spanForPosition ⟨spans, 0⟩ position

theorem spanAt_cons {span : KvReadSpan F} {spans : List (KvReadSpan F)} {position : Nat} :
    spanAt (span :: spans) position =
      if span.logicalStart ≤ position ∧ position - span.logicalStart < span.tokens then
        some (span, position - span.logicalStart)
      else spanAt spans position := by
  unfold spanAt KvReadView.spanForPosition
  rw [List.findSome?_cons]
  unfold checkedSub
  by_cases hstart : span.logicalStart ≤ position
  · by_cases hinside : position - span.logicalStart < span.tokens
    · simp [hstart, hinside]
    · simp [hstart, hinside]
  · simp [hstart]

/-- The spans of a segment and where it is found. -/
structure SpansOf (first last mapped : Nat) (segments : List (Segment F))
    (spans : List (KvReadSpan F)) : Prop where
  reaches : last ≤ mapped
  covers : spans.foldlM KvReadView.extend first = .ok mapped
  finds : ∀ position, first ≤ position → position < last → ∃ segment ∈ segments,
    ∃ place < segment.committedTokens, segment.target.logicalStart + place = position ∧
      ∃ span, spanAt spans position = some (span, place) ∧ span.caches = segment.caches ∧
        span.capacityTokens = segment.target.capacityTokens
  caches : ∀ span ∈ spans, ∃ segment ∈ segments, span.caches = segment.caches ∧
    span.capacityTokens = segment.target.capacityTokens

theorem SpansOf.cons {first last mapped tokens : Nat} {segment : Segment F}
    {segments : List (Segment F)} {spans : List (KvReadSpan F)}
    (h : SpansOf (first + tokens) last mapped segments spans)
    (hstart : segment.target.logicalStart = first) (hmapped : segment.committedTokens ≤ tokens)
    (hcapacity : tokens ≤ segment.target.capacityTokens)
    (htail : tokens = segment.committedTokens ∨ last ≤ first + segment.committedTokens) :
    SpansOf first last mapped (segment :: segments)
      ((if tokens = 0 then [] else [⟨segment.caches, segment.target.logicalStart, tokens,
        segment.target.capacityTokens⟩]) ++ spans) := by
  have hstop := segment.target.stop_lt
  by_cases htokens : tokens = 0
  · subst htokens
    rw [if_pos rfl, List.nil_append]
    rw [Nat.add_zero] at h
    refine ⟨h.reaches, h.covers, fun position hfirst hlast => ?_, fun span hmem => ?_⟩
    · obtain ⟨other, hother, hfound⟩ := h.finds position hfirst hlast
      exact ⟨other, List.mem_cons_of_mem _ hother, hfound⟩
    · obtain ⟨other, hother, hsame⟩ := h.caches span hmem
      exact ⟨other, List.mem_cons_of_mem _ hother, hsame⟩
  · rw [if_neg htokens, List.singleton_append]
    constructor
    · exact h.reaches
    · have hextend : KvReadView.extend first (⟨segment.caches, segment.target.logicalStart, tokens,
          segment.target.capacityTokens⟩ : KvReadSpan F) = .ok (first + tokens) := by
        rw [KvReadView.extend, if_neg (not_not.mpr hstart), hstart]
        have hfits : first + tokens < 2 ^ 64 := by omega
        exact sized_eq_ok.mpr (checkedAdd_eq_some.mpr ⟨hfits, rfl⟩)
      rw [List.foldlM_cons, hextend]
      exact h.covers
    · intro position hfirst hlast
      rw [spanAt_cons]
      dsimp only
      by_cases hinside : position < first + segment.committedTokens
      · rw [if_pos (by omega)]
        exact ⟨segment, List.mem_cons_self, position - segment.target.logicalStart, by omega, by omega,
          _, rfl, rfl, rfl⟩
      · rw [if_neg (by omega)]
        obtain ⟨other, hother, hfound⟩ := h.finds position (by omega) hlast
        exact ⟨other, List.mem_cons_of_mem _ hother, hfound⟩
    · intro span hmem
      rcases List.mem_cons.mp hmem with rfl | hmem
      · exact ⟨segment, List.mem_cons_self, rfl, rfl⟩
      · obtain ⟨other, hother, hsame⟩ := h.caches span hmem
        exact ⟨other, List.mem_cons_of_mem _ hother, hsame⟩

theorem Gapless.spans {first last : Nat} {segments : List (Segment F)} (pending : Bool)
    (h : Gapless first segments last) : ∃ mapped spans, readSpans pending segments = .ok spans ∧
      SpansOf first last mapped segments spans := by
  induction segments generalizing first with
  | nil =>
    have heq : first = last := h
    refine ⟨first, [], rfl, heq.ge, rfl, fun position hfirst hlast => ?_, fun _ hmem => ?_⟩
    · omega
    · cases hmem
  | cons segment segments ih =>
    obtain ⟨hstart, hcapacity, hrest⟩ := h
    obtain ⟨mapped, spans, hspans, hof⟩ := ih hrest
    unfold readSpans
    by_cases htail : pending ∧ segments = []
    · obtain ⟨hpending, rfl⟩ := htail
      have hlast : first + segment.committedTokens = last := hrest
      have hempty : SpansOf (first + segment.target.capacityTokens) last
          (first + segment.target.capacityTokens) ([] : List (Segment F)) [] := by
        refine ⟨by omega, rfl, fun position hfirst hlast => ?_, fun _ hmem => ?_⟩
        · omega
        · cases hmem
      rw [if_pos ⟨hpending, rfl⟩, Segment.readSpan_eq le_rfl]
      exact ⟨_, _, rfl, hempty.cons hstart hcapacity le_rfl (.inr hlast.ge)⟩
    · rw [if_neg htail, Segment.readSpan_eq hcapacity, hspans]
      exact ⟨mapped, _, rfl, hof.cons hstart le_rfl hcapacity (.inl rfl)⟩

end Views

/-! ## Reads -/

section Reads

variable {F : Type} {arith : AttentionArithmetic F} {storage : BufferStorage} {shape : AttentionShape}
  {twin : Twin F}

/-- The index of a cell of a span fits in a word. -/
theorem spanIndex_eq {capacityTokens kvHead place dimension : Nat} {physical : AttentionShape}
    (hphysical : physicalAttentionShape shape capacityTokens = .ok physical)
    (hhead : kvHead < shape.nHeadKv) (hplace : place < capacityTokens)
    (hdimension : dimension < shape.headDim) :
    spanIndex kvHead capacityTokens place shape.headDim dimension =
      .ok ((kvHead * capacityTokens + place) * shape.headDim + dimension) := by
  obtain ⟨hheads, hdim, hcontext⟩ := physicalAttentionShape_eq_ok hphysical
  have hlt := physical.kvElements_lt
  rw [hheads, hdim, hcontext] at hlt
  have hrow : kvHead * capacityTokens + place < shape.nHeadKv * capacityTokens := place_lt hhead hplace
  have hcell := place_lt hrow hdimension
  have hscale := Nat.le_mul_of_pos_right (kvHead * capacityTokens + place) shape.headDim_pos
  have hfirst : sized ((checkedMul 64 kvHead capacityTokens).bind fun value =>
      checkedAdd 64 value place) "KV span row index" = .ok (kvHead * capacityTokens + place) := by
    rw [sized_eq_ok, Option.bind_eq_some_iff]
    exact ⟨_, checkedMul_eq_some.mpr ⟨by omega, rfl⟩, checkedAdd_eq_some.mpr ⟨by omega, rfl⟩⟩
  unfold spanIndex
  rw [hfirst]
  show sized _ _ = _
  rw [sized_eq_ok, Option.bind_eq_some_iff]
  exact ⟨_, checkedMul_eq_some.mpr ⟨by omega, rfl⟩, checkedAdd_eq_some.mpr ⟨by omega, rfl⟩⟩

/-- What the whole cache of a mirrored table loads, and where its spans load the same. -/
theorem Mirrors.reads (h : Mirrors arith.toArithmetic storage shape twin) {mapped : Nat}
    {spans : List (KvReadSpan F)} (hof : SpansOf 0 twin.position mapped twin.segments spans)
    (keyOperation valueOperation : String) : ∃ values,
      ReadsAs shape twin.position values
        (cacheRead arith twin.whole.key twin.whole.value shape keyOperation valueOperation) ∧
      ReadsAs shape twin.position values (spanCacheValue arith ⟨spans, mapped⟩ shape) := by
  have hloads : ∀ key kvHead position dimension, ∃ loaded, kvHead < shape.nHeadKv →
      position < twin.position → dimension < shape.headDim →
      cacheRead arith twin.whole.key twin.whole.value shape keyOperation valueOperation key kvHead
        position dimension = .ok loaded ∧
      spanCacheValue arith ⟨spans, mapped⟩ shape key kvHead position dimension = .ok loaded := by
    intro key kvHead position dimension
    by_cases hrange : kvHead < shape.nHeadKv ∧ position < twin.position ∧ dimension < shape.headDim
    · obtain ⟨hhead, hposition, hdimension⟩ := hrange
      obtain ⟨segment, hsegment, place, hplace, rfl, span, hspan, hcaches, hcapacity⟩ :=
        hof.finds position (Nat.zero_le _) hposition
      obtain ⟨physical, hphysical, -⟩ := h.caches segment hsegment
      obtain ⟨hheads, hdim, hcontext⟩ := physicalAttentionShape_eq_ok hphysical
      obtain ⟨loaded, hloaded⟩ := h.loads segment hsegment key kvHead hhead place hplace dimension
        hdimension
      refine ⟨loaded, fun _ _ _ => ⟨?_, ?_⟩⟩
      · cases key with
        | true => exact (hloaded keyOperation).1
        | false => exact (hloaded valueOperation).1
      · have hroom := hplace.trans_le (h.gapless.bounds hsegment).2
        unfold spanCacheValue
        rw [show KvReadView.spanForPosition ⟨spans, mapped⟩ _ = some (span, place) from hspan]
        simp only [hcapacity, spanIndex_eq hphysical hhead hroom hdimension, hcaches]
        cases key with
        | true => exact (hloaded _).2
        | false => exact (hloaded _).2
    · exact ⟨arith.zero, fun hhead hposition hdimension =>
        absurd ⟨hhead, hposition, hdimension⟩ hrange⟩
  choose values hvalues using hloads
  refine ⟨values, ?_, ?_⟩
  · exact fun key kvHead hhead position hposition dimension hdimension =>
      (hvalues key kvHead position dimension hhead hposition hdimension).1
  · exact fun key kvHead hhead position hposition dimension hdimension =>
      (hvalues key kvHead position dimension hhead hposition hdimension).2

end Reads

/-! ## The operations -/

section Operations

variable {F : Type} {shape : AttentionShape} {tokens : Nat} {query output : CpuBuffer F}

/-- A query and an output of the size of a block of tokens. -/
structure Given (query output : CpuBuffer F) (shape : AttentionShape) (tokens : Nat) (q o : List F) :
    Prop where
  query : query.storage = .f32 q
  output : output.storage = .f32 o
  fits : tokens * (shape.nHead * shape.headDim) < 2 ^ 64
  queryLength : q.length = tokens * (shape.nHead * shape.headDim)
  outputLength : o.length = tokens * (shape.nHead * shape.headDim)

/-- An operation that runs its rows on a query and an output of its size, and refuses any others. -/
structure Attends (query output : CpuBuffer F) (shape : AttentionShape) (tokens : Nat)
    (rows : List F → Method (List F) BackendError Unit) (operation : AttentionM F Unit) : Prop where
  runs : ∀ q o, Given query output shape tokens q o → operation.run output =
    (zoom (fun _ => o) CpuBuffer.withF32 (rows q) : AttentionM F Unit).run output
  refuses : (∀ q o, ¬ Given query output shape tokens q o) →
    ∃ e, operation.run output = .error (.error e) output

/-- Both write the same output, or both refuse and leave the output as it is. -/
def Agree (operation operation' : AttentionM F Unit) (output : CpuBuffer F) : Prop :=
  (∃ after, operation.run output = .ok () after ∧ operation'.run output = .ok () after) ∨
    ∃ e e', operation.run output = .error (.error e) output ∧
      operation'.run output = .error (.error e') output

theorem Attends.agree {rows rows' : List F → Method (List F) BackendError Unit}
    {operation operation' : AttentionM F Unit} (h : Attends query output shape tokens rows operation)
    (h' : Attends query output shape tokens rows' operation')
    (hrows : ∀ q o, Given query output shape tokens q o →
      ∃ values, (rows q).run o = .ok () values ∧ (rows' q).run o = .ok () values) :
    Agree operation operation' output := by
  by_cases hgiven : ∃ q o, Given query output shape tokens q o
  · obtain ⟨q, o, hgiven⟩ := hgiven
    obtain ⟨values, hvalues, hvalues'⟩ := hrows q o hgiven
    refine .inl ⟨CpuBuffer.withF32 values output, ?_, ?_⟩
    · rw [h.runs q o hgiven]
      simp only [zoom, EStateM.run] at hvalues ⊢
      rw [hvalues]
    · rw [h'.runs q o hgiven]
      simp only [zoom, EStateM.run] at hvalues' ⊢
      rw [hvalues']
  · have hnone : ∀ q o, ¬ Given query output shape tokens q o := fun q o h => hgiven ⟨q, o, h⟩
    obtain ⟨e, he⟩ := h.refuses hnone
    obtain ⟨e', he'⟩ := h'.refuses hnone
    exact .inr ⟨e, e', he, he'⟩

/-- The part of each operation after the checks of its positions. -/
theorem attends_tail {rows : List F → Method (List F) BackendError Unit}
    {validate : List F → List F → Except BackendError Unit}
    {rest : List F → List F → AttentionM F Unit}
    (hvalidate : ∀ q o, query.storage = .f32 q → output.storage = .f32 o →
      (validate q o = .ok () ↔ Given query output shape tokens q o))
    (hrest : ∀ q o, Given query output shape tokens q o →
      rest q o = zoom (fun _ => o) CpuBuffer.withF32 (rows q)) :
    Attends query output shape tokens rows (do
      let query ← ofExcept query.f32
      let output ← get
      let values ← ofExcept output.f32Mut
      ofExcept (validate query values)
      rest query values) := by
  constructor
  · intro q o hgiven
    have hvalid := (hvalidate q o hgiven.query hgiven.output).mpr hgiven
    rw [CpuBuffer.f32_eq_ok.mpr hgiven.query, ofExcept_ok_bind, EStateM.run_bind, EStateM.run_get]
    dsimp only
    rw [CpuBuffer.f32Mut_eq_ok.mpr hgiven.output, ofExcept_ok_bind, hvalid, ofExcept_ok_bind,
      hrest q o hgiven]
  · intro hnone
    cases hquery : query.f32 with
    | error e => exact ⟨e, rfl⟩
    | ok q =>
      rw [ofExcept_ok_bind, EStateM.run_bind, EStateM.run_get]
      dsimp only
      cases houtput : output.f32Mut with
      | error e => exact ⟨e, rfl⟩
      | ok o =>
        rw [ofExcept_ok_bind]
        cases hvalid : validate q o with
        | error e => exact ⟨e, rfl⟩
        | ok u =>
          have hgiven := (hvalidate q o (CpuBuffer.f32_eq_ok.mp hquery)
            (CpuBuffer.f32Mut_eq_ok.mp houtput)).mp hvalid
          exact absurd hgiven (hnone q o)

theorem ensure_bind {σ ε β : Type} {c : Prop} [Decidable c] (h : c) (e : ε) (f : Unit → Method σ ε β) :
    (ensure c e >>= f : Method σ ε β) = f () := by
  unfold ensure
  rw [if_pos h]
  rfl

/-- The shape of a segment has checked the heads of the query. -/
theorem physicalAttentionShape_heads {capacityTokens : Nat} {physical : AttentionShape}
    (h : physicalAttentionShape shape capacityTokens = .ok physical) :
    shape.nHead % shape.nHeadKv = 0 ∧
      queryElements shape = .ok (shape.nHead * shape.headDim) := by
  unfold physicalAttentionShape AttentionShape.new at h
  rw [bind_eq_ok] at h
  obtain ⟨_, _, h⟩ := h
  split_ifs at h
  refine ⟨by simp_all, ?_⟩
  rw [queryElements, sized_eq_ok, checkedMul_eq_some]
  exact ⟨by omega, rfl⟩

section Whole

variable {arith : AttentionArithmetic F} {storage : BufferStorage} {caches : Caches F} {start : Nat}

theorem attentionPrefill_attends (hcaches : CachesFor storage shape caches)
    (helements : queryElements shape = .ok (shape.nHead * shape.headDim))
    (hend : start + tokens ≤ shape.maxContext) :
    Attends query output shape tokens
      (fun q => attentionPrefillRows arith q caches.key caches.value shape start tokens)
      (attentionPrefill arith query caches.key caches.value shape start tokens) := by
  have hlt := shape.maxContext_lt
  have hsized : sized (checkedAdd 64 start tokens) "prefill attention end position" =
      .ok (start + tokens) := sized_eq_ok.mpr (checkedAdd_eq_some.mpr ⟨by omega, rfl⟩)
  have hkey := (expectedKvSpanLayout_eq_ok hcaches.layout).2.2.1
  have hvalue := hkey
  rw [← hcaches.same] at hvalue
  unfold attentionPrefill
  rw [hsized, ofExcept_ok_bind, ensure_bind hend]
  apply attends_tail
  · intro q o hquery houtput
    simp only [validatePrefillAttentionBuffers, bind_eq_ok, helements, cacheElements_eq, sized_eq_ok,
      checkedMul_eq_some, exactLen_eq_ok]
    constructor
    · rintro ⟨_, ⟨⟩, _, ⟨hfits, rfl⟩, _, hq, _, ho, _⟩
      exact ⟨hquery, houtput, hfits, hq.symm, ho.symm⟩
    · intro h
      exact ⟨_, rfl, _, ⟨h.fits, rfl⟩, (), h.queryLength.symm, (), h.outputLength.symm, _, rfl, (),
        hkey.symm, hvalue.symm⟩
  · intro q o _
    exact ensure_bind (congrArg BufferLayout.storage hcaches.same.symm) _ _

theorem attentionDecode_attends (hcaches : CachesFor storage shape caches)
    (helements : queryElements shape = .ok (shape.nHead * shape.headDim)) {position : Position F}
    (hposition : resolvePosition position = .ok start) (hend : start < shape.maxContext) :
    Attends query output shape 1
      (fun q => attentionDecodeRows arith q caches.key caches.value shape (start + 1))
      (attentionDecode arith query caches.key caches.value shape position) := by
  have hlt := shape.maxContext_lt
  have hsized : sized (checkedAdd 64 start 1) "attention context length" = .ok (start + 1) :=
    sized_eq_ok.mpr (checkedAdd_eq_some.mpr ⟨by omega, rfl⟩)
  have hkey := (expectedKvSpanLayout_eq_ok hcaches.layout).2.2.1
  have hvalue := hkey
  rw [← hcaches.same] at hvalue
  have hfits := helements
  rw [queryElements, sized_eq_ok, checkedMul_eq_some] at hfits
  unfold attentionDecode
  rw [hposition, ofExcept_ok_bind, hsized, ofExcept_ok_bind, ensure_bind ⟨Nat.le_add_left 1 start, hend⟩]
  apply attends_tail
  · intro q o hquery houtput
    simp only [validateAttentionBuffers, bind_eq_ok, helements, cacheElements_eq, exactLen_eq_ok]
    constructor
    · rintro ⟨_, ⟨⟩, _, ⟨⟩, _, hq, _, _, _, _, ho⟩
      rw [← Nat.one_mul (shape.nHead * shape.headDim)] at hq ho
      refine ⟨hquery, houtput, ?_, hq.symm, ho.symm⟩
      rw [Nat.one_mul]
      exact hfits.1
    · intro h
      have hq := h.queryLength
      have ho := h.outputLength
      rw [Nat.one_mul] at hq ho
      exact ⟨_, rfl, _, rfl, (), hq.symm, (), hkey.symm, (), hvalue.symm, ho.symm⟩
  · intro q o _
    exact ensure_bind (congrArg BufferLayout.storage hcaches.same.symm) _ _

end Whole

section Spans

variable {arith : AttentionArithmetic F} {view : KvReadView F} {start : Nat}

theorem validateSpanAttentionBuffers_eq_ok
    (helements : queryElements shape = .ok (shape.nHead * shape.headDim))
    (hview : validateSpanCacheBuffers view shape = .ok ()) {q o : List F}
    (hquery : query.storage = .f32 q) (houtput : output.storage = .f32 o) :
    validateSpanAttentionBuffers q o view shape tokens = .ok () ↔
      Given query output shape tokens q o := by
  simp only [validateSpanAttentionBuffers, bind_eq_ok, helements, sized_eq_ok, checkedMul_eq_some,
    exactLen_eq_ok]
  constructor
  · rintro ⟨_, ⟨⟩, _, ⟨hfits, rfl⟩, _, hq, _, ho, _⟩
    exact ⟨hquery, houtput, hfits, hq.symm, ho.symm⟩
  · intro h
    exact ⟨_, rfl, _, ⟨h.fits, rfl⟩, (), h.queryLength.symm, (), h.outputLength.symm, hview⟩

theorem attendBlockSpans_attends (zeroField endField : String)
    (helements : queryElements shape = .ok (shape.nHead * shape.headDim))
    (hview : validateSpanCacheBuffers view shape = .ok ()) (htokens : tokens ≠ 0)
    (hend : start + tokens ≤ shape.maxContext) (hmapped : start + tokens ≤ view.mappedTokens) :
    Attends query output shape tokens
      (fun q => attentionPrefillSpanRows arith q view shape start tokens)
      (attendBlockSpans arith zeroField endField query view shape start tokens) := by
  have hlt := shape.maxContext_lt
  have hsized : sized (checkedAdd 64 start tokens) endField = .ok (start + tokens) :=
    sized_eq_ok.mpr (checkedAdd_eq_some.mpr ⟨by omega, rfl⟩)
  unfold attendBlockSpans
  rw [ensure_bind htokens, hsized, ofExcept_ok_bind, ensure_bind hend, ensure_bind hmapped]
  apply attends_tail
  · exact fun q o hquery houtput => validateSpanAttentionBuffers_eq_ok helements hview hquery houtput
  · exact fun _ _ _ => rfl

theorem attentionDecodeSpans_attends
    (helements : queryElements shape = .ok (shape.nHead * shape.headDim))
    (hview : validateSpanCacheBuffers view shape = .ok ()) {position : Position F}
    (hposition : resolvePosition position = .ok start) (hend : start < shape.maxContext)
    (hmapped : start < view.mappedTokens) :
    Attends query output shape 1
      (fun q => attentionDecodeSpanRows arith q view shape (start + 1))
      (attentionDecodeSpans arith query view shape position) := by
  have hlt := shape.maxContext_lt
  have hsized : sized (checkedAdd 64 start 1) "attention context length" = .ok (start + 1) :=
    sized_eq_ok.mpr (checkedAdd_eq_some.mpr ⟨by omega, rfl⟩)
  unfold attentionDecodeSpans
  rw [hposition, ofExcept_ok_bind, hsized, ofExcept_ok_bind, ensure_bind (Nat.succ_le_of_lt hend),
    ensure_bind (Nat.succ_le_of_lt hmapped)]
  apply attends_tail
  · exact fun q o hquery houtput => validateSpanAttentionBuffers_eq_ok helements hview hquery houtput
  · exact fun _ _ _ => rfl

end Spans

/-! ## Agreement -/

variable {arith : AttentionArithmetic F} {storage : BufferStorage} {twin : Twin F} {whole : Caches F}

/-- The spans of a mirrored table pass the checks of attention. -/
theorem Mirrors.validateSpans {arith : Arithmetic F} (h : Mirrors arith storage shape twin)
    {mapped : Nat} {spans : List (KvReadSpan F)}
    (hof : SpansOf 0 twin.position mapped twin.segments spans) (hpositions : 0 < twin.position) :
    validateSpanCacheBuffers ⟨spans, mapped⟩ shape = .ok () := by
  have hspan : ∀ span ∈ spans, validateSpan shape span = .ok () ∧
      span.caches.key.layout.storage = storage := by
    intro span hmem
    obtain ⟨segment, hsegment, hcaches, hcapacity⟩ := hof.caches span hmem
    obtain ⟨physical, hphysical, hfor⟩ := h.caches segment hsegment
    unfold validateSpan
    rw [hcapacity, hphysical, hcaches]
    exact ⟨validateKvSpanBuffers_caches hfor, (hfor.cells true).2⟩
  obtain ⟨_, _, _, _, _, span, hfound, -⟩ := hof.finds 0 le_rfl hpositions
  cases spans with
  | nil => cases hfound
  | cons first rest =>
    obtain ⟨hfirst, hstorage⟩ := hspan first List.mem_cons_self
    have hrest : ∀ span ∈ rest, (if span.caches.key.layout.storage ≠ first.caches.key.layout.storage then
        .error (.operation "read KV spans" "span storage differs")
        else validateSpan shape span : Except BackendError Unit) = .ok () := by
      intro span hmem
      obtain ⟨hvalid, hsame⟩ := hspan span (List.mem_cons_of_mem _ hmem)
      rw [hsame, hstorage, if_neg (not_not.mpr rfl)]
      exact hvalid
    unfold validateSpanCacheBuffers
    simp only [hfirst]
    exact forM_eq_ok hrest

/-- After any run, attention over the segments of a table agrees with attention over the whole cache. -/
theorem attention_agrees (hwhole : CachesFor storage shape whole)
    (hgrown : Grown arith.toArithmetic storage shape whole twin) (pending : Bool) :
    ∃ spans view, readSpans pending twin.segments = .ok spans ∧ KvReadView.new spans = .ok view ∧
      ∀ query output : CpuBuffer F,
        (∀ position start, resolvePosition position = .ok start → start < twin.position →
          Agree (attentionDecode arith query twin.whole.key twin.whole.value shape position)
            (attentionDecodeSpans arith query view shape position) output) ∧
        ∀ start tokens, tokens ≠ 0 → start + tokens ≤ twin.position →
          Agree (attentionPrefill arith query twin.whole.key twin.whole.value shape start tokens)
              (attentionPrefillSpans arith query view shape start tokens) output ∧
            Agree (attentionPrefill arith query twin.whole.key twin.whole.value shape start tokens)
              (verifyAttentionSpans arith query view shape start tokens) output := by
  have h := hgrown.mirrors hwhole
  obtain ⟨mapped, spans, hspans, hof⟩ := h.gapless.spans pending
  have hbound := h.bound
  have hreaches := hof.reaches
  have hnew : KvReadView.new spans = .ok ⟨spans, mapped⟩ := by
    unfold KvReadView.new
    rw [hof.covers]
    rfl
  have hheads : 0 < twin.position → shape.nHead % shape.nHeadKv = 0 ∧
      queryElements shape = .ok (shape.nHead * shape.headDim) := by
    intro hpositions
    obtain ⟨segment, hsegment, -⟩ := hof.finds 0 le_rfl hpositions
    obtain ⟨physical, hphysical, -⟩ := h.caches segment hsegment
    exact physicalAttentionShape_heads hphysical
  refine ⟨spans, ⟨spans, mapped⟩, hspans, hnew, fun query output => ⟨?_, ?_⟩⟩
  · intro position start hposition hstart
    obtain ⟨hgroups, helements⟩ := hheads (by omega)
    have hview := h.validateSpans hof (by omega)
    obtain ⟨values, hread, hread'⟩ := h.reads hof "read attention key cache"
      "read attention value cache"
    apply (attentionDecode_attends h.whole helements hposition (by omega)).agree
      (attentionDecodeSpans_attends helements hview hposition (by omega) (by dsimp only; omega))
    intro q o hgiven
    obtain ⟨output', -, hrow⟩ := attendRow_uniform arith values hgroups Nat.zero_lt_one
      (show start + 1 ≤ twin.position by omega) hgiven.queryLength hgiven.outputLength
    exact ⟨output', hrow _ hread, hrow _ hread'⟩
  · intro start tokens htokens hend
    obtain ⟨hgroups, helements⟩ := hheads (by omega)
    have hview := h.validateSpans hof (by omega)
    obtain ⟨values, hread, hread'⟩ := h.reads hof "read prefill attention key cache"
      "read prefill attention value cache"
    have hrows : ∀ q o, Given query output shape tokens q o → ∃ values,
        (attentionPrefillRows arith q twin.whole.key twin.whole.value shape start tokens).run o =
          .ok () values ∧
        (attentionPrefillSpanRows arith q ⟨spans, mapped⟩ shape start tokens).run o = .ok () values := by
      intro q o hgiven
      obtain ⟨output', -, hblock⟩ := attendBlock_uniform arith values hgroups hend
        hgiven.queryLength hgiven.outputLength
      exact ⟨output', hblock _ hread, hblock _ hread'⟩
    have hprefill : Attends query output shape tokens _
        (attentionPrefill arith query twin.whole.key twin.whole.value shape start tokens) :=
      attentionPrefill_attends h.whole helements (hend.trans hbound)
    exact ⟨hprefill.agree (attendBlockSpans_attends _ _ helements hview htokens (by omega)
        (by dsimp only; omega)) hrows,
      hprefill.agree (attendBlockSpans_attends _ _ helements hview htokens (by omega)
        (by dsimp only; omega)) hrows⟩

end Operations

/-! ## A table of two segments -/

/-- Integers as far as attention over two positions with keys of zero needs them. -/
def attentionIntegers : AttentionArithmetic Int where
  toArithmetic := integers
  add := (· + ·)
  sub := (· - ·)
  mulAdd x y z := x * y + z
  exp _ := 1
  negInfinity := -2 ^ 128
  scale _ := 1

def twoPositions : AttentionShape :=
  ⟨1, 1, 1, 2, Nat.one_pos, Nat.one_pos, Nat.two_pos, by decide⟩

def onePosition : AttentionShape :=
  ⟨1, 1, 1, 1, Nat.one_pos, Nat.one_pos, Nat.one_pos, by decide⟩

def f32Buffer (values : List Int) : CpuBuffer Int :=
  ⟨⟨.f32, values.length, values.length * 4⟩, .f32 values⟩

def cachesOf (keys values : List Int) : Caches Int := ⟨f32Buffer keys, f32Buffer values⟩

def firstTarget : KvWriteSpan := ⟨0, 1, Nat.one_pos, by decide⟩

def secondTarget : KvWriteSpan := ⟨1, 1, Nat.one_pos, by decide⟩

def twoSegments : Twin Int where
  whole := cachesOf [0, 0] [4, 6]
  segments := [⟨firstTarget, 1, cachesOf [0] [4]⟩, ⟨secondTarget, 1, cachesOf [0] [6]⟩]
  position := 2

theorem cachesOf_two (keys values : List Int) (hkeys : keys.length = 2) (hvalues : values.length = 2) :
    CachesFor .f32 twoPositions (cachesOf keys values) := by
  have hlayout : BufferLayout.f32 2 = .ok ⟨.f32, 2, 8⟩ := by decide
  unfold cachesOf f32Buffer
  rw [hkeys, hvalues]
  exact ⟨rfl, rfl, .f32 hlayout hkeys, .f32 hlayout hvalues⟩

theorem cachesOf_one (key value : Int) : CachesFor .f32 onePosition (cachesOf [key] [value]) := by
  have hlayout : BufferLayout.f32 1 = .ok ⟨.f32, 1, 4⟩ := by decide
  exact ⟨rfl, rfl, .f32 hlayout rfl, .f32 hlayout rfl⟩

theorem grown_twoSegments :
    Grown integers .f32 twoPositions (cachesOf [9, 9] [9, 9]) twoSegments := by
  have hfirst : TwinStep integers .f32 twoPositions ⟨cachesOf [9, 9] [9, 9], [], 0⟩
      ⟨cachesOf [9, 9] [9, 9], [⟨firstTarget, 0, cachesOf [7] [7]⟩], 0⟩ :=
    .allocate _ firstTarget (cachesOf [7] [7]) onePosition rfl (cachesOf_one 7 7) rfl
  have hrow : TwinStep integers .f32 twoPositions
      ⟨cachesOf [9, 9] [9, 9], [⟨firstTarget, 0, cachesOf [7] [7]⟩], 0⟩
      ⟨cachesOf [0, 9] [4, 9], [⟨firstTarget, 1, cachesOf [0] [4]⟩], 1⟩ :=
    .chunk _ [] ⟨firstTarget, 0, cachesOf [7] [7]⟩ (f32Buffer [0]) (f32Buffer [4]) 1 _ rfl
      Nat.one_ne_zero le_rfl rfl
  have hsecond : TwinStep integers .f32 twoPositions
      ⟨cachesOf [0, 9] [4, 9], [⟨firstTarget, 1, cachesOf [0] [4]⟩], 1⟩
      ⟨cachesOf [0, 9] [4, 9], [⟨firstTarget, 1, cachesOf [0] [4]⟩,
        ⟨secondTarget, 0, cachesOf [8] [8]⟩], 1⟩ :=
    .allocate _ secondTarget (cachesOf [8] [8]) onePosition rfl (cachesOf_one 8 8) rfl
  have hlast : TwinStep integers .f32 twoPositions
      ⟨cachesOf [0, 9] [4, 9], [⟨firstTarget, 1, cachesOf [0] [4]⟩,
        ⟨secondTarget, 0, cachesOf [8] [8]⟩], 1⟩ twoSegments :=
    .one _ [⟨firstTarget, 1, cachesOf [0] [4]⟩] ⟨secondTarget, 0, cachesOf [8] [8]⟩ (f32Buffer [0])
      (f32Buffer [6]) (.host 1) _ rfl rfl le_rfl rfl
  exact .tail (.tail (.tail (.single hfirst) hrow) hsecond) hlast

theorem attention_agrees_twoSegments :
    ∃ spans view, readSpans true twoSegments.segments = .ok spans ∧ KvReadView.new spans = .ok view ∧
      ∀ query output : CpuBuffer Int,
        (∀ position start, resolvePosition position = .ok start → start < twoSegments.position →
          Agree (attentionDecode attentionIntegers query twoSegments.whole.key twoSegments.whole.value
              twoPositions position)
            (attentionDecodeSpans attentionIntegers query view twoPositions position) output) ∧
        ∀ start tokens, tokens ≠ 0 → start + tokens ≤ twoSegments.position →
          Agree (attentionPrefill attentionIntegers query twoSegments.whole.key
                twoSegments.whole.value twoPositions start tokens)
              (attentionPrefillSpans attentionIntegers query view twoPositions start tokens) output ∧
            Agree (attentionPrefill attentionIntegers query twoSegments.whole.key
                twoSegments.whole.value twoPositions start tokens)
              (verifyAttentionSpans attentionIntegers query view twoPositions start tokens) output :=
  attention_agrees (cachesOf_two [9, 9] [9, 9] rfl rfl) grown_twoSegments true

end Leone.Cpu
