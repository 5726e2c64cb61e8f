import Leone.Gguf.Yields

/-!
# The tensor table of a parsed file

Every descriptor that the parser returns is aligned and has the exact size of its blocks, and the
ranges that pass the neighbour check lie apart inside the file.
-/

namespace Leone.Gguf

open Framework Framework.Method

variable {β : Type}

/-! ## The header -/

/-- A count of the header, by its position in the file. -/
def headerCount (file : List UInt8) (position : Nat) : Nat :=
  (UInt64.ofNat (fromLeBytes ((file.drop position).take 8))).toNat

/-- A read of the next bytes of the reader. -/
def ReadsNext {α : Type} (m : Parser β α) (n : Nat) (value : List UInt8 → α) : Prop :=
  ∀ input, m.Ends input (fun a input' => a = value (input.reader.take n) ∧
    input'.reader = input.reader.drop n ∧ input'.fileLen = input.fileLen) fun _ _ => True

theorem bytes_readsNext (n : Nat) : ReadsNext (bytes n : Parser β _) n id := by
  intro input
  simp only [bytes, readExact, advance, ends_bind, ends_get, ends_ensure, ends_modify, ends_pure,
    ends_orErr]
  refine ⟨fun _ => ⟨fun _ _ => ?_, fun _ => trivial⟩, fun _ => trivial⟩
  exact ⟨rfl, trivial, trivial⟩

theorem ReadsNext.map {α γ : Type} {m : Parser β α} {n : Nat} {value : List UInt8 → α}
    (h : ReadsNext m n value) (f : α → γ) :
    ReadsNext (do return f (← m)) n fun read => f (value read) := by
  intro input
  simp only [ends_bind, ends_pure]
  exact (h input).mono (fun _ _ hread => ⟨congrArg f hread.1, hread.2⟩) fun _ _ hf => hf

theorem parseHeader_ends (input : Input β) : parseHeader.Ends input (fun counts input' =>
    counts = (headerCount input.reader 8, headerCount input.reader 16) ∧
      input'.fileLen = input.fileLen) fun _ _ => True := by
  have hu32 : ReadsNext (u32 : Parser β _) 4 _ := (bytes_readsNext 4).map _
  have hu64 : ReadsNext (u64 : Parser β _) 8 _ := (bytes_readsNext 8).map _
  simp only [parseHeader, checkLimit, ends_bind, ends_ensure, ends_pure]
  apply (bytes_readsNext 4 input).mono _ fun _ _ hf => hf
  rintro magic input₁ ⟨_, hr₁, hl₁⟩
  refine ⟨fun _ => ?_, fun _ => trivial⟩
  apply (hu32 input₁).mono _ fun _ _ hf => hf
  rintro version input₂ ⟨_, hr₂, hl₂⟩
  refine ⟨fun _ => ?_, fun _ => trivial⟩
  apply (hu64 input₂).mono _ fun _ _ hf => hf
  rintro tensorCount input₃ ⟨ht, hr₃, hl₃⟩
  apply (hu64 input₃).mono _ fun _ _ hf => hf
  rintro metadataCount input₄ ⟨hm, hr₄, hl₄⟩
  refine ⟨fun _ => ⟨fun _ => ⟨?_, ?_⟩, fun _ => trivial⟩, fun _ => trivial⟩
  · rw [ht, hm, hr₃, hr₂, hr₁, List.drop_drop, List.drop_drop]
    rfl
  · rw [hl₄, hl₃, hl₂, hl₁]

/-! ## Metadata -/

theorem size_insert_new {metadata : Metadata} {key : String} (value : MetadataValue)
    (h : metadata.contains key = false) : (metadata.insert key value).size = metadata.size + 1 := by
  have hnone : metadata.get? key = none := by
    rw [SortedMap.contains, Option.isSome_eq_false_iff, Option.isNone_iff_eq_none] at h
    exact h
  have hsize : ∀ m : Metadata, m.size = m.sumBy fun _ => 1 := by
    intro m
    simp [SortedMap.size, SortedMap.sumBy, SortedMap.values, Function.comp_def]
  rw [hsize, hsize, SortedMap.sumBy_insert_new _ _ hnone, Nat.add_comm]

theorem yields_parseEntries (count : Nat) (metadata : Metadata) :
    Yields (parseEntries count metadata : Parser β _) fun m => m.size = metadata.size + count := by
  induction count generalizing metadata with
  | zero => exact Yields.pure rfl
  | succ count ih =>
    apply Yields.bind (keeps_string _)
    intro key _
    apply Yields.bind keeps_u32
    intro code _
    apply Yields.bind (Yields.orErr _ _)
    intro valueType _
    apply Yields.bind (keeps_parseValue valueType)
    intro value _
    apply Yields.bind (Yields.ensure _)
    intro _ hfresh
    have hsize := size_insert_new value (Bool.not_eq_true _ ▸ hfresh)
    exact (ih (metadata.insert key value)).mono fun m hm => by omega

theorem yields_parseMetadata (count : Nat) :
    Yields (parseMetadata count : Parser β _) fun m => m.size = count := by
  apply Yields.bind (keeps_reserveOrderedCollection _ _ _)
  intro _ _
  apply (yields_parseEntries count ∅).bind
  intro metadata hsize
  have hcount : metadata.size = count := hsize.trans (Nat.zero_add count)
  apply Yields.ite
  · exact fun _ => Yields.pure hcount
  · exact fun _ => Yields.bind keeps_retainReservation fun _ _ => Yields.pure hcount

theorem isPowerOfTwo_iff {value : UInt32} :
    isPowerOfTwo value = true ↔ ∃ k < 32, value.toNat = 2 ^ k := by
  simp [isPowerOfTwo]

/-- The alignment of a file is a power of two. -/
theorem parseAlignment_pow {metadata : Metadata} {alignment : UInt32}
    (h : parseAlignment metadata = .ok alignment) : ∃ k < 32, alignment.toNat = 2 ^ k := by
  unfold parseAlignment at h
  split at h
  · cases h
    exact ⟨5, by decide, rfl⟩
  · split_ifs at h with hpow
    cases h
    exact isPowerOfTwo_iff.mp hpow
  · cases h

theorem toNat_mask {k : Nat} (hk : k < 64) : (UInt64.ofNat (2 ^ k) - 1).toNat = 2 ^ k - 1 := by
  have hpow : 2 ^ k < 2 ^ 64 := Nat.pow_lt_pow_right (by decide) hk
  have hone : 1 ≤ 2 ^ k := Nat.one_le_two_pow
  have hround : (UInt64.ofNat (2 ^ k)).toNat = 2 ^ k := UInt64.toNat_ofNat_of_lt' hpow
  rw [UInt64.toNat_sub_of_le _ _ (UInt64.le_iff_toNat_le.mpr (by rw [hround]; exact hone)), hround]
  rfl

/-- Clearing the low bits rounds down to a multiple. -/
theorem and_not_mask (sum : UInt64) {k : Nat} (hk : k < 64) :
    (sum &&& ~~~(UInt64.ofNat (2 ^ k) - 1)).toNat = sum.toNat / 2 ^ k * 2 ^ k := by
  have hpow : 2 ^ k < 2 ^ 64 := Nat.pow_lt_pow_right (by decide) hk
  have hone : 1 ≤ 2 ^ k := Nat.one_le_two_pow
  rw [UInt64.toNat_and, UInt64.toNat_not, toNat_mask hk]
  apply Nat.eq_of_testBit_eq
  intro i
  have hbound : 2 ^ k - 1 < 2 ^ 64 := by omega
  have hnot : (UInt64.size - 1 - (2 ^ k - 1)).testBit i = (decide (i < 64) && !decide (i < k)) := by
    have hsub : UInt64.size - 1 - (2 ^ k - 1) = 2 ^ 64 - (2 ^ k - 1 + 1) := by
      change 2 ^ 64 - 1 - (2 ^ k - 1) = _
      omega
    rw [hsub, Nat.testBit_two_pow_sub_succ hbound, Nat.testBit_two_pow_sub_one]
  rw [Nat.testBit_and, hnot, Nat.testBit_mul_two_pow, Nat.testBit_div_two_pow]
  by_cases hi : i < k
  · simp [hi]
  · by_cases hhigh : i < 64
    · simp [hi, hhigh, not_lt.mp hi, Nat.sub_add_cancel (not_lt.mp hi)]
    · have hzero : sum.toNat.testBit i = false := by
        apply Nat.testBit_lt_two_pow
        exact lt_of_lt_of_le sum.toNat_lt (Nat.pow_le_pow_right (by decide) (not_lt.mp hhigh))
      simp [hzero, Nat.sub_add_cancel (not_lt.mp hi)]

/-! ## Descriptors -/

theorem blockLayout_pos {dtype : GgmlType} {blockElements blockBytes : Nat}
    (h : dtype.blockLayout = some (blockElements, blockBytes)) :
    0 < blockElements ∧ 0 < blockBytes := by
  have hall : ∀ layout ∈ blockLayouts, ∀ pair, layout = some pair → 0 < pair.1 ∧ 0 < pair.2 := by
    decide
  exact hall _ (List.mem_of_getElem? (Option.join_eq_some_iff.mp h)) _ rfl

/-- The shape, type and size of a descriptor fit together: one to four dimensions, none zero, rows
of whole blocks, and the bytes of these blocks. -/
structure TensorInfo.Laid (tensor : TensorInfo) : Prop where
  dimensions : 1 ≤ tensor.shape.length ∧ tensor.shape.length ≤ 4
  nonzero : ∀ dimension ∈ tensor.shape, dimension ≠ 0
  size : ∃ blockElements blockBytes,
    tensor.dtype.blockLayout = some (blockElements, blockBytes) ∧
    blockElements ∣ (tensor.shape.headD 0).toNat ∧
    tensor.nBytes = (tensor.shape.headD 0).toNat / blockElements * blockBytes *
      (tensor.shape.tail.map UInt64.toNat).prod
  nBytes_pos : 1 ≤ tensor.nBytes

theorem overflowOr_eq_ok {value : Option Nat} {what : String} {n : Nat} :
    overflowOr value what = .ok n ↔ value = some n := by
  cases value <;> simp [overflowOr]

theorem checkedProduct_from {values : List UInt64} {what : String} {start product : Nat}
    (h : values.foldlM (fun product value =>
      match checkedMul 64 product value.toNat with
      | some product => Except.ok product
      | none => Except.error (Error.integerOverflow what)) start = .ok product) :
    product = start * (values.map UInt64.toNat).prod := by
  induction values generalizing start with
  | nil =>
    cases h
    rw [List.map_nil, List.prod_nil, Nat.mul_one]
  | cons value values ih =>
    rw [List.foldlM_cons] at h
    obtain ⟨next, hnext, hrest⟩ := bind_eq_ok.mp h
    have hmul : next = start * value.toNat := by
      split at hnext
      · rename_i product' hproduct
        rw [checkedMul_eq_some] at hproduct
        rw [← Except.ok.inj hnext, ← hproduct.2]
      · cases hnext
    rw [ih hrest, hmul, List.map_cons, List.prod_cons, Nat.mul_assoc]

theorem checkedProduct_eq {values : List UInt64} {what : String} {product : Nat}
    (h : checkedProduct values what = .ok product) :
    product = (values.map UInt64.toNat).prod := by
  rw [checkedProduct_from h, Nat.one_mul]

/-- The size of a tensor is the size of its blocks. -/
theorem tensorBytes_eq {name : String} {shape : List UInt64} {dtype : GgmlType} {nBytes : Nat}
    (h : tensorBytes name shape dtype = .ok nBytes) :
    ∃ blockElements blockBytes, dtype.blockLayout = some (blockElements, blockBytes) ∧
      blockElements ∣ (shape.headD 0).toNat ∧
      nBytes = (shape.headD 0).toNat / blockElements * blockBytes *
        (shape.tail.map UInt64.toNat).prod := by
  unfold tensorBytes at h
  split at h
  · cases h
  · rename_i blockElements blockBytes hlayout
    dsimp only at h
    split_ifs at h with hmod
    obtain ⟨rowBytes, hrow, h⟩ := bind_eq_ok.mp h
    obtain ⟨rows, hrows, h⟩ := bind_eq_ok.mp h
    have hpos := (blockLayout_pos hlayout).1
    rw [overflowOr_eq_ok, checkedDiv, if_neg hpos.ne', Option.bind_some, checkedMul_eq_some] at hrow
    rw [overflowOr_eq_ok, checkedMul_eq_some] at h
    refine ⟨blockElements, blockBytes, hlayout, Nat.dvd_of_mod_eq_zero (not_not.mp hmod), ?_⟩
    rw [← h.2, ← hrow.2, checkedProduct_eq hrows]

theorem one_le_prod {values : List UInt64} (h : ∀ value ∈ values, value ≠ 0) :
    1 ≤ (values.map UInt64.toNat).prod := by
  induction values with
  | nil => exact le_rfl
  | cons value values ih =>
    have hvalue : 1 ≤ value.toNat := by
      have hne := h value List.mem_cons_self
      rw [Ne, ← UInt64.toNat_inj, UInt64.toNat_zero] at hne
      omega
    rw [List.map_cons, List.prod_cons]
    exact Nat.mul_pos hvalue (ih fun v hv => h v (List.mem_cons_of_mem value hv))

theorem one_le_nBytes {shape : List UInt64} {blockElements blockBytes : Nat}
    (hlen : 1 ≤ shape.length) (hnonzero : ∀ dimension ∈ shape, dimension ≠ 0)
    (hpos : 0 < blockElements ∧ 0 < blockBytes) (hdvd : blockElements ∣ (shape.headD 0).toNat) :
    1 ≤ (shape.headD 0).toNat / blockElements * blockBytes *
      (shape.tail.map UInt64.toNat).prod := by
  cases shape with
  | nil => cases hlen
  | cons first rest =>
    have hfirst := hnonzero first List.mem_cons_self
    rw [Ne, ← UInt64.toNat_inj, UInt64.toNat_zero] at hfirst
    have hblocks : 0 < first.toNat / blockElements :=
      Nat.div_pos (Nat.le_of_dvd (Nat.pos_of_ne_zero hfirst) hdvd) hpos.1
    exact Nat.mul_pos (Nat.mul_pos hblocks hpos.2)
      (one_le_prod fun v hv => hnonzero v (List.mem_cons_of_mem first hv))

theorem yields_parseShape (tensor : String) : Yields (parseShape tensor : Parser β _) fun shape =>
    (1 ≤ shape.length ∧ shape.length ≤ 4) ∧ ∀ dimension ∈ shape, dimension ≠ 0 := by
  apply Yields.bind keeps_u32
  intro dimensions _
  apply Yields.bind (Yields.ensure _)
  intro _ hdimensions
  apply Yields.bind (keeps_allocateVec _ _ _)
  intro _ _
  have hdimension : Yields (parseDimension tensor : Parser β _) fun dimension => dimension ≠ 0 := by
    apply Yields.bind keeps_u64
    intro dimension _
    exact (Yields.ensure _).bind fun _ hne => Yields.pure hne
  apply (yields_readMany hdimension _).mono
  rintro shape ⟨hlen, hnonzero⟩
  rw [hlen]
  exact ⟨hdimensions, hnonzero⟩

/-- What the parser checks of one descriptor. -/
theorem yields_parseTensor (tensorNames : List String) (alignment : UInt32) :
    Yields (parseTensor tensorNames alignment : Parser β _) fun tensor =>
      tensor.name ∉ tensorNames ∧ tensor.offset.toNat % alignment.toNat = 0 ∧ tensor.Laid := by
  apply Yields.bind (keeps_string _)
  intro name _
  apply Yields.bind (Yields.ensure _)
  intro _ hfresh
  apply Yields.bind (keeps_cloneString _ _)
  intro _ _
  apply Yields.bind (yields_parseShape name)
  rintro shape ⟨hdimensions, hnonzero⟩
  apply Yields.bind keeps_u32
  intro code _
  apply Yields.bind keeps_u64
  intro offset _
  apply Yields.bind (Yields.ensure _)
  intro _ haligned
  apply Yields.bind (Yields.ofExcept _)
  intro nBytes hbytes
  obtain ⟨blockElements, blockBytes, hlayout, hdvd, hsize⟩ := tensorBytes_eq hbytes
  have hpos := one_le_nBytes hdimensions.1 hnonzero (blockLayout_pos hlayout) hdvd
  exact Yields.pure ⟨hfresh, haligned,
    ⟨hdimensions, hnonzero, ⟨blockElements, blockBytes, hlayout, hdvd, hsize⟩, hsize ▸ hpos⟩⟩

theorem yields_parseDescriptors (alignment : UInt32) (count : Nat) (tensorNames : List String) :
    Yields (parseDescriptors alignment count tensorNames : Parser β _) fun tensors =>
      tensors.length = count ∧ (tensors.map TensorInfo.name).Nodup ∧
        (∀ tensor ∈ tensors, tensor.name ∉ tensorNames) ∧
        ∀ tensor ∈ tensors, tensor.offset.toNat % alignment.toNat = 0 ∧ tensor.Laid := by
  induction count generalizing tensorNames with
  | zero => exact Yields.pure ⟨rfl, List.nodup_nil, by simp, by simp⟩
  | succ count ih =>
    apply (yields_parseTensor tensorNames alignment).bind
    rintro tensor ⟨hfresh, hchecked⟩
    apply (ih (tensor.name :: tensorNames)).bind
    rintro tensors ⟨hlen, hnodup, hnames, hall⟩
    apply Yields.pure
    refine ⟨by rw [List.length_cons, hlen], ?_, ?_, ?_⟩
    · rw [List.map_cons, List.nodup_cons]
      refine ⟨?_, hnodup⟩
      intro hmem
      obtain ⟨other, hother, hsame⟩ := List.mem_map.mp hmem
      exact hnames other hother (hsame ▸ List.mem_cons_self)
    · intro other hother
      rcases List.mem_cons.mp hother with rfl | hrest
      · exact hfresh
      · exact fun hmem => hnames other hrest (List.mem_cons_of_mem _ hmem)
    · intro other hother
      rcases List.mem_cons.mp hother with rfl | hrest
      · exact hchecked
      · exact hall other hrest

theorem yields_parseTensors (count : Nat) (alignment : UInt32) :
    Yields (parseTensors count alignment : Parser β _) fun tensors =>
      tensors.length = count ∧ (tensors.map TensorInfo.name).Nodup ∧
        ∀ tensor ∈ tensors, tensor.offset.toNat % alignment.toNat = 0 ∧ tensor.Laid := by
  have hfit : Keeps (ensureTensorDescriptorsFit count : Parser β _) := by
    apply Keeps.bind (Keeps.of (Yields.orErr _ _))
    intro _
    apply Yields.get
    intro _
    exact Keeps.of (Yields.ensure _)
  apply Yields.bind hfit
  intro _ _
  apply Yields.bind (keeps_allocateVec _ _ _)
  intro _ _
  apply Yields.bind (keeps_reserveHashCollection _ _ _)
  intro _ _
  apply (yields_parseDescriptors alignment count []).mono
  rintro tensors ⟨hlen, hnodup, _, hall⟩
  exact ⟨hlen, hnodup, hall⟩

/-! ## Ranges -/

/-- Two ranges lie apart. -/
def TensorRange.Apart (first second : TensorRange) : Prop :=
  first.stop ≤ second.start ∨ second.stop ≤ first.start

theorem checkNeighbours_pairwise {ranges : List TensorRange} (h : checkNeighbours ranges = .ok ())
    (hle : ∀ range ∈ ranges, range.start ≤ range.stop) :
    ranges.Pairwise fun first second => first.stop ≤ second.start := by
  induction ranges with
  | nil => exact List.Pairwise.nil
  | cons first ranges ih =>
    cases ranges with
    | nil => exact List.pairwise_singleton _ _
    | cons second rest =>
      rw [checkNeighbours] at h
      split_ifs at h with hover
      have hrest := ih h fun range hmem => hle range (List.mem_cons_of_mem first hmem)
      have hnext := not_lt.mp hover
      apply List.pairwise_cons.mpr
      refine ⟨?_, hrest⟩
      intro range hmem
      rcases List.mem_cons.mp hmem with rfl | hlater
      · exact hnext
      · have hsecond := hle second (List.mem_cons_of_mem first List.mem_cons_self)
        have hafter := (List.pairwise_cons.mp hrest).1 range hlater
        exact hnext.trans (hsecond.trans hafter)

/-- Ranges that pass the overlap check lie apart, in whatever order they came. -/
theorem checkTensorOverlap_apart {ranges : List TensorRange}
    (h : checkTensorOverlap ranges = .ok ())
    (hle : ∀ range ∈ ranges, range.start ≤ range.stop) : ranges.Pairwise TensorRange.Apart := by
  have hperm := List.mergeSort_perm ranges fun first second => decide (first.start ≤ second.start)
  have hsorted := checkNeighbours_pairwise h fun range hmem => hle range (hperm.mem_iff.mp hmem)
  have hsymm : ∀ first second : TensorRange, first.Apart second → second.Apart first :=
    fun _ _ hor => hor.symm
  apply (hperm.pairwise_iff @hsymm).mp
  exact hsorted.imp fun hstop => Or.inl hstop

/-- The range of a tensor behind a data offset. -/
def TensorInfo.range (dataOffset : Nat) (tensor : TensorInfo) : TensorRange where
  start := dataOffset + tensor.offset.toNat
  stop := dataOffset + tensor.offset.toNat + tensor.nBytes
  name := tensor.name

theorem tensorRangeOf_eq {dataOffset fileLen : Nat} {tensor : TensorInfo} {range : TensorRange}
    (h : tensorRangeOf dataOffset fileLen tensor = .ok range) :
    range = tensor.range dataOffset ∧ range.stop ≤ fileLen := by
  unfold tensorRangeOf at h
  obtain ⟨start, hstart, h⟩ := bind_eq_ok.mp h
  obtain ⟨stop, hstop, h⟩ := bind_eq_ok.mp h
  rw [overflowOr_eq_ok, checkedAdd_eq_some] at hstart hstop
  split_ifs at h with hover
  cases h
  refine ⟨?_, not_lt.mp hover⟩
  rw [TensorInfo.range, hstart.2, hstop.2]

theorem mapM_tensorRangeOf {dataOffset fileLen : Nat} {tensors : List TensorInfo}
    {ranges : List TensorRange}
    (h : tensors.mapM (tensorRangeOf dataOffset fileLen) = .ok ranges) :
    ranges = tensors.map (TensorInfo.range dataOffset) ∧ ∀ range ∈ ranges, range.stop ≤ fileLen := by
  have hall := mapM_eq_ok.mp h
  clear h
  induction hall with
  | nil => exact ⟨rfl, by simp⟩
  | cons hrange _ ih =>
    obtain ⟨heq, hstop⟩ := tensorRangeOf_eq hrange
    refine ⟨by rw [List.map_cons, ← heq, ← ih.1], ?_⟩
    intro range hmem
    rcases List.mem_cons.mp hmem with rfl | hrest
    · exact hstop
    · exact ih.2 range hrest

theorem yields_collectTensorRanges (tensors : List TensorInfo) (dataOffset fileLen : Nat) :
    Yields (collectTensorRanges tensors dataOffset fileLen : Parser β _) fun ranges =>
      ranges = tensors.map (TensorInfo.range dataOffset) ∧
        ∀ range ∈ ranges, range.stop ≤ fileLen := by
  have hmap : Yields (ofExcept (tensors.mapM (tensorRangeOf dataOffset fileLen)) : Parser β _)
      fun ranges => ranges = tensors.map (TensorInfo.range dataOffset) ∧
        ∀ range ∈ ranges, range.stop ≤ fileLen :=
    (Yields.ofExcept _).mono fun _ => mapM_tensorRangeOf
  unfold collectTensorRanges
  dsimp only
  apply Yields.ite
  · exact fun _ => hmap
  · intro _
    apply Yields.bind
    · apply Keeps.bind (Keeps.of (Yields.orErr _ _))
      exact fun _ => Keeps.of (Yields.orErr _ _)
    · exact fun _ _ => Yields.bind (keeps_reserve _ _) fun _ _ => hmap

theorem yields_validateTensorRanges (tensors : List TensorInfo) (dataOffset fileLen : Nat) :
    Yields (validateTensorRanges tensors dataOffset fileLen : Parser β _) fun _ =>
      (∀ tensor ∈ tensors, (tensor.range dataOffset).stop ≤ fileLen) ∧
        tensors.Pairwise fun first second =>
          (first.range dataOffset).Apart (second.range dataOffset) := by
  apply (yields_collectTensorRanges tensors dataOffset fileLen).bind
  rintro ranges ⟨hmap, hstop⟩
  apply (Yields.ofExcept _).mono
  intro _ hcheck
  subst hmap
  constructor
  · exact fun tensor hmem => hstop _ (List.mem_map_of_mem hmem)
  · apply List.pairwise_map.mp
    apply checkTensorOverlap_apart hcheck
    intro range hmem
    obtain ⟨tensor, _, rfl⟩ := List.mem_map.mp hmem
    exact Nat.le_add_right _ _

end Leone.Gguf
