import Leone.Gguf.Fields

/-!
# The parser accepts every well-formed document

Entries and descriptors decode in file order, the ranges pass the neighbour check, and the parser
returns the content of the document.
-/

namespace Leone.Gguf

open Framework Framework.Method

variable {β α γ : Type}

/-! ## Metadata -/

/-- The metadata of a document, by key. -/
def insertEntries (entries : List (String × MetadataValue)) (metadata : Metadata) : Metadata :=
  entries.foldl (fun metadata entry => metadata.insert entry.1 entry.2) metadata

theorem get?_insertEntries {entries : List (String × MetadataValue)} {metadata : Metadata}
    (hkeys : (entries.map Prod.fst).Nodup) {key : String} {value : MetadataValue} :
    (insertEntries entries metadata).get? key = some value ↔
      (key, value) ∈ entries ∨ (key ∉ entries.map Prod.fst ∧ metadata.get? key = some value) := by
  induction entries generalizing metadata with
  | nil => simp [insertEntries]
  | cons entry entries ih =>
    obtain ⟨hnew, hrest⟩ := List.nodup_cons.mp hkeys
    rw [insertEntries, List.foldl_cons, ← insertEntries, ih hrest, SortedMap.get?_insert]
    by_cases hkey : key = entry.1
    · subst hkey
      have hnotin : (entry.1, value) ∉ entries := fun hmem =>
        hnew (List.mem_map.mpr ⟨_, hmem, rfl⟩)
      have hhead : (entry.1, value) = entry ↔ value = entry.2 :=
        ⟨fun h => congrArg Prod.snd h, fun h => by rw [h]⟩
      simp [hnotin, hhead, hnew, eq_comm]
    · have hhead : (key, value) ≠ entry := fun h => hkey (congrArg Prod.fst h)
      simp [hkey, hhead]

/-- At most this many guards for one metadata entry. -/
def entryGuards : Nat := 1 + valueGuards

theorem decodes_parseEntries {entries : List (String × MetadataValue)} {metadata : Metadata}
    (hkeys : (entries.map Prod.fst).Nodup)
    (hfresh : ∀ entry ∈ entries, metadata.contains entry.1 = false)
    (hwithin : ∀ entry ∈ entries, StringWithin entry.1 ∧ entry.2.Within) :
    Decodes (parseEntries entries.length metadata : Parser β _) (entries.flatMap encodeEntry)
      (insertEntries entries metadata) (entries.length * entryGuards) := by
  induction entries generalizing metadata with
  | nil => exact Decodes.pure.mono (Nat.zero_le _)
  | cons entry entries ih =>
    obtain ⟨hnew, hrest⟩ := List.nodup_cons.mp hkeys
    obtain ⟨hkey, hvalue⟩ := hwithin entry List.mem_cons_self
    have hfresh' : ∀ other ∈ entries,
        (metadata.insert entry.1 entry.2).contains other.1 = false := by
      intro other hmem
      have hne : other.1 ≠ entry.1 := fun h => hnew (h ▸ List.mem_map_of_mem hmem)
      rw [SortedMap.contains, SortedMap.get?_insert_of_ne hne]
      exact hfresh other (List.mem_cons_of_mem entry hmem)
    have htail := ih hrest hfresh' fun other hmem => hwithin other (List.mem_cons_of_mem entry hmem)
    have hentry : Decodes (parseEntries (entries.length + 1) metadata : Parser β _)
        (encodeString entry.1 ++ (leBytes 4 entry.2.valueType.code ++
          (entry.2.encode ++ entries.flatMap encodeEntry)))
        (insertEntries (entry :: entries) metadata)
        (1 + (valueGuards + entries.length * entryGuards)) := by
      apply (decodes_string "metadata key" hkey).bind
      apply decodes_valueTypeOf
      apply (decodes_parseValue hvalue).bind
      apply Decodes.ensure _ htail
      rw [hfresh entry List.mem_cons_self]
      exact Bool.false_ne_true
    rw [List.flatMap_cons, encodeEntry, List.append_assoc, List.append_assoc, List.length_cons]
    apply hentry.mono
    rw [Nat.succ_mul, entryGuards]
    omega

theorem Ready.hold {input : Input β} {guards : Nat} (h : Ready input 1 guards) :
    Ready input 2 guards :=
  { h with
    held_le := le_rfl
    reservations := h.reservations.trans (Nat.add_le_add_right (by decide) _) }

theorem decodes_reserveOrderedCollection {f : Unit → Parser β γ} {entryBytes count : Nat}
    {what : String} {ys : List UInt8} {c : γ} {n : Nat}
    (hbytes : count * (entryBytes * orderedNodeEntryFactor + orderedNodeOverheadBytes) < 2 ^ 64)
    (hf : Decodes (f ()) ys c n) :
    Decodes (reserveOrderedCollection entryBytes count what >>= f) ys c n := by
  unfold reserveOrderedCollection orderedCollectionBytes
  split_ifs
  · rwa [pure_bind]
  · rw [bind_assoc]
    apply Decodes.orErr (checkedMul_eq_some.mpr ⟨hbytes, rfl⟩)
    exact Decodes.reserve hf

/-- The metadata map keeps its reservation. -/
theorem returns_parseMetadata {doc : Document} {alignment : UInt32} (h : doc.WellFormed alignment)
    {input : Input β} {more : Nat} {rest : List UInt8}
    (hready : Ready input 1 (doc.metadata.length * entryGuards + more))
    (hreader : input.reader = doc.metadata.flatMap encodeEntry ++ rest) :
    Returns (parseMetadata doc.metadata.length) input fun metadata input' =>
      metadata = insertEntries doc.metadata ∅ ∧ Ready input' 2 more ∧ input'.reader = rest ∧
        input'.fileLen = input.fileLen := by
  have hentries : Decodes (do
      reserveOrderedCollection metadataEntryBytes doc.metadata.length "metadata map"
      parseEntries doc.metadata.length ∅ : Parser β _) (doc.metadata.flatMap encodeEntry)
      (insertEntries doc.metadata ∅) (doc.metadata.length * entryGuards) := by
    apply decodes_reserveOrderedCollection
    · have hproduct := Nat.mul_le_mul_right
        (metadataEntryBytes * orderedNodeEntryFactor + orderedNodeOverheadBytes) h.metadataCount
      exact lt_of_le_of_lt hproduct (by decide)
    · exact decodes_parseEntries h.metadataKeys (fun _ _ => rfl) h.entries
  unfold parseMetadata
  rw [← bind_assoc]
  apply returns_bind.mpr
  apply (hentries input 1 more rest hready hreader).mono
  rintro metadata input₁ ⟨hmetadata, hready₁, hreader₁, hlen₁⟩
  split_ifs
  · exact returns_pure ⟨hmetadata, hready₁.hold, hreader₁, hlen₁⟩
  · apply returns_bind.mpr
    apply (returns_retainReservation hready₁).mono
    rintro _ input₂ ⟨hready₂, hkept⟩
    exact returns_pure ⟨hmetadata, hready₂, hkept.reader.trans hreader₁, hkept.fileLen.trans hlen₁⟩

theorem parseAlignment_of_aligns {doc : Document} {alignment : UInt32}
    (h : doc.Aligns alignment) (hkeys : (doc.metadata.map Prod.fst).Nodup) :
    parseAlignment (insertEntries doc.metadata ∅) = .ok alignment := by
  rcases h with ⟨habsent, hdefault⟩ | ⟨hmem, hpow⟩
  · have hnone : (insertEntries doc.metadata ∅).get? "general.alignment" = none := by
      rw [Option.eq_none_iff_forall_ne_some]
      intro value hvalue
      rcases (get?_insertEntries hkeys).mp hvalue with hmem | ⟨_, hempty⟩
      · exact habsent (List.mem_map_of_mem hmem)
      · cases hempty
    rw [parseAlignment, hnone, hdefault]
  · have hsome : (insertEntries doc.metadata ∅).get? "general.alignment" =
        some (.uint32 alignment) := (get?_insertEntries hkeys).mpr (Or.inl hmem)
    rw [parseAlignment, hsome]
    exact if_pos (isPowerOfTwo_iff.mpr hpow)

/-! ## The tensor table -/

theorem checkedProduct_from_ok {values : List UInt64} {what : String} {start : Nat}
    (hnonzero : ∀ value ∈ values, value ≠ 0)
    (hbound : start * (values.map UInt64.toNat).prod < 2 ^ 64) :
    values.foldlM (fun product value =>
      match checkedMul 64 product value.toNat with
      | some product => Except.ok product
      | none => Except.error (Error.integerOverflow what)) start =
        .ok (start * (values.map UInt64.toNat).prod) := by
  induction values generalizing start with
  | nil =>
    rw [List.map_nil, List.prod_nil, Nat.mul_one]
    rfl
  | cons value values ih =>
    rw [List.map_cons, List.prod_cons, ← Nat.mul_assoc] at hbound
    have hrest := fun v hv => hnonzero v (List.mem_cons_of_mem value hv)
    have hle : start * value.toNat ≤ start * value.toNat * (values.map UInt64.toNat).prod :=
      Nat.le_mul_of_pos_right _ (one_le_prod hrest)
    have hstep : checkedMul 64 start value.toNat = some (start * value.toNat) :=
      checkedMul_eq_some.mpr ⟨lt_of_le_of_lt hle hbound, rfl⟩
    rw [List.foldlM_cons, hstep, List.map_cons, List.prod_cons, ← Nat.mul_assoc]
    exact ih hrest hbound

theorem checkedProduct_ok {values : List UInt64} (what : String)
    (hnonzero : ∀ value ∈ values, value ≠ 0) (hbound : (values.map UInt64.toNat).prod < 2 ^ 64) :
    checkedProduct values what = .ok (values.map UInt64.toNat).prod := by
  rw [← Nat.one_mul (values.map UInt64.toNat).prod] at hbound ⊢
  exact checkedProduct_from_ok hnonzero hbound

/-- The size computation of a laid out tensor returns its size. -/
theorem TensorInfo.Laid.tensorBytes {tensor : TensorInfo} (h : tensor.Laid)
    (hbound : tensor.nBytes < 2 ^ 64) :
    Gguf.tensorBytes tensor.name tensor.shape tensor.dtype = .ok tensor.nBytes := by
  obtain ⟨blockElements, blockBytes, hlayout, hdvd, hsize⟩ := h.size
  have hpos := (blockLayout_pos hlayout).1
  have hone := h.nBytes_pos
  have hrest : ∀ dimension ∈ tensor.shape.tail, dimension ≠ 0 :=
    fun dimension hmem => h.nonzero dimension (List.mem_of_mem_tail hmem)
  rw [hsize] at hbound hone
  have hrows := one_le_prod hrest
  have hrow := Nat.pos_of_mul_pos_right hone
  have hrowBound := lt_of_le_of_lt (Nat.le_mul_of_pos_right _ hrows) hbound
  have hrowsBound := lt_of_le_of_lt (Nat.le_mul_of_pos_left _ hrow) hbound
  unfold Gguf.tensorBytes
  rw [hlayout, hsize]
  dsimp only
  rw [if_neg (not_not.mpr (Nat.mod_eq_zero_of_dvd hdvd)), checkedDiv, if_neg hpos.ne',
    Option.bind_some, checkedProduct_ok _ hrest hrowsBound]
  have hrowOk := checkedMul_eq_some.mpr ⟨hrowBound, rfl⟩
  have hsizeOk := checkedMul_eq_some.mpr ⟨hbound, rfl⟩
  rw [hrowOk]
  exact overflowOr_eq_ok.mpr hsizeOk

theorem decodes_cloneString (value field : String) :
    Decodes (cloneString value field : Parser β _) [] value 1 := by
  unfold cloneString
  split_ifs with hempty
  · rw [String.isEmpty_iff.mp hempty]
    exact Decodes.pure.mono (Nat.zero_le _)
  · apply Decodes.reserve
    intro input held more rest hready hreader
    rw [Nat.add_comm] at hready
    apply returns_bind.mpr
    apply (returns_reserveGuardMetadata hready false).mono
    rintro _ input₁ ⟨hready₁, hkept, _⟩
    apply returns_bind.mpr
    apply returns_commit hready₁.grants
    intro budgetState
    exact returns_pure ⟨rfl, hready₁.charge budgetState, hkept.reader.trans hreader, hkept.fileLen⟩

theorem decodes_parseShape {shape : List UInt64} (tensor : String)
    (hdimensions : 1 ≤ shape.length ∧ shape.length ≤ 4)
    (hnonzero : ∀ dimension ∈ shape, dimension ≠ 0) :
    Decodes (parseShape tensor : Parser β _) (leBytes 4 shape.length ++
      shape.flatMap fun dimension => leBytes 8 dimension.toNat) shape 1 := by
  apply decodes_code (lt_of_le_of_lt hdimensions.2 (by decide))
  intro dimensions hcount
  rw [hcount]
  apply Decodes.ensure hdimensions
  have hmany : Decodes (readMany (parseDimension tensor) shape.length : Parser β _)
      (shape.flatMap fun dimension => leBytes 8 dimension.toNat) shape (shape.length * 0) := by
    apply decodes_readMany
    intro dimension hmem
    have hread : Decodes (parseDimension tensor : Parser β _) (leBytes 8 dimension.toNat ++ [])
        dimension (0 + 0) := by
      apply (decodes_u64 dimension).bind
      exact Decodes.ensure (hnonzero dimension hmem) Decodes.pure
    rwa [List.append_nil] at hread
  have hbytes : shape.length * 8 + vecHeaderBytes < 2 ^ 64 := by
    rw [vecHeaderBytes]
    omega
  have hread : Decodes (do
      allocateVec 8 shape.length "tensor shape"
      readMany (parseDimension tensor) shape.length : Parser β _)
      (shape.flatMap fun dimension => leBytes 8 dimension.toNat) shape (1 + shape.length * 0) :=
    decodes_allocateVec hbytes hmany
  exact hread

/-- Guards for a tensor: its name, the copy of its name and its shape. -/
def tensorGuards : Nat := 3

theorem decodes_parseTensor {tensor : TensorInfo} {tensorNames : List String} {alignment : UInt32}
    (hname : StringWithin tensor.name) (hnew : tensor.name ∉ tensorNames) (hlaid : tensor.Laid)
    (hoffset : alignment.toNat ∣ tensor.offset.toNat) (hbound : tensor.nBytes < 2 ^ 64) :
    Decodes (parseTensor tensorNames alignment : Parser β _) tensor.encode tensor
      tensorGuards := by
  have hread : Decodes (parseTensor tensorNames alignment : Parser β _)
      (encodeString tensor.name ++ ([] ++ ((leBytes 4 tensor.shape.length ++
        tensor.shape.flatMap fun dimension => leBytes 8 dimension.toNat) ++
          (leBytes 4 tensor.dtype.code.toNat ++ (leBytes 8 tensor.offset.toNat ++ [])))))
      tensor (1 + (1 + (1 + (0 + (0 + 0))))) := by
    apply (decodes_string "tensor name" hname).bind
    apply Decodes.ensure hnew
    apply (decodes_cloneString tensor.name "tensor name index").bind
    apply (decodes_parseShape tensor.name hlaid.dimensions hlaid.nonzero).bind
    apply (decodes_u32 tensor.dtype.code).bind
    apply (decodes_u64 tensor.offset).bind
    apply Decodes.ensure (Nat.mod_eq_zero_of_dvd hoffset)
    exact Decodes.ofExcept (hlaid.tensorBytes hbound) Decodes.pure
  rw [List.nil_append, List.append_nil, List.append_assoc] at hread
  exact hread

theorem decodes_parseDescriptors {tensors : List TensorInfo} {tensorNames : List String}
    {alignment : UInt32} (hnames : (tensors.map TensorInfo.name).Nodup)
    (hnew : ∀ tensor ∈ tensors, tensor.name ∉ tensorNames)
    (h : ∀ tensor ∈ tensors, StringWithin tensor.name ∧ tensor.Laid ∧
      alignment.toNat ∣ tensor.offset.toNat ∧ tensor.nBytes < 2 ^ 64) :
    Decodes (parseDescriptors alignment tensors.length tensorNames : Parser β _)
      (tensors.flatMap TensorInfo.encode) tensors (tensors.length * tensorGuards) := by
  induction tensors generalizing tensorNames with
  | nil => exact Decodes.pure.mono (Nat.zero_le _)
  | cons tensor tensors ih =>
    obtain ⟨hfirst, hrest⟩ := List.nodup_cons.mp hnames
    obtain ⟨hname, hlaid, hoffset, hbound⟩ := h tensor List.mem_cons_self
    have hnew' : ∀ other ∈ tensors, other.name ∉ tensor.name :: tensorNames := by
      intro other hmem hin
      rcases List.mem_cons.mp hin with heq | hold
      · exact hfirst (heq ▸ List.mem_map_of_mem hmem)
      · exact hnew other (List.mem_cons_of_mem tensor hmem) hold
    have htail := ih hrest hnew' fun other hmem => h other (List.mem_cons_of_mem tensor hmem)
    have htensor := decodes_parseTensor (β := β) hname (hnew tensor List.mem_cons_self) hlaid
      hoffset hbound
    have hcons : Decodes (parseDescriptors alignment (tensors.length + 1) tensorNames : Parser β _)
        (tensor.encode ++ tensors.flatMap TensorInfo.encode) (tensor :: tensors)
        (tensorGuards + tensors.length * tensorGuards) :=
      htensor.bind (htail.map fun rest => tensor :: rest)
    apply hcons.mono
    rw [List.length_cons, Nat.succ_mul, Nat.add_comm]

theorem decodes_reserveHashCollection {f : Unit → Parser β γ} {entryBytes count : Nat}
    {what : String} {ys : List UInt8} {c : γ} {n : Nat} (hcount : count ≤ maxCollectionLen)
    (hentry : entryBytes ≤ 2 ^ 10) (hf : Decodes (f ()) ys c n) :
    Decodes (reserveHashCollection entryBytes count what >>= f) ys c n := by
  have hminimum : max count 4 * hashBucketFactor ≤ 2 ^ 25 :=
    Nat.mul_le_mul_right 2 (max_le hcount (by decide))
  have hbuckets : 2 ^ Nat.clog 2 (max count 4 * hashBucketFactor) ≤ 2 ^ 25 :=
    Nat.pow_le_pow_right (by decide) (Nat.clog_le_of_le_pow hminimum)
  have hpayload : 2 ^ Nat.clog 2 (max count 4 * hashBucketFactor) * (entryBytes + 1) ≤
      2 ^ 25 * (2 ^ 10 + 1) := Nat.mul_le_mul hbuckets (Nat.succ_le_succ hentry)
  unfold reserveHashCollection hashCollectionBytes
  split_ifs
  · rwa [pure_bind]
  · rw [bind_assoc, bind_assoc]
    apply Decodes.orErr (checkedMul_eq_some.mpr ⟨lt_of_le_of_lt hminimum (by decide), rfl⟩)
    rw [bind_assoc]
    apply Decodes.orErr (if_pos (lt_of_le_of_lt hbuckets (by decide)))
    rw [bind_assoc]
    apply Decodes.orErr (checkedMul_eq_some.mpr ⟨lt_of_le_of_lt hpayload (by decide), rfl⟩)
    have hbytes := lt_of_le_of_lt (Nat.add_le_add_right hpayload hashControlAndAlignmentBytes)
      (show 2 ^ 25 * (2 ^ 10 + 1) + hashControlAndAlignmentBytes < 2 ^ 64 by decide)
    apply Decodes.orErr (checkedAdd_eq_some.mpr ⟨hbytes, rfl⟩)
    exact Decodes.reserve hf

/-- The bytes of the descriptors are at least as many as the check on their count asks for. -/
theorem minTensorDescriptorBytes_le {tensors : List TensorInfo}
    (hlaid : ∀ tensor ∈ tensors, tensor.Laid) :
    tensors.length * minTensorDescriptorBytes ≤ (tensors.flatMap TensorInfo.encode).length := by
  induction tensors with
  | nil => exact Nat.zero_le _
  | cons tensor tensors ih =>
    have hdimensions := (hlaid tensor List.mem_cons_self).dimensions.1
    have hrest := ih fun other hmem => hlaid other (List.mem_cons_of_mem tensor hmem)
    have hshape : tensor.shape.length ≤
        (tensor.shape.flatMap fun dimension => leBytes 8 dimension.toNat).length / 8 := by
      simp [List.length_flatMap, leBytes_length]
    have hencode : minTensorDescriptorBytes ≤ tensor.encode.length := by
      simp only [TensorInfo.encode, encodeString, List.length_append, leBytes_length,
        minTensorDescriptorBytes]
      omega
    rw [List.flatMap_cons, List.length_append, List.length_cons, Nat.succ_mul, Nat.add_comm]
    exact Nat.add_le_add hencode hrest

theorem decodes_parseTensors {doc : Document} {alignment : UInt32} (h : doc.WellFormed alignment) :
    Decodes (parseTensors doc.tensors.length alignment : Parser β _)
      (doc.tensors.flatMap TensorInfo.encode) doc.tensors
      (1 + doc.tensors.length * tensorGuards) := by
  have hcount := h.tensorCount
  rw [maxCollectionLen] at hcount
  have hsmall : ∀ tensor ∈ doc.tensors, tensor.nBytes < 2 ^ 64 := by
    intro tensor hmem
    have hstop : tensor.nBytes ≤ (tensor.range (doc.dataStart alignment)).stop :=
      Nat.le_add_left _ _
    exact lt_of_le_of_lt (hstop.trans (h.inside tensor hmem)) h.length
  unfold parseTensors ensureTensorDescriptorsFit
  rw [bind_assoc]
  have hminimum : doc.tensors.length * minTensorDescriptorBytes < 2 ^ 64 := by
    rw [minTensorDescriptorBytes]
    omega
  apply Decodes.orErr (checkedMul_eq_some.mpr ⟨hminimum, rfl⟩)
  rw [bind_assoc]
  apply Decodes.get
  intro input hremaining
  apply Decodes.ensure ((minTensorDescriptorBytes_le h.laid).trans hremaining)
  have hvec : doc.tensors.length * tensorInfoBytes + vecHeaderBytes < 2 ^ 64 := by
    rw [tensorInfoBytes, vecHeaderBytes]
    omega
  apply decodes_allocateVec hvec
  apply decodes_reserveHashCollection h.tensorCount (by decide)
  apply decodes_parseDescriptors h.tensorNames
  · exact fun _ _ => List.not_mem_nil
  · exact fun tensor hmem =>
      ⟨h.names tensor hmem, h.laid tensor hmem, h.offsets tensor hmem, hsmall tensor hmem⟩

/-! ## Ranges -/

theorem checkNeighbours_ok {ranges : List TensorRange}
    (h : ranges.Pairwise fun first second => first.stop ≤ second.start) :
    checkNeighbours ranges = .ok () := by
  induction ranges with
  | nil => rfl
  | cons first ranges ih =>
    cases ranges with
    | nil => rfl
    | cons second rest =>
      obtain ⟨hfirst, hrest⟩ := List.pairwise_cons.mp h
      rw [checkNeighbours, if_neg (not_lt.mpr (hfirst second List.mem_cons_self))]
      exact ih hrest

/-- Ranges that are not empty and lie apart pass the overlap check, in whatever order they came. -/
theorem checkTensorOverlap_ok {ranges : List TensorRange} (h : ranges.Pairwise TensorRange.Apart)
    (hlt : ∀ range ∈ ranges, range.start < range.stop) : checkTensorOverlap ranges = .ok () := by
  have hsymm : ∀ first second : TensorRange, first.Apart second → second.Apart first :=
    fun _ _ hor => hor.symm
  have hperm := List.mergeSort_perm ranges fun first second => decide (first.start ≤ second.start)
  have hapart := (hperm.pairwise_iff @hsymm).mpr h
  have hsorted : (ranges.mergeSort fun first second =>
      decide (first.start ≤ second.start)).Pairwise fun first second =>
        first.start ≤ second.start := by
    apply (List.pairwise_mergeSort _ _ ranges).imp
    · exact of_decide_eq_true
    · intro first second third h₁ h₂
      exact decide_eq_true ((of_decide_eq_true h₁).trans (of_decide_eq_true h₂))
    · intro first second
      rcases le_total first.start second.start with hle | hle <;> simp [hle]
  apply checkNeighbours_ok
  have hboth := hapart.and hsorted
  apply hboth.imp_of_mem
  rintro first second hfirst hsecond ⟨hor, hle⟩
  rcases hor with hbefore | hafter
  · exact hbefore
  · have hnonempty := hlt second (hperm.mem_iff.mp hsecond)
    omega

/-- The start of the data section: rounded up when there are tensors. -/
def Document.dataOffset (doc : Document) (alignment : UInt32) : Nat :=
  if doc.tensors = [] then doc.tableEnd else doc.dataStart alignment

theorem collectTensorRanges_ok {doc : Document} {alignment : UInt32}
    (h : doc.WellFormed alignment) :
    doc.tensors.mapM (tensorRangeOf (doc.dataOffset alignment) doc.encode.length) =
      .ok (doc.tensors.map (TensorInfo.range (doc.dataStart alignment))) := by
  rw [mapM_eq_ok, List.forall₂_map_right_iff, List.forall₂_same]
  intro tensor hmem
  rw [Document.dataOffset, if_neg (List.ne_nil_of_mem hmem)]
  have hinside := h.inside tensor hmem
  have hlength := h.length
  have hstop : (tensor.range (doc.dataStart alignment)).stop =
      doc.dataStart alignment + tensor.offset.toNat + tensor.nBytes := rfl
  unfold tensorRangeOf
  apply bind_eq_ok.mpr
  refine ⟨doc.dataStart alignment + tensor.offset.toNat, ?_, ?_⟩
  · exact overflowOr_eq_ok.mpr (checkedAdd_eq_some.mpr ⟨by omega, rfl⟩)
  · apply bind_eq_ok.mpr
    refine ⟨doc.dataStart alignment + tensor.offset.toNat + tensor.nBytes, ?_, ?_⟩
    · exact overflowOr_eq_ok.mpr (checkedAdd_eq_some.mpr ⟨by omega, rfl⟩)
    · exact if_neg (not_lt.mpr hinside)

theorem returns_validateTensorRanges {doc : Document} {alignment : UInt32}
    (h : doc.WellFormed alignment) {input : Input β} (hgrants : input.budget.Grants)
    {Q : Unit → Input β → Prop} (hQ : ∀ input', Q () input') :
    Returns (validateTensorRanges doc.tensors (doc.dataOffset alignment) doc.encode.length) input
      Q := by
  have hcheck : checkTensorOverlap
      (doc.tensors.map (TensorInfo.range (doc.dataStart alignment))) = .ok () := by
    apply checkTensorOverlap_ok (List.pairwise_map.mpr h.apart)
    intro range hmem
    obtain ⟨tensor, htensor, rfl⟩ := List.mem_map.mp hmem
    exact Nat.lt_add_of_pos_right (h.laid tensor htensor).nBytes_pos
  have hcount := h.tensorCount
  rw [maxCollectionLen] at hcount
  have hpayload : doc.tensors.length * tensorRangeBytes < 2 ^ 64 := by
    rw [tensorRangeBytes]
    omega
  have hbytes : doc.tensors.length * tensorRangeBytes + vecHeaderBytes < 2 ^ 64 := by
    rw [tensorRangeBytes, vecHeaderBytes]
    omega
  apply returns_bind.mpr
  unfold collectTensorRanges vectorBytes
  dsimp only
  split_ifs
  · exact returns_ofExcept (collectTensorRanges_ok h) (returns_ofExcept hcheck (hQ _))
  · apply returns_bind.mpr
    apply returns_bind.mpr
    apply returns_orErr (checkedMul_eq_some.mpr ⟨hpayload, rfl⟩)
    apply returns_orErr (checkedAdd_eq_some.mpr ⟨hbytes, rfl⟩)
    apply returns_bind.mpr
    apply returns_reserve hgrants
    intro budgetState
    exact returns_ofExcept (collectTensorRanges_ok h) (returns_ofExcept hcheck (hQ _))

/-! ## The whole file -/

theorem Document.Aligns.pow {doc : Document} {alignment : UInt32} (h : doc.Aligns alignment) :
    ∃ k < 32, alignment.toNat = 2 ^ k := by
  rcases h with ⟨_, hdefault⟩ | ⟨_, hpow⟩
  · exact ⟨5, by decide, by rw [hdefault]; rfl⟩
  · exact hpow

/-- Rounding up does not overflow when the result is a position in a file. -/
theorem alignUp_ok {value : Nat} {alignment : UInt32} (hpow : ∃ k < 32, alignment.toNat = 2 ^ k)
    (hbound : (value + (alignment.toNat - 1)) / alignment.toNat * alignment.toNat < 2 ^ 64) :
    alignUp value alignment.toUInt64 =
      .ok ((value + (alignment.toNat - 1)) / alignment.toNat * alignment.toNat) := by
  obtain ⟨k, hk, halign⟩ := hpow
  have hsplit : 2 ^ 64 = 2 ^ (64 - k) * 2 ^ k := by rw [← pow_add]; congr 1; omega
  have hpos : 0 < 2 ^ k := Nat.two_pow_pos k
  have hpowBound : 2 ^ k < 2 ^ 64 := Nat.pow_lt_pow_right (by decide) (by omega)
  have hsum : value + (2 ^ k - 1) < 2 ^ 64 := by
    rw [halign, hsplit] at hbound
    rw [hsplit]
    exact (Nat.div_lt_iff_lt_mul hpos).mp (Nat.lt_of_mul_lt_mul_right hbound)
  have hround : alignment.toUInt64 = UInt64.ofNat (2 ^ k) := by
    apply UInt64.toNat_inj.mp
    rw [UInt32.toNat_toUInt64, halign]
    exact (UInt64.toNat_ofNat_of_lt' hpowBound).symm
  have hmask := toNat_mask (show k < 64 by omega)
  rw [halign, hround, alignUp, hmask, (checkedAdd_eq_some.mpr ⟨hsum, rfl⟩ :
    checkedAdd 64 value (2 ^ k - 1) = some (value + (2 ^ k - 1)))]
  dsimp only
  rw [and_not_mask _ (by omega), UInt64.toNat_ofNat_of_lt' hsum]

theorem dataOffsetOf_ok {doc : Document} {alignment : UInt32} (h : doc.WellFormed alignment) :
    dataOffsetOf doc.tensors.length doc.tableEnd alignment = .ok (doc.dataOffset alignment) := by
  unfold dataOffsetOf Document.dataOffset
  cases htensors : doc.tensors with
  | nil => rfl
  | cons tensor tensors =>
    have hmem : tensor ∈ doc.tensors := by rw [htensors]; exact List.mem_cons_self
    have hstart : doc.dataStart alignment ≤ (tensor.range (doc.dataStart alignment)).stop :=
      (Nat.le_add_right _ _).trans (Nat.le_add_right _ _)
    have hbound := lt_of_le_of_lt (hstart.trans (h.inside tensor hmem)) h.length
    exact alignUp_ok h.aligns.pow hbound

theorem decodes_parseHeader {doc : Document} {alignment : UInt32} (h : doc.WellFormed alignment) :
    Decodes (parseHeader : Parser β _) doc.header (doc.tensors.length, doc.metadata.length) 0 := by
  have htensors := h.tensorCount
  have hmetadata := h.metadataCount
  have hread : Decodes (parseHeader : Parser β _)
      (ggufMagic ++ (leBytes 4 ggufVersion.toNat ++
        (leBytes 8 doc.tensors.length ++ (leBytes 8 doc.metadata.length ++ []))))
      (doc.tensors.length, doc.metadata.length) (0 + (0 + 0)) := by
    apply (decodes_bytes ggufMagic).bind
    apply Decodes.ensure rfl
    apply (decodes_u32 ggufVersion).bind
    apply Decodes.ensure rfl
    apply decodes_count (lt_of_le_of_lt htensors (by decide))
    intro tensorCount htensorCount
    apply decodes_count (lt_of_le_of_lt hmetadata (by decide))
    intro metadataCount hmetadataCount
    dsimp only
    rw [htensorCount, hmetadataCount]
    apply Decodes.ensure htensors
    exact Decodes.ensure hmetadata Decodes.pure
  rwa [List.append_nil] at hread

/-- What the parser returns for a document. -/
def Document.parsed (doc : Document) (alignment : UInt32) : Parsed where
  version := ggufVersion
  alignment := alignment
  dataOffset := doc.dataOffset alignment
  metadata := insertEntries doc.metadata ∅
  tensors := doc.tensors

/-- The documents within the limits need no more guards than the accounts have room for. -/
theorem guards_le {doc : Document} {alignment : UInt32} (h : doc.WellFormed alignment) :
    0 + (doc.metadata.length * entryGuards + (1 + doc.tensors.length * tensorGuards + 0)) ≤
      maxGuards := by
  have hmetadata := Nat.mul_le_mul_right entryGuards h.metadataCount
  have htensors := Nat.mul_le_mul_right tensorGuards h.tensorCount
  have hsum : maxCollectionLen * entryGuards + (1 + maxCollectionLen * tensorGuards) ≤ maxGuards := by
    decide
  omega

theorem returns_parseInput {doc : Document} {alignment : UInt32} (h : doc.WellFormed alignment)
    {input : Input β} (hready : Ready input 1 maxGuards) (hreader : input.reader = doc.encode)
    (hlen : input.fileLen = doc.encode.length) :
    Returns parseInput input fun parsed _ => parsed = doc.parsed alignment := by
  apply returns_bind.mpr
  apply (decodes_parseHeader h input 1 _ _ (hready.mono (guards_le h)) hreader).mono
  rintro counts input₁ ⟨hcounts, hready₁, hreader₁, hlen₁⟩
  subst hcounts
  apply returns_bind.mpr
  apply (returns_parseMetadata h hready₁ hreader₁).mono
  rintro metadata input₂ ⟨hmetadata, hready₂, hreader₂, hlen₂⟩
  subst hmetadata
  apply returns_bind.mpr
  apply returns_ofExcept (parseAlignment_of_aligns h.aligns h.metadataKeys)
  apply returns_bind.mpr
  apply (decodes_parseTensors h input₂ 2 0 doc.data hready₂ hreader₂).mono
  rintro tensors input₃ ⟨htensors, hready₃, hreader₃, hlen₃⟩
  subst htensors
  have hfile : input₃.fileLen = doc.encode.length := by rw [hlen₃, hlen₂, hlen₁, hlen]
  have hposition : input₃.position = doc.tableEnd := by
    have hsum := hready₃.position
    rw [hreader₃, hfile] at hsum
    rw [Document.tableEnd]
    omega
  apply returns_get
  apply returns_bind.mpr
  apply returns_ofExcept (hposition ▸ dataOffsetOf_ok h)
  apply returns_bind.mpr
  rw [hfile]
  exact returns_validateTensorRanges h hready₃.grants fun _ => returns_pure rfl

theorem run_parseInput {doc : Document} {alignment : UInt32} (h : doc.WellFormed alignment)
    {input : Input β} (hready : Ready input 1 maxGuards) (hreader : input.reader = doc.encode)
    (hlen : input.fileLen = doc.encode.length) :
    ∃ parsed input', parseInput.run input = .ok parsed input' ∧ parsed = doc.parsed alignment :=
  Ends.run_ok (returns_parseInput h hready hreader hlen)

theorem input_new_reader (reader : List UInt8) (fileLen : Nat) (budget : AllocationBudget β)
    (budgetState : β) (reservations : Nat) :
    (Input.new reader fileLen budget budgetState reservations).reader = reader := rfl

theorem input_new_fileLen (reader : List UInt8) (fileLen : Nat) (budget : AllocationBudget β)
    (budgetState : β) (reservations : Nat) :
    (Input.new reader fileLen budget budgetState reservations).fileLen = fileLen := rfl

theorem ready_new {budget : AllocationBudget β} (hgrants : budget.Grants) (budgetState : β)
    {reservations : Nat} (hreservations : reservations ≤ 1) {file : List UInt8}
    (hfile : file.length < 2 ^ 64) :
    Ready (Input.new file file.length budget budgetState reservations) 1 maxGuards where
  grants := hgrants
  held_le := by decide
  position := Nat.zero_add _
  fileLen := hfile
  allocations := le_rfl
  vector := Nat.zero_le _
  capacity := Or.inl rfl
  used := le_rfl
  tight := le_rfl
  reservations := hreservations
  room := (Nat.zero_add _).le

theorem parseWithPreparedBudget_encode {doc : Document} {alignment : UInt32}
    (h : doc.WellFormed alignment) {budget : AllocationBudget β} (hgrants : budget.Grants)
    (budgetState : β) {reservations : Nat} (hreservations : reservations ≤ 1) :
    parseWithPreparedBudget doc.encode doc.encode.length budget budgetState reservations =
      .ok (doc.parsed alignment) := by
  have hready := ready_new hgrants budgetState hreservations h.length
  have hreader := input_new_reader doc.encode doc.encode.length budget budgetState reservations
  have hlen := input_new_fileLen doc.encode doc.encode.length budget budgetState reservations
  obtain ⟨parsed, input, hrun, hparsed⟩ := run_parseInput h hready hreader hlen
  rw [parseWithPreparedBudget, hrun, hparsed]

theorem prepareReservationStorage_ok {budget : AllocationBudget β} (hgrants : budget.Grants)
    (budgetState : β) : ∃ reservations ≤ 1, ∃ budgetState' : β,
      prepareReservationStorage budget budgetState = .ok (reservations, budgetState') := by
  have hwrapper := hgrants.reservationMetadataBytes budgetState
  unfold prepareReservationStorage
  dsimp only
  split_ifs with hzero
  · exact ⟨0, by decide, budgetState, rfl⟩
  · have hproduct := Nat.mul_le_mul_left parserReservationCapacity hwrapper
    have hlimit : parserReservationCapacity * 2 ^ 13 < 2 ^ 64 := by decide
    have hbytes := checkedMul_eq_some.mpr ⟨lt_of_le_of_lt hproduct hlimit, rfl⟩
    obtain ⟨budgetState', hreserve⟩ := hgrants.reserve
      (parserReservationCapacity * (budget.reservationMetadataBytes budgetState : Nat))
      "parser reservation metadata" budgetState
    refine ⟨1, le_rfl, budgetState', ?_⟩
    rw [hbytes]
    dsimp only
    rw [hreserve]

/-- A document is read back under every budget that grants what the parser asks for. -/
theorem parseWithBudget_encode {doc : Document} {alignment : UInt32}
    (h : doc.WellFormed alignment) {budget : AllocationBudget β} (hgrants : budget.Grants)
    (budgetState : β) :
    parseWithBudget doc.encode budget budgetState = .ok (doc.parsed alignment) := by
  obtain ⟨reservations, hreservations, budgetState', hprepare⟩ :=
    prepareReservationStorage_ok hgrants budgetState
  rw [parseWithBudget, hprepare]
  exact parseWithPreparedBudget_encode h hgrants budgetState' hreservations

/-- The parser accepts every well-formed document and returns its content. The data section starts
at the rounded position behind the tensor table, or right behind it when there are no tensors. -/
theorem parse_encode (doc : Document) (alignment : UInt32) (h : doc.WellFormed alignment) :
    ∃ parsed, parse doc.encode = .ok parsed ∧ parsed.version = 3 ∧ parsed.alignment = alignment ∧
      (∀ key value, parsed.metadata.get? key = some value ↔ (key, value) ∈ doc.metadata) ∧
      parsed.tensors = doc.tensors ∧
      parsed.dataOffset = if doc.tensors = [] then doc.tableEnd else doc.dataStart alignment := by
  have hparse : parse doc.encode = .ok (doc.parsed alignment) :=
    parseWithBudget_encode h unlimitedAllocationBudget_grants ()
  refine ⟨doc.parsed alignment, hparse, rfl, rfl, ?_, rfl, rfl⟩
  intro key value
  have hget : (doc.parsed alignment).metadata.get? key = some value ↔ _ :=
    get?_insertEntries h.metadataKeys
  rw [hget]
  constructor
  · rintro (hmem | ⟨_, hempty⟩)
    · exact hmem
    · cases hempty
  · exact Or.inl

/-- A document with one entry and one tensor of two values. -/
def oneTensorDocument : Document where
  metadata := [("k", .string "v")]
  tensors := [{ name := "t", shape := [2], dtype := ⟨0⟩, offset := 0, nBytes := 8 }]
  data := List.replicate 25 0

theorem oneTensorDocument_wellFormed : oneTensorDocument.WellFormed 32 where
  metadataCount := by decide
  tensorCount := by decide
  metadataKeys := List.nodup_singleton _
  tensorNames := List.nodup_singleton _
  entries := by
    intro entry hmem
    rw [List.mem_singleton.mp hmem]
    exact ⟨show "k".utf8ByteSize ≤ maxStringLen by decide +kernel,
      show "v".utf8ByteSize ≤ maxStringLen by decide +kernel⟩
  aligns := Or.inl ⟨by decide +kernel, rfl⟩
  names := by
    intro tensor hmem
    rw [List.mem_singleton.mp hmem]
    exact show "t".utf8ByteSize ≤ maxStringLen by decide +kernel
  laid := by
    intro tensor hmem
    rw [List.mem_singleton.mp hmem]
    refine ⟨by decide, ?_, ⟨1, 4, rfl, one_dvd _, rfl⟩, by decide⟩
    intro dimension hdimension hzero
    rw [List.mem_singleton.mp hdimension] at hzero
    exact absurd (congrArg UInt64.toNat hzero) (by decide)
  offsets := by
    intro tensor hmem
    rw [List.mem_singleton.mp hmem]
    exact ⟨0, rfl⟩
  inside := by
    intro tensor hmem
    rw [List.mem_singleton.mp hmem]
    decide +kernel
  apart := List.pairwise_singleton _ _
  length := by decide +kernel

theorem parse_encode_one : ∃ parsed, parse oneTensorDocument.encode = .ok parsed ∧
    parsed.version = 3 ∧ parsed.alignment = 32 ∧
      (∀ key value, parsed.metadata.get? key = some value ↔
        (key, value) ∈ oneTensorDocument.metadata) ∧
      parsed.tensors = oneTensorDocument.tensors ∧
      parsed.dataOffset = if oneTensorDocument.tensors = [] then oneTensorDocument.tableEnd
        else oneTensorDocument.dataStart 32 :=
  parse_encode oneTensorDocument 32 oneTensorDocument_wellFormed

/-- A file without tensors and metadata. -/
def emptyDocument : Document where
  metadata := []
  tensors := []
  data := []

theorem emptyDocument_wellFormed : emptyDocument.WellFormed 32 where
  metadataCount := by decide
  tensorCount := by decide
  metadataKeys := List.nodup_nil
  tensorNames := List.nodup_nil
  entries := by intro entry hmem; cases hmem
  aligns := Or.inl ⟨List.not_mem_nil, rfl⟩
  names := by intro tensor hmem; cases hmem
  laid := by intro tensor hmem; cases hmem
  offsets := by intro tensor hmem; cases hmem
  inside := by intro tensor hmem; cases hmem
  apart := List.Pairwise.nil
  length := by decide +kernel

/-- Without tensors the start of the data section is not rounded up. -/
theorem parse_empty_not_aligned : emptyDocument.WellFormed 32 ∧
    ¬ ∃ parsed, parse emptyDocument.encode = .ok parsed ∧
      parsed.dataOffset = emptyDocument.dataStart 32 := by
  refine ⟨emptyDocument_wellFormed, ?_⟩
  rintro ⟨parsed, hparse, haligned⟩
  have hoffset : (parse emptyDocument.encode).toOption.map Parsed.dataOffset = some 24 := by
    decide +kernel
  have hstart : emptyDocument.dataStart 32 = 32 := by decide +kernel
  rw [hparse] at hoffset
  have hdata : parsed.dataOffset = 24 := Option.some.inj hoffset
  omega

end Leone.Gguf
