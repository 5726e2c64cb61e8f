import Leone.Gguf.Ranges

/-!
# A parsed file has a sound tensor table

The header counts all entries, the tensors start at aligned offsets and lie apart inside the file,
and a read relative to a tensor stays inside its range.
-/

namespace Leone.Gguf

open Framework Framework.Method

variable {β : Type}

/-- The checks that a parsed file has passed. -/
structure SoundTable (file : List UInt8) (parsed : Parsed) : Prop where
  metadataCount : parsed.metadata.size = headerCount file 16
  metadataKeys : parsed.metadata.keys.Nodup
  tensorCount : parsed.tensors.length = headerCount file 8
  tensorNames : (parsed.tensors.map TensorInfo.name).Nodup
  alignment : ∃ k < 32, parsed.alignment.toNat = 2 ^ k
  laid : ∀ tensor ∈ parsed.tensors, tensor.Laid
  aligned : ∀ tensor ∈ parsed.tensors,
    parsed.alignment.toNat ∣ (tensor.range parsed.dataOffset).start
  inside : ∀ tensor ∈ parsed.tensors, (tensor.range parsed.dataOffset).stop ≤ file.length
  apart : parsed.tensors.Pairwise fun first second =>
    (first.range parsed.dataOffset).Apart (second.range parsed.dataOffset)
  reads : ∀ name offset len read, parsed.tensorRange file name offset len = .ok read →
    ∃ tensor ∈ parsed.tensors, tensor.name = name ∧
      read = (file.drop ((tensor.range parsed.dataOffset).start + offset.toNat)).take len.toNat ∧
      read.length = len.toNat ∧
      (tensor.range parsed.dataOffset).start + offset.toNat + len.toNat ≤
        (tensor.range parsed.dataOffset).stop

theorem alignUp_dvd {value aligned : Nat} {alignment : UInt32}
    (hpow : ∃ k < 32, alignment.toNat = 2 ^ k)
    (h : alignUp value alignment.toUInt64 = .ok aligned) : alignment.toNat ∣ aligned := by
  obtain ⟨k, hk, halign⟩ := hpow
  have hround : alignment.toUInt64 = UInt64.ofNat (2 ^ k) := by
    apply UInt64.toNat_inj.mp
    rw [UInt32.toNat_toUInt64, halign]
    have hbound : 2 ^ k < 2 ^ 64 := Nat.pow_lt_pow_right (by decide) (by omega)
    exact (UInt64.toNat_ofNat_of_lt' hbound).symm
  unfold alignUp at h
  rw [hround] at h
  dsimp only at h
  split at h
  · rename_i sum _
    rw [← Except.ok.inj h, and_not_mask _ (by omega), halign]
    exact Nat.dvd_mul_left _ _
  · cases h

theorem dataOffsetOf_dvd {tensorCount position dataOffset : Nat} {alignment : UInt32}
    (hpow : ∃ k < 32, alignment.toNat = 2 ^ k) (hcount : tensorCount ≠ 0)
    (h : dataOffsetOf tensorCount position alignment = .ok dataOffset) :
    alignment.toNat ∣ dataOffset := by
  rw [dataOffsetOf, if_neg hcount] at h
  exact alignUp_dvd hpow h

/-- A read relative to a tensor that returns stays inside the tensor. -/
theorem tensorRange_inside {parsed : Parsed} {file read : List UInt8} {name : String}
    {offset len : UInt64} (h : parsed.tensorRange file name offset len = .ok read) :
    ∃ tensor ∈ parsed.tensors, tensor.name = name ∧
      read = (file.drop ((tensor.range parsed.dataOffset).start + offset.toNat)).take len.toNat ∧
      read.length = len.toNat ∧
      (tensor.range parsed.dataOffset).start + offset.toNat + len.toNat ≤
        (tensor.range parsed.dataOffset).stop := by
  unfold Parsed.tensorRange at h
  split at h
  · cases h
  · rename_i tensor hfind
    have hname : tensor.name = name := by
      have hdecide := List.find?_some hfind
      exact of_decide_eq_true hdecide
    obtain ⟨stop, hstop, h⟩ := bind_eq_ok.mp h
    rw [overflowOr_eq_ok, checkedAdd_eq_some] at hstop
    split_ifs at h with hinside
    obtain ⟨absolute, habsolute, h⟩ := bind_eq_ok.mp h
    rw [overflowOr_eq_ok, Option.bind_eq_some_iff] at habsolute
    obtain ⟨start, hstart, habsolute⟩ := habsolute
    rw [checkedAdd_eq_some] at hstart habsolute
    obtain ⟨last, hlast, h⟩ := bind_eq_ok.mp h
    rw [overflowOr_eq_ok, checkedAdd_eq_some] at hlast
    split_ifs at h with hfile
    refine ⟨tensor, List.mem_of_find?_eq_some hfind, hname, ?_, ?_, ?_⟩
    · rw [← Except.ok.inj h, ← habsolute.2, ← hstart.2]
      rfl
    · rw [← Except.ok.inj h, List.length_take, List.length_drop]
      omega
    · simp only [TensorInfo.range]
      omega

/-- What a run of the parser on a file checks. -/
theorem parseInput_ends (input : Input β) : parseInput.Ends input (fun parsed _ =>
    parsed.metadata.size = headerCount input.reader 16 ∧
      parsed.tensors.length = headerCount input.reader 8 ∧
      (parsed.tensors.map TensorInfo.name).Nodup ∧
      (∃ k < 32, parsed.alignment.toNat = 2 ^ k) ∧
      (∀ tensor ∈ parsed.tensors, tensor.Laid) ∧
      (∀ tensor ∈ parsed.tensors,
        parsed.alignment.toNat ∣ (tensor.range parsed.dataOffset).start) ∧
      (∀ tensor ∈ parsed.tensors, (tensor.range parsed.dataOffset).stop ≤ input.fileLen) ∧
      parsed.tensors.Pairwise fun first second =>
        (first.range parsed.dataOffset).Apart (second.range parsed.dataOffset))
    fun _ _ => True := by
  rw [parseInput, ends_bind]
  apply (parseHeader_ends input).mono _ fun _ _ hf => hf
  rintro ⟨tensorCount, metadataCount⟩ input₁ ⟨hcounts, hlen₁⟩
  obtain ⟨htensorCount, hmetadataCount⟩ := Prod.mk.inj hcounts
  rw [ends_bind]
  apply (yields_parseMetadata metadataCount input₁).mono _ fun _ _ hf => hf
  rintro metadata input₂ ⟨hsize, hlen₂⟩
  rw [ends_bind]
  apply (Yields.ofExcept (parseAlignment metadata) input₂).mono _ fun _ _ hf => hf
  rintro alignment input₃ ⟨halignment, hlen₃⟩
  have hpow := parseAlignment_pow halignment
  rw [ends_bind]
  apply (yields_parseTensors tensorCount alignment input₃).mono _ fun _ _ hf => hf
  rintro tensors input₄ ⟨⟨hlength, hnames, hchecked⟩, hlen₄⟩
  rw [ends_bind, ends_get, ends_bind]
  apply (Yields.ofExcept (dataOffsetOf tensorCount input₄.position alignment) input₄).mono _
    fun _ _ hf => hf
  rintro dataOffset input₅ ⟨hoffset, _⟩
  rw [ends_bind]
  apply (yields_validateTensorRanges tensors dataOffset input₄.fileLen input₅).mono _
    fun _ _ hf => hf
  rintro _ _ ⟨⟨hinside, hapart⟩, _⟩
  rw [ends_pure]
  refine ⟨hsize.trans hmetadataCount, hlength.trans htensorCount, hnames, hpow,
    fun tensor hmem => (hchecked tensor hmem).2, ?_, ?_, hapart⟩
  · intro tensor hmem
    have hne : tensorCount ≠ 0 := by
      rw [← hlength]
      exact (List.length_pos_of_mem hmem).ne'
    exact Nat.dvd_add (dataOffsetOf_dvd hpow hne hoffset) (Nat.dvd_of_mod_eq_zero (hchecked tensor hmem).1)
  · rwa [hlen₄, hlen₃, hlen₂, hlen₁] at hinside

/-- Every file that the parser accepts, under whatever budget, has a sound tensor table. -/
theorem parse_soundTable (file : List UInt8) (budget : AllocationBudget β) (budgetState : β)
    (reservations : Nat) (parsed : Parsed)
    (h : parseWithPreparedBudget file file.length budget budgetState reservations = .ok parsed) :
    SoundTable file parsed := by
  unfold parseWithPreparedBudget at h
  split at h
  · rename_i result input hrun
    cases h
    obtain ⟨hmetadata, hcount, hnames, hpow, hlaid, haligned, hinside, hapart⟩ :=
      (parseInput_ends _).of_ok hrun
    exact ⟨hmetadata, parsed.metadata.nodup_keys, hcount, hnames, hpow, hlaid, haligned, hinside,
      hapart, fun _ _ _ _ => tensorRange_inside⟩
  · cases h

/-- A file with one string entry and one tensor of two values. -/
def oneTensorFile : List UInt8 :=
  ggufMagic ++ [3, 0, 0, 0] ++ [1, 0, 0, 0, 0, 0, 0, 0] ++ [1, 0, 0, 0, 0, 0, 0, 0] ++
    -- The entry "k" with the string "v".
    [1, 0, 0, 0, 0, 0, 0, 0, 107, 8, 0, 0, 0, 1, 0, 0, 0, 0, 0, 0, 0, 118] ++
    -- The tensor "t" with one dimension of two 32-bit floats at offset zero.
    [1, 0, 0, 0, 0, 0, 0, 0, 116, 1, 0, 0, 0, 2, 0, 0, 0, 0, 0, 0, 0] ++
    [0, 0, 0, 0, 0, 0, 0, 0, 0, 0, 0, 0] ++ List.replicate 17 0 ++ List.replicate 8 7

theorem parse_soundTable_one : ∃ parsed,
    parseWithPreparedBudget oneTensorFile oneTensorFile.length unlimitedAllocationBudget () 0 =
        .ok parsed ∧
      parsed.tensors.length = 1 ∧ SoundTable oneTensorFile parsed := by
  have hlen : (parseWithPreparedBudget oneTensorFile oneTensorFile.length
      unlimitedAllocationBudget () 0).toOption.map (fun parsed => parsed.tensors.length) =
        some 1 := by
    decide +kernel
  cases hrun : parseWithPreparedBudget oneTensorFile oneTensorFile.length
      unlimitedAllocationBudget () 0 with
  | ok parsed =>
    rw [hrun] at hlen
    exact ⟨parsed, rfl, Option.some.inj hlen, parse_soundTable _ _ _ _ _ hrun⟩
  | error fault =>
    rw [hrun] at hlen
    cases hlen

end Leone.Gguf
