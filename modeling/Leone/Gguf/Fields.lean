import Leone.Gguf.Document

/-!
# The fields of a document are read back

Numbers, strings, arrays, metadata entries and tensor descriptors decode from their bytes. The early
size checks of the parser pass because the bytes behind a count are at least as many as the checks
ask for.
-/

namespace Leone.Gguf

open Framework Framework.Method

variable {β α γ : Type}

/-! ## Numbers -/

theorem decodes_bytes (xs : List UInt8) : Decodes (bytes xs.length : Parser β _) xs xs 0 := by
  have hread : Decodes (do
      let read ← readExact xs.length; advance xs.length; return read : Parser β _) (xs ++ []) xs 0 :=
    decodes_read Decodes.pure
  rwa [List.append_nil] at hread

theorem decodes_leBytes {width value : Nat} (h : value < 256 ^ width) (g : Nat → α) :
    Decodes (do return g (fromLeBytes (← bytes width)) : Parser β _) (leBytes width value)
      (g value) 0 := by
  have hmap := (decodes_bytes (β := β) (leBytes width value)).map fun read => g (fromLeBytes read)
  rwa [leBytes_length, fromLeBytes_leBytes, Nat.mod_eq_of_lt h] at hmap

theorem decodes_u8 (value : UInt8) : Decodes (u8 : Parser β _) (leBytes 1 value.toNat) value 0 := by
  have hbound : value.toNat < 256 ^ 1 := value.toNat_lt
  have hread := decodes_leBytes (β := β) hbound UInt8.ofNat
  rwa [UInt8.ofNat_toNat] at hread

theorem decodes_u16 (value : UInt16) :
    Decodes (u16 : Parser β _) (leBytes 2 value.toNat) value 0 := by
  have hbound : value.toNat < 256 ^ 2 := value.toNat_lt
  have hread := decodes_leBytes (β := β) hbound UInt16.ofNat
  rwa [UInt16.ofNat_toNat] at hread

theorem decodes_u32 (value : UInt32) :
    Decodes (u32 : Parser β _) (leBytes 4 value.toNat) value 0 := by
  have hbound : value.toNat < 256 ^ 4 := value.toNat_lt
  have hread := decodes_leBytes (β := β) hbound UInt32.ofNat
  rwa [UInt32.ofNat_toNat] at hread

theorem decodes_u64 (value : UInt64) :
    Decodes (u64 : Parser β _) (leBytes 8 value.toNat) value 0 := by
  have hbound : value.toNat < 256 ^ 8 := value.toNat_lt
  have hread := decodes_leBytes (β := β) hbound UInt64.ofNat
  rwa [UInt64.ofNat_toNat] at hread

/-- A count is read as a 64-bit number. -/
theorem decodes_count {f : UInt64 → Parser β γ} {ys : List UInt8} {c : γ} {n count : Nat}
    (hcount : count < 2 ^ 64) (hf : ∀ value : UInt64, value.toNat = count → Decodes (f value) ys c n) :
    Decodes (u64 >>= f) (leBytes 8 count ++ ys) c n := by
  have hvalue : (UInt64.ofNat count).toNat = count := UInt64.toNat_ofNat_of_lt' hcount
  have hread := decodes_u64 (β := β) (UInt64.ofNat count)
  rw [hvalue] at hread
  have hbind := hread.bind (hf _ hvalue)
  rwa [Nat.zero_add] at hbind

theorem decodes_code {f : UInt32 → Parser β γ} {ys : List UInt8} {c : γ} {n code : Nat}
    (hcode : code < 2 ^ 32) (hf : ∀ value : UInt32, value.toNat = code → Decodes (f value) ys c n) :
    Decodes (u32 >>= f) (leBytes 4 code ++ ys) c n := by
  have hvalue : (UInt32.ofNat code).toNat = code := UInt32.toNat_ofNat_of_lt' hcode
  have hread := decodes_u32 (β := β) (UInt32.ofNat code)
  rw [hvalue] at hread
  have hbind := hread.bind (hf _ hvalue)
  rwa [Nat.zero_add] at hbind

theorem decodes_bool (value : Bool) : Decodes (bool : Parser β _) (encodeBool value) value 0 := by
  have hread := decodes_u8 (β := β) (if value then 1 else 0)
  have hbytes : leBytes 1 (if value then (1 : UInt8) else 0).toNat = encodeBool value := by
    cases value <;> rfl
  rw [hbytes] at hread
  have hbind : Decodes (bool : Parser β _) (encodeBool value ++ []) value (0 + 0) := by
    apply hread.bind
    cases value with
    | false => exact Decodes.pure
    | true => exact Decodes.pure
  rwa [List.append_nil] at hbind

/-! ## Strings and vectors -/

/-- A string length passes its checks when that many bytes follow. -/
theorem decodes_stringLength {f : Nat → Parser β γ} {field : String} {ys : List UInt8} {c : γ}
    {len n : Nat} (hlen : len ≤ maxStringLen) (hys : len ≤ ys.length)
    (hf : Decodes (f len) ys c n) :
    Decodes (stringLength field >>= f) (leBytes 8 len ++ ys) c n := by
  unfold stringLength
  rw [bind_assoc]
  apply decodes_count (lt_of_le_of_lt hlen (by decide))
  intro value hvalue
  dsimp only
  rw [hvalue, bind_assoc]
  apply Decodes.ensure hlen
  rw [bind_assoc]
  apply Decodes.get
  intro input hremaining
  rw [bind_assoc]
  apply Decodes.ensure (hys.trans hremaining)
  rwa [pure_bind]

theorem decodes_readStringBody (text field : String) :
    Decodes (readStringBody (stringBytes text).length field : Parser β _) (stringBytes text)
      text 1 := by
  have hread : Decodes (readStringBody (stringBytes text).length field : Parser β _)
      (stringBytes text ++ []) text 1 := by
    apply Decodes.reserve
    apply decodes_read
    apply Decodes.orErr (fromUTF8?_stringBytes text)
    have hcommit : Decodes (do commitRetained; return text : Parser β _) ([] ++ []) text (1 + 0) :=
      decodes_commitRetained.bind Decodes.pure
    exact hcommit
  rwa [List.append_nil] at hread

theorem decodes_string {text : String} (field : String) (h : StringWithin text) :
    Decodes (string field : Parser β _) (encodeString text) text 1 := by
  apply decodes_stringLength h (stringBytes_length text).ge
  split_ifs with hzero
  · have hempty : text = "" := String.utf8ByteSize_eq_zero_iff.mp hzero
    subst hempty
    exact Decodes.pure.mono (Nat.zero_le _)
  · exact decodes_readStringBody text field

theorem decodes_allocateVec {f : Unit → Parser β γ} {elementBytes count : Nat} {what : String}
    {ys : List UInt8} {c : γ} {n : Nat} (hcount : count * elementBytes + vecHeaderBytes < 2 ^ 64)
    (hf : Decodes (f ()) ys c n) :
    Decodes (allocateVec elementBytes count what >>= f) ys c (1 + n) := by
  unfold allocateVec
  split_ifs with hzero
  · rw [pure_bind]
    exact hf.mono (by omega)
  · have hallocate : Decodes (do
        let bytes ← vectorBytes elementBytes count what
        reserve bytes what
        commitRetained : Parser β _) [] () 1 := by
      unfold vectorBytes
      rw [bind_assoc]
      apply Decodes.orErr (checkedMul_eq_some.mpr ⟨by omega, rfl⟩)
      apply Decodes.orErr (checkedAdd_eq_some.mpr ⟨hcount, rfl⟩)
      exact Decodes.reserve decodes_commitRetained
    exact hallocate.bind hf

theorem decodes_readMany {read : Parser β α} {encode : α → List UInt8} {n : Nat}
    {values : List α} (h : ∀ value ∈ values, Decodes read (encode value) value n) :
    Decodes (readMany read values.length) (values.flatMap encode) values (values.length * n) := by
  induction values with
  | nil => exact Decodes.pure.mono (Nat.zero_le _)
  | cons value values ih =>
    have hrest := ih fun v hv => h v (List.mem_cons_of_mem value hv)
    have hcons : Decodes (readMany read (values.length + 1))
        (encode value ++ values.flatMap encode) (value :: values) (n + values.length * n) :=
      (h value List.mem_cons_self).bind (hrest.map fun rest => value :: rest)
    exact hcons.mono (by rw [List.length_cons, Nat.succ_mul, Nat.add_comm])

theorem decodes_readArrayValuesMapped {read : Parser β α} {encode : γ → List UInt8} {map : α → γ}
    {unmap : γ → α} {elementBytes n : Nat} {values : List γ}
    (hcount : values.length * elementBytes + vecHeaderBytes < 2 ^ 64)
    (h : ∀ value ∈ values, Decodes read (encode value) (unmap value) n)
    (hmap : ∀ value, map (unmap value) = value) :
    Decodes (readArrayValuesMapped elementBytes values.length read map)
      (values.flatMap encode) values (1 + values.length * n) := by
  apply decodes_allocateVec hcount
  apply decodes_readMany
  intro value hmem
  have hread := (h value hmem).map map
  rwa [hmap] at hread

/-! ## Metadata values -/

theorem code_lt (valueType : ValueType) : valueType.code < 2 ^ 32 := by
  cases valueType <;> decide

/-- The bytes of the values are at least as many as the check on an array asks for. -/
theorem arrayElementBytes_le (array : MetadataArray) :
    array.length * arrayElementBytes array.elementType ≤ array.encodeValues.length := by
  have hflat : ∀ {γ : Type} (values : List γ) (encode : γ → List UInt8) (size : Nat),
      (∀ value, size ≤ (encode value).length) →
        values.length * size ≤ (values.flatMap encode).length := by
    intro γ values encode size hsize
    induction values with
    | nil => exact (Nat.zero_mul size).le
    | cons value values ih =>
      rw [List.flatMap_cons, List.length_append, List.length_cons, Nat.succ_mul, Nat.add_comm]
      exact Nat.add_le_add (hsize value) ih
  cases array with
  | bool values => exact hflat values _ _ fun _ => le_rfl
  | string values =>
    apply hflat values _ _
    intro text
    rw [encodeString, List.length_append, leBytes_length]
    exact Nat.le_add_right _ _
  | _ values => exact hflat values _ _ fun _ => (leBytes_length _ _).ge

theorem decodes_array {read : Parser β α} {encode : γ → List UInt8} {map : α → γ} {unmap : γ → α}
    {elementBytes n : Nat} {values : List γ} {wrap : List γ → MetadataArray}
    (hcount : values.length * elementBytes + vecHeaderBytes < 2 ^ 64)
    (h : ∀ value ∈ values, Decodes read (encode value) (unmap value) n)
    (hmap : ∀ value, map (unmap value) = value) (hn : n ≤ 1) :
    Decodes (do return wrap (← readArrayValuesMapped elementBytes values.length read map))
      (values.flatMap encode) (wrap values) (1 + values.length) := by
  apply ((decodes_readArrayValuesMapped hcount h hmap).map wrap).mono
  exact Nat.add_le_add_left (by simpa using Nat.mul_le_mul_left values.length hn) 1

theorem decodes_parseArrayValues {array : MetadataArray} (h : array.Within) :
    Decodes (parseArrayValues array.elementType array.length : Parser β _) array.encodeValues
      array (1 + array.length) := by
  have hcount : ∀ elementBytes ≤ 24, array.length * elementBytes + vecHeaderBytes < 2 ^ 64 := by
    intro elementBytes hbytes
    have hproduct := Nat.mul_le_mul h.1 hbytes
    exact lt_of_le_of_lt (Nat.add_le_add_right hproduct vecHeaderBytes) (by decide)
  cases array with
  | uint8 values =>
    exact decodes_array (hcount 1 (by decide)) (fun value _ => decodes_u8 value) (fun _ => rfl)
      (Nat.zero_le 1)
  | int8 values =>
    exact decodes_array (hcount 1 (by decide)) (fun value _ => decodes_u8 value.toUInt8)
      Int8.toInt8_toUInt8 (Nat.zero_le 1)
  | uint16 values =>
    exact decodes_array (hcount 2 (by decide)) (fun value _ => decodes_u16 value) (fun _ => rfl)
      (Nat.zero_le 1)
  | int16 values =>
    exact decodes_array (hcount 2 (by decide)) (fun value _ => decodes_u16 value.toUInt16)
      Int16.toInt16_toUInt16 (Nat.zero_le 1)
  | uint32 values =>
    exact decodes_array (hcount 4 (by decide)) (fun value _ => decodes_u32 value) (fun _ => rfl)
      (Nat.zero_le 1)
  | int32 values =>
    exact decodes_array (hcount 4 (by decide)) (fun value _ => decodes_u32 value.toUInt32)
      Int32.toInt32_toUInt32 (Nat.zero_le 1)
  | float32 bits =>
    exact decodes_array (hcount 4 (by decide)) (fun value _ => decodes_u32 value) (fun _ => rfl)
      (Nat.zero_le 1)
  | bool values =>
    exact decodes_array (hcount 1 (by decide)) (fun value _ => decodes_bool value) (fun _ => rfl)
      (Nat.zero_le 1)
  | string values =>
    exact decodes_array (hcount 24 le_rfl)
      (fun text hmem => decodes_string _ (h.2 values rfl text hmem)) (fun _ => rfl) le_rfl
  | uint64 values =>
    exact decodes_array (hcount 8 (by decide)) (fun value _ => decodes_u64 value) (fun _ => rfl)
      (Nat.zero_le 1)
  | int64 values =>
    exact decodes_array (hcount 8 (by decide)) (fun value _ => decodes_u64 value.toUInt64)
      Int64.toInt64_toUInt64 (Nat.zero_le 1)
  | float64 bits =>
    exact decodes_array (hcount 8 (by decide)) (fun value _ => decodes_u64 value) (fun _ => rfl)
      (Nat.zero_le 1)

theorem decodes_valueTypeOf {f : ValueType → Parser β γ} {valueType : ValueType} {ys : List UInt8}
    {c : γ} {n : Nat} (hf : Decodes (f valueType) ys c n) :
    Decodes (u32 >>= fun code => valueTypeOf code >>= f) (leBytes 4 valueType.code ++ ys) c n := by
  apply decodes_code (code_lt valueType)
  intro code hcode
  apply Decodes.orErr _ hf
  rw [hcode, valueTypes_code]

theorem elementType_ne_array (array : MetadataArray) : array.elementType ≠ .array := by
  cases array <;> exact ValueType.noConfusion

theorem decodes_parseArray {array : MetadataArray} (h : array.Within) :
    Decodes (parseArray : Parser β _) array.encode array (1 + array.length) := by
  have hsmall : ∀ valueType, arrayElementBytes valueType ≤ 8 := by
    intro valueType
    cases valueType <;> decide
  have hproduct : array.length * arrayElementBytes array.elementType < 2 ^ 64 := by
    have hmul := Nat.mul_le_mul h.1 (hsmall array.elementType)
    exact lt_of_le_of_lt hmul (by decide)
  apply decodes_valueTypeOf
  apply Decodes.ensure (elementType_ne_array array)
  apply decodes_count (lt_of_le_of_lt h.1 (by decide))
  intro len hlen
  dsimp only
  rw [hlen]
  apply Decodes.ensure h.1
  apply Decodes.orErr (checkedMul_eq_some.mpr ⟨hproduct, rfl⟩)
  apply Decodes.get
  intro input hremaining
  apply Decodes.ensure ((arrayElementBytes_le array).trans hremaining)
  exact decodes_parseArrayValues h

/-- At most this many guards for one metadata value. -/
def valueGuards : Nat := 1 + maxCollectionLen

theorem decodes_parseValue {value : MetadataValue} (h : value.Within) :
    Decodes (parseValue value.valueType : Parser β _) value.encode value valueGuards := by
  have hzero : 0 ≤ valueGuards := Nat.zero_le _
  cases value with
  | uint8 value => exact ((decodes_u8 value).map _).mono hzero
  | int8 value =>
    exact ((decodes_u8 value.toUInt8).map fun v => MetadataValue.int8 v.toInt8).mono hzero
  | uint16 value => exact ((decodes_u16 value).map _).mono hzero
  | int16 value =>
    exact ((decodes_u16 value.toUInt16).map fun v => MetadataValue.int16 v.toInt16).mono hzero
  | uint32 value => exact ((decodes_u32 value).map _).mono hzero
  | int32 value =>
    exact ((decodes_u32 value.toUInt32).map fun v => MetadataValue.int32 v.toInt32).mono hzero
  | float32 bits => exact ((decodes_u32 bits).map _).mono hzero
  | bool value => exact ((decodes_bool value).map _).mono hzero
  | string value => exact ((decodes_string _ h).map _).mono (by decide)
  | array values =>
    apply ((decodes_parseArray h).map MetadataValue.array).mono
    exact Nat.add_le_add_left h.1 1
  | uint64 value => exact ((decodes_u64 value).map _).mono hzero
  | int64 value =>
    exact ((decodes_u64 value.toUInt64).map fun v => MetadataValue.int64 v.toInt64).mono hzero
  | float64 bits => exact ((decodes_u64 bits).map _).mono hzero

end Leone.Gguf
