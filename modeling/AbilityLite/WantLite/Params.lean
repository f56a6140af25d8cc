import AbilityLite.Ams.Record

/-
  Parameters of a Want: `SetIntParam` and `SetStrParam` append a record of a key and a value
  to its data, built from smaller records in blocks whose sizes are kept in 8 bits.

  A write that leaves the block it goes to ends everything: nothing is known after it.

  Correspondence (C++ ↔ Lean):
    `AdapterMalloc`, `memcpy_s`     ↔ `malloc`, `memcpyS`
    `EncapTlv`, `CombineKeyValueTlv` ↔ `encapTlv`, `combineKeyValueTlv`
    `SetWantData`, `UpdateWantData` ↔ `setWantData`, `updateWantData`
    `SetIntParam`, `SetStrParam`    ↔ `setIntParam`, `setStrParam` (`setParam` for their common end)
-/

namespace AbilityLite.WantLite
open Ams

/-! ## Blocks -/

inductive MemFault where
  | outside
  deriving DecidableEq, Repr

/-- A block of as many bytes, with what was there before. -/
def malloc (junk : Nat → UInt8) (size : Nat) : List UInt8 := (List.range size).map junk

/-- `count` bytes of `src` go to a block, from an offset on. The call reports an error, and
writes nothing, where there are more than its caller says there is room for. -/
def memcpyS (block : List UInt8) (offset destMax : Nat) (src : List UInt8) (count : Nat) :
    Except MemFault (Option (List UInt8)) :=
  if destMax < count then .ok none
  else if block.length < offset + count then .error .outside
  else .ok (some (block.take offset ++ src.take count ++ block.drop (offset + count)))

/-! ## Records -/

structure Tlv where
  type : UInt8
  entity : List UInt8
  totalLen : UInt8
  deriving DecidableEq, Repr

def intValueType : UInt8 := 6
def stringValueType : UInt8 := 13
def keyValuePairType : UInt8 := 97

def encapTlv (junk : Nat → UInt8) (type length : UInt8) (value : List UInt8) (valueLen : UInt8) :
    Except MemFault (Option Tlv) := do
  -- the header has 2 bytes
  let totalLen := valueLen + 2
  let entity := malloc junk totalLen.toNat
  match ← memcpyS entity 0 totalLen.toNat [type] 1 with
  | none => .ok none
  | some entity =>
    match ← memcpyS entity 1 (totalLen.toNat - 1) [length] 1 with
    | none => .ok none
    | some entity =>
      match ← memcpyS entity 2 valueLen.toNat value valueLen.toNat with
      | none => .ok none
      | some entity => .ok (some ⟨type, entity, totalLen⟩)

def combineKeyValueTlv (junk : Nat → UInt8) (keyTlv valueTlv : Tlv) : Except MemFault (Option Tlv) := do
  let newTlvValueLen := keyTlv.totalLen + valueTlv.totalLen
  let newTlvValue := malloc junk newTlvValueLen.toNat
  match ← memcpyS newTlvValue 0 keyTlv.totalLen.toNat keyTlv.entity keyTlv.totalLen.toNat with
  | none => .ok none
  | some newTlvValue =>
    match ← memcpyS newTlvValue keyTlv.totalLen.toNat valueTlv.totalLen.toNat valueTlv.entity
        valueTlv.totalLen.toNat with
    | none => .ok none
    | some newTlvValue => encapTlv junk keyValuePairType newTlvValueLen newTlvValue newTlvValueLen

/-! ## The data of a Want -/

/-- `SetWantData`: the data are lost where nothing was copied. -/
def setWantData (data : Option (List UInt8)) (dataLength : UInt16) (want : Want) : Bool × Want :=
  match memdup data dataLength with
  | none => (false, { want with data := none, dataLength := 0 })
  | some copy => (true, { want with data := some copy, dataLength })

/-- `UpdateWantData` does not ask what `SetWantData` returned, which takes the length as 16 bits. -/
def updateWantData (junk : Nat → UInt8) (tlv : Tlv) (want : Want) : Except MemFault (Bool × Want) :=
  match want.data with
  | some data => do
    let newWantData := malloc junk (tlv.totalLen.toNat + want.dataLength.toNat)
    match ← memcpyS newWantData 0 want.dataLength.toNat data want.dataLength.toNat with
    | none => .ok (false, want)
    | some newWantData =>
      match ← memcpyS newWantData want.dataLength.toNat tlv.totalLen.toNat tlv.entity
          tlv.totalLen.toNat with
      | none => .ok (false, want)
      | some newWantData =>
        .ok (true, (setWantData (some newWantData)
          (UInt16.ofNat (tlv.totalLen.toNat + want.dataLength.toNat)) want).2)
  | none => .ok (true, (setWantData (some tlv.entity) tlv.totalLen.toUInt16 want).2)

/-- What both setters do once they have a record of the key and one of the value. -/
def setParam (junk : Nat → UInt8) (keyTlv valueTlv : Tlv) (want : Want) :
    Except MemFault (Bool × Want) := do
  match ← combineKeyValueTlv junk keyTlv valueTlv with
  | none => .ok (false, want)
  | some newTlv => updateWantData junk newTlv want

/-- The bytes of `intBuffer`. -/
def intBuffer (value : Int32) : List UInt8 :=
  [24, 16, 8, 0].map fun n : UInt32 => (value.toUInt32 >>> n).toUInt8

def setIntParam (junk : Nat → UInt8) (key : List UInt8) (keyLen : UInt8) (value : Int32) (want : Want) :
    Except MemFault (Bool × Want) := do
  if keyLen ≤ 0 then .ok (false, want)
  else
    match ← encapTlv junk stringValueType keyLen key keyLen with
    | none => .ok (false, want)
    | some keyTlv =>
      if value < 0 then .ok (false, want)
      else
        match ← encapTlv junk intValueType 4 (intBuffer value) 4 with
        | none => .ok (false, want)
        | some valueTlv => setParam junk keyTlv valueTlv want

def setStrParam (junk : Nat → UInt8) (key : List UInt8) (keyLen : UInt8) (value : List UInt8)
    (valueLen : UInt8) (want : Want) : Except MemFault (Bool × Want) := do
  if keyLen ≤ 0 ∨ valueLen ≤ 0 then .ok (false, want)
  else
    match ← encapTlv junk stringValueType keyLen key keyLen with
    | none => .ok (false, want)
    | some keyTlv =>
      match ← encapTlv junk stringValueType valueLen value valueLen with
      | none => .ok (false, want)
      | some valueTlv => setParam junk keyTlv valueTlv want

/-! ## Writing into a block -/

section Blocks
variable {l r x y : List UInt8} {offset destMax count : Nat}

theorem length_malloc (junk : Nat → UInt8) (size : Nat) : (malloc junk size).length = size := by
  unfold malloc
  rw [List.length_map, List.length_range]

/-- A write that fits puts the bytes behind those that are there already. -/
theorem memcpyS_fits (hoffset : offset = l.length) (hcount : x.length = count) (hmax : count ≤ destMax)
    (hroom : count ≤ r.length) :
    memcpyS (l ++ r) offset destMax x count = .ok (some (l ++ x ++ r.drop count)) := by
  subst hoffset
  subst hcount
  unfold memcpyS
  rw [if_neg (Nat.not_lt.mpr hmax), if_neg, List.take_left, List.take_length, List.drop_append,
    List.drop_eq_nil_of_le (Nat.le_add_right _ _), Nat.add_sub_cancel_left, List.nil_append]
  rw [List.length_append]
  omega

theorem memcpyS_refused (h : destMax < count) : memcpyS l offset destMax x count = .ok none := by
  unfold memcpyS
  rw [if_pos h]

theorem memcpyS_outside (hmax : count ≤ destMax) (h : l.length < offset + count) :
    memcpyS l offset destMax x count = .error .outside := by
  unfold memcpyS
  rw [if_neg (Nat.not_lt.mpr hmax), if_pos h]

/-- Two writes that fill a block. -/
theorem memcpyS_fill {size : Nat} (hl : l.length = size)
    (hsize : size = x.length + y.length) :
    memcpyS l 0 x.length x x.length = .ok (some (x ++ l.drop x.length)) ∧
      memcpyS (x ++ l.drop x.length) x.length y.length y y.length =
        .ok (some (x ++ y)) := by
  constructor
  · have hfirst := memcpyS_fits (l := []) (r := l) (x := x) rfl rfl
      (Nat.le_refl x.length) (by omega)
    exact hfirst
  · have hroom : (l.drop x.length).length = y.length := by
      rw [List.length_drop]
      omega
    rw [memcpyS_fits rfl rfl (Nat.le_refl _) (by omega), List.drop_eq_nil_of_le (by omega),
      List.append_nil]

end Blocks

/-! ## What the records are -/

section Records
variable {junk : Nat → UInt8} {key value : List UInt8} {keyLen valueLen : UInt8}

theorem toNat_add_two {n : UInt8} (h : n.toNat ≤ 253) : (n + 2).toNat = n.toNat + 2 := by
  rw [UInt8.toNat_add]
  exact Nat.mod_eq_of_lt (by show n.toNat + 2 < 256; omega)

/-- A record of up to 253 bytes has its header in front of them. -/
theorem encapTlv_fits {type length : UInt8} (hvalue : value.length = valueLen.toNat)
    (h : valueLen.toNat ≤ 253) :
    encapTlv junk type length value valueLen = .ok (some ⟨type, type :: length :: value, valueLen + 2⟩) := by
  have htotal := toNat_add_two h
  have hlength : (malloc junk (valueLen + 2).toNat).length = value.length + 2 := by
    rw [length_malloc, htotal, hvalue]
  obtain ⟨a, b, r, hblock⟩ : ∃ a b r, malloc junk (valueLen + 2).toNat = a :: b :: r := by
    generalize malloc junk (valueLen + 2).toNat = block at hlength
    match block, hlength with
    | a :: b :: r, _ => exact ⟨a, b, r, rfl⟩
  rw [hblock] at hlength
  simp only [List.length_cons] at hlength
  have htype : memcpyS (a :: b :: r) 0 (valueLen + 2).toNat [type] 1 = .ok (some (type :: b :: r)) :=
    memcpyS_fits (l := []) rfl rfl (by omega) (by simp)
  have hlen : memcpyS (type :: b :: r) 1 ((valueLen + 2).toNat - 1) [length] 1 =
      .ok (some (type :: length :: r)) :=
    memcpyS_fits (l := [type]) rfl rfl (by omega) (by simp)
  have hrest : memcpyS (type :: length :: r) 2 valueLen.toNat value valueLen.toNat =
      .ok (some (type :: length :: value)) := by
    have hcopy := memcpyS_fits (l := [type, length]) (r := r) rfl hvalue (Nat.le_refl _) (by omega)
    rw [List.drop_eq_nil_of_le (by omega), List.append_nil] at hcopy
    exact hcopy
  unfold encapTlv
  simp only [hblock, htype, hlen, hrest, bind, Except.bind]

/-- Two bytes more do not fit in the length of the block, which is too small for the header. -/
theorem encapTlv_refused {type length : UInt8} (h : 254 ≤ valueLen.toNat) :
    encapTlv junk type length value valueLen = .ok none := by
  have hlt := valueLen.toNat_lt
  have htotal : (valueLen + 2).toNat = valueLen.toNat - 254 := by
    rw [UInt8.toNat_add]
    show (valueLen.toNat + 2) % 256 = _
    omega
  unfold encapTlv
  simp only [htotal]
  by_cases hzero : valueLen.toNat = 254
  · rw [hzero, memcpyS_refused (by decide)]
    rfl
  · have hone : valueLen.toNat - 254 = 1 := by omega
    rw [hone]
    have hlength := length_malloc junk 1
    have htype : memcpyS (malloc junk 1) 0 1 [type] 1 = .ok (some ([type] ++ (malloc junk 1).drop 1)) :=
      memcpyS_fits (l := []) (r := malloc junk 1) rfl rfl (Nat.le_refl 1) (by omega)
    rw [htype]
    simp only [bind, Except.bind]
    rw [memcpyS_refused (by decide)]

/-- The record of a key and a value, as it is appended to the data. -/
def record (type : UInt8) (key value : List UInt8) : List UInt8 :=
  [keyValuePairType, UInt8.ofNat (key.length + value.length + 4), stringValueType, UInt8.ofNat key.length] ++
    key ++ [type, UInt8.ofNat value.length] ++ value

theorem length_record (type : UInt8) (key value : List UInt8) :
    (record type key value).length = key.length + value.length + 6 := by
  simp only [record, List.length_append, List.length_cons, List.length_nil]
  omega

/-- The record of a key or of a value. -/
def tlvOf (type : UInt8) (value : List UInt8) : Tlv :=
  ⟨type, type :: UInt8.ofNat value.length :: value, UInt8.ofNat value.length + 2⟩

theorem toNat_ofNat_length {l : List UInt8} (h : l.length ≤ 255) : (UInt8.ofNat l.length).toNat = l.length := by
  rw [UInt8.toNat_ofNat']
  exact Nat.mod_eq_of_lt (by omega)

theorem tlvOf_totalLen (type : UInt8) (h : value.length ≤ 253) :
    (tlvOf type value).totalLen.toNat = value.length + 2 := by
  have hlength := toNat_ofNat_length (show value.length ≤ 255 by omega)
  unfold tlvOf
  rw [toNat_add_two (by omega), hlength]

theorem encapTlv_eq {type : UInt8} (h : value.length ≤ 253) :
    encapTlv junk type (UInt8.ofNat value.length) value (UInt8.ofNat value.length) =
      .ok (some (tlvOf type value)) :=
  encapTlv_fits (toNat_ofNat_length (by omega)).symm (by rw [toNat_ofNat_length (by omega)]; exact h)

/-- What becomes of the records of a key and of a value: one record of both, or none where its
header does not fit, or a write outside the block where its length does not fit in 8 bits. -/
theorem combineKeyValueTlv_eq {type : UInt8} (hkey : key.length ≤ 253) (hvalue : value.length ≤ 253) :
    combineKeyValueTlv junk (tlvOf stringValueType key) (tlvOf type value) =
      if key.length + value.length ≤ 249 then
        .ok (some ⟨keyValuePairType, record type key value, UInt8.ofNat (key.length + value.length + 6)⟩)
      else if key.length + value.length ≤ 251 then .ok none
      else .error .outside := by
  have hk := tlvOf_totalLen stringValueType hkey
  have hv := tlvOf_totalLen type hvalue
  have hklen : (tlvOf stringValueType key).entity.length = (tlvOf stringValueType key).totalLen.toNat := by
    rw [hk]
    rfl
  have hvlen : (tlvOf type value).entity.length = (tlvOf type value).totalLen.toNat := by
    rw [hv]
    rfl
  generalize hkt : tlvOf stringValueType key = kt at hk hklen
  generalize hvt : tlvOf type value = vt at hv hvlen
  have hsum : (kt.totalLen + vt.totalLen).toNat = (key.length + value.length + 4) % 256 := by
    rw [UInt8.toNat_add, hk, hv]
    congr 1
    omega
  unfold combineKeyValueTlv
  dsimp only
  by_cases hfits : key.length + value.length ≤ 251
  · have hnew : (kt.totalLen + vt.totalLen).toNat = key.length + value.length + 4 := by
      rw [hsum]
      omega
    obtain ⟨hfirst, hsecond⟩ := memcpyS_fill (x := kt.entity) (y := vt.entity)
      (length_malloc junk (kt.totalLen + vt.totalLen).toNat) (by omega)
    rw [hklen] at hfirst hsecond
    rw [hvlen] at hsecond
    rw [hfirst]
    simp only [bind, Except.bind]
    rw [hsecond]
    dsimp only
    by_cases hsmall : key.length + value.length ≤ 249
    · have hentity : (kt.entity ++ vt.entity).length = (kt.totalLen + vt.totalLen).toNat := by
        rw [List.length_append]
        omega
      have hword : kt.totalLen + vt.totalLen = UInt8.ofNat (key.length + value.length + 4) := by
        rw [← hnew, UInt8.ofNat_toNat]
      have htotal : UInt8.ofNat (key.length + value.length + 4) + 2 =
          UInt8.ofNat (key.length + value.length + 6) := by
        rw [← UInt8.toNat_inj, UInt8.toNat_add, UInt8.toNat_ofNat', UInt8.toNat_ofNat']
        show (_ % 256 + 2) % 256 = _ % 256
        omega
      rw [if_pos hsmall, encapTlv_fits hentity (by omega), hword, htotal, ← hkt, ← hvt]
      simp only [record, tlvOf, List.append_assoc, List.cons_append, List.nil_append]
    · rw [if_neg hsmall, if_pos hfits, encapTlv_refused (by omega)]
  · have hoverflow : (kt.totalLen + vt.totalLen).toNat = key.length + value.length + 4 - 256 := by
      rw [hsum]
      omega
    rw [if_neg (by omega), if_neg hfits, memcpyS_outside (Nat.le_refl _)]
    · rfl
    · rw [length_malloc]
      omega

end Records

/-! ## Appending to the data -/

def dataOf (want : Want) : List UInt8 := want.data.getD []

/-- The length of a Want is that of its data. -/
def WellFormed (want : Want) : Prop := (dataOf want).length = want.dataLength.toNat

/-- The data of a Want with some bytes behind them, and nothing else is another. -/
structure Appended (want want' : Want) (bytes : List UInt8) : Prop where
  data : dataOf want' = dataOf want ++ bytes
  length : want'.dataLength.toNat = (dataOf want).length + bytes.length
  element : want'.element = want.element
  sid : want'.sid = want.sid

section Append
variable {junk : Nat → UInt8} {want want' : Want} {key value : List UInt8}

theorem setWantData_copies (data : List UInt8) (dataLength : UInt16) (want : Want) :
    dataOf (setWantData (some data) dataLength want).2 = data.take dataLength.toNat ∧
      (setWantData (some data) dataLength want).2.dataLength = dataLength ∧
      (setWantData (some data) dataLength want).2.element = want.element ∧
      (setWantData (some data) dataLength want).2.sid = want.sid := by
  unfold setWantData memdup
  by_cases hzero : dataLength = 0
  · subst hzero
    exact ⟨rfl, rfl, rfl, rfl⟩
  · rw [if_neg hzero]
    exact ⟨rfl, rfl, rfl, rfl⟩

/-- The data and the record come together in a new block, and as many bytes of it are kept as
16 bits hold of its length. -/
theorem updateWantData_eq (junk : Nat → UInt8) (hwant : WellFormed want) (tlv : Tlv)
    (htlv : tlv.entity.length = tlv.totalLen.toNat) :
    ∃ want', updateWantData junk tlv want = .ok (true, want') ∧
      dataOf want' = (dataOf want ++ tlv.entity).take want'.dataLength.toNat ∧
      want'.dataLength.toNat = ((dataOf want).length + tlv.entity.length) % 65536 ∧
      want'.element = want.element ∧ want'.sid = want.sid := by
  unfold updateWantData
  cases hdata : want.data with
  | some data =>
    have hold : dataOf want = data := by rw [dataOf, hdata, Option.getD_some]
    rw [hold]
    have hlength : data.length = want.dataLength.toNat := hold ▸ hwant
    obtain ⟨hfirst, hsecond⟩ := memcpyS_fill (x := data) (y := tlv.entity)
      (length_malloc junk (tlv.totalLen.toNat + want.dataLength.toNat)) (by omega)
    rw [hlength] at hfirst hsecond
    rw [htlv] at hsecond
    dsimp only
    rw [hfirst]
    simp only [bind, Except.bind]
    rw [hsecond]
    obtain ⟨hcopy, hlen, helement, hsid⟩ := setWantData_copies (data ++ tlv.entity)
      (UInt16.ofNat (tlv.totalLen.toNat + want.dataLength.toNat)) want
    refine ⟨_, rfl, ?_, ?_, helement, hsid⟩
    · rw [hlen]
      exact hcopy
    · rw [hlen, UInt16.toNat_ofNat', htlv, hlength, Nat.add_comm]
  | none =>
    have hold : dataOf want = [] := by rw [dataOf, hdata, Option.getD_none]
    rw [hold]
    obtain ⟨hcopy, hlen, helement, hsid⟩ := setWantData_copies tlv.entity
      tlv.totalLen.toUInt16 want
    refine ⟨_, rfl, ?_, ?_, helement, hsid⟩
    · rw [hlen, List.nil_append]
      exact hcopy
    · have hlt := tlv.totalLen.toNat_lt
      rw [hlen, UInt8.toNat_toUInt16, htlv, List.length_nil, Nat.zero_add, Nat.mod_eq_of_lt (by omega)]

/-- The record is behind the data exactly when the length of both fits in 16 bits. -/
theorem appended_iff {bytes : List UInt8} (hdata : dataOf want' = (dataOf want ++ bytes).take want'.dataLength.toNat)
    (hlength : want'.dataLength.toNat = ((dataOf want).length + bytes.length) % 65536)
    (helement : want'.element = want.element) (hsid : want'.sid = want.sid) :
    Appended want want' bytes ↔ (dataOf want).length + bytes.length ≤ 65535 := by
  constructor
  · intro h
    have hlt := want'.dataLength.toNat_lt
    have hlen := h.length
    omega
  · intro hfits
    rw [Nat.mod_eq_of_lt (by omega)] at hlength
    refine ⟨?_, hlength, helement, hsid⟩
    rw [hdata, hlength, ← List.length_append, List.take_length]

/-- A setter refuses and leaves the Want as it is, or it appends one record whose length byte is
the length of what follows it. -/
def AddsOrRefuses (want : Want) (type : UInt8) (key value : List UInt8)
    (x : Except MemFault (Bool × Want)) : Prop :=
  x = .ok (false, want) ∨ ∃ want', x = .ok (true, want') ∧
    (UInt8.ofNat (key.length + value.length + 4)).toNat = key.length + value.length + 4 ∧
      Appended want want' (record type key value)

/-- The lengths of a key and a value with which a setter does one or the other. -/
def paramFits (want : Want) (keyLen valueLen : Nat) : Prop :=
  253 < keyLen ∨ 253 < valueLen ∨ (249 < keyLen + valueLen ∧ keyLen + valueLen ≤ 251) ∨
    (keyLen + valueLen ≤ 249 ∧ (dataOf want).length + (keyLen + valueLen + 6) ≤ 65535)

/-- A key and a value that fit into one record are appended, as far as the data hold them. -/
theorem setParam_appends (junk : Nat → UInt8) (hwant : WellFormed want) (type : UInt8)
    (h : key.length + value.length ≤ 249) :
    ∃ want', setParam junk (tlvOf stringValueType key) (tlvOf type value) want = .ok (true, want') ∧
      WellFormed want' ∧ (Appended want want' (record type key value) ↔
        (dataOf want).length + (key.length + value.length + 6) ≤ 65535) := by
  have htlv : (record type key value).length = (UInt8.ofNat (key.length + value.length + 6)).toNat := by
    rw [length_record, UInt8.toNat_ofNat', Nat.mod_eq_of_lt (by omega)]
  obtain ⟨want', heq, hdata, hlength, helement, hsid⟩ := updateWantData_eq junk hwant
    ⟨keyValuePairType, record type key value, UInt8.ofNat (key.length + value.length + 6)⟩ htlv
  refine ⟨want', ?_, ?_, ?_⟩
  · unfold setParam
    rw [combineKeyValueTlv_eq (by omega) (by omega), if_pos h]
    exact heq
  · unfold WellFormed
    rw [hdata, List.length_take, List.length_append]
    dsimp only at hlength ⊢
    have hmod := Nat.mod_le ((dataOf want).length + (record type key value).length) 65536
    omega
  · rw [← length_record type key value]
    exact appended_iff hdata hlength helement hsid

/-- What both setters do with a key and a value whose own records fit. -/
theorem setParam_iff (junk : Nat → UInt8) (hwant : WellFormed want) (type : UInt8)
    (hkey : key.length ≤ 253) (hvalue : value.length ≤ 253) :
    AddsOrRefuses want type key value (setParam junk (tlvOf stringValueType key) (tlvOf type value) want) ↔
      paramFits want key.length value.length := by
  by_cases hsmall : key.length + value.length ≤ 249
  · obtain ⟨want', heq, -, happended⟩ := setParam_appends junk hwant type hsmall
    rw [heq]
    constructor
    · rintro (h | ⟨_, h, _, hadd⟩)
      · cases h
      · cases h
        exact .inr (.inr (.inr ⟨hsmall, happended.mp hadd⟩))
    · rintro (h | h | ⟨h, -⟩ | ⟨-, hfits⟩)
      · omega
      · omega
      · omega
      · refine .inr ⟨want', rfl, ?_, happended.mpr hfits⟩
        rw [UInt8.toNat_ofNat', Nat.mod_eq_of_lt (by omega)]
  · unfold setParam
    rw [combineKeyValueTlv_eq hkey hvalue, if_neg hsmall]
    by_cases hrefused : key.length + value.length ≤ 251
    · rw [if_pos hrefused]
      exact iff_of_true (.inl rfl) (.inr (.inr (.inl ⟨by omega, hrefused⟩)))
    · rw [if_neg hrefused]
      refine iff_of_false ?_ (by unfold paramFits; omega)
      rintro (h | ⟨_, h, _⟩) <;> cases h

/-- A number as its four bytes, the first the highest. -/
def bigEndian (n : Nat) : List UInt8 := [16777216, 65536, 256, 1].map fun d => UInt8.ofNat (n / d)

theorem intBuffer_eq {value : Int32} (h : ¬ value < 0) : intBuffer value = bigEndian value.toInt.toNat := by
  have hnat : value.toInt.toNat = value.toUInt32.toNat := by
    rw [Int32.lt_iff_toInt_lt] at h
    have hint := BitVec.toInt_eq_toNat_cond value.toBitVec
    have hlt := value.toUInt32.toNat_lt
    show value.toBitVec.toInt.toNat = value.toBitVec.toNat
    change ¬ value.toBitVec.toInt < 0 at h
    change value.toBitVec.toNat < 2 ^ 32 at hlt
    split at hint <;> omega
  have hbyte (n : UInt32) (d : Nat) (hd : d = 2 ^ (n.toNat % 32)) :
      (value.toUInt32 >>> n).toUInt8 = UInt8.ofNat (value.toInt.toNat / d) := by
    rw [← UInt8.toNat_inj, UInt32.toNat_toUInt8, UInt32.toNat_shiftRight, UInt8.toNat_ofNat', hnat, hd,
      Nat.shiftRight_eq_div_pow]
  simp only [intBuffer, bigEndian, List.map_cons, List.map_nil, hbyte 24 16777216 rfl,
    hbyte 16 65536 rfl, hbyte 8 256 rfl, hbyte 0 1 rfl]

/-- A key or a value of up to 255 bytes, with a record of its own or none. -/
theorem encapTlv_bytes (junk : Nat → UInt8) (type : UInt8) {bytes : List UInt8} (h : bytes.length ≤ 255) :
    encapTlv junk type (UInt8.ofNat bytes.length) bytes (UInt8.ofNat bytes.length) =
      .ok (if bytes.length ≤ 253 then some (tlvOf type bytes) else none) := by
  split
  · next hfits => exact encapTlv_eq hfits
  · next hlong => exact encapTlv_refused (by rw [toNat_ofNat_length h]; omega)

theorem ofNat_length_le_zero {bytes : List UInt8} (h : bytes.length ≤ 255) :
    UInt8.ofNat bytes.length ≤ 0 ↔ bytes = [] := by
  rw [UInt8.le_iff_toNat_le, toNat_ofNat_length h, ← List.length_eq_zero_iff]
  exact Nat.le_zero

theorem setStrParam_eq (junk : Nat → UInt8) (want : Want) (hkey : key.length ≤ 255)
    (hvalue : value.length ≤ 255) :
    setStrParam junk key (UInt8.ofNat key.length) value (UInt8.ofNat value.length) want =
      if key = [] ∨ value = [] ∨ 253 < key.length ∨ 253 < value.length then .ok (false, want)
      else setParam junk (tlvOf stringValueType key) (tlvOf stringValueType value) want := by
  unfold setStrParam
  have hguard := or_congr (ofNat_length_le_zero hkey) (ofNat_length_le_zero hvalue)
  by_cases hempty : key = [] ∨ value = []
  · rw [if_pos (hguard.mpr hempty), if_pos (or_assoc.mp (.inl hempty))]
  · rw [if_neg (mt hguard.mp hempty), encapTlv_bytes junk _ hkey, encapTlv_bytes junk _ hvalue]
    simp only [bind, Except.bind]
    by_cases hlong : 253 < key.length ∨ 253 < value.length
    · rw [if_pos (or_assoc.mp (.inr hlong))]
      by_cases hk : key.length ≤ 253
      · rw [if_pos hk, if_neg (by omega)]
      · rw [if_neg hk]
    · rw [if_neg fun h => (or_assoc.mpr h).elim hempty hlong, if_pos (by omega), if_pos (by omega)]

theorem setIntParam_eq (junk : Nat → UInt8) (want : Want) (hkey : key.length ≤ 255) (n : Int32) :
    setIntParam junk key (UInt8.ofNat key.length) n want =
      if key = [] ∨ n < 0 ∨ 253 < key.length then .ok (false, want)
      else setParam junk (tlvOf stringValueType key) (tlvOf intValueType (bigEndian n.toInt.toNat)) want := by
  unfold setIntParam
  have hguard := ofNat_length_le_zero hkey
  by_cases hempty : key = []
  · rw [if_pos (hguard.mpr hempty), if_pos (.inl hempty)]
  · rw [if_neg (mt hguard.mp hempty), encapTlv_bytes junk _ hkey]
    simp only [bind, Except.bind]
    by_cases hk : key.length ≤ 253
    · rw [if_pos hk]
      dsimp only
      by_cases hn : n < 0
      · rw [if_pos hn, if_pos (.inr (.inl hn))]
      · have hfour : (bigEndian n.toInt.toNat).length = 4 := rfl
        have hencap : encapTlv junk intValueType 4 (intBuffer n) 4 =
            .ok (some (tlvOf intValueType (bigEndian n.toInt.toNat))) := by
          have hword : (4 : UInt8) = UInt8.ofNat (bigEndian n.toInt.toNat).length := by
            rw [hfour]
            rfl
          rw [intBuffer_eq hn, hword]
          exact encapTlv_eq (show (bigEndian n.toInt.toNat).length ≤ 253 by omega)
        rw [if_neg hn, hencap, if_neg]
        rintro (h | h | h)
        · exact hempty h
        · exact hn h
        · omega
    · rw [if_neg hk, if_pos (.inr (.inr (by omega)))]

theorem setStrParam_iff (junk : Nat → UInt8) (hwant : WellFormed want) (hkey : key.length ≤ 255)
    (hvalue : value.length ≤ 255) :
    AddsOrRefuses want stringValueType key value
      (setStrParam junk key (UInt8.ofNat key.length) value (UInt8.ofNat value.length) want) ↔
        key = [] ∨ value = [] ∨ paramFits want key.length value.length := by
  rw [setStrParam_eq junk want hkey hvalue]
  by_cases hrefused : key = [] ∨ value = [] ∨ 253 < key.length ∨ 253 < value.length
  · rw [if_pos hrefused]
    refine iff_of_true (.inl rfl) (hrefused.imp_right fun h => h.imp_right fun h => ?_)
    exact h.imp_right .inl
  · rw [if_neg hrefused]
    simp only [not_or, Nat.not_lt] at hrefused
    obtain ⟨hk, hv, hkey, hvalue⟩ := hrefused
    rw [or_iff_right hk, or_iff_right hv]
    exact setParam_iff junk hwant _ hkey hvalue

theorem setIntParam_iff (junk : Nat → UInt8) (hwant : WellFormed want) (hkey : key.length ≤ 255)
    (n : Int32) :
    AddsOrRefuses want intValueType key (bigEndian n.toInt.toNat)
      (setIntParam junk key (UInt8.ofNat key.length) n want) ↔
        key = [] ∨ n < 0 ∨ paramFits want key.length 4 := by
  rw [setIntParam_eq junk want hkey n]
  by_cases hrefused : key = [] ∨ n < 0 ∨ 253 < key.length
  · rw [if_pos hrefused]
    exact iff_of_true (.inl rfl) (hrefused.imp_right fun h => h.imp_right .inl)
  · rw [if_neg hrefused]
    simp only [not_or, Nat.not_lt] at hrefused
    obtain ⟨hk, hn, hkey⟩ := hrefused
    rw [or_iff_right hk, or_iff_right hn]
    exact setParam_iff junk hwant _ hkey (show (bigEndian n.toInt.toNat).length ≤ 253 from (by decide : 4 ≤ 253))

/-- Either setter refuses or appends one record exactly where the lengths fit: with a key and a
value of 252 bytes and more it writes outside its block, with data that grow over 65535 bytes it
loses them. -/
theorem params_safe_iff (junk : Nat → UInt8) (want : Want) (hwant : WellFormed want)
    (key value : List UInt8) (n : Int32) (hkey : key.length ≤ 255) (hvalue : value.length ≤ 255) :
    (AddsOrRefuses want stringValueType key value
      (setStrParam junk key (UInt8.ofNat key.length) value (UInt8.ofNat value.length) want) ↔
        key = [] ∨ value = [] ∨ paramFits want key.length value.length) ∧
      (AddsOrRefuses want intValueType key (bigEndian n.toInt.toNat)
        (setIntParam junk key (UInt8.ofNat key.length) n want) ↔
          key = [] ∨ n < 0 ∨ paramFits want key.length 4) :=
  ⟨setStrParam_iff junk hwant hkey hvalue, setIntParam_iff junk hwant hkey n⟩

theorem params_safe_short :
    (AddsOrRefuses {} stringValueType [107] [118] (setStrParam (fun _ => 0) [107] (UInt8.ofNat 1) [118] (UInt8.ofNat 1) {}) ↔
      ([107] : List UInt8) = [] ∨ ([118] : List UInt8) = [] ∨ paramFits {} 1 1) ∧
      (AddsOrRefuses {} intValueType [107] (bigEndian (7 : Int32).toInt.toNat)
        (setIntParam (fun _ => 0) [107] (UInt8.ofNat 1) 7 {}) ↔
          ([107] : List UInt8) = [] ∨ (7 : Int32) < 0 ∨ paramFits {} 1 4) :=
  params_safe_iff (fun _ => 0) {} (by unfold WellFormed; decide) [107] [118] 7 (by decide) (by decide)

/-- A key of one byte and a value of 251 are written outside the block that is to hold both. -/
theorem setStrParam_outside : ¬ AddsOrRefuses {} stringValueType [107] (List.replicate 251 118)
    (setStrParam (fun _ => 0) [107] (UInt8.ofNat 1) (List.replicate 251 118) (UInt8.ofNat 251) {}) := by
  have hlength : (List.replicate 251 (118 : UInt8)).length = 251 := List.length_replicate
  have hiff := setStrParam_iff (fun _ => 0) (show WellFormed {} from rfl)
    (show ([107] : List UInt8).length ≤ 255 by decide) (show (List.replicate 251 (118 : UInt8)).length ≤ 255 by omega)
  rw [hlength] at hiff
  refine fun h => ?_
  rcases hiff.mp h with h | h | h
  · cases h
  · rw [h] at hlength
    cases hlength
  · unfold paramFits at h
    rw [List.length_cons, List.length_nil] at h
    omega

end Append

/-! ## Many parameters -/

inductive Param where
  | str (key value : List UInt8)
  | int (key : List UInt8) (value : Int32)
  deriving DecidableEq, Repr

namespace Param

def type : Param → UInt8
  | str _ _ => stringValueType
  | int _ _ => intValueType

def key : Param → List UInt8
  | str key _ => key
  | int key _ => key

/-- The bytes of the value, in the order they are written. -/
def value : Param → List UInt8
  | str _ value => value
  | int _ value => bigEndian value.toInt.toNat

def record (p : Param) : List UInt8 := WantLite.record p.type p.key p.value

/-- A key, and a value, that are not too long. -/
def Fits : Param → Prop
  | str key value => key ≠ [] ∧ key.length + value.length ≤ 249
  | int key value => key ≠ [] ∧ ¬ value < 0 ∧ key.length ≤ 245

def set (junk : Nat → UInt8) (p : Param) (want : Want) : Except MemFault (Bool × Want) :=
  match p with
  | str key value =>
    setStrParam junk key (UInt8.ofNat key.length) value (UInt8.ofNat value.length) want
  | int key value => setIntParam junk key (UInt8.ofNat key.length) value want

end Param

/-- The calls of a sequence that returned true, and the Want after it. -/
def setParams (junk : Nat → UInt8) : List Param → Want → Except MemFault (List Param × Want)
  | [], want => .ok ([], want)
  | p :: ps, want => do
    let (ret, want) ← p.set junk want
    let (accepted, want) ← setParams junk ps want
    .ok (if ret then p :: accepted else accepted, want)

/-- The data taken apart by their length bytes: the type, the key and the value of each record. -/
def walk : Nat → List UInt8 → Option (List (UInt8 × List UInt8 × List UInt8))
  | _, [] => some []
  | 0, _ :: _ => none
  | fuel + 1, pair :: _ :: string :: keyLen :: rest =>
    if pair ≠ keyValuePairType ∨ string ≠ stringValueType then none
    else
      match rest.drop keyLen.toNat with
      | type :: valueLen :: tail =>
        (walk fuel (tail.drop valueLen.toNat)).map
          ((type, rest.take keyLen.toNat, tail.take valueLen.toNat) :: ·)
      | _ => none
  | _ + 1, _ => none

/-- A call that sets something: a string that is not empty, or a number. -/
def sets (p : Param) : Bool := p.value ≠ []

/-- The bytes that the calls of a sequence add to the data. -/
def totalLength : List Param → Nat
  | [] => 0
  | p :: ps => (if sets p then p.key.length + p.value.length + 6 else 0) + totalLength ps

section Sequence
variable {junk : Nat → UInt8} {want want' : Want} {p : Param} {ps : List Param}

theorem Param.Fits.lengths (h : p.Fits) : p.key ≠ [] ∧ p.key.length + p.value.length ≤ 249 := by
  cases p with
  | str key value => exact h
  | int key value => exact ⟨h.1, Nat.add_le_add_right h.2.2 4⟩

/-- A call that sets something returns true, and the others leave the Want as it is. -/
theorem Param.set_eq (junk : Nat → UInt8) (hwant : WellFormed want) (h : p.Fits) :
    (sets p = false ∧ p.set junk want = .ok (false, want)) ∨
      (sets p = true ∧ ∃ want', p.set junk want = .ok (true, want') ∧ WellFormed want' ∧
        (Appended want want' p.record ↔
          (dataOf want).length + (p.key.length + p.value.length + 6) ≤ 65535)) := by
  obtain ⟨hkey, hlength⟩ := h.lengths
  cases p with
  | str key value =>
    dsimp only [Param.key, Param.value] at hkey hlength
    have heq := setStrParam_eq junk want (show key.length ≤ 255 by omega) (show value.length ≤ 255 by omega)
    by_cases hvalue : value = []
    · rw [if_pos (.inr (.inl hvalue))] at heq
      exact .inl ⟨decide_eq_false (not_not_intro hvalue), heq⟩
    · rw [if_neg (by simp only [hkey, hvalue, false_or]; omega)] at heq
      obtain ⟨want', hset, hrest⟩ := setParam_appends junk hwant stringValueType hlength
      exact .inr ⟨decide_eq_true hvalue, want', heq.trans hset, hrest⟩
  | int key value =>
    dsimp only [Param.key] at hkey hlength
    have heq := setIntParam_eq junk want (show key.length ≤ 255 by omega) value
    rw [if_neg (by simp only [hkey, h.2.1, false_or]; omega)] at heq
    obtain ⟨want', hset, hrest⟩ := setParam_appends junk hwant intValueType hlength
    exact .inr ⟨rfl, want', heq.trans hset, hrest⟩

theorem walk_record {fuel : Nat} {tail : List UInt8} (h : p.Fits) :
    walk (fuel + 1) (p.record ++ tail) =
      (walk fuel tail).map ((p.type, p.key, p.value) :: ·) := by
  obtain ⟨-, hlength⟩ := h.lengths
  have hk := toNat_ofNat_length (show p.key.length ≤ 255 by omega)
  have hv := toNat_ofNat_length (show p.value.length ≤ 255 by omega)
  simp only [Param.record, record, List.append_assoc, List.cons_append, List.nil_append, walk, hk, hv,
    List.drop_left, List.take_left, ne_eq, not_true, or_self, if_false]

theorem length_records (ps : List Param) : ((ps.filter sets).flatMap Param.record).length = totalLength ps := by
  induction ps with
  | nil => rfl
  | cons p ps ih =>
    unfold totalLength
    rw [List.filter_cons, ← ih]
    split
    · rw [List.flatMap_cons, List.length_append, Param.record, length_record]
    · rw [Nat.zero_add]

/-- What a sequence of calls does: those that set something return true, and their records come
one behind the other as long as 16 bits hold the length. -/
theorem setParams_spec (junk : Nat → UInt8) (hfits : ∀ p ∈ ps, p.Fits) (hwant : WellFormed want) :
    ∃ want', setParams junk ps want = .ok (ps.filter sets, want') ∧ WellFormed want' ∧
      ((dataOf want).length + totalLength ps ≤ 65535 →
        dataOf want' = dataOf want ++ (ps.filter sets).flatMap Param.record) := by
  induction ps generalizing want with
  | nil => exact ⟨want, rfl, hwant, fun _ => (List.append_nil _).symm⟩
  | cons p ps ih =>
    have hp := hfits p List.mem_cons_self
    have hps : ∀ p ∈ ps, p.Fits := fun q hq => hfits q (List.mem_cons_of_mem _ hq)
    unfold setParams
    unfold totalLength
    rw [List.filter_cons]
    rcases Param.set_eq junk hwant hp with ⟨hsets, heq⟩ | ⟨hsets, want₁, heq, hwant₁, happended⟩
    · obtain ⟨want', hrest, hwant', hdata⟩ := ih hps hwant
      rw [heq, hsets]
      simp only [bind, Except.bind, hrest, Bool.false_eq_true, if_false, Nat.zero_add]
      exact ⟨want', rfl, hwant', hdata⟩
    · obtain ⟨want', hrest, hwant', hdata⟩ := ih hps hwant₁
      rw [heq, hsets]
      simp only [bind, Except.bind, hrest, if_true]
      refine ⟨want', rfl, hwant', fun htotal => ?_⟩
      have hadd := happended.mpr (by omega)
      have hrecord := length_record p.type p.key p.value
      have hlength : (dataOf want₁).length = (dataOf want).length + p.record.length := by
        rw [hadd.data, List.length_append]
      rw [hdata (by unfold Param.record at hlength; omega), hadd.data, List.flatMap_cons, List.append_assoc]

/-- The data are taken apart into the parameters they are made of. -/
theorem walk_records {fuel : Nat} (hfits : ∀ p ∈ ps, p.Fits) (hfuel : ps.length ≤ fuel) :
    walk fuel (ps.flatMap Param.record) = some (ps.map fun p => (p.type, p.key, p.value)) := by
  induction ps generalizing fuel with
  | nil =>
    unfold walk
    rfl
  | cons p ps ih =>
    obtain ⟨fuel, rfl⟩ : ∃ n, fuel = n + 1 := ⟨fuel - 1, by rw [List.length_cons] at hfuel; omega⟩
    rw [List.flatMap_cons, walk_record (hfits p List.mem_cons_self),
      ih (fun q hq => hfits q (List.mem_cons_of_mem _ hq)) (Nat.le_of_succ_le_succ hfuel)]
    rfl

theorem length_le_records : ps.length ≤ (ps.flatMap Param.record).length := by
  induction ps with
  | nil => exact Nat.le_refl 0
  | cons p ps ih =>
    have hrecord := length_record p.type p.key p.value
    rw [List.flatMap_cons, List.length_append, List.length_cons]
    unfold Param.record at ih ⊢
    omega

/-- The data are the records of the parameters that were accepted, one behind the other. -/
def Holds (want : Want) (accepted : List Param) : Prop :=
  dataOf want = accepted.flatMap Param.record ∧
    want.dataLength.toNat = (accepted.flatMap Param.record).length ∧
    walk (dataOf want).length (dataOf want) = some (accepted.map fun p => (p.type, p.key, p.value))

theorem holds_iff (hfits : ∀ p ∈ ps, p.Fits) (hwant : WellFormed want)
    (hdata : totalLength ps ≤ 65535 → dataOf want = (ps.filter sets).flatMap Param.record) :
    Holds want (ps.filter sets) ↔ totalLength ps ≤ 65535 := by
  constructor
  · rintro ⟨-, hlength, -⟩
    have hlt := want.dataLength.toNat_lt
    rw [length_records] at hlength
    omega
  · intro htotal
    have hall := hdata htotal
    refine ⟨hall, ?_, ?_⟩
    · rw [← hall]
      exact hwant.symm
    · rw [hall]
      exact walk_records (fun p hp => hfits p (List.mem_filter.mp hp).1) length_le_records

end Sequence

theorem wellFormed_null {want : Want} (hdata : want.data = none) (hlength : want.dataLength = 0) :
    WellFormed want := by
  unfold WellFormed dataOf
  rw [hdata, hlength]
  rfl

/-- The parameters that were put in a Want are all there, in order, exactly when their records
together are no longer than 16 bits can say; a call that returns false changes nothing. -/
theorem setParams_holds_iff (junk : Nat → UInt8) (ps : List Param) (hfits : ∀ p ∈ ps, p.Fits)
    (want : Want) (hdata : want.data = none) (hlength : want.dataLength = 0) :
    (∃ accepted want', setParams junk ps want = .ok (accepted, want') ∧
      (Holds want' accepted ↔ totalLength ps ≤ 65535)) ∧
      ∀ p ∈ ps, ∀ want₁ want₂, WellFormed want₁ → p.set junk want₁ = .ok (false, want₂) → want₂ = want₁ := by
  have hwant := wellFormed_null hdata hlength
  constructor
  · obtain ⟨want', heq, hwant', hall⟩ := setParams_spec junk hfits hwant
    have hnone : dataOf want = [] := by rw [dataOf, hdata, Option.getD_none]
    rw [hnone, List.length_nil, Nat.zero_add, List.nil_append] at hall
    exact ⟨_, want', heq, holds_iff hfits hwant' hall⟩
  · intro p hp want₁ want₂ hwant₁ hset
    rcases Param.set_eq junk hwant₁ (hfits p hp) with ⟨-, heq⟩ | ⟨-, _, heq, _⟩
    · rw [heq] at hset
      cases hset
      rfl
    · rw [heq] at hset
      cases hset

/-- Two parameters, of either kind. -/
def twoParams : List Param := [.str [107] [118, 118], .int [110] 7]

theorem setParams_holds_two :
    (∃ accepted want', setParams (fun _ => 0) twoParams {} = .ok (accepted, want') ∧
      (Holds want' accepted ↔ totalLength twoParams ≤ 65535)) ∧
      ∀ p ∈ twoParams, ∀ want₁ want₂, WellFormed want₁ → p.set (fun _ => 0) want₁ = .ok (false, want₂) →
        want₂ = want₁ := by
  refine setParams_holds_iff (fun _ => 0) twoParams (fun p hp => ?_) {} rfl rfl
  rcases List.mem_cons.mp hp with rfl | hp
  · exact ⟨by decide, by decide⟩
  · rw [List.mem_singleton.mp hp]
    exact ⟨by decide, by decide, by decide⟩

def largeKey : List UInt8 := List.replicate 100 107
def largeValue : List UInt8 := List.replicate 149 118

/-- A parameter whose record has 255 bytes. -/
def largeParam : Param := .str largeKey largeValue

theorem length_largeKey : largeKey.length = 100 := List.length_replicate

theorem length_largeValue : largeValue.length = 149 := List.length_replicate

theorem largeParam_fits : largeParam.Fits := by
  have hkey := length_largeKey
  have hvalue := length_largeValue
  have hne : largeKey ≠ [] := List.ne_nil_of_length_pos (by omega)
  have hle : largeKey.length + largeValue.length ≤ 249 := by omega
  exact ⟨hne, hle⟩

/-- With 258 of them the length has wrapped around, and what is left is not what was put in. -/
theorem setParams_loses : ∃ want', setParams (fun _ => 0) (List.replicate 258 largeParam) {} =
    .ok (List.replicate 258 largeParam, want') ∧ ¬ Holds want' (List.replicate 258 largeParam) := by
  have hfits : ∀ p ∈ List.replicate 258 largeParam, p.Fits := fun p hp =>
    List.eq_of_mem_replicate hp ▸ largeParam_fits
  have hvalue := length_largeValue
  have hne : largeValue ≠ [] := List.ne_nil_of_length_pos (by omega)
  have hsets : sets largeParam = true := decide_eq_true hne
  have haccepted : (List.replicate 258 largeParam).filter sets = List.replicate 258 largeParam := by
    rw [List.filter_replicate, if_pos hsets]
  have hone : largeParam.key.length + largeParam.value.length + 6 = 255 := by
    have hkeyOf : largeParam.key = largeKey := rfl
    have hvalueOf : largeParam.value = largeValue := rfl
    rw [hkeyOf, hvalueOf, length_largeKey, hvalue]
  have htotal (n : Nat) : totalLength (List.replicate n largeParam) = n * 255 := by
    induction n with
    | zero => rfl
    | succ n ih =>
      rw [List.replicate_succ, totalLength, ih, if_pos hsets, hone, Nat.add_mul, Nat.one_mul, Nat.add_comm]
  have hnull : WellFormed {} := rfl
  obtain ⟨want', heq, hwant', hall⟩ := setParams_spec (fun _ => 0) hfits hnull
  rw [haccepted] at heq
  refine ⟨want', heq, fun h => ?_⟩
  have hiff := holds_iff hfits hwant' fun h => absurd h (by rw [htotal]; decide)
  rw [haccepted, htotal] at hiff
  exact absurd (hiff.mp h) (by decide)

end AbilityLite.WantLite
