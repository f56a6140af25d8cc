import AbilityLite.Ams.Record
import AbilityLite.Ipc.Buffer

/-
  How a `Want` travels: `SerializeWant` and `DeserializeWant`.

  Names of elements are written and read by the bundle framework
  (`SerializeElement`, `DeserializeElement`), which is not part of this repository: they
  are a codec of `Platform`.

  Correspondence (C++ ↔ Lean):
    `SerializeWant`   ↔ `serializeWant` (`serializeElementField`, `serializeSidField`)
    `DeserializeWant` ↔ `deserializeWant` (`deserializeElementField` … `deserializeSidField`)
    `SetWantData`     ↔ `setWantData`
-/

namespace AbilityLite.Ipc

open AbilityLite.Ams

/-- What is outside: the codec of elements, reads of another type, and whether an object can
still be put into the buffer. -/
structure Platform where
  element : Codec SvcIdentity ElementName
  misread : Misread SvcIdentity
  writesRemoteObject : SvcIdentity → Bool

variable (p : Platform)

/-! ## Writing -/

def valueNull : Int32 := 0
def valueObject : Int32 := 1
def maxDataLength : UInt16 := 2048

def serializeElementField : Option ElementName → Option (Io SvcIdentity)
  | none => some (writeInt32 valueNull)
  | some element => (p.element.write element).map (writeInt32 valueObject ++ ·)

def serializeSidField : Option SvcIdentity → Option (Io SvcIdentity)
  | none => some (writeInt32 valueNull)
  | some sid =>
    if p.writesRemoteObject sid then some (writeInt32 valueObject ++ writeRemoteObject sid)
    else none

/-- The length, and the bytes unless there are none. -/
def serializeDataField (data : Option (List UInt8)) (dataLength : UInt16) : Io SvcIdentity :=
  writeInt32 dataLength.toUInt32.toInt32 ++
    if dataLength > 0 then writeBuffer data dataLength.toNat else []

def serializeWant (want : Want) : Option (Io SvcIdentity) :=
  if want.dataLength > maxDataLength then none
  else
    match serializeElementField p want.element, serializeSidField p want.sid with
    | some element, some sid =>
      some (element ++ (serializeDataField want.data want.dataLength ++ sid))
    | _, _ => none

/-! ## Reading -/

def deserializeElementField (io : Io SvcIdentity) : Option (Option ElementName) × Io SvcIdentity :=
  let (ret, io) := readInt32 p.misread io
  if ret = valueObject then
    let (element, io) := p.element.read io
    (element.map some, io)
  else (some none, io)

/-- `SetWantData` takes the length as 16 bits and fails where nothing was copied. -/
def setWantData (data : Option (List UInt8)) (dataLength : UInt16) :
    Option (Option (List UInt8) × UInt16) :=
  (memdup data dataLength).map fun copy => (some copy, dataLength)

def deserializeDataField (io : Io SvcIdentity) :
    Option (Option (List UInt8) × UInt16) × Io SvcIdentity :=
  let (size, io) := readUint32 p.misread io
  if size > 0 then
    let (data, io) := readBuffer p.misread io
    (setWantData data size.toUInt16, io)
  else (some (none, 0), io)

def deserializeSidField (io : Io SvcIdentity) : Option (Option SvcIdentity) × Io SvcIdentity :=
  let (ret, io) := readInt32 p.misread io
  if ret = valueObject then
    let (svc, io) := readRemoteObject io
    (svc.map some, io)
  else (some none, io)

def deserializeWant (io : Io SvcIdentity) : Option Want × Io SvcIdentity :=
  match deserializeElementField p io with
  | (none, io) => (none, io)
  | (some element, io) =>
    match deserializeDataField p io with
    | (none, io) => (none, io)
    | (some (data, dataLength), io) =>
      match deserializeSidField p io with
      | (none, io) => (none, io)
      | (some sid, io) => (some { element, sid, data, dataLength }, io)

/-! ## The Want that is read is the one that was written -/

/-- The `dataLength` bytes of a Want, `none` if it has no pointer to them. -/
def payload (want : Want) : Option (List UInt8) :=
  if want.dataLength = 0 then some [] else want.data.map (·.take want.dataLength.toNat)

/-- Two Wants with the same element, identity and data. -/
def SameWant (want want' : Want) : Prop :=
  want'.element = want.element ∧ want'.sid = want.sid ∧ want'.dataLength = want.dataLength ∧
    payload want' = payload want

/-- There are data if there is a length. -/
def hasData (want : Want) : Prop := want.dataLength ≠ 0 → want.data.isSome = true

variable {p}

theorem deserializeElementField_write (hp : p.element.RoundTrips) {element : Option ElementName}
    {out : Io SvcIdentity} (io : Io SvcIdentity)
    (h : serializeElementField p element = some out) :
    deserializeElementField p (out ++ io) = (some element, io) := by
  cases element with
  | none =>
    cases h
    rfl
  | some element =>
    obtain ⟨body, hbody, rfl⟩ := Option.map_eq_some_iff.mp h
    have hread := hp element body io hbody
    simp only [deserializeElementField, List.append_assoc, readInt32_write, if_true, hread,
      Option.map_some]

theorem deserializeSidField_write {sid : Option SvcIdentity} {out : Io SvcIdentity}
    (io : Io SvcIdentity) (h : serializeSidField p sid = some out) :
    deserializeSidField p (out ++ io) = (some sid, io) := by
  cases sid with
  | none =>
    cases h
    rfl
  | some sid =>
    simp only [serializeSidField] at h
    split at h
    · cases h
      rfl
    · cases h

theorem toUInt32_pos {n : UInt16} : n.toUInt32 > 0 ↔ n ≠ 0 := by
  rw [gt_iff_lt, UInt32.lt_iff_toNat_lt, UInt16.toNat_toUInt32, Ne, ← UInt16.toNat_inj]
  exact Nat.pos_iff_ne_zero

theorem pos_iff_ne_zero {n : UInt16} : n > 0 ↔ n ≠ 0 := by
  rw [gt_iff_lt, UInt16.lt_iff_toNat_lt, Ne, ← UInt16.toNat_inj]
  exact Nat.pos_iff_ne_zero

/-- The copy of the first bytes of a copy of as many bytes. -/
theorem memdup_take (bytes : List UInt8) (n : UInt16) :
    memdup (some (bytes.take n.toNat)) n = memdup (some bytes) n := by
  unfold memdup
  split
  · rfl
  · simp [List.take_take]

theorem deserializeDataField_write (io : Io SvcIdentity) {data : Option (List UInt8)}
    {dataLength : UInt16} (h : dataLength ≠ 0 → data.isSome = true) :
    deserializeDataField p (serializeDataField data dataLength ++ io) =
      (some (memdup data dataLength, dataLength), io) := by
  have hword : dataLength.toUInt32.toInt32.toUInt32 = dataLength.toUInt32 := rfl
  simp only [deserializeDataField, serializeDataField, List.append_assoc, readUint32_writeInt32,
    hword, toUInt32_pos, pos_iff_ne_zero]
  by_cases hlen : dataLength = 0
  · subst hlen
    rfl
  · obtain ⟨bytes, rfl⟩ := Option.isSome_iff_exists.mp (h hlen)
    simp only [ne_eq, hlen, not_false_eq_true, if_true, readBuffer_write, setWantData,
      UInt16.toUInt16_toUInt32, memdup_take]
    simp only [memdup, hlen, if_false, Option.map_some]

/-- The Want the other side has. -/
def received (want : Want) : Want := { want with data := memdup want.data want.dataLength }

theorem received_same (want : Want) : SameWant want (received want) := by
  refine ⟨rfl, rfl, rfl, ?_⟩
  by_cases hlen : want.dataLength = 0
  · simp [payload, received, hlen]
  · simp only [payload, received, memdup, if_neg hlen, Option.map_map]
    congr 1
    funext bytes
    simp [List.take_take]

/-- A Want whose data are there is read as it was written. -/
theorem deserializeWant_write (hp : p.element.RoundTrips) {want : Want} {out : Io SvcIdentity}
    (io : Io SvcIdentity) (h : serializeWant p want = some out) (hdata : hasData want) :
    deserializeWant p (out ++ io) = (some (received want), io) := by
  unfold serializeWant at h
  split at h
  · cases h
  · split at h
    · rename_i element sid helement hsid
      cases h
      simp only [List.append_assoc, deserializeWant,
        deserializeElementField_write hp _ helement, deserializeDataField_write _ hdata,
        deserializeSidField_write _ hsid]
      rfl
    · cases h

/-- A Want begins with a word. -/
theorem serializeWant_ne_object {want : Want} {out : Io SvcIdentity}
    (h : serializeWant p want = some out) (o : SvcIdentity) (io : Io SvcIdentity) :
    out ≠ .object o :: io := by
  unfold serializeWant at h
  split at h
  · cases h
  · split at h
    · rename_i element sid helement hsid
      cases h
      cases hwant : want.element with
      | none =>
        rw [hwant] at helement
        cases helement
        exact fun heq => nomatch heq
      | some e =>
        rw [hwant] at helement
        obtain ⟨body, -, rfl⟩ := Option.map_eq_some_iff.mp helement
        exact fun heq => nomatch heq
    · cases h

/-- Every Want that is read has data if it has a length. -/
theorem deserializeWant_hasData {want : Want} {io io' : Io SvcIdentity}
    (h : deserializeWant p io = (some want, io')) : hasData want := by
  unfold deserializeWant at h
  split at h
  · cases h
  · split at h
    · cases h
    · rename_i data dataLength io₂ hfield
      split at h
      · cases h
      · cases h
        simp only [deserializeDataField] at hfield
        split at hfield
        · obtain ⟨hset, -⟩ := Prod.mk.inj hfield
          obtain ⟨copy, -, hcopy⟩ := Option.map_eq_some_iff.mp hset
          cases hcopy
          exact fun _ => rfl
        · cases hfield
          exact fun hne => absurd rfl hne

theorem SameWant.symm {want want' : Want} (h : SameWant want want') : SameWant want' want :=
  ⟨h.1.symm, h.2.1.symm, h.2.2.1.symm, h.2.2.2.symm⟩

/-- Two Wants that are the same have data or do not. -/
theorem SameWant.hasData {want want' : Want} (h : SameWant want want') (h' : hasData want') :
    hasData want := by
  obtain ⟨-, -, hlength, hpayload⟩ := h
  intro hlen
  have hsome := h' (hlength ▸ hlen)
  simp only [payload, hlength, if_neg hlen] at hpayload
  rw [← Option.isSome_map (f := (·.take want.dataLength.toNat)), ← hpayload, Option.isSome_map]
  exact hsome

end AbilityLite.Ipc
