import AbilityLite.Ipc.AbilityThreadClient

/-
  A Want in a stream.

  `serializeWant` gives the values of a Want that is written whole. `writeWant` follows
  `SerializeWant` statement by statement on the buffer it is given, so that it also says what a failed
  call leaves there; it writes what `serializeWant` gives (`writeWant_eq`), and with that
  a Want is read back with the cursor at what was written after it.

  Correspondence (C++ ↔ Lean):
    `SerializeWant` ↔ `writeWant` (`writeDataField`, `writeSidField`)
-/

namespace AbilityLite.Ipc

open AbilityLite.Ams

/-- What the functions of other repositories leave in the buffer where they fail. -/
structure Remains where
  serializeElement : ElementName → Io SvcIdentity
  writeRemoteObject : SvcIdentity → Io SvcIdentity

variable (p : Platform) (remains : Remains)

/-! ## Writing -/

def writeSidField (io : Io SvcIdentity) : Option SvcIdentity → Bool × Io SvcIdentity
  | none => (true, io ++ writeInt32 valueNull)
  | some sid =>
    let io := io ++ writeInt32 valueObject
    if p.writesRemoteObject sid then (true, io ++ writeRemoteObject sid)
    else (false, io ++ remains.writeRemoteObject sid)

def writeDataField (io : Io SvcIdentity) (want : Want) : Io SvcIdentity :=
  let io := io ++ writeInt32 want.dataLength.toUInt32.toInt32
  if want.dataLength > 0 then io ++ writeBuffer want.data want.dataLength.toNat else io

/-- `SerializeWant`: whether it succeeds, and the buffer it leaves. -/
def writeWant (io : Io SvcIdentity) (want : Want) : Bool × Io SvcIdentity :=
  if want.dataLength > maxDataLength then (false, io)
  else
    match want.element with
    | none => writeSidField p remains (writeDataField (io ++ writeInt32 valueNull) want) want.sid
    | some element =>
      let io := io ++ writeInt32 valueObject
      match p.element.write element with
      | none => (false, io ++ remains.serializeElement element)
      | some body => writeSidField p remains (writeDataField (io ++ body) want) want.sid

variable {p}

/-! ## What is written -/

theorem writeSidField_eq {sid : Option SvcIdentity} {out : Io SvcIdentity} (io : Io SvcIdentity)
    (h : serializeSidField p sid = some out) : writeSidField p remains io sid = (true, io ++ out) := by
  cases sid with
  | none =>
    cases h
    rfl
  | some sid =>
    simp only [serializeSidField] at h
    split at h
    · next hobject =>
      cases h
      simp only [writeSidField, hobject, if_true, List.append_assoc]
    · cases h

theorem writeDataField_eq (io : Io SvcIdentity) (want : Want) :
    writeDataField io want = io ++ serializeDataField want.data want.dataLength := by
  unfold writeDataField serializeDataField
  split
  · exact List.append_assoc _ _ _
  · rw [List.append_nil]

/-- What `SerializeWant` adds to the buffer is the Want. -/
theorem writeWant_eq {want : Want} {out : Io SvcIdentity} (io : Io SvcIdentity)
    (h : serializeWant p want = some out) : writeWant p remains io want = (true, io ++ out) := by
  unfold serializeWant at h
  unfold writeWant
  split at h
  · cases h
  · next hlength =>
    rw [if_neg hlength]
    split at h
    · next element sid helement hsid =>
      cases h
      cases hwant : want.element with
      | none =>
        rw [hwant] at helement
        cases helement
        simp only [writeSidField_eq remains _ hsid, writeDataField_eq, List.append_assoc]
      | some e =>
        rw [hwant] at helement
        obtain ⟨body, hbody, rfl⟩ := Option.map_eq_some_iff.mp helement
        simp only [hbody, writeSidField_eq remains _ hsid, writeDataField_eq, List.append_assoc]
    · cases h

/-- Every Want that is not too long is written. -/
theorem serializeWant_isSome (helement : ∀ element, (p.element.write element).isSome)
    (hobject : ∀ sid, p.writesRemoteObject sid = true) {want : Want}
    (hlength : ¬ want.dataLength > maxDataLength) : ∃ out, serializeWant p want = some out := by
  obtain ⟨element, he⟩ : ∃ element, serializeElementField p want.element = some element := by
    cases want.element with
    | none => exact ⟨_, rfl⟩
    | some e =>
      obtain ⟨body, hbody⟩ := Option.isSome_iff_exists.mp (helement e)
      exact ⟨_, congrArg (Option.map _) hbody⟩
  obtain ⟨sid, hs⟩ : ∃ sid, serializeSidField p want.sid = some sid := by
    cases want.sid with
    | none => exact ⟨_, rfl⟩
    | some sid => exact ⟨_, if_pos (hobject sid)⟩
  refine ⟨element ++ (serializeDataField want.data want.dataLength ++ sid), ?_⟩
  simp only [serializeWant, if_neg hlength, he, hs]

/-! ## Reading it back -/

/-- A Want of at most 2048 bytes is written behind what is in the buffer, and read as it was,
up to where it ends; a longer one is refused and the buffer is not touched. -/
theorem want_roundTrips (p : Platform) (remains : Remains) (hp : p.element.RoundTrips)
    (helement : ∀ element, (p.element.write element).isSome)
    (hobject : ∀ sid, p.writesRemoteObject sid = true) (want : Want) (before suffix : Io SvcIdentity) :
    (want.dataLength ≤ maxDataLength → (want.data = none ↔ want.dataLength = 0) →
      ∃ out, writeWant p remains before want = (true, before ++ out) ∧
        ∃ want', deserializeWant p (out ++ suffix) = (some want', suffix) ∧
          want'.element = want.element ∧ want'.sid = want.sid ∧
          want'.dataLength = want.dataLength ∧
          want'.data = want.data.map (·.take want.dataLength.toNat)) ∧
      (want.dataLength > maxDataLength → writeWant p remains before want = (false, before)) := by
  constructor
  · intro hlength hnull
    obtain ⟨out, hout⟩ := serializeWant_isSome helement hobject (UInt16.not_lt.mpr hlength)
    have hdata : hasData want := by
      intro hne
      rw [← Option.ne_none_iff_isSome]
      exact fun hnone => hne (hnull.mp hnone)
    refine ⟨out, writeWant_eq remains before hout, received want,
      deserializeWant_write hp suffix hout hdata, rfl, rfl, rfl, ?_⟩
    simp only [received, memdup]
    split
    · next hzero => rw [hnull.mpr hzero, Option.map_none]
    · rfl
  · intro hlength
    simp only [writeWant, if_pos hlength]

/-- A Want with all three parts, between two other words. -/
theorem want_roundTrips_full :
    let want : Want := { element := some { bundleName := some (cstr "a") }, sid := some ⟨1, 2⟩,
                         data := some [7, 8, 9], dataLength := 3 }
    ∃ out, writeWant plain ⟨fun _ => [], fun _ => []⟩ [.word 5] want = (true, [.word 5] ++ out) ∧
      (deserializeWant plain (out ++ [.word 6])).2 = [.word 6] := by
  intro want
  have helement : ∀ element, (plain.element.write element).isSome := fun _ => rfl
  obtain ⟨out, hwrite, want', hread, -⟩ := (want_roundTrips plain ⟨fun _ => [], fun _ => []⟩
    plainElement_roundTrips helement (fun _ => rfl) want [.word 5] [.word 6]).1 (by decide) (by decide)
  exact ⟨out, hwrite, congrArg Prod.snd hread⟩

end AbilityLite.Ipc
