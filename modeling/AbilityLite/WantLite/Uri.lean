import AbilityLite.Ams.Record
import Mathlib.Data.List.TakeWhile

/-
  The URI of a Want: `WantToUri` writes the names of its element under the keys of one table,
  `WantParseUri` reads them back under the same keys.

  Correspondence (C++ ↔ Lean):
    `UriKeyType`, `UriProperties`, `URI_PROPERTIES`  ↔ `UriKeyType`, `UriProperty`, `uriProperties`
    `WantToUri`                                      ↔ `uriString`, `wantToUri`
    `WantParseUri`                                   ↔ `parseProperties`, `wantParseUri`
    `SetElementDeviceID`, `SetElementBundleName`, `SetElementAbilityName`  ↔ `setElement`
-/

namespace AbilityLite

/-! ## Cutting a list at a separator -/

section Cut
variable {α : Type} [DecidableEq α] {sep : α} {l f r : List α}

/-- The part before the first separator, and the part after it. -/
def cut (sep : α) : List α → Option (List α × List α)
  | [] => none
  | a :: l => if a = sep then some ([], l) else (cut sep l).map fun x => (a :: x.1, x.2)

theorem cut_eq_some : cut sep l = some (f, r) ↔ l = f ++ sep :: r ∧ sep ∉ f := by
  induction l generalizing f with
  | nil =>
    unfold cut
    exact ⟨fun h => (by cases h), fun h => absurd h.1 (by simp)⟩
  | cons a l ih =>
    unfold cut
    split
    · next ha =>
      subst ha
      constructor
      · intro h
        cases h
        exact ⟨rfl, List.not_mem_nil⟩
      · rintro ⟨hl, hf⟩
        cases f with
        | nil =>
          cases hl
          rfl
        | cons b f =>
          have hb : b = a := by
            cases hl
            rfl
          exact absurd (hb ▸ List.mem_cons_self) hf
    · next ha =>
      rw [Option.map_eq_some_iff]
      constructor
      · rintro ⟨⟨f', r'⟩, hcut, h⟩
        cases h
        obtain ⟨rfl, hf⟩ := ih.mp hcut
        refine ⟨rfl, fun hmem => ?_⟩
        rcases List.mem_cons.mp hmem with he | hmem
        · exact ha he.symm
        · exact hf hmem
      · rintro ⟨hl, hf⟩
        cases f with
        | nil =>
          cases hl
          exact absurd rfl ha
        | cons b f =>
          cases hl
          exact ⟨(f, r), ih.mpr ⟨rfl, fun hmem => hf (List.mem_cons_of_mem _ hmem)⟩, rfl⟩

/-- A list is cut at its first separator in one way. -/
theorem cut_unique {f' r' : List α} (h : f ++ sep :: r = f' ++ sep :: r') (hf : sep ∉ f)
    (hf' : sep ∉ f') : f = f' ∧ r = r' := by
  have hcut : cut sep (f ++ sep :: r) = some (f, r) := cut_eq_some.mpr ⟨rfl, hf⟩
  rw [h, cut_eq_some.mpr ⟨rfl, hf'⟩] at hcut
  cases hcut
  exact ⟨rfl, rfl⟩

end Cut

namespace WantLite
open Ams

/-! ## The table -/

inductive UriKeyType where
  | begin
  | device
  | bundle
  | ability
  | end
  deriving DecidableEq, Repr

structure UriProperty where
  key : CString
  keyLen : Nat
  type : UriKeyType
  deriving DecidableEq, Repr

/-- `URI_SEPARATOR`, the character `;`. -/
def uriSeparator : UInt8 := 59

def beginProperty : UriProperty := ⟨cstr "#Want", 5, .begin⟩
def deviceProperty : UriProperty := ⟨cstr "device=", 7, .device⟩
def bundleProperty : UriProperty := ⟨cstr "bundle=", 7, .bundle⟩
def abilityProperty : UriProperty := ⟨cstr "ability=", 8, .ability⟩
def endProperty : UriProperty := ⟨cstr "end", 3, .end⟩

/-- `URI_PROPERTIES`. -/
def uriProperties : List UriProperty :=
  [beginProperty, deviceProperty, bundleProperty, abilityProperty, endProperty]

/-- No key has a separator in it, and the lengths of the table are those of its keys. -/
theorem uriProperties_keys : ∀ p ∈ uriProperties,
    uriSeparator ∉ p.key.bytes ∧ p.keyLen = p.key.bytes.length ∧ p.key.bytes ≠ [] := by
  decide

/-! ## Writing -/

/-- What is written of a name: nothing for a null one. -/
def nameBytes (name : Option CString) : List UInt8 := (name.map (·.bytes)).getD []

def deviceBytes (want : Want) : List UInt8 := nameBytes (want.element.bind (·.deviceId))
def bundleBytes (want : Want) : List UInt8 := nameBytes (want.element.bind (·.bundleName))
def abilityBytes (want : Want) : List UInt8 := nameBytes (want.element.bind (·.abilityName))

def propertyBytes (want : Want) (p : UriProperty) : List UInt8 :=
  p.key.bytes ++
    match p.type with
    | .begin => [uriSeparator]
    | .device => deviceBytes want ++ [uriSeparator]
    | .bundle => bundleBytes want ++ [uriSeparator]
    | .ability => abilityBytes want ++ [uriSeparator]
    | .end => []

def uriString (want : Want) : List UInt8 := uriProperties.flatMap (propertyBytes want)

/-- `WantToUri`. The length of the string is kept in 16 bits, and as many bytes are copied. -/
def wantToUri (want : Want) : CString :=
  let len := UInt16.ofNat (uriString want).length
  CString.read ((uriString want).take len.toNat)

/-! ## Reading -/

def setElement (type : UriKeyType) (value : CString) (element : ElementName) : ElementName :=
  match type with
  | .device => { element with deviceId := some value }
  | .bundle => { element with bundleName := some value }
  | .ability => { element with abilityName := some value }
  | _ => element

/-- The loop of `WantParseUri`. `strstr` finds a key at once exactly where the string begins with
it. The separator that ends a value becomes its NUL. -/
def parseProperties : List UriProperty → ElementName → List UInt8 → Option ElementName
  | [], element, _ => some element
  | p :: ps, element, beginIndex =>
    if ¬ p.key.bytes <+: beginIndex then none
    else if p.type = .end then some element
    else
      match cut uriSeparator beginIndex with
      | none => none
      | some (field, rest) =>
        if field = [] then none
        else parseProperties ps (setElement p.type (CString.read (field.drop p.keyLen)) element) rest

def wantParseUri (uri : Option CString) : Option Want :=
  match uri with
  | none => none
  | some uri =>
    (parseProperties uriProperties {} uri.bytes).map fun element => { element := some element }

/-! ## What is accepted -/

/-- The strings that are read as a Want: whatever stands between the first key and its
separator, and behind the last key, is skipped. -/
def uriForm (x device bundle ability y : List UInt8) : List UInt8 :=
  beginProperty.key.bytes ++ x ++ uriSeparator ::
    (deviceProperty.key.bytes ++ device ++ uriSeparator ::
      (bundleProperty.key.bytes ++ bundle ++ uriSeparator ::
        (abilityProperty.key.bytes ++ ability ++ uriSeparator :: (endProperty.key.bytes ++ y))))

/-- The Want with these names. -/
def wantOf (device bundle ability : List UInt8) : Want :=
  { element := some {
      deviceId := some (CString.read device)
      bundleName := some (CString.read bundle)
      abilityName := some (CString.read ability) } }

section Read
variable {p : UriProperty} {ps : List UriProperty} {e e' : ElementName} {l : List UInt8}

/-- One key and its value are read. -/
theorem parseProperties_cons (hp : p ∈ uriProperties) (hend : p.type ≠ .end) :
    parseProperties (p :: ps) e l = some e' ↔
      ∃ v r, l = p.key.bytes ++ v ++ uriSeparator :: r ∧ uriSeparator ∉ v ∧
        parseProperties ps (setElement p.type (CString.read v) e) r = some e' := by
  obtain ⟨hkey, hlen, hne⟩ := uriProperties_keys p hp
  have hsep (v : List UInt8) : uriSeparator ∉ p.key.bytes ++ v ↔ uriSeparator ∉ v := by
    rw [List.mem_append, not_or]
    exact ⟨And.right, fun h => ⟨hkey, h⟩⟩
  rw [parseProperties]
  constructor
  · intro h
    by_cases hprefix : p.key.bytes <+: l
    · rw [if_neg (not_not_intro hprefix), if_neg hend] at h
      obtain ⟨l', rfl⟩ := hprefix
      cases hcut : cut uriSeparator (p.key.bytes ++ l') with
      | none =>
        rw [hcut] at h
        cases h
      | some x =>
        obtain ⟨field, rest⟩ := x
        obtain ⟨heq, hnot⟩ := cut_eq_some.mp hcut
        -- the key has no separator, so the field begins with it
        have hle : p.key.bytes.length ≤ field.length := by
          refine Nat.le_of_not_lt fun hlt => hkey ?_
          have hget := congrArg (·[field.length]?) heq
          simp only [List.getElem?_append_left hlt, List.getElem?_append_right (Nat.le_refl _),
            Nat.sub_self, List.getElem?_cons_zero] at hget
          exact List.mem_of_getElem? hget
        obtain ⟨v, rfl⟩ := List.prefix_of_prefix_length_le ⟨l', heq⟩ ⟨uriSeparator :: rest, rfl⟩ hle
        have hfield : p.key.bytes ++ v ≠ [] := fun h => hne (List.append_eq_nil_iff.mp h).1
        rw [hcut] at h
        dsimp only at h
        rw [if_neg hfield, hlen, List.drop_left] at h
        exact ⟨v, rest, heq, (hsep v).mp hnot, h⟩
    · rw [if_pos hprefix] at h
      cases h
  · rintro ⟨v, r, rfl, hv, h⟩
    have hcut : cut uriSeparator (p.key.bytes ++ v ++ uriSeparator :: r) = some (p.key.bytes ++ v, r) :=
      cut_eq_some.mpr ⟨rfl, (hsep v).mpr hv⟩
    have hprefix : p.key.bytes <+: p.key.bytes ++ v ++ uriSeparator :: r := by
      rw [List.append_assoc]
      exact List.prefix_append _ _
    have hfield : p.key.bytes ++ v ≠ [] := fun h => hne (List.append_eq_nil_iff.mp h).1
    rw [if_neg (not_not_intro hprefix), if_neg hend, hcut]
    dsimp only
    rw [if_neg hfield, hlen, List.drop_left]
    exact h

theorem parseProperties_end :
    parseProperties [endProperty] e l = some e' ↔ e' = e ∧ ∃ y, l = endProperty.key.bytes ++ y := by
  unfold parseProperties
  by_cases hprefix : endProperty.key.bytes <+: l
  · rw [if_neg (not_not_intro hprefix), if_pos (show endProperty.type = .end from rfl), Option.some.injEq]
    obtain ⟨y, rfl⟩ := hprefix
    exact ⟨fun h => ⟨h.symm, y, rfl⟩, fun h => h.1.symm⟩
  · rw [if_pos hprefix]
    exact ⟨fun h => (by cases h), fun ⟨_, y, hy⟩ => absurd ⟨y, hy.symm⟩ hprefix⟩

end Read

/-- What `WantParseUri` accepts, and the Want it returns. -/
theorem wantParseUri_eq_some {uri : CString} {want : Want} :
    wantParseUri (some uri) = some want ↔ ∃ x device bundle ability y,
      uri.bytes = uriForm x device bundle ability y ∧
        (uriSeparator ∉ x ∧ uriSeparator ∉ device ∧ uriSeparator ∉ bundle ∧ uriSeparator ∉ ability) ∧
        want = wantOf device bundle ability := by
  unfold wantParseUri
  rw [Option.map_eq_some_iff]
  have hb : beginProperty ∈ uriProperties := by decide
  have hd : deviceProperty ∈ uriProperties := by decide
  have hu : bundleProperty ∈ uriProperties := by decide
  have ha : abilityProperty ∈ uriProperties := by decide
  constructor
  · rintro ⟨element, h, rfl⟩
    obtain ⟨x, l₁, h₁, hx, h⟩ := (parseProperties_cons hb (by decide)).mp h
    obtain ⟨device, l₂, rfl, hdevice, h⟩ := (parseProperties_cons hd (by decide)).mp h
    obtain ⟨bundle, l₃, rfl, hbundle, h⟩ := (parseProperties_cons hu (by decide)).mp h
    obtain ⟨ability, l₄, rfl, hability, h⟩ := (parseProperties_cons ha (by decide)).mp h
    obtain ⟨rfl, y, rfl⟩ := parseProperties_end.mp h
    exact ⟨x, device, bundle, ability, y, h₁, ⟨hx, hdevice, hbundle, hability⟩, rfl⟩
  · rintro ⟨x, device, bundle, ability, y, h₁, ⟨hx, hdevice, hbundle, hability⟩, rfl⟩
    refine ⟨_, ?_, rfl⟩
    refine (parseProperties_cons hb (by decide)).mpr ⟨x, _, h₁, hx, ?_⟩
    refine (parseProperties_cons hd (by decide)).mpr ⟨device, _, rfl, hdevice, ?_⟩
    refine (parseProperties_cons hu (by decide)).mpr ⟨bundle, _, rfl, hbundle, ?_⟩
    refine (parseProperties_cons ha (by decide)).mpr ⟨ability, _, rfl, hability, ?_⟩
    exact parseProperties_end.mpr ⟨rfl, y, rfl⟩

theorem uriForm_append (x d b a y z : List UInt8) :
    uriForm x d b a (y ++ z) = uriForm x d b a y ++ z := by
  simp only [uriForm, List.append_assoc, List.cons_append]

/-- The parts of an accepted string are determined by it. -/
theorem uriForm_inj {x d b a y x' d' b' a' y' : List UInt8}
    (h : uriForm x d b a y = uriForm x' d' b' a' y')
    (hs : uriSeparator ∉ x ∧ uriSeparator ∉ d ∧ uriSeparator ∉ b ∧ uriSeparator ∉ a)
    (hs' : uriSeparator ∉ x' ∧ uriSeparator ∉ d' ∧ uriSeparator ∉ b' ∧ uriSeparator ∉ a') :
    x = x' ∧ d = d' ∧ b = b' ∧ a = a' ∧ y = y' := by
  have hcut {p : UriProperty} (hp : p ∈ uriProperties) {v v' r r' : List UInt8}
      (h : p.key.bytes ++ v ++ uriSeparator :: r = p.key.bytes ++ v' ++ uriSeparator :: r')
      (hv : uriSeparator ∉ v) (hv' : uriSeparator ∉ v') : v = v' ∧ r = r' := by
    rw [List.append_assoc, List.append_assoc] at h
    exact cut_unique (List.append_cancel_left h) hv hv'
  obtain ⟨hx, h⟩ := hcut (by decide) h hs.1 hs'.1
  obtain ⟨hd, h⟩ := hcut (by decide) h hs.2.1 hs'.2.1
  obtain ⟨hb, h⟩ := hcut (by decide) h hs.2.2.1 hs'.2.2.1
  obtain ⟨ha, h⟩ := hcut (by decide) h hs.2.2.2 hs'.2.2.2
  exact ⟨hx, hd, hb, ha, List.append_cancel_left h⟩

/-! ## What is written -/

theorem read_of_noNul {l : List UInt8} (h : 0 ∉ l) : (CString.read l).bytes = l := by
  refine List.takeWhile_eq_self_iff.mpr fun b hb => ?_
  rw [decide_eq_true_eq]
  rintro rfl
  exact h hb

theorem uriString_eq (want : Want) :
    uriString want = uriForm [] (deviceBytes want) (bundleBytes want) (abilityBytes want) [] := by
  simp only [uriString, uriProperties, List.flatMap_cons, List.flatMap_nil, propertyBytes,
    beginProperty, deviceProperty, bundleProperty, abilityProperty, endProperty, uriForm,
    List.append_assoc, List.append_nil, List.cons_append, List.nil_append]

theorem length_uriForm (x d b a y : List UInt8) :
    (uriForm x d b a y).length = 34 + x.length + d.length + b.length + a.length + y.length := by
  have hb : beginProperty.key.bytes.length = 5 := by decide
  have hd : deviceProperty.key.bytes.length = 7 := by decide
  have hu : bundleProperty.key.bytes.length = 7 := by decide
  have ha : abilityProperty.key.bytes.length = 8 := by decide
  have he : endProperty.key.bytes.length = 3 := by decide
  simp only [uriForm, List.length_append, List.length_cons, hb, hd, hu, ha, he]
  omega

theorem noNul_nameBytes (name : Option CString) : 0 ∉ nameBytes name := by
  cases name with
  | none => exact List.not_mem_nil
  | some name => exact name.noNul

theorem noNul_uriForm {x d b a y : List UInt8} (hx : 0 ∉ x) (hd : 0 ∉ d) (hb : 0 ∉ b) (ha : 0 ∉ a)
    (hy : 0 ∉ y) : 0 ∉ uriForm x d b a y := by
  have hsep : (0 : UInt8) ≠ uriSeparator := by decide
  simp only [uriForm, List.mem_append, List.mem_cons, not_or]
  exact ⟨⟨beginProperty.key.noNul, hx⟩, hsep, ⟨deviceProperty.key.noNul, hd⟩, hsep,
    ⟨bundleProperty.key.noNul, hb⟩, hsep, ⟨abilityProperty.key.noNul, ha⟩, hsep, endProperty.key.noNul, hy⟩

theorem noNul_uriString (want : Want) : 0 ∉ uriString want := by
  rw [uriString_eq]
  exact noNul_uriForm List.not_mem_nil (noNul_nameBytes _) (noNul_nameBytes _) (noNul_nameBytes _)
    List.not_mem_nil

/-- As many bytes are copied as 16 bits hold of the length. -/
theorem wantToUri_bytes (want : Want) :
    (wantToUri want).bytes = (uriString want).take ((uriString want).length % 65536) := by
  unfold wantToUri
  rw [read_of_noNul fun h => noNul_uriString want (List.mem_of_mem_take h), UInt16.toNat_ofNat']

theorem wantToUri_short {want : Want} (h : (uriString want).length < 65536) :
    (wantToUri want).bytes = uriString want := by
  rw [wantToUri_bytes, Nat.mod_eq_of_lt h, List.take_length]

/-- A name as it is read back: a null one as the empty string. -/
def nameOrEmpty (name : Option CString) : CString := name.getD ⟨[], List.not_mem_nil⟩

/-- The element of the Want that is read from the URI of a Want. -/
def readBack (want : Want) : ElementName :=
  { deviceId := some (nameOrEmpty (want.element.bind (·.deviceId)))
    bundleName := some (nameOrEmpty (want.element.bind (·.bundleName)))
    abilityName := some (nameOrEmpty (want.element.bind (·.abilityName))) }

/-- No name has a separator in it. -/
def NamesFree (want : Want) : Prop :=
  uriSeparator ∉ deviceBytes want ∧ uriSeparator ∉ bundleBytes want ∧ uriSeparator ∉ abilityBytes want

theorem read_nameBytes (name : Option CString) : CString.read (nameBytes name) = nameOrEmpty name := by
  have hbytes := read_of_noNul (noNul_nameBytes name)
  cases name with
  | none => rfl
  | some name =>
    generalize CString.read (nameBytes (some name)) = read at hbytes ⊢
    cases read
    cases name
    cases hbytes
    rfl

theorem wantOf_nameBytes (want : Want) :
    wantOf (deviceBytes want) (bundleBytes want) (abilityBytes want) = { element := some (readBack want) } := by
  unfold wantOf deviceBytes bundleBytes abilityBytes
  simp only [read_nameBytes]
  rfl

/-- The URI of a Want whose names are not too long is read as the Want. -/
theorem wantParseUri_short {want : Want} (hfree : NamesFree want) (h : (uriString want).length < 65536) :
    wantParseUri (some (wantToUri want)) = some { element := some (readBack want) } := by
  refine wantParseUri_eq_some.mpr ⟨[], deviceBytes want, bundleBytes want, abilityBytes want, [], ?_,
    ⟨List.not_mem_nil, hfree⟩, (wantOf_nameBytes want).symm⟩
  rw [wantToUri_short h, uriString_eq]

/-- A URI that is cut off is not read: the last key is missing. -/
theorem wantParseUri_long {want : Want} (hfree : NamesFree want) (h : 65536 ≤ (uriString want).length) :
    wantParseUri (some (wantToUri want)) = none := by
  refine Option.eq_none_iff_forall_ne_some.mpr fun w hw => ?_
  obtain ⟨x, d, b, a, y, hbytes, hs, -⟩ := wantParseUri_eq_some.mp hw
  rw [wantToUri_bytes] at hbytes
  have hlt : (uriString want).length % 65536 < (uriString want).length := by
    have hmod := Nat.mod_lt (uriString want).length (show 0 < 65536 by decide)
    omega
  -- with the bytes that were cut off, the string is the whole one
  have hwhole := List.take_append_drop ((uriString want).length % 65536) (uriString want)
  rw [hbytes] at hwhole
  have hform : uriForm x d b a (y ++ (uriString want).drop ((uriString want).length % 65536)) =
      uriForm [] (deviceBytes want) (bundleBytes want) (abilityBytes want) [] := by
    rw [uriForm_append, hwhole, uriString_eq]
  have hrest := (uriForm_inj hform hs ⟨List.not_mem_nil, hfree⟩).2.2.2.2
  have hdrop := congrArg List.length (List.append_eq_nil_iff.mp hrest).2
  rw [List.length_drop, List.length_nil] at hdrop
  omega

/-! ## Round trips -/

/-- The URI of a Want is read as a Want with the same names exactly when its length fits in 16
bits: what the keys and the separators leave of them holds the names. -/
theorem wantParseUri_wantToUri_iff (want : Want) (hfree : NamesFree want) :
    (∃ w, wantParseUri (some (wantToUri want)) = some w ∧ w.element = some (readBack want)) ↔
      (deviceBytes want).length + (bundleBytes want).length + (abilityBytes want).length < 65502 := by
  have hlength : (uriString want).length = 34 + ((deviceBytes want).length +
      (bundleBytes want).length + (abilityBytes want).length) := by
    rw [uriString_eq, length_uriForm]
    simp only [List.length_nil]
    omega
  constructor
  · rintro ⟨w, hw, -⟩
    refine Nat.lt_of_not_le fun hlong => ?_
    rw [wantParseUri_long hfree (by omega)] at hw
    cases hw
  · intro hshort
    exact ⟨_, wantParseUri_short hfree (by omega), rfl⟩

/-- A Want for the main page of a bundle. -/
def shownWant : Want :=
  { element := some { bundleName := some (cstr "com.app"), abilityName := some (cstr "Main") } }

theorem wantParseUri_wantToUri_shown :
    (∃ w, wantParseUri (some (wantToUri shownWant)) = some w ∧
      w.element = some (readBack shownWant)) ↔
        (deviceBytes shownWant).length + (bundleBytes shownWant).length +
          (abilityBytes shownWant).length < 65502 :=
  wantParseUri_wantToUri_iff shownWant (by unfold NamesFree; decide)

/-- A name one byte longer than the names of a Want may be together. -/
def longName : CString :=
  ⟨List.replicate 65502 97, fun h => absurd (List.eq_of_mem_replicate h) (by decide)⟩

def longWant : Want := { element := some { deviceId := some longName } }

/-- The names of the Want are lost: its URI is cut off, and nothing is read from it. -/
theorem wantParseUri_wantToUri_long :
    NamesFree longWant ∧ wantParseUri (some (wantToUri longWant)) = none := by
  have hfree : NamesFree longWant := by
    refine ⟨fun h => ?_, List.not_mem_nil, List.not_mem_nil⟩
    have hname : uriSeparator ∈ List.replicate 65502 (97 : UInt8) := h
    exact absurd (List.eq_of_mem_replicate hname) (by decide)
  refine ⟨hfree, wantParseUri_long hfree ?_⟩
  rw [uriString_eq, length_uriForm]
  have hdevice : (deviceBytes longWant).length = 65502 :=
    show (List.replicate 65502 (97 : UInt8)).length = 65502 from List.length_replicate
  omega

/-- The strings that `WantToUri` writes, with these names. -/
def IsUri (uri : CString) (device bundle ability : List UInt8) : Prop :=
  uri.bytes = uriForm [] device bundle ability [] ∧
    uriSeparator ∉ device ∧ uriSeparator ∉ bundle ∧ uriSeparator ∉ ability

theorem uriString_wantOf {d b a : List UInt8} (hd : 0 ∉ d) (hb : 0 ∉ b) (ha : 0 ∉ a) :
    uriString (wantOf d b a) = uriForm [] d b a [] := by
  rw [uriString_eq]
  have hread {l : List UInt8} (h : 0 ∉ l) : nameBytes (some (CString.read l)) = l := read_of_noNul h
  simp only [deviceBytes, bundleBytes, abilityBytes, wantOf, Option.bind_some, hread hd, hread hb, hread ha]

/-- What `WantParseUri` accepts: between the first key and its separator, and behind the last
key, there may be anything. The URI of the Want that is read has nothing there. -/
theorem wantParseUri_accepts (uri : CString) (hlength : uri.bytes.length < 65536) (want : Want) :
    (wantParseUri (some uri) = some want ↔ ∃ x device bundle ability y,
      uri.bytes = uriForm x device bundle ability y ∧
        (uriSeparator ∉ x ∧ uriSeparator ∉ device ∧ uriSeparator ∉ bundle ∧ uriSeparator ∉ ability) ∧
        want = wantOf device bundle ability) ∧
      (wantParseUri (some uri) = some want →
        (wantToUri want = uri ↔ ∃ device bundle ability, IsUri uri device bundle ability)) := by
  refine ⟨wantParseUri_eq_some, fun h => ?_⟩
  obtain ⟨x, d, b, a, y, hbytes, hs, rfl⟩ := wantParseUri_eq_some.mp h
  have hnul := uri.noNul
  rw [hbytes] at hnul hlength
  rw [length_uriForm] at hlength
  simp only [uriForm, List.mem_append, List.mem_cons, not_or] at hnul
  obtain ⟨⟨-, -⟩, -, ⟨-, hd⟩, -, ⟨-, hb⟩, -, ⟨-, ha⟩, -⟩ := hnul
  have hwritten : (wantToUri (wantOf d b a)).bytes = uriForm [] d b a [] := by
    rw [wantToUri_short, uriString_wantOf hd hb ha]
    rw [uriString_wantOf hd hb ha, length_uriForm]
    simp only [List.length_nil]
    omega
  constructor
  · intro heq
    rw [heq] at hwritten
    exact ⟨d, b, a, hwritten, hs.2⟩
  · rintro ⟨d', b', a', hform, hs'⟩
    rw [hbytes] at hform
    obtain ⟨rfl, rfl, rfl, rfl, rfl⟩ := uriForm_inj hform hs ⟨List.not_mem_nil, hs'⟩
    rw [← hbytes] at hwritten
    generalize wantToUri (wantOf d b a) = written at hwritten ⊢
    cases written
    cases uri
    cases hwritten
    rfl

/-- `shownWant` as it is read back: the device name is empty, not null. -/
def shownAgain : Want := wantOf [] (cstr "com.app").bytes (cstr "Main").bytes

/-- The URI of `shownWant` is accepted, and is the one that `WantToUri` makes of what is read. -/
theorem wantParseUri_accepts_shown :
    wantParseUri (some (wantToUri shownWant)) = some shownAgain ∧
    (∃ x device bundle ability y, (wantToUri shownWant).bytes = uriForm x device bundle ability y ∧
      (uriSeparator ∉ x ∧ uriSeparator ∉ device ∧ uriSeparator ∉ bundle ∧ uriSeparator ∉ ability) ∧
      shownAgain = wantOf device bundle ability) ∧
    wantToUri shownAgain = wantToUri shownWant ∧
    ∃ device bundle ability, IsUri (wantToUri shownWant) device bundle ability := by
  have hread : wantParseUri (some (wantToUri shownWant)) = some shownAgain := by decide
  have hsame : wantToUri shownAgain = wantToUri shownWant := by decide
  obtain ⟨haccepts, hwritten⟩ := wantParseUri_accepts (wantToUri shownWant) (by decide) shownAgain
  exact ⟨hread, haccepts.mp hread, hsame, (hwritten hread).mp hsame⟩

/-- Something stands behind the last key. -/
def trailingUri : CString := cstr "#Want;device=;bundle=com.app;ability=Main;end?"

/-- It is accepted, and no URI that `WantToUri` writes. -/
theorem wantParseUri_trailing : trailingUri.bytes.length < 65536 ∧
    (wantParseUri (some trailingUri)).isSome = true ∧
      ¬ ∃ device bundle ability, IsUri trailingUri device bundle ability := by
  refine ⟨by decide, by decide, ?_⟩
  rintro ⟨d, b, a, hform, hs⟩
  have hself : trailingUri.bytes =
      uriForm [] [] (cstr "com.app").bytes (cstr "Main").bytes (cstr "?").bytes := by decide
  rw [hself] at hform
  have hrest := (uriForm_inj hform (by decide) ⟨List.not_mem_nil, hs⟩).2.2.2.2
  exact absurd hrest (by decide)

end WantLite
end AbilityLite
