/-
  Byte strings as the C++ sources handle them: NUL-terminated strings, raw
  buffers, and the two copying utilities (`Utils::Strdup`, `Utils::Memdup`)
  through which every name and every `Want` payload passes.

  A pointer that may be null is an `Option`. Allocation is taken to succeed.
-/

namespace AbilityLite

/-- A C string without its terminator: no byte of it is NUL. -/
structure CString where
  bytes : List UInt8
  noNul : 0 ∉ bytes
  deriving DecidableEq, Repr

/-- The C string of a source literal. -/
def cstr (s : String) : CString :=
  ⟨(s.toList.map fun c => UInt8.ofNat c.toNat).filter (· ≠ 0), by simp⟩

/-- The C string a `char *` into `buf` denotes: the bytes before the first NUL. -/
def CString.read (buf : List UInt8) : CString :=
  ⟨buf.takeWhile (· ≠ 0), fun h => by
    have hp := List.all_takeWhile (p := fun b : UInt8 => decide (b ≠ 0)) (l := buf)
    have h0 := List.all_eq_true.mp hp 0 h
    simp at h0⟩

/-- The buffer of `strlen + 1` bytes a C string occupies. -/
def CString.buffer (s : CString) : List UInt8 := s.bytes ++ [0]

theorem takeWhile_append_nul (l : List UInt8) (h : 0 ∉ l) :
    (l ++ [0]).takeWhile (· ≠ 0) = l := by
  induction l with
  | nil => rfl
  | cons b l ih =>
    have hb : b ≠ 0 := fun e => h (by simp [e])
    have hl : 0 ∉ l := fun e => h (List.mem_cons_of_mem b e)
    simp only [List.cons_append, List.takeWhile_cons, ih hl]
    simp [hb]

/-- Reading back the buffer a C string was written to yields the string. -/
theorem CString.read_buffer (s : CString) : CString.read s.buffer = s := by
  cases s with
  | mk bytes noNul => simp only [CString.read, CString.buffer, takeWhile_append_nul bytes noNul]

/-- `Utils::Strdup`: null for null, a copy otherwise. -/
def strdup (s : Option CString) : Option CString := s

/-- `Utils::Memdup`: null for a null source or an empty request, otherwise the
first `len` bytes. -/
def memdup (src : Option (List UInt8)) (len : UInt16) : Option (List UInt8) :=
  if len = 0 then none else src.map (·.take len.toNat)

@[simp] theorem strdup_eq (s : Option CString) : strdup s = s := rfl

@[simp] theorem memdup_none (len : UInt16) : memdup none len = none := by
  simp [memdup]

/-- Copying a copy changes nothing. -/
@[simp] theorem memdup_memdup (src : Option (List UInt8)) (len : UInt16) :
    memdup (memdup src len) len = memdup src len := by
  unfold memdup
  split
  · rfl
  · cases src <;> simp [List.take_take]

end AbilityLite
