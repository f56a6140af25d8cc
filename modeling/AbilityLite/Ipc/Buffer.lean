import AbilityLite.CString

/-
  An IPC buffer as a queue of typed values.

  Writing appends a value; reading takes the next one, and yields zero or null when
  nothing is left. What a read makes of a value of another type is not fixed: it is the
  parameter `Misread`, and what is proved holds whatever it is. Only a remote object is
  never read where none was written: the reader of one fails there.

  A signed and an unsigned word are one and the same word of the buffer, so what was
  written as one is read as the other.
-/

namespace AbilityLite.Ipc

/-- One value of a buffer; `ι` is the type of the remote objects. -/
inductive Item (ι : Type) where
  | word (w : UInt32)
  | dword (w : UInt64)
  | bool (b : Bool)
  | string (s : CString)
  | buffer (bytes : List UInt8)
  | object (o : ι)
  deriving DecidableEq, Repr

/-- What is in a buffer, the next value to read first. -/
abbrev Io (ι : Type) := List (Item ι)

/-- What a read makes of a value of another type. -/
structure Misread (ι : Type) where
  word : Item ι → UInt32
  dword : Item ι → UInt64
  bool : Item ι → Bool
  string : Item ι → Option CString
  buffer : Item ι → Option (List UInt8)

variable {ι : Type}

/-! ## Writing -/

def writeInt32 (v : Int32) : Io ι := [.word v.toUInt32]

def writeUint64 (w : UInt64) : Io ι := [.dword w]

def writeBool (b : Bool) : Io ι := [.bool b]

/-- Null is not written. -/
def writeString : Option CString → Io ι
  | none => []
  | some s => [.string s]

/-- Null is not written. -/
def writeBuffer (data : Option (List UInt8)) (size : Nat) : Io ι :=
  match data with
  | none => []
  | some bytes => [.buffer (bytes.take size)]

def writeRemoteObject (o : ι) : Io ι := [.object o]

/-! ## Reading -/

variable (u : Misread ι)

def readUint32 : Io ι → UInt32 × Io ι
  | [] => (0, [])
  | .word w :: io => (w, io)
  | i :: io => (u.word i, io)

def readInt32 (io : Io ι) : Int32 × Io ι :=
  ((readUint32 u io).1.toInt32, (readUint32 u io).2)

def readUint64 : Io ι → UInt64 × Io ι
  | [] => (0, [])
  | .dword w :: io => (w, io)
  | i :: io => (u.dword i, io)

def readBool : Io ι → Bool × Io ι
  | [] => (false, [])
  | .bool b :: io => (b, io)
  | i :: io => (u.bool i, io)

def readString : Io ι → Option CString × Io ι
  | [] => (none, [])
  | .string s :: io => (some s, io)
  | i :: io => (u.string i, io)

def readBuffer : Io ι → Option (List UInt8) × Io ι
  | [] => (none, [])
  | .buffer bytes :: io => (some bytes, io)
  | i :: io => (u.buffer i, io)

def readRemoteObject : Io ι → Option ι × Io ι
  | [] => (none, [])
  | .object o :: io => (some o, io)
  | _ :: io => (none, io)

/-! ## A value that is read is the one that was written -/

variable (io : Io ι)

/-- A word written as signed is read as unsigned. -/
@[simp] theorem readUint32_writeInt32 (v : Int32) :
    readUint32 u (writeInt32 v ++ io) = (v.toUInt32, io) := rfl

@[simp] theorem readInt32_write (v : Int32) :
    readInt32 u (writeInt32 v ++ io) = (v, io) := rfl

@[simp] theorem readUint64_write (w : UInt64) :
    readUint64 u (writeUint64 w ++ io) = (w, io) := rfl

@[simp] theorem readUint64_nil : readUint64 u [] = (0, []) := rfl

@[simp] theorem readBool_write (b : Bool) : readBool u (writeBool b ++ io) = (b, io) := rfl

@[simp] theorem readString_write (s : CString) :
    readString u (writeString (some s) ++ io) = (some s, io) := rfl

@[simp] theorem readString_nil : readString u [] = (none, []) := rfl

@[simp] theorem readBuffer_write (bytes : List UInt8) (size : Nat) :
    readBuffer u (writeBuffer (some bytes) size ++ io) = (some (bytes.take size), io) := rfl

@[simp] theorem readRemoteObject_write (o : ι) :
    readRemoteObject (writeRemoteObject o ++ io) = (some o, io) := rfl

/-! ## Codecs -/

/-- A way to write values of a type, which may fail, and to read them. -/
structure Codec (ι α : Type) where
  write : α → Option (Io ι)
  read : Io ι → Option α × Io ι

/-- What was written is read, and nothing after it is touched. -/
def Codec.RoundTrips {α : Type} (c : Codec ι α) : Prop :=
  ∀ a out io, c.write a = some out → c.read (out ++ io) = (some a, io)

end AbilityLite.Ipc
