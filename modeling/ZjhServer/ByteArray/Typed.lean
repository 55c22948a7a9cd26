/-
ZjhServer/ByteArray/Typed.lean

The typed reads and writes of `ByteArray` (server/bytearray.cc): fixed-width
integers in the byte order of the object, base-128 varints with zigzag for the
signed ones, floating-point numbers by their bit patterns, and strings behind a
length.

`host` is `WILL_BYTE_ORDER`, the byte order of the machine; `junk` is what the
blocks hold that a write may have to allocate.  A `float` or a `double` is its
bit pattern.
-/
import ZjhServer.ByteArray.Basic

namespace Will

namespace ByteArray

open Effect Wire

section Write

variable (host : Endian) (junk : Junk)

/-- The fixed-width writes of more than one byte:
`if(m_endian != WILL_BYTE_ORDER) value = byteswap(value); write(&value, sizeof(value));` -/
def writeF {n : Nat} (value : BitVec (8 * n)) : M Unit := do
  let s ← get
  write junk (memBytes host (if s.m_endian ≠ host then byteswap value else value))

/-- The one-byte writes know no byte order. -/
def writeByte (value : BitVec (8 * 1)) : M Unit := write junk (memBytes host value)

def writeFint8 (value : Int8) : M Unit := writeByte host junk value.toBitVec
def writeFuint8 (value : UInt8) : M Unit := writeByte host junk value.toBitVec
def writeFint16 (value : Int16) : M Unit := writeF host junk (n := 2) value.toBitVec
def writeFuint16 (value : UInt16) : M Unit := writeF host junk (n := 2) value.toBitVec
def writeFint32 (value : Int32) : M Unit := writeF host junk (n := 4) value.toBitVec
def writeFuint32 (value : UInt32) : M Unit := writeF host junk (n := 4) value.toBitVec
def writeFint64 (value : Int64) : M Unit := writeF host junk (n := 8) value.toBitVec
def writeFuint64 (value : UInt64) : M Unit := writeF host junk (n := 8) value.toBitVec

def EncodeZigzag32 (v : Int32) : UInt32 := ⟨zigzagEncode v.toBitVec⟩
def EncodeZigzag64 (v : Int64) : UInt64 := ⟨zigzagEncode v.toBitVec⟩

/-- The varint writes: groups into `uint8_t tmp[room]`, then `write(tmp, i)`. -/
def writeVarint {w : Nat} (room : Nat) (value : BitVec w) : M Unit :=
  match encodeGroups room value with
  | none => throw .stack_overrun
  | some tmp => write junk tmp

def writeUint32 (value : UInt32) : M Unit := writeVarint junk 5 value.toBitVec
def writeInt32 (value : Int32) : M Unit := writeUint32 junk (EncodeZigzag32 value)
def writeUint64 (value : UInt64) : M Unit := writeVarint junk 10 value.toBitVec
def writeInt64 (value : Int64) : M Unit := writeUint64 junk (EncodeZigzag64 value)

/-- The argument is the bit pattern that `memcpy` moves. -/
def writeFloat (value : UInt32) : M Unit := writeFuint32 host junk value
def writeDouble (value : UInt64) : M Unit := writeFuint64 host junk value

variable (body : Junk)

/-- The lengths below are converted to the type of the length field; `junk` and
`body` are the memory for the length and for the bytes. -/
def writeStringF16 (value : List UInt8) : M Unit := do
  writeFuint16 host junk (UInt16.ofNat value.length)
  write body value

def writeStringF32 (value : List UInt8) : M Unit := do
  writeFuint32 host junk (UInt32.ofNat value.length)
  write body value

def writeStringF64 (value : List UInt8) : M Unit := do
  writeFuint64 host junk (UInt64.ofNat value.length)
  write body value

def writeStringVint (value : List UInt8) : M Unit := do
  writeUint64 junk (UInt64.ofNat value.length)
  write body value

def writeStringWithoutLength (value : List UInt8) : M Unit := write body value

end Write

section Read

variable (host : Endian)

/-- The macro `XX(type)` -/
def readF (n : Nat) : M (BitVec (8 * n)) := do
  let bs ← read n
  let s ← get
  let v := ofMem host n bs
  pure (if s.m_endian = host then v else byteswap v)

def readByte : M (BitVec (8 * 1)) := do
  let bs ← read 1
  pure (ofMem host 1 bs)

def readFint8 : M Int8 := do let v ← readByte host; pure ⟨⟨v⟩⟩
def readFuint8 : M UInt8 := do let v ← readByte host; pure ⟨v⟩
def readFint16 : M Int16 := do let v ← readF host 2; pure ⟨⟨v⟩⟩
def readFuint16 : M UInt16 := do let v ← readF host 2; pure ⟨v⟩
def readFint32 : M Int32 := do let v ← readF host 4; pure ⟨⟨v⟩⟩
def readFuint32 : M UInt32 := do let v ← readF host 4; pure ⟨v⟩
def readFint64 : M Int64 := do let v ← readF host 8; pure ⟨⟨v⟩⟩
def readFuint64 : M UInt64 := do let v ← readF host 8; pure ⟨v⟩

def DecodeZigzag32 (v : UInt32) : Int32 := ⟨⟨zigzagDecode v.toBitVec⟩⟩
def DecodeZigzag64 (v : UInt64) : Int64 := ⟨⟨zigzagDecode v.toBitVec⟩⟩

/-- The varint reads of `w` bits. -/
def readVarint (w : Nat) : M (BitVec w) := decodeGroups (readFuint8 host) (shifts w) 0#w

def readUint32 : M UInt32 := do let v ← readVarint host 32; pure ⟨v⟩
def readInt32 : M Int32 := do let v ← readUint32 host; pure (DecodeZigzag32 v)
def readUint64 : M UInt64 := do let v ← readVarint host 64; pure ⟨v⟩
def readInt64 : M Int64 := do let v ← readUint64 host; pure (DecodeZigzag64 v)

def readFloat : M UInt32 := readFuint32 host
def readDouble : M UInt64 := readFuint64 host

/- The string reads end in `read(&buff[0], len)`, which follows a null cursor when
`len` is 0 and the position at the end of the capacity.  `rd` is `read`, kept as
a parameter for what a read of no bytes is taken to do; `max_size` is
`std::string::max_size()`. -/
variable (rd : Nat → M (List UInt8)) (max_size : Nat)

/-- `buff.resize(len); read(&buff[0], len); return buff;` -/
def readString (len : Nat) : M (List UInt8) :=
  if len > max_size then throw .length_error else rd len

def readStringF16 : M (List UInt8) := do
  let len ← readFuint16 host
  readString rd max_size len.toNat

def readStringF32 : M (List UInt8) := do
  let len ← readFuint32 host
  readString rd max_size len.toNat

def readStringF64 : M (List UInt8) := do
  let len ← readFuint64 host
  readString rd max_size len.toNat

def readStringVint : M (List UInt8) := do
  let len ← readUint64 host
  readString rd max_size len.toNat

end Read

end ByteArray

/-! ### The formats -/

/-- The formats of single values, after the names their functions carry. -/
inductive Fmt
  | fint8 | fuint8 | fint16 | fuint16 | fint32 | fuint32 | fint64 | fuint64
  | int32 | uint32 | int64 | uint64
  | float | double
  deriving DecidableEq, Repr

namespace Fmt

/-- The values of a format. -/
abbrev Val : Fmt → Type
  | fint8 => Int8
  | fuint8 => UInt8
  | fint16 => Int16
  | fuint16 => UInt16
  | fint32 | int32 => Int32
  | fuint32 | uint32 | float => UInt32
  | fint64 | int64 => Int64
  | fuint64 | uint64 | double => UInt64

open Will.ByteArray

def write (host : Endian) (junk : Junk) : (fmt : Fmt) → fmt.Val → M Unit
  | fint8 => writeFint8 host junk
  | fuint8 => writeFuint8 host junk
  | fint16 => writeFint16 host junk
  | fuint16 => writeFuint16 host junk
  | fint32 => writeFint32 host junk
  | fuint32 => writeFuint32 host junk
  | fint64 => writeFint64 host junk
  | fuint64 => writeFuint64 host junk
  | int32 => writeInt32 junk
  | uint32 => writeUint32 junk
  | int64 => writeInt64 junk
  | uint64 => writeUint64 junk
  | float => writeFloat host junk
  | double => writeDouble host junk

def read (host : Endian) : (fmt : Fmt) → M fmt.Val
  | fint8 => readFint8 host
  | fuint8 => readFuint8 host
  | fint16 => readFint16 host
  | fuint16 => readFuint16 host
  | fint32 => readFint32 host
  | fuint32 => readFuint32 host
  | fint64 => readFint64 host
  | fuint64 => readFuint64 host
  | int32 => readInt32 host
  | uint32 => readUint32 host
  | int64 => readInt64 host
  | uint64 => readUint64 host
  | float => readFloat host
  | double => readDouble host

end Fmt

/-- The formats of strings, by what stands in front of the bytes. -/
inductive StrFmt
  | f16 | f32 | f64 | vint
  deriving DecidableEq, Repr

namespace StrFmt

open Will.ByteArray

def write (host : Endian) (junk body : Junk) (value : List UInt8) : StrFmt → M Unit
  | f16 => writeStringF16 host junk body value
  | f32 => writeStringF32 host junk body value
  | f64 => writeStringF64 host junk body value
  | vint => writeStringVint junk body value

def read (host : Endian) (rd : Nat → M (List UInt8)) (max_size : Nat) :
    StrFmt → M (List UInt8)
  | f16 => readStringF16 host rd max_size
  | f32 => readStringF32 host rd max_size
  | f64 => readStringF64 host rd max_size
  | vint => readStringVint host rd max_size

end StrFmt

end Will
