import FiberConn.DataTypes
import FiberConn.Lib.Lanes

set_option autoImplicit false

/-! # UUIDs (`uuid_v4.h`)

Every `Clientconnection` draws a UUID and is known by its sixteen bytes. The class keeps them in a
vector register and converts to and from text with AVX2 instructions, which are translated here one
by one: first the instructions, as their manual describes them, then the functions of the header
that use them. The header is for x86, so the `betole` conversions are the identity.

`canonical` and `parse` say without vectors what the text form is: lower-case hexadecimal digits,
two for each byte, in groups of 8-4-4-4-12. -/

namespace FiberConn

namespace UUIDv4

abbrev M128i := BitVec 128
abbrev M256i := BitVec 256

/-! ## The instructions -/

def mm256Set1Epi8 (b : BitVec 8) : M256i := ofLanes 256 8 fun _ => b

def mm256SetEpi32 (e7 e6 e5 e4 e3 e2 e1 e0 : BitVec 32) : M256i :=
  e7 ++ e6 ++ e5 ++ e4 ++ e3 ++ e2 ++ e1 ++ e0

def mm256SetEpi64x (e3 e2 e1 e0 : BitVec 64) : M256i := e3 ++ e2 ++ e1 ++ e0

def mmSetEpi64x (e1 e0 : BitVec 64) : M128i := e1 ++ e0

/-- The upper half is undefined. -/
def mm256Castsi128 (undefined x : M128i) : M256i := undefined ++ x

def mm256Castsi256 (x : M256i) : M128i := lane 128 x 0

def mm256AddEpi8 : M256i → M256i → M256i := zipLanes 8 (· + ·)

def mm256SubEpi8 : M256i → M256i → M256i := zipLanes 8 (· - ·)

def mm256SrliEpi64 (x : M256i) (count : ℕ) : M256i := mapLanes 64 (· >>> count) x

def mm256SlliEpi64 (x : M256i) (count : ℕ) : M256i := mapLanes 64 (· <<< count) x

def mm256SllvEpi32 : M256i → M256i → M256i := zipLanes 32 fun x count => x <<< count.toNat

/-- The low eight bytes of each half, those of `a` and `b` in turn. -/
def mm256UnpackloEpi8 (a b : M256i) : M256i := ofLanes 256 8 fun i =>
  lane 8 (if i % 2 = 0 then a else b) (i / 16 * 16 + i % 16 / 2)

/-- The high eight bytes of each half. -/
def mm256UnpackhiEpi8 (a b : M256i) : M256i := ofLanes 256 8 fun i =>
  lane 8 (if i % 2 = 0 then a else b) (i / 16 * 16 + 8 + i % 16 / 2)

def mm256Inserti128 (x : M256i) (y : M128i) (index : ℕ) : M256i := ofLanes 256 128 fun i =>
  if i = index then y else lane 128 x i

def mm256InsertEpi16 (x : M256i) (y : BitVec 16) (index : ℕ) : M256i := ofLanes 256 16 fun i =>
  if i = index then y else lane 16 x i

def mm256InsertEpi32 (x : M256i) (y : BitVec 32) (index : ℕ) : M256i := ofLanes 256 32 fun i =>
  if i = index then y else lane 32 x i

def mm256ExtractEpi16 (x : M256i) (index : ℕ) : BitVec 16 := lane 16 x index

def mm256ExtractEpi32 (x : M256i) (index : ℕ) : BitVec 32 := lane 32 x index

/-- Each byte is chosen by the top bit of the mask's. -/
def mm256BlendvEpi8 (a b mask : M256i) : M256i := ofLanes 256 8 fun i =>
  lane 8 (if (lane 8 mask i).getLsbD 7 then b else a) i

/-- Bytes move within each half: to where the control says, or away if its top bit is set. -/
def mm256ShuffleEpi8 (x control : M256i) : M256i := ofLanes 256 8 fun i =>
  if (lane 8 control i).getLsbD 7 then 0#8
  else lane 8 x (i / 16 * 16 + (lane 8 control i).toNat % 16)

/-- In each half the two sums of neighbours in `a`, then those in `b`. -/
def mm256HaddEpi32 (a b : M256i) : M256i := ofLanes 256 32 fun i =>
  let x := if i % 4 < 2 then a else b
  let first := i / 4 * 4 + i % 2 * 2
  lane 32 x first + lane 32 x (first + 1)

def mm256Permute4x64 (x : M256i) (imm : ℕ) : M256i := ofLanes 256 64 fun i =>
  lane 64 x (imm / 4 ^ i % 4)

/-! ## Text and back -/

/-- `m128itos`, up to `res`: the hexadecimal digits of the bytes of `x`. -/
def hexDigits (undefined x : M128i) : M256i :=
  let mask := mm256Set1Epi8 0x0F#8
  let add := mm256Set1Epi8 0x06#8
  let alphaMask := mm256Set1Epi8 0x10#8
  let alphaOffset := mm256Set1Epi8 0x57#8
  let a := mm256Castsi128 undefined x
  let as := mm256SrliEpi64 a 4
  let lo := mm256UnpackloEpi8 as a
  let hi := mm256Castsi256 (mm256UnpackhiEpi8 as a)
  let c := mm256Inserti128 lo hi 1
  let d := c &&& mask
  let alpha := mm256SlliEpi64 (mm256AddEpi8 d add &&& alphaMask) 3
  let offset := mm256BlendvEpi8 (mm256SlliEpi64 add 3) alphaOffset alpha
  mm256AddEpi8 d offset

/-- `dash_shuffle` of `m128itos`. -/
def itosDashShuffle : M256i :=
  mm256SetEpi32 0x0b0a0908#32 0x07060504#32 0x80030201#32 0x00808080#32
    0x0d0c800b#32 0x0a090880#32 0x07060504#32 0x03020100#32

/-- `dash` of `m128itos`. -/
def itosDash : M256i :=
  mm256SetEpi64x 0x0000000000000000#64 0x2d000000002d0000#64
    0x00002d000000002d#64 0x0000000000000000#64

/-- `m128itos`: three stores, the last two over what the first could not hold. -/
def m128itos (undefined x : M128i) (mem : Memory) : Memory :=
  let res := hexDigits undefined x
  let resd := mm256ShuffleEpi8 res itosDashShuffle ||| itosDash
  ((mem.store 0 resd).store 16 (mm256ExtractEpi16 res 7)).store 32 (mm256ExtractEpi32 res 7)

/-- `dash_shuffle` of `stom128i`. -/
def stoiDashShuffle : M256i :=
  mm256SetEpi32 0x80808080#32 0x0f0e0d0c#32 0x0b0a0908#32 0x06050403#32
    0x80800f0e#32 0x0c0b0a09#32 0x07060504#32 0x03020100#32

/-- `stom128i`, the first part: the 32 digits, without the dashes. -/
def packDigits (mem : Memory) : M256i :=
  let x := mem.load 256 0
  let x := mm256ShuffleEpi8 x stoiDashShuffle
  let x := mm256InsertEpi16 x (mem.load 16 16) 7
  mm256InsertEpi32 x (mem.load 32 32) 7

/-- `stom128i`, the second part: the value of each digit. -/
def digitValues (x : M256i) : M256i :=
  let sub := mm256Set1Epi8 0x2F#8
  let mask := mm256Set1Epi8 0x20#8
  let alphaOffset := mm256Set1Epi8 0x28#8
  let digitsOffset := mm256Set1Epi8 0x01#8
  let a := mm256SubEpi8 x sub
  let alpha := mm256SlliEpi64 (a &&& mask) 2
  let subMask := mm256BlendvEpi8 digitsOffset alphaOffset alpha
  mm256SubEpi8 a subMask

/-- `unweave` and `shift` of `stom128i`. -/
def unweave : M256i :=
  mm256SetEpi32 0x0f0d0b09#32 0x0e0c0a08#32 0x07050301#32 0x06040200#32
    0x0f0d0b09#32 0x0e0c0a08#32 0x07050301#32 0x06040200#32

def shift : M256i := mm256SetEpi32 0#32 4#32 0#32 4#32 0#32 4#32 0#32 4#32

/-- `stom128i`; the last part adds up the two digits of each byte. -/
def stom128i (mem : Memory) : M128i :=
  let a := digitValues (packDigits mem)
  let a := mm256ShuffleEpi8 a unweave
  let a := mm256SllvEpi32 a shift
  let a := mm256HaddEpi32 a 0#256
  let a := mm256Permute4x64 a 0b00001000
  mm256Castsi256 a

/-! ## The class -/

/-- `UUID`, with its sixteen bytes as a register. -/
structure UUID where
  data : M128i
deriving DecidableEq

/-- `std::string::c_str()`: the characters, a zero, and whatever comes after. -/
def cString (s : Bytes) (beyond : Memory) : Memory := fun i =>
  if h : i < s.length then s[i] else if i = s.length then 0 else beyond i

namespace UUID

/-- The first `k` bytes written to a buffer. -/
def written (k : ℕ) (mem : Memory) : Bytes := (List.range k).map mem

/-- `UUID(const std::string &bytes)`, on the characters `bytes.data()` points to. -/
def ofBytes (bytes : Memory) : UUID := ⟨bytes.load 128 0⟩

/-- `bytes()`. -/
def bytes (u : UUID) : Bytes := written 16 (Memory.store (fun _ => 0) 0 u.data)

/-- A `connectionId`: the bytes as a string, with a character for each. -/
def connectionId (u : UUID) : String := String.ofList (u.bytes.map fun b => Char.ofNat b.toNat)

/-- `fromStr` and `fromStrFactory`. -/
def fromStr (raw : Memory) : UUID := ⟨stom128i raw⟩

/-- `str()`: the string is first resized to 36 zeros. -/
def str (undefined : M128i) (u : UUID) : Bytes :=
  written 36 (m128itos undefined u.data fun _ => 0)

/-- `std::isspace`. -/
def isSpace (c : UInt8) : Bool := c = 0x20 ∨ 0x09 ≤ c ∧ c ≤ 0x0d

/-- `operator>>`: one word of the stream, and the rest of it. -/
def read (stream : Bytes) (beyond : Memory) : UUID × Bytes :=
  let stream := stream.dropWhile isSpace
  let s := stream.takeWhile (!isSpace ·)
  (fromStr (cString s beyond), stream.dropWhile (!isSpace ·))

end UUID

/-- `and_mask` and `or_mask` of `getUUID`. -/
def andMask : M128i := mmSetEpi64x 0xFFFFFFFFFFFFFF3F#64 0xFF0FFFFFFFFFFFFF#64

def orMask : M128i := mmSetEpi64x 0x0000000000000080#64 0x0040000000000000#64

/-- `getUUID`, on the two numbers drawn. -/
def getUUID (first second : BitVec 64) : UUID :=
  let n := mmSetEpi64x first second
  ⟨n &&& andMask ||| orMask⟩

/-! ## The text form -/

/-- The lower-case digit of `v < 16`. -/
def hexDigit (v : ℕ) : UInt8 := .ofNat (if v < 10 then 0x30 + v else 0x57 + v)

def hexByte (b : UInt8) : Bytes := [hexDigit (b.toNat / 16), hexDigit (b.toNat % 16)]

def dash : UInt8 := 0x2d

/-- The text form of RFC 4122: groups of 4, 2, 2, 2 and 6 bytes. -/
def UUID.canonical (u : UUID) : Bytes :=
  let group (first count : ℕ) : Bytes := ((u.bytes.drop first).take count).flatMap hexByte
  group 0 4 ++ dash :: group 4 2 ++ dash :: group 6 2 ++ dash :: group 8 2 ++ dash :: group 10 6

/-- The value of a hexadecimal digit of either case. -/
def hexValue (c : UInt8) : Option ℕ :=
  if 0x30 ≤ c ∧ c ≤ 0x39 then some (c.toNat - 0x30)
  else if 0x61 ≤ c ∧ c ≤ 0x66 then some (c.toNat - 0x57)
  else if 0x41 ≤ c ∧ c ≤ 0x46 then some (c.toNat - 0x37)
  else none

/-- An upper-case letter among the hexadecimal digits. -/
def UpperDigit (c : UInt8) : Prop := 0x41 ≤ c ∧ c ≤ 0x46

/-- Where the `i`-th digit stands in the text: every dash before it moves it by one. -/
def digitPlace (i : ℕ) : ℕ := i + [8, 12, 16, 20].countP (· ≤ i)

/-- The UUID a text spells, if there is a digit in each of the 32 places. -/
def UUID.parse (raw : Memory) : Option UUID :=
  let value (i : ℕ) : ℕ := (hexValue (raw (digitPlace i))).getD 0
  if ∀ i < 32, (hexValue (raw (digitPlace i))).isSome then
    some ⟨ofLanes 128 8 fun k => .ofNat 8 (16 * value (2 * k) + value (2 * k + 1))⟩
  else none

/-- Version 4, variant 1. -/
def UUID.IsRandom (u : UUID) : Prop :=
  lane 4 u.data 13 = 4#4 ∧ lane 2 u.data 35 = 2#2

instance (u : UUID) : Decidable u.IsRandom := inferInstanceAs (Decidable (_ ∧ _))

end UUIDv4

end FiberConn
