import RingCall.Bytes

/-!
# Primitive types

The scalar types that cross the ring. Each has a width in bytes and is written as the little-endian
bytes of its bit pattern. Signed numbers are in two's complement, floating-point numbers are carried
as their bit pattern and never computed with, and the machine word has eight bytes.

Reading is partial for booleans alone, whose byte must be 0 or 1 (`Prim.ofBits?`); what `Prim.bits`
writes is always read back (`ofBits?_bits`).
-/

namespace RingCall.Wire

/-- A scalar type. -/
inductive Prim where
  | u8 | u16 | u32 | u64 | usize
  | i8 | i16 | i32 | i64 | isize
  | f32 | f64
  | bool
  | unit
  deriving DecidableEq, Repr

namespace Prim

/-- The bytes that a value takes. -/
def width : Prim → Nat
  | unit => 0
  | u8 | i8 | bool => 1
  | u16 | i16 => 2
  | u32 | i32 | f32 => 4
  | u64 | i64 | usize | isize | f64 => 8

/-- The values of a scalar type. A floating-point number is its bit pattern. -/
def Value : Prim → Type
  | u8 => UInt8
  | u16 => UInt16
  | u32 | f32 => UInt32
  | u64 | usize | f64 => UInt64
  | i8 => Int8
  | i16 => Int16
  | i32 => Int32
  | i64 | isize => Int64
  | bool => Bool
  | unit => Unit

/-- The bit pattern of a value, as a number. -/
def bits : (p : Prim) → p.Value → Nat
  | u8, (v : UInt8) => v.toNat
  | u16, (v : UInt16) => v.toNat
  | u32, (v : UInt32) | f32, (v : UInt32) => v.toNat
  | u64, (v : UInt64) | usize, (v : UInt64) | f64, (v : UInt64) => v.toNat
  | i8, (v : Int8) => v.toUInt8.toNat
  | i16, (v : Int16) => v.toUInt16.toNat
  | i32, (v : Int32) => v.toUInt32.toNat
  | i64, (v : Int64) | isize, (v : Int64) => v.toUInt64.toNat
  | bool, (v : Bool) => v.toNat
  | unit, _ => 0

/-- The value with a given bit pattern. Only a boolean can have none. -/
def ofBits? : (p : Prim) → Nat → Option p.Value
  | u8, n => some (UInt8.ofNat n)
  | u16, n => some (UInt16.ofNat n)
  | u32, n | f32, n => some (UInt32.ofNat n)
  | u64, n | usize, n | f64, n => some (UInt64.ofNat n)
  | i8, n => some (UInt8.ofNat n).toInt8
  | i16, n => some (UInt16.ofNat n).toInt16
  | i32, n => some (UInt32.ofNat n).toInt32
  | i64, n | isize, n => some (UInt64.ofNat n).toInt64
  | bool, 0 => some false
  | bool, 1 => some true
  | bool, _ => none
  | unit, _ => some ()

/-- The bytes of a value in memory. -/
def toBytes (p : Prim) (v : p.Value) : List UInt8 :=
  RingCall.toBytes p.width (p.bits v)

@[simp]
theorem length_toBytes (p : Prim) (v : p.Value) : (p.toBytes v).length = p.width :=
  RingCall.length_toBytes _ _

theorem bits_lt (p : Prim) (v : p.Value) : p.bits v < byteRange p.width := by
  cases p with
  | u8 => exact UInt8.toNat_lt v
  | u16 => exact UInt16.toNat_lt v
  | u32 | f32 => exact UInt32.toNat_lt v
  | u64 | usize | f64 => exact UInt64.toNat_lt v
  | i8 => exact UInt8.toNat_lt (Int8.toUInt8 v)
  | i16 => exact UInt16.toNat_lt (Int16.toUInt16 v)
  | i32 => exact UInt32.toNat_lt (Int32.toUInt32 v)
  | i64 | isize => exact UInt64.toNat_lt (Int64.toUInt64 v)
  | bool => exact Nat.lt_of_le_of_lt (Bool.toNat_le v) (by decide)
  | unit => exact Nat.one_pos

theorem ofBits?_bits (p : Prim) (v : p.Value) : p.ofBits? (p.bits v) = some v := by
  cases p with
  | u8 => exact congrArg some (UInt8.ofNat_toNat (x := v))
  | u16 => exact congrArg some (UInt16.ofNat_toNat (x := v))
  | u32 | f32 => exact congrArg some (UInt32.ofNat_toNat (x := v))
  | u64 | usize | f64 => exact congrArg some (UInt64.ofNat_toNat (x := v))
  | i8 => exact congrArg (fun u ↦ some (UInt8.toInt8 u)) (UInt8.ofNat_toNat (x := Int8.toUInt8 v))
  | i16 =>
    exact congrArg (fun u ↦ some (UInt16.toInt16 u)) (UInt16.ofNat_toNat (x := Int16.toUInt16 v))
  | i32 =>
    exact congrArg (fun u ↦ some (UInt32.toInt32 u)) (UInt32.ofNat_toNat (x := Int32.toUInt32 v))
  | i64 | isize =>
    exact congrArg (fun u ↦ some (UInt64.toInt64 u)) (UInt64.ofNat_toNat (x := Int64.toUInt64 v))
  | bool => cases (v : Bool) <;> rfl
  | unit => rfl

end Prim

end RingCall.Wire
