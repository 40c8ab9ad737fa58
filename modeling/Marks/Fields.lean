import Mathlib.Algebra.Ring.Nat
import Mathlib.Data.List.Basic

/-! # Fields of fixed width

A record of a binary format is a row of numbers, each written in so many bytes, the lowest first. A number that needs
more is reduced, and one that fits is read back. -/

namespace Fields

structure Field where
  width : Nat
  value : Nat
deriving DecidableEq, Repr

def Field.Fits (field : Field) : Prop := field.value < 256 ^ field.width

instance (field : Field) : Decidable field.Fits := inferInstanceAs (Decidable (_ < _))

def littleEndian : Nat → Nat → List UInt8
  | 0, _ => []
  | width + 1, value => UInt8.ofNat value :: littleEndian width (value / 256)

def write (fields : List Field) : List UInt8 := fields.flatMap fun field => littleEndian field.width field.value

def readNumber : Nat → List UInt8 → Option (Nat × List UInt8)
  | 0, bytes => some (0, bytes)
  | _ + 1, [] => none
  | width + 1, byte :: rest => (readNumber width rest).map fun (value, rest) => (byte.toNat + 256 * value, rest)

/-- The numbers of a record, and what is behind it. -/
def read : List Nat → List UInt8 → Option (List Nat × List UInt8)
  | [], bytes => some ([], bytes)
  | width :: widths, bytes =>
    (readNumber width bytes).bind fun (value, rest) => (read widths rest).map fun (values, rest) => (value :: values, rest)

theorem littleEndian_length (width value : Nat) : (littleEndian width value).length = width := by
  induction width generalizing value with
  | zero => rfl
  | succ width ih => exact congrArg (· + 1) (ih (value / 256))

theorem readNumber_littleEndian {width value : Nat} (h : value < 256 ^ width) (rest : List UInt8) :
    readNumber width (littleEndian width value ++ rest) = some (value, rest) := by
  induction width generalizing value with
  | zero =>
    have hzero : value = 0 := by simpa using h
    rw [hzero]
    rfl
  | succ width ih =>
    have hnext : value / 256 < 256 ^ width := Nat.div_lt_of_lt_mul (by rw [Nat.pow_succ'] at h; exact h)
    show (readNumber width (littleEndian width (value / 256) ++ rest)).map _ = _
    rw [ih hnext, Option.map_some]
    show some ((UInt8.ofNat value).toNat + 256 * (value / 256), rest) = _
    rw [UInt8.toNat_ofNat', Nat.mod_add_div]

theorem read_write {fields : List Field} (h : ∀ field ∈ fields, field.Fits) (rest : List UInt8) :
    read (fields.map Field.width) (write fields ++ rest) = some (fields.map Field.value, rest) := by
  induction fields with
  | nil => rfl
  | cons field fields ih =>
    have hcons : write (field :: fields) = littleEndian field.width field.value ++ write fields := rfl
    rw [hcons, List.append_assoc, List.map_cons, List.map_cons]
    show (readNumber field.width _).bind _ = _
    rw [readNumber_littleEndian (h field List.mem_cons_self), Option.bind_some]
    dsimp only
    rw [ih fun other hother => h other (List.mem_cons_of_mem field hother), Option.map_some]

theorem write_length (fields : List Field) : (write fields).length = (fields.map Field.width).sum := by
  induction fields with
  | nil => rfl
  | cons field fields ih =>
    have hcons : write (field :: fields) = littleEndian field.width field.value ++ write fields := rfl
    rw [hcons, List.length_append, littleEndian_length, ih, List.map_cons, List.sum_cons]

end Fields
