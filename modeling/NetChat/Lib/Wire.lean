/-
The wire format of protocol buffers, written: base-128 varints, tags, and the
fields of a proto3 message, a scalar or string field being left out when it
holds its default. What is proved is how long it all comes out, for the field
numbers below 16, whose tags take one byte.
-/
import Mathlib.Algebra.Group.Int.Defs
import Mathlib.Algebra.GroupWithZero.Nat
import Mathlib.Data.List.Basic

namespace Wire

/-! ## Varints -/

/-- Seven bits a byte, the low ones first, the high bit set on all bytes but
the last; `fuel` more bytes may follow the first. -/
def varintAux : Nat → Nat → List UInt8
  | 0, n => [UInt8.ofNat n]
  | fuel + 1, n => if n < 128 then [UInt8.ofNat n] else UInt8.ofNat (n % 128 + 128) :: varintAux fuel (n / 128)

/-- A value of 64 bits, which ten bytes hold. -/
def varint (n : Nat) : List UInt8 := varintAux 9 n

theorem length_varintAux_pos (fuel n : Nat) : 0 < (varintAux fuel n).length := by
  cases fuel with
  | zero => simp [varintAux]
  | succ fuel =>
    unfold varintAux
    split <;> simp

theorem length_varintAux_le (fuel n : Nat) : (varintAux fuel n).length ≤ fuel + 1 := by
  induction fuel generalizing n with
  | zero => simp [varintAux]
  | succ fuel ih =>
    unfold varintAux
    split
    · simp
    · have := ih (n / 128)
      simp only [List.length_cons]
      omega

/-- A value below `128 ^ k` takes `k` bytes at most. -/
theorem length_varintAux_lt {fuel n k : Nat} (h : n < 128 ^ (k + 1)) : (varintAux fuel n).length ≤ k + 1 := by
  induction fuel generalizing n k with
  | zero => simp [varintAux]
  | succ fuel ih =>
    unfold varintAux
    split
    · simp
    · rename_i hn
      cases k with
      | zero => omega
      | succ k =>
        have := ih (n := n / 128) (k := k) (by
          rw [Nat.div_lt_iff_lt_mul (by decide)]
          rwa [Nat.pow_succ] at h)
        simp only [List.length_cons]
        omega

/-- A larger value takes as many bytes at least. -/
theorem length_varintAux_mono {fuel n m : Nat} (h : n ≤ m) : (varintAux fuel n).length ≤ (varintAux fuel m).length := by
  induction fuel generalizing n m with
  | zero => simp [varintAux]
  | succ fuel ih =>
    unfold varintAux
    split
    · split <;> simp
    · rw [if_neg (show ¬ m < 128 by omega)]
      simp only [List.length_cons, Nat.add_le_add_iff_right]
      exact ih (Nat.div_le_div_right h)

theorem length_varint_mono {n m : Nat} (h : n ≤ m) : (varint n).length ≤ (varint m).length := length_varintAux_mono h

theorem length_varint_pos (n : Nat) : 0 < (varint n).length := length_varintAux_pos 9 n

theorem length_varint_le (n : Nat) : (varint n).length ≤ 10 := length_varintAux_le 9 n

theorem length_varint_lt {n k : Nat} (h : n < 128 ^ (k + 1)) : (varint n).length ≤ k + 1 := length_varintAux_lt h

theorem length_varint_one {n : Nat} (h : n < 128) : (varint n).length = 1 := by
  have hle := length_varint_lt (n := n) (k := 0) (by simpa using h)
  have := length_varint_pos n
  omega

/-! ## Fields -/

/-- The tag of field `num` with wire type `wire`. -/
def tag (num wire : Nat) : List UInt8 := varint (num * 8 + wire)

/-- A length-delimited field, present whatever it holds: a message that is set,
or one of a repeated field. -/
def messageField (num : Nat) (b : List UInt8) : List UInt8 := tag num 2 ++ varint b.length ++ b

def repeatedField (num : Nat) (bs : List (List UInt8)) : List UInt8 := bs.flatMap (messageField num)

/-- A `string` or `bytes` field. -/
def stringField (num : Nat) (s : List UInt8) : List UInt8 := if s = [] then [] else messageField num s

def uint64Field (num n : Nat) : List UInt8 := if n = 0 then [] else tag num 0 ++ varint n

/-- The 64 bits an `int32` is written as: a negative one is sign-extended. -/
def signExtend (v : Int32) : Nat := (v.toInt % 2 ^ 64).toNat

def int32Field (num : Nat) (v : Int32) : List UInt8 := uint64Field num (signExtend v)

def boolField (num : Nat) (b : Bool) : List UInt8 := uint64Field num b.toNat

/-- A packed repeated `int32` field. -/
def packedField (num : Nat) (vs : List Int32) : List UInt8 :=
  stringField num (vs.flatMap fun v => varint (signExtend v))

/-! ## Lengths -/

/-- The length of a length-delimited field around `n` bytes. -/
def fieldSize (n : Nat) : Nat := 1 + (varint n).length + n

theorem fieldSize_le (n : Nat) : fieldSize n ≤ n + 11 := by
  have := length_varint_le n
  unfold fieldSize
  omega

/-- A field grows at least as its content does. -/
theorem fieldSize_add_le (n k : Nat) : fieldSize n + k ≤ fieldSize (n + k) := by
  have := length_varint_mono (Nat.le_add_right n k)
  unfold fieldSize
  omega

theorem fieldSize_mono {n m : Nat} (h : n ≤ m) : fieldSize n ≤ fieldSize m := by
  have := fieldSize_add_le n (m - n)
  rw [Nat.add_sub_cancel' h] at this
  omega

theorem length_tag {num wire : Nat} (hn : num < 16) (hw : wire < 8) : (tag num wire).length = 1 :=
  length_varint_one (by omega)

theorem length_messageField {num : Nat} (hn : num < 16) (b : List UInt8) :
    (messageField num b).length = fieldSize b.length := by
  simp only [messageField, fieldSize, List.length_append, length_tag hn (by decide : 2 < 8)]

theorem length_repeatedField {num : Nat} (hn : num < 16) (bs : List (List UInt8)) :
    (repeatedField num bs).length = (bs.map fun b => fieldSize b.length).sum := by
  simp only [repeatedField, List.length_flatMap, length_messageField hn]

/-- The length of a `string` field. -/
def stringSize (n : Nat) : Nat := if n = 0 then 0 else fieldSize n

theorem length_stringField {num : Nat} (hn : num < 16) (s : List UInt8) :
    (stringField num s).length = stringSize s.length := by
  unfold stringField stringSize
  split <;> simp_all [length_messageField]

theorem stringSize_le (n : Nat) : stringSize n ≤ n + 11 := by
  have := fieldSize_le n
  unfold stringSize
  split <;> omega

theorem stringSize_add_le (n k : Nat) : stringSize n + k ≤ stringSize (n + k) := by
  have := fieldSize_add_le n k
  unfold stringSize
  split <;> split <;> omega

theorem stringSize_mono {n m : Nat} (h : n ≤ m) : stringSize n ≤ stringSize m := by
  have := stringSize_add_le n (m - n)
  rw [Nat.add_sub_cancel' h] at this
  omega

theorem length_uint64Field_le {num : Nat} (hn : num < 16) (n : Nat) : (uint64Field num n).length ≤ 11 := by
  have := length_varint_le n
  unfold uint64Field
  split
  · simp
  · simp only [List.length_append, length_tag hn (by decide : 0 < 8)]
    omega

theorem length_int32Field_le {num : Nat} (hn : num < 16) (v : Int32) : (int32Field num v).length ≤ 11 :=
  length_uint64Field_le hn _

theorem length_boolField_le {num : Nat} (hn : num < 16) (b : Bool) : (boolField num b).length ≤ 2 := by
  cases b with
  | false => simp [boolField, uint64Field]
  | true => simp [boolField, uint64Field, length_tag hn (by decide : 0 < 8), length_varint_one (by decide : 1 < 128)]

end Wire
