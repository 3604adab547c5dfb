import NetSettle.Program.BigEndian
import Mathlib.Algebra.Order.Ring.Nat

/-!
# Writing and reading big-endian numbers

Reading back what was written into `w` bytes gives the number without what is beyond `256 ^ w`, and
writing what was read from a byte string gives the byte string.
-/
namespace NetSettle

theorem ofBigEndian_bigEndian (w n : Nat) : ofBigEndian (bigEndian w n) = n % 256 ^ w := by
  induction w generalizing n with
  | zero => simp [bigEndian, ofBigEndian, Nat.mod_one]
  | succ w ih =>
    rw [bigEndian, ofBigEndian_concat, ih, Nat.pow_succ, Nat.mul_comm (256 ^ w) 256, Nat.mod_mul,
      UInt8.toNat_ofNat']
    omega

theorem ofBigEndian_bigEndian_of_lt {w n : Nat} (h : n < 256 ^ w) :
    ofBigEndian (bigEndian w n) = n := by
  rw [ofBigEndian_bigEndian, Nat.mod_eq_of_lt h]

theorem ofBigEndian_reverse_lt (bytes : List UInt8) :
    ofBigEndian bytes.reverse < 256 ^ bytes.length := by
  induction bytes with
  | nil => simp [ofBigEndian]
  | cons b bytes ih =>
    have hb := b.toNat_lt
    rw [List.reverse_cons, ofBigEndian_concat, List.length_cons, Nat.pow_succ]
    omega

theorem ofBigEndian_lt (bytes : List UInt8) : ofBigEndian bytes < 256 ^ bytes.length := by
  simpa using ofBigEndian_reverse_lt bytes.reverse

theorem bigEndian_ofBigEndian_reverse (bytes : List UInt8) :
    bigEndian bytes.length (ofBigEndian bytes.reverse) = bytes.reverse := by
  induction bytes with
  | nil => rfl
  | cons b bytes ih =>
    have hb := b.toNat_lt
    rw [List.reverse_cons, ofBigEndian_concat, List.length_cons, bigEndian,
      show (ofBigEndian bytes.reverse * 256 + b.toNat) / 256 = ofBigEndian bytes.reverse by omega,
      ih, List.append_cancel_left_eq, List.cons.injEq]
    refine ⟨UInt8.toNat_inj.1 ?_, rfl⟩
    rw [UInt8.toNat_ofNat']
    omega

theorem bigEndian_ofBigEndian (bytes : List UInt8) :
    bigEndian bytes.length (ofBigEndian bytes) = bytes := by
  simpa using bigEndian_ofBigEndian_reverse bytes.reverse

theorem bigEndian_one (b : UInt8) : bigEndian 1 b.toNat = [b] := by
  rw [bigEndian, bigEndian, UInt8.ofNat_toNat, List.nil_append]

end NetSettle
