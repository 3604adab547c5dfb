import NetSettle.Proofs.Program.BigEndian
import NetSettle.Text.Hex
import Mathlib.Tactic.SplitIfs

/-!
# Hexadecimal texts read back

The text of an address is read back as the address, and the text of a word, which has no more digits
than it needs, as the word.
-/
namespace NetSettle

namespace Hex

theorem digit_ne_mark {n : Nat} (h : n < 16) : digit n ≠ 'x' ∧ digit n ≠ 'X' := by
  have : ∀ n < 16, digit n ≠ 'x' ∧ digit n ≠ 'X' := by decide
  exact this n h

theorem dropMark_pairs (bytes : List UInt8) : dropMark (pairs bytes) = pairs bytes := by
  cases bytes with
  | nil => rfl
  | cons b bytes =>
    obtain ⟨hx, hX⟩ := digit_ne_mark (Nat.mod_lt b.toNat (show 0 < 16 by decide))
    rw [pairs, dropMark]
    · intro rest heq
      exact hx (List.cons.inj (List.cons.inj heq).2).1
    · intro rest heq
      exact hX (List.cons.inj (List.cons.inj heq).2).1

theorem ofChars?_pairs (bytes : List UInt8) : ofChars? (pairs bytes) = some bytes := by
  rw [ofChars?, dropMark_pairs, ofPairs?_pairs]

theorem fixed?_encode {width n : Nat} (h : n < 256 ^ width) :
    fixed? width (encode (bigEndian width n)) = some n := by
  have hdecode : decode? (encode (bigEndian width n)) = some (bigEndian width n) := by
    rw [decode?, encode, String.toList_ofList, ofChars?_chars]
  rw [fixed?, hdecode, Option.bind_eq_bind, Option.bind_some, if_pos (length_bigEndian ..),
    ofBigEndian_bigEndian_of_lt h]

end Hex

theorem Address.ofHex?_toHex (a : Address) : Address.ofHex? (Address.toHex a) = some a := by
  have hlt : a.toNat < 256 ^ 20 := a.isLt
  rw [ofHex?, toHex, Hex.fixed?_encode hlt, Option.map_some, BitVec.ofNat_toNat,
    BitVec.setWidth_eq]

theorem numeral?_digitChar {d : Nat} (h : d < 16) :
    numeral? (Nat.digitChar d) = some d ∧ Nat.digitChar d ≠ '_' := by
  have : ∀ d < 16, numeral? (Nat.digitChar d) = some d ∧ Nat.digitChar d ≠ '_' := by decide
  exact this d h

theorem numberFrom?_cons {c : Char} (hc : c ≠ '_') (base n : Nat) (rest : List Char) :
    numberFrom? base n (c :: rest) = match numeral? c with
      | some d => if d < base then numberFrom? base (n * base + d) rest else none
      | none => none :=
  numberFrom?.eq_3 base n c rest hc

theorem numberFrom?_concat_digitChar {base d : Nat} (hbase : base ≤ 16) (hd : d < base) (n : Nat)
    (cs : List Char) :
    numberFrom? base n (cs ++ [Nat.digitChar d]) =
      (numberFrom? base n cs).map (· * base + d) := by
  induction cs generalizing n with
  | nil =>
    obtain ⟨hnumeral, hne⟩ := numeral?_digitChar (Nat.lt_of_lt_of_le hd hbase)
    rw [List.nil_append, numberFrom?_cons hne, hnumeral]
    exact if_pos hd
  | cons c cs ih =>
    rw [List.cons_append]
    by_cases hc : c = '_'
    · subst hc
      exact ih n
    · rw [numberFrom?_cons hc, numberFrom?_cons hc]
      cases numeral? c with
      | none => rfl
      | some e =>
        dsimp only
        split_ifs
        · exact ih _
        · rfl

theorem numberFrom?_toDigits {base : Nat} (hbase : 1 < base ∧ base ≤ 16) (n : Nat) :
    numberFrom? base 0 (Nat.toDigits base n) = some n := by
  induction n using Nat.strongRecOn with
  | ind n ih =>
    rw [Nat.toDigits_eq_if hbase.1]
    split
    · rename_i hlt
      have h := numberFrom?_concat_digitChar hbase.2 hlt 0 []
      rwa [List.nil_append, numberFrom?, Option.map_some, Nat.zero_mul, Nat.zero_add] at h
    · rename_i hle
      rw [numberFrom?_concat_digitChar hbase.2 (Nat.mod_lt _ (by omega)),
        ih _ (Nat.div_lt_self (by omega) hbase.1), Option.map_some, Nat.div_add_mod']

theorem Word.ofText?_toHex (w : Word) : Word.ofText? (Word.toHex w) = some w := by
  have hnumber : number? ('0' :: 'x' :: Nat.toDigits 16 w.toNat) = some w.toNat :=
    numberFrom?_toDigits (by decide) w.toNat
  rw [ofText?, toHex, String.toList_ofList, hnumber, Option.bind_eq_bind, Option.bind_some,
    if_pos w.isLt, BitVec.ofNat_toNat, BitVec.setWidth_eq]

end NetSettle
