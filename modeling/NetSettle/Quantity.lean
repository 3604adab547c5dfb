/-!
# Fixed-width quantities

An amount of tokens, a reserve or a number of liquidity shares has 128 bits; a balance and the
product of two amounts have 256; an address has 160, and addresses compare as numbers, which is
the order of their bytes. A `Delta` is a signed 256-bit number: what a caller owes a pool when
it is positive, what the pool owes the caller when it is negative.
-/
namespace NetSettle

-- The bounds below are built-in powers, whatever else a module imports.
attribute [default_instance 20000] instPowNat

abbrev Amount := BitVec 128

abbrev Word := BitVec 256

abbrev Address := BitVec 160

def Amount.max : Amount := BitVec.allOnes 128

def Amount.widen (a : Amount) : Word := a.setWidth 256

theorem Amount.toNat_widen (a : Amount) : (Amount.widen a).toNat = a.toNat := by
  have h := a.isLt
  simp only [Amount.widen, BitVec.toNat_setWidth]
  exact Nat.mod_eq_of_lt (by omega)

def Address.repeated (b : UInt8) : Address :=
  BitVec.ofNat 160 ((List.range 20).foldl (fun n _ => n * 256 + b.toNat) 0)

def Word.addSaturating (a b : Word) : Word :=
  if a.toNat + b.toNat < 2 ^ 256 then a + b else BitVec.allOnes 256

def Word.subSaturating (a b : Word) : Word :=
  if b ≤ a then a - b else 0

theorem Word.toNat_addSaturating (a b : Word) :
    (Word.addSaturating a b).toNat = min (a.toNat + b.toNat) (2 ^ 256 - 1) := by
  unfold Word.addSaturating
  split
  · rw [BitVec.toNat_add, Nat.mod_eq_of_lt (by assumption)]
    omega
  · rw [BitVec.toNat_allOnes]
    omega

theorem Word.toNat_subSaturating (a b : Word) :
    (Word.subSaturating a b).toNat = a.toNat - b.toNat := by
  unfold Word.subSaturating
  split
  · exact BitVec.toNat_sub_of_le (by assumption)
  · rename_i h
    have h' : a.toNat < b.toNat := Nat.lt_of_not_le h
    simp only [BitVec.ofNat_eq_ofNat, BitVec.toNat_ofNat, Nat.zero_mod]
    omega

structure Delta where
  val : Int
  inRange : -2 ^ 255 ≤ val ∧ val < 2 ^ 255
  deriving DecidableEq, Repr

namespace Delta

theorem ext_val {a b : Delta} (h : a.val = b.val) : a = b := by
  cases a
  cases b
  simpa using h

def ofInt? (n : Int) : Option Delta :=
  if h : -2 ^ 255 ≤ n ∧ n < 2 ^ 255 then some ⟨n, h⟩ else none

instance : OfNat Delta 0 := ⟨⟨0, by decide⟩⟩

theorem val_zero : (0 : Delta).val = 0 := rfl

def owedToPool (a : Amount) : Delta :=
  ⟨a.toNat, by have := a.isLt; omega⟩

def owedToCaller (a : Amount) : Delta :=
  ⟨-a.toNat, by have := a.isLt; omega⟩

def magnitude (d : Delta) : Word := BitVec.ofNat 256 d.val.natAbs

theorem toNat_magnitude (d : Delta) : d.magnitude.toNat = d.val.natAbs := by
  have h := d.inRange
  simp only [magnitude, BitVec.toNat_ofNat]
  exact Nat.mod_eq_of_lt (by omega)

end Delta

end NetSettle
