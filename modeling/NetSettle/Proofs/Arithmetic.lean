import NetSettle.Arithmetic
import NetSettle.Proofs.Faulting
import Mathlib.Algebra.Order.Floor.Div
import Mathlib.Data.Nat.Sqrt
import Mathlib.Tactic.Linarith
import Mathlib.Tactic.Ring

/-!
# What checked arithmetic computes

Each operation that ends well gives the number that it names: products do not wrap, quotients are
rounded the way they say, and Newton's iteration ends at the integer square root, for every word.
-/
namespace NetSettle

theorem toNat_widen_mul (a b : Amount) :
    (Amount.widen a * Amount.widen b).toNat = a.toNat * b.toNat := by
  have hlt : a.toNat * b.toNat < 2 ^ 128 * 2 ^ 128 := Nat.mul_lt_mul'' a.isLt b.isLt
  rw [BitVec.toNat_mul, Amount.toNat_widen, Amount.toNat_widen, Nat.mod_eq_of_lt (by omega)]

theorem mulDivDown_eq_ok {a b d : Amount} {w : Word} (h : mulDivDown a b d = .ok w) :
    d ≠ 0 ∧ w.toNat = a.toNat * b.toNat / d.toNat := by
  unfold mulDivDown at h
  split at h
  · cases h
  · rename_i hd
    cases h
    refine ⟨hd, ?_⟩
    rw [BitVec.toNat_udiv, toNat_widen_mul, Amount.toNat_widen]

theorem divUp_eq_ok {n d w : Word} (h : divUp n d = .ok w) :
    d ≠ 0 ∧ w.toNat = n.toNat ⌈/⌉ d.toNat := by
  unfold divUp at h
  split at h
  · cases h
  · rename_i hd
    have hd' : d.toNat ≠ 0 := fun h0 => hd (BitVec.eq_of_toNat_eq (by simpa using h0))
    have hdm := Nat.div_add_mod n.toNat d.toNat
    refine ⟨hd, ?_⟩
    rw [Nat.ceilDiv_eq_add_pred_div]
    split at h
    · rename_i hmod
      have hmod' : n.toNat % d.toNat = 0 := by
        rw [← BitVec.toNat_umod, hmod]
        rfl
      cases h
      rw [BitVec.toNat_udiv]
      symm
      apply Nat.div_eq_of_lt_le
      · rw [Nat.mul_comm]
        omega
      · rw [Nat.add_mul, Nat.mul_comm]
        omega
    · rename_i hmod
      have hmod' : n.toNat % d.toNat ≠ 0 := fun h0 => hmod (BitVec.eq_of_toNat_eq (by
        rw [BitVec.toNat_umod, h0]
        rfl))
      have hlt := Nat.mod_lt n.toNat (Nat.pos_of_ne_zero hd')
      have hn := n.isLt
      have hq : n.toNat / d.toNat + 1 < 2 ^ 256 := by
        have hle : n.toNat / d.toNat ≤ n.toNat / 2 := Nat.div_le_div_left (by omega) (by omega)
        omega
      cases h
      rw [BitVec.toNat_add, BitVec.toNat_udiv]
      change (n.toNat / d.toNat + 1) % 2 ^ 256 = _
      rw [Nat.mod_eq_of_lt hq]
      symm
      apply Nat.div_eq_of_lt_le
      · rw [Nat.add_mul, Nat.mul_comm]
        omega
      · rw [Nat.add_mul, Nat.add_mul, Nat.mul_comm]
        omega

theorem mulDivUp_eq_ok {a b d : Amount} {w : Word} (h : mulDivUp a b d = .ok w) :
    d ≠ 0 ∧ w.toNat = a.toNat * b.toNat ⌈/⌉ d.toNat := by
  obtain ⟨hd, hw⟩ := divUp_eq_ok h
  rw [toNat_widen_mul, Amount.toNat_widen] at hw
  refine ⟨?_, hw⟩
  rintro rfl
  exact hd rfl

theorem narrow_eq_ok {w : Word} {a : Amount} (h : narrow w = .ok a) : a.toNat = w.toNat := by
  unfold narrow at h
  split at h
  · rename_i hlt
    cases h
    rw [BitVec.toNat_setWidth, Nat.mod_eq_of_lt hlt]
  · cases h

theorem addAmounts_eq_ok {a b c : Amount} (h : addAmounts a b = .ok c) :
    c.toNat = a.toNat + b.toNat := by
  unfold addAmounts at h
  split at h
  · rename_i hlt
    cases h
    rw [BitVec.toNat_add, Nat.mod_eq_of_lt hlt]
  · cases h

theorem subAmounts_eq_ok {a b c : Amount} (h : subAmounts a b = .ok c) :
    c.toNat + b.toNat = a.toNat := by
  unfold subAmounts at h
  split at h
  · rename_i hle
    have hle' : b.toNat ≤ a.toNat := hle
    cases h
    rw [BitVec.toNat_sub_of_le hle]
    omega
  · cases h

theorem exists_subAmounts {a b : Amount} (h : b.toNat ≤ a.toNat) : ∃ c, subAmounts a b = .ok c :=
  ⟨a - b, if_pos h⟩

theorem narrow_eq_error {w : Word} {fault : Fault} :
    narrow w = .error fault ↔ 2 ^ 128 ≤ w.toNat ∧ fault = .reserveOverflow := by
  unfold narrow
  split
  · rename_i hlt
    simp only [reduceCtorEq, false_iff]
    omega
  · rename_i hge
    rw [Except.error.injEq, eq_comm, iff_and_self]
    exact fun _ => Nat.not_lt.1 hge

theorem addAmounts_eq_error {a b : Amount} {fault : Fault} :
    addAmounts a b = .error fault ↔ 2 ^ 128 ≤ a.toNat + b.toNat ∧ fault = .reserveOverflow := by
  unfold addAmounts
  split
  · rename_i hlt
    simp only [reduceCtorEq, false_iff]
    omega
  · rename_i hge
    rw [Except.error.injEq, eq_comm, iff_and_self]
    exact fun _ => Nat.not_lt.1 hge

theorem mulDivDown_eq_error {a b d : Amount} {fault : Fault} :
    mulDivDown a b d = .error fault ↔ d = 0 ∧ fault = .poolNotInitialized := by
  unfold mulDivDown
  split
  · rename_i hd
    rw [Except.error.injEq, eq_comm, iff_and_self]
    exact fun _ => hd
  · rename_i hd
    simp only [reduceCtorEq, hd, false_and]

theorem divUp_eq_error {n d : Word} {fault : Fault} :
    divUp n d = .error fault ↔ d = 0 ∧ fault = .poolNotInitialized := by
  unfold divUp
  split
  · rename_i hd
    rw [Except.error.injEq, eq_comm, iff_and_self]
    exact fun _ => hd
  · rename_i hd
    split <;> simp only [reduceCtorEq, hd, false_and]

theorem widen_eq_zero {a : Amount} : Amount.widen a = 0 ↔ a = 0 := by
  constructor
  · intro h
    apply BitVec.eq_of_toNat_eq
    rw [← Amount.toNat_widen, h]
    rfl
  · rintro rfl
    rfl

theorem mulDivUp_eq_error {a b d : Amount} {fault : Fault} :
    mulDivUp a b d = .error fault ↔ d = 0 ∧ fault = .poolNotInitialized := by
  rw [mulDivUp, divUp_eq_error, widen_eq_zero]

/-- The mean of a guess and the quotient by it is at least the root, whatever the guess. -/
theorem sqrt_le_mean {n x : Nat} (hx : 0 < x) : n.sqrt ≤ (x + n / x) / 2 := by
  by_contra hlt
  have hsum : x + (n / x + 1) ≤ 2 * n.sqrt := by omega
  have hroot := n.sqrt_le
  have hquot : n < x * (n / x + 1) := Nat.lt_mul_div_succ n hx
  have hsq : (x + (n / x + 1)) * (x + (n / x + 1)) ≤ 2 * n.sqrt * (2 * n.sqrt) :=
    Nat.mul_le_mul hsum hsum
  nlinarith [four_mul_le_sq_add x (n / x + 1)]

/-- A guess that Newton's iteration reaches: it is no less than the root, and no more than half of
the number plus one. -/
structure RootGuess (n x : Nat) : Prop where
  root_le : n.sqrt ≤ x
  le_half : x ≤ n / 2 + 1

namespace RootGuess

variable {n x : Nat}

theorem half (hn : 4 ≤ n) : RootGuess n (n / 2 + 1) where
  root_le := by
    apply Nat.le_of_lt_succ
    rw [Nat.sqrt_lt]
    nlinarith [Nat.div_add_mod n 2, Nat.mod_lt n (show 0 < 2 by decide)]
  le_half := le_rfl

theorem pos (h : RootGuess n x) (hn : 4 ≤ n) : 0 < x :=
  (Nat.sqrt_pos.2 (by omega)).trans_le h.root_le

theorem div_le (h : RootGuess n x) (hn : 4 ≤ n) : n / x ≤ n.sqrt + 2 := by
  have hroot : 0 < n.sqrt := Nat.sqrt_pos.2 (by omega)
  have hadd := n.sqrt_le_add
  apply (Nat.div_le_div_left h.root_le hroot).trans
  rw [← Nat.lt_succ_iff, Nat.div_lt_iff_lt_mul hroot]
  nlinarith

theorem mean (h : RootGuess n x) (hn : 4 ≤ n) : RootGuess n ((x + n / x) / 2) where
  root_le := sqrt_le_mean (h.pos hn)
  le_half := by
    have hquot := h.div_le hn
    have htwo : 2 ≤ n.sqrt := Nat.le_sqrt.2 (by omega)
    have hroot : 2 * n.sqrt ≤ n := (Nat.mul_le_mul_right _ htwo).trans n.sqrt_le
    have hhalf := h.le_half
    omega

theorem sum_lt (h : RootGuess n x) (hn : 4 ≤ n) (hlt : n < 2 ^ 256) : x + n / x < 2 ^ 256 := by
  have hquot := h.div_le hn
  have hhalf := h.le_half
  have hsmall : n.sqrt < 2 ^ 128 := Nat.sqrt_lt'.2 (by omega)
  omega

end RootGuess

theorem toNat_mean {n x : Word} (h : RootGuess n.toNat x.toNat) (hn : 4 ≤ n.toNat) :
    ((x + n / x) >>> 1).toNat = (x.toNat + n.toNat / x.toNat) / 2 := by
  rw [BitVec.toNat_ushiftRight, BitVec.toNat_add, BitVec.toNat_udiv, Nat.shiftRight_one,
    Nat.mod_eq_of_lt (h.sum_lt hn n.isLt)]

theorem sqrtLoop_toNat (n x y : Word) (hn : 4 ≤ n.toNat) (hx : n.toNat.sqrt ≤ x.toNat)
    (hy : RootGuess n.toNat y.toNat) (hstop : x.toNat ≤ y.toNat → x.toNat * x.toNat ≤ n.toNat) :
    (sqrtLoop n x y).toNat = n.toNat.sqrt := by
  fun_induction sqrtLoop n x y with
  | case1 x y hlt ih =>
    have hnext := toNat_mean hy hn
    apply ih hy.root_le
    · rw [hnext]
      exact hy.mean hn
    · intro hle
      rw [hnext] at hle
      have hyq : y.toNat ≤ n.toNat / y.toNat := by omega
      exact (Nat.mul_le_mul_left _ hyq).trans (Nat.mul_div_le _ _)
  | case2 x y hge =>
    have hge' : x.toNat ≤ y.toNat := Nat.not_lt.1 hge
    exact le_antisymm (Nat.le_sqrt.2 (hstop hge')) hx

theorem toNat_half_add_one (n : Word) : ((n >>> 1) + 1).toNat = n.toNat / 2 + 1 := by
  have hn := n.isLt
  rw [BitVec.toNat_add, BitVec.toNat_ushiftRight, Nat.shiftRight_one]
  change (n.toNat / 2 + 1) % 2 ^ 256 = _
  exact Nat.mod_eq_of_lt (by omega)

theorem toNat_sqrt (n : Word) : (sqrt n).toNat = n.toNat.sqrt := by
  unfold sqrt
  split
  · rename_i hlt
    have hlt' : n.toNat < 4 := hlt
    split
    · rename_i h0
      rw [h0]
      rfl
    · rename_i h0
      have h0' : n.toNat ≠ 0 := fun h => h0 (BitVec.eq_of_toNat_eq h)
      rw [← Nat.eq_sqrt'.2 (show 1 ^ 2 ≤ n.toNat ∧ n.toNat < (1 + 1) ^ 2 by omega)]
      rfl
  · rename_i hge
    have hge' : 4 ≤ n.toNat := Nat.not_lt.1 hge
    have hhalf := toNat_half_add_one n
    apply sqrtLoop_toNat n n _ hge' (Nat.sqrt_le_self _)
    · rw [hhalf]
      exact RootGuess.half hge'
    · intro hle
      rw [hhalf] at hle
      omega

theorem requireToken_eq_ok {token token' : Address} :
    requireToken token = .ok token' ↔ token = token' ∧ token ≠ 0 := by
  rw [requireToken]
  split
  · rename_i hzero
    simp [hzero]
  · rename_i hne
    rw [Except.ok.injEq, and_iff_left hne]

end NetSettle
