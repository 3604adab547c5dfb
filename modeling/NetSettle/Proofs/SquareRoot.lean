import NetSettle.Proofs.Pool.Failures

/-!
# The square root and the first deposit

Newton's iteration once more, with every step checked: a step that would divide by zero or whose
sum takes more than 256 bits ends without a result, and so does a loop that runs out of steps. The
checked iteration ends with what the unchecked one gives, so none of this ever happens. The
distance of a guess to the root is halved by every step, which bounds their number.
-/
namespace NetSettle

def newtonStep? (n x : Word) : Option Word :=
  if x = 0 then none
  else if 2 ^ 256 ≤ x.toNat + (n / x).toNat then none
  else some ((x + n / x) >>> 1)

def sqrtLoopWithin (n : Word) : (steps : Nat) → (x y : Word) → Option Word
  | 0, x, y => if y < x then none else some x
  | steps + 1, x, y =>
    if y < x then (newtonStep? n y).bind fun z => sqrtLoopWithin n steps y z else some x

/-- The square root in no more than so many steps, each of them checked. -/
def sqrtWithin (steps : Nat) (n : Word) : Option Word :=
  if n < 4 then some (if n = 0 then 0 else 1)
  else if 2 ^ 256 ≤ (n >>> 1).toNat + 1 then none
  else sqrtLoopWithin n steps n ((n >>> 1) + 1)

theorem newtonStep?_eq_some {n x y : Word} (h : newtonStep? n x = some y) :
    y = (x + n / x) >>> 1 := by
  unfold newtonStep? at h
  split at h
  · cases h
  · split at h
    · cases h
    · exact (Option.some.inj h).symm

theorem sqrtLoop_of_within {n r : Word} {steps : Nat} {x y : Word}
    (h : sqrtLoopWithin n steps x y = some r) : sqrtLoop n x y = r := by
  induction steps generalizing x y with
  | zero =>
    rw [sqrtLoopWithin] at h
    rw [sqrtLoop]
    split at h
    · cases h
    · rename_i hge
      rw [if_neg hge]
      exact Option.some.inj h
  | succ steps ih =>
    rw [sqrtLoopWithin] at h
    rw [sqrtLoop]
    split at h
    · rename_i hlt
      obtain ⟨z, hz, hrest⟩ := Option.bind_eq_some_iff.1 h
      rw [if_pos hlt, ← newtonStep?_eq_some hz]
      exact ih hrest
    · rename_i hge
      rw [if_neg hge]
      exact Option.some.inj h

theorem sqrt_of_within {n r : Word} {steps : Nat} (h : sqrtWithin steps n = some r) :
    sqrt n = r := by
  unfold sqrtWithin at h
  unfold sqrt
  split at h
  · rename_i hlt
    rw [if_pos hlt]
    exact Option.some.inj h
  · rename_i hge
    rw [if_neg hge]
    split at h
    · cases h
    · exact sqrtLoop_of_within h

theorem newtonStep?_of_guess {n x : Word} (h : RootGuess n.toNat x.toNat) (hn : 4 ≤ n.toNat) :
    newtonStep? n x = some ((x + n / x) >>> 1) := by
  have hne : x ≠ 0 := by
    rintro rfl
    exact absurd (h.pos hn) (by decide)
  have hfits := h.sum_lt hn n.isLt
  rw [newtonStep?, if_neg hne, if_neg]
  rw [BitVec.toNat_udiv]
  omega

/-- From above the root a step goes at least half of the way to it. -/
theorem mean_le_halfway {n x : Nat} (h : n.sqrt < x) : (x + n / x) / 2 ≤ (x + n.sqrt) / 2 := by
  have hquot : n / x ≤ n.sqrt := by
    rw [← Nat.lt_succ_iff, Nat.div_lt_iff_lt_mul (by omega)]
    exact (Nat.lt_succ_sqrt n).trans_le (Nat.mul_le_mul_left _ h)
  omega

/-- At the root the loop makes one more step at most, because no step goes below the root. -/
theorem exists_sqrtLoopWithin_root {n : Word} (hn : 4 ≤ n.toNat) {steps : Nat} {x y : Word}
    (hy : RootGuess n.toNat y.toNat) (hroot : y.toNat = n.toNat.sqrt) :
    ∃ r, sqrtLoopWithin n (steps + 1) x y = some r := by
  have hstay := (hy.mean hn).root_le
  have hge : ¬ (y + n / y) >>> 1 < y := by
    rw [BitVec.lt_def, toNat_mean hy hn]
    omega
  rw [sqrtLoopWithin]
  split
  · rw [newtonStep?_of_guess hy hn, Option.bind_some]
    refine ⟨y, ?_⟩
    cases steps <;> rw [sqrtLoopWithin, if_neg hge]
  · exact ⟨x, rfl⟩

theorem exists_sqrtLoopWithin {n : Word} (hn : 4 ≤ n.toNat) {m : Nat} {x y : Word}
    (hy : RootGuess n.toNat y.toNat) (hnear : y.toNat < n.toNat.sqrt + 2 ^ m) :
    ∃ r, sqrtLoopWithin n (m + 1) x y = some r := by
  induction m generalizing x y with
  | zero =>
    have hroot := hy.root_le
    exact exists_sqrtLoopWithin_root hn hy (by omega)
  | succ m ih =>
    rcases hy.root_le.eq_or_lt with hroot | habove
    · exact exists_sqrtLoopWithin_root hn hy hroot.symm
    · rw [sqrtLoopWithin]
      split
      · rw [newtonStep?_of_guess hy hn, Option.bind_some]
        have hnext := toNat_mean hy hn
        apply ih
        · rw [hnext]
          exact hy.mean hn
        · have hhalf := mean_le_halfway habove
          rw [Nat.pow_succ] at hnear
          rw [hnext]
          omega
      · exact ⟨x, rfl⟩

theorem sqrtWithin_eq_some (n : Word) : sqrtWithin 256 n = some (sqrt n) := by
  have hends : ∃ r, sqrtWithin 256 n = some r := by
    unfold sqrtWithin
    split
    · exact ⟨_, rfl⟩
    · rename_i hge
      have hge' : 4 ≤ n.toNat := Nat.not_lt.1 hge
      have hlt := n.isLt
      have hhalf := toNat_half_add_one n
      rw [if_neg]
      · apply exists_sqrtLoopWithin hge'
        · rw [hhalf]
          exact RootGuess.half hge'
        · -- Half of a word plus one is no more than the root and half of all words.
          have hroot : 0 < n.toNat.sqrt := Nat.sqrt_pos.2 (by omega)
          rw [hhalf]
          omega
      · rw [BitVec.toNat_ushiftRight, Nat.shiftRight_one]
        omega
  obtain ⟨r, hr⟩ := hends
  rw [hr, sqrt_of_within hr]

def firstShares (max0 max1 : Amount) : Amount := BitVec.ofNat 128 (max0.toNat * max1.toNat).sqrt

theorem toNat_firstShares (max0 max1 : Amount) :
    (firstShares max0 max1).toNat = (max0.toNat * max1.toNat).sqrt := by
  rw [firstShares, BitVec.toNat_ofNat, Nat.mod_eq_of_lt (sqrt_mul_lt max0 max1)]

theorem quoteMint_first (reserve0 reserve1 : Amount) {max0 max1 : Amount} (h0 : max0 ≠ 0)
    (h1 : max1 ≠ 0) :
    quoteMint reserve0 reserve1 0 max0 max1 = .ok ⟨firstShares max0 max1, max0, max1⟩ := by
  cases hquote : quoteMint reserve0 reserve1 0 max0 max1 with
  | error fault =>
    cases quoteMint_eq_error hquote with
    | nothing h => exact absurd h (not_or.2 ⟨h0, h1⟩)
    | unreserved _ htotal | excessive _ htotal | unaffordable _ htotal => exact absurd rfl htotal
  | ok q =>
    obtain ⟨-, -, -, ⟨-, hseeds⟩ | ⟨htotal, -⟩⟩ := quoteMint_eq_ok hquote
    · obtain ⟨shares, amount0, amount1⟩ := q
      obtain ⟨hshares, rfl, rfl⟩ := hseeds
      have hroot : shares = firstShares amount0 amount1 :=
        BitVec.eq_of_toNat_eq (hshares.trans (toNat_firstShares _ _).symm)
      rw [hroot]
    · exact absurd rfl htotal

namespace Pool

theorem Coherent.first_addLiquidity {p : Pool} (h : p.Coherent) (hnew : p.totalShares = 0)
    (recipient : Address) {max0 max1 : Amount} (h0 : max0 ≠ 0) (h1 : max1 ≠ 0) :
    ∃ p', (Pool.addLiquidity recipient max0 max1).run p =
        .ok ⟨firstShares max0 max1, max0, max1⟩ p' ∧
      p'.totalShares = firstShares max0 max1 ∧ p'.sharesOf recipient = firstShares max0 max1 := by
  have hquote : quoteMint p.reserve0 p.reserve1 p.totalShares max0 max1 = _ :=
    hnew ▸ quoteMint_first p.reserve0 p.reserve1 h0 h1
  have hunissued := toNat_eq_zero.1 hnew
  have howned := h.sharesOf_le recipient
  cases hrun : (Pool.addLiquidity recipient max0 max1).run p with
  | ok q p' =>
    obtain ⟨hquote', hminted⟩ := addLiquidity_eq_ok hrun
    obtain rfl : q = _ := Except.ok.inj (hquote'.symm.trans hquote)
    have htotal : p'.totalShares.toNat = p.totalShares.toNat + (firstShares max0 max1).toNat :=
      hminted.total
    have hsum : (p'.sharesOf recipient).toNat =
        (p.sharesOf recipient).toNat + (firstShares max0 max1).toNat := hminted.sharesOf_recipient
    refine ⟨p', rfl, BitVec.eq_of_toNat_eq ?_, BitVec.eq_of_toNat_eq ?_⟩ <;> omega
  | error fault p' =>
    have hempty0 := toNat_eq_zero.1 (h.empty0.1 hnew)
    have hempty1 := toNat_eq_zero.1 (h.empty1.1 hnew)
    obtain ⟨-, herror | ⟨q, -, -, hover⟩⟩ := addLiquidity_eq_error hrun
    · rw [hquote] at herror
      cases herror
    · have hamount0 := q.amount0.isLt
      have hamount1 := q.amount1.isLt
      have hshares := q.shares.isLt
      cases hover <;> omega

end Pool

/-- The square root of a word is found within 256 steps, none of which divides by zero or takes
more than a word, and is exact. The first deposit of a pool mints the root of its product. -/
theorem square_root_exact :
    (∀ n : Word, sqrtWithin 256 n = some (sqrt n) ∧
      (sqrt n).toNat ^ 2 ≤ n.toNat ∧ n.toNat < ((sqrt n).toNat + 1) ^ 2 ∧
      (sqrt n).toNat < 2 ^ 128) ∧
    (∀ n m : Word, n ≤ m → sqrt n ≤ sqrt m) ∧
    ∀ max0 max1 : Amount, max0 ≠ 0 → max1 ≠ 0 → ∃ shares : Amount,
      1 ≤ shares.toNat ∧ shares.toNat ≤ 2 ^ 128 - 1 ∧
      shares.toNat ^ 2 ≤ max0.toNat * max1.toNat ∧
      (∀ reserve0 reserve1,
        quoteMint reserve0 reserve1 0 max0 max1 = .ok ⟨shares, max0, max1⟩) ∧
      ∀ p : Pool, p.Reached → p.totalShares = 0 → ∀ recipient, ∃ p',
        (Pool.addLiquidity recipient max0 max1).run p = .ok ⟨shares, max0, max1⟩ p' ∧
        p'.totalShares = shares ∧ p'.sharesOf recipient = shares := by
  refine ⟨?_, ?_, ?_⟩
  · intro n
    refine ⟨sqrtWithin_eq_some n, ?_⟩
    rw [toNat_sqrt]
    exact ⟨Nat.sqrt_le' _, Nat.lt_succ_sqrt' _, Nat.sqrt_lt'.2 (by simpa using n.isLt)⟩
  · intro n m hle
    rw [BitVec.le_def, toNat_sqrt, toNat_sqrt]
    exact Nat.sqrt_le_sqrt hle
  · intro max0 max1 h0 h1
    have hlt := (firstShares max0 max1).isLt
    refine ⟨firstShares max0 max1, ?_, by omega, ?_, ?_, ?_⟩
    · rw [toNat_firstShares]
      exact sqrt_mul_pos h0 h1
    · rw [toNat_firstShares]
      exact Nat.sqrt_le' _
    · intro reserve0 reserve1
      exact quoteMint_first reserve0 reserve1 h0 h1
    · intro p hreached hnew recipient
      exact hreached.coherent.first_addLiquidity hnew recipient h0 h1

theorem square_root_exact_largestDeposit :
    (0 : Word) ≤ BitVec.allOnes 256 ∧ BitVec.allOnes 128 ≠ (0 : Amount) ∧
    sqrt 0 ≤ sqrt (BitVec.allOnes 256) ∧
    ∃ shares : Amount, 1 ≤ shares.toNat ∧ shares.toNat ≤ 2 ^ 128 - 1 ∧
      shares.toNat ^ 2 ≤ (BitVec.allOnes 128).toNat * (BitVec.allOnes 128).toNat ∧
      ∃ p', (Pool.addLiquidity 3 (BitVec.allOnes 128) (BitVec.allOnes 128)).run
          (Pool.fresh ⟨1, 2⟩) = .ok ⟨shares, BitVec.allOnes 128, BitVec.allOnes 128⟩ p' ∧
        p'.totalShares = shares := by
  have hle : (0 : Word) ≤ BitVec.allOnes 256 := by decide
  have hne : BitVec.allOnes 128 ≠ (0 : Amount) := by decide
  obtain ⟨-, hmono, hfirst⟩ := square_root_exact
  obtain ⟨shares, hpos, hmost, hroot, -, hpool⟩ := hfirst _ _ hne hne
  obtain ⟨p', hrun, htotal, -⟩ := hpool (Pool.fresh ⟨1, 2⟩) (.fresh _) rfl 3
  exact ⟨hle, hne, hmono _ _ hle, shares, hpos, hmost, hroot, p', hrun, htotal⟩

end NetSettle
