import NetSettle.Proofs.Pool.Sound

/-!
# Deposits and burnings dilute nobody

A share stands for its part of both reserves. A deposit is charged what its shares cost, rounded
up, and a burning is paid what its shares are worth, rounded down, so neither takes anything from
the other shares: what remains in each reserve for each share does not become less. The same holds
of any number of burnings in turn.
-/
namespace NetSettle.Pool

open Faulting

/-- Each share stands for as much of each reserve as it did, or for more. -/
structure Undiluted (p p' : Pool) : Prop where
  reserve0 : p.reserve0.toNat * p'.totalShares.toNat ≤ p.totalShares.toNat * p'.reserve0.toNat
  reserve1 : p.reserve1.toNat * p'.totalShares.toNat ≤ p.totalShares.toNat * p'.reserve1.toNat

theorem part_le_trans {s s' s'' r r' r'' : Nat} (hs : s' ≠ 0) (h : r * s' ≤ s * r')
    (h' : r' * s'' ≤ s' * r'') : r * s'' ≤ s * r'' := by
  refine Nat.le_of_mul_le_mul_left (c := s') ?_ (Nat.pos_of_ne_zero hs)
  calc s' * (r * s'') = r * s' * s'' := by ring
    _ ≤ s * r' * s'' := Nat.mul_le_mul_right _ h
    _ = s * (r' * s'') := by ring
    _ ≤ s * (s' * r'') := Nat.mul_le_mul_left _ h'
    _ = s' * (s * r'') := by ring

theorem reserve_le_of_part_le {s s' r r' : Nat} (hs : s ≠ 0) (hle : s ≤ s')
    (h : r * s' ≤ s * r') : r ≤ r' := by
  refine Nat.le_of_mul_le_mul_left (c := s) ?_ (Nat.pos_of_ne_zero hs)
  calc s * r = r * s := Nat.mul_comm _ _
    _ ≤ r * s' := Nat.mul_le_mul_left _ hle
    _ ≤ s * r' := h

theorem worth_le_of_part_le {s s' r r' : Nat} (hs : s' ≠ 0) (h : r * s' ≤ s * r') (n : Nat) :
    n * r / s ≤ n * r' / s' := by
  rcases Nat.eq_zero_or_pos s with rfl | hpos
  · rw [Nat.div_zero]
    exact Nat.zero_le _
  rw [Nat.le_div_iff_mul_le (Nat.pos_of_ne_zero hs)]
  refine Nat.le_of_mul_le_mul_left (c := s) ?_ hpos
  calc s * (n * r / s * s') = s * (n * r / s) * s' := by ring
    _ ≤ n * r * s' := Nat.mul_le_mul_right _ (Nat.mul_div_le _ _)
    _ = n * (r * s') := by ring
    _ ≤ n * (s * r') := Nat.mul_le_mul_left _ h
    _ = s * (n * r') := by ring

variable {p p' p'' : Pool}

theorem undiluted_refl (p : Pool) : p.Undiluted p :=
  ⟨(Nat.mul_comm _ _).le, (Nat.mul_comm _ _).le⟩

theorem Undiluted.trans (hlive : p'.totalShares ≠ 0) (h : p.Undiluted p') (h' : p'.Undiluted p'') :
    p.Undiluted p'' where
  reserve0 := part_le_trans (toNat_ne_zero hlive) h.reserve0 h'.reserve0
  reserve1 := part_le_trans (toNat_ne_zero hlive) h.reserve1 h'.reserve1

theorem Undiluted.reserves_le (h : p.Undiluted p') (hlive : p.totalShares ≠ 0)
    (hle : p.totalShares.toNat ≤ p'.totalShares.toNat) :
    p.reserve0.toNat ≤ p'.reserve0.toNat ∧ p.reserve1.toNat ≤ p'.reserve1.toNat :=
  ⟨reserve_le_of_part_le (toNat_ne_zero hlive) hle h.reserve0,
    reserve_le_of_part_le (toNat_ne_zero hlive) hle h.reserve1⟩

theorem undiluted_addLiquidity (hlive : p.totalShares ≠ 0) {recipient : Address}
    {max0 max1 : Amount} {q : MintQuote}
    (h : (addLiquidity recipient max0 max1).run p = .ok q p') : p.Undiluted p' := by
  obtain ⟨hquote, hminted⟩ := addLiquidity_eq_ok h
  obtain ⟨-, -, -, ⟨hzero, -⟩ | ⟨htotal, hextends⟩⟩ := quoteMint_eq_ok hquote
  · exact absurd hzero hlive
  · have hpos := Nat.pos_of_ne_zero htotal
    constructor
    · rw [hminted.total, hminted.reserve0]
      exact part_le_of_ceilDiv hpos hextends.amount0_eq
    · rw [hminted.total, hminted.reserve1]
      exact part_le_of_ceilDiv hpos hextends.amount1_eq

theorem undiluted_removeLiquidity {owner : Address} {shares : Amount} {q : BurnQuote}
    (h : (removeLiquidity owner shares).run p = .ok q p') : p.Undiluted p' := by
  obtain ⟨hreleases, hburned⟩ := removeLiquidity_eq_ok h
  constructor
  · exact part_le_of_div hreleases.amount0_eq hburned.total hburned.reserve0
  · exact part_le_of_div hreleases.amount1_eq hburned.total hburned.reserve1

theorem exists_quoteBurn_iff {reserve0 reserve1 total shares : Amount} :
    (∃ q, quoteBurn reserve0 reserve1 total shares = .ok q) ↔
      shares ≠ 0 ∧ shares.toNat ≤ total.toNat := by
  constructor
  · rintro ⟨q, hquote⟩
    have hreleases := quoteBurn_eq_ok hquote
    exact ⟨fun hzero => hreleases.shares_ne (toNat_eq_zero.1 hzero), hreleases.shares_le⟩
  · rintro ⟨hne, hle⟩
    cases hquote : quoteBurn reserve0 reserve1 total shares with
    | ok q => exact ⟨q, rfl⟩
    | error fault =>
      cases quoteBurn_eq_error hquote with
      | nothing hzero => exact absurd hzero hne
      | unissued _ hzero =>
        rw [hzero] at hle
        exact absurd (Nat.le_zero.1 hle) (toNat_ne_zero hne)
      | excessive _ _ hmore => exact absurd hmore (Nat.not_lt.2 hle)

def QuotesNoLess (p p' : Pool) (shares : Amount) : Prop :=
  ∃ q q', quoteBurn p.reserve0 p.reserve1 p.totalShares shares = .ok q ∧
    quoteBurn p'.reserve0 p'.reserve1 p'.totalShares shares = .ok q' ∧
    q.amount0.toNat ≤ q'.amount0.toNat ∧ q.amount1.toNat ≤ q'.amount1.toNat

theorem Undiluted.quotesNoLess (h : p.Undiluted p') {shares : Amount} (hne : shares ≠ 0)
    (hle : shares.toNat ≤ p.totalShares.toNat) (hle' : shares.toNat ≤ p'.totalShares.toNat) :
    QuotesNoLess p p' shares := by
  obtain ⟨q, hquote⟩ := exists_quoteBurn_iff.2 ⟨hne, hle⟩
  obtain ⟨q', hquote'⟩ := exists_quoteBurn_iff.2 ⟨hne, hle'⟩
  have hreleases := quoteBurn_eq_ok hquote
  have hreleases' := quoteBurn_eq_ok hquote'
  have hlive' : p'.totalShares.toNat ≠ 0 := by
    have hshares := toNat_ne_zero hne
    omega
  refine ⟨q, q', hquote, hquote', ?_, ?_⟩
  · rw [hreleases.amount0_eq, hreleases'.amount0_eq]
    exact worth_le_of_part_le hlive' h.reserve0 _
  · rw [hreleases.amount1_eq, hreleases'.amount1_eq]
    exact worth_le_of_part_le hlive' h.reserve1 _

theorem exists_removeLiquidity {owner : Address} {shares : Amount} (hne : shares ≠ 0)
    (howned : shares.toNat ≤ (p.sharesOf owner).toNat)
    (htotal : shares.toNat ≤ p.totalShares.toNat) :
    ∃ q p', (removeLiquidity owner shares).run p = .ok q p' := by
  cases hrun : (removeLiquidity owner shares).run p with
  | ok q p' => exact ⟨q, p', rfl⟩
  | error fault p' =>
    rcases (removeLiquidity_eq_error hrun).2 with ⟨hmore, -⟩ | ⟨-, hquote⟩
    · exact absurd hmore (Nat.not_lt.2 howned)
    · obtain ⟨q, hquote'⟩ := exists_quoteBurn_iff.2 ⟨hne, htotal⟩
      cases hquote.symm.trans hquote'

def paid0 (quotes : List BurnQuote) : Nat := (quotes.map (·.amount0.toNat)).sum

def paid1 (quotes : List BurnQuote) : Nat := (quotes.map (·.amount1.toNat)).sum

@[simp] theorem paid0_cons (q : BurnQuote) (quotes : List BurnQuote) :
    paid0 (q :: quotes) = q.amount0.toNat + paid0 quotes := rfl

@[simp] theorem paid1_cons (q : BurnQuote) (quotes : List BurnQuote) :
    paid1 (q :: quotes) = q.amount1.toNat + paid1 quotes := rfl

structure PaidOut (p p' : Pool) (quotes : List BurnQuote) : Prop where
  reserve0 : p'.reserve0.toNat + paid0 quotes = p.reserve0.toNat
  reserve1 : p'.reserve1.toNat + paid1 quotes = p.reserve1.toNat
  pair : p'.pair = p.pair
  fee0 : p'.accruedFee0 = p.accruedFee0
  fee1 : p'.accruedFee1 = p.accruedFee1

theorem paidOut_nil (p : Pool) : p.PaidOut p [] := ⟨rfl, rfl, rfl, rfl, rfl⟩

theorem PaidOut.cons {owner : Address} {shares : Amount} {q : BurnQuote} {quotes : List BurnQuote}
    (h : p.Burned p' owner shares q) (h' : p'.PaidOut p'' quotes) :
    p.PaidOut p'' (q :: quotes) where
  reserve0 := by
    rw [paid0_cons, ← h.reserve0, ← h'.reserve0]
    omega
  reserve1 := by
    rw [paid1_cons, ← h.reserve1, ← h'.reserve1]
    omega
  pair := h'.pair.trans h.pair
  fee0 := h'.fee0.trans h.fee0
  fee1 := h'.fee1.trans h.fee1

def burnEach (owner : Address) (pieces : List Amount) : Faulting Pool (List BurnQuote) :=
  pieces.mapM (removeLiquidity owner)

theorem exists_burnEach {owner : Address} {pieces : List Amount} (hpos : ∀ n ∈ pieces, n ≠ 0)
    (howned : (pieces.map (·.toNat)).sum ≤ (p.sharesOf owner).toNat)
    (htotal : (pieces.map (·.toNat)).sum < p.totalShares.toNat) :
    ∃ quotes p', (burnEach owner pieces).run p = .ok quotes p' ∧ p.Undiluted p' ∧
      p'.totalShares.toNat + (pieces.map (·.toNat)).sum = p.totalShares.toNat ∧
      p.PaidOut p' quotes := by
  induction pieces generalizing p with
  | nil => exact ⟨[], p, rfl, undiluted_refl p, rfl, paidOut_nil p⟩
  | cons n rest ih =>
    obtain ⟨hn, hrest⟩ := List.forall_mem_cons.1 hpos
    rw [List.map_cons, List.sum_cons] at howned htotal
    have hn_owned : n.toNat ≤ (p.sharesOf owner).toNat := by omega
    obtain ⟨q, next, hrun⟩ := exists_removeLiquidity hn hn_owned (by omega)
    obtain ⟨-, hburned⟩ := removeLiquidity_eq_ok hrun
    have hleft := hburned.total
    have hkept := hburned.sharesOf_owner
    obtain ⟨quotes, last, hruns, hundiluted, hlast, hpaid⟩ :=
      ih (p := next) hrest (by omega) (by omega)
    have hlive : next.totalShares ≠ 0 := by
      rw [Ne, toNat_eq_zero]
      omega
    refine ⟨q :: quotes, last, run_mapM_cons_of_ok hrun hruns,
      (undiluted_removeLiquidity hrun).trans hlive hundiluted, ?_, .cons hburned hpaid⟩
    rw [List.map_cons, List.sum_cons]
    omega

end NetSettle.Pool
