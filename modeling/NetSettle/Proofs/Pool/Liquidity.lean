import NetSettle.Proofs.Pool.Failures

/-!
# What others' liquidity is worth

Owners come and go by deposits and burnings, at the cost of nobody: whatever the others do, what a
number of shares would be paid never becomes less as long as there are that many shares. Nor does
anybody win by it. The shares of a deposit that are burned right after it, at once or in pieces,
are paid no more than was charged for them: rounded burnings leave something to the pieces that
follow, and all of it together is no more than what the deposit was overcharged.
-/
namespace NetSettle.Pool

open Faulting

inductive Trade.Liquidity : Trade → Prop
  | addLiquidity (recipient : Address) (max0 max1 : Amount) :
      Liquidity (.addLiquidity recipient max0 max1)
  | removeLiquidity (owner : Address) (shares : Amount) : Liquidity (.removeLiquidity owner shares)

variable {p p' : Pool} {t : Trade} {trades : List Trade}

theorem undiluted_make (hlive : p.totalShares ≠ 0) (hliquidity : t.Liquidity) {turnover : Turnover}
    (h : t.make.run p = .ok turnover p') : p.Undiluted p' := by
  cases make_eq_ok h with
  | swap => cases hliquidity
  | addLiquidity hadd => exact undiluted_addLiquidity hlive hadd
  | removeLiquidity hremove => exact undiluted_removeLiquidity hremove

theorem undiluted_trade (hliquidity : ∀ t ∈ trades, t.Liquidity)
    (hlive : ∀ earlier ∈ trades.inits, (trade earlier p).2.totalShares ≠ 0) :
    p.Undiluted (trade trades p).2 := by
  induction trades generalizing p with
  | nil => exact undiluted_refl p
  | cons t later ih =>
    obtain ⟨hnow, hrest⟩ := List.forall_mem_cons.1 hliquidity
    have hlater (earlier : List Trade) (hmem : earlier ∈ later.inits) :
        (trade (t :: earlier) p).2.totalShares ≠ 0 :=
      hlive _ (by simpa using hmem)
    cases hmake : t.make.run p with
    | ok turnover q =>
      simp only [trade_cons_of_ok hmake] at hlater
      have hq : q.totalShares ≠ 0 := hlater [] (by simp)
      rw [trade_cons_of_ok hmake]
      exact (undiluted_make (hlive [] (by simp)) hnow hmake).trans hq (ih hrest hlater)
    | error fault q =>
      simp only [trade_cons_of_error hmake] at hlater
      rw [trade_cons_of_error hmake]
      exact ih hrest hlater

theorem quotesNoLess_of_liquidity {before after : List Trade} {shares : Amount} (hne : shares ≠ 0)
    (hliquidity : ∀ t ∈ before ++ after, t.Liquidity)
    (hkept : ∀ earlier ∈ (before ++ after).inits,
      shares.toNat ≤ (trade earlier p).2.totalShares.toNat) :
    QuotesNoLess (trade before p).2 (trade (before ++ after) p).2 shares := by
  have hmoment (earlier : List Trade) (hmem : earlier ∈ after.inits) :
      shares.toNat ≤ (trade earlier (trade before p).2).2.totalShares.toNat := by
    rw [← trade_append]
    refine hkept _ ((List.mem_inits _ _).2 ?_)
    exact (List.prefix_append_right_inj before).2 ((List.mem_inits _ _).1 hmem)
  have hlive (earlier : List Trade) (hmem : earlier ∈ after.inits) :
      (trade earlier (trade before p).2).2.totalShares ≠ 0 := by
    have hshares := toNat_ne_zero hne
    have hle := hmoment earlier hmem
    rw [Ne, toNat_eq_zero]
    omega
  have hafter : ∀ t ∈ after, t.Liquidity := fun t ht =>
    hliquidity t (List.mem_append_right _ ht)
  rw [trade_append]
  refine (undiluted_trade hafter hlive).quotesNoLess hne (hmoment [] (by simp)) (hmoment after ?_)
  exact (List.mem_inits _ _).2 (List.prefix_refl _)

theorem keeps_sharesOf {holder : Address} (n : Nat)
    (hstays : ∀ shares, t ≠ .removeLiquidity holder shares) :
    Keeps (fun p => n ≤ (p.sharesOf holder).toNat) t.make := by
  intro p hn
  cases hmake : t.make.run p with
  | error fault p' => exact make_eq_error hmake ▸ hn
  | ok turnover p' =>
    cases make_eq_ok hmake with
    | swap hswap =>
      obtain ⟨-, hswapped⟩ := swap_eq_ok hswap
      cases hswapped <;> exact hn
    | @addLiquidity recipient _ _ _ hadd =>
      obtain ⟨-, hminted⟩ := addLiquidity_eq_ok hadd
      by_cases hself : holder = recipient
      · subst hself
        exact hn.trans (hminted.sharesOf_recipient ▸ Nat.le_add_right _ _)
      · exact (hminted.sharesOf_of_ne hself).symm ▸ hn
    | @removeLiquidity owner shares _ hremove =>
      have hother : holder ≠ owner := by
        rintro rfl
        exact hstays shares rfl
      obtain ⟨-, hburned⟩ := removeLiquidity_eq_ok hremove
      exact (hburned.sharesOf_of_ne hother).symm ▸ hn

theorem Coherent.le_totalShares_trade (h : p.Coherent) {holder : Address} {shares : Amount}
    (howned : shares.toNat ≤ (p.sharesOf holder).toNat)
    (hstays : ∀ t ∈ trades, ∀ n, t ≠ .removeLiquidity holder n) :
    shares.toNat ≤ (trade trades p).2.totalShares.toNat := by
  have hcoherent : (trade trades p).2.Coherent := trade_keeps (fun t _ => keeps_make t) h
  have hkept : shares.toNat ≤ ((trade trades p).2.sharesOf holder).toNat :=
    trade_keeps (fun t ht => keeps_sharesOf shares.toNat (hstays t ht)) howned
  exact hkept.trans (hcoherent.sharesOf_le holder)

/-- The pieces are burned and come to no more than the terms of the deposit. -/
def RepaysAtMost (p : Pool) (owner : Address) (pieces : List Amount) (q : MintQuote) : Prop :=
  ∃ quotes p', (burnEach owner pieces).run p = .ok quotes p' ∧
    paid0 quotes ≤ q.amount0.toNat ∧ paid1 quotes ≤ q.amount1.toNat

theorem repaysAtMost_of_addLiquidity (hlive : p.totalShares ≠ 0) {recipient : Address}
    {max0 max1 : Amount} {q : MintQuote}
    (hrun : (addLiquidity recipient max0 max1).run p = .ok q p') {pieces : List Amount}
    (hpos : ∀ n ∈ pieces, n ≠ 0) (hsum : (pieces.map (·.toNat)).sum ≤ q.shares.toNat) :
    RepaysAtMost p' recipient pieces q := by
  obtain ⟨-, hminted⟩ := addLiquidity_eq_ok hrun
  have htotal := hminted.total
  have h0 := hminted.reserve0
  have h1 := hminted.reserve1
  have hpool := Nat.pos_of_ne_zero (toNat_ne_zero hlive)
  have howned : (pieces.map (·.toNat)).sum ≤ (p'.sharesOf recipient).toNat := by
    rw [hminted.sharesOf_recipient]
    omega
  obtain ⟨quotes, p'', hburn, hundiluted, hleft, hpaid⟩ := exists_burnEach hpos howned (by omega)
  have hpaid0 := hpaid.reserve0
  have hpaid1 := hpaid.reserve1
  have hlive' : p'.totalShares ≠ 0 := by
    rw [Ne, toNat_eq_zero]
    omega
  -- As many shares are left as before the deposit, so as much is left in reserve.
  obtain ⟨hle0, hle1⟩ :=
    ((undiluted_addLiquidity hlive hrun).trans hlive' hundiluted).reserves_le hlive (by omega)
  exact ⟨quotes, p'', hburn, by omega, by omega⟩

/-- In a pool that has shares, deposits and burnings leave each share its part of both reserves.
What a number of shares is quoted never becomes less through deposits and burnings of others, be
it that as many shares remain or that their owner stays. And the shares of a deposit, burned right
after it in whatever pieces, are paid no more than was charged for them. -/
theorem liquidity_never_dilutes (p : Pool) (hlive : p.totalShares ≠ 0) :
    (∀ recipient max0 max1 q p', (addLiquidity recipient max0 max1).run p = .ok q p' →
      p.Undiluted p') ∧
    (∀ owner shares q p', (removeLiquidity owner shares).run p = .ok q p' → p.Undiluted p') ∧
    (∀ (shares : Amount) (before after : List Trade), shares ≠ 0 →
      (∀ t ∈ before ++ after, t.Liquidity) →
      (∀ earlier ∈ (before ++ after).inits,
        shares.toNat ≤ (trade earlier p).2.totalShares.toNat) →
      QuotesNoLess (trade before p).2 (trade (before ++ after) p).2 shares) ∧
    (∀ (holder : Address) (shares : Amount) (before after : List Trade), p.Coherent →
      shares ≠ 0 → shares.toNat ≤ (p.sharesOf holder).toNat →
      (∀ t ∈ before ++ after, t.Liquidity ∧ ∀ n, t ≠ .removeLiquidity holder n) →
      QuotesNoLess (trade before p).2 (trade (before ++ after) p).2 shares) ∧
    (∀ recipient max0 max1 q p', (addLiquidity recipient max0 max1).run p = .ok q p' →
      ∀ pieces : List Amount, (∀ n ∈ pieces, n ≠ 0) →
        (pieces.map (·.toNat)).sum ≤ q.shares.toNat → RepaysAtMost p' recipient pieces q) := by
  refine ⟨?_, ?_, ?_, ?_, ?_⟩
  · intro recipient max0 max1 q p' hrun
    exact undiluted_addLiquidity hlive hrun
  · intro owner shares q p' hrun
    exact undiluted_removeLiquidity hrun
  · intro shares before after hne hliquidity hkept
    exact quotesNoLess_of_liquidity hne hliquidity hkept
  · intro holder shares before after hcoherent hne howned hothers
    refine quotesNoLess_of_liquidity hne (fun t ht => (hothers t ht).1) fun earlier hmem => ?_
    refine hcoherent.le_totalShares_trade howned fun t ht => (hothers t ?_).2
    exact ((List.mem_inits _ _).1 hmem).subset ht
  · intro recipient max0 max1 q p' hrun pieces hpos hsum
    exact repaysAtMost_of_addLiquidity hlive hrun hpos hsum

theorem liquidity_never_dilutes_sharedPool :
    QuotesNoLess sharedPool (trade [.removeLiquidity 7 599, .removeLiquidity 8 400,
      .addLiquidity 9 77 5000, .removeLiquidity 9 3] sharedPool).2 1 ∧
    ∃ q p', (addLiquidity 9 50 91).run sharedPool = .ok q p' ∧
      RepaysAtMost p' 9 [1, 43, 1] q := by
  obtain ⟨-, -, hquotes, -, hrepays⟩ := liquidity_never_dilutes sharedPool (by decide)
  constructor
  · refine hquotes 1 [] _ (by decide) ?_ (by decide +kernel)
    simp only [List.nil_append, List.forall_mem_cons]
    exact ⟨.removeLiquidity .., .removeLiquidity .., .addLiquidity .., .removeLiquidity .., nofun⟩
  · have hends : endsWith (fun q _ => decide (q.shares = 45))
        ((addLiquidity 9 50 91).run sharedPool) = true := by decide +kernel
    obtain ⟨q, p', hrun, hshares⟩ := exists_of_endsWith hends
    refine ⟨q, p', hrun, hrepays 9 50 91 q p' hrun _ (by simp) ?_⟩
    rw [of_decide_eq_true hshares]
    decide +kernel

end NetSettle.Pool
