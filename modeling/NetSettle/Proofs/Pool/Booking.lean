import NetSettle.Proofs.Pool.Deal

/-!
# What events book

An event says what it adds to each number that the pool of its pair keeps: to the reserves, to the
accrued fees and to the shares. A deal changes its pool by what its event books, so a pool changes
over an execution by what the events about its pair book.
-/
namespace NetSettle

namespace Event

def reserve : Event → Address → Int
  | .swap tokenIn tokenOut amountIn amountOut protocolFee, t =>
    only tokenIn (amountIn.toNat - protocolFee.toNat) t - only tokenOut amountOut.toNat t
  | .liquidityAdded token0 token1 _ _ amount0 amount1, t =>
    only token0 amount0.toNat t + only token1 amount1.toNat t
  | .liquidityRemoved token0 token1 _ _ amount0 amount1, t =>
    -only token0 amount0.toNat t - only token1 amount1.toNat t
  | .feesClaimed .., _ | .settled .., _ | .deposited .., _ | .withdrawn .., _
  | .permitGranted .., _ => 0

def accrued : Event → Address → Int
  | .swap tokenIn _ _ _ protocolFee, t => only tokenIn protocolFee.toNat t
  | .feesClaimed token0 token1 amount0 amount1, t =>
    -only token0 amount0.toNat t - only token1 amount1.toNat t
  | .liquidityAdded .., _ | .liquidityRemoved .., _ | .settled .., _ | .deposited .., _
  | .withdrawn .., _ | .permitGranted .., _ => 0

def owned : Event → Address → Int
  | .liquidityAdded _ _ recipient shares _ _, o => only recipient shares.toNat o
  | .liquidityRemoved _ _ owner shares _ _, o => -only owner shares.toNat o
  | .swap .., _ | .feesClaimed .., _ | .settled .., _ | .deposited .., _ | .withdrawn .., _
  | .permitGranted .., _ => 0

def issued : Event → Int
  | .liquidityAdded _ _ _ shares _ _ => shares.toNat
  | .liquidityRemoved _ _ _ shares _ _ => -shares.toNat
  | .swap .. | .feesClaimed .. | .settled .. | .deposited .. | .withdrawn .. | .permitGranted .. =>
    0

def about (pair : Pair) (events : List Event) : List Event :=
  events.filter fun e => e.pair? = some pair

theorem about_append (pair : Pair) (events more : List Event) :
    about pair (events ++ more) = about pair events ++ about pair more :=
  List.filter_append ..

theorem about_eq_nil {pair : Pair} {events : List Event}
    (h : ∀ e ∈ events, e.pair? ≠ some pair) : about pair events = [] := by
  simpa [about] using h

end Event

namespace Pool

/-- A pool that changed by what events about its pair book. -/
structure Booked (pair : Pair) (p p' : Pool) (events : List Event) : Prop where
  reserve0 : (p'.reserve0.toNat : Int) =
    p.reserve0.toNat + flow Event.reserve (Event.about pair events) pair.token0
  reserve1 : (p'.reserve1.toNat : Int) =
    p.reserve1.toNat + flow Event.reserve (Event.about pair events) pair.token1
  accruedFee0 : (p'.accruedFee0.toNat : Int) =
    p.accruedFee0.toNat + flow Event.accrued (Event.about pair events) pair.token0
  accruedFee1 : (p'.accruedFee1.toNat : Int) =
    p.accruedFee1.toNat + flow Event.accrued (Event.about pair events) pair.token1
  totalShares : (p'.totalShares.toNat : Int) =
    p.totalShares.toNat + ((Event.about pair events).map Event.issued).sum
  shares : ∀ owner, ((p'.sharesOf owner).toNat : Int) =
    (p.sharesOf owner).toNat + flow Event.owned (Event.about pair events) owner

variable {pair : Pair} {p p₁ p' : Pool}

theorem booked_of_nothing {events : List Event} (h : ∀ e ∈ events, e.pair? ≠ some pair) :
    p.Booked pair p events := by
  have hnil := Event.about_eq_nil h
  constructor <;> simp [hnil, flow]

theorem Booked.append {events more : List Event} (h : p.Booked pair p₁ events)
    (h' : p₁.Booked pair p' more) : p.Booked pair p' (events ++ more) where
  reserve0 := by rw [h'.reserve0, h.reserve0, Event.about_append, flow_append, Int.add_assoc]
  reserve1 := by rw [h'.reserve1, h.reserve1, Event.about_append, flow_append, Int.add_assoc]
  accruedFee0 := by
    rw [h'.accruedFee0, h.accruedFee0, Event.about_append, flow_append, Int.add_assoc]
  accruedFee1 := by
    rw [h'.accruedFee1, h.accruedFee1, Event.about_append, flow_append, Int.add_assoc]
  totalShares := by
    rw [h'.totalShares, h.totalShares, Event.about_append, List.map_append, List.sum_append,
      Int.add_assoc]
  shares := fun owner => by
    rw [h'.shares, h.shares, Event.about_append, flow_append, Int.add_assoc]

theorem Minted.sharesOf {recipient : Address} {q : MintQuote} (h : p.Minted p' recipient q)
    (owner : Address) :
    ((p'.sharesOf owner).toNat : Int) =
      (p.sharesOf owner).toNat + only recipient q.shares.toNat owner := by
  unfold only
  split
  · rename_i howner
    subst howner
    rw [h.sharesOf_recipient]
    exact Int.natCast_add ..
  · rename_i hne
    rw [h.sharesOf_of_ne hne, Int.add_zero]

theorem Burned.sharesOf {burner : Address} {shares : Amount} {q : BurnQuote}
    (h : p.Burned p' burner shares q) (owner : Address) :
    ((p'.sharesOf owner).toNat : Int) =
      (p.sharesOf owner).toNat + -only burner shares.toNat owner := by
  unfold only
  split
  · rename_i howner
    subst howner
    have hleft := h.sharesOf_owner
    omega
  · rename_i hne
    rw [h.sharesOf_of_ne hne]
    omega

theorem booked_of_event {e : Event} (hpair : e.pair? = some pair)
    (hreserve0 : (p'.reserve0.toNat : Int) = p.reserve0.toNat + e.reserve pair.token0)
    (hreserve1 : (p'.reserve1.toNat : Int) = p.reserve1.toNat + e.reserve pair.token1)
    (haccrued0 : (p'.accruedFee0.toNat : Int) = p.accruedFee0.toNat + e.accrued pair.token0)
    (haccrued1 : (p'.accruedFee1.toNat : Int) = p.accruedFee1.toNat + e.accrued pair.token1)
    (htotal : (p'.totalShares.toNat : Int) = p.totalShares.toNat + e.issued)
    (hshares : ∀ owner, ((p'.sharesOf owner).toNat : Int) =
      (p.sharesOf owner).toNat + e.owned owner) : p.Booked pair p' [e] := by
  have habout : Event.about pair [e] = [e] := List.filter_cons_of_pos (decide_eq_true hpair)
  constructor
  all_goals simp only [habout, flow_singleton, List.map_singleton, List.sum_singleton]
  all_goals assumption

theorem Dealt.booked {e : Event} (h : p.Dealt pair e p') (hlt : pair.token0 < pair.token1) :
    p.Booked pair p' [e] := by
  have hne : pair.token0 ≠ pair.token1 := fun heq => BitVec.lt_irrefl _ (heq ▸ hlt)
  have hpair := h.pair?_eq hlt
  cases h with
  | @swap direction _ _ _ _ h =>
    obtain ⟨-, hswapped⟩ := swap_eq_ok h
    cases hswapped with
    | zeroForOne hprices haccrued | oneForZero hprices haccrued =>
      -- The protocol's part of the input goes to the accrued fees, and the reserve gets the rest.
      have hfee := hprices.fee_le
      have hin := hprices.in_eq
      have hout := hprices.paid_eq
      rw [← hprices.amountIn_eq] at hfee hin
      refine booked_of_event hpair ?_ ?_ ?_ ?_ (Int.add_zero _).symm fun _ => (Int.add_zero _).symm
      all_goals simp only [Event.reserve, Event.accrued, Pair.route, only_self, only_of_ne hne,
        only_of_ne hne.symm]
      all_goals omega
  | addLiquidity h =>
    obtain ⟨-, hminted⟩ := addLiquidity_eq_ok h
    have h0 := hminted.reserve0
    have h1 := hminted.reserve1
    have htotal := hminted.total
    refine booked_of_event hpair ?_ ?_ ?_ ?_ ?_ hminted.sharesOf
    all_goals simp only [Event.reserve, Event.accrued, Event.issued, only_self, only_of_ne hne,
      only_of_ne hne.symm, hminted.fee0, hminted.fee1]
    all_goals omega
  | removeLiquidity h =>
    obtain ⟨-, hburned⟩ := removeLiquidity_eq_ok h
    have h0 := hburned.reserve0
    have h1 := hburned.reserve1
    have htotal := hburned.total
    refine booked_of_event hpair ?_ ?_ ?_ ?_ ?_ hburned.sharesOf
    all_goals simp only [Event.reserve, Event.accrued, Event.issued, only_self, only_of_ne hne,
      only_of_ne hne.symm, hburned.fee0, hburned.fee1]
    all_goals omega
  | claimFees =>
    refine booked_of_event hpair (Int.add_zero _).symm (Int.add_zero _).symm ?_ ?_
      (Int.add_zero _).symm fun _ => (Int.add_zero _).symm
    all_goals simp [Event.accrued, takeAccruedFees, only_of_ne hne, only_of_ne hne.symm]

end Pool

end NetSettle
