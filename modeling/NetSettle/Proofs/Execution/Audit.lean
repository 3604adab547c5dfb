import NetSettle.Proofs.Execution.Solvency
import NetSettle.Proofs.Pool.Booking

/-!
# The receipt as an audit trail

The events of a committed execution account for everything that it changed in a simulated world:
for the numbers of every pool, for the balance of every holder but the engine, and for the list of
what is to be delivered elsewhere.
-/
namespace NetSettle

namespace Context

theorem Trades.booked {σ : Type} {op : Operation} {c : Context σ} {es : List Event} {o : Overlay}
    (h : Trades op c es o) (pair : Pair) :
    (c.overlay.pool c.engine.book pair).Booked pair (o.pool c.engine.book pair) es := by
  cases h with
  | none _ hpair _ => exact Pool.booked_of_nothing fun e he => by simp [hpair e he]
  | @deal deal e p _ hlt hdeal hes hrun =>
    subst hes
    have hdealt := Operation.dealt_of_deal? hdeal hrun
    rw [Overlay.pool_put]
    by_cases hpair : pair = deal.pair
    · rw [if_pos hpair, hpair]
      exact hdealt.booked hlt
    · rw [if_neg hpair]
      refine Pool.booked_of_nothing fun e' he' => ?_
      rw [List.mem_singleton.1 he', hdealt.pair?_eq hlt]
      exact fun heq => hpair (Option.some.inj heq).symm

/-- What an execution for `payer` has changed since it began with an engine `e` and a bank `b`: no
more and no less than its events say. -/
structure Audited (e : Engine) (b : Bank) (payer : Address) (c : Context Bank) : Prop
    extends Simulated e c where
  payer : c.caller = payer
  pools : ∀ pair, (e.book.pool pair).Booked pair (c.overlay.pool e.book pair) c.events
  balances : ∀ h ≠ e.address, ∀ t, ((c.host.balance t h).toNat : Int) =
    (b.balance t h).toNat + flow (Event.delivered c.caller h) c.events t
  released : c.released = c.events.flatMap Event.due

theorem Audited.effect {nested : Runner Bank} {e : Engine} {b : Bank} {payer : Address}
    {op : Operation} {c c' : Context Bank} {es : List Event} (hbook : Keyed e.book)
    (h : c.Audited e b payer) (he : Effect nested op c c' es) : c'.Audited e b payer := by
  obtain ⟨hsimulated, gained, hmoved, hgained⟩ := h.toSimulated.effect hbook he
  have htrades := he.trades.booked
  rw [h.engine] at htrades
  exact {
    toSimulated := hsimulated
    payer := he.caller.trans h.payer
    pools := fun pair => he.events ▸ (h.pools pair).append (htrades pair)
    balances := fun holder hne t => by
      rw [hmoved.balance, h.balances holder hne, hgained.delivered holder hne, he.caller, he.events,
        flow_append, Int.add_assoc]
    released := by rw [he.due, h.released, he.events, List.flatMap_append] }

end Context

namespace World

variable {w w' : World Bank} {caller : Address} {data : List UInt8}

theorem audited_begin (h : w.Consistent) (hcaller : caller ≠ w.engine.address) (ledger : Ledger) :
    (w.begin caller ledger).Audited { w.engine with executing := true } w.host caller where
  toSimulated := simulated_begin h hcaller ledger
  payer := rfl
  pools := fun _ => Pool.booked_of_nothing nofun
  balances := fun _ _ _ => (Int.add_zero _).symm
  released := rfl

/-- The events of a receipt account for every change: of each pool, which starts from nothing if it
was not there, of the balances of all holders but the engine, and for the deliveries that are still
to be made. -/
theorem receipt_accounts_for_all (w w' : World Bank) (caller : Address) (data : List UInt8)
    (receipt : Receipt) (hkeyed : Keyed w.engine.book) (haddress : w.host.engine = w.engine.address)
    (hbounded : w.host.Bounded) (hcaller : caller ≠ w.engine.address)
    (hrun : (execute caller data).run w = .ok receipt w') :
    (∀ pair, (w.engine.book.pool pair).Booked pair (w'.engine.book.pool pair) receipt.events) ∧
    (∀ h ≠ w.engine.address, ∀ t, ((w'.host.balance t h).toNat : Int) =
      (w.host.balance t h).toNat + flow (Event.delivered caller h) receipt.events t) ∧
    receipt.released = receipt.events.flatMap Event.due := by
  obtain ⟨p, ledger, c, hcommitted⟩ := execute_eq_ok hrun
  have hc := Context.performAll_induction (fun _ _ _ _ _ hc he => hc.effect hkeyed he)
    hcommitted.performed (audited_begin ⟨hkeyed, haddress, hbounded⟩ hcaller ledger)
  have hbook : w'.engine.book = c.overlay.commitTo w.engine.book := by
    rw [hcommitted.engine, hc.engine]
  rw [hbook, hcommitted.events, hcommitted.released, hcommitted.host, ← hc.payer]
  refine ⟨fun pair => ?_, hc.balances, hc.released⟩
  rw [Overlay.pool_commitTo hc.keyed]
  exact hc.pools pair

def taxed : World Bank := { lender with engine := { lender.engine with fees := ⟨30, 100, 8⟩ } }

def taxedProgram : Program where
  ledgerCapacity := 2
  operations := [.addLiquidity 1 2 7 50 50 none, .swap 1 2 .zeroForOne (.exact 20),
    .receiveAll 1 .unbounded, .receiveAll 2 .unbounded, .deposit 1 5, .markReceived 1 .unbounded]

theorem receipt_accounts_for_all_taxed :
    ∃ receipt w', (execute 7 taxedProgram.encode).run taxed = .ok receipt w' ∧
      ((w'.engine.book.pool ⟨1, 2⟩).accruedFee0.toNat : Int) =
        flow Event.accrued (Event.about ⟨1, 2⟩ receipt.events) 1 ∧
      flow Event.accrued (Event.about ⟨1, 2⟩ receipt.events) 1 = 2 ∧
      ((w'.host.balance 1 7).toNat : Int) = 100 + flow (Event.delivered 7 7) receipt.events 1 ∧
      flow (Event.delivered 7 7) receipt.events 1 = -75 ∧
      receipt.released = [(1, 5)] := by
  obtain ⟨receipt, w', hrun, htest⟩ := Faulting.exists_of_endsWith
    (show Faulting.endsWith (fun receipt _ => decide (
        flow Event.accrued (Event.about ⟨1, 2⟩ receipt.events) 1 = 2 ∧
        flow (Event.delivered 7 7) receipt.events 1 = -75 ∧
        receipt.events.flatMap Event.due = [(1, 5)]))
      ((execute 7 taxedProgram.encode).run taxed) = true by decide +kernel)
  obtain ⟨hfees, hdelivered, hdue⟩ := of_decide_eq_true htest
  obtain ⟨hpools, hbalances, hreleased⟩ := receipt_accounts_for_all taxed w' 7 taxedProgram.encode
    receipt (PoolBook.keyed_ofPools []) rfl bounded_lender (by decide) hrun
  exact ⟨receipt, w', hrun, ((hpools ⟨1, 2⟩).accruedFee0).trans (Int.zero_add _), hfees,
    hbalances 7 (by decide) 1, hdelivered, hreleased.trans hdue⟩

end World

end NetSettle
