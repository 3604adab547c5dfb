import NetSettle.Proofs.Bank
import NetSettle.Proofs.Execution.Gate
import NetSettle.Proofs.Execution.Requests

/-!
# Conservation and solvency

In a simulated world every token that an execution moves is accounted for. The engine's balance
changes by what its pools gain and by what is left to be delivered elsewhere; only a payment of the
engine to itself leaves it more. Run after run the engine can therefore cover its reserves, its
accrued fees and all deliveries.
-/
namespace NetSettle

namespace Context

variable {nested : Runner Bank}

structure Gains (engine caller : Address) (payee : Option Address) (es : List Event)
    (gained : Address → Address → Int) : Prop where
  paid_le : ∀ t, flow Event.paid es t ≤ gained engine t
  paid_eq : payee ≠ some engine → ∀ t, gained engine t = flow Event.paid es t
  delivered : ∀ h ≠ engine, ∀ t, gained h t = flow (Event.delivered caller h) es t

section

variable {engine caller token : Address} {payee : Option Address} {es : List Event} {n : Nat}

theorem gains_nothing (hpaid : ∀ t, flow Event.paid es t = 0)
    (hdelivered : ∀ h t, flow (Event.delivered caller h) es t = 0) :
    Gains engine caller payee es fun _ _ => 0 where
  paid_le := fun t => (hpaid t).le
  paid_eq := fun _ t => (hpaid t).symm
  delivered := fun h _ t => (hdelivered h t).symm

theorem gains_sent {recipient : Address}
    (hpaid : ∀ t, flow Event.paid es t = -only token n t)
    (hdelivered : ∀ h t, flow (Event.delivered caller h) es t =
      if h = recipient then only token n t else 0) :
    Gains engine caller (some recipient) es (Bank.shift token engine recipient n) where
  paid_le := fun t => by
    have hnonneg := only_nonneg (Int.natCast_nonneg n) token t
    rw [hpaid, Bank.shift, if_pos rfl]
    split <;> omega
  paid_eq := fun hne t => by
    rw [Bank.shift_sender fun heq => hne (congrArg some heq.symm), hpaid]
  delivered := fun h hne t => by rw [hdelivered, Bank.shift, if_neg hne, Int.sub_zero]

theorem gains_pulled (hcaller : caller ≠ engine)
    (hpaid : ∀ t, flow Event.paid es t = only token n t)
    (hdelivered : ∀ h t, flow (Event.delivered caller h) es t =
      if h = caller then -only token n t else 0) :
    Gains engine caller payee es (Bank.shift token caller engine n) where
  paid_le := fun t => by rw [Bank.shift_recipient hcaller.symm, hpaid]
  paid_eq := fun _ t => by rw [Bank.shift_recipient hcaller.symm, hpaid]
  delivered := fun h hne t => by
    rw [hdelivered, Bank.shift, if_neg hne]
    split <;> omega

end

theorem Contact.moved {op : Operation} {c : Context Bank} {es : List Event} {e : Engine}
    {host : Bank} (h : Contact nested op c es e host) (haddress : c.host.engine = c.engine.address)
    (hb : c.host.Bounded) (hcaller : c.caller ≠ c.engine.address) :
    e = c.engine ∧ ∃ gained, c.host.Moved host gained ∧
      Gains c.engine.address c.caller op.payee es gained := by
  cases h with
  | none hpaid hdelivered =>
    exact ⟨rfl, _, Bank.moved_refl hb, gains_nothing hpaid hdelivered⟩
  | sendOut hpayee hpaid hdelivered hrun =>
    obtain ⟨b, hsent, rfl⟩ := Bank.run_ofRun_eq_ok.1 hrun
    rw [hpayee]
    exact ⟨rfl, _, haddress ▸ Bank.sendOut_eq_ok hb hsent, gains_sent hpaid hdelivered⟩
  | pullIn hpaid hdelivered hrun =>
    obtain ⟨b, hpulled, rfl⟩ := Bank.run_ofRun_eq_ok.1 hrun
    exact ⟨rfl, _, haddress ▸ Bank.pullIn_eq_ok hb hpulled, gains_pulled hcaller hpaid hdelivered⟩
  | grantPermit hpaid hdelivered hrun =>
    obtain ⟨b, hgranted, rfl⟩ := Bank.run_ofRun_eq_ok.1 hrun
    exact ⟨rfl, _, Bank.grantPermit_eq_ok hb hgranted, gains_nothing hpaid hdelivered⟩
  | @settled token amount before after marker _ w₁ _ hpaid hdelivered hbefore hrun hafter hgain =>
    cases hbefore
    cases hafter
    rw [Bank.serve_settle] at hrun
    cases hrun
    obtain ⟨k, hk, hmoved⟩ := Bank.settle_moved hb c.caller token amount
    rw [haddress] at hmoved
    -- The engine saw at least the amount arrive, and no more than that was pushed.
    have hall : k = amount.toNat := by
      have hbalance := hmoved.balance c.engine.address token
      rw [Bank.shift_recipient hcaller.symm, only_self] at hbalance
      change amount.toNat ≤
        ((c.host.settle c.caller token amount).2.1.balance token c.engine.address).toNat -
          (c.host.balance token c.engine.address).toNat at hgain
      omega
    subst hall
    exact ⟨rfl, _, hmoved, gains_pulled hcaller hpaid hdelivered⟩

structure Simulated (e : Engine) (c : Context Bank) : Prop where
  engine : c.engine = e
  address : c.host.engine = e.address
  bounded : c.host.Bounded
  caller : c.caller ≠ e.address
  keyed : Keyed c.overlay.touched

theorem Simulated.effect {e : Engine} {op : Operation} {c c' : Context Bank} {es : List Event}
    (hbook : Keyed e.book) (h : c.Simulated e) (he : Effect nested op c c' es) :
    c'.Simulated e ∧ ∃ gained, c.host.Moved c'.host gained ∧
      Gains e.address c.caller op.payee es gained := by
  obtain ⟨rfl, haddress, hb, hcaller, hkeyed⟩ := h
  obtain ⟨hengine, gained, hmoved, hgained⟩ := he.outside.moved haddress hb hcaller
  exact ⟨{
    engine := hengine
    address := hmoved.engine.trans haddress
    bounded := hmoved.bounded
    caller := he.caller ▸ hcaller
    keyed := he.overlay.keyed hbook hkeyed }, gained, hmoved, hgained⟩

structure Conserved (e : Engine) (before : Address → Int) (exact : Prop) (c : Context Bank) : Prop
    extends Simulated e c where
  accounted : c.Accounted
  gained : ∀ t, c.overlay.gain e.book t = flow Event.pooled c.events t
  due : ∀ t, totalOf c.released t = flow Event.released c.events t
  paid_le : ∀ t, before t + flow Event.paid c.events t ≤ c.host.held t
  paid_eq : exact → ∀ t, c.host.held t = before t + flow Event.paid c.events t

theorem Conserved.effect {e : Engine} {before : Address → Int} {exact : Prop} {op : Operation}
    {c c' : Context Bank} {es : List Event} (hbook : Keyed e.book)
    (hpayee : exact → op.payee ≠ some e.address) (h : c.Conserved e before exact)
    (he : Effect nested op c c' es) : c'.Conserved e before exact := by
  obtain ⟨hsimulated, gained, hmoved, hgained⟩ := h.toSimulated.effect hbook he
  have hoverlay := he.overlay
  rw [h.engine] at hoverlay
  have hheld := hmoved.held
  rw [h.address] at hheld
  exact {
    toSimulated := hsimulated
    accounted := h.accounted.effect he
    gained := fun t => by
      rw [hoverlay.gain hbook h.keyed, h.gained, he.events, flow_append]
    due := fun t => by rw [he.released, h.due, he.events, flow_append]
    paid_le := fun t => by
      have hstep := hgained.paid_le t
      have hbefore := h.paid_le t
      rw [hheld, he.events, flow_append]
      omega
    paid_eq := fun hexact t => by
      rw [hheld, h.paid_eq hexact, hgained.paid_eq (hpayee hexact), he.events, flow_append]
      omega }

end Context

namespace World

structure Consistent (w : World Bank) : Prop where
  keyed : Keyed w.engine.book
  address : w.host.engine = w.engine.address
  bounded : w.host.Bounded

variable {w w' : World Bank} {caller : Address} {data : List UInt8}

theorem simulated_begin (h : w.Consistent) (hcaller : caller ≠ w.engine.address)
    (ledger : Ledger) :
    (w.begin caller ledger).Simulated { w.engine with executing := true } where
  engine := rfl
  address := h.address
  bounded := h.bounded
  caller := hcaller
  keyed := SortedMap.all_empty _

theorem conserved_begin (h : w.Consistent) (hcaller : caller ≠ w.engine.address) {capacity : Nat}
    {ledger : Ledger} (hledger : Ledger.ofCapacity capacity = .ok ledger) (exact : Prop) :
    (w.begin caller ledger).Conserved { w.engine with executing := true } w.host.held exact where
  toSimulated := simulated_begin h hcaller ledger
  accounted := Context.accounted_start _ _ hledger
  gained := fun _ => rfl
  due := fun _ => rfl
  paid_le := fun _ => (Int.add_zero _).le
  paid_eq := fun _ _ => (Int.add_zero _).symm

theorem conserves_of_executed {receipt : Receipt} (h : w.Consistent)
    (hcaller : caller ≠ w.engine.address)
    (hrun : (execute caller data).run w = .ok receipt w') :
    w'.Consistent ∧ w'.engine.address = w.engine.address ∧
      ∃ p, Program.decode data = .ok p ∧
        (∀ t, w'.engine.book.holdings t - w.engine.book.holdings t +
          totalOf receipt.released t ≤ w'.host.held t - w.host.held t) ∧
        ((∀ op ∈ p.operations, op.payee ≠ some w.engine.address) →
          ∀ t, w'.host.held t - w.host.held t = w'.engine.book.holdings t -
            w.engine.book.holdings t + totalOf receipt.released t) := by
  obtain ⟨p, ledger, c, hcommitted⟩ := execute_eq_ok hrun
  have hc := Context.performAll_induction
    (fun op hop _ _ _ hc he => hc.effect h.keyed (fun hexact => hexact op hop) he)
    hcommitted.performed (conserved_begin h hcaller hcommitted.opened
      (∀ op ∈ p.operations, op.payee ≠ some w.engine.address))
  have hnet := hc.accounted.checkSettled_eq_ok.1 hcommitted.settled
  have hbook : w'.engine.book = c.overlay.commitTo w.engine.book := by
    rw [hcommitted.engine, hc.engine]
  have haddress : w'.engine.address = w.engine.address := by
    rw [hcommitted.engine, hc.engine]
  -- The events balance, and what they add to the debt has come to nothing.
  have hpaid : ∀ t, flow Event.paid c.events t =
      w'.engine.book.holdings t - w.engine.book.holdings t + totalOf receipt.released t := by
    intro t
    have hbalanced := flow_balanced c.events t
    have hgained := hc.gained t
    have hdue := hc.due t
    have hcommit := Overlay.holdings_commitTo hc.keyed w.engine.book t
    rw [hbook, hcommit, hcommitted.released]
    change c.overlay.gain w.engine.book t = _ at hgained
    rw [hnet] at hbalanced
    omega
  refine ⟨⟨?_, ?_, ?_⟩, haddress, p, hcommitted.decoded, fun t => ?_, fun hexact t => ?_⟩
  · rw [hbook]
    exact Overlay.all_commitTo hc.keyed hc.keyed h.keyed
  · rw [hcommitted.host, haddress]
    exact hc.address
  · rw [hcommitted.host]
    exact hc.bounded
  · have hle := hc.paid_le t
    rw [hcommitted.host, ← hpaid]
    omega
  · have heq := hc.paid_eq hexact t
    rw [hcommitted.host, ← hpaid]
    omega

/-- Runs a program and puts the outside world back if it fails. Also returns what is to be
delivered. -/
def attempt (caller : Address) (data : List UInt8) (w : World Bank) :
    World Bank × List (Address × Word) :=
  match (execute caller data).run w with
  | .ok receipt w' => (w', receipt.released)
  | .error _ w' => ({ w' with host := w.host }, [])

def attempts : List (Address × List UInt8) → World Bank → World Bank × List (Address × Word)
  | [], w => (w, [])
  | (caller, data) :: runs, w =>
    let (w, due) := attempt caller data w
    let (w, later) := attempts runs w
    (w, due ++ later)

theorem attempt_covers (data : List UInt8) (h : w.Consistent)
    (hcaller : caller ≠ w.engine.address) :
    (attempt caller data w).1.Consistent ∧
      (attempt caller data w).1.engine.address = w.engine.address ∧
      ∀ t, (attempt caller data w).1.engine.book.holdings t - w.engine.book.holdings t +
        totalOf (attempt caller data w).2 t ≤
          (attempt caller data w).1.host.held t - w.host.held t := by
  unfold attempt
  cases hrun : (execute caller data).run w with
  | ok receipt w' =>
    obtain ⟨hconsistent, haddress, p, -, hle, -⟩ := conserves_of_executed h hcaller hrun
    exact ⟨hconsistent, haddress, hle⟩
  | error fault w' =>
    have hkept : w'.engine.book = w.engine.book ∧ w'.engine.address = w.engine.address := by
      rcases execute_eq_error_of_keptByFees
        (P := fun e => e.executing = true ∧ e.book = w.engine.book ∧ e.address = w.engine.address)
        (fun _ h => h.1) (fun _ _ h _ => h) ⟨rfl, rfl, rfl⟩ hrun with rfl | ⟨e, he, hw'⟩
      · exact ⟨rfl, rfl⟩
      · rw [hw']
        exact he.2
    obtain ⟨hbook, haddress⟩ := hkept
    refine ⟨⟨?_, ?_, h.bounded⟩, haddress, fun t => ?_⟩
    · exact hbook ▸ h.keyed
    · exact h.address.trans haddress.symm
    · simp [hbook]

theorem attempts_cover (runs : List (Address × List UInt8)) (h : w.Consistent)
    (hcallers : ∀ run ∈ runs, run.1 ≠ w.engine.address) (t : Address) :
    (attempts runs w).1.engine.book.holdings t - w.engine.book.holdings t +
      totalOf (attempts runs w).2 t ≤ (attempts runs w).1.host.held t - w.host.held t := by
  induction runs generalizing w with
  | nil => simp [attempts]
  | cons run runs ih =>
    obtain ⟨caller, data⟩ := run
    have hcaller : caller ≠ w.engine.address := hcallers _ (List.mem_cons_self ..)
    obtain ⟨hconsistent, haddress, hle⟩ := attempt_covers data h hcaller
    have hrest := ih hconsistent fun run hmem =>
      haddress ▸ hcallers run (List.mem_cons_of_mem _ hmem)
    have hfirst := hle t
    simp only [attempts, totalOf_append]
    omega

/-- Every token that a committed execution moves is accounted for, and an engine that began without
pools covers all its reserves, fees and deliveries after any sequence of executions. -/
theorem execution_conserves_tokens :
    (∀ (w w' : World Bank) (caller : Address) (data : List UInt8) (receipt : Receipt),
      Keyed w.engine.book → w.host.engine = w.engine.address → w.host.Bounded →
      caller ≠ w.engine.address → (execute caller data).run w = .ok receipt w' →
      ∃ p, Program.decode data = .ok p ∧
        (∀ t, w'.engine.book.holdings t - w.engine.book.holdings t +
          totalOf receipt.released t ≤ w'.host.held t - w.host.held t) ∧
        ((∀ op ∈ p.operations, op.payee ≠ some w.engine.address) →
          ∀ t, w'.host.held t - w.host.held t = w'.engine.book.holdings t -
            w.engine.book.holdings t + totalOf receipt.released t)) ∧
      ∀ (w : World Bank) (runs : List (Address × List UInt8)),
        w.engine.book = .empty → w.host.engine = w.engine.address → w.host.Bounded →
        (∀ run ∈ runs, run.1 ≠ w.engine.address) →
        ∀ t, (attempts runs w).1.engine.book.holdings t + totalOf (attempts runs w).2 t ≤
          (attempts runs w).1.host.held t := by
  constructor
  · intro w w' caller data receipt hkeyed haddress hbounded hcaller hrun
    exact (conserves_of_executed ⟨hkeyed, haddress, hbounded⟩ hcaller hrun).2.2
  · intro w runs hbook haddress hbounded hcallers t
    have h : w.Consistent := ⟨hbook ▸ SortedMap.all_empty _, haddress, hbounded⟩
    have hcover := attempts_cover runs h hcallers t
    have hempty : w.engine.book.holdings t = 0 := by
      rw [hbook]
      rfl
    have hheld : 0 ≤ w.host.held t := Int.natCast_nonneg _
    omega

def escrowProgram : Program := ⟨1, [.deposit 1 5, .markReceived 1 .unbounded]⟩

theorem bounded_lender : lender.host.Bounded := by
  intro t
  have h₁ := (Bank.new 9).supply_mint_le 1 7 100 t
  have h₂ := ((Bank.new 9).mint 1 7 100).supply_mint_le 2 7 100 t
  have hnew : (Bank.new 9).supply t = 0 := rfl
  have hhundred : (100 : Word).toNat = 100 := rfl
  change (((Bank.new 9).mint 1 7 100).mint 2 7 100).supply t ≤ _
  unfold only at h₁ h₂
  split at h₁ <;> split at h₂ <;> omega

theorem execution_conserves_tokens_escrow :
    ∃ receipt w', (execute 7 escrowProgram.encode).run lender = .ok receipt w' ∧
      receipt.released = [(1, 5)] ∧
      (∀ t, w'.host.held t - lender.host.held t = w'.engine.book.holdings t -
        lender.engine.book.holdings t + totalOf receipt.released t) ∧
      ∀ t, (attempts [(7, escrowProgram.encode), (7, [])] lender).1.engine.book.holdings t +
        totalOf (attempts [(7, escrowProgram.encode), (7, [])] lender).2 t ≤
          (attempts [(7, escrowProgram.encode), (7, [])] lender).1.host.held t := by
  obtain ⟨receipt, w', hrun, hreleased⟩ := Faulting.exists_of_endsWith
    (show Faulting.endsWith (fun receipt _ => decide (receipt.released = [(1, 5)]))
      ((execute 7 escrowProgram.encode).run lender) = true by decide +kernel)
  have hdecode : Program.decode escrowProgram.encode = .ok escrowProgram := by decide +kernel
  obtain ⟨hone, hmany⟩ := execution_conserves_tokens
  obtain ⟨p, hp, -, hexact⟩ := hone lender w' 7 escrowProgram.encode receipt
    (PoolBook.keyed_ofPools []) rfl bounded_lender (by decide) hrun
  rw [hdecode] at hp
  cases hp
  exact ⟨receipt, w', hrun, of_decide_eq_true hreleased, hexact (by decide),
    hmany lender _ rfl rfl bounded_lender (by decide)⟩

end World

end NetSettle
