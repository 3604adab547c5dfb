import NetSettle.Bank
import NetSettle.Proofs.Execution.Program
import NetSettle.Proofs.Ledger.Balances

/-!
# The settlement gate

The ledger is a double entry for the events: after any operations the delta of a token is the sum
of what the events add to the debt. The closing check therefore accepts an execution exactly when
the events cancel out in every token, and otherwise counts the tokens in which they do not.
-/
namespace NetSettle

namespace Context

variable {σ : Type} [Host σ] {nested : Runner σ}

structure Accounted (c : Context σ) : Prop where
  valid : c.ledger.Valid
  exact : ∀ t, (c.ledger.deltaOf t).val = flow Event.net c.events t

omit [Host σ] in
theorem accounted_start {capacity : Nat} {ledger : Ledger} (w : World σ) (caller : Address)
    (h : Ledger.ofCapacity capacity = .ok ledger) : (start w caller ledger).Accounted := by
  obtain ⟨hv, -, hzero⟩ := Ledger.of_ofCapacity h
  refine ⟨hv, fun t => ?_⟩
  change (ledger.deltaOf t).val = 0
  rw [hzero, Delta.val_zero]

theorem Accounted.effect {op : Operation} {c c' : Context σ} {es : List Event}
    (h : c.Accounted) (he : Effect nested op c c' es) : c'.Accounted := by
  obtain ⟨hv, -, hdelta⟩ := he.ledger h.valid
  refine ⟨hv, fun t => ?_⟩
  rw [hdelta, h.exact, he.events, flow_append]

theorem accounted_of_performAll {ops : List Operation} {c c' : Context σ}
    (h : (performAll nested ops).run c = .ok () c') (hc : c.Accounted) : c'.Accounted :=
  performAll_induction (fun _ _ _ _ _ hc he => hc.effect he) h hc

omit [Host σ] in
theorem Accounted.checkSettled_eq_ok {c : Context σ} (h : c.Accounted) :
    c.ledger.checkSettled = .ok () ↔ ∀ t, flow Event.net c.events t = 0 := by
  rw [h.valid.checkSettled_eq_ok]
  apply forall_congr'
  intro t
  rw [← h.exact]
  constructor
  · intro h0
    rw [h0, Delta.val_zero]
  · exact fun h0 => Delta.ext_val h0

omit [Host σ] in
theorem Accounted.checkSettled_eq_error {c : Context σ} (h : c.Accounted)
    (hopen : ¬ ∀ t, flow Event.net c.events t = 0) :
    c.ledger.checkSettled =
      .error (.unsettledBalances {t | flow Event.net c.events t ≠ 0}.ncard) := by
  have hset : {t | flow Event.net c.events t ≠ 0} = {t | c.ledger.deltaOf t ≠ 0} := by
    ext t
    simp only [Set.mem_ofPred_eq, ← h.exact, ne_eq, not_iff_not]
    exact ⟨fun h0 => Delta.ext_val h0, fun h0 => by rw [h0, Delta.val_zero]⟩
  have hne : c.ledger.checkSettled ≠ .ok () := fun h0 => hopen (h.checkSettled_eq_ok.1 h0)
  have hcount : {t | flow Event.net c.events t ≠ 0}.ncard = c.ledger.nonzero := by
    rw [hset]
    exact h.valid.openCount_eq
  rw [hcount]
  unfold Ledger.checkSettled at hne ⊢
  split at hne
  · exact absurd rfl hne
  · rename_i hzero
    rw [if_neg hzero]

end Context

namespace World

open Context (performAll)

/-- After operations that were performed from a fresh state the delta of every token is what the
events say. A program of such operations is committed exactly when all of these are zero, and is
otherwise refused with the number of those that are not. -/
theorem settlement_gate_exact {σ : Type} [Host σ] :
    (∀ (nested : Runner σ) (w : World σ) (caller : Address) (capacity : Nat) (ledger : Ledger)
        (ops : List Operation) (c : Context σ),
      Ledger.ofCapacity capacity = .ok ledger →
      (performAll nested ops).run (.start w caller ledger) = .ok () c →
      ∀ t, (c.ledger.balance t).1.val = flow Event.net c.events t) ∧
    ∀ (w : World σ) (caller : Address) (data : List UInt8) (p : Program) (ledger : Ledger)
        (c : Context σ),
      w.engine.executing = false → Program.decode data = .ok p →
      Ledger.ofCapacity p.ledgerCapacity.toNat = .ok ledger →
      (performAll nestedRunner p.operations).run (w.begin caller ledger) = .ok () c →
      ((∃ receipt w', (execute caller data).run w = .ok receipt w') ↔
        ∀ t, flow Event.net c.events t = 0) ∧
      ((¬ ∀ t, flow Event.net c.events t = 0) → ∃ w', (execute caller data).run w =
        .error (.unsettledBalances {t | flow Event.net c.events t ≠ 0}.ncard) w') := by
  constructor
  · intro nested w caller capacity ledger ops c hledger hrun
    exact (Context.accounted_of_performAll hrun (Context.accounted_start w caller hledger)).exact
  · intro w caller data p ledger c hidle hdecode hledger hrun
    have hc := Context.accounted_of_performAll hrun (Context.accounted_start _ caller hledger)
    obtain ⟨hok, herror⟩ := execute_of_performAll hidle hdecode hledger hrun
    have hrefused (hopen : ¬ ∀ t, flow Event.net c.events t = 0) :=
      herror _ (hc.checkSettled_eq_error hopen)
    refine ⟨⟨?_, fun hzero => hok (hc.checkSettled_eq_ok.2 hzero)⟩, hrefused⟩
    rintro ⟨receipt, w', hcommitted⟩
    by_contra hopen
    obtain ⟨w'', hfailed⟩ := hrefused hopen
    rw [hcommitted] at hfailed
    cases hfailed

def lender : World Bank where
  engine := ⟨9, 8, .standard, .empty, false⟩
  host := ((((Bank.new 9).mint 1 7 100).mint 2 7 100).approve 1 7 100).approve 2 7 100
  journal := []

def openDeposit : Program := ⟨1, [.deposit 1 5]⟩

theorem settlement_gate_exact_openDeposit :
    ∃ ledger c, Ledger.ofCapacity 1 = .ok ledger ∧
      (performAll nestedRunner openDeposit.operations).run (lender.begin 7 ledger) = .ok () c ∧
      (c.ledger.balance 1).1.val = -5 ∧
      ∃ w', (execute 7 openDeposit.encode).run lender = .error (.unsettledBalances 1) w' := by
  obtain ⟨ledger, c, hledger, hrun, hevents⟩ : ∃ ledger c, Ledger.ofCapacity 1 = .ok ledger ∧
      (performAll nestedRunner openDeposit.operations).run (lender.begin 7 ledger) = .ok () c ∧
      c.events = [.deposited 1 5] := by
    refine ⟨_, _, rfl, rfl, ?_⟩
    rfl
  have hdecode : Program.decode openDeposit.encode = .ok openDeposit := by decide +kernel
  obtain ⟨hexact, hgate⟩ := settlement_gate_exact (σ := Bank)
  have hdelta := hexact nestedRunner _ 7 1 ledger openDeposit.operations c hledger hrun
  obtain ⟨-, hrefused⟩ := hgate lender 7 _ openDeposit ledger c rfl hdecode hledger hrun
  have hnet : ∀ t, flow Event.net c.events t = -only 1 5 t := by
    intro t
    rw [hevents, flow_singleton]
    rfl
  have hopen : {t | flow Event.net c.events t ≠ 0} = {1} := by
    ext t
    simp [hnet, only]
  rw [hopen, Set.ncard_singleton] at hrefused
  refine ⟨ledger, c, hledger, hrun, (hdelta 1).trans (hnet 1), hrefused fun hzero => ?_⟩
  have h1 := hzero 1
  rw [hnet] at h1
  exact absurd h1 (by decide)

end World

end NetSettle
