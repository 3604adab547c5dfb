import NetSettle.Proofs.Execution.Solvency

/-!
# What the parties of a program are promised

Bounds are checked against what there is to settle at one moment of a program. They hold of the
balances after it too: in a simulated world nothing but the settlements and the withdrawals of a
program adds to the balance of a third party, and nothing but what the caller pays takes from
anyone. Every operation that names a party therefore leaves it at least what was promised.
-/
namespace NetSettle

open Faulting

namespace Operation

def leastSent (holder t : Address) : Operation → Nat
  | .sendAll token recipient bounds =>
    if t = token ∧ holder = recipient then (bounds.min.getD 0).toNat else 0
  | .swap .. | .addLiquidity .. | .removeLiquidity .. | .claimFees .. | .receiveAll ..
  | .receiveAllViaCallback .. | .markReceived .. | .deposit .. | .withdraw .. | .permit .. => 0

def mostTaken (t : Address) : Operation → Nat
  | .receiveAll token bounds | .receiveAllViaCallback token bounds =>
    if t = token then (bounds.max.getD Amount.max).toNat else 0
  | .deposit token amount => if t = token then amount.toNat else 0
  | .swap .. | .addLiquidity .. | .removeLiquidity .. | .claimFees .. | .sendAll ..
  | .markReceived .. | .withdraw .. | .permit .. => 0

theorem promised_third {caller holder : Address} (h : holder ≠ caller) (op : Operation)
    (t : Address) : op.promised caller holder t = op.leastSent holder t := by
  cases op with
  | sendAll token recipient bounds =>
    by_cases ht : t = token <;> by_cases hh : holder = recipient <;>
      simp [promised, leastSent, only, ht, hh]
  | receiveAll | receiveAllViaCallback | deposit => exact if_neg h
  | swap | addLiquidity | removeLiquidity | claimFees | markReceived | withdraw | permit => rfl

theorem neg_mostTaken_le (op : Operation) (caller t : Address) :
    -(op.mostTaken t : Int) ≤ op.promised caller caller t := by
  cases op with
  | sendAll token recipient bounds =>
    simp only [promised, mostTaken]
    split
    · exact only_nonneg (Int.natCast_nonneg _) token t
    · exact Int.le_refl 0
  | receiveAll token bounds | receiveAllViaCallback token bounds | deposit token bounds =>
    by_cases ht : t = token <;> simp [promised, mostTaken, only, ht]
  | swap | addLiquidity | removeLiquidity | claimFees | markReceived | withdraw | permit =>
    exact Int.le_refl 0

theorem sum_promised_third {caller holder : Address} (h : holder ≠ caller) (ops : List Operation)
    (t : Address) : (ops.map fun op => op.promised caller holder t).sum =
      ((ops.map (leastSent holder t)).sum : Nat) := by
  induction ops with
  | nil => rfl
  | cons op ops ih =>
    rw [List.map_cons, List.map_cons, List.sum_cons, List.sum_cons, ih, promised_third h]
    exact (Int.natCast_add _ _).symm

theorem neg_sum_mostTaken_le (ops : List Operation) (caller t : Address) :
    -((ops.map (mostTaken t)).sum : Int) ≤
      (ops.map fun op => op.promised caller caller t).sum := by
  induction ops with
  | nil => exact Int.le_refl 0
  | cons op ops ih =>
    have hop := op.neg_mostTaken_le caller t
    simp only [List.map_cons, List.sum_cons]
    omega

end Operation

namespace Context

variable {nested : Runner Bank} {c c' : Context Bank}

structure Banked (c : Context Bank) : Prop where
  address : c.host.engine = c.engine.address
  bounded : c.host.Bounded
  caller : c.caller ≠ c.engine.address

theorem Banked.effect {op : Operation} {es : List Event} (h : c.Banked)
    (he : Effect nested op c c' es) :
    c'.Banked ∧ c'.engine = c.engine ∧ ∀ holder ≠ c.engine.address, ∀ t,
      ((c.host.balance t holder).toNat : Int) + op.promised c.caller holder t ≤
        (c'.host.balance t holder).toNat := by
  obtain ⟨hengine, gained, hmoved, hgained⟩ := he.outside.moved h.address h.bounded h.caller
  refine ⟨⟨?_, hmoved.bounded, ?_⟩, hengine, fun holder hne t => ?_⟩
  · rw [hmoved.engine, hengine]
    exact h.address
  · rw [he.caller, hengine]
    exact h.caller
  · have hkept := he.kept holder t
    rw [hmoved.balance, hgained.delivered holder hne]
    omega

theorem performAll_promised {ops : List Operation} (h : c.Banked)
    (hrun : (performAll nested ops).run c = .ok () c') {holder : Address}
    (hne : holder ≠ c.engine.address) (t : Address) :
    ((c.host.balance t holder).toNat : Int) +
      (ops.map fun op => op.promised c.caller holder t).sum ≤
        (c'.host.balance t holder).toNat := by
  induction ops generalizing c with
  | nil =>
    obtain ⟨-, rfl⟩ := run_pure_eq_ok.1 hrun
    simp
  | cons op ops ih =>
    rw [performAll, run_bind_eq_ok] at hrun
    obtain ⟨_, c₁, hop, hrest⟩ := hrun
    obtain ⟨es, heffect⟩ := perform_eq_ok hop
    obtain ⟨hbanked, hengine, hstep⟩ := h.effect heffect
    have hfirst := hstep holder hne t
    have hothers := ih hbanked hrest (hengine ▸ hne)
    rw [heffect.caller] at hothers
    rw [List.map_cons, List.sum_cons]
    omega

end Context

namespace World

/-- Whatever the pools are and whatever else a committed program does, a third party has received
at least what the lower bounds of the transfers to it say, and the caller has paid at most what its
deposits and the upper bounds of its payments say. -/
theorem bounds_protect_parties (w w' : World Bank) (caller : Address) (data : List UInt8)
    (receipt : Receipt) (haddress : w.host.engine = w.engine.address) (hbounded : w.host.Bounded)
    (hcaller : caller ≠ w.engine.address)
    (hrun : (execute caller data).run w = .ok receipt w') :
    ∃ p, Program.decode data = .ok p ∧
      (∀ holder ≠ caller, holder ≠ w.engine.address → ∀ t,
        (w.host.balance t holder).toNat + (p.operations.map (Operation.leastSent holder t)).sum ≤
          (w'.host.balance t holder).toNat) ∧
      ∀ t, (w.host.balance t caller).toNat ≤
        (w'.host.balance t caller).toNat + (p.operations.map (Operation.mostTaken t)).sum := by
  obtain ⟨p, ledger, c, hcommitted⟩ := execute_eq_ok hrun
  have hbanked : (w.begin caller ledger).Banked := ⟨haddress, hbounded, hcaller⟩
  have hkept {holder : Address} (hne : holder ≠ w.engine.address) (t : Address) :=
    Context.performAll_promised hbanked hcommitted.performed hne t
  rw [hcommitted.host]
  refine ⟨p, hcommitted.decoded, fun holder hthird hne t => ?_, fun t => ?_⟩
  · have hreceived := hkept hne t
    change _ + (p.operations.map fun op => op.promised caller holder t).sum ≤ _ at hreceived
    rw [Operation.sum_promised_third hthird] at hreceived
    exact Int.ofNat_le.1 hreceived
  · have hpaid := hkept hcaller t
    have hmost := Operation.neg_sum_mostTaken_le p.operations caller t
    change (w.host.balance t caller).toNat + (p.operations.map fun op =>
      op.promised caller caller t).sum ≤ _ at hpaid
    omega

def boundedProgram : Program where
  ledgerCapacity := 2
  operations := [.deposit 1 5, .sendAll 1 5 ⟨some 3, none⟩, .addLiquidity 1 2 7 50 50 none,
    .receiveAll 1 ⟨none, some 60⟩, .receiveAllViaCallback 2 ⟨some 10, some 50⟩]

theorem bounds_protect_parties_bounded :
    ∃ receipt w', (execute 7 boundedProgram.encode).run lender = .ok receipt w' ∧
      3 ≤ (w'.host.balance 1 5).toNat ∧ 100 ≤ (w'.host.balance 1 7).toNat + 65 ∧
      100 ≤ (w'.host.balance 2 7).toNat + 50 := by
  obtain ⟨receipt, w', hrun, -⟩ := exists_of_endsWith
    (show endsWith (fun _ _ => true) ((execute 7 boundedProgram.encode).run lender) = true by
      decide +kernel)
  have hdecode : Program.decode boundedProgram.encode = .ok boundedProgram := by decide +kernel
  obtain ⟨p, hp, hreceived, hpaid⟩ := bounds_protect_parties lender w' 7 boundedProgram.encode
    receipt rfl bounded_lender (by decide) hrun
  rw [hdecode] at hp
  cases hp
  refine ⟨receipt, w', hrun, ?_, hpaid 1, hpaid 2⟩
  exact (Nat.le_add_left ..).trans (hreceived 5 (by decide) (by decide) 1)

end World

end NetSettle
