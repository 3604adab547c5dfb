import NetSettle.Proofs.Execution.Settlements
import NetSettle.Proofs.Execution.Solvency
import NetSettle.Proofs.Ledger.Balances

/-!
# Tokens that come in

A debt is cleared, or a credit given, for tokens that come in. They are pulled from the caller, or
the caller pushes them and the engine looks at its balance. Where the engine looks, its balance has
grown by as much as was cleared. Where it pulls, it trusts the transfer, and a transfer from the
engine to itself brings nothing: an engine that is its own caller, and has granted itself an
allowance, clears its debt and gets its credit for nothing.
-/
namespace NetSettle

open Faulting

inductive Inflow where
  | received (bounds : Bounds)
  | receivedViaCallback (bounds : Bounds)
  | deposited (amount : Amount)

namespace Inflow

def operation (token : Address) : Inflow → Operation
  | received bounds => .receiveAll token bounds
  | receivedViaCallback bounds => .receiveAllViaCallback token bounds
  | deposited amount => .deposit token amount

/-- What is cleared from the ledger of the caller's debt, or credited against it. -/
def credit (token : Address) (l : Ledger) : Inflow → Nat
  | received _ | receivedViaCallback _ => (l.deltaOf token).magnitude.toNat
  | deposited amount => amount.toNat

/-- Whether the engine pulls the tokens, and does not look at its balance. -/
def Pulls : Inflow → Prop
  | received _ | deposited _ => True
  | receivedViaCallback _ => False

instance : DecidablePred Pulls
  | received _ | deposited _ => .isTrue trivial
  | receivedViaCallback _ => .isFalse id

end Inflow

namespace Bank

variable {b b' : Bank} {token owner caller : Address} {n : Word}

theorem held_pullIn (hb : b.Bounded) (h : (pullIn token owner n).run b = .ok () b') :
    b'.held token = b.held token + if owner = b.engine then 0 else (n.toNat : Int) := by
  rw [(pullIn_eq_ok hb h).held, shift_to]

theorem held_settled? (hb : b.Bounded) (h : b.settled? b.engine caller token n = some b') :
    b'.held token = b.held token + n.toNat := by
  obtain ⟨-, hreceived, rfl⟩ := settled?_eq_some.1 h
  obtain ⟨k, hk, hmoved⟩ := settle_moved hb caller token n
  have hreceived' : n.toNat ≤ ((b.settle caller token n).2.1.balance token b.engine).toNat -
      (b.balance token b.engine).toNat := by
    rw [← Word.toNat_subSaturating]
    exact Nat.not_lt.1 hreceived
  have hgain := hmoved.held token
  rw [shift_to] at hgain
  unfold held at hgain ⊢
  rw [hmoved.engine] at hgain ⊢
  split at hgain <;> omega

theorem held_received {bounds : Bounds} {engine : Address} (hb : b.Bounded)
    (h : (Settling.mk token .received bounds).pay engine caller n b = some b') :
    b'.held token = b.held token + if caller = b.engine then 0 else (n.toNat : Int) := by
  unfold Settling.pay at h
  by_cases hzero : n = 0
  · rw [if_pos hzero, Option.some_inj] at h
    rw [h, hzero]
    simp
  · rw [if_neg hzero] at h
    cases hrun : (pullIn token caller n).run b with
    | ok _ b₁ =>
      simp only [hrun, state?, Option.some_inj] at h
      exact h ▸ held_pullIn hb hrun
    | error fault b₁ =>
      simp only [hrun, state?] at h
      cases h

theorem held_receivedViaCallback {bounds : Bounds} (hb : b.Bounded)
    (h : (Settling.mk token .receivedViaCallback bounds).pay b.engine caller n b = some b') :
    b'.held token = b.held token + n.toNat := by
  unfold Settling.pay at h
  by_cases hzero : n = 0
  · rw [if_pos hzero, Option.some_inj] at h
    rw [h, hzero]
    simp
  · rw [if_neg hzero] at h
    exact held_settled? hb h

end Bank

namespace Context

variable {nested : Runner Bank} {c c' : Context Bank} {way : Inflow} {token : Address}

theorem debt_settled {kind : Settlement} {bounds : Bounds} {l : Ledger} (hl : l.Valid)
    (hadmitted : (Settling.mk token kind bounds).Admitted l)
    (hside : (Settling.mk token kind bounds).side = .toPool) :
    (l.clear token).2.debt token = l.debt token - (l.deltaOf token).magnitude.toNat := by
  have hsigned := Side.signed_magnitude hadmitted.side
  rw [hside] at hsigned
  obtain ⟨-, -, hdelta⟩ := l.posts_clear token hl
  rw [Ledger.debt, hdelta, only_self, Ledger.clear_fst, Ledger.debt]
  simp only [Side.signed] at hsigned
  omega

theorem inflow_eq_ok (hledger : c.ledger.Reached) (hengine : c.host.engine = c.engine.address)
    (hbounded : c.host.Bounded) (h : (perform nested (way.operation token)).run c = .ok () c') :
    c'.ledger.debt token = c.ledger.debt token - way.credit token c.ledger ∧
    c'.host.held token = c.host.held token +
      if way.Pulls ∧ c.caller = c.engine.address then 0 else (way.credit token c.ledger : Int) := by
  have hvalid := hledger.valid
  cases way with
  | received bounds =>
    obtain ⟨hadmitted, b, hpaid, rfl⟩ := (perform_settling (s := ⟨token, .received, bounds⟩)).1 h
    refine ⟨debt_settled hvalid hadmitted rfl, ?_⟩
    have hheld := Bank.held_received hbounded hpaid
    rw [hengine] at hheld
    exact hheld.trans (congrArg _ (if_congr (and_iff_right trivial).symm rfl rfl))
  | receivedViaCallback bounds =>
    obtain ⟨hadmitted, b, hpaid, rfl⟩ :=
      (perform_settling (s := ⟨token, .receivedViaCallback, bounds⟩)).1 h
    refine ⟨debt_settled hvalid hadmitted rfl, ?_⟩
    rw [paid?, ← hengine] at hpaid
    rw [if_neg fun h => h.1]
    exact Bank.held_receivedViaCallback hbounded hpaid
  | deposited amount =>
    obtain ⟨-, ⟨rfl, rfl⟩ | ⟨-, w, l, hserved, hl, rfl⟩⟩ := deposit_eq_ok h
    · simp [Inflow.credit]
    · obtain ⟨-, -, hdelta⟩ := hl hvalid
      obtain ⟨b, hpulled, rfl⟩ := Bank.run_ofRun_eq_ok.1 hserved
      have hheld := Bank.held_pullIn hbounded hpulled
      rw [Amount.toNat_widen, hengine] at hheld
      refine ⟨?_, ?_⟩
      · rw [Ledger.debt, hdelta, only_self]
        rfl
      · exact hheld.trans (congrArg _ (if_congr (and_iff_right trivial).symm rfl rfl))

/-- Where tokens come in, the caller's debt falls by the credit, and the balance of the engine grows
by as much unless the engine pulls them from itself. So every credit is backed but those. -/
theorem inflow_reaches_engine (nested : Runner Bank) (way : Inflow) (token : Address)
    (hledger : c.ledger.Reached) (hengine : c.host.engine = c.engine.address)
    (hbounded : c.host.Bounded) (h : (perform nested (way.operation token)).run c = .ok () c') :
    c'.ledger.debt token = c.ledger.debt token - way.credit token c.ledger ∧
    c'.host.held token = c.host.held token +
      (if way.Pulls ∧ c.caller = c.engine.address then 0
        else (way.credit token c.ledger : Int)) ∧
    (c'.host.held token - c.host.held token ≥ way.credit token c.ledger ↔
      ¬ (way.Pulls ∧ c.caller = c.engine.address) ∨ way.credit token c.ledger = 0) := by
  obtain ⟨hdebt, hheld⟩ := inflow_eq_ok hledger hengine hbounded h
  refine ⟨hdebt, hheld, ?_⟩
  rw [hheld]
  by_cases hself : way.Pulls ∧ c.caller = c.engine.address
  · rw [if_pos hself]
    simp only [hself, and_self, not_true, false_or]
    omega
  · rw [if_neg hself]
    simp only [hself, not_false_eq_true, true_or, iff_true]
    omega

def fresh (w : World Bank) (caller : Address) : Context Bank :=
  start w caller ⟨#[.unused], 0, 0⟩

theorem reached_fresh (w : World Bank) (caller : Address) : (fresh w caller).ledger.Reached :=
  @Ledger.Reached.fresh 1 _ rfl

theorem inflow_reaches_engine_lender :
    ∃ c', (perform World.nestedRunner (.deposit 1 5)).run (fresh World.lender 7) = .ok () c' ∧
      c'.ledger.debt 1 = -5 ∧ c'.host.held 1 = 5 := by
  have hends : endsWith (fun _ _ => true) ((perform World.nestedRunner (.deposit 1 5)).run
      (fresh World.lender 7)) = true := by decide +kernel
  obtain ⟨_, c', hrun, -⟩ := exists_of_endsWith hends
  obtain ⟨hdebt, hheld, -⟩ := inflow_reaches_engine World.nestedRunner (.deposited 5) 1
    (reached_fresh World.lender 7) rfl World.bounded_lender hrun
  exact ⟨c', hrun, hdebt.trans (by decide), hheld.trans (by decide +kernel)⟩

def selfLender : World Bank :=
  { World.lender with host := ((Bank.new 9).mint 1 9 100).approve 1 9 100 }

/-- It gets a credit from itself, and its balance is what it was. -/
theorem deposit_from_itself_brings_nothing :
    selfLender.host.engine = selfLender.engine.address ∧ selfLender.host.Bounded ∧
      ∃ c', (perform World.nestedRunner (.deposit 1 5)).run
          (fresh selfLender selfLender.engine.address) = .ok () c' ∧
        c'.ledger.debt 1 = -5 ∧ c'.host.held 1 = selfLender.host.held 1 := by
  have hends : endsWith (fun _ c' => c'.ledger.debt 1 = -5 ∧
      c'.host.held 1 = selfLender.host.held 1) ((perform World.nestedRunner (.deposit 1 5)).run
        (fresh selfLender selfLender.engine.address)) = true := by decide +kernel
  obtain ⟨_, c', hrun, htest⟩ := exists_of_endsWith hends
  exact ⟨rfl, Bank.bounded_mint_new 9 1 9 100, c', hrun, of_decide_eq_true htest⟩

end Context

end NetSettle
