import NetSettle.Proofs.Execution.Effect
import NetSettle.Proofs.Tracking

/-!
# Reading from the ledger

A ledger counts the slots that it looks at, and nothing that is done with it depends on the count.
So an input that a swap takes from the ledger is as good as one that the program names: the swap
does the same, and reading has but added to the count.
-/
namespace NetSettle

open Faulting

namespace Ledger

def ProbesAside (l l' : Ledger) : Prop := ∃ n, l' = { l with probes := n }

theorem seek_probes (l : Ledger) (n : Nat) (token : Address) (left step : Nat)
    (reusable : Option Nat) :
    ({ l with probes := n } : Ledger).seek token left step reusable =
      l.seek token left step reusable := by
  induction left generalizing step reusable with
  | zero => rfl
  | succ left ih =>
    rw [seek, seek, ih]
    rfl

theorem matches_post {l l' : Ledger} (h : l.ProbesAside l') (i : Nat) (token : Address)
    (delta : Delta) : Matches ProbesAside (l.post i token delta) (l'.post i token delta) := by
  obtain ⟨n, rfl⟩ := h
  have hslot : slotAt { l with probes := n } i = l.slotAt i := rfl
  unfold post
  rw [hslot]
  cases Delta.ofInt? ((l.slotAt i).delta.val + delta.val) with
  | some next => exact .ok () ⟨n, rfl⟩
  | none => exact .error Fault.overflow ⟨n, rfl⟩

theorem tracks_change (token : Address) (delta : Delta) :
    Tracks ProbesAside (change token delta) (change token delta) := by
  rintro l _ ⟨n, rfl⟩
  by_cases ht : token = 0
  · subst ht
    exact .error Fault.zeroToken ⟨n, rfl⟩
  by_cases hd : delta = 0
  · subst hd
    rw [change_run_zero ht, change_run_zero ht]
    exact .ok () ⟨n, rfl⟩
  have hprobe : (probe token { l with probes := n }).1 = (probe token l).1 := by
    change (seek { l with probes := n } token l.capacity 0 none).1 = _
    rw [seek_probes]
    rfl
  rw [change_run_of_ne ht hd, change_run_of_ne ht hd, hprobe]
  cases (probe token l).1 with
  | found i => exact matches_post ⟨_, rfl⟩ i token delta
  | vacant i => exact matches_post ⟨_, rfl⟩ i token delta
  | full => exact .error (Fault.ledgerFull l.capacity) ⟨_, rfl⟩

end Ledger

namespace Context

variable {σ α : Type}

def ProbesAside (c d : Context σ) : Prop :=
  ∃ n, d = { c with ledger := { c.ledger with probes := n } }

theorem tracks_onLedger {work : Faulting Ledger α} (h : Tracks Ledger.ProbesAside work work) :
    Tracks ProbesAside (onLedger work : Faulting (Context σ) α) (onLedger work) := by
  rintro c _ ⟨n, rfl⟩
  have hstep := h c.ledger _ ⟨n, rfl⟩
  simp only [EStateM.run, onLedger] at hstep ⊢
  generalize work c.ledger = r at hstep
  generalize work { c.ledger with probes := n } = r' at hstep
  cases hstep with
  | ok a hl =>
    obtain ⟨n', rfl⟩ := hl
    exact .ok a ⟨n', rfl⟩
  | error fault hl =>
    obtain ⟨n', rfl⟩ := hl
    exact .error fault ⟨n', rfl⟩

theorem tracks_onPool (pair : Pair) (work : Faulting Pool α) :
    Tracks ProbesAside (onPool pair work : Faulting (Context σ) α) (onPool pair work) := by
  rintro c _ ⟨n, rfl⟩
  simp only [EStateM.run, onPool]
  cases Overlay.onPool (.available c.engine.book) pair work c.overlay with
  | ok a o => exact .ok a ⟨n, rfl⟩
  | error fault o => exact .error fault ⟨n, rfl⟩

theorem tracks_record (token0 token1 : Address) (delta0 delta1 : Delta) (event : Event) :
    Tracks ProbesAside (record token0 token1 delta0 delta1 event : Faulting (Context σ) Unit)
      (record token0 token1 delta0 delta1 event) := by
  refine .bind (tracks_onLedger (Ledger.tracks_change _ _)) fun _ =>
    .bind (tracks_onLedger (Ledger.tracks_change _ _)) fun _ => ?_
  rintro c _ ⟨n, rfl⟩
  exact .ok () ⟨n, rfl⟩

theorem tracks_sale (pair : Pair) (direction : Direction) (amountIn : Amount) :
    Tracks ProbesAside (sale pair direction amountIn : Faulting (Context σ) Unit)
      (sale pair direction amountIn) := by
  refine (Follows.get_bind fun c d hcd => ?_).tracks
  obtain ⟨n, rfl⟩ := hcd
  exact (Tracks.bind (tracks_onPool _ _) fun quote => tracks_record _ _ _ _ _).follows

theorem narrow_owedToCaller (a : Amount) : narrow (Delta.owedToCaller a).magnitude = .ok a := by
  have hsize : (Delta.owedToCaller a).magnitude.toNat = a.toNat := by
    rw [Delta.toNat_magnitude, Delta.owedToCaller, Int.natAbs_neg]
    rfl
  have hlt := a.isLt
  rw [narrow, if_pos (by omega)]
  congr 1
  apply BitVec.eq_of_toNat_eq
  rw [BitVec.toNat_setWidth, hsize, Nat.mod_eq_of_lt hlt]

variable {c : Context σ} {token0 token1 : Address} {direction : Direction}
  {amount : Amount}

theorem swap_exact_run {pair : Pair} (hpair : Pair.canonical token0 token1 = .ok pair) :
    (swap token0 token1 direction (.exact amount)).run c = (sale pair direction amount).run c := by
  unfold swap
  rw [hpair]
  rfl

theorem swap_fromLedger_run {pair : Pair} (hpair : Pair.canonical token0 token1 = .ok pair)
    {delta : Delta} (hdelta : c.ledger.deltaOf (pair.route direction).1 = delta) :
    (swap token0 token1 direction .fromLedger).run c = (do
      if 0 ≤ delta.val then
        throw (.wrongSettlementSign (pair.route direction).1 delta)
      sale pair direction (← narrow delta.magnitude) : Faulting (Context σ) Unit).run
        { c with ledger := c.ledger.probed (pair.route direction).1 } := by
  have hbalance : (balance (pair.route direction).1).run c = .ok delta
      { c with ledger := c.ledger.probed (pair.route direction).1 } := by
    change EStateM.Result.ok (c.ledger.balance (pair.route direction).1).1
      { c with ledger := (c.ledger.balance (pair.route direction).1).2 } = _
    rw [Ledger.balance_eq, hdelta]
  rw [← run_bind_of_ok hbalance fun delta => (do
    if 0 ≤ delta.val then
      throw (.wrongSettlementSign (pair.route direction).1 delta)
    sale pair direction (← narrow delta.magnitude) : Faulting (Context σ) Unit)]
  unfold swap
  rw [hpair]
  rfl

theorem swap_owed_run {pair : Pair} (hpair : Pair.canonical token0 token1 = .ok pair)
    (hne : amount ≠ 0) (howed : c.ledger.deltaOf (pair.route direction).1 = .owedToCaller amount) :
    (swap token0 token1 direction .fromLedger).run c =
      (sale pair direction amount).run
        { c with ledger := c.ledger.probed (pair.route direction).1 } := by
  have hneg : ¬ 0 ≤ (Delta.owedToCaller amount).val := by
    have hpos := toNat_ne_zero hne
    simp only [Delta.owedToCaller]
    omega
  rw [swap_fromLedger_run hpair howed, if_neg hneg, narrow_owedToCaller]
  rfl

theorem matches_fromLedger (hne : amount ≠ 0)
    (howed : c.ledger.deltaOf ((Pair.mk token0 token1).route direction).1 =
      .owedToCaller amount) :
    Matches ProbesAside ((swap token0 token1 direction .fromLedger).run c)
      ((swap token0 token1 direction (.exact amount)).run c) := by
  cases hcanonical : Pair.canonical token0 token1 with
  | error fault =>
    unfold swap
    rw [hcanonical]
    exact .error fault ⟨c.ledger.probes, rfl⟩
  | ok pair' =>
    obtain ⟨rfl, -, -⟩ := Pair.canonical_eq_ok hcanonical
    rw [swap_owed_run hcanonical hne howed, swap_exact_run hcanonical]
    exact tracks_sale _ _ _ _ _ ⟨c.ledger.probes, rfl⟩

end Context

end NetSettle
