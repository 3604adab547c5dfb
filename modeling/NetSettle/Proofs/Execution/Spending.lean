import NetSettle.Proofs.Ending
import NetSettle.Proofs.Execution.Program
import NetSettle.Proofs.Pool.Refusal

/-!
# What an operation spends

An operation changes the deltas of two tokens at most. A ledger that has room for two more changes
therefore has room for it, and whatever an operation faults with comes from its pool, from a change
for which there is room, or is ordinary. What the pools and the changes may fault with is left open
here, as long as the ordinary faults are among it.
-/
namespace NetSettle

open Faulting

theorem natAbs_owedToPool (a : Amount) : (Delta.owedToPool a).val.natAbs < 2 ^ 128 := a.isLt

theorem natAbs_owedToCaller (a : Amount) : (Delta.owedToCaller a).val.natAbs < 2 ^ 128 := by
  have ha := a.isLt
  simp only [Delta.owedToCaller]
  omega

theorem ordinary_ofCapacity {capacity : Nat} :
    Refuses Fault.Ordinary (Ledger.ofCapacity capacity) :=
  .ite (.error trivial) (.ok _)

theorem ordinary_checkSettled {l : Ledger} : Refuses Fault.Ordinary l.checkSettled :=
  .ite (.ok _) (.error trivial)

/-- Ledgers with room for a number of changes by amounts, each of which faults as `E` says. -/
structure Ledger.Roomy (room : Nat → Ledger → Prop) (E : Fault → Prop) : Prop where
  less : ∀ {k l}, room (k + 1) l → room k l
  change : ∀ {k} token {delta : Delta}, delta.val.natAbs < 2 ^ 128 →
    Ends (room (k + 1)) (change token delta) (room k) fun fault l => E fault ∧ room k l
  balance : ∀ {k l} token, room k l → room k (l.balance token).2
  clear : ∀ {k l} token, room k l → room k (l.clear token).2

theorem Ledger.Roomy.spent {room : Nat → Ledger → Prop} {E : Fault → Prop} (h : Roomy room E)
    {k : Nat} {l : Ledger} (hl : room k l) : room 0 l := by
  induction k with
  | zero => exact hl
  | succ k ih => exact ih (h.less hl)

namespace Context

variable {σ α : Type} {room : Nat → Ledger → Prop} {E : Fault → Prop} {k : Nat}

structure Grounded (T : Context σ → Prop) (E : Fault → Prop) : Prop where
  ledger : ∀ {c} l, T c → T { c with ledger := l }
  addLiquidity : ∀ {c pair recipient max0 max1 fault p}, T c → 0 < pair.token0 →
    pair.token0 < pair.token1 →
    (Pool.addLiquidity recipient max0 max1).run (c.overlay.pool c.engine.book pair) =
      .error fault p → E fault
  removeLiquidity : ∀ {c pair owner shares fault p}, T c → 0 < pair.token0 →
    pair.token0 < pair.token1 →
    (Pool.removeLiquidity owner shares).run (c.overlay.pool c.engine.book pair) =
      .error fault p → E fault

def Sells (T : Context σ → Prop) (E : Fault → Prop) (pair : Pair) : Prop :=
  ∀ c direction amountIn fault p, T c → 0 < pair.token0 → pair.token0 < pair.token1 →
    (Pool.swap direction amountIn c.fees).run (c.overlay.pool c.engine.book pair) =
      .error fault p → E fault

/-- Work that goes on from `P` with room for `k` changes left, or faults as `E` says. -/
def Spends (room : Nat → Ledger → Prop) (E : Fault → Prop) (P : Context σ → Prop) (k : Nat)
    (x : Faulting (Context σ) α) : Prop :=
  Ends P x (fun c => room k c.ledger) fun fault c => E fault ∧ room 0 c.ledger

theorem spends_emit (event : Event) :
    Spends room E (fun c => room k c.ledger) k (emit event : Faulting (Context σ) Unit) :=
  fun _ hc => hc

section

variable (hroom : Ledger.Roomy room E) (hordinary : ∀ fault, Fault.Ordinary fault → E fault)

include hroom

theorem spends_change (token : Address) {delta : Delta} (h : delta.val.natAbs < 2 ^ 128) :
    Spends room E (fun c => room (k + 1) c.ledger) k
      (change token delta : Faulting (Context σ) Unit) := by
  intro c hc
  have hends := hroom.change token h c.ledger hc
  simp only [EStateM.run, change, onLedger] at hends ⊢
  cases hrun : Ledger.change token delta c.ledger with
  | ok _ l =>
    rw [hrun] at hends
    exact hends
  | error fault l =>
    rw [hrun] at hends
    exact ⟨hends.1, hroom.spent hends.2⟩

theorem spends_clear (token : Address) :
    Spends room E (fun c => room k c.ledger) k (clear token : Faulting (Context σ) Delta) :=
  fun _ hc => hroom.clear token hc

theorem spends_record {token0 token1 : Address} {delta0 delta1 : Delta} {event : Event}
    (h0 : delta0.val.natAbs < 2 ^ 128) (h1 : delta1.val.natAbs < 2 ^ 128) :
    Spends room E (fun c => room (k + 2) c.ledger) k
      (record token0 token1 delta0 delta1 event : Faulting (Context σ) Unit) :=
  .bind (spends_change hroom token0 h0) fun _ => .bind (spends_change hroom token1 h1) fun _ =>
    fun _ hc => hc

theorem spends_onPool {P : Context σ → Prop} {pair : Pair} {work : Faulting Pool α}
    (hP : ∀ c, P c → room k c.ledger)
    (h : ∀ c fault p, P c → work.run (c.overlay.pool c.engine.book pair) = .error fault p →
      E fault) : Spends room E P k (onPool pair work) := by
  intro c hc
  have hpool := Overlay.onPool_run c.engine.book pair work c.overlay
  simp only [EStateM.run, onPool] at hpool ⊢
  rw [hpool]
  cases hrun : work (c.overlay.pool c.engine.book pair) with
  | ok a p => exact hP c hc
  | error fault p => exact ⟨h c fault p hc hrun, hroom.spent (hP c hc)⟩

theorem spends_sale {T : Context σ → Prop} {pair : Pair} (hsells : Sells T E pair)
    (hpos : 0 < pair.token0) (hlt : pair.token0 < pair.token1) (direction : Direction)
    (amountIn : Amount) :
    Spends room E (fun c => T c ∧ room (k + 2) c.ledger) k
      (sale pair direction amountIn : Faulting (Context σ) Unit) :=
  .get_start fun c hc => .bind
    (spends_onPool hroom (fun d hd => hd ▸ hc.2) fun d fault p hd hrun => by
      subst hd
      exact hsells d direction amountIn fault p hc.1 hpos hlt hrun)
    fun quote => spends_record hroom (natAbs_owedToPool _) (natAbs_owedToCaller _)

include hordinary

theorem spends_throw {P : Context σ → Prop} (hP : ∀ c, P c → room k c.ledger) {fault : Fault}
    (h : fault.Ordinary) (c : Context σ) (hc : P c) : E fault ∧ room 0 c.ledger :=
  ⟨hordinary fault h, hroom.spent (hP c hc)⟩

theorem spends_lift {P : Context σ → Prop} (hP : ∀ c, P c → room k c.ledger) {x : Except Fault α}
    (h : Refuses Fault.Ordinary x) :
    Refuses (fun fault => ∀ c, P c → E fault ∧ room 0 c.ledger) x :=
  h.mono fun _ he => spends_throw hroom hordinary hP he

theorem spends_take {token : Address} {side : Side} {bounds : Bounds} :
    Spends room E (fun c => room k c.ledger) k
      (take token side bounds : Faulting (Context σ) Word) :=
  .lift_bind (spends_lift hroom hordinary (fun _ => id) (ordinary_requireToken token))
    fun token _ => .bind (spends_clear hroom token) fun _ =>
    .guard (spends_throw hroom hordinary (fun _ => id) trivial) <|
    .lift_bind (spends_lift hroom hordinary (fun _ => id) ordinary_check) fun _ _ => .pure _

theorem spends_markReceived {token : Address} {bounds : Bounds} :
    Spends room E (fun c : Context σ => room k c.ledger) k (markReceived token bounds) :=
  .bind (spends_take hroom hordinary) fun _ =>
    .ite (.bind (.modify fun _ => id) fun _ => spends_emit _) (spends_emit _)

variable [Host σ] {nested : Runner σ}

omit hroom hordinary in
theorem spends_ask (request : HostRequest α) :
    Spends room E (fun c => room k c.ledger) k (ask nested request) :=
  fun _ hc => hc

theorem spends_onHost {kind : HostFault → Fault} (h : ∀ cause, (kind cause).Ordinary)
    (request : HostRequest (Except HostFault Unit)) :
    Spends room E (fun c => room k c.ledger) k (onHost nested kind request) := by
  refine .bind (spends_ask request) fun answer c hc => ?_
  cases answer with
  | ok _ => exact hc
  | error cause => exact ⟨hordinary _ (h cause), hroom.spent hc⟩

theorem spends_transfer (request : HostRequest (Except HostFault Unit)) :
    Spends room E (fun c => room k c.ledger) k (onHost nested .transfer request) :=
  spends_onHost hroom hordinary (fun cause => show (Fault.transfer cause).Ordinary from trivial)
    request

theorem spends_sendAll {token recipient : Address} {bounds : Bounds} :
    Spends room E (fun c : Context σ => room k c.ledger) k
      (sendAll nested token recipient bounds) :=
  .bind (spends_take hroom hordinary) fun _ =>
    .ite (.bind (spends_transfer hroom hordinary _) fun _ => spends_emit _) (spends_emit _)

theorem spends_receiveAll {token : Address} {bounds : Bounds} :
    Spends room E (fun c : Context σ => room k c.ledger) k (receiveAll nested token bounds) :=
  .bind (spends_take hroom hordinary) fun _ =>
    .ite (.get_bind fun _ _ => .bind (spends_transfer hroom hordinary _) fun _ => spends_emit _)
      (spends_emit _)

theorem spends_receiveAllViaCallback {token : Address} {bounds : Bounds} :
    Spends room E (fun c : Context σ => room k c.ledger) k
      (receiveAllViaCallback nested token bounds) :=
  .bind (spends_take hroom hordinary) fun _ => .ite
    (.get_bind fun _ _ => .get_bind fun _ _ => .bind (spends_ask _) fun _ =>
      .bind (spends_ask _) fun _ =>
      .guard (spends_throw hroom hordinary (fun _ => id) trivial) <| .bind (spends_ask _) fun _ =>
      .guard (spends_throw hroom hordinary (fun _ => id) trivial) (spends_emit _))
    (spends_emit _)

theorem spends_deposit {token : Address} {amount : Amount} :
    Spends room E (fun c : Context σ => room (k + 1) c.ledger) k (deposit nested token amount) :=
  .lift_bind (spends_lift hroom hordinary (fun _ => id) (ordinary_requireToken token)) fun _ _ =>
    .ite ((Ends.pure ()).mono (fun _ => id) fun _ => hroom.less) <|
    .get_bind fun _ _ => .bind (spends_transfer hroom hordinary _) fun _ =>
    .bind (spends_change hroom _ (natAbs_owedToCaller _)) fun _ => spends_emit _

theorem spends_withdraw {token recipient : Address} {amount : Amount} :
    Spends room E (fun c : Context σ => room (k + 1) c.ledger) k
      (withdraw nested token recipient amount) :=
  .lift_bind (spends_lift hroom hordinary (fun _ => id) (ordinary_requireToken token)) fun _ _ =>
    .ite ((Ends.pure ()).mono (fun _ => id) fun _ => hroom.less) <|
    .bind (spends_transfer hroom hordinary _) fun _ =>
    .bind (spends_change hroom _ (natAbs_owedToPool _)) fun _ => spends_emit _

theorem spends_permit {token : Address} {amount : Amount} {deadline : UInt64}
    {signature : Signature} :
    Spends room E (fun c : Context σ => room k c.ledger) k
      (permit nested token amount deadline signature) :=
  .lift_bind (spends_lift hroom hordinary (fun _ => id) (ordinary_requireToken token)) fun _ _ =>
    .get_bind fun _ _ => .bind (spends_onHost hroom hordinary
      (fun cause => show (Fault.permit cause).Ordinary from trivial) _) fun _ => spends_emit _

end

section

variable {T : Context σ → Prop} (hroom : Ledger.Roomy room E)
  (hordinary : ∀ fault, Fault.Ordinary fault → E fault) (hT : Grounded T E)

include hroom hordinary

theorem spends_canonical {token0 token1 : Address} :
    Refuses (fun fault => ∀ c : Context σ, T c ∧ room (k + 2) c.ledger →
      E fault ∧ room 0 c.ledger) (Pair.canonical token0 token1) :=
  spends_lift hroom hordinary (fun _ hc => hc.2) (ordinary_canonical token0 token1)

theorem spends_claimFees {token0 token1 : Address} :
    Spends room E (fun c => T c ∧ room (k + 2) c.ledger) k
      (claimFees token0 token1 : Faulting (Context σ) Unit) :=
  .get_bind fun _ _ => .guard (spends_throw hroom hordinary (fun _ hc => hc.2) trivial) <|
    .lift_bind (spends_canonical hroom hordinary) fun _ _ =>
    .bind (spends_onPool hroom (fun _ hc => hc.2) fun _ _ _ _ hrun => nomatch hrun) fun _ =>
    spends_record hroom (natAbs_owedToCaller _) (natAbs_owedToCaller _)

include hT

theorem spends_swap {token0 token1 : Address} {direction : Direction} {amount : SwapAmount}
    (hsells : Sells T E ⟨token0, token1⟩) :
    Spends room E (fun c => T c ∧ room (k + 2) c.ledger) k
      (swap token0 token1 direction amount : Faulting (Context σ) Unit) := by
  refine .lift_bind (spends_canonical hroom hordinary) fun pair hpair => ?_
  obtain ⟨rfl, hpos, hlt⟩ := Pair.canonical_eq_ok hpair
  have hsale (amountIn : Amount) : Spends room E (fun c => T c ∧ room (k + 2) c.ledger) k
      (sale ⟨token0, token1⟩ direction amountIn) :=
    spends_sale hroom hsells hpos hlt direction amountIn
  cases amount with
  | exact amount => exact .bind (.pure _) fun _ => hsale _
  | fromLedger =>
    have hbalance (token : Address) : Ends (fun c => T c ∧ room (k + 2) c.ledger)
        (balance token) (fun c => T c ∧ room (k + 2) c.ledger)
        (fun fault c => E fault ∧ room 0 c.ledger) :=
      fun _ hc => ⟨hT.ledger _ hc.1, hroom.balance token hc.2⟩
    exact .bind (hbalance _) fun _ =>
      .guard (spends_throw hroom hordinary (fun _ hc => hc.2) trivial) <|
      .lift_bind (spends_lift hroom hordinary (fun _ hc => hc.2) ordinary_narrow)
        fun _ _ => hsale _

theorem spends_addLiquidity {token0 token1 recipient : Address} {max0 max1 : Amount}
    {minShares : Option Amount} :
    Spends room E (fun c => T c ∧ room (k + 2) c.ledger) k
      (addLiquidity token0 token1 recipient max0 max1 minShares :
        Faulting (Context σ) Unit) := by
  refine .lift_bind (spends_canonical hroom hordinary) fun pair hpair => ?_
  obtain ⟨rfl, hpos, hlt⟩ := Pair.canonical_eq_ok hpair
  refine .bind (spends_onPool hroom (fun _ hc => hc.2) fun c fault p hc =>
    hT.addLiquidity hc.1 hpos hlt) fun minted => ?_
  cases minShares with
  | none => exact spends_record hroom (natAbs_owedToPool _) (natAbs_owedToPool _)
  | some least =>
    exact .guard (spends_throw hroom hordinary (fun _ => id) trivial) <|
      spends_record hroom (natAbs_owedToPool _) (natAbs_owedToPool _)

theorem spends_removeLiquidity {token0 token1 : Address} {shares : Option Amount} :
    Spends room E (fun c => T c ∧ room (k + 2) c.ledger) k
      (removeLiquidity token0 token1 shares : Faulting (Context σ) Unit) := by
  refine .lift_bind (spends_canonical hroom hordinary) fun pair hpair => .get_bind fun c _ => ?_
  obtain ⟨rfl, hpos, hlt⟩ := Pair.canonical_eq_ok hpair
  refine .bind (spends_onPool hroom (fun _ hc => hc.2) fun d fault p hd hrun => ?_) fun _ =>
    spends_record hroom (natAbs_owedToCaller _) (natAbs_owedToCaller _)
  exact hT.removeLiquidity hd.1 hpos hlt (run_bind_pure_eq_error.1 hrun)

/-- A trade spends two changes of the ledger, a deposit or a withdrawal one, and anything else
none. -/
theorem spends_perform [Host σ] (nested : Runner σ) (op : Operation)
    (hswap : ∀ token0 token1 direction amount,
      op = .swap token0 token1 direction amount → Sells T E ⟨token0, token1⟩) :
    Spends room E (fun c => T c ∧ room (k + 2) c.ledger) k (perform nested op) := by
  have hone (c : Context σ) (hc : T c ∧ room (k + 2) c.ledger) : room (k + 1) c.ledger :=
    hroom.less hc.2
  have hnone (c : Context σ) (hc : T c ∧ room (k + 2) c.ledger) : room k c.ledger :=
    hroom.less (hone c hc)
  cases op with
  | swap token0 token1 direction amount =>
    exact spends_swap hroom hordinary hT (hswap token0 token1 direction amount rfl)
  | addLiquidity => exact spends_addLiquidity hroom hordinary hT
  | removeLiquidity => exact spends_removeLiquidity hroom hordinary hT
  | sendAll => exact (spends_sendAll hroom hordinary).mono hnone fun _ => id
  | receiveAll => exact (spends_receiveAll hroom hordinary).mono hnone fun _ => id
  | receiveAllViaCallback =>
    exact (spends_receiveAllViaCallback hroom hordinary).mono hnone fun _ => id
  | markReceived => exact (spends_markReceived hroom hordinary).mono hnone fun _ => id
  | deposit => exact (spends_deposit hroom hordinary).mono hone fun _ => id
  | withdraw => exact (spends_withdraw hroom hordinary).mono hone fun _ => id
  | permit => exact (spends_permit hroom hordinary).mono hnone fun _ => id
  | claimFees => exact spends_claimFees hroom hordinary

end

end Context

end NetSettle
