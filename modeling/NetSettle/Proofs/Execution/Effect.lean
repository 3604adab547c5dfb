import NetSettle.Execution.Perform
import NetSettle.Proofs.Ledger.Update
import NetSettle.Proofs.Pool.Deal
import NetSettle.Proofs.Pool.Overlay

/-!
# What an operation does

An operation that was performed adds to the record of events and changes each part of the
execution by what its event says: the ledger by the debt, at most one pool by the deal that was made
with it, the list of deliveries, and the outside world by one request at most. `perform_eq_ok` says
this once for all eleven kinds, and everything about whole programs follows from it.
-/
namespace NetSettle

open Faulting

def Operation.payee : Operation → Option Address
  | .sendAll _ recipient _ | .withdraw _ recipient _ => some recipient
  | _ => none

/-- The least that an operation of `caller`, once it was performed, has moved to `holder`: a
settlement stays within its bounds, whatever there was to settle, and what is taken from the caller
counts against it. -/
def Operation.promised (caller holder : Address) : Operation → Address → Int
  | .sendAll token recipient bounds, t =>
    if holder = recipient then only token (bounds.min.getD 0).toNat t else 0
  | .receiveAll token bounds, t | .receiveAllViaCallback token bounds, t =>
    if holder = caller then -only token (bounds.max.getD Amount.max).toNat t else 0
  | .deposit token amount, t => if holder = caller then -only token amount.toNat t else 0
  | .swap .., _ | .addLiquidity .., _ | .removeLiquidity .., _ | .claimFees .., _
  | .markReceived .., _ | .withdraw .., _ | .permit .., _ => 0

theorem Operation.promised_of_deal? {op : Operation} {caller : Address} {fees : FeeSettings}
    {debt : Address → Int} {deal : Deal} (h : op.deal? caller fees debt = some deal)
    (payer holder t : Address) : op.promised payer holder t = 0 := by
  cases op with
  | swap | addLiquidity | removeLiquidity | claimFees => rfl
  | sendAll | receiveAll | receiveAllViaCallback | markReceived | deposit | withdraw | permit =>
    cases h

def Ledger.debt (l : Ledger) (token : Address) : Int := (l.deltaOf token).val

namespace Overlay

inductive Reworks (book : PoolBook) (o : Overlay) (es : List Event) : Overlay → Prop
  | kept (h : ∀ t, flow Event.pooled es t = 0) : Reworks book o es o
  | pool {pair : Pair} {p : Pool} (hpos : 0 < pair.token0) (hlt : pair.token0 < pair.token1)
      (hpair : p.pair = (o.pool book pair).pair)
      (hsound : (o.pool book pair).Sound → p.Sound)
      (hholding : (o.pool book pair).pair = pair →
        ∀ t, p.holding t = (o.pool book pair).holding t + flow Event.pooled es t) :
      Reworks book o es (o.put pair p)

variable {book : PoolBook} {o o' : Overlay} {es : List Event}

theorem Reworks.keyed (h : o.Reworks book es o') (hbook : Keyed book) (ho : Keyed o.touched) :
    Keyed o'.touched := by
  cases h with
  | kept => exact ho
  | pool _ _ hpair _ _ => exact ho.insert (hpair.trans (all_pool ho hbook rfl))

theorem Reworks.gain (h : o.Reworks book es o') (hbook : Keyed book) (ho : Keyed o.touched)
    (t : Address) :
    o'.gain book t = o.gain book t + flow Event.pooled es t := by
  cases h with
  | kept hzero => rw [hzero, Int.add_zero]
  | pool _ _ _ _ hholding =>
    rw [gain_put, hholding (all_pool ho hbook rfl)]
    omega

end Overlay

namespace Context

section

variable {σ : Type}

def record (token0 token1 : Address) (delta0 delta1 : Delta) (event : Event) :
    Faulting (Context σ) Unit := do
  change token0 delta0
  change token1 delta1
  emit event

def sale (pair : Pair) (direction : Direction) (amountIn : Amount) :
    Faulting (Context σ) Unit := do
  let fees := (← get).fees
  let quote ← onPool pair (Pool.swap direction amountIn fees)
  record (pair.route direction).1 (pair.route direction).2 (.owedToPool quote.amountIn)
    (.owedToCaller quote.amountOut) (.swap (pair.route direction).1 (pair.route direction).2
      quote.amountIn quote.amountOut quote.protocolFee)

end

section

variable {σ α : Type} {c c' : Context σ} {a : α} {token : Address}

theorem onLedger_eq_ok {work : Faulting Ledger α} (h : (onLedger work).run c = .ok a c') :
    ∃ l, work.run c.ledger = .ok a l ∧ c' = { c with ledger := l } := by
  simp only [EStateM.run, onLedger] at h
  cases hwork : work c.ledger with
  | ok b l =>
    simp only [hwork] at h
    cases h
    exact ⟨l, hwork, rfl⟩
  | error fault l =>
    simp only [hwork] at h
    cases h

theorem onPool_eq_ok {pair : Pair} {work : Faulting Pool α}
    (h : (onPool pair work).run c = .ok a c') :
    ∃ p, work.run (c.overlay.pool c.engine.book pair) = .ok a p ∧
      c' = { c with overlay := c.overlay.put pair p } := by
  simp only [EStateM.run, onPool] at h
  cases hwork : Overlay.onPool (.available c.engine.book) pair work c.overlay with
  | ok b o =>
    simp only [hwork] at h
    cases h
    obtain ⟨p, hp, rfl⟩ := Overlay.onPool_eq_ok hwork
    exact ⟨p, hp, rfl⟩
  | error fault o =>
    simp only [hwork] at h
    cases h

theorem onLedger_eq_error {fault : Fault} {work : Faulting Ledger α}
    (h : (onLedger work).run c = .error fault c') :
    ∃ l, work.run c.ledger = .error fault l := by
  simp only [EStateM.run, onLedger] at h
  cases hwork : work c.ledger with
  | ok a l =>
    rw [hwork] at h
    cases h
  | error fault' l =>
    rw [hwork] at h
    cases h
    exact ⟨l, hwork⟩

theorem onPool_eq_error {fault : Fault} {pair : Pair} {work : Faulting Pool α}
    (h : (onPool pair work).run c = .error fault c') :
    ∃ p, work.run (c.overlay.pool c.engine.book pair) = .error fault p := by
  have hpool := Overlay.onPool_run c.engine.book pair work c.overlay
  simp only [EStateM.run, onPool] at h hpool ⊢
  rw [hpool] at h
  cases hrun : work (c.overlay.pool c.engine.book pair) with
  | ok a p =>
    rw [hrun] at h
    cases h
  | error fault' p =>
    rw [hrun] at h
    cases h
    exact ⟨p, rfl⟩

theorem change_eq_ok {delta : Delta} (h : (change token delta).run c = .ok () c') :
    ∃ l, c.ledger.Posts l (only token delta.val) ∧ c' = { c with ledger := l } := by
  obtain ⟨l, hrun, rfl⟩ := onLedger_eq_ok h
  exact ⟨l, Ledger.posts_change hrun, rfl⟩

theorem balance_eq_ok {delta : Delta} (h : (balance token).run c = .ok delta c') :
    delta.val = c.ledger.debt token ∧
      ∃ l, c.ledger.Posts l (fun _ => 0) ∧ c' = { c with ledger := l } := by
  obtain ⟨l, hrun, rfl⟩ := onLedger_eq_ok h
  obtain ⟨rfl, rfl⟩ := run_modifyGet_eq_ok.1 hrun
  exact ⟨rfl, _, c.ledger.posts_balance token, rfl⟩

theorem emit_eq_ok {e : Event} (h : (emit e).run c = .ok () c') :
    c' = { c with journal := c.journal ++ [.performed c.caller e], events := c.events ++ [e] } := by
  cases h
  rfl

end

variable {σ : Type} [Host σ]

theorem ask_eq_ok {α : Type} {nested : Runner σ} {request : HostRequest α} {a : α}
    {c c' : Context σ} (h : (ask nested request).run c = .ok a c') :
    ∃ w, c.toWorld.serve nested request = (a, w) ∧ c' = { c with toWorld := w } := by
  cases h
  exact ⟨_, rfl, rfl⟩

theorem onHost_eq_ok {nested : Runner σ} {kind : HostFault → Fault}
    {request : HostRequest (Except HostFault Unit)} {c c' : Context σ}
    (h : (onHost nested kind request).run c = .ok () c') :
    ∃ w, c.toWorld.serve nested request = (.ok (), w) ∧ c' = { c with toWorld := w } := by
  rw [onHost, run_bind_eq_ok] at h
  obtain ⟨answer, c₁, hask, hanswer⟩ := h
  obtain ⟨w, hrun, rfl⟩ := ask_eq_ok hask
  cases answer with
  | ok _ =>
    cases hanswer
    exact ⟨w, hrun, rfl⟩
  | error fault => cases hanswer

theorem onHost_run {nested : Runner σ} {kind : HostFault → Fault}
    {request : HostRequest (Except HostFault Unit)} {work : EStateM HostFault σ Unit}
    {c : Context σ} (hserve : Host.serve c.host request = .ofRun (work.run c.host)) :
    (onHost nested kind request).run c = match work.run c.host with
      | .ok _ host => .ok () { c with host := host }
      | .error fault host => .error (kind fault) { c with host := host } := by
  have hask : (ask nested request).run c =
      .ok ((Session.ofRun (work.run c.host)).run nested c.toWorld).1
        { c with toWorld := ((Session.ofRun (work.run c.host)).run nested c.toWorld).2 } := by
    rw [← hserve]
    rfl
  rw [onHost, run_bind_of_ok hask]
  cases work.run c.host <;> rfl

inductive Trades (op : Operation) (c : Context σ) (es : List Event) : Overlay → Prop
  | none (hdeal : op.deal? c.caller c.fees c.ledger.debt = none) (hpair : ∀ e ∈ es, e.pair? = none)
      (hnet : ∀ t, flow Event.net es t = op.posting c.ledger.debt t) :
      Trades op c es c.overlay
  | deal {deal : Deal} {e : Event} {p : Pool} (hpos : 0 < deal.pair.token0)
      (hlt : deal.pair.token0 < deal.pair.token1)
      (hdeal : op.deal? c.caller c.fees c.ledger.debt = some deal) (hes : es = [e])
      (hrun : deal.work.run (c.overlay.pool c.engine.book deal.pair) = .ok e p) :
      Trades op c es (c.overlay.put deal.pair p)

/-- The engine and the outside world after events: as before, or after what was asked for them. -/
inductive Contact (nested : Runner σ) (op : Operation) (c : Context σ) (es : List Event) :
    Engine → σ → Prop
  | none (hpaid : ∀ t, flow Event.paid es t = 0)
      (hdelivered : ∀ holder t, flow (Event.delivered c.caller holder) es t = 0) :
      Contact nested op c es c.engine c.host
  | sendOut {token recipient : Address} {amount : Word} {w : World σ}
      (hpayee : op.payee = some recipient)
      (hpaid : ∀ t, flow Event.paid es t = -only token amount.toNat t)
      (hdelivered : ∀ holder t, flow (Event.delivered c.caller holder) es t =
        if holder = recipient then only token amount.toNat t else 0)
      (hrun : c.toWorld.serve nested (.sendOut token recipient amount) = (.ok (), w)) :
      Contact nested op c es w.engine w.host
  | pullIn {token : Address} {amount : Word} {w : World σ}
      (hpaid : ∀ t, flow Event.paid es t = only token amount.toNat t)
      (hdelivered : ∀ holder t, flow (Event.delivered c.caller holder) es t =
        if holder = c.caller then -only token amount.toNat t else 0)
      (hrun : c.toWorld.serve nested (.pullIn token c.caller amount) = (.ok (), w)) :
      Contact nested op c es w.engine w.host
  | grantPermit {token : Address} {amount : Amount} {deadline : UInt64} {signature : Signature}
      {w : World σ} (hpaid : ∀ t, flow Event.paid es t = 0)
      (hdelivered : ∀ holder t, flow (Event.delivered c.caller holder) es t = 0)
      (hrun : c.toWorld.serve nested (.grantPermit c.caller token amount deadline signature) =
        (.ok (), w)) :
      Contact nested op c es w.engine w.host
  | settled {token : Address} {amount before after : Word} {marker : Marker} {w₀ w₁ w₂ : World σ}
      (hpaid : ∀ t, flow Event.paid es t = only token amount.toNat t)
      (hdelivered : ∀ holder t, flow (Event.delivered c.caller holder) es t =
        if holder = c.caller then -only token amount.toNat t else 0)
      (hbefore : c.toWorld.serve nested (.balanceOf token c.engine.address) = (before, w₀))
      (hrun : w₀.serve nested (.settle c.caller token amount) = (marker, w₁))
      (hafter : w₁.serve nested (.balanceOf token c.engine.address) = (after, w₂))
      (hgain : amount.toNat ≤ after.toNat - before.toNat) :
      Contact nested op c es w₂.engine w₂.host

/-- What an operation that was performed did, event by event. -/
structure Effect (nested : Runner σ) (op : Operation) (c c' : Context σ) (es : List Event) :
    Prop where
  tokens : ∀ t ∈ op.tokens, t ≠ 0
  events : c'.events = c.events ++ es
  caller : c'.caller = c.caller
  fees : c'.fees = c.fees
  ledger : c.ledger.Posts c'.ledger (flow Event.net es)
  trades : Trades op c es c'.overlay
  due : c'.released = c.released ++ es.flatMap Event.due
  outside : Contact nested op c es c'.engine c'.host
  kept : ∀ holder t, op.promised c.caller holder t ≤ flow (Event.delivered c.caller holder) es t

variable {nested : Runner σ} {op : Operation} {c c' : Context σ} {es : List Event}

omit [Host σ] in
theorem Trades.reworks {o : Overlay} (h : Trades op c es o) :
    c.overlay.Reworks c.engine.book es o := by
  cases h with
  | none _ hpair _ =>
    refine .kept fun t => ?_
    rw [flow, List.map_congr_left fun e he => Event.pooled_of_pair?_none (hpair e he) t]
    simp
  | deal hpos hlt hdeal hes hrun =>
    subst hes
    have hdealt := Operation.dealt_of_deal? hdeal hrun
    refine .pool hpos hlt hdealt.pair_eq hdealt.sound fun hkey t => ?_
    rw [flow_singleton, hdealt.holding hkey]

theorem Effect.overlay (h : Effect nested op c c' es) :
    c.overlay.Reworks c.engine.book es c'.overlay :=
  h.trades.reworks

theorem Effect.released (h : Effect nested op c c' es) (t : Address) :
    totalOf c'.released t = totalOf c.released t + flow Event.released es t := by
  rw [h.due, totalOf_append, totalOf_flatMap_due]

omit [Host σ] in
theorem record_eq_ok {token0 token1 : Address} {delta0 delta1 : Delta} {e : Event}
    (h : (record token0 token1 delta0 delta1 e).run c = .ok () c') :
    ∃ l journal, c.ledger.Posts l (fun t => only token0 delta0.val t + only token1 delta1.val t) ∧
      c' = { c with ledger := l, journal := journal, events := c.events ++ [e] } := by
  simp only [record, run_bind_eq_ok] at h
  obtain ⟨_, c₁, h₀, _, c₂, h₁, hemit⟩ := h
  obtain ⟨l₀, hl₀, rfl⟩ := change_eq_ok h₀
  obtain ⟨l₁, hl₁, rfl⟩ := change_eq_ok h₁
  exact ⟨l₁, _, hl₀.trans hl₁ fun _ => rfl, emit_eq_ok hemit⟩

theorem tokens_ne_zero {token0 token1 : Address} (hpos : 0 < token0) (hlt : token0 < token1) :
    ∀ t ∈ [token0, token1], t ≠ 0 := by
  intro t ht
  have hpos' : 0 < token0.toNat := hpos
  have hlt' : token0.toNat < token1.toNat := hlt
  have hne : t.toNat ≠ 0 := by
    rcases List.mem_pair.1 ht with rfl | rfl <;> omega
  rintro rfl
  exact hne rfl

theorem effect_of_deal {α : Type} {deal : Deal} {work : Faulting Pool α} {a : α} {c₁ : Context σ}
    {l₀ : Ledger} {token0 token1 : Address} {delta0 delta1 : Delta} {e : Event}
    (hdeal : op.deal? c.caller c.fees c.ledger.debt = some deal) (hpos : 0 < deal.pair.token0)
    (hlt : deal.pair.token0 < deal.pair.token1) (hl₀ : c.ledger.Posts l₀ fun _ => 0)
    (hpool : (onPool deal.pair work).run { c with ledger := l₀ } = .ok a c₁)
    (hwork : ∀ p₀ p, work.run p₀ = .ok a p → deal.work.run p₀ = .ok e p)
    (hrecord : (record token0 token1 delta0 delta1 e).run c₁ = .ok () c')
    (hnet : ∀ t, e.net t = only token0 delta0.val t + only token1 delta1.val t) :
    Effect nested op c c' [e] := by
  obtain ⟨p, hp, rfl⟩ := onPool_eq_ok hpool
  obtain ⟨l, journal, hl, rfl⟩ := record_eq_ok hrecord
  have hrun := hwork _ _ hp
  have hpair := (Operation.dealt_of_deal? hdeal hrun).pair?_eq hlt
  exact {
    tokens := Operation.tokens_of_deal? hdeal ▸ tokens_ne_zero hpos hlt
    events := rfl
    caller := rfl
    fees := rfl
    ledger := hl₀.trans hl fun t => by rw [flow_singleton, hnet, Int.zero_add]
    trades := .deal hpos hlt hdeal rfl hrun
    due := by
      rw [List.flatMap_singleton, Event.due_of_pair? hpair]
      exact (List.append_nil _).symm
    outside := .none (fun t => by rw [flow_singleton, Event.paid_of_pair? hpair])
      fun holder t => by rw [flow_singleton, Event.delivered_of_pair? hpair]
    kept := fun holder t => by
      rw [Operation.promised_of_deal? hdeal, flow_singleton, Event.delivered_of_pair? hpair] }

theorem effect_of_sale {token0 token1 : Address} {pair : Pair} {direction : Direction}
    {amount : SwapAmount} {amountIn : Amount} {l₀ : Ledger}
    (hpair : Pair.canonical token0 token1 = .ok pair)
    (hamount : amountIn = amount.resolve (c.ledger.debt (pair.route direction).1))
    (hl₀ : c.ledger.Posts l₀ fun _ => 0)
    (h : (sale pair direction amountIn).run { c with ledger := l₀ } = .ok () c') :
    ∃ es, Effect nested (.swap token0 token1 direction amount) c c' es := by
  obtain ⟨rfl, hpos, hlt⟩ := Pair.canonical_eq_ok hpair
  rw [sale, run_get_bind_eq_ok, run_bind_eq_ok] at h
  obtain ⟨quote, c₁, hpool, hrecord⟩ := h
  refine ⟨_, effect_of_deal rfl hpos hlt hl₀ hpool (fun p₀ p hswap => ?_) hrecord fun t => ?_⟩
  · rw [hamount] at hswap
    exact run_bind_of_ok hswap _
  · rw [Event.net, Int.sub_eq_add_neg, ← only_neg]
    rfl

theorem resolve_fromLedger {delta : Delta} {amountIn : Amount} (hneg : delta.val < 0)
    (h : narrow delta.magnitude = .ok amountIn) :
    amountIn = SwapAmount.fromLedger.resolve delta.val := by
  have hnat := narrow_eq_ok h
  have hlt := amountIn.isLt
  rw [Delta.toNat_magnitude] at hnat
  have hmod : -delta.val % (2 ^ 128 : Nat) = -delta.val :=
    Int.emod_eq_of_lt (by omega) (by push_cast; omega)
  apply BitVec.eq_of_toNat_eq
  rw [SwapAmount.resolve, BitVec.toNat_ofInt, hmod]
  omega

theorem swap_effect {token0 token1 : Address} {direction : Direction} {amount : SwapAmount}
    (h : (swap token0 token1 direction amount).run c = .ok () c') :
    ∃ es, Effect nested (.swap token0 token1 direction amount) c c' es := by
  unfold swap at h
  rw [run_lift_bind_eq_ok] at h
  obtain ⟨pair, hpair, h⟩ := h
  cases amount with
  | exact amount =>
    rw [run_bind_eq_ok] at h
    obtain ⟨amountIn, _, hpure, h⟩ := h
    obtain ⟨rfl, rfl⟩ := run_pure_eq_ok.1 hpure
    exact effect_of_sale hpair rfl (Ledger.Posts.refl fun _ => rfl) h
  | fromLedger =>
    rw [run_bind_eq_ok] at h
    obtain ⟨delta, c₁, hbalance, h⟩ := h
    obtain ⟨hdelta, l₀, hl₀, rfl⟩ := balance_eq_ok hbalance
    rw [run_guard_eq_ok, run_lift_bind_eq_ok] at h
    obtain ⟨hneg, amountIn, hnarrow, h⟩ := h
    exact effect_of_sale hpair (hdelta ▸ resolve_fromLedger (Int.not_le.1 hneg) hnarrow) hl₀ h

theorem effect_of_mint {token0 token1 recipient : Address} {max0 max1 : Amount}
    {minShares : Option Amount} {minted : MintQuote} {c₁ : Context σ}
    (hpos : 0 < token0) (hlt : token0 < token1)
    (hpool : (onPool ⟨token0, token1⟩ (Pool.addLiquidity recipient max0 max1)).run c =
      .ok minted c₁)
    (hrecord : (record token0 token1 (.owedToPool minted.amount0) (.owedToPool minted.amount1)
      (.liquidityAdded token0 token1 recipient minted.shares minted.amount0
        minted.amount1)).run c₁ = .ok () c') :
    ∃ es, Effect nested (.addLiquidity token0 token1 recipient max0 max1 minShares) c c' es :=
  ⟨_, effect_of_deal rfl hpos hlt (.refl fun _ => rfl) hpool
    (fun _ _ hadd => run_bind_of_ok hadd _) hrecord fun _ => rfl⟩

theorem addLiquidity_effect {token0 token1 recipient : Address} {max0 max1 : Amount}
    {minShares : Option Amount}
    (h : (addLiquidity token0 token1 recipient max0 max1 minShares).run c = .ok () c') :
    ∃ es, Effect nested (.addLiquidity token0 token1 recipient max0 max1 minShares) c c' es := by
  unfold addLiquidity at h
  rw [run_lift_bind_eq_ok] at h
  obtain ⟨pair, hpair, h⟩ := h
  rw [run_bind_eq_ok] at h
  obtain ⟨minted, c₁, hpool, h⟩ := h
  obtain ⟨rfl, hpos, hlt⟩ := Pair.canonical_eq_ok hpair
  cases minShares with
  | none => exact effect_of_mint hpos hlt hpool h
  | some least =>
    rw [run_guard_eq_ok] at h
    exact effect_of_mint hpos hlt hpool h.2

theorem removeLiquidity_effect {token0 token1 : Address} {shares : Option Amount}
    (h : (removeLiquidity token0 token1 shares).run c = .ok () c') :
    ∃ es, Effect nested (.removeLiquidity token0 token1 shares) c c' es := by
  unfold removeLiquidity at h
  rw [run_lift_bind_eq_ok] at h
  obtain ⟨pair, hpair, h⟩ := h
  obtain ⟨rfl, hpos, hlt⟩ := Pair.canonical_eq_ok hpair
  rw [run_get_bind_eq_ok, run_bind_eq_ok] at h
  obtain ⟨⟨burnt, burned⟩, c₁, hpool, h⟩ := h
  refine ⟨_, effect_of_deal rfl hpos hlt (.refl fun _ => rfl) hpool (fun p₀ p hwork => ?_) h
    fun t => ?_⟩
  · simp only [run_bind_eq_ok, run_get_eq_ok, run_pure_eq_ok] at hwork ⊢
    obtain ⟨_, _, ⟨rfl, rfl⟩, _, _, hremove, hresult, rfl⟩ := hwork
    cases hresult
    exact ⟨_, _, ⟨rfl, rfl⟩, _, _, hremove, rfl, rfl⟩
  · rw [Event.net, Int.sub_eq_add_neg, ← only_neg, ← only_neg]
    rfl

theorem claimFees_effect {token0 token1 : Address}
    (h : (claimFees token0 token1).run c = .ok () c') :
    ∃ es, Effect nested (.claimFees token0 token1) c c' es := by
  unfold claimFees at h
  rw [run_get_bind_eq_ok, run_guard_eq_ok, run_lift_bind_eq_ok] at h
  obtain ⟨-, pair, hpair, h⟩ := h
  obtain ⟨rfl, hpos, hlt⟩ := Pair.canonical_eq_ok hpair
  rw [run_bind_eq_ok] at h
  obtain ⟨⟨amount0, amount1⟩, c₁, hpool, h⟩ := h
  refine ⟨_, effect_of_deal rfl hpos hlt (.refl fun _ => rfl) hpool
    (fun _ _ htake => run_bind_of_ok htake _) h fun t => ?_⟩
  rw [Event.net, Int.sub_eq_add_neg, ← only_neg, ← only_neg]
  rfl

def Side.signed (side : Side) (n : Word) : Int :=
  match side with
  | .toCaller => n.toNat
  | .toPool => -n.toNat

theorem Side.signed_magnitude {side : Side} {delta : Delta} (h : ¬ side.rejects delta = true) :
    side.signed delta.magnitude = -delta.val := by
  cases side with
  | toCaller =>
    simp only [rejects, decide_eq_true_eq] at h
    simp only [signed, Delta.toNat_magnitude]
    omega
  | toPool =>
    simp only [rejects, decide_eq_true_eq] at h
    simp only [signed, Delta.toNat_magnitude]
    omega

omit [Host σ] in
theorem take_run_eq_ok {token : Address} {side : Side} {bounds : Bounds} {n : Word} :
    (take token side bounds).run c = .ok n c' ↔
      token ≠ 0 ∧ ¬ side.rejects (c.ledger.deltaOf token) = true ∧
      bounds.check (c.ledger.deltaOf token).magnitude = .ok () ∧
      n = (c.ledger.deltaOf token).magnitude ∧
      c' = { c with ledger := (c.ledger.clear token).2 } := by
  have hclear : (clear token).run c = .ok (c.ledger.deltaOf token)
      { c with ledger := (c.ledger.clear token).2 } := by
    rw [← Ledger.clear_fst]
    rfl
  unfold take
  rw [run_lift_bind_eq_ok]
  constructor
  · rintro ⟨_, htoken, h⟩
    obtain ⟨rfl, hne⟩ := requireToken_eq_ok.1 htoken
    rw [run_bind_of_ok hclear, run_guard_eq_ok, run_lift_bind_eq_ok] at h
    obtain ⟨hside, _, hbounds, h⟩ := h
    obtain ⟨rfl, rfl⟩ := run_pure_eq_ok.1 h
    exact ⟨hne, hside, hbounds, rfl, rfl⟩
  · rintro ⟨hne, hside, hbounds, rfl, rfl⟩
    refine ⟨token, requireToken_eq_ok.2 ⟨rfl, hne⟩, ?_⟩
    rw [run_bind_of_ok hclear, run_guard_eq_ok, run_lift_bind_eq_ok]
    exact ⟨hside, (), hbounds, rfl⟩

omit [Host σ] in
theorem take_eq_ok {token : Address} {side : Side} {bounds : Bounds} {n : Word}
    (h : (take token side bounds).run c = .ok n c') :
    token ≠ 0 ∧ side.signed n = -c.ledger.debt token ∧
      ∃ l, c.ledger.Posts l (only token (-c.ledger.debt token)) ∧ c' = { c with ledger := l } := by
  obtain ⟨hne, hside, -, rfl, rfl⟩ := take_run_eq_ok.1 h
  have hl := c.ledger.posts_clear token
  rw [Ledger.clear_fst] at hl
  exact ⟨hne, Side.signed_magnitude hside, _, hl, rfl⟩

omit [Host σ] in
theorem take_within {token : Address} {side : Side} {bounds : Bounds} {n : Word}
    (h : (take token side bounds).run c = .ok n c') :
    (bounds.min.getD 0).toNat ≤ n.toNat ∧ n.toNat ≤ (bounds.max.getD Amount.max).toNat := by
  obtain ⟨-, -, hcheck, rfl, -⟩ := take_run_eq_ok.1 h
  by_contra hout
  have hrefused : bounds.check (c.ledger.deltaOf token).magnitude =
      .error (.boundViolation (c.ledger.deltaOf token).magnitude (bounds.min.getD 0)
        (bounds.max.getD Amount.max)) := if_pos (by omega)
  rw [hrefused] at hcheck
  cases hcheck

theorem token_ne_zero {token : Address} (h : token ≠ 0) : ∀ t ∈ [token], t ≠ 0 := by
  intro t ht
  rwa [List.mem_singleton.1 ht]

theorem effect_of_transfer (e : Event) {l : Ledger} (htokens : ∀ t ∈ op.tokens, t ≠ 0)
    (hdeal : op.deal? c.caller c.fees c.ledger.debt = none) (hpair : e.pair? = none)
    (hl : c.ledger.Posts l (op.posting c.ledger.debt))
    (hnet : ∀ t, e.net t = op.posting c.ledger.debt t)
    (hevents : c'.events = c.events ++ [e]) (hledger : c'.ledger = l)
    (hsame : c'.caller = c.caller ∧ c'.fees = c.fees ∧ c'.overlay = c.overlay)
    (hdue : c'.released = c.released ++ e.due)
    (houtside : Contact nested op c [e] c'.engine c'.host)
    (hkept : ∀ holder t, op.promised c.caller holder t ≤ e.delivered c.caller holder t) :
    Effect nested op c c' [e] where
  tokens := htokens
  events := hevents
  caller := hsame.1
  fees := hsame.2.1
  ledger := by
    rw [hledger]
    exact hl.trans (.refl fun _ => rfl) fun t => by rw [flow_singleton, hnet, Int.add_zero]
  trades := by
    rw [hsame.2.2]
    refine .none hdeal (fun e' he' => ?_) fun t => by rw [flow_singleton, hnet]
    rwa [List.mem_singleton.1 he']
  due := by rw [hdue, List.flatMap_singleton]
  outside := houtside
  kept := fun holder t => by
    rw [flow_singleton]
    exact hkept holder t

theorem effect_of_settledNothing {token : Address} {kind : Settlement} {l : Ledger}
    (htokens : ∀ t ∈ op.tokens, t ≠ 0)
    (hdeal : op.deal? c.caller c.fees c.ledger.debt = none)
    (hl : c.ledger.Posts l (op.posting c.ledger.debt))
    (hposting : ∀ t, op.posting c.ledger.debt t = 0)
    (hkept : ∀ holder t, op.promised c.caller holder t ≤
      (Event.settled token kind 0).delivered c.caller holder t)
    (h : (emit (.settled token kind 0)).run { c with ledger := l } = .ok () c') :
    Effect nested op c c' [.settled token kind 0] := by
  cases emit_eq_ok h
  have hzero (t : Address) : only token (0 : Word).toNat t = 0 := only_zero token t
  refine effect_of_transfer _ htokens hdeal rfl hl (fun t => ?_) rfl rfl ⟨rfl, rfl, rfl⟩ ?_
    (.none (fun t => ?_) fun holder t => ?_) hkept
  · rw [hposting]
    cases kind <;> simp only [Event.net, hzero, Int.neg_zero]
  · cases kind <;> simp [Event.due]
  · rw [flow_singleton]
    cases kind <;> simp only [Event.paid, hzero, Int.neg_zero]
  · rw [flow_singleton]
    cases kind <;> simp only [Event.delivered, hzero, Int.neg_zero, ite_self]

theorem promised_le_sent (token recipient : Address) {bounds : Bounds} {n : Word}
    (h : (bounds.min.getD 0).toNat ≤ n.toNat) (payer holder t : Address) :
    (Operation.sendAll token recipient bounds).promised payer holder t ≤
      (Event.settled token (.sent recipient) n).delivered payer holder t := by
  simp only [Operation.promised, Event.delivered]
  split
  · exact only_le_only (by omega) token t
  · exact Int.le_refl 0

theorem promised_le_received (token : Address) {bounds : Bounds} {n : Word}
    (h : n.toNat ≤ (bounds.max.getD Amount.max).toNat) (payer holder t : Address) :
    (Operation.receiveAll token bounds).promised payer holder t ≤
      (Event.settled token .received n).delivered payer holder t := by
  simp only [Operation.promised, Event.delivered]
  split
  · exact Int.neg_le_neg (only_le_only (by omega) token t)
  · exact Int.le_refl 0

theorem sendAll_effect {token recipient : Address} {bounds : Bounds}
    (h : (sendAll nested token recipient bounds).run c = .ok () c') :
    ∃ es, Effect nested (.sendAll token recipient bounds) c c' es := by
  unfold sendAll at h
  rw [run_bind_eq_ok] at h
  obtain ⟨n, c₁, htake, h⟩ := h
  obtain ⟨hne, hn, l, hl, rfl⟩ := take_eq_ok htake
  have hnet (t : Address) : only token n.toNat t = only token (-c.ledger.debt token) t :=
    congrArg (only token · t) hn
  have hkept := promised_le_sent token recipient (take_within htake).1 c.caller
  by_cases hzero : n = 0
  · subst hzero
    exact ⟨_, effect_of_settledNothing (token_ne_zero hne) rfl hl
      (fun t => (hnet t).symm.trans (only_zero token t)) hkept h⟩
  · rw [if_pos hzero, run_bind_eq_ok] at h
    obtain ⟨_, c₂, hsend, h⟩ := h
    obtain ⟨w, hrun, rfl⟩ := onHost_eq_ok hsend
    cases emit_eq_ok h
    exact ⟨_, effect_of_transfer (.settled token (.sent recipient) n) (token_ne_zero hne) rfl rfl hl
      hnet rfl rfl ⟨rfl, rfl, rfl⟩ (List.append_nil _).symm
      (.sendOut (w := w) rfl (fun t => flow_singleton ..) (fun holder t => flow_singleton ..) hrun)
      hkept⟩

theorem receiveAll_effect {token : Address} {bounds : Bounds}
    (h : (receiveAll nested token bounds).run c = .ok () c') :
    ∃ es, Effect nested (.receiveAll token bounds) c c' es := by
  unfold receiveAll at h
  rw [run_bind_eq_ok] at h
  obtain ⟨n, c₁, htake, h⟩ := h
  obtain ⟨hne, hn, l, hl, rfl⟩ := take_eq_ok htake
  have hnet (t : Address) : -only token n.toNat t = only token (-c.ledger.debt token) t :=
    (only_neg ..).symm.trans (congrArg (only token · t) hn)
  have hkept := promised_le_received token (take_within htake).2 c.caller
  by_cases hzero : n = 0
  · subst hzero
    exact ⟨_, effect_of_settledNothing (token_ne_zero hne) rfl hl
      (fun t => (hnet t).symm.trans (congrArg (-·) (only_zero token t))) hkept h⟩
  · rw [if_pos hzero, run_get_bind_eq_ok, run_bind_eq_ok] at h
    obtain ⟨_, c₂, hpull, h⟩ := h
    obtain ⟨w, hrun, rfl⟩ := onHost_eq_ok hpull
    cases emit_eq_ok h
    exact ⟨_, effect_of_transfer (.settled token .received n) (token_ne_zero hne) rfl rfl hl
      hnet rfl rfl ⟨rfl, rfl, rfl⟩ (List.append_nil _).symm
      (.pullIn (w := w) (fun t => flow_singleton ..) (fun holder t => flow_singleton ..) hrun)
      hkept⟩

theorem receiveAllViaCallback_effect {token : Address} {bounds : Bounds}
    (h : (receiveAllViaCallback nested token bounds).run c = .ok () c') :
    ∃ es, Effect nested (.receiveAllViaCallback token bounds) c c' es := by
  unfold receiveAllViaCallback at h
  rw [run_bind_eq_ok] at h
  obtain ⟨n, c₁, htake, h⟩ := h
  obtain ⟨hne, hn, l, hl, rfl⟩ := take_eq_ok htake
  have hnet (t : Address) : -only token n.toNat t = only token (-c.ledger.debt token) t :=
    (only_neg ..).symm.trans (congrArg (only token · t) hn)
  have hkept (holder t : Address) :
      (Operation.receiveAllViaCallback token bounds).promised c.caller holder t ≤
        (Event.settled token .receivedViaCallback n).delivered c.caller holder t :=
    promised_le_received token (take_within htake).2 c.caller holder t
  by_cases hzero : n = 0
  · subst hzero
    exact ⟨_, effect_of_settledNothing (token_ne_zero hne) rfl hl
      (fun t => (hnet t).symm.trans (congrArg (-·) (only_zero token t))) hkept h⟩
  · rw [if_pos hzero, run_get_bind_eq_ok, run_get_bind_eq_ok, run_bind_eq_ok] at h
    obtain ⟨before, c₂, hask, h⟩ := h
    obtain ⟨w₀, hbefore, rfl⟩ := ask_eq_ok hask
    rw [run_bind_eq_ok] at h
    obtain ⟨marker, c₃, hask, h⟩ := h
    obtain ⟨w₁, hrun, rfl⟩ := ask_eq_ok hask
    rw [run_guard_eq_ok, run_bind_eq_ok] at h
    obtain ⟨-, after, c₄, hask, h⟩ := h
    obtain ⟨w₂, hafter, rfl⟩ := ask_eq_ok hask
    rw [run_guard_eq_ok] at h
    obtain ⟨hreceived, h⟩ := h
    cases emit_eq_ok h
    have hgain : n.toNat ≤ after.toNat - before.toNat := by
      rw [← Word.toNat_subSaturating]
      exact Nat.not_lt.1 hreceived
    have houtside : Contact nested (.receiveAllViaCallback token bounds) c
        [.settled token .receivedViaCallback n] w₂.engine w₂.host :=
      .settled (fun t => flow_singleton ..) (fun holder t => flow_singleton ..) hbefore hrun hafter
        hgain
    exact ⟨_, effect_of_transfer (.settled token .receivedViaCallback n) (token_ne_zero hne) rfl
      rfl hl hnet rfl rfl ⟨rfl, rfl, rfl⟩ (List.append_nil _).symm houtside hkept⟩

theorem markReceived_effect {token : Address} {bounds : Bounds}
    (h : (markReceived token bounds).run c = .ok () c') :
    ∃ es, Effect nested (.markReceived token bounds) c c' es := by
  unfold markReceived at h
  rw [run_bind_eq_ok] at h
  obtain ⟨n, c₁, htake, h⟩ := h
  obtain ⟨hne, hn, l, hl, rfl⟩ := take_eq_ok htake
  have hnet (t : Address) : only token n.toNat t = only token (-c.ledger.debt token) t :=
    congrArg (only token · t) hn
  by_cases hzero : n = 0
  · subst hzero
    exact ⟨_, effect_of_settledNothing (token_ne_zero hne) rfl hl
      (fun t => (hnet t).symm.trans (only_zero token t)) (fun _ _ => by exact Int.le_refl 0) h⟩
  · rw [if_pos hzero, run_bind_eq_ok] at h
    obtain ⟨_, c₂, hmodify, h⟩ := h
    cases run_modify_eq_ok.1 hmodify
    cases emit_eq_ok h
    have hdue : (Event.settled token .markedReceived n).due = [(token, n)] := if_neg hzero
    exact ⟨_, effect_of_transfer (.settled token .markedReceived n) (token_ne_zero hne) rfl rfl hl
      hnet rfl rfl ⟨rfl, rfl, rfl⟩ (congrArg (c.released ++ ·) hdue.symm)
      (.none (fun t => rfl) fun holder t => rfl) fun _ _ => Int.le_refl 0⟩

theorem effect_of_nothing (htokens : ∀ t ∈ op.tokens, t ≠ 0)
    (hdeal : op.deal? c.caller c.fees c.ledger.debt = none)
    (hposting : ∀ t, op.posting c.ledger.debt t = 0)
    (hkept : ∀ holder t, op.promised c.caller holder t ≤ 0) : Effect nested op c c [] where
  tokens := htokens
  events := (List.append_nil _).symm
  caller := rfl
  fees := rfl
  ledger := .refl fun _ => rfl
  trades := .none hdeal (fun _ he => nomatch he) fun t => (hposting t).symm
  due := (List.append_nil _).symm
  outside := .none (fun _ => rfl) fun _ _ => rfl
  kept := hkept

theorem deposit_eq_ok {token : Address} {amount : Amount}
    (h : (deposit nested token amount).run c = .ok () c') :
    token ≠ 0 ∧ (amount = 0 ∧ c' = c ∨ amount ≠ 0 ∧ ∃ w l,
      c.toWorld.serve nested (.pullIn token c.caller (Amount.widen amount)) = (.ok (), w) ∧
      c.ledger.Posts l (only token (-amount.toNat)) ∧
      c' = { c with
        toWorld := w.note (.performed c.caller (.deposited token amount))
        ledger := l
        events := c.events ++ [.deposited token amount] }) := by
  unfold deposit at h
  rw [run_lift_bind_eq_ok] at h
  obtain ⟨_, htoken, h⟩ := h
  obtain ⟨rfl, hne⟩ := requireToken_eq_ok.1 htoken
  refine ⟨hne, ?_⟩
  by_cases hzero : amount = 0
  · rw [if_pos hzero] at h
    obtain ⟨-, rfl⟩ := run_pure_eq_ok.1 h
    exact .inl ⟨hzero, rfl⟩
  · rw [if_neg hzero, run_get_bind_eq_ok] at h
    simp only [run_bind_eq_ok] at h
    obtain ⟨_, c₁, hpull, _, c₂, hchange, h⟩ := h
    obtain ⟨w, hrun, rfl⟩ := onHost_eq_ok hpull
    obtain ⟨l, hl, rfl⟩ := change_eq_ok hchange
    exact .inr ⟨hzero, w, l, hrun, hl, emit_eq_ok h⟩

theorem deposit_effect {token : Address} {amount : Amount}
    (h : (deposit nested token amount).run c = .ok () c') :
    ∃ es, Effect nested (.deposit token amount) c c' es := by
  obtain ⟨hne, ⟨rfl, rfl⟩ | ⟨-, w, l, hrun, hl, rfl⟩⟩ := deposit_eq_ok h
  · have hnothing (holder t : Address) :
        (Operation.deposit token 0).promised c'.caller holder t = 0 := by
      simp only [Operation.promised]
      rw [show ((0 : Amount).toNat : Int) = 0 from rfl, only_zero, Int.neg_zero, ite_self]
    exact ⟨[], effect_of_nothing (token_ne_zero hne) rfl (only_zero _)
      fun holder t => (hnothing holder t).le⟩
  · refine ⟨_, effect_of_transfer (.deposited token amount) (token_ne_zero hne) rfl rfl hl
      (fun t => (only_neg ..).symm) rfl rfl ⟨rfl, rfl, rfl⟩ (List.append_nil _).symm
      (.pullIn (w := w) (fun t => ?_) (fun holder t => ?_) hrun) fun _ _ => Int.le_refl _⟩
    · rw [flow_singleton, Amount.toNat_widen]
      rfl
    · rw [flow_singleton, Amount.toNat_widen]
      rfl

theorem withdraw_effect {token recipient : Address} {amount : Amount}
    (h : (withdraw nested token recipient amount).run c = .ok () c') :
    ∃ es, Effect nested (.withdraw token recipient amount) c c' es := by
  unfold withdraw at h
  rw [run_lift_bind_eq_ok] at h
  obtain ⟨_, htoken, h⟩ := h
  obtain ⟨rfl, hne⟩ := requireToken_eq_ok.1 htoken
  by_cases hzero : amount = 0
  · subst hzero
    rw [if_pos rfl] at h
    obtain ⟨-, rfl⟩ := run_pure_eq_ok.1 h
    exact ⟨[], effect_of_nothing (token_ne_zero hne) rfl (only_zero _) fun _ _ => Int.le_refl 0⟩
  · rw [if_neg hzero] at h
    simp only [run_bind_eq_ok] at h
    obtain ⟨_, c₁, hsend, _, c₂, hchange, h⟩ := h
    obtain ⟨w, hrun, rfl⟩ := onHost_eq_ok hsend
    obtain ⟨l, hl, rfl⟩ := change_eq_ok hchange
    cases emit_eq_ok h
    refine ⟨_, effect_of_transfer (.withdrawn token recipient amount) (token_ne_zero hne) rfl rfl
      hl (fun t => rfl) rfl rfl ⟨rfl, rfl, rfl⟩ (List.append_nil _).symm
      (.sendOut (w := w) rfl (fun t => ?_) (fun holder t => ?_) hrun) fun holder t => ?_⟩
    · rw [flow_singleton, Amount.toNat_widen]
      rfl
    · rw [flow_singleton, Amount.toNat_widen]
      rfl
    · change 0 ≤ if holder = recipient then only token amount.toNat t else 0
      split
      · exact only_nonneg (Int.natCast_nonneg _) token t
      · exact Int.le_refl 0

theorem permit_effect {token : Address} {amount : Amount} {deadline : UInt64}
    {signature : Signature}
    (h : (permit nested token amount deadline signature).run c = .ok () c') :
    ∃ es, Effect nested (.permit token amount deadline signature) c c' es := by
  unfold permit at h
  rw [run_lift_bind_eq_ok] at h
  obtain ⟨_, htoken, h⟩ := h
  rw [run_get_bind_eq_ok, run_bind_eq_ok] at h
  obtain ⟨_, c₁, hpermit, h⟩ := h
  obtain ⟨rfl, hne⟩ := requireToken_eq_ok.1 htoken
  obtain ⟨w, hrun, rfl⟩ := onHost_eq_ok hpermit
  cases emit_eq_ok h
  exact ⟨_, effect_of_transfer (.permitGranted token amount deadline) (token_ne_zero hne) rfl rfl
    (.refl fun _ => rfl) (fun t => rfl) rfl rfl ⟨rfl, rfl, rfl⟩ (List.append_nil _).symm
    (.grantPermit (w := w) (fun t => rfl) (fun holder t => rfl) hrun) fun _ _ => Int.le_refl 0⟩

/-- An operation that was performed has an effect. -/
theorem perform_eq_ok (h : (perform nested op).run c = .ok () c') :
    ∃ es, Effect nested op c c' es := by
  cases op with
  | swap => exact swap_effect h
  | addLiquidity => exact addLiquidity_effect h
  | removeLiquidity => exact removeLiquidity_effect h
  | sendAll => exact sendAll_effect h
  | receiveAll => exact receiveAll_effect h
  | receiveAllViaCallback => exact receiveAllViaCallback_effect h
  | markReceived => exact markReceived_effect h
  | deposit => exact deposit_effect h
  | withdraw => exact withdraw_effect h
  | permit => exact permit_effect h
  | claimFees => exact claimFees_effect h

def performAll (nested : Runner σ) : List Operation → Faulting (Context σ) Unit
  | [] => pure ()
  | op :: ops => do
    perform nested op
    performAll nested ops

/-- What every operation of a program keeps, the program keeps. -/
theorem performAll_induction {P : Context σ → Prop} {ops : List Operation}
    (hstep : ∀ op ∈ ops, ∀ c c' es, P c → Effect nested op c c' es → P c')
    (h : (performAll nested ops).run c = .ok () c') (hc : P c) : P c' := by
  induction ops generalizing c with
  | nil =>
    obtain ⟨-, rfl⟩ := run_pure_eq_ok.1 h
    exact hc
  | cons op ops ih =>
    rw [performAll, run_bind_eq_ok] at h
    obtain ⟨_, c₁, hop, hrest⟩ := h
    obtain ⟨es, heffect⟩ := perform_eq_ok hop
    have hc₁ := hstep op (List.mem_cons_self ..) c c₁ es hc heffect
    exact ih (fun op hmem => hstep op (List.mem_cons_of_mem _ hmem)) hrest hc₁

/-- A reference that follows every operation follows the program. -/
theorem performAll_foldlM {τ : Type} {R : Context σ → τ → Prop}
    {step : τ → Operation → Except Fault τ}
    (hstep : ∀ op c c' es t, R c t → Effect nested op c c' es → ∃ t', step t op = .ok t' ∧ R c' t')
    {ops : List Operation} {t : τ} (h : (performAll nested ops).run c = .ok () c') (hc : R c t) :
    ∃ t', ops.foldlM step t = .ok t' ∧ R c' t' := by
  induction ops generalizing c t with
  | nil =>
    obtain ⟨-, rfl⟩ := run_pure_eq_ok.1 h
    exact ⟨t, rfl, hc⟩
  | cons op ops ih =>
    rw [performAll, run_bind_eq_ok] at h
    obtain ⟨_, c₁, hop, hrest⟩ := h
    obtain ⟨es, heffect⟩ := perform_eq_ok hop
    obtain ⟨t₁, ht₁, hc₁⟩ := hstep op c c₁ es t hc heffect
    obtain ⟨t', ht', hc'⟩ := ih hrest hc₁
    refine ⟨t', ?_, hc'⟩
    rw [List.foldlM_cons, ht₁]
    exact ht'

end Context

end NetSettle
