import NetSettle.Execution.Engine
import NetSettle.Proofs.Execution.Effect
import NetSettle.Proofs.Tracking

/-!
# Runs in lockstep

Two executions that agree in all but their worlds stay so, and fault together or end together, as
long as no step can tell their worlds apart. A `Coupling` is such a relation of worlds: its worlds
have one book and one address, and their outside worlds answer every request alike and are coupled
again afterwards. Nothing that is written into the journal is ever read back.

Their ledgers may differ as well if these answer alike. A `Pairing` of ledgers allows the first to
fault in a way that is excused where the second goes on.
-/
namespace NetSettle

/-- A relation of worlds in which no step of an execution sees a difference. -/
structure World.Coupling {σ τ : Type} [Host σ] [Host τ] (H : World σ → World τ → Prop)
    (nested : Runner σ) (nested' : Runner τ) : Prop where
  book : ∀ {w v}, H w v → v.engine.book = w.engine.book
  address : ∀ {w v}, H w v → v.engine.address = w.engine.address
  journal : ∀ {w v} (journal journal' : List JournalEntry), H w v →
    H { w with journal := journal } { v with journal := journal' }
  serve : ∀ {w v} {α : Type} (request : HostRequest α), H w v →
    (w.serve nested request).1 = (v.serve nested' request).1 ∧
      H (w.serve nested request).2 (v.serve nested' request).2

/-- A relation of ledgers in which no step of an execution sees a difference, unless the first
ledger faults in a way that is excused. -/
structure Ledger.Pairing (excused : Fault → Prop) (L : Ledger → Ledger → Prop) : Prop where
  change : ∀ token delta,
    Follows excused L (Ledger.change token delta) (Ledger.change token delta)
  balance : ∀ token, Tracks L (modifyGet (Ledger.balance token) : Faulting Ledger Delta)
    (modifyGet (Ledger.balance token))
  clear : ∀ token, Tracks L (modifyGet (Ledger.clear token) : Faulting Ledger Delta)
    (modifyGet (Ledger.clear token))

theorem Ledger.pairing_same {excused : Fault → Prop} :
    Pairing excused fun l l' => l' = l :=
  ⟨fun _ _ => (Tracks.refl _).follows, fun _ => .refl _, fun _ => .refl _⟩

namespace Context

variable {σ τ α : Type} {L : Ledger → Ledger → Prop} {H : World σ → World τ → Prop}
  {excused : Fault → Prop}

structure Abreast (L : Ledger → Ledger → Prop) (H : World σ → World τ → Prop) (c : Context σ)
    (d : Context τ) : Prop where
  world : H c.toWorld d.toWorld
  caller : d.caller = c.caller
  fees : d.fees = c.fees
  ledger : L c.ledger d.ledger
  overlay : d.overlay = c.overlay
  released : d.released = c.released
  events : d.events = c.events

abbrev InStep (H : World σ → World τ → Prop) : Context σ → Context τ → Prop :=
  Abreast (fun l l' => l' = l) H

theorem abreast_start {w : World σ} {v : World τ} {ledger ledger' : Ledger} (h : H w v)
    (hfees : v.engine.fees = w.engine.fees) (hledger : L ledger ledger') (caller : Address) :
    Abreast L H (start w caller ledger) (start v caller ledger') :=
  ⟨h, rfl, hfees, hledger, rfl, rfl, rfl⟩

theorem inStep_start {w : World σ} {v : World τ} (h : H w v)
    (hfees : v.engine.fees = w.engine.fees) (caller : Address) (ledger : Ledger) :
    InStep H (start w caller ledger) (start v caller ledger) :=
  abreast_start (L := fun l l' => l' = l) h hfees rfl caller

theorem follows_onLedger {work work' : Faulting Ledger α} (hwork : Follows excused L work work') :
    Follows excused (Abreast L H) (onLedger work) (onLedger work') := by
  intro c d h
  have hstep := hwork _ _ h.ledger
  simp only [EStateM.run, onLedger] at hstep ⊢
  rcases hstep with ⟨fault, l, hfault, hrun⟩ | hrun
  · rw [hrun]
    exact .inl ⟨fault, _, hfault, rfl⟩
  · generalize work c.ledger = r at hrun
    generalize work' d.ledger = r' at hrun
    cases hrun with
    | ok a h' => exact .inr (.ok a { h with ledger := h' })
    | error fault h' => exact .inr (.error fault { h with ledger := h' })

variable [Host σ] [Host τ] {nested : Runner σ} {nested' : Runner τ}

section

variable (hL : Ledger.Pairing excused L) (hH : World.Coupling H nested nested')

include hH

theorem follows_onPool (pair : Pair) (work : Faulting Pool α) :
    Follows excused (Abreast L H) (onPool pair work) (onPool pair work) := by
  intro c d h
  simp only [EStateM.run, onPool, h.overlay, hH.book h.world]
  cases Overlay.onPool (.available c.engine.book) pair work c.overlay with
  | ok a o => exact .inr (.ok a { h with overlay := rfl })
  | error fault o => exact .inr (.error fault { h with overlay := rfl })

theorem follows_ask (request : HostRequest α) :
    Follows excused (Abreast L H) (ask nested request) (ask nested' request) := by
  intro c d h
  obtain ⟨hanswer, hworld⟩ := hH.serve request h.world
  simp only [EStateM.run, ask, ← hanswer]
  exact .inr (.ok _ { h with world := hworld })

theorem follows_onHost (kind : HostFault → Fault)
    (request : HostRequest (Except HostFault Unit)) :
    Follows excused (Abreast L H) (onHost nested kind request) (onHost nested' kind request) :=
  .bind (follows_ask hH request) fun _ => .lift _

theorem follows_note (entry entry' : JournalEntry) :
    Follows excused (Abreast L H) (note entry : Faulting (Context σ) Unit)
      (note entry' : Faulting (Context τ) Unit) :=
  fun _ _ h => .inr (.ok () { h with world := hH.journal _ _ h.world })

theorem follows_note_bind (entry : JournalEntry) {x : Faulting (Context σ) α}
    {y : Faulting (Context τ) α} (hxy : Follows excused (Abreast L H) x y) :
    Follows excused (Abreast L H) (note entry >>= fun _ => x) y :=
  fun _ d h => hxy _ d { h with world := hH.journal _ d.journal h.world }

theorem follows_emit (event : Event) :
    Follows excused (Abreast L H) (emit event : Faulting (Context σ) Unit)
      (emit event : Faulting (Context τ) Unit) :=
  fun _ _ h => .inr (.ok ()
    { h with world := hH.journal _ _ h.world, events := congrArg (· ++ [event]) h.events })

include hL

omit [Host σ] [Host τ] hH in
theorem follows_change (token : Address) (delta : Delta) :
    Follows excused (Abreast L H) (change token delta : Faulting (Context σ) Unit)
      (change token delta : Faulting (Context τ) Unit) :=
  follows_onLedger (hL.change token delta)

omit [Host σ] [Host τ] hH in
theorem follows_balance (token : Address) :
    Follows excused (Abreast L H) (balance token : Faulting (Context σ) Delta)
      (balance token : Faulting (Context τ) Delta) :=
  follows_onLedger (hL.balance token).follows

omit [Host σ] [Host τ] hH in
theorem follows_clear (token : Address) :
    Follows excused (Abreast L H) (clear token : Faulting (Context σ) Delta)
      (clear token : Faulting (Context τ) Delta) :=
  follows_onLedger (hL.clear token).follows

theorem follows_record {token0 token1 : Address} {delta0 delta1 : Delta} {event : Event} :
    Follows excused (Abreast L H)
      (record token0 token1 delta0 delta1 event : Faulting (Context σ) Unit)
      (record token0 token1 delta0 delta1 event : Faulting (Context τ) Unit) :=
  .bind (follows_change hL _ _) fun _ => .bind (follows_change hL _ _) fun _ => follows_emit hH _

theorem follows_sale (pair : Pair) (direction : Direction) (amountIn : Amount) :
    Follows excused (Abreast L H) (sale pair direction amountIn : Faulting (Context σ) Unit)
      (sale pair direction amountIn : Faulting (Context τ) Unit) := by
  refine .get_bind fun c d h => ?_
  rw [h.fees]
  exact .bind (follows_onPool hH _ _) fun _ => follows_record hL hH

theorem follows_swap {token0 token1 : Address} {direction : Direction} {amount : SwapAmount} :
    Follows excused (Abreast L H)
      (swap token0 token1 direction amount : Faulting (Context σ) Unit)
      (swap token0 token1 direction amount : Faulting (Context τ) Unit) := by
  unfold swap
  refine .bind (.lift _) fun pair => ?_
  cases amount with
  | exact amount => exact .bind (.pure _) fun _ => follows_sale hL hH pair direction _
  | fromLedger =>
    exact .bind (follows_balance hL _) fun _ => .guard (.bind (.lift _) fun _ =>
      follows_sale hL hH pair direction _)

theorem follows_addLiquidity {token0 token1 recipient : Address} {max0 max1 : Amount}
    {minShares : Option Amount} :
    Follows excused (Abreast L H)
      (addLiquidity token0 token1 recipient max0 max1 minShares : Faulting (Context σ) Unit)
      (addLiquidity token0 token1 recipient max0 max1 minShares : Faulting (Context τ) Unit) := by
  unfold addLiquidity
  refine .bind (.lift _) fun pair => .bind (follows_onPool hH _ _) fun minted => ?_
  cases minShares with
  | none => exact follows_record hL hH
  | some least => exact .guard (follows_record hL hH)

theorem follows_removeLiquidity {token0 token1 : Address} {shares : Option Amount} :
    Follows excused (Abreast L H)
      (removeLiquidity token0 token1 shares : Faulting (Context σ) Unit)
      (removeLiquidity token0 token1 shares : Faulting (Context τ) Unit) := by
  refine .bind (.lift _) fun _ => .get_bind fun c d h => ?_
  rw [h.caller]
  exact .bind (follows_onPool hH _ _) fun _ => follows_record hL hH

theorem follows_claimFees {token0 token1 : Address} :
    Follows excused (Abreast L H) (claimFees token0 token1 : Faulting (Context σ) Unit)
      (claimFees token0 token1 : Faulting (Context τ) Unit) := by
  refine .get_bind fun c d h => ?_
  rw [h.caller, h.fees]
  exact .guard (.bind (.lift _) fun _ => .bind (follows_onPool hH _ _) fun _ =>
    follows_record hL hH)

omit [Host σ] [Host τ] hH in
theorem follows_take {token : Address} {side : Side} {bounds : Bounds} :
    Follows excused (Abreast L H) (take token side bounds : Faulting (Context σ) Word)
      (take token side bounds : Faulting (Context τ) Word) :=
  .bind (.lift _) fun _ => .bind (follows_clear hL _) fun _ =>
    .guard (.bind (.lift _) fun _ => .pure _)

theorem follows_sendAll {token recipient : Address} {bounds : Bounds} :
    Follows excused (Abreast L H) (sendAll nested token recipient bounds)
      (sendAll nested' token recipient bounds) :=
  .bind (follows_take hL) fun _ =>
    .ite (.bind (follows_onHost hH _ _) fun _ => follows_emit hH _) (follows_emit hH _)

theorem follows_receiveAll {token : Address} {bounds : Bounds} :
    Follows excused (Abreast L H) (receiveAll nested token bounds)
      (receiveAll nested' token bounds) := by
  refine .bind (follows_take hL) fun _ => .ite (.get_bind fun c d h => ?_) (follows_emit hH _)
  rw [h.caller]
  exact .bind (follows_onHost hH _ _) fun _ => follows_emit hH _

theorem follows_receiveAllViaCallback {token : Address} {bounds : Bounds} :
    Follows excused (Abreast L H) (receiveAllViaCallback nested token bounds)
      (receiveAllViaCallback nested' token bounds) := by
  refine .bind (follows_take hL) fun _ => .ite (.get_bind fun c d h => .get_bind fun c' d' h' => ?_)
    (follows_emit hH _)
  rw [h.caller, hH.address h'.world]
  exact .bind (follows_ask hH _) fun _ => .bind (follows_ask hH _) fun _ => .guard <|
    .bind (follows_ask hH _) fun _ => .guard (follows_emit hH _)

theorem follows_markReceived {token : Address} {bounds : Bounds} :
    Follows excused (Abreast L H) (markReceived token bounds : Faulting (Context σ) Unit)
      (markReceived token bounds : Faulting (Context τ) Unit) := by
  refine .bind (follows_take hL) fun amount => .ite (.bind ?_ fun _ => follows_emit hH _)
    (follows_emit hH _)
  exact fun _ _ h => .inr
    (.ok _ { h with released := congrArg (· ++ [(token, amount)]) h.released })

theorem follows_deposit {token : Address} {amount : Amount} :
    Follows excused (Abreast L H) (deposit nested token amount)
      (deposit nested' token amount) := by
  refine .bind (.lift _) fun _ => .ite (.pure _) (.get_bind fun c d h => ?_)
  rw [h.caller]
  exact .bind (follows_onHost hH _ _) fun _ => .bind (follows_change hL _ _) fun _ =>
    follows_emit hH _

theorem follows_withdraw {token recipient : Address} {amount : Amount} :
    Follows excused (Abreast L H) (withdraw nested token recipient amount)
      (withdraw nested' token recipient amount) :=
  .bind (.lift _) fun _ => .ite (.pure _) (.bind (follows_onHost hH _ _) fun _ =>
    .bind (follows_change hL _ _) fun _ => follows_emit hH _)

omit hL in
theorem follows_permit {token : Address} {amount : Amount} {deadline : UInt64}
    {signature : Signature} :
    Follows excused (Abreast L H)
      (permit nested token amount deadline signature)
      (permit nested' token amount deadline signature) := by
  refine .bind (.lift _) fun _ => .get_bind fun c d h => ?_
  rw [h.caller]
  exact .bind (follows_onHost hH _ _) fun _ => follows_emit hH _

theorem follows_perform (op : Operation) :
    Follows excused (Abreast L H) (perform nested op) (perform nested' op) := by
  cases op with
  | swap => exact follows_swap hL hH
  | addLiquidity => exact follows_addLiquidity hL hH
  | removeLiquidity => exact follows_removeLiquidity hL hH
  | sendAll => exact follows_sendAll hL hH
  | receiveAll => exact follows_receiveAll hL hH
  | receiveAllViaCallback => exact follows_receiveAllViaCallback hL hH
  | markReceived => exact follows_markReceived hL hH
  | deposit => exact follows_deposit hL hH
  | withdraw => exact follows_withdraw hL hH
  | permit => exact follows_permit hH
  | claimFees => exact follows_claimFees hL hH

end

end Context

end NetSettle
