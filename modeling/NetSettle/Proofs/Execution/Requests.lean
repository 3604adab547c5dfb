import NetSettle.Proofs.Execution.Program
import NetSettle.Proofs.Keeping

/-!
# Requests to the outside world

No operation touches the stored engine, however it ends, except by what the outside world calls when
something is asked of it. So whatever of an engine is kept while the requests of an execution are
served is there when the execution has failed.
-/
namespace NetSettle

open Faulting

namespace Context

section

variable {σ α : Type} {e : Engine}

def On (e : Engine) (c : Context σ) : Prop := c.engine = e

theorem onLedger_keepsEngine (work : Faulting Ledger α) :
    Keeps (On e) (onLedger work : Faulting (Context σ) α) := by
  intro c h
  simp only [EStateM.run, onLedger]
  cases work c.ledger <;> exact h

theorem onPool_keepsEngine (pair : Pair) (work : Faulting Pool α) :
    Keeps (On e) (onPool pair work : Faulting (Context σ) α) := by
  intro c h
  simp only [EStateM.run, onPool]
  cases Overlay.onPool (.available c.engine.book) pair work c.overlay <;> exact h

theorem emit_keepsEngine (event : Event) :
    Keeps (On e) (emit event : Faulting (Context σ) Unit) :=
  .get_bind fun _ _ => .bind (.modify fun _ h => h) fun _ => .modify fun _ h => h

theorem record_keepsEngine {token0 token1 : Address} {delta0 delta1 : Delta} {event : Event} :
    Keeps (On e) (record token0 token1 delta0 delta1 event : Faulting (Context σ) Unit) :=
  .bind (onLedger_keepsEngine _) fun _ => .bind (onLedger_keepsEngine _) fun _ =>
    emit_keepsEngine _

theorem take_keepsEngine {token : Address} {side : Side} {bounds : Bounds} :
    Keeps (On e) (take token side bounds : Faulting (Context σ) Word) :=
  .bind (.lift _) fun _ => .bind (onLedger_keepsEngine _) fun _ => .guard fun _ =>
    .bind (.lift _) fun _ => .pure _

end

variable {σ : Type} [Host σ] {nested : Runner σ}

/-- The requests that performing an operation comes to, each with the world at that moment. -/
inductive Requests (nested : Runner σ) (c : Context σ) :
    Operation → World σ → {α : Type} → HostRequest α → Prop
  | sendAll {token recipient : Address} {bounds : Bounds} {amount : Word} {c₁ : Context σ}
      (htake : (take token .toCaller bounds).run c = .ok amount c₁) (hne : amount ≠ 0) :
      Requests nested c (.sendAll token recipient bounds) c.toWorld
        (.sendOut token recipient amount)
  | receiveAll {token : Address} {bounds : Bounds} {amount : Word} {c₁ : Context σ}
      (htake : (take token .toPool bounds).run c = .ok amount c₁) (hne : amount ≠ 0) :
      Requests nested c (.receiveAll token bounds) c.toWorld (.pullIn token c.caller amount)
  | before {token : Address} {bounds : Bounds} {amount : Word} {c₁ : Context σ}
      (htake : (take token .toPool bounds).run c = .ok amount c₁) (hne : amount ≠ 0) :
      Requests nested c (.receiveAllViaCallback token bounds) c.toWorld
        (.balanceOf token c.engine.address)
  | settle {token : Address} {bounds : Bounds} {amount before : Word} {c₁ : Context σ}
      {w₁ : World σ} (htake : (take token .toPool bounds).run c = .ok amount c₁) (hne : amount ≠ 0)
      (hbefore : c.toWorld.serve nested (.balanceOf token c.engine.address) = (before, w₁)) :
      Requests nested c (.receiveAllViaCallback token bounds) w₁ (.settle c.caller token amount)
  | after {token : Address} {bounds : Bounds} {amount before : Word} {c₁ : Context σ}
      {w₁ w₂ : World σ} (htake : (take token .toPool bounds).run c = .ok amount c₁)
      (hne : amount ≠ 0)
      (hbefore : c.toWorld.serve nested (.balanceOf token c.engine.address) = (before, w₁))
      (haccepted : w₁.serve nested (.settle c.caller token amount) = (.accepted, w₂)) :
      Requests nested c (.receiveAllViaCallback token bounds) w₂
        (.balanceOf token c.engine.address)
  | deposit {token : Address} {amount : Amount} (htoken : token ≠ 0) (hne : amount ≠ 0) :
      Requests nested c (.deposit token amount) c.toWorld
        (.pullIn token c.caller (Amount.widen amount))
  | withdraw {token recipient : Address} {amount : Amount} (htoken : token ≠ 0)
      (hne : amount ≠ 0) :
      Requests nested c (.withdraw token recipient amount) c.toWorld
        (.sendOut token recipient (Amount.widen amount))
  | permit {token : Address} {amount : Amount} {deadline : UInt64} {signature : Signature}
      (htoken : token ≠ 0) :
      Requests nested c (.permit token amount deadline signature) c.toWorld
        (.grantPermit c.caller token amount deadline signature)

variable {P : Engine → Prop} {c : Context σ}

theorem onHost_bind_engine {kind : HostFault → Fault}
    {request : HostRequest (Except HostFault Unit)} {rest : Faulting (Context σ) Unit}
    (hrest : ∀ e, Keeps (On e) rest) (hserve : P (c.toWorld.serve nested request).2.engine) :
    P (finalState ((onHost nested kind request >>= fun _ => rest).run c)).engine := by
  have hanswered (answer : Except HostFault Unit) (e : Engine) :
      Keeps (On (σ := σ) e) (monadLift (answer.mapError kind) >>= fun _ => rest) :=
    .lift_bind fun _ _ => hrest e
  have hkept := hanswered (c.toWorld.serve nested request).1 _
    { c with toWorld := (c.toWorld.serve nested request).2 } rfl
  exact Eq.symm hkept ▸ hserve

omit [Host σ] in
theorem requireToken_bind_engine {token : Address} {f : Address → Faulting (Context σ) Unit}
    (hf : token ≠ 0 → P (finalState ((f token).run c)).engine) (hc : P c.engine) :
    P (finalState ((monadLift (requireToken token) >>= f).run c)).engine := by
  cases htoken : requireToken token with
  | error fault => exact hc
  | ok token' =>
    obtain ⟨rfl, hne⟩ := requireToken_eq_ok.1 htoken
    exact hf hne

omit [Host σ] in
theorem take_bind_engine {token : Address} {side : Side} {bounds : Bounds}
    {move rest : Word → Faulting (Context σ) Unit}
    (hmove : ∀ amount l, (take token side bounds).run c = .ok amount { c with ledger := l } →
      amount ≠ 0 → P (finalState ((move amount).run { c with ledger := l })).engine)
    (hrest : ∀ amount e, Keeps (On e) (rest amount)) (hc : P c.engine) :
    P (finalState ((take token side bounds >>= fun amount =>
      if amount ≠ 0 then move amount else rest amount).run c)).engine := by
  cases htake : (take token side bounds).run c with
  | error fault c₁ =>
    have htaken : Keeps (On c.engine) (take token side bounds : Faulting (Context σ) Word) :=
      take_keepsEngine
    have hkept : (finalState ((take token side bounds).run c)).engine = c.engine := htaken c rfl
    rw [htake] at hkept
    rw [run_bind_of_error htake]
    exact hkept ▸ hc
  | ok amount c₁ =>
    rw [run_bind_of_ok htake]
    obtain ⟨-, -, l, -, rfl⟩ := take_eq_ok htake
    by_cases hzero : amount = 0
    · have hkept := hrest amount c.engine { c with ledger := l } rfl
      rw [if_neg (not_not.2 hzero)]
      exact hkept ▸ hc
    · rw [if_pos hzero]
      exact hmove amount l htake hzero

theorem verify_engine {token engine : Address} {amount before : Word} {marker : Marker}
    (hafter : marker = .accepted →
      P (c.toWorld.serve nested (.balanceOf token engine)).2.engine) (hc : P c.engine) :
    P (finalState ((do
      if marker ≠ Marker.accepted then
        throw (.settlementRefused token)
      let received := Word.subSaturating (← ask nested (.balanceOf token engine)) before
      if received < amount then
        throw (.settlementShortfall token amount received)
      emit (.settled token .receivedViaCallback amount) :
        Faulting (Context σ) Unit).run c)).engine := by
  by_cases haccepted : marker = .accepted
  · have hchecked (after : Word) (e : Engine) : Keeps (On (σ := σ) e) (do
        let received := Word.subSaturating after before
        if received < amount then
          throw (.settlementShortfall token amount received)
        emit (.settled token .receivedViaCallback amount)) :=
      .guard fun _ => emit_keepsEngine _
    have hkept := hchecked (c.toWorld.serve nested (.balanceOf token engine)).1 _
      { c with toWorld := (c.toWorld.serve nested (.balanceOf token engine)).2 } rfl
    rw [if_neg (not_not.2 haccepted)]
    exact hkept ▸ hafter haccepted
  · rw [if_pos haccepted]
    exact hc

theorem receiveAllViaCallback_engine {token : Address} {bounds : Bounds}
    (hrequests : ∀ {α : Type} (u : World σ) (request : HostRequest α),
      Requests nested c (.receiveAllViaCallback token bounds) u request → P u.engine →
      P (u.serve nested request).2.engine)
    (hc : P c.engine) :
    P (finalState ((receiveAllViaCallback nested token bounds).run c)).engine := by
  refine take_bind_engine (fun amount l htake hne => ?_) (fun _ _ => emit_keepsEngine _) hc
  have hbefore := hrequests _ _ (.before htake hne) hc
  have hsettle := hrequests _ _ (.settle htake hne rfl) hbefore
  let w₁ := (c.toWorld.serve nested (.balanceOf token c.engine.address)).2
  let w₂ := (w₁.serve nested (.settle c.caller token amount)).2
  exact verify_engine (c := { c with ledger := l, toWorld := w₂ })
    (fun haccepted => hrequests _ _ (.after htake hne rfl (Prod.ext haccepted rfl)) hsettle) hsettle

/-- What every request keeps of the engine, an operation keeps, however it ends. -/
theorem perform_engine {op : Operation}
    (hrequests : ∀ {α : Type} (u : World σ) (request : HostRequest α),
      Requests nested c op u request → P u.engine → P (u.serve nested request).2.engine)
    (hc : P c.engine) : P (finalState ((perform nested op).run c)).engine := by
  have hcalm (h : ∀ e, Keeps (On e) (perform nested op)) :
      P (finalState ((perform nested op).run c)).engine := h c.engine c rfl ▸ hc
  cases op with
  | swap token0 token1 direction amount =>
    refine hcalm fun e => .bind (.lift _) fun pair => ?_
    have hsale (amountIn : Amount) :
        Keeps (On e) (sale pair direction amountIn : Faulting (Context σ) Unit) :=
      .get_bind fun _ _ => .bind (onPool_keepsEngine _ _) fun _ => record_keepsEngine
    cases amount with
    | exact amount => exact .bind (.pure _) hsale
    | fromLedger =>
      exact .bind (onLedger_keepsEngine _) fun _ => .guard fun _ => .bind (.lift _) hsale
  | addLiquidity token0 token1 recipient max0 max1 minShares =>
    refine hcalm fun e => .bind (.lift _) fun _ => .bind (onPool_keepsEngine _ _) fun minted => ?_
    cases minShares with
    | none => exact record_keepsEngine
    | some least => exact .guard fun _ => record_keepsEngine
  | removeLiquidity =>
    exact hcalm fun e => .bind (.lift _) fun _ => .get_bind fun _ _ =>
      .bind (onPool_keepsEngine _ _) fun _ => record_keepsEngine
  | claimFees =>
    exact hcalm fun e => .get_bind fun _ _ => .guard fun _ => .bind (.lift _) fun _ =>
      .bind (onPool_keepsEngine _ _) fun _ => record_keepsEngine
  | markReceived =>
    refine hcalm fun e => .bind take_keepsEngine fun _ => .ite (fun _ => .bind ?_ fun _ =>
      emit_keepsEngine _) fun _ => emit_keepsEngine _
    exact .modify fun _ h => h
  | sendAll =>
    refine take_bind_engine (fun amount l htake hne => ?_) (fun _ _ => emit_keepsEngine _) hc
    exact onHost_bind_engine (fun _ => emit_keepsEngine _) (hrequests _ _ (.sendAll htake hne) hc)
  | receiveAll =>
    refine take_bind_engine (fun amount l htake hne => ?_) (fun _ _ => emit_keepsEngine _) hc
    exact onHost_bind_engine (c := { c with ledger := l }) (fun _ => emit_keepsEngine _)
      (hrequests _ _ (.receiveAll htake hne) hc)
  | receiveAllViaCallback => exact receiveAllViaCallback_engine hrequests hc
  | deposit token amount =>
    refine requireToken_bind_engine (fun htoken => ?_) hc
    by_cases hzero : amount = 0
    · rw [if_pos hzero]
      exact hc
    · rw [if_neg hzero]
      exact onHost_bind_engine (c := c)
        (fun _ => .bind (onLedger_keepsEngine _) fun _ => emit_keepsEngine _)
        (hrequests _ _ (.deposit htoken hzero) hc)
  | withdraw token recipient amount =>
    refine requireToken_bind_engine (fun htoken => ?_) hc
    by_cases hzero : amount = 0
    · rw [if_pos hzero]
      exact hc
    · rw [if_neg hzero]
      exact onHost_bind_engine
        (fun _ => .bind (onLedger_keepsEngine _) fun _ => emit_keepsEngine _)
        (hrequests _ _ (.withdraw htoken hzero) hc)
  | permit =>
    refine requireToken_bind_engine (fun htoken => ?_) hc
    exact onHost_bind_engine (c := c) (fun _ => emit_keepsEngine _)
      (hrequests _ _ (.permit htoken) hc)

inductive RequestsAll (nested : Runner σ) (ops : List Operation) (c : Context σ) :
    World σ → {α : Type} → HostRequest α → Prop
  | intro {before after : List Operation} {op : Operation} {c₁ : Context σ} {u : World σ}
      {α : Type} {request : HostRequest α} (hops : ops = before ++ op :: after)
      (hrun : (performAll nested before).run c = .ok () c₁)
      (hrequest : Requests nested c₁ op u request) : RequestsAll nested ops c u request

theorem RequestsAll.cons {op : Operation} {ops : List Operation} {c₁ : Context σ} {u : World σ}
    {α : Type} {request : HostRequest α} (hop : (perform nested op).run c = .ok () c₁)
    (h : RequestsAll nested ops c₁ u request) : RequestsAll nested (op :: ops) c u request := by
  cases h with
  | @intro before _ _ c₂ _ _ _ hops hrun hrequest =>
    have hbefore : (performAll nested (op :: before)).run c = .ok () c₂ := by
      rw [performAll, run_bind_of_ok hop]
      exact hrun
    exact .intro (congrArg (op :: ·) hops) hbefore hrequest

theorem performAll_engine {ops : List Operation}
    (hrequests : ∀ {α : Type} (u : World σ) (request : HostRequest α),
      RequestsAll nested ops c u request → P u.engine → P (u.serve nested request).2.engine)
    (hc : P c.engine) : P (finalState ((performAll nested ops).run c)).engine := by
  induction ops generalizing c with
  | nil => exact hc
  | cons op ops ih =>
    have hfirst : op :: ops = [] ++ op :: ops := rfl
    have hop : P (finalState ((perform nested op).run c)).engine :=
      perform_engine (fun u request h => hrequests u request (.intro hfirst rfl h)) hc
    rw [performAll]
    cases hrun : (perform nested op).run c with
    | error fault c₁ =>
      rw [hrun] at hop
      rw [run_bind_of_error hrun]
      exact hop
    | ok _ c₁ =>
      rw [hrun] at hop
      rw [run_bind_of_ok hrun]
      exact ih (fun u request h => hrequests u request (h.cons hrun)) hop

end Context

namespace World

variable {σ : Type} [Host σ] {w w' : World σ} {caller : Address} {data : List UInt8}
  {P : Engine → Prop}

/-- The requests that running a program comes to. The journal of the world then lacks what is noted
of each operation when it is read. -/
inductive Asks (w : World σ) (caller : Address) (data : List UInt8) :
    World σ → {α : Type} → HostRequest α → Prop
  | intro {capacity : UInt16} {cursor : Cursor} {ledger : Ledger} {u : World σ} {α : Type}
      {request : HostRequest α} (hread : Cursor.readUInt16.run (.start data) = .ok capacity cursor)
      (hledger : Ledger.ofCapacity capacity.toNat = .ok ledger)
      (hrequest : Context.RequestsAll nestedRunner (readableOperations cursor)
        (w.begin caller ledger) u request) : Asks w caller data u request

theorem interpret_engine {capacity : UInt16} {cursor : Cursor}
    {ledger : Ledger} (hread : Cursor.readUInt16.run (.start data) = .ok capacity cursor)
    (hledger : Ledger.ofCapacity capacity.toNat = .ok ledger)
    (hrequests : ∀ {α : Type} (u : World σ) (request : HostRequest α),
      w.Asks caller data u request → P u.engine → P (u.serve nestedRunner request).2.engine)
    (hP : P { w.engine with executing := true }) :
    P (finalState ((Context.interpret nestedRunner cursor 0).run
      (w.begin caller ledger))).engine := by
  have hperformed := Context.performAll_engine (c := w.begin caller ledger)
    (fun u request h => hrequests u request (.intro hread hledger h)) hP
  have hreadable : (finalState ((Context.performReadable nestedRunner cursor 0).run
      (w.begin caller ledger))).engine = (finalState ((Context.performAll nestedRunner
        (readableOperations cursor)).run (w.begin caller ledger))).engine := by
    rw [Context.performReadable]
    cases hrun : (Context.performAll nestedRunner (readableOperations cursor)).run
        (w.begin caller ledger) with
    | error fault c =>
      rw [run_bind_of_error hrun]
      rfl
    | ok _ c =>
      rw [run_bind_of_ok hrun]
      cases decodeOperations cursor <;> rfl
  -- The program as it is read ends alike, but for the journal, and that is no part of the engine.
  have hmatches := interpret_matches_readable w caller ledger cursor
  rw [← hreadable] at hperformed
  generalize (Context.performReadable nestedRunner cursor 0).run (w.begin caller ledger) = r'
    at hmatches hperformed
  generalize (Context.interpret nestedRunner cursor 0).run (w.begin caller ledger) = r at hmatches
  cases hmatches with
  | ok _ h | error _ h =>
    obtain ⟨-, journal, rfl⟩ := h.eq_withJournal
    exact hperformed

/-- An execution that faulted changed the engine no more than its requests did. -/
theorem execute_eq_error {fault : Fault}
    (hrequests : ∀ {α : Type} (u : World σ) (request : HostRequest α),
      w.Asks caller data u request → P u.engine → P (u.serve nestedRunner request).2.engine)
    (hP : P { w.engine with executing := true })
    (h : (execute caller data).run w = .error fault w') :
    w' = w ∨ ∃ e, P e ∧ w'.engine = { e with executing := false } := by
  have hended := ended_execute w caller data
  rw [h] at hended
  cases hended with
  | refused => exact Or.inl rfl
  | unopened => exact Or.inr ⟨_, hP, rfl⟩
  | faulted hread hledger hrun =>
    have hc := interpret_engine hread hledger hrequests hP
    rw [hrun] at hc
    exact Or.inr ⟨_, hc, rfl⟩
  | unsettled hread hledger hrun =>
    have hc := interpret_engine hread hledger hrequests hP
    rw [hrun] at hc
    exact Or.inr ⟨_, hc, rfl⟩

theorem execute_eq_error_of_keptByFees {fault : Fault}
    (hrunning : ∀ e, P e → e.executing = true) (hfees : KeptByFees P)
    (hP : P { w.engine with executing := true })
    (h : (execute caller data).run w = .error fault w') :
    w' = w ∨ ∃ e, P e ∧ w'.engine = { e with executing := false } :=
  execute_eq_error
    (fun _ _ _ hu => keeps_serve hfees (steady_nestedRunner hrunning) hu rfl) hP h

end World

end NetSettle
