import NetSettle.Proofs.Bank
import NetSettle.Proofs.Execution.Gate
import NetSettle.Proofs.Keeping
import NetSettle.Proofs.Pool.Trading

/-!
# Only the caller can lose

A program acts for its caller and for nobody else. However its execution ends, no other holder's
balance falls and no other holder's allowance changes, no other owner's shares become fewer, and the
accrued fees are taken by their receiver alone.
-/
namespace NetSettle

open Faulting (finalState)

namespace Pool

structure Spares (caller receiver : Address) (p p' : Pool) : Prop where
  pair : p'.pair = p.pair
  shares : ∀ h ≠ caller, (p.sharesOf h).toNat ≤ (p'.sharesOf h).toNat
  fees : caller ≠ receiver → p.accruedFee0.toNat ≤ p'.accruedFee0.toNat ∧
    p.accruedFee1.toNat ≤ p'.accruedFee1.toNat

variable {caller receiver : Address} {p₀ p p' : Pool}

theorem spares_refl (p : Pool) : p.Spares caller receiver p :=
  ⟨rfl, fun _ _ => le_rfl, fun _ => ⟨le_rfl, le_rfl⟩⟩

theorem Spares.trans (h : p₀.Spares caller receiver p) (h' : p.Spares caller receiver p') :
    p₀.Spares caller receiver p' where
  pair := h'.pair.trans h.pair
  shares := fun o ho => (h.shares o ho).trans (h'.shares o ho)
  fees := fun hne => ⟨(h.fees hne).1.trans (h'.fees hne).1, (h.fees hne).2.trans (h'.fees hne).2⟩

theorem keeps_swap (direction : Direction) (amountIn : Amount) (fees : FeeSettings) :
    Keeps (p₀.Spares caller receiver) (swap direction amountIn fees) := by
  rw [swap]
  refine .get_bind fun p hp => .guard fun _ => ?_
  cases direction with
  | zeroForOne =>
    refine .lift_bind fun quote _ => .lift_bind fun accrued haccrued =>
      .bind (.set (hp.trans ⟨rfl, fun _ _ => le_rfl, fun _ => ⟨?_, le_rfl⟩⟩)) fun _ => .pure _
    rw [addAmounts_eq_ok haccrued]
    exact Nat.le_add_right _ _
  | oneForZero =>
    refine .lift_bind fun quote _ => .lift_bind fun accrued haccrued =>
      .bind (.set (hp.trans ⟨rfl, fun _ _ => le_rfl, fun _ => ⟨le_rfl, ?_⟩⟩)) fun _ => .pure _
    rw [addAmounts_eq_ok haccrued]
    exact Nat.le_add_right _ _

theorem keeps_addLiquidity (recipient : Address) (max0 max1 : Amount) :
    Keeps (p₀.Spares caller receiver) (addLiquidity recipient max0 max1) := by
  rw [addLiquidity]
  refine .get_bind fun p hp => .lift_bind fun quote _ => .lift_bind fun r0 _ =>
    .lift_bind fun r1 _ => .lift_bind fun total _ => .lift_bind fun owned howned =>
    .bind (.set (hp.trans ⟨rfl, fun o _ => ?_, fun _ => ⟨le_rfl, le_rfl⟩⟩)) fun _ => .pure _
  by_cases ho : o = recipient
  · subst ho
    rw [sharesOf, sharesOf, SortedMap.find?_insert_self, Option.getD_some, addAmounts_eq_ok howned]
    exact Nat.le_add_right _ _
  · rw [sharesOf, sharesOf, SortedMap.find?_insert_ne _ ho]

/-- A burning takes shares of its owner alone. Its first writes leave all shares as they are, so
it spares the others wherever it stops. -/
theorem keeps_removeLiquidity (shares : Amount) :
    Keeps (p₀.Spares caller receiver) (removeLiquidity caller shares) := by
  have hreserves {p p' : Pool} (hp : p₀.Spares caller receiver p) (hpair : p'.pair = p.pair)
      (hshares : p'.shares = p.shares) (h0 : p'.accruedFee0 = p.accruedFee0)
      (h1 : p'.accruedFee1 = p.accruedFee1) : p₀.Spares caller receiver p' :=
    hp.trans ⟨hpair, fun o _ => by rw [sharesOf, sharesOf, hshares],
      fun _ => ⟨by rw [h0], by rw [h1]⟩⟩
  rw [removeLiquidity]
  refine .get_bind fun p _ => .guard fun _ => .lift_bind fun quote _ =>
    .lift_bind fun r0 _ => .bind (.modify fun q hq => hreserves hq rfl rfl rfl rfl) fun _ =>
    .lift_bind fun r1 _ => .bind (.modify fun q hq => hreserves hq rfl rfl rfl rfl) fun _ =>
    .lift_bind fun total _ => .bind (.modify fun q hq => hreserves hq rfl rfl rfl rfl) fun _ =>
    .bind (.modify fun q hq => hq.trans ⟨rfl, fun o ho => ?_, fun _ => ⟨le_rfl, le_rfl⟩⟩)
      fun _ => .pure _
  rw [sharesOf, sharesOf]
  split
  · rw [SortedMap.find?_erase_ne _ ho]
  · rw [SortedMap.find?_insert_ne _ ho]

theorem keeps_takeAccruedFees :
    Keeps (p₀.Spares caller caller)
      (modifyGet takeAccruedFees : Faulting Pool (Amount × Amount)) :=
  .modifyGet fun _ hp => hp.trans ⟨rfl, fun _ _ => le_rfl, fun hne => absurd rfl hne⟩

end Pool

namespace Bank

structure Spares (caller : Address) (b b' : Bank) : Prop where
  engine : b'.engine = b.engine
  balance : ∀ h, h ≠ caller → h ≠ b.engine →
    ∀ t, (b.balance t h).toNat ≤ (b'.balance t h).toNat
  allowance : ∀ h ≠ caller, ∀ t, b'.allowance t h = b.allowance t h

variable {caller token : Address} {b₀ b b' : Bank}

theorem spares_refl (b : Bank) : b.Spares caller b :=
  ⟨rfl, fun _ _ _ _ => le_rfl, fun _ _ _ => rfl⟩

theorem Spares.trans (h : b₀.Spares caller b) (h' : b.Spares caller b') : b₀.Spares caller b' where
  engine := h'.engine.trans h.engine
  balance := fun o ho he t =>
    (h.balance o ho he t).trans (h'.balance o ho (h.engine ▸ he) t)
  allowance := fun o ho t => (h'.allowance o ho t).trans (h.allowance o ho t)

theorem spares_debit (b : Bank) {sender : Address} (h : sender = caller ∨ sender = b.engine)
    (token : Address) (n : Word) : b.Spares caller (b.setBalance token sender n) where
  engine := rfl
  balance := fun o ho he t => by
    have hne : o ≠ sender := by
      rintro rfl
      exact h.elim ho he
    rw [balance_setBalance, if_neg fun heq => hne heq.2]
  allowance := fun _ _ _ => rfl

theorem spares_mint (b : Bank) (token recipient : Address) (n : Word) :
    b.Spares caller (b.mint token recipient n) where
  engine := rfl
  balance := fun o _ _ t => by
    rw [mint, balance_setBalance]
    split
    · rename_i heq
      have hbound := (b.balance token recipient).isLt
      rw [heq.1, heq.2, Word.toNat_addSaturating]
      omega
    · exact le_rfl
  allowance := fun _ _ _ => rfl

theorem spares_approve (b : Bank) (token : Address) (n : Word) :
    b.Spares caller (b.approve token caller n) where
  engine := rfl
  balance := fun _ _ _ _ => le_rfl
  allowance := fun _ ho _ => Holdings.amount_set_ne _ _ (.inr ho)

theorem keeps_transfer {sender : Address} (h : sender = caller ∨ sender = b₀.engine)
    (token recipient : Address) (n : Word) :
    Keeps (b₀.Spares caller) (transfer token sender recipient n) := by
  rw [transfer]
  refine .get_bind fun b hb => .guard fun _ => .bind (.modify fun q hq => ?_) fun _ =>
    .modify fun q hq => hq.trans (q.spares_mint token recipient n)
  exact hq.trans (q.spares_debit (hq.engine ▸ h) token _)

theorem keeps_sendOut (token recipient : Address) (n : Word) :
    Keeps (b₀.Spares caller) (sendOut token recipient n) :=
  .get_bind fun _ hb => keeps_transfer (.inr hb.engine) token recipient n

theorem keeps_pullIn (token : Address) (n : Word) :
    Keeps (b₀.Spares caller) (pullIn token caller n) :=
  .get_bind fun _ _ => .guard fun _ => .bind (keeps_transfer (.inl rfl) token _ n) fun _ =>
    .modify fun q hq => hq.trans (q.spares_approve token _)

theorem keeps_grantPermit (token : Address) (amount : Amount) (deadline : UInt64)
    (signature : Signature) :
    Keeps (b₀.Spares caller) (grantPermit caller token amount deadline signature) :=
  .get_bind fun b hb => .guard fun _ => .guard fun _ => .set (hb.trans (b.spares_approve token _))

theorem spares_settle (h : b₀.Spares caller b) (token : Address) (n : Word) :
    b₀.Spares caller (b.settle caller token n).2.1 :=
  settle_keeps (fun k => keeps_transfer (.inl rfl) token b.engine k) h n

end Bank

namespace Context

structure Confined (w : World Bank) (caller : Address) (c : Context Bank) : Prop where
  host : w.host.Spares caller c.host
  pools : ∀ pair, (w.engine.book.pool pair).Spares caller w.engine.fees.receiver
    (c.overlay.pool w.engine.book pair)
  book : c.engine.book = w.engine.book
  fees : c.fees = w.engine.fees
  caller : c.caller = caller

variable {w : World Bank} {caller : Address} {nested : Runner Bank} {α : Type}

theorem keeps_onLedger (work : Faulting Ledger α) :
    Keeps (Confined w caller) (onLedger work : Faulting (Context Bank) α) := by
  intro c h
  simp only [EStateM.run, onLedger]
  cases work c.ledger <;> exact ⟨h.host, h.pools, h.book, h.fees, h.caller⟩

theorem keeps_onPool (pair : Pair) {work : Faulting Pool α}
    (hwork : ∀ p₀ : Pool, Keeps (p₀.Spares caller w.engine.fees.receiver) work) :
    Keeps (Confined w caller) (onPool pair work) := by
  intro c h
  have hpools {p : Pool} (hp : (w.engine.book.pool pair).Spares caller w.engine.fees.receiver p) :
      Confined w caller { c with overlay := c.overlay.put pair p } := by
    refine ⟨h.host, fun pair' => ?_, h.book, h.fees, h.caller⟩
    rw [Overlay.pool_put]
    split
    · rename_i heq
      rwa [heq]
    · exact h.pools pair'
  have hkept := hwork _ _ (h.pools pair)
  simp only [EStateM.run, onPool, h.book]
  have hrun := Overlay.onPool_run w.engine.book pair work c.overlay
  simp only [EStateM.run] at hrun hkept
  rw [hrun]
  generalize work (c.overlay.pool w.engine.book pair) = r at hkept
  cases r <;> exact hpools hkept

theorem keeps_onHost (kind : HostFault → Fault) {request : HostRequest (Except HostFault Unit)}
    {work : EStateM HostFault Bank Unit} (hwork : Keeps (w.host.Spares caller) work)
    (hserve : ∀ b, Host.serve b request = .ofRun (work.run b)) :
    Keeps (Confined w caller) (onHost nested kind request) := by
  intro c h
  have hkept := hwork c.host h.host
  rw [onHost_run (hserve c.host)]
  generalize work.run c.host = r at hkept
  cases r <;> exact ⟨hkept, h.pools, h.book, h.fees, h.caller⟩

theorem keeps_note (entry : JournalEntry) :
    Keeps (Confined w caller) (note entry : Faulting (Context Bank) Unit) :=
  .modify fun _ h => ⟨h.host, h.pools, h.book, h.fees, h.caller⟩

theorem keeps_emit (event : Event) :
    Keeps (Confined w caller) (emit event : Faulting (Context Bank) Unit) :=
  .get_bind fun _ _ => .bind (keeps_note _) fun _ =>
    .modify fun _ h => ⟨h.host, h.pools, h.book, h.fees, h.caller⟩

theorem keeps_balanceOf (token holder : Address) :
    Keeps (Confined w caller) (ask nested (.balanceOf token holder)) :=
  fun _ h => h

theorem keeps_settle {c : Context Bank} (hc : Confined w caller c) (token : Address)
    (amount : Word) : Keeps (Confined w caller) (ask nested (.settle c.caller token amount)) := by
  intro d h
  simp only [EStateM.run, ask, Bank.serve_settle, hc.caller]
  exact ⟨Bank.spares_settle h.host token amount, h.pools, h.book, h.fees, h.caller⟩

theorem keeps_record {token0 token1 : Address} {delta0 delta1 : Delta} {event : Event} :
    Keeps (Confined w caller)
      (record token0 token1 delta0 delta1 event : Faulting (Context Bank) Unit) :=
  .bind (keeps_onLedger _) fun _ => .bind (keeps_onLedger _) fun _ => keeps_emit _

theorem keeps_swap {token0 token1 : Address} {direction : Direction} {amount : SwapAmount} :
    Keeps (Confined w caller)
      (swap token0 token1 direction amount : Faulting (Context Bank) Unit) := by
  rw [swap]
  refine .lift_bind fun pair _ => ?_
  have hsale (amountIn : Amount) :
      Keeps (Confined w caller) (sale pair direction amountIn : Faulting (Context Bank) Unit) :=
    .get_bind fun c _ =>
      .bind (keeps_onPool pair fun _ => Pool.keeps_swap direction amountIn c.fees) fun _ =>
        keeps_record
  cases amount with
  | exact amount => exact .bind (.pure _) hsale
  | fromLedger =>
    exact .bind (keeps_onLedger _) fun _ => .guard fun _ => .bind (.lift _) hsale

theorem keeps_addLiquidity {token0 token1 recipient : Address} {max0 max1 : Amount}
    {minShares : Option Amount} :
    Keeps (Confined w caller)
      (addLiquidity token0 token1 recipient max0 max1 minShares :
        Faulting (Context Bank) Unit) := by
  rw [addLiquidity]
  refine .bind (.lift _) fun pair =>
    .bind (keeps_onPool pair fun _ => Pool.keeps_addLiquidity recipient max0 max1) fun minted => ?_
  cases minShares with
  | none => exact keeps_record
  | some least => exact .guard fun _ => keeps_record

theorem keeps_removeLiquidity {token0 token1 : Address} {shares : Option Amount} :
    Keeps (Confined w caller)
      (removeLiquidity token0 token1 shares : Faulting (Context Bank) Unit) := by
  refine .bind (.lift _) fun pair => .get_bind fun c hc => .bind (keeps_onPool pair fun p₀ => ?_)
    fun _ => keeps_record
  rw [hc.caller]
  exact .get_bind fun _ _ => .bind (Pool.keeps_removeLiquidity _) fun _ => .pure _

theorem keeps_claimFees {token0 token1 : Address} :
    Keeps (Confined w caller) (claimFees token0 token1 : Faulting (Context Bank) Unit) := by
  refine .get_bind fun c hc => .guard fun hreceiver => .bind (.lift _) fun pair =>
    .bind (keeps_onPool pair fun p₀ => ?_) fun _ => keeps_record
  have heq : w.engine.fees.receiver = caller := by
    rw [← hc.fees, ← hc.caller]
    exact (not_not.1 hreceiver).symm
  rw [heq]
  exact Pool.keeps_takeAccruedFees

theorem keeps_take {token : Address} {side : Side} {bounds : Bounds} :
    Keeps (Confined w caller) (take token side bounds : Faulting (Context Bank) Word) :=
  .bind (.lift _) fun _ => .bind (keeps_onLedger _) fun _ => .guard fun _ =>
    .bind (.lift _) fun _ => .pure _

theorem keeps_sendAll {token recipient : Address} {bounds : Bounds} :
    Keeps (Confined w caller)
      (sendAll nested token recipient bounds) :=
  .bind keeps_take fun _ => .ite
    (fun _ => .bind (keeps_onHost _ (Bank.keeps_sendOut _ _ _) fun _ => rfl) fun _ => keeps_emit _)
    fun _ => keeps_emit _

theorem keeps_pullIn (kind : HostFault → Fault) {c : Context Bank} (hc : Confined w caller c)
    {token : Address} {amount : Word} :
    Keeps (Confined w caller) (onHost nested kind (.pullIn token c.caller amount)) := by
  rw [hc.caller]
  exact keeps_onHost kind (Bank.keeps_pullIn token amount) fun _ => rfl

theorem keeps_receiveAll {token : Address} {bounds : Bounds} :
    Keeps (Confined w caller) (receiveAll nested token bounds) :=
  .bind keeps_take fun _ => .ite
    (fun _ => .get_bind fun _ hc => .bind (keeps_pullIn _ hc) fun _ => keeps_emit _)
    fun _ => keeps_emit _

theorem keeps_receiveAllViaCallback {token : Address} {bounds : Bounds} :
    Keeps (Confined w caller) (receiveAllViaCallback nested token bounds) :=
  .bind keeps_take fun _ => .ite
    (fun _ => .get_bind fun _ hc => .get_bind fun _ _ => .bind (keeps_balanceOf _ _) fun _ =>
      .bind (keeps_settle hc _ _) fun _ => .guard fun _ => .bind (keeps_balanceOf _ _) fun _ =>
      .guard fun _ => keeps_emit _)
    fun _ => keeps_emit _

theorem keeps_markReceived {token : Address} {bounds : Bounds} :
    Keeps (Confined w caller) (markReceived token bounds : Faulting (Context Bank) Unit) :=
  .bind keeps_take fun _ => .ite
    (fun _ => .bind (.modify fun _ h => ⟨h.host, h.pools, h.book, h.fees, h.caller⟩) fun _ =>
      keeps_emit _)
    fun _ => keeps_emit _

theorem keeps_deposit {token : Address} {amount : Amount} :
    Keeps (Confined w caller) (deposit nested token amount) :=
  .bind (.lift _) fun _ => .ite (fun _ => .pure _) fun _ => .get_bind fun _ hc =>
    .bind (keeps_pullIn _ hc) fun _ => .bind (keeps_onLedger _) fun _ => keeps_emit _

theorem keeps_withdraw {token recipient : Address} {amount : Amount} :
    Keeps (Confined w caller)
      (withdraw nested token recipient amount) :=
  .bind (.lift _) fun _ => .ite (fun _ => .pure _) fun _ =>
    .bind (keeps_onHost _ (Bank.keeps_sendOut _ _ _) fun _ => rfl) fun _ =>
      .bind (keeps_onLedger _) fun _ => keeps_emit _

theorem keeps_permit {token : Address} {amount : Amount} {deadline : UInt64}
    {signature : Signature} :
    Keeps (Confined w caller)
      (permit nested token amount deadline signature) := by
  refine .bind (.lift _) fun token => .get_bind fun c hc => .bind ?_ fun _ => keeps_emit _
  rw [hc.caller]
  exact keeps_onHost _ (Bank.keeps_grantPermit _ _ _ _) fun _ => rfl

theorem keeps_perform (op : Operation) :
    Keeps (Confined w caller) (perform nested op) := by
  cases op with
  | swap => exact keeps_swap
  | addLiquidity => exact keeps_addLiquidity
  | removeLiquidity => exact keeps_removeLiquidity
  | sendAll => exact keeps_sendAll
  | receiveAll => exact keeps_receiveAll
  | receiveAllViaCallback => exact keeps_receiveAllViaCallback
  | markReceived => exact keeps_markReceived
  | deposit => exact keeps_deposit
  | withdraw => exact keeps_withdraw
  | permit => exact keeps_permit
  | claimFees => exact keeps_claimFees

theorem keeps_interpret (nested : Runner Bank) (cursor : Cursor) (done : Nat) :
    Keeps (Confined w caller) (interpret nested cursor done) := by
  apply interpret_induction (motive := Keeps (Confined w caller)) Keeps.pure Keeps.throw
  intro entry op rest hrest
  exact .bind (keeps_note entry) fun _ => .bind (keeps_perform op) fun _ => hrest

end Context

namespace World

variable {w : World Bank} {caller : Address} {data : List UInt8}

def after (w : World Bank) (caller : Address) (data : List UInt8) : World Bank :=
  finalState ((execute caller data).run w)

theorem confined_begin (w : World Bank) (caller : Address) (ledger : Ledger) :
    (w.begin caller ledger).Confined w caller where
  host := Bank.spares_refl _
  pools := fun _ => Pool.spares_refl _
  book := rfl
  fees := rfl
  caller := rfl

structure Spares (w : World Bank) (caller : Address) (w' : World Bank) : Prop where
  host : w.host.Spares caller w'.host
  pools : ∀ pair p, w.engine.book.find? pair = some p →
    ∃ p', w'.engine.book.find? pair = some p' ∧ p.Spares caller w.engine.fees.receiver p'

theorem Spares.of_book {w' : World Bank} (host : w.host.Spares caller w'.host)
    (book : w'.engine.book = w.engine.book) : w.Spares caller w' where
  host := host
  pools := fun _ p h => ⟨p, book ▸ h, Pool.spares_refl p⟩

theorem Spares.of_committed {c : Context Bank} {w' : World Bank} (hbook : Keyed w.engine.book)
    (hc : c.Confined w caller) (host : w'.host = c.host)
    (book : w'.engine.book = c.overlay.commitTo c.engine.book) : w.Spares caller w' where
  host := host ▸ hc.host
  pools := fun pair p h => by
    have hpool : w.engine.book.pool pair = p := by rw [PoolBook.pool, h, Option.getD_some]
    have hkeyed : Keyed c.overlay.touched := by
      intro pair' q hq
      have hpair := (hc.pools pair').pair
      rw [Overlay.pool, hq, Option.getD_some] at hpair
      exact hpair.trans (PoolBook.pair_pool hbook pair')
    rw [book, hc.book]
    exact ⟨_, Overlay.find?_commitTo_of_some hkeyed h, hpool ▸ hc.pools pair⟩

theorem spares_after (hbook : Keyed w.engine.book) (caller : Address) (data : List UInt8) :
    w.Spares caller (w.after caller data) := by
  have hconfined (cursor : Cursor) (ledger : Ledger) :=
    Context.keeps_interpret nestedRunner cursor 0 _ (confined_begin w caller ledger)
  have hended := ended_execute w caller data
  rw [after]
  generalize (execute caller data).run w = r at hended
  cases hended with
  | refused => exact .of_book (Bank.spares_refl _) rfl
  | unopened => exact .of_book (Bank.spares_refl _) rfl
  | @faulted _ cursor ledger _ c _ _ hrun =>
    have hc := hconfined cursor ledger
    rw [hrun] at hc
    exact .of_book hc.host hc.book
  | @unsettled _ cursor ledger _ n c _ _ _ hrun =>
    have hc := hconfined cursor ledger
    rw [hrun] at hc
    exact .of_book hc.host hc.book
  | @committed _ cursor ledger n c _ _ _ _ hrun =>
    have hc := hconfined cursor ledger
    rw [hrun] at hc
    exact .of_committed hbook hc rfl rfl

/-- However an execution ends, no balance of another holder has fallen and no other holder's
allowance has changed, no other owner of a pool has fewer shares, and only a receiver of fees may
have taken the accrued fees. -/
theorem only_caller_loses (w : World Bank) (caller : Address) (data : List UInt8)
    (hbook : Keyed w.engine.book) :
    (∀ h, h ≠ caller → h ≠ w.host.engine → ∀ t,
      (w.host.balance t h).toNat ≤ ((w.after caller data).host.balance t h).toNat ∧
        (w.after caller data).host.allowance t h = w.host.allowance t h) ∧
      ∀ pair p, w.engine.book.find? pair = some p →
        ∃ p', (w.after caller data).engine.book.find? pair = some p' ∧
          (∀ h, h ≠ caller → (p.sharesOf h).toNat ≤ (p'.sharesOf h).toNat) ∧
          (caller ≠ w.engine.fees.receiver →
            p.accruedFee0.toNat ≤ p'.accruedFee0.toNat ∧
              p.accruedFee1.toNat ≤ p'.accruedFee1.toNat) := by
  obtain ⟨hhost, hpools⟩ := spares_after hbook caller data
  refine ⟨fun h hcaller hengine t => ⟨hhost.balance h hcaller hengine t,
    hhost.allowance h hcaller t⟩, fun pair p hp => ?_⟩
  obtain ⟨p', hp', hspares⟩ := hpools pair p hp
  exact ⟨p', hp', hspares.shares, hspares.fees⟩

def sharedWorld : World Bank where
  engine := ⟨9, 8, ⟨30, 100, 8⟩, .ofPools [{ Pool.sharedPool with accruedFee0 := 3 }], false⟩
  host := (lender.host.mint 1 9 1003).mint 2 9 2000
  journal := []

def giftProgram : Program where
  ledgerCapacity := 2
  operations := [.removeLiquidity 1 2 (some 100), .sendAll 1 8 .unbounded,
    .sendAll 2 7 .unbounded]

theorem only_caller_loses_gift :
    Keyed sharedWorld.engine.book ∧
      ((sharedWorld.after 7 giftProgram.encode).host.balance 1 8).toNat = 100 ∧
      (∀ t, (sharedWorld.host.balance t 8).toNat ≤
        ((sharedWorld.after 7 giftProgram.encode).host.balance t 8).toNat) ∧
      ∃ p', (sharedWorld.after 7 giftProgram.encode).engine.book.find? ⟨1, 2⟩ = some p' ∧
        400 ≤ (p'.sharesOf 8).toNat ∧ 3 ≤ p'.accruedFee0.toNat := by
  have hbook : Keyed sharedWorld.engine.book := PoolBook.keyed_ofPools _
  obtain ⟨hhost, hpools⟩ := only_caller_loses sharedWorld 7 giftProgram.encode hbook
  obtain ⟨p', hp', hshares, hfees⟩ := hpools ⟨1, 2⟩ { Pool.sharedPool with accruedFee0 := 3 }
    (by decide +kernel)
  exact ⟨hbook, by decide +kernel, fun t => (hhost 8 (by decide) (by decide) t).1, p', hp',
    hshares 8 (by decide), (hfees (by decide)).1⟩

end World

end NetSettle
