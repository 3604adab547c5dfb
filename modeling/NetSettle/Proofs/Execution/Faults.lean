import NetSettle.Proofs.Execution.Spending

/-!
# What a program can fault with

A program that runs is never refused as one that is run from inside: that answer is given before a
program is read, and what nested programs are answered stays with those who ran them. Nor does it
ask for a field of an unheard-of width, or find the book poisoned.
-/
namespace NetSettle

def Fault.OfProgram : Fault → Prop
  | .reentrancy | .invalidFieldWidth _ | .statePoisoned => False
  | _ => True

open Fault (OfProgram)

theorem ofProgram_of_ordinary (fault : Fault) (h : fault.Ordinary) : OfProgram fault := by
  cases fault <;> trivial

theorem refuses_addAmounts {a b : Amount} : Refuses OfProgram (addAmounts a b) :=
  ordinary_addAmounts.mono ofProgram_of_ordinary

theorem refuses_subAmounts {a b : Amount} : Refuses OfProgram (subAmounts a b) :=
  .ite (.ok _) (.error trivial)

theorem refuses_quoteSwap {reserveIn reserveOut amountIn : Amount} {feeBps ppt : UInt16} :
    Refuses OfProgram (quoteSwap reserveIn reserveOut amountIn feeBps ppt) := by
  intro fault hquote
  cases quoteSwap_eq_error hquote <;> trivial

theorem refuses_quoteMint {reserve0 reserve1 totalShares max0 max1 : Amount} :
    Refuses OfProgram (quoteMint reserve0 reserve1 totalShares max0 max1) := by
  intro fault hquote
  cases quoteMint_eq_error hquote <;> trivial

theorem refuses_quoteBurn {reserve0 reserve1 totalShares shares : Amount} :
    Refuses OfProgram (quoteBurn reserve0 reserve1 totalShares shares) := by
  intro fault hquote
  cases quoteBurn_eq_error hquote <;> trivial

theorem Pool.raises_swap {direction : Direction} {amountIn : Amount} {fees : FeeSettings} :
    Raises OfProgram (Pool.swap direction amountIn fees) := by
  refine .get_bind fun p => .guard trivial ?_
  cases direction with
  | zeroForOne | oneForZero =>
    exact .bind (.lift refuses_quoteSwap) fun _ => .bind (.lift refuses_addAmounts)
      fun _ => .bind (.set _) fun _ => .pure _

theorem Pool.raises_addLiquidity {recipient : Address} {max0 max1 : Amount} :
    Raises OfProgram (Pool.addLiquidity recipient max0 max1) :=
  .get_bind fun _ => .bind (.lift refuses_quoteMint) fun _ =>
    .bind (.lift refuses_addAmounts) fun _ => .bind (.lift refuses_addAmounts) fun _ =>
    .bind (.lift refuses_addAmounts) fun _ => .bind (.lift refuses_addAmounts) fun _ =>
    .bind (.set _) fun _ => .pure _

theorem Pool.raises_removeLiquidity {owner : Address} {shares : Amount} :
    Raises OfProgram (Pool.removeLiquidity owner shares) :=
  .get_bind fun _ => .guard trivial <| .bind (.lift refuses_quoteBurn) fun _ =>
    .bind (.lift refuses_subAmounts) fun _ => .bind (.modify _) fun _ =>
    .bind (.lift refuses_subAmounts) fun _ => .bind (.modify _) fun _ =>
    .bind (.lift refuses_subAmounts) fun _ => .bind (.modify _) fun _ =>
    .bind (.modify _) fun _ => .pure _

theorem Ledger.raises_writeAt (index : Nat) (token : Address) (delta : Delta) :
    Raises OfProgram (do
      let l ← get
      match Delta.ofInt? ((l.slotAt index).delta.val + delta.val) with
      | some next => set (l.settleSlot index token (l.slotAt index).delta next)
      | none => throw .overflow : Faulting Ledger Unit) := by
  refine .get_bind fun l => ?_
  split
  · exact .set _
  · exact .throw trivial

theorem Ledger.raises_change {token : Address} {delta : Delta} :
    Raises OfProgram (Ledger.change token delta) := by
  refine .guard trivial <| .ite (.pure _) <| .bind (.modifyGet _) fun probe => ?_
  cases probe with
  | found index => exact raises_writeAt _ token delta
  | vacant index => exact .bind (.modify _) fun _ => raises_writeAt _ token delta
  | full => exact .get_bind fun _ => .bind (.throw trivial) fun _ => raises_writeAt _ token delta

theorem refuses_ofCapacity {capacity : Nat} : Refuses OfProgram (Ledger.ofCapacity capacity) :=
  ordinary_ofCapacity.mono ofProgram_of_ordinary

theorem refuses_checkSettled {l : Ledger} : Refuses OfProgram l.checkSettled :=
  ordinary_checkSettled.mono ofProgram_of_ordinary

theorem raises_take (width : Nat) : Raises OfProgram (Cursor.take width) :=
  .get_bind fun _ => .bind (.lift (.ite (.error trivial) (.ite (.error trivial) (.ok _)))) fun _ =>
    .bind (.set _) fun _ => .pure _

theorem raises_decode : Raises OfProgram Operation.decode :=
  (assembled_decode (Q := OfProgram) trivial fun _ => trivial).raises raises_take

namespace Context

variable {σ α : Type}

theorem raises_note (entry : JournalEntry) :
    Raises OfProgram (note entry : Faulting (Context σ) Unit) := .modify _

variable [Host σ] {nested : Runner σ}

/-- Nothing need be known of the pools or of the ledger here, so that no room is counted. -/
theorem raises_perform (op : Operation) : Raises OfProgram (perform nested op) := by
  have hroom : Ledger.Roomy (fun _ _ => True) OfProgram := {
    less := id
    change := fun _ _ _ => Ledger.raises_change.ends fun _ => trivial
    balance := fun _ => id
    clear := fun _ => id }
  have hgrounded : Grounded (fun _ : Context σ => True) OfProgram := {
    ledger := fun _ => id
    addLiquidity := fun _ _ _ hrun => Pool.raises_addLiquidity _ _ _ hrun
    removeLiquidity := fun _ _ _ hrun => Pool.raises_removeLiquidity _ _ _ hrun }
  have hends := spends_perform (k := 0) hroom ofProgram_of_ordinary hgrounded nested op
    fun _ _ _ _ _ _ _ _ _ _ _ _ _ hrun => Pool.raises_swap _ _ _ hrun
  intro c fault c' hrun
  exact (hends.of_error ⟨trivial, trivial⟩ hrun).1

theorem raises_interpret (cursor : Cursor) (done : Nat) :
    Raises OfProgram (interpret nested cursor done) := by
  induction cursor using Cursor.reading_induction generalizing done with
  | ended cursor hend =>
    rw [interpret_atEnd hend]
    exact .pure done
  | failed cursor fault cursor' hend hdecode =>
    rw [interpret_failed hend hdecode]
    exact .throw (raises_decode cursor fault cursor' hdecode)
  | decoded cursor op next hend hdecode ih =>
    rw [interpret_decoded hend hdecode]
    exact .bind (raises_note _) fun _ => .bind (raises_perform op) fun _ => ih (done + 1)

omit [Host σ] in
theorem raises_close (n : Nat) : Raises OfProgram (close n : Faulting (Context σ) Receipt) := by
  intro c fault c' hrun
  cases hsettled : c.ledger.checkSettled with
  | ok =>
    rw [close_settled hsettled] at hrun
    cases hrun
  | error fault' =>
    obtain ⟨journal, hclose⟩ := close_unsettled hsettled n
    rw [hclose] at hrun
    cases hrun
    exact refuses_checkSettled fault hsettled

end Context

namespace World

variable {σ : Type} [Host σ] {nested : Runner σ}

theorem raises_runProgram (caller : Address) (data : List UInt8) :
    Raises OfProgram (runProgram nested caller data) := by
  intro w fault w' hrun
  cases hread : Cursor.readUInt16.run (.start data) with
  | error fault' cursor =>
    rw [runProgram_unread _ hread] at hrun
    cases hrun
    exact (assembled_readUInt16 (Q := OfProgram)).raises raises_take _ _ _ hread
  | ok capacity cursor =>
    cases hledger : Ledger.ofCapacity capacity.toNat with
    | error fault' =>
      rw [runProgram_noLedger _ hread hledger] at hrun
      cases hrun
      exact refuses_ofCapacity fault hledger
    | ok ledger =>
      rw [runProgram_eq _ hread hledger] at hrun
      cases hwork : (Context.interpret nested cursor 0 >>= Context.close).run
          (.start w caller ledger) with
      | ok receipt c =>
        rw [within_ok hwork] at hrun
        cases hrun
      | error fault' c =>
        rw [within_error hwork] at hrun
        cases hrun
        exact Raises.bind (Context.raises_interpret cursor 0) Context.raises_close _ fault c hwork

end World

end NetSettle
