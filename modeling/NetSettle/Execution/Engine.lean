import NetSettle.Execution.Perform
import NetSettle.Program.Codec

/-!
# Running programs

A program is read and performed operation by operation. At its end every entry of the ledger must
be zero; only then are the touched pools written back. A program that is run while another is
running is refused, so nobody who is asked for something meanwhile can start a second execution.
-/
namespace NetSettle

namespace Context

variable {σ : Type} [Host σ]

def interpret (nested : Runner σ) (cursor : Cursor) (done : Nat) : Faulting (Context σ) Nat := do
  if cursor.atEnd then
    return done
  match _h : Operation.decode.run cursor with
  | .error fault _ => throw fault
  | .ok op next =>
    note (.operation done cursor.offset op.kind)
    perform nested op
    interpret nested next (done + 1)
termination_by cursor.remaining
decreasing_by exact Operation.remaining_lt_of_decode (by assumption)

def close (operations : Nat) : Faulting (Context σ) Receipt := do
  let c ← get
  match c.ledger.checkSettled with
  | .error fault =>
    c.ledger.outstanding.forM fun (token, delta) => note (.unsettled token delta)
    throw fault
  | .ok () =>
    modify fun c => { c with engine := { c.engine with book := c.overlay.commitTo c.engine.book } }
    return ⟨c.caller, operations, c.ledger.capacity, c.ledger.probes, c.released, c.events⟩

end Context

namespace World

variable {σ : Type} [Host σ]

def within {α : Type} (caller : Address) (ledger : Ledger) (work : Faulting (Context σ) α) :
    Faulting (World σ) α := fun w =>
  match work.run (.start w caller ledger) with
  | .ok a c => .ok a c.toWorld
  | .error fault c => .error fault c.toWorld

def runProgram (nested : Runner σ) : Runner σ := fun caller program => do
  match Cursor.readUInt16.run (.start program) with
  | .error fault _ => throw fault
  | .ok capacity cursor =>
    let ledger ← Ledger.ofCapacity capacity.toNat
    within caller ledger do
      let operations ← Context.interpret nested cursor 0
      Context.close operations

/-- Runs a program unless one is running already, and sets the flag meanwhile. Programs that are
run from inside are run by `nested`. -/
def executeWith (nested : Runner σ) : Runner σ := fun caller program w =>
  if w.engine.executing then .error .reentrancy w
  else
    match (runProgram nested caller program).run (w.setExecuting true) with
    | .ok receipt w =>
      .ok receipt ((w.setExecuting false).note
        (.committed caller receipt.operations receipt.ledgerProbes))
    | .error fault w => .error fault ((w.setExecuting false).note (.failed caller fault))

/-- Runs a program. What is run from inside finds the flag set and is refused, so it never comes to
a third level. -/
def execute : Runner σ :=
  executeWith (executeWith fun _ _ => throw .reentrancy)

end World

end NetSettle
