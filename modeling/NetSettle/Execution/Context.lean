import NetSettle.Execution.World
import NetSettle.Ledger

/-!
# The state of an execution

What the operations of a program work on: the world, the fee settings as they were at the start,
the ledger, the overlay on the pool book, and the record of what was done. Work on one part leaves
the others alone, and keeps what it did to its part when it faults.
-/
namespace NetSettle

structure Context (σ : Type) extends World σ where
  caller : Address
  -- as they were when the execution began, whatever is stored in the engine meanwhile
  fees : FeeSettings
  ledger : Ledger
  overlay : Overlay
  released : List (Address × Word)
  events : List Event

namespace Context

variable {σ α : Type}

def start (w : World σ) (caller : Address) (ledger : Ledger) : Context σ :=
  { w with
    caller := caller, fees := w.engine.fees, ledger := ledger, overlay := .empty,
    released := [], events := [] }

def onLedger (work : Faulting Ledger α) : Faulting (Context σ) α := fun c =>
  match work.run c.ledger with
  | .ok a l => .ok a { c with ledger := l }
  | .error fault l => .error fault { c with ledger := l }

def onPool (pair : Pair) (work : Faulting Pool α) : Faulting (Context σ) α := fun c =>
  match (Overlay.onPool (.available c.engine.book) pair work).run c.overlay with
  | .ok a o => .ok a { c with overlay := o }
  | .error fault o => .error fault { c with overlay := o }

def ask [Host σ] (nested : Runner σ) (request : HostRequest α) : Faulting (Context σ) α := fun c =>
  let (answer, w) := c.toWorld.serve nested request
  .ok answer { c with toWorld := w }

def onHost [Host σ] (nested : Runner σ) (kind : HostFault → Fault)
    (request : HostRequest (Except HostFault Unit)) : Faulting (Context σ) Unit := do
  let answer ← ask nested request
  monadLift (answer.mapError kind)

def change (token : Address) (delta : Delta) : Faulting (Context σ) Unit :=
  onLedger (Ledger.change token delta)

def balance (token : Address) : Faulting (Context σ) Delta :=
  onLedger (modifyGet (Ledger.balance token))

def clear (token : Address) : Faulting (Context σ) Delta :=
  onLedger (modifyGet (Ledger.clear token))

def note (entry : JournalEntry) : Faulting (Context σ) Unit :=
  modify fun c => { c with journal := c.journal ++ [entry] }

def emit (event : Event) : Faulting (Context σ) Unit := do
  note (.performed (← get).caller event)
  modify fun c => { c with events := c.events ++ [event] }

end Context

end NetSettle
