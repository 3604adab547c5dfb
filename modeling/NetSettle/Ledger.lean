import NetSettle.Arithmetic

/-!
# The ledger of an execution

A table of fixed capacity that holds, for each token, what the caller owes (positive) or is owed
(negative). It is probed in a line from a home slot, and a count of the entries that are not zero
makes the closing check one comparison. A slot whose delta has gone back to zero may be taken over
by another token: slots are never emptied, so no line of probing is cut.
-/
namespace NetSettle

/-- One entry of the table; the zero token marks a slot that was never used. -/
structure Slot where
  token : Address
  delta : Delta
  deriving DecidableEq, Repr

def Slot.unused : Slot := ⟨0, 0⟩

structure Ledger where
  slots : Array Slot
  nonzero : Nat
  probes : Nat
  deriving DecidableEq, Repr

inductive Probe where
  | found (index : Nat)
  | vacant (index : Nat)
  | full
  deriving DecidableEq, Repr

namespace Ledger

def ofCapacity (capacity : Nat) : Except Fault Ledger :=
  if capacity = 0 then .error .zeroLedgerCapacity
  else .ok ⟨Array.replicate capacity .unused, 0, 0⟩

def capacity (l : Ledger) : Nat := l.slots.size

def slotAt (l : Ledger) (index : Nat) : Slot := l.slots.getD index .unused

def home (l : Ledger) (token : Address) : Nat := token.toNat % 2 ^ 64 % l.capacity

/-- Looks at up to `left` more slots after `step` slots, and counts all slots looked at. The
`reusable` slot is the first one passed whose delta is zero. -/
def seek (l : Ledger) (token : Address) : (left step : Nat) → (reusable : Option Nat) → Probe × Nat
  | 0, step, reusable => (match reusable with | some i => .vacant i | none => .full, step)
  | left + 1, step, reusable =>
    let index := (l.home token + step) % l.capacity
    let slot := l.slotAt index
    if slot.token = token then (.found index, step + 1)
    else if slot.token = 0 then (.vacant (reusable.getD index), step + 1)
    else seek l token left (step + 1)
      (if reusable.isNone && slot.delta = 0 then some index else reusable)

def probe (token : Address) (l : Ledger) : Probe × Ledger :=
  let (found, steps) := l.seek token l.capacity 0 none
  (found, { l with probes := l.probes + steps })

def settleSlot (l : Ledger) (index : Nat) (token : Address) (prior next : Delta) : Ledger :=
  { l with
    slots := l.slots.setIfInBounds index ⟨token, next⟩
    nonzero :=
      if prior = 0 ∧ next ≠ 0 then l.nonzero + 1
      else if prior ≠ 0 ∧ next = 0 then l.nonzero - 1
      else l.nonzero }

/-- Adds to the delta of a token. A token without a slot takes one before its delta is added up. -/
def change (token : Address) (delta : Delta) : Faulting Ledger Unit := do
  if token = 0 then
    throw .zeroToken
  if delta = 0 then
    return
  let index ← match ← modifyGet (probe token) with
    | .found index => pure index
    | .vacant index =>
      modify fun l => { l with slots := l.slots.setIfInBounds index ⟨token, 0⟩ }
      pure index
    | .full => throw (.ledgerFull (← get).capacity)
  let l ← get
  let prior := (l.slotAt index).delta
  match Delta.ofInt? (prior.val + delta.val) with
  | some next => set (l.settleSlot index token prior next)
  | none => throw .overflow

def balance (token : Address) (l : Ledger) : Delta × Ledger :=
  match l.probe token with
  | (.found index, l) => ((l.slotAt index).delta, l)
  | (_, l) => (0, l)

def clear (token : Address) (l : Ledger) : Delta × Ledger :=
  match l.probe token with
  | (.found index, l) =>
    let prior := (l.slotAt index).delta
    (prior, l.settleSlot index token prior 0)
  | (_, l) => (0, l)

def checkSettled (l : Ledger) : Except Fault Unit :=
  if l.nonzero = 0 then .ok () else .error (.unsettledBalances l.nonzero)

def outstanding (l : Ledger) : List (Address × Delta) :=
  (l.slots.toList.filter fun s => s.token ≠ 0 && s.delta ≠ 0).map fun s => (s.token, s.delta)

end Ledger

end NetSettle
