import NetSettle.Bank.Json
import NetSettle.Execution.Engine
import NetSettle.Json.Parser
import NetSettle.Json.Printer
import NetSettle.Pool.Json
import NetSettle.Simulation.Config

/-!
# The state of a simulation

What is kept from one run to the next: the pools and the simulated world. A run that commits leaves
a new state, one that fails leaves the state as it was, and while there is none the configuration
says what to begin with.
-/
namespace NetSettle

structure Snapshot where
  pools : List Pool
  host : Bank
  deriving DecidableEq

namespace Snapshot

def grant (b : Bank) (g : Grant) : Bank :=
  let b := b.mint g.token g.holder g.amount
  if g.approve then b.approve g.token g.holder g.amount else b

def seed (config : Config) : Snapshot := ⟨[], config.grants.foldl grant (.new config.engine)⟩

def toJson (s : Snapshot) : Json :=
  .record [("pools", Pool.listToJson s.pools), ("host", s.host.toJson)]

def shape : Json.Shape := .record [("pools", .list Pool.shape), ("host", Bank.shape)]

def ofJson? (j : Json) : Option Snapshot := do
  let [pools, host] ← j.fields? shape | none
  let pools ← Json.withDefault? [] (Json.list? Pool.ofJson?) pools
  let host ← Json.required? Bank.ofJson? host
  return ⟨pools, host⟩

def toText (s : Snapshot) : String := s.toJson.pretty

def read (config : Config) : Option String → Except Failure Snapshot
  | none => .ok (seed config)
  | some text =>
    match Json.read? shape ofJson? text with
    | none => .error .stateMalformed
    | some s =>
      if s.host.engine = config.engine then .ok s
      else .error (.stateForeign s.host.engine config.engine)

def run (config : Config) (caller : Address) (program : List UInt8) (s : Snapshot) :
    Except Failure (Receipt × Snapshot) :=
  match Engine.create config.engine config.admin config.fees with
  | .error fault => .error (.engineRefused fault)
  | .ok engine =>
    let w : World Bank := ⟨engine.withPools s.pools, { s.host with now := config.now }, []⟩
    match (World.execute caller program).run w with
    | .ok receipt w => .ok (receipt, ⟨w.engine.book.pools, w.host⟩)
    | .error fault _ => .error (.executionFailed fault)

end Snapshot

end NetSettle
