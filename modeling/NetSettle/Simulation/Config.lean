import NetSettle.FeeSettings
import NetSettle.Json.Record
import NetSettle.Simulation.Failure
import NetSettle.Toml.Document
import NetSettle.Toml.Record

/-!
# The configuration of a simulation

Who runs the engine and on what terms, where the state is kept, and what its holders begin with. It
is read from a TOML text and written as one; fee settings that the engine would not accept are
refused when it is read.
-/
namespace NetSettle

structure Grant where
  token : Address
  holder : Address
  amount : Word
  approve : Bool
  deriving DecidableEq, Repr

structure Config where
  engine : Address
  admin : Address
  caller : Address
  statePath : String
  now : UInt64
  fees : FeeSettings
  grants : List Grant
  deriving DecidableEq, Repr

def Grant.ofToml? (t : Toml) : Option Grant := do
  let [token, holder, amount, approve] ←
    t.fields? ["token", "holder", "amount", "approve"] | none
  let token ← token.bind Address.ofToml?
  let holder ← holder.bind Address.ofToml?
  let amount ← amount.bind Word.ofToml?
  let approve ← approve.elim (some false) Toml.bool?
  return ⟨token, holder, amount, approve⟩

def Grant.toJson (g : Grant) : Json :=
  .record [("token", g.token.toJson), ("holder", g.holder.toJson), ("amount", g.amount.toJson),
    ("approve", .bool g.approve)]

def Grant.toLines (g : Grant) : List String :=
  ["[[balances]]", "token = " ++ Toml.quote g.token.toHex,
    "holder = " ++ Toml.quote g.holder.toHex, "amount = " ++ Toml.quote g.amount.toHex,
    "approve = " ++ if g.approve then "true" else "false"]

def FeeSettings.ofToml? (t : Toml) : Option FeeSettings := do
  let [swapFee, protocolFee, receiver] ←
    t.fields? ["swap_fee_bps", "protocol_fee_ppt", "fee_receiver"] | none
  let swapFee ← swapFee.bind Toml.uint16?
  let protocolFee ← protocolFee.bind Toml.uint16?
  let receiver ← receiver.bind Address.ofToml?
  return ⟨swapFee, protocolFee, receiver⟩

def FeeSettings.toLines (fees : FeeSettings) : List String :=
  ["[fees]", s!"swap_fee_bps = {fees.swapFeeBps}", s!"protocol_fee_ppt = {fees.protocolFeePpt}",
    "fee_receiver = " ++ Toml.quote fees.receiver.toHex]

namespace Config

def defaultPath : String := "packswap.toml"

def standard : Config :=
  let caller := Address.repeated 0xa1
  let grant (token : Address) : Grant := ⟨token, caller, 1000000000000000000000, true⟩
  { engine := Address.repeated 0xee
    admin := Address.repeated 0xad
    caller := caller
    statePath := "~/.packswap/state.json"
    now := 0
    fees := .standard
    grants := [grant 1, grant 2] }

def ofToml? (t : Toml) : Option Config := do
  let [engine, admin, caller, statePath, now, fees, grants] ← t.fields?
    ["engine_address", "admin", "caller", "state_path", "now", "fees", "balances"] | none
  let engine ← engine.bind Address.ofToml?
  let admin ← admin.bind Address.ofToml?
  let caller ← caller.bind Address.ofToml?
  let statePath ← statePath.bind Toml.str?
  let now ← now.bind Toml.uint64?
  let fees ← fees.bind FeeSettings.ofToml?
  let grants ← grants.elim (some []) (Toml.list? Grant.ofToml?)
  return ⟨engine, admin, caller, statePath, now, fees, grants⟩

def read (text : String) : Except Failure Config := do
  match (Toml.parse? text).bind ofToml? with
  | none => throw .configMalformed
  | some config =>
    match config.fees.validate with
    | .error fault => throw (.configFees fault)
    | .ok () => return config

def toJson (c : Config) : Json :=
  .record [("engine_address", c.engine.toJson), ("admin", c.admin.toJson),
    ("caller", c.caller.toJson), ("state_path", .text c.statePath), ("now", .nat c.now.toNat),
    ("fees", c.fees.toJson), ("balances", .arr (c.grants.map Grant.toJson))]

def toText (c : Config) : String :=
  let head := ["engine_address = " ++ Toml.quote c.engine.toHex,
    "admin = " ++ Toml.quote c.admin.toHex, "caller = " ++ Toml.quote c.caller.toHex,
    "state_path = " ++ Toml.quote c.statePath, s!"now = {c.now}"]
  let blocks := head :: c.fees.toLines :: c.grants.map Grant.toLines
  let block (lines : List String) : String := String.join (lines.map fun line => line ++ "\n")
  "\n".intercalate (blocks.map block)

end Config

end NetSettle
