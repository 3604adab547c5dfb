import NetSettle.Json.Record
import NetSettle.Receipt

/-!
# Receipts in JSON
-/
namespace NetSettle

open Json

def Settlement.toJson : Settlement → Json
  | .sent recipient => .tagged "sent" (.record [("recipient", recipient.toJson)])
  | .received => .text "received"
  | .receivedViaCallback => .text "received_via_callback"
  | .markedReceived => .text "marked_received"

def Settlement.sentShape : Shape := .record [("recipient", .address)]

def Settlement.shape : Shape :=
  .record [("sent", sentShape), ("received", .any), ("received_via_callback", .any),
    ("marked_received", .any)]

def Settlement.ofJson? (j : Json) : Option Settlement := do
  match ← j.choice? with
  | ("sent", some value) =>
    let [recipient] ← value.fields? sentShape | none
    (required? Address.ofJson? recipient).map .sent
  | ("received", value) => bare? .received value
  | ("received_via_callback", value) => bare? .receivedViaCallback value
  | ("marked_received", value) => bare? .markedReceived value
  | _ => none

namespace Event

def toJson : Event → Json
  | swap tokenIn tokenOut amountIn amountOut protocolFee =>
    .tagged "swap" (.record [("token_in", tokenIn.toJson), ("token_out", tokenOut.toJson),
      ("amount_in", amountIn.toJson), ("amount_out", amountOut.toJson),
      ("protocol_fee", protocolFee.toJson)])
  | liquidityAdded token0 token1 recipient shares amount0 amount1 =>
    .tagged "liquidity_added" (.record [("token0", token0.toJson), ("token1", token1.toJson),
      ("recipient", recipient.toJson), ("shares", shares.toJson), ("amount0", amount0.toJson),
      ("amount1", amount1.toJson)])
  | liquidityRemoved token0 token1 owner shares amount0 amount1 =>
    .tagged "liquidity_removed" (.record [("token0", token0.toJson), ("token1", token1.toJson),
      ("owner", owner.toJson), ("shares", shares.toJson), ("amount0", amount0.toJson),
      ("amount1", amount1.toJson)])
  | settled token kind amount =>
    .tagged "settled" (.record [("token", token.toJson), ("kind", kind.toJson),
      ("amount", amount.toJson)])
  | deposited token amount =>
    .tagged "deposited" (.record [("token", token.toJson), ("amount", amount.toJson)])
  | withdrawn token recipient amount =>
    .tagged "withdrawn" (.record [("token", token.toJson), ("recipient", recipient.toJson),
      ("amount", amount.toJson)])
  | permitGranted token amount deadline =>
    .tagged "permit_granted" (.record [("token", token.toJson), ("amount", amount.toJson),
      ("deadline", .nat deadline.toNat)])
  | feesClaimed token0 token1 amount0 amount1 =>
    .tagged "fees_claimed" (.record [("token0", token0.toJson), ("token1", token1.toJson),
      ("amount0", amount0.toJson), ("amount1", amount1.toJson)])

def liquidityShape (holder : String) : Shape :=
  .record [("token0", .address), ("token1", .address), (holder, .address), ("shares", .any),
    ("amount0", .any), ("amount1", .any)]

def shapes : List (String × Shape) :=
  [("swap", .record [("token_in", .address), ("token_out", .address), ("amount_in", .any),
      ("amount_out", .any), ("protocol_fee", .any)]),
    ("liquidity_added", liquidityShape "recipient"),
    ("liquidity_removed", liquidityShape "owner"),
    ("settled", .record [("token", .address), ("kind", Settlement.shape), ("amount", .any)]),
    ("deposited", .record [("token", .address), ("amount", .any)]),
    ("withdrawn", .record [("token", .address), ("recipient", .address), ("amount", .any)]),
    ("permit_granted", .record [("token", .address), ("amount", .any), ("deadline", .any)]),
    ("fees_claimed", .record [("token0", .address), ("token1", .address), ("amount0", .any),
      ("amount1", .any)])]

def shape : Shape := .record shapes

def ofFields? (name : String) (fields : List (Option Json)) : Option Event :=
  match name, fields with
  | "swap", [tokenIn, tokenOut, amountIn, amountOut, protocolFee] => do
    let tokenIn ← required? Address.ofJson? tokenIn
    let tokenOut ← required? Address.ofJson? tokenOut
    let amountIn ← required? Amount.ofJson? amountIn
    let amountOut ← required? Amount.ofJson? amountOut
    let protocolFee ← required? Amount.ofJson? protocolFee
    return .swap tokenIn tokenOut amountIn amountOut protocolFee
  | "liquidity_added", [token0, token1, recipient, shares, amount0, amount1] => do
    let token0 ← required? Address.ofJson? token0
    let token1 ← required? Address.ofJson? token1
    let recipient ← required? Address.ofJson? recipient
    let shares ← required? Amount.ofJson? shares
    let amount0 ← required? Amount.ofJson? amount0
    let amount1 ← required? Amount.ofJson? amount1
    return .liquidityAdded token0 token1 recipient shares amount0 amount1
  | "liquidity_removed", [token0, token1, owner, shares, amount0, amount1] => do
    let token0 ← required? Address.ofJson? token0
    let token1 ← required? Address.ofJson? token1
    let owner ← required? Address.ofJson? owner
    let shares ← required? Amount.ofJson? shares
    let amount0 ← required? Amount.ofJson? amount0
    let amount1 ← required? Amount.ofJson? amount1
    return .liquidityRemoved token0 token1 owner shares amount0 amount1
  | "settled", [token, kind, amount] => do
    let token ← required? Address.ofJson? token
    let kind ← required? Settlement.ofJson? kind
    let amount ← required? Word.ofJson? amount
    return .settled token kind amount
  | "deposited", [token, amount] => do
    let token ← required? Address.ofJson? token
    let amount ← required? Amount.ofJson? amount
    return .deposited token amount
  | "withdrawn", [token, recipient, amount] => do
    let token ← required? Address.ofJson? token
    let recipient ← required? Address.ofJson? recipient
    let amount ← required? Amount.ofJson? amount
    return .withdrawn token recipient amount
  | "permit_granted", [token, amount, deadline] => do
    let token ← required? Address.ofJson? token
    let amount ← required? Amount.ofJson? amount
    let deadline ← required? uint64? deadline
    return .permitGranted token amount deadline
  | "fees_claimed", [token0, token1, amount0, amount1] => do
    let token0 ← required? Address.ofJson? token0
    let token1 ← required? Address.ofJson? token1
    let amount0 ← required? Amount.ofJson? amount0
    let amount1 ← required? Amount.ofJson? amount1
    return .feesClaimed token0 token1 amount0 amount1
  | _, _ => none

def ofJson? (j : Json) : Option Event := do
  let (name, some value) ← j.choice? | none
  let shape ← shapes.lookup name
  ofFields? name (← value.fields? shape)

end Event

namespace Receipt

def releasedToJson (entry : Address × Word) : Json :=
  .arr [entry.1.toJson, entry.2.toJson]

def toJson (r : Receipt) : Json :=
  .record [("caller", r.caller.toJson), ("operations", .nat r.operations),
    ("ledger_capacity", .nat r.ledgerCapacity), ("ledger_probes", .nat r.ledgerProbes),
    ("released", .arr (r.released.map releasedToJson)),
    ("events", .arr (r.events.map Event.toJson))]

def shape : Shape :=
  .record [("caller", .address), ("operations", .any), ("ledger_capacity", .any),
    ("ledger_probes", .any), ("released", .list (.tuple [.address, .any])),
    ("events", .list Event.shape)]

def ofJson? (j : Json) : Option Receipt := do
  let [caller, operations, capacity, probes, released, events] ← j.fields? shape | none
  let caller ← required? Address.ofJson? caller
  let operations ← required? count? operations
  let capacity ← required? count? capacity
  let probes ← required? count? probes
  let released ← required? (list? (both? Address.ofJson? Word.ofJson?)) released
  let events ← required? (list? Event.ofJson?) events
  return ⟨caller, operations, capacity, probes, released, events⟩

end Receipt

end NetSettle
