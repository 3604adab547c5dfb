import NetSettle.Json.Record
import NetSettle.Program.Operation

/-!
# Programs in JSON

How programs are authored and listed. Optional fields are left out when they are absent.
-/
namespace NetSettle

open Json

def Bounds.toJson (b : Bounds) : Json :=
  .record (optionalMember "min" Amount.toJson b.min ++ optionalMember "max" Amount.toJson b.max)

def Bounds.shape : Shape := .record [("min", .any), ("max", .any)]

def Bounds.ofJson? (j : Json) : Option Bounds := do
  let [min, max] ← j.fields? shape | none
  let min ← optional? Amount.ofJson? min
  let max ← optional? Amount.ofJson? max
  return ⟨min, max⟩

def SwapAmount.toJson : SwapAmount → Json
  | .exact amount => .tagged "exact" amount.toJson
  | .fromLedger => .text "from_ledger"

def SwapAmount.ofJson? (j : Json) : Option SwapAmount := do
  match ← j.choice? with
  | ("exact", some amount) => (Amount.ofJson? amount).map .exact
  | ("from_ledger", value) => bare? .fromLedger value
  | _ => none

def Signature.toJson (s : Signature) : Json :=
  .record [("v", .nat s.v.toNat), ("r", s.r.hashToJson), ("s", s.s.hashToJson)]

def Signature.shape : Shape := .record [("v", .any), ("r", .hash), ("s", .hash)]

def Signature.ofJson? (j : Json) : Option Signature := do
  let [v, r, s] ← j.fields? shape | none
  let v ← required? uint8? v
  let r ← required? Word.hashOfJson? r
  let s ← required? Word.hashOfJson? s
  return ⟨v, r, s⟩

namespace Operation

def tag : Operation → String
  | swap .. => "swap"
  | addLiquidity .. => "add_liquidity"
  | removeLiquidity .. => "remove_liquidity"
  | sendAll .. => "send_all"
  | receiveAll .. => "receive_all"
  | receiveAllViaCallback .. => "receive_all_via_callback"
  | markReceived .. => "mark_received"
  | deposit .. => "deposit"
  | withdraw .. => "withdraw"
  | permit .. => "permit"
  | claimFees .. => "claim_fees"

def members : Operation → List (String × Json)
  | swap token0 token1 direction amount =>
    [("token0", token0.toJson), ("token1", token1.toJson),
      ("zero_for_one", .bool direction.isZeroForOne), ("amount", amount.toJson)]
  | addLiquidity token0 token1 recipient max0 max1 minShares =>
    [("token0", token0.toJson), ("token1", token1.toJson), ("recipient", recipient.toJson),
      ("max0", max0.toJson), ("max1", max1.toJson)] ++
      optionalMember "min_shares" Amount.toJson minShares
  | removeLiquidity token0 token1 shares =>
    [("token0", token0.toJson), ("token1", token1.toJson)] ++
      optionalMember "shares" Amount.toJson shares
  | sendAll token recipient bounds =>
    [("token", token.toJson), ("recipient", recipient.toJson), ("bounds", bounds.toJson)]
  | receiveAll token bounds | receiveAllViaCallback token bounds | markReceived token bounds =>
    [("token", token.toJson), ("bounds", bounds.toJson)]
  | deposit token amount => [("token", token.toJson), ("amount", amount.toJson)]
  | withdraw token recipient amount =>
    [("token", token.toJson), ("recipient", recipient.toJson), ("amount", amount.toJson)]
  | permit token amount deadline signature =>
    [("token", token.toJson), ("amount", amount.toJson), ("deadline", .nat deadline.toNat),
      ("signature", signature.toJson)]
  | claimFees token0 token1 => [("token0", token0.toJson), ("token1", token1.toJson)]

def toJson (op : Operation) : Json := .tagged op.tag (.record op.members)

def settlementShape : Shape := .record [("token", .address), ("bounds", Bounds.shape)]

def shapes : List (String × Shape) :=
  [("swap", .record [("token0", .address), ("token1", .address), ("zero_for_one", .any),
      ("amount", .any)]),
    ("add_liquidity", .record [("token0", .address), ("token1", .address),
      ("recipient", .address), ("max0", .any), ("max1", .any), ("min_shares", .any)]),
    ("remove_liquidity", .record [("token0", .address), ("token1", .address), ("shares", .any)]),
    ("send_all", .record [("token", .address), ("recipient", .address),
      ("bounds", Bounds.shape)]),
    ("receive_all", settlementShape),
    ("receive_all_via_callback", settlementShape),
    ("mark_received", settlementShape),
    ("deposit", .record [("token", .address), ("amount", .any)]),
    ("withdraw", .record [("token", .address), ("recipient", .address), ("amount", .any)]),
    ("permit", .record [("token", .address), ("amount", .any), ("deadline", .any),
      ("signature", Signature.shape)]),
    ("claim_fees", .record [("token0", .address), ("token1", .address)])]

def shape : Shape := .record shapes

def ofFields? (name : String) (fields : List (Option Json)) : Option Operation :=
  match name, fields with
  | "swap", [token0, token1, zeroForOne, amount] => do
    let token0 ← required? Address.ofJson? token0
    let token1 ← required? Address.ofJson? token1
    let zeroForOne ← required? bool? zeroForOne
    let amount ← required? SwapAmount.ofJson? amount
    return .swap token0 token1 (.ofFlag zeroForOne) amount
  | "add_liquidity", [token0, token1, recipient, max0, max1, minShares] => do
    let token0 ← required? Address.ofJson? token0
    let token1 ← required? Address.ofJson? token1
    let recipient ← required? Address.ofJson? recipient
    let max0 ← required? Amount.ofJson? max0
    let max1 ← required? Amount.ofJson? max1
    let minShares ← optional? Amount.ofJson? minShares
    return .addLiquidity token0 token1 recipient max0 max1 minShares
  | "remove_liquidity", [token0, token1, shares] => do
    let token0 ← required? Address.ofJson? token0
    let token1 ← required? Address.ofJson? token1
    let shares ← optional? Amount.ofJson? shares
    return .removeLiquidity token0 token1 shares
  | "send_all", [token, recipient, bounds] => do
    let token ← required? Address.ofJson? token
    let recipient ← required? Address.ofJson? recipient
    let bounds ← withDefault? .unbounded Bounds.ofJson? bounds
    return .sendAll token recipient bounds
  | "receive_all", [token, bounds] => do
    let token ← required? Address.ofJson? token
    let bounds ← withDefault? .unbounded Bounds.ofJson? bounds
    return .receiveAll token bounds
  | "receive_all_via_callback", [token, bounds] => do
    let token ← required? Address.ofJson? token
    let bounds ← withDefault? .unbounded Bounds.ofJson? bounds
    return .receiveAllViaCallback token bounds
  | "mark_received", [token, bounds] => do
    let token ← required? Address.ofJson? token
    let bounds ← withDefault? .unbounded Bounds.ofJson? bounds
    return .markReceived token bounds
  | "deposit", [token, amount] => do
    let token ← required? Address.ofJson? token
    let amount ← required? Amount.ofJson? amount
    return .deposit token amount
  | "withdraw", [token, recipient, amount] => do
    let token ← required? Address.ofJson? token
    let recipient ← required? Address.ofJson? recipient
    let amount ← required? Amount.ofJson? amount
    return .withdraw token recipient amount
  | "permit", [token, amount, deadline, signature] => do
    let token ← required? Address.ofJson? token
    let amount ← required? Amount.ofJson? amount
    let deadline ← required? uint64? deadline
    let signature ← required? Signature.ofJson? signature
    return .permit token amount deadline signature
  | "claim_fees", [token0, token1] => do
    let token0 ← required? Address.ofJson? token0
    let token1 ← required? Address.ofJson? token1
    return .claimFees token0 token1
  | _, _ => none

def ofJson? (j : Json) : Option Operation := do
  let (name, some value) ← j.choice? | none
  let shape ← shapes.lookup name
  ofFields? name (← value.fields? shape)

end Operation

namespace Program

def toJson (p : Program) : Json :=
  .record [("ledger_capacity", .nat p.ledgerCapacity.toNat),
    ("operations", .arr (p.operations.map Operation.toJson))]

def shape : Shape :=
  .record [("ledger_capacity", .any), ("operations", .list Operation.shape)]

def ofJson? (j : Json) : Option Program := do
  let [capacity, operations] ← j.fields? shape | none
  let capacity ← required? uint16? capacity
  let operations ← required? (list? Operation.ofJson?) operations
  return ⟨capacity, operations⟩

end Program

end NetSettle
