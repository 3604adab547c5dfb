import NetSettle.Json.Record
import NetSettle.Pool.Basic

/-!
# Pools in JSON
-/
namespace NetSettle

open Json

def Pair.toJson (p : Pair) : Json :=
  .record [("token0", p.token0.toJson), ("token1", p.token1.toJson)]

def Pair.shape : Shape := .record [("token0", .address), ("token1", .address)]

def Pair.ofJson? (j : Json) : Option Pair := do
  let [token0, token1] ← j.fields? shape | none
  let token0 ← required? Address.ofJson? token0
  let token1 ← required? Address.ofJson? token1
  return ⟨token0, token1⟩

namespace Pool

def toJson (p : Pool) : Json :=
  .record [("key", p.pair.toJson), ("reserve0", p.reserve0.toJson),
    ("reserve1", p.reserve1.toJson), ("total_shares", p.totalShares.toJson),
    ("accrued_fee0", p.accruedFee0.toJson), ("accrued_fee1", p.accruedFee1.toJson),
    ("shares", addressMap Amount.toJson p.shares)]

def shape : Shape :=
  .record [("key", Pair.shape), ("reserve0", .any), ("reserve1", .any), ("total_shares", .any),
    ("accrued_fee0", .any), ("accrued_fee1", .any), ("shares", .any)]

def ofJson? (j : Json) : Option Pool := do
  let [pair, reserve0, reserve1, totalShares, fee0, fee1, shares] ← j.fields? shape | none
  let pair ← required? Pair.ofJson? pair
  let reserve0 ← required? Amount.ofJson? reserve0
  let reserve1 ← required? Amount.ofJson? reserve1
  let totalShares ← required? Amount.ofJson? totalShares
  let fee0 ← required? Amount.ofJson? fee0
  let fee1 ← required? Amount.ofJson? fee1
  let shares ← withDefault? .empty (addressMap? Amount.ofJson?) shares
  return ⟨pair, reserve0, reserve1, totalShares, fee0, fee1, shares⟩

def listToJson (pools : List Pool) : Json := .arr (pools.map toJson)

end Pool

end NetSettle
