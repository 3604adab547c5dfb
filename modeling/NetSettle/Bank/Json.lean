import NetSettle.Bank
import NetSettle.Json.Record

/-!
# The simulated world in JSON
-/
namespace NetSettle

open Json

def CallbackBehavior.name : CallbackBehavior → String
  | .pay => "pay"
  | .refuse => "refuse"
  | .underpay => "underpay"

def CallbackBehavior.ofName? (name : String) : Option CallbackBehavior :=
  [.pay, .refuse, .underpay].find? fun behavior => behavior.name = name

def CallbackBehavior.ofJson? (j : Json) : Option CallbackBehavior := do
  let (name, value) ← j.choice?
  let behavior ← ofName? name
  bare? behavior value

def Holdings.toJson (h : Holdings) : Json := addressMap (addressMap Word.toJson) h

def Holdings.ofJson? (j : Json) : Option Holdings := addressMap? (addressMap? Word.ofJson?) j

namespace Bank

def toJson (b : Bank) : Json :=
  .record [("engine", b.engine.toJson), ("balances", b.balances.toJson),
    ("allowances", b.allowances.toJson), ("callback", .text b.callback.name),
    ("now", .nat b.now.toNat)]

def shape : Shape :=
  .record [("engine", .address), ("balances", .any), ("allowances", .any), ("callback", .any),
    ("now", .any)]

def ofJson? (j : Json) : Option Bank := do
  let [engine, balances, allowances, callback, now] ← j.fields? shape | none
  let engine ← required? Address.ofJson? engine
  let balances ← withDefault? .empty Holdings.ofJson? balances
  let allowances ← withDefault? .empty Holdings.ofJson? allowances
  let callback ← withDefault? .pay CallbackBehavior.ofJson? callback
  let now ← withDefault? 0 uint64? now
  return ⟨engine, balances, allowances, callback, now⟩

end Bank

end NetSettle
