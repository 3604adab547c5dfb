import NetSettle.Proofs.Json.Record
import NetSettle.Simulation.Snapshot

/-!
# A saved state is read back

The text of a state gives back its pools, one by one and in their order, and its bank.
-/
namespace NetSettle

open Json

theorem Pair.ofJson?_toJson (p : Pair) : Pair.ofJson? p.toJson = some p := by
  rw [ofJson?, toJson, fields?_record (by simp)]
  simp [shape, Shape.names, List.lookup_cons, required?, Address.ofJson?_toJson]

theorem Pair.fits_toJson (p : Pair) : Fits shape p.toJson := by
  simp [toJson, record, Fits, FitsMembers, Address.toJson]

namespace Pool

theorem ofJson?_toJson (p : Pool) : ofJson? p.toJson = some p := by
  rw [ofJson?, toJson, fields?_record (by simp)]
  simp [shape, Shape.names, List.lookup_cons, required?, withDefault?, Pair.ofJson?_toJson,
    Amount.ofJson?_toJson, addressMap?_addressMap Amount.ofJson?_toJson]

theorem fits_toJson (p : Pool) : Fits shape p.toJson := by
  have hshares : Fits .any (addressMap Amount.toJson p.shares) :=
    fits_addressMap (fun _ => fits_nat _) _
  simp [toJson, record, Fits, FitsMembers, shape, Shape.member, List.lookup_cons, Pair.fits_toJson,
    Amount.toJson, hshares]

end Pool

theorem CallbackBehavior.ofJson?_name (b : CallbackBehavior) :
    CallbackBehavior.ofJson? (.text b.name) = some b := by
  cases b <;> decide

theorem Holdings.ofJson?_toJson (h : Holdings) : Holdings.ofJson? h.toJson = some h :=
  addressMap?_addressMap (addressMap?_addressMap Word.ofJson?_toJson) h

theorem Holdings.fits_toJson (h : Holdings) : Fits .any h.toJson :=
  fits_addressMap (fits_addressMap fun _ => fits_text _) h

namespace Bank

theorem ofJson?_toJson (b : Bank) : ofJson? b.toJson = some b := by
  rw [ofJson?, toJson, fields?_record (by simp)]
  simp [shape, Shape.names, List.lookup_cons, required?, withDefault?, Address.ofJson?_toJson,
    Holdings.ofJson?_toJson, CallbackBehavior.ofJson?_name, uint64?_toNat]

theorem fits_toJson (b : Bank) : Fits shape b.toJson := by
  simp [toJson, record, Fits, FitsMembers, shape, Shape.member, List.lookup_cons, Address.toJson,
    Holdings.fits_toJson]

end Bank

namespace Snapshot

theorem ofJson?_toJson (s : Snapshot) : ofJson? s.toJson = some s := by
  rw [ofJson?, toJson, fields?_record (by simp)]
  simp [shape, Shape.names, List.lookup_cons, required?, withDefault?, Pool.listToJson,
    list?_map Pool.ofJson?_toJson, Bank.ofJson?_toJson]

theorem fits_toJson (s : Snapshot) : Fits shape s.toJson := by
  have hpools : Fits (.list Pool.shape) (Pool.listToJson s.pools) :=
    fits_list (List.forall_mem_map.2 fun p _ => p.fits_toJson)
  simp [toJson, record, Fits, FitsMembers, shape, Shape.member, List.lookup_cons, hpools,
    Bank.fits_toJson]

theorem read?_toText (s : Snapshot) : Json.read? shape ofJson? s.toText = some s := by
  rw [read?, toText, parse?_pretty s.fits_toJson, Option.bind_some, ofJson?_toJson]

end Snapshot

end NetSettle
