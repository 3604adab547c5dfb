import NetSettle.Program.Json
import NetSettle.Proofs.Json.Record

/-!
# Programs in JSON read back

The JSON of a program gives back the program: its operations one by one, each with the amounts,
bounds and signatures that it holds. A member is left out exactly where an optional field is absent,
and bounds that are left out bound nothing.
-/
namespace NetSettle

open Json

namespace Bounds

def members (b : Bounds) : List (String × Json) :=
  optionalMember "min" Amount.toJson b.min ++ optionalMember "max" Amount.toJson b.max

theorem toJson_eq_record (b : Bounds) : b.toJson = .record b.members := rfl

def absent (b : Bounds) : List String :=
  (if b.min.isNone then ["min"] else []) ++ (if b.max.isNone then ["max"] else [])

theorem map_fst_members (b : Bounds) :
    b.members.map (·.1) = shape.names.filter fun name => name ∉ b.absent := by
  obtain ⟨_ | min, _ | max⟩ := b <;> simp [members, absent, optionalMember, shape, Shape.names]

theorem ofJson?_toJson (b : Bounds) : ofJson? b.toJson = some b := by
  have hnodup : (b.members.map (·.1)).Nodup := by
    rw [map_fst_members]
    exact List.Pairwise.filter _ (by decide)
  rw [toJson_eq_record, ofJson?, fields?_record hnodup]
  simp [shape, Shape.names, members, List.lookup_append]

theorem toJson_injective : Function.Injective toJson := by
  intro b b' h
  apply Option.some.inj
  rw [← ofJson?_toJson, h, ofJson?_toJson]

theorem fits_toJson (shape : Shape) (b : Bounds) : Fits shape b.toJson := by
  obtain ⟨_ | min, _ | max⟩ := b <;>
    simp [toJson, record, optionalMember, Fits, FitsMembers, Amount.toJson]

end Bounds

theorem SwapAmount.ofJson?_toJson (a : SwapAmount) : ofJson? a.toJson = some a := by
  cases a with
  | exact amount =>
    rw [toJson, ofJson?]
    change (Amount.ofJson? amount.toJson).map SwapAmount.exact = _
    rw [Amount.ofJson?_toJson]
    rfl
  | fromLedger => rfl

theorem SwapAmount.fits_toJson (shape : Shape) (a : SwapAmount) : Fits shape a.toJson := by
  cases a <;> simp [toJson, tagged, record, Fits, FitsMembers, Amount.toJson]

theorem Signature.ofJson?_toJson (s : Signature) : ofJson? s.toJson = some s := by
  rw [ofJson?, toJson, fields?_record (by simp)]
  simp [shape, Shape.names, List.lookup_cons, required?, uint8?_toNat, Word.hashOfJson?_hashToJson]

theorem Signature.fits_toJson (shape : Shape) (s : Signature) : Fits shape s.toJson := by
  simp [toJson, record, Fits, FitsMembers, Word.hashToJson]

namespace Operation

theorem toJson_eq (op : Operation) : op.toJson = .tagged op.tag (.record op.members) := rfl

def fields (op : Operation) : Shape := (shapes.lookup op.tag).getD .any

theorem lookup_shapes (op : Operation) : shapes.lookup op.tag = some op.fields := by
  cases op <;> simp [fields, tag, shapes, List.lookup_cons]

def absent : Operation → List String
  | addLiquidity _ _ _ _ _ none => ["min_shares"]
  | removeLiquidity _ _ none => ["shares"]
  | _ => []

theorem map_fst_members (op : Operation) :
    op.members.map (·.1) = op.fields.names.filter fun name => name ∉ op.absent := by
  cases op with
  | addLiquidity _ _ _ _ _ minShares => cases minShares <;> rfl
  | removeLiquidity _ _ shares => cases shares <;> rfl
  | _ => rfl

theorem nodup_names (op : Operation) : op.fields.names.Nodup := by
  cases op <;> simp [fields, tag, shapes, List.lookup_cons, Shape.names, settlementShape]

theorem nodup_members (op : Operation) : (op.members.map (·.1)).Nodup := by
  rw [map_fst_members]
  exact List.Pairwise.filter _ op.nodup_names

theorem ofFields?_members (op : Operation) :
    ofFields? op.tag (op.fields.names.map fun name => op.members.lookup name) = some op := by
  cases op <;>
    simp [fields, tag, shapes, List.lookup_cons, Shape.names, settlementShape, members, ofFields?,
      required?, Address.ofJson?_toJson, Amount.ofJson?_toJson, SwapAmount.ofJson?_toJson,
      Bounds.ofJson?_toJson, Signature.ofJson?_toJson, uint64?_toNat, withDefault?, bool?]

theorem ofJson?_tagged (op : Operation) {members : List (String × Json)}
    (hnodup : (members.map (·.1)).Nodup) :
    ofJson? (.tagged op.tag (.record members)) =
      ofFields? op.tag (op.fields.names.map fun name => members.lookup name) := by
  have hchoice : choice? (.tagged op.tag (.record members)) =
      some (op.tag, some (.record members)) := rfl
  rw [ofJson?, hchoice]
  simp [lookup_shapes, fields?_record hnodup]

theorem ofJson?_toJson (op : Operation) : ofJson? op.toJson = some op := by
  rw [toJson_eq, ofJson?_tagged op op.nodup_members, ofFields?_members]

theorem fits_members (op : Operation) :
    ∀ m ∈ op.members, ∀ shape : Shape, Fits shape m.2 := by
  cases op with
  | addLiquidity _ _ _ _ _ minShares =>
    cases minShares <;> simp [members, optionalMember, Address.toJson, Amount.toJson]
  | removeLiquidity _ _ shares =>
    cases shares <;> simp [members, optionalMember, Address.toJson, Amount.toJson]
  | _ =>
    simp [members, Address.toJson, Amount.toJson, SwapAmount.fits_toJson, Bounds.fits_toJson,
      Signature.fits_toJson, Fits]

def brief (op : Operation) : List (String × Json) := op.members.filter fun m => m.1 ≠ "bounds"

/-- The JSON of an operation; bounds that bound nothing may be left out. -/
inductive Authored (op : Operation) : Json → Prop
  | whole : Authored op op.toJson
  | brief (h : ("bounds", Bounds.unbounded.toJson) ∈ op.members) :
      Authored op (.tagged op.tag (.record op.brief))

theorem ofFields?_brief {op : Operation} (h : ("bounds", Bounds.unbounded.toJson) ∈ op.members) :
    ofFields? op.tag (op.fields.names.map fun name => op.brief.lookup name) = some op := by
  cases op with
  | sendAll _ _ bounds | receiveAll _ bounds | receiveAllViaCallback _ bounds
  | markReceived _ bounds =>
    obtain rfl : Bounds.unbounded = bounds := Bounds.toJson_injective (by simpa [members] using h)
    simp [fields, tag, shapes, List.lookup_cons, Shape.names, settlementShape, brief, members,
      ofFields?, required?, Address.ofJson?_toJson, withDefault?]
  | _ => simp [members, optionalMember] at h

theorem Authored.ofJson? {op : Operation} {j : Json} (h : op.Authored j) :
    Operation.ofJson? j = some op := by
  cases h with
  | whole => exact ofJson?_toJson op
  | brief h =>
    have hnodup : (op.brief.map (·.1)).Nodup :=
      op.nodup_members.sublist (List.filter_sublist.map _)
    rw [ofJson?_tagged op hnodup, ofFields?_brief h]

theorem Authored.fits {op : Operation} {j : Json} (h : op.Authored j) (shape : Shape) :
    Fits shape j := by
  have htagged {members : List (String × Json)} (hsub : ∀ m ∈ members, m ∈ op.members) :
      Fits shape (.tagged op.tag (.record members)) := by
    apply fits_record
    intro name j hj
    obtain ⟨rfl, rfl⟩ := Prod.mk.inj (List.mem_singleton.1 hj)
    apply fits_record
    intro name j hj
    exact op.fits_members _ (hsub _ hj) _
  cases h with
  | whole => exact htagged fun _ hm => hm
  | brief => exact htagged fun _ hm => List.mem_of_mem_filter hm

end Operation

namespace Program

def Authored (p : Program) (j : Json) : Prop :=
  ∃ operations, List.Forall₂ Operation.Authored p.operations operations ∧
    j = .record [("ledger_capacity", .nat p.ledgerCapacity.toNat), ("operations", .arr operations)]

theorem authored_toJson (p : Program) : p.Authored p.toJson :=
  ⟨_, List.forall₂_map_right_iff.2 (List.forall₂_same.2 fun _ _ => .whole), rfl⟩

variable {p : Program} {j : Json}

theorem Authored.ofJson? (h : p.Authored j) : Program.ofJson? j = some p := by
  obtain ⟨operations, hops, rfl⟩ := h
  have hread : list? Operation.ofJson? (.arr operations) = some p.operations := by
    generalize p.operations = ops at hops
    induction hops with
    | nil => rfl
    | cons hop _ ih =>
      rw [list?, List.mapM_cons, hop.ofJson?, show List.mapM _ _ = _ from ih]
      rfl
  rw [Program.ofJson?, fields?_record (by simp)]
  simp [shape, Shape.names, List.lookup_cons, required?, uint16?_toNat, hread]

theorem Authored.fits (h : p.Authored j) : Fits shape j := by
  obtain ⟨operations, hops, rfl⟩ := h
  have heach : ∀ j ∈ operations, Fits Operation.shape j := by
    generalize p.operations = ops at hops
    induction hops with
    | nil => nofun
    | cons hop _ ih => exact List.forall_mem_cons.2 ⟨hop.fits _, ih⟩
  have hitems : FitsItems (.list Operation.shape) operations := fits_list heach
  simp [record, Fits, FitsMembers, shape, Shape.member, List.lookup_cons, hitems]

end Program

end NetSettle
