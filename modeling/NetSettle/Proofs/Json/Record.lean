import NetSettle.Json.Record
import NetSettle.Proofs.Json.RoundTrip
import NetSettle.Proofs.SortedMap
import NetSettle.Proofs.Text.Hex

/-!
# Written records read back

A record whose fields have different names gives back each field, a map every entry, and a number
or an address itself.
-/
namespace NetSettle

namespace Json

theorem member?_record {members : List (String × Json)} (h : (members.map (·.1)).Nodup)
    (name : String) :
    member? (members.map fun (name, value) => (some name, value)) name =
      some (members.lookup name) := by
  induction members with
  | nil => rfl
  | cons m members ih =>
    obtain ⟨name', value⟩ := m
    obtain ⟨hnew, hnodup⟩ := List.nodup_cons.1 h
    rw [member?, List.map_cons]
    by_cases hname : name' = name
    · subst hname
      have hrest : (members.map fun (name, value) => (some name, value)).filter
          (fun m => m.1 = some name') = [] := by
        rw [List.filter_eq_nil_iff]
        intro m hm heq
        obtain ⟨m', hm', rfl⟩ := List.mem_map.1 hm
        exact hnew (List.mem_map.2 ⟨m', hm', Option.some.inj (of_decide_eq_true heq)⟩)
      rw [List.filter_cons_of_pos (by simp), hrest, List.lookup_cons_self]
    · rw [List.filter_cons_of_neg (by simpa using hname), ← member?, ih hnodup,
        List.lookup_cons, beq_eq_false_iff_ne.2 (Ne.symm hname)]

theorem fields?_record {members : List (String × Json)} (h : (members.map (·.1)).Nodup)
    (shape : Shape) :
    fields? shape (record members) =
      some (shape.names.map fun name => members.lookup name) := by
  rw [record, fields?, if_pos (by simp)]
  rw [show member? (members.map fun (name, value) => (some name, value)) =
    fun name => pure (members.lookup name) from funext (member?_record h)]
  exact List.mapM_pure

@[simp] theorem fits_text {shape : Shape} (s : String) : Fits shape (text s) := by
  simp [text, Fits]

@[simp] theorem fits_nat {shape : Shape} (n : Nat) : Fits shape (.nat n) := by
  simp [Fits]

theorem fits_record {shape : Shape} {members : List (String × Json)}
    (h : ∀ name j, (name, j) ∈ members → Fits (shape.member (some name)) j) :
    Fits shape (record members) := by
  induction members with
  | nil => trivial
  | cons m members ih =>
    exact ⟨rfl, h _ _ (List.mem_cons_self ..),
      ih fun name j hm => h name j (List.mem_cons_of_mem _ hm)⟩

theorem fits_list {item : Shape} {items : List Json} (h : ∀ j ∈ items, Fits item j) :
    Fits (.list item) (.arr items) := by
  induction items with
  | nil => trivial
  | cons j items ih =>
    exact ⟨nofun, h j (List.mem_cons_self ..), ih fun k hk => h k (List.mem_cons_of_mem _ hk)⟩

section

variable {α : Type} {name other : String} {write : α → Json} {read : Json → Option α} {a : Option α}

@[simp] theorem lookup_optionalMember :
    (optionalMember name write a).lookup name = a.map write := by
  cases a with
  | none => rfl
  | some a => exact List.lookup_cons_self

@[simp] theorem lookup_optionalMember_of_ne (h : other ≠ name) :
    (optionalMember name write a).lookup other = none := by
  cases a with
  | none => rfl
  | some a => simp [optionalMember, List.lookup_cons, beq_eq_false_iff_ne.2 h]

theorem optional?_map (h : ∀ a, read (write a) = some a) (hnull : ∀ a, write a ≠ .null) :
    optional? read (a.map write) = some a := by
  cases a with
  | none => rfl
  | some a =>
    rw [Option.map_some, optional?, h]
    · rfl
    · exact fun heq => hnull a heq

end

theorem mapM_map_of_inverse {α β : Type} {write : α → β} {read : β → Option α}
    (h : ∀ a, read (write a) = some a) (l : List α) : (l.map write).mapM read = some l := by
  rw [List.mapM_map, show read ∘ write = pure from funext h]
  exact List.mapM_pure.trans (congrArg some (List.map_id l))

theorem list?_map {α : Type} {write : α → Json} {read : Json → Option α}
    (h : ∀ a, read (write a) = some a) (l : List α) : list? read (.arr (l.map write)) = some l :=
  mapM_map_of_inverse h l

theorem addressMap?_addressMap {β : Type} {read : Json → Option β} {write : β → Json}
    (h : ∀ b, read (write b) = some b) (m : SortedMap Address β) :
    addressMap? read (addressMap write m) = some m := by
  rw [addressMap, record, addressMap?, List.map_map]
  change Option.bind ((m.toList.map fun e : Address × β =>
    (some (Address.toHex e.1), write e.2)).mapM _) _ = _
  rw [mapM_map_of_inverse, Option.bind_some]
  · exact congrArg some (SortedMap.ofList_toList m)
  · intro e
    simp [Address.ofHex?_toHex, h]

theorem fits_addressMap {β : Type} {write : β → Json} (h : ∀ b, Fits .any (write b))
    (m : SortedMap Address β) : Fits .any (addressMap write m) := by
  refine fits_record fun name j hm => ?_
  obtain ⟨⟨key, b⟩, -, heq⟩ := List.mem_map.1 hm
  obtain rfl : write b = j := congrArg Prod.snd heq
  exact h b

end Json

theorem Amount.ofJson?_toJson (a : Amount) : Amount.ofJson? (Amount.toJson a) = some a := by
  rw [ofJson?, toJson, Json.natBelow?, if_pos a.isLt, Option.map_some, BitVec.ofNat_toNat,
    BitVec.setWidth_eq]

@[simp] theorem Amount.optional?_map_toJson (a : Option Amount) :
    Json.optional? Amount.ofJson? (a.map Amount.toJson) = some a :=
  Json.optional?_map Amount.ofJson?_toJson nofun

theorem Address.ofJson?_toJson (a : Address) : Address.ofJson? (Address.toJson a) = some a :=
  Address.ofHex?_toHex a

theorem Word.ofJson?_toJson (w : Word) : Word.ofJson? (Word.toJson w) = some w :=
  Word.ofText?_toHex w

theorem Word.hashOfJson?_hashToJson (w : Word) : Word.hashOfJson? w.hashToJson = some w := by
  have hlt : w.toNat < 256 ^ 32 := w.isLt
  have hbytes : Json.bytes? 32 w.hashToJson = some w.toNat := Hex.fixed?_encode hlt
  rw [hashOfJson?, hbytes, Option.map_some, BitVec.ofNat_toNat, BitVec.setWidth_eq]

namespace Json

theorem uint8?_toNat (n : UInt8) : uint8? (.nat n.toNat) = some n := by
  rw [uint8?, natBelow?, if_pos n.toNat_lt, Option.map_some, UInt8.ofNat_toNat]

theorem uint16?_toNat (n : UInt16) : uint16? (.nat n.toNat) = some n := by
  rw [uint16?, natBelow?, if_pos n.toNat_lt, Option.map_some, UInt16.ofNat_toNat]

theorem uint64?_toNat (n : UInt64) : uint64? (.nat n.toNat) = some n := by
  rw [uint64?, natBelow?, if_pos n.toNat_lt, Option.map_some, UInt64.ofNat_toNat]

end Json

end NetSettle
