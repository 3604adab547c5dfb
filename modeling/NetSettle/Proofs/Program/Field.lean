import NetSettle.Program.Field
import NetSettle.Proofs.Ending
import NetSettle.Proofs.Program.Layout

/-!
# Fields in a row

Fields are written one behind the other, and a field that cannot be written leaves no trace. Reads
of the types that the others have, in the same order, give these fields back and end at the end of
the data. Of whatever data, a read steps over its field or fails and stays where it is, so that a
cursor is always where the widths of what it has read add up to.
-/
namespace NetSettle

open Faulting

/-- Work on each entry of a list in turn, whatever becomes of it: the answers of what ended well,
and the state that all of it leaves. -/
def Faulting.tryEach {ε σ ι α : Type} (work : ι → EStateM ε σ α) : List ι → σ → List α × σ
  | [], s => ([], s)
  | i :: rest, s =>
    match (work i).run s with
    | .ok a s' => (a :: (tryEach work rest s').1, (tryEach work rest s').2)
    | .error _ s' => tryEach work rest s'

section

variable {ε σ ι α : Type} {work : ι → EStateM ε σ α} {i : ι} {rest : List ι} {s s' : σ} {a : α}
  {e : ε}

theorem Faulting.tryEach_of_ok (h : (work i).run s = .ok a s') :
    tryEach work (i :: rest) s = (a :: (tryEach work rest s').1, (tryEach work rest s').2) := by
  rw [tryEach, h]

theorem Faulting.tryEach_of_error (h : (work i).run s = .error e s') :
    tryEach work (i :: rest) s = tryEach work rest s' := by
  rw [tryEach, h]

end

def FieldType.width : FieldType → Nat
  | uint width => width
  | uint8 => 1
  | uint16 => 2
  | uint64 => 8
  | amount => 16
  | address => 20
  | word => 32

namespace Field

/-- Why a field cannot be written: only a number can be refused, for a width that is none of one to
32 or that has no room for it. -/
inductive Unwritable : Field → Fault → Prop
  | width {value : Word} {width : Nat} (h : width = 0 ∨ 32 < width) :
    Unwritable (uint value width) (.invalidFieldWidth width)
  | room {value : Word} {width : Nat} (hwidth : 1 ≤ width ∧ width ≤ 32)
    (h : 256 ^ width ≤ value.toNat) : Unwritable (uint value width) .overflow

def toNat : Field → Nat
  | uint value _ | amount value | address value | word value => value.toNat
  | uint8 value => value.toNat
  | uint16 value => value.toNat
  | uint64 value => value.toNat

def bytes (f : Field) : List UInt8 := bigEndian f.type.width f.toNat

def write (f : Field) : Faulting (List UInt8) Field := do
  f.append
  return f

def writeAll : List Field → List UInt8 → List Field × List UInt8 := tryEach write

def totalWidth (fields : List Field) : Nat := (fields.map (·.type.width)).sum

variable {f : Field} {bytes buffer buffer' : List UInt8} {fault : Fault} {value : Word}
  {width : Nat}

theorem shiftLeft_eq_pow (width : Nat) : 1 <<< (8 * width) = 256 ^ width := by
  rw [Nat.shiftLeft_eq, Nat.one_mul, Nat.pow_mul]

theorem encode_uint_of_width (h : width = 0 ∨ 32 < width) :
    (uint value width).encode = .error (.invalidFieldWidth width) := if_pos h

theorem encode_uint (hwidth : 1 ≤ width ∧ width ≤ 32) : (uint value width).encode =
    if 256 ^ width ≤ value.toNat then .error .overflow
    else .ok (bigEndian width value.toNat) := by
  have hvalid : ¬ (width = 0 ∨ maxFieldWidth < width) := by
    rw [maxFieldWidth]
    omega
  rw [encode, if_neg hvalid, shiftLeft_eq_pow]

theorem encode_uint_eq_ok : (uint value width).encode = .ok bytes ↔
    (1 ≤ width ∧ width ≤ 32) ∧ value.toNat < 256 ^ width ∧ bytes = bigEndian width value.toNat := by
  by_cases hwidth : 1 ≤ width ∧ width ≤ 32
  · rw [encode_uint hwidth]
    split
    · rename_i hroom
      constructor
      · rintro ⟨⟩
      · rintro ⟨-, hlt, -⟩
        omega
    · rename_i hroom
      rw [Except.ok.injEq, eq_comm]
      exact ⟨fun h => ⟨hwidth, Nat.lt_of_not_le hroom, h⟩, fun h => h.2.2⟩
  · rw [encode_uint_of_width (by omega)]
    constructor
    · rintro ⟨⟩
    · rintro ⟨h, -⟩
      exact absurd h hwidth

theorem encode_eq_error : f.encode = .error fault ↔ f.Unwritable fault := by
  constructor
  · intro h
    cases f with
    | uint value width =>
      by_cases hwidth : 1 ≤ width ∧ width ≤ 32
      · rw [encode_uint hwidth] at h
        split at h
        · cases h
          exact .room hwidth (by assumption)
        · cases h
      · have hout : width = 0 ∨ 32 < width := by omega
        rw [encode_uint_of_width hout] at h
        cases h
        exact .width hout
    | uint8 | uint16 | uint64 | amount | address | word => cases h
  · intro h
    cases h with
    | width h => exact encode_uint_of_width h
    | room hwidth h => rw [encode_uint hwidth, if_pos h]

theorem length_bytes (f : Field) : f.bytes.length = f.type.width := length_bigEndian ..

theorem eq_bytes_of_encode (h : f.encode = .ok bytes) : bytes = f.bytes := by
  cases f with
  | uint value width => exact (encode_uint_eq_ok.1 h).2.2
  | uint8 | uint16 | uint64 | amount | address | word => exact (Except.ok.inj h).symm

theorem width_pos (h : f.encode = .ok bytes) : 0 < f.type.width := by
  cases f with
  | uint value width => exact (encode_uint_eq_ok.1 h).1.1
  | uint8 | uint16 | uint64 | amount | address | word => exact Nat.succ_pos _

theorem append_eq_error : f.append.run buffer = .error fault buffer' ↔
    f.Unwritable fault ∧ buffer' = buffer := by
  rw [append, run_lift_bind_eq_error, encode_eq_error, eq_comm]
  constructor
  · rintro (h | ⟨_, -, ⟨⟩⟩)
    exact h
  · exact .inl

theorem append_of_encode (h : f.encode = .ok bytes) (buffer : List UInt8) :
    f.append.run buffer = .ok () (buffer ++ bytes) := by
  rw [append, h]
  rfl

theorem append_eq_ok : f.append.run buffer = .ok () buffer' ↔
    (∀ fault, ¬ f.Unwritable fault) ∧ buffer' = buffer ++ f.bytes := by
  cases hencode : f.encode with
  | ok written =>
    obtain rfl := eq_bytes_of_encode hencode
    rw [append_of_encode hencode, EStateM.Result.ok.injEq]
    constructor
    · rintro ⟨-, rfl⟩
      refine ⟨fun fault h => ?_, rfl⟩
      rw [encode_eq_error.2 h] at hencode
      cases hencode
    · rintro ⟨-, rfl⟩
      exact ⟨rfl, rfl⟩
  | error fault =>
    have hcause := encode_eq_error.1 hencode
    rw [append_eq_error.2 ⟨hcause, rfl⟩]
    constructor
    · rintro ⟨⟩
    · rintro ⟨hnone, -⟩
      exact absurd hcause (hnone fault)

theorem write_of_encode (h : f.encode = .ok bytes) (buffer : List UInt8) :
    f.write.run buffer = .ok f (buffer ++ bytes) :=
  run_bind_of_ok (append_of_encode h buffer) _

theorem write_of_unwritable (h : f.Unwritable fault) (buffer : List UInt8) :
    f.write.run buffer = .error fault buffer :=
  run_bind_of_error (append_eq_error.2 ⟨h, rfl⟩) _

theorem writeAll_eq (fields : List Field) (buffer : List UInt8) :
    (∀ f ∈ (writeAll fields buffer).1, f.encode = .ok f.bytes) ∧
      (writeAll fields buffer).2 = buffer ++ (writeAll fields buffer).1.flatMap Field.bytes := by
  induction fields generalizing buffer with
  | nil => exact ⟨nofun, (List.append_nil _).symm⟩
  | cons f fields ih =>
    cases hencode : f.encode with
    | ok written =>
      obtain rfl := eq_bytes_of_encode hencode
      obtain ⟨hrest, hbuffer⟩ := ih (buffer ++ f.bytes)
      rw [writeAll, tryEach_of_ok (write_of_encode hencode buffer)]
      refine ⟨List.forall_mem_cons.2 ⟨hencode, hrest⟩, ?_⟩
      rw [List.flatMap_cons, ← List.append_assoc]
      exact hbuffer
    | error fault =>
      rw [writeAll, tryEach_of_error (write_of_unwritable (encode_eq_error.1 hencode) buffer)]
      exact ih buffer

end Field

open Decoder

variable {α : Type} {c : Cursor} {type : FieldType} {f : Field} {bytes : List UInt8}

theorem accepts_narrow {width : Nat} (hwidth : 1 ≤ width ∧ width ≤ 32) :
    Accepts (do return BitVec.ofNat 256 (ofBigEndian (← Cursor.take width))) fun value bytes =>
      value.toNat < 256 ^ width ∧ bytes = bigEndian width value.toNat := by
  refine accepts_fitting hwidth.1 (fun value => ?_) fun n hn => ?_
  · rw [BitVec.ofNat_toNat, BitVec.setWidth_eq]
  · have hfits : n < 2 ^ 256 := by
      calc n
        _ < 256 ^ width := hn
        _ ≤ 256 ^ 32 := Nat.pow_le_pow_right (by decide) hwidth.2
        _ = 2 ^ 256 := by decide
    rw [BitVec.toNat_ofNat, Nat.mod_eq_of_lt hfits]

theorem accepts_readUInt (width : Nat) : Accepts (Cursor.readUInt width) fun value bytes =>
    (Field.uint value width).encode = .ok bytes := by
  intro c value c' hc
  rw [Cursor.readUInt, run_guard_eq_ok, maxFieldWidth]
  simp only [Field.encode_uint_eq_ok]
  by_cases hwidth : 1 ≤ width ∧ width ≤ 32
  · have hvalid : ¬ (width = 0 ∨ 32 < width) := by omega
    simp only [hvalid, hwidth, not_false_eq_true, true_and, and_true]
    exact accepts_narrow hwidth c value c' hc
  · have hinvalid : width = 0 ∨ 32 < width := by omega
    simp only [hinvalid, hwidth, not_true, false_and, exists_false]

theorem read_made {read : Decoder α} {S : Spelling α} {a : α} (hread : read.Accepts S)
    (ha : S a bytes) (hc : c.data.length < 2 ^ 63) (hahead : c.Ahead bytes) (make : α → Field) :
    (do return make (← read) : Decoder Field).run c = .ok (make a) (c.skip bytes.length) :=
  run_bind_of_ok ((hread c a _ hc).2 ⟨bytes, ha, hahead, rfl⟩) _

theorem Field.read_of_ahead (h : f.encode = .ok bytes) (hc : c.data.length < 2 ^ 63)
    (hahead : c.Ahead bytes) : f.type.read.run c = .ok f (c.skip bytes.length) := by
  cases f with
  | uint value width => exact read_made (accepts_readUInt width) h hc hahead (.uint · width)
  | uint8 => exact read_made accepts_readUInt8 (Except.ok.inj h).symm hc hahead .uint8
  | uint16 => exact read_made accepts_readUInt16 (Except.ok.inj h).symm hc hahead .uint16
  | uint64 => exact read_made accepts_readUInt64 (Except.ok.inj h).symm hc hahead .uint64
  | amount => exact read_made accepts_readAmount (Except.ok.inj h).symm hc hahead .amount
  | address => exact read_made accepts_readAddress (Except.ok.inj h).symm hc hahead .address
  | word => exact read_made accepts_readWord (Except.ok.inj h).symm hc hahead .word

theorem ends_take (width : Nat) (c : Cursor) :
    Ends (· = c) (Cursor.take width) (· = c.skip width) fun _ c' => c' = c := by
  intro _ hstart
  rw [hstart, take_run]
  cases field c.data c.offset width with
  | ok bytes => rfl
  | error fault => rfl

theorem FieldType.ends_read (type : FieldType) (c : Cursor) :
    Ends (· = c) type.read (· = c.skip type.width) fun _ c' => c' = c := by
  cases type with
  | uint width =>
    exact .bind (.guard (fun _ h => h) (.bind (ends_take width c) fun _ => .pure _))
      fun _ => .pure _
  | uint8 => exact .bind (.bind (ends_take 1 c) fun _ => .pure _) fun _ => .pure _
  | uint16 => exact .bind (.bind (ends_take 2 c) fun _ => .pure _) fun _ => .pure _
  | uint64 => exact .bind (.bind (ends_take 8 c) fun _ => .pure _) fun _ => .pure _
  | amount => exact .bind (.bind (ends_take 16 c) fun _ => .pure _) fun _ => .pure _
  | address => exact .bind (.bind (ends_take 20 c) fun _ => .pure _) fun _ => .pure _
  | word => exact .bind (.bind (ends_take 32 c) fun _ => .pure _) fun _ => .pure _

theorem FieldType.type_of_read {c' : Cursor} (h : type.read.run c = .ok f c') : f.type = type := by
  cases type with
  | uint | uint8 | uint16 | uint64 | amount | address | word =>
    obtain ⟨value, _, -, h⟩ := run_bind_eq_ok.1 h
    cases h
    rfl

namespace Field

def readAll : List FieldType → Cursor → List Field × Cursor := tryEach FieldType.read

theorem readAll_snd (types : List FieldType) (c : Cursor) :
    (readAll types c).2 = c.skip (totalWidth (readAll types c).1) := by
  induction types generalizing c with
  | nil => rfl
  | cons type types ih =>
    cases hread : type.read.run c with
    | ok f c' =>
      have hskip : c' = c.skip f.type.width := by
        rw [FieldType.type_of_read hread]
        exact (type.ends_read c).of_ok rfl hread
      rw [readAll, tryEach_of_ok hread]
      change (readAll types c').2 = c.skip (f.type.width + totalWidth (readAll types c').1)
      rw [ih c', ← Cursor.skip_skip, ← hskip]
    | error fault c' =>
      have hstay : c' = c := (type.ends_read c).of_error rfl hread
      rw [readAll, tryEach_of_error hread, hstay]
      exact ih c

def readBack (fields : List Field) : Decoder (List Field) := fields.mapM fun f => f.type.read

theorem length_flatMap_bytes (fields : List Field) :
    (fields.flatMap Field.bytes).length = totalWidth fields := by
  simp only [List.length_flatMap, length_bytes, totalWidth]

theorem readBack_of_ahead {fields : List Field} (h : ∀ f ∈ fields, f.encode = .ok f.bytes)
    {c : Cursor} (hc : c.data.length < 2 ^ 63) (hahead : c.Ahead (fields.flatMap Field.bytes)) :
    (readBack fields).run c = .ok fields (c.skip (totalWidth fields)) := by
  induction fields generalizing c with
  | nil => rfl
  | cons f fields ih =>
    obtain ⟨hencode, hfields⟩ := List.forall_mem_cons.1 h
    rw [List.flatMap_cons] at hahead
    obtain ⟨hfirst, hrest⟩ := Cursor.ahead_append.1 hahead
    have hread := read_of_ahead hencode hc hfirst
    rw [length_bytes] at hread hrest
    have hreads := ih (c := c.skip f.type.width) hfields hc hrest
    rw [Cursor.skip_skip] at hreads
    exact run_mapM_cons_of_ok hread hreads

theorem totalWidth_eq_zero {fields : List Field} (h : ∀ f ∈ fields, f.encode = .ok f.bytes) :
    totalWidth fields = 0 ↔ fields = [] := by
  constructor
  · intro hzero
    cases fields with
    | nil => rfl
    | cons f fields =>
      -- A field of no width could not have been encoded.
      have hpos : 0 < f.type.width := width_pos (h f (List.mem_cons_self ..))
      rw [totalWidth, List.map_cons, List.sum_cons] at hzero
      omega
  · rintro rfl
    rfl

theorem readBack_of_writeAll {fields before after : List Field} {data : List UInt8}
    (h : writeAll fields [] = (before ++ after, data)) (hdata : data.length < 2 ^ 63) :
    (readBack before).run (.start data) = .ok before ⟨data, totalWidth before⟩ ∧
      (Cursor.atEnd ⟨data, totalWidth before⟩ = true ↔ after = []) := by
  obtain ⟨hencode, hbytes⟩ := writeAll_eq fields []
  rw [h] at hencode hbytes
  obtain ⟨hbefore, hafter⟩ := List.forall_mem_append.1 hencode
  have hsplit : data = before.flatMap Field.bytes ++ after.flatMap Field.bytes := by
    rw [← List.flatMap_append]
    exact hbytes
  constructor
  · have hread := readBack_of_ahead hbefore (c := .start data) hdata ⟨_, hsplit.symm⟩
    rwa [Cursor.skip, Cursor.start, Nat.zero_add] at hread
  · have hlength : data.length = totalWidth before + totalWidth after := by
      rw [hsplit, List.length_append, length_flatMap_bytes, length_flatMap_bytes]
    rw [← totalWidth_eq_zero hafter, Cursor.atEnd, decide_eq_true_iff]
    change data.length ≤ totalWidth before ↔ totalWidth after = 0
    omega

/-- What is written is read back, in data no longer than memory, and what cannot be written leaves
no trace. A cursor is as far in the data as the fields are wide that it has read, whatever the data
is and whichever reads have failed. -/
theorem fields_read_back :
    (∀ (f : Field) (buffer buffer' : List UInt8),
      (f.append.run buffer = .ok () buffer' ↔
        (∀ fault, ¬ f.Unwritable fault) ∧ buffer' = buffer ++ f.bytes) ∧
      ∀ fault, f.append.run buffer = .error fault buffer' ↔
        f.Unwritable fault ∧ buffer' = buffer) ∧
    (∀ (fields before after : List Field) (data : List UInt8),
      writeAll fields [] = (before ++ after, data) → data.length < 2 ^ 63 →
        (readBack before).run (.start data) = .ok before ⟨data, totalWidth before⟩ ∧
          (Cursor.atEnd ⟨data, totalWidth before⟩ = true ↔ after = [])) ∧
    (∀ (types : List FieldType) (data : List UInt8), (readAll types (.start data)).2 =
      ⟨data, totalWidth (readAll types (.start data)).1⟩) ∧
    ∀ (type : FieldType) (c c' : Cursor) (fault : Fault),
      type.read.run c = .error fault c' → c' = c := by
  refine ⟨fun f buffer buffer' => ⟨append_eq_ok, fun fault => append_eq_error⟩,
    fun fields before after data => readBack_of_writeAll, fun types data => ?_,
    fun type c c' fault h => (type.ends_read c).of_error rfl h⟩
  rw [readAll_snd, Cursor.skip, Cursor.start, Nat.zero_add]

def mixedFields : List Field :=
  [.uint 0xffffff 3, .uint 0x1000000 3, .uint16 300, .uint 5 33, .address 7, .amount Amount.max,
    .uint 0 0, .uint 9 32, .uint8 255, .word 1, .uint64 2]

def mixedFirst : List Field := [.uint 0xffffff 3, .uint16 300]

def mixedRest : List Field :=
  [.address 7, .amount Amount.max, .uint 9 32, .uint8 255, .word 1, .uint64 2]

def mixedBytes : List UInt8 := (writeAll mixedFields []).2

theorem fields_read_back_mixed :
    (uint 0x1000000 3).append.run [7] = .error .overflow [7] ∧
      (readBack mixedFirst).run (.start mixedBytes) =
        .ok mixedFirst ⟨mixedBytes, totalWidth mixedFirst⟩ ∧
      Cursor.atEnd ⟨mixedBytes, totalWidth mixedFirst⟩ = false ∧
      (readBack (mixedFirst ++ mixedRest)).run (.start mixedBytes) =
        .ok (mixedFirst ++ mixedRest) ⟨mixedBytes, totalWidth (mixedFirst ++ mixedRest)⟩ ∧
      Cursor.atEnd ⟨mixedBytes, totalWidth (mixedFirst ++ mixedRest)⟩ = true ∧
      FieldType.uint64.read.run ⟨mixedBytes, 110⟩ =
        .error (.truncatedProgram 110 4) ⟨mixedBytes, 110⟩ := by
  obtain ⟨hwrite, hread, -, hfailed⟩ := fields_read_back
  have hbytes : mixedBytes.length < 2 ^ 63 := by decide +kernel
  have hwritten : writeAll mixedFields [] = (mixedFirst ++ mixedRest, mixedBytes) :=
    Prod.ext (by decide +kernel) rfl
  have hall : writeAll mixedFields [] = (mixedFirst ++ mixedRest ++ [], mixedBytes) := by
    rw [hwritten, List.append_nil]
  obtain ⟨hfirst, hinside⟩ := hread mixedFields mixedFirst mixedRest mixedBytes hwritten hbytes
  obtain ⟨hwhole, hend⟩ := hread mixedFields (mixedFirst ++ mixedRest) [] mixedBytes hall hbytes
  have hshort : faultsWith (fun fault _ => decide (fault = .truncatedProgram 110 4))
      (FieldType.uint64.read.run ⟨mixedBytes, 110⟩) = true := by decide +kernel
  obtain ⟨fault, c', hrun, hfault⟩ := exists_of_faultsWith hshort
  obtain rfl := of_decide_eq_true hfault
  refine ⟨((hwrite _ _ _).2 _).2 ⟨.room (by decide) (by decide), rfl⟩, hfirst, ?_, hwhole,
    hend.2 rfl, ?_⟩
  · exact Bool.eq_false_iff.2 fun h => absurd (hinside.1 h) (by decide)
  · rw [hrun, hfailed _ _ _ _ hrun]

end Field

end NetSettle
