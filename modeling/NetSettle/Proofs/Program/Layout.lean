import NetSettle.Proofs.Program.Reading
import NetSettle.Proofs.Raising

/-!
# Where the fields of a program lie

The opcode of an operation says how wide its fields are, and so where in the data each field of a
program begins and ends. A decoder that is laid out in such widths takes all of them, or refuses a
value, or comes to a field that the data does not hold to its end: then it names the place where the
field begins, and the number of bytes that it lacks.
-/
namespace NetSettle

open Faulting

def optionalWidth (present : Bool) : List Nat := if present then [16] else []

def boundsWidths (opcode : UInt8) : List Nat :=
  optionalWidth (flag0 opcode) ++ optionalWidth (flag1 opcode)

def OpKind.fieldWidths (opcode : UInt8) : OpKind → List Nat
  | .swap => [20, 20] ++ optionalWidth (!flag1 opcode)
  | .addLiquidity => [20, 20, 20, 16, 16] ++ optionalWidth (flag0 opcode)
  | .removeLiquidity => [20, 20] ++ optionalWidth (!flag0 opcode)
  | .sendAll => [20, 20] ++ boundsWidths opcode
  | .receiveAll | .receiveAllViaCallback | .markReceived => [20] ++ boundsWidths opcode
  | .deposit => [20, 16]
  | .withdraw => [20, 20, 16]
  | .permit => [20, 16, 8, 1, 32, 32]
  | .claimFees => [20, 20]

def Operation.widths (opcode : UInt8) : List Nat :=
  1 :: match OpKind.ofOpcode opcode with
    | .ok kind => kind.fieldWidths opcode
    | .error _ => []

def Operation.widthsFrom : List UInt8 → List Nat
  | [] => []
  | opcode :: rest =>
    widths opcode ++ widthsFrom ((opcode :: rest).drop (widths opcode).sum)
termination_by bytes => bytes.length
decreasing_by
  rw [List.length_drop, widths, List.sum_cons, List.length_cons]
  omega

def Program.widths (data : List UInt8) : List Nat := 2 :: Operation.widthsFrom (data.drop 2)

def FieldAt (ws : List Nat) (start width : Nat) : Prop :=
  ∃ before after, ws = before ++ width :: after ∧ before.sum = start

section

variable {ws ws' : List Nat} {start width : Nat}

theorem fieldAt_head (ws : List Nat) (width : Nat) : FieldAt (width :: ws) 0 width :=
  ⟨[], ws, rfl, rfl⟩

theorem FieldAt.append (h : FieldAt ws start width) (ws' : List Nat) :
    FieldAt (ws ++ ws') start width := by
  obtain ⟨before, after, rfl, hstart⟩ := h
  exact ⟨before, after ++ ws', List.append_assoc .., hstart⟩

theorem FieldAt.behind (h : FieldAt ws' start width) (ws : List Nat) :
    FieldAt (ws ++ ws') (ws.sum + start) width := by
  obtain ⟨before, after, rfl, rfl⟩ := h
  exact ⟨ws ++ before, after, (List.append_assoc ..).symm, List.sum_append⟩

end

def Fault.cutAt? : Fault → Option Nat
  | .truncatedProgram offset _ => some offset
  | _ => none

def Fault.Uncut (fault : Fault) : Prop := fault.cutAt? = none

namespace Decoder

/-- A decoder that takes fields of the given widths, one after the other, and refuses some of their
values with one kind of faults. -/
inductive LaidOut (Q : Fault → Prop) : {α : Type} → List Nat → Decoder α → Prop
  | pure {α : Type} (a : α) : LaidOut Q [] (pure a : Decoder α)
  | lift {α : Type} {x : Except Fault α} (h : Refuses Q x) :
    LaidOut Q [] (monadLift x : Decoder α)
  | take {width : Nat} (hpos : 0 < width) (hle : width ≤ maxFieldWidth) :
    LaidOut Q [width] (Cursor.take width)
  | bind {α β : Type} {ws ws' : List Nat} {read : Decoder α} {next : α → Decoder β}
    (hread : LaidOut Q ws read) (hnext : ∀ a, LaidOut Q ws' (next a)) :
    LaidOut Q (ws ++ ws') (read >>= next)

section

variable {Q : Fault → Prop} {α : Type} {ws ws' : List Nat} {read : Decoder α}

theorem LaidOut.of_eq (h : LaidOut Q ws read) (hws : ws = ws') : LaidOut Q ws' read := hws ▸ h

theorem laidOut_number {width : Nat} (f : List UInt8 → α) (hpos : 0 < width)
    (hle : width ≤ maxFieldWidth) : LaidOut Q [width] (do return f (← Cursor.take width)) :=
  .of_eq (.bind (.take hpos hle) fun _ => .pure _) rfl

theorem laidOut_readUInt8 : LaidOut Q [1] Cursor.readUInt8 :=
  laidOut_number _ (by decide) (by decide)

theorem laidOut_readUInt16 : LaidOut Q [2] Cursor.readUInt16 :=
  laidOut_number _ (by decide) (by decide)

theorem laidOut_readUInt64 : LaidOut Q [8] Cursor.readUInt64 :=
  laidOut_number _ (by decide) (by decide)

theorem laidOut_readAmount : LaidOut Q [16] Cursor.readAmount :=
  laidOut_number _ (by decide) (by decide)

theorem laidOut_readAddress : LaidOut Q [20] Cursor.readAddress :=
  laidOut_number _ (by decide) (by decide)

theorem laidOut_readWord : LaidOut Q [32] Cursor.readWord :=
  laidOut_number _ (by decide) (by decide)

theorem laidOut_readOptional (present : Bool) :
    LaidOut Q (optionalWidth present) (readOptional present) := by
  cases present with
  | true => exact .of_eq (.bind laidOut_readAmount fun _ => .pure _) rfl
  | false => exact .pure _

theorem laidOut_bounds (opcode : UInt8) : LaidOut Q (boundsWidths opcode) (Bounds.decode opcode) :=
  .of_eq (.bind (laidOut_readOptional _) fun _ => .bind (laidOut_readOptional _) fun _ => .pure _)
    (by rw [List.append_nil, boundsWidths])

variable (hzero : Q .zeroToken)

include hzero

theorem laidOut_readToken : LaidOut Q [20] readToken :=
  .of_eq (.bind laidOut_readAddress fun _ => .lift (.ite (.error hzero) (.ok _))) rfl

theorem laidOut_decodeFields (opcode : UInt8) (kind : OpKind) :
    LaidOut Q (kind.fieldWidths opcode) (Operation.decodeFields opcode kind) := by
  have htoken : LaidOut Q [20] readToken := laidOut_readToken hzero
  cases kind with
  | swap =>
    refine .of_eq (.bind htoken fun token0 => .bind htoken fun token1 =>
      (?_ : LaidOut Q (optionalWidth (!flag1 opcode)) _)) rfl
    cases flag1 opcode with
    | true => exact .pure _
    | false => exact .of_eq (.bind laidOut_readAmount fun _ => .pure _) rfl
  | addLiquidity =>
    exact .of_eq (.bind htoken fun _ => .bind htoken fun _ =>
      .bind laidOut_readAddress fun _ => .bind laidOut_readAmount fun _ =>
      .bind laidOut_readAmount fun _ => .bind (laidOut_readOptional _) fun _ => .pure _)
      (by rw [List.append_nil]; rfl)
  | removeLiquidity =>
    exact .of_eq (.bind htoken fun _ => .bind htoken fun _ =>
      .bind (laidOut_readOptional _) fun _ => .pure _) (by rw [List.append_nil]; rfl)
  | sendAll =>
    exact .of_eq (.bind htoken fun _ => .bind laidOut_readAddress fun _ =>
      .bind (laidOut_bounds _) fun _ => .pure _) (by rw [List.append_nil]; rfl)
  | receiveAll | receiveAllViaCallback | markReceived =>
    exact .of_eq (.bind htoken fun _ => .bind (laidOut_bounds _) fun _ => .pure _)
      (by rw [List.append_nil]; rfl)
  | deposit =>
    exact .of_eq (.bind htoken fun _ => .bind laidOut_readAmount fun _ => .pure _) rfl
  | withdraw =>
    exact .of_eq (.bind htoken fun _ => .bind laidOut_readAddress fun _ =>
      .bind laidOut_readAmount fun _ => .pure _) rfl
  | permit =>
    exact .of_eq (.bind htoken fun _ => .bind laidOut_readAmount fun _ =>
      .bind laidOut_readUInt64 fun _ => .bind laidOut_readUInt8 fun _ =>
      .bind laidOut_readWord fun _ => .bind laidOut_readWord fun _ => .pure _) rfl
  | claimFees =>
    exact .of_eq (.bind htoken fun _ => .bind htoken fun _ => .pure _) rfl

end

theorem refuses_ofOpcode {Q : Fault → Prop} (hopcode : ∀ opcode, Q (.unknownOperation opcode))
    (opcode : UInt8) : Refuses Q (OpKind.ofOpcode opcode) := by
  unfold OpKind.ofOpcode
  split
  · exact .ok _
  · exact .error (hopcode opcode)

/-- How a decoder ends that is laid out in widths: behind the last of the fields, or with a value
that it refuses, or at the first field that the data does not hold to its end. -/
inductive Measured {α : Type} (ws : List Nat) (c : Cursor) : EStateM.Result Fault Cursor α → Prop
  | taken {a : α} (h : c.offset + ws.sum ≤ c.data.length) : Measured ws c (.ok a (c.skip ws.sum))
  | refused {fault : Fault} {c' : Cursor} (h : fault.Uncut) :
    Measured ws c (.error fault c')
  | cut {start width needed : Nat} {c' : Cursor} (hfield : FieldAt ws start width)
    (hstart : c.offset + start ≤ c.data.length) (hneeded : 0 < needed)
    (hwidth : c.offset + start + width = c.data.length + needed) :
    Measured ws c (.error (.truncatedProgram (c.offset + start) needed) c')

variable {α : Type} {ws ws' : List Nat}

theorem Measured.behind {c : Cursor} {r : EStateM.Result Fault Cursor α}
    (h : Measured ws' (c.skip ws.sum) r) : Measured (ws ++ ws') c r := by
  have hskip (n : Nat) : (c.skip ws.sum).offset + n = c.offset + (ws.sum + n) :=
    Nat.add_assoc ..
  cases h with
  | taken h =>
    rw [Cursor.skip_skip, ← List.sum_append]
    refine .taken ?_
    rw [List.sum_append, ← hskip]
    exact h
  | refused h => exact .refused h
  | cut hfield hstart hneeded hwidth =>
    rw [hskip] at hstart hwidth ⊢
    exact .cut (hfield.behind ws) hstart hneeded hwidth

theorem take_run (width : Nat) (c : Cursor) : (Cursor.take width).run c =
    match field c.data c.offset width with
    | .ok bytes => .ok bytes (c.skip width)
    | .error fault => .error fault c := by
  simp only [Cursor.take, EStateM.run_bind, EStateM.run_get]
  cases field c.data c.offset width <;> rfl

theorem measured_take {width : Nat} (hle : width ≤ maxFieldWidth) {c : Cursor}
    (hdata : c.data.length < 2 ^ 63) (hinside : c.offset ≤ c.data.length) :
    Measured [width] c ((Cursor.take width).run c) := by
  have hwidth : width ≤ 32 := hle
  rw [take_run, field, if_neg (by omega)]
  by_cases hshort : c.data.length < c.offset + width
  · rw [if_pos hshort]
    exact .cut (fieldAt_head [] width) hinside (by omega) (by omega)
  · rw [if_neg hshort]
    refine .taken ?_
    rw [List.sum_singleton]
    omega

theorem LaidOut.measured {read : Decoder α} (h : LaidOut Fault.Uncut ws read) {c : Cursor}
    (hdata : c.data.length < 2 ^ 63) (hinside : c.offset ≤ c.data.length) :
    Measured ws c (read.run c) := by
  induction h generalizing c with
  | pure a => exact .taken hinside
  | @lift α x h =>
    cases x with
    | ok a => exact .taken hinside
    | error fault => exact .refused (h fault rfl)
  | take _ hle => exact measured_take hle hdata hinside
  | @bind α β ws ws' read next _ _ ih ih' =>
    have hread := ih hdata hinside
    rw [EStateM.run_bind]
    generalize read.run c = r at hread
    cases hread with
    | @taken a h =>
      have hnext : Measured ws' (c.skip ws.sum) ((next a).run (c.skip ws.sum)) := ih' a hdata h
      exact hnext.behind
    | refused h => exact .refused h
    | cut hfield hstart hneeded hwidth => exact .cut (hfield.append ws') hstart hneeded hwidth

theorem measured_decode {c : Cursor} {opcode : UInt8} {rest : List UInt8}
    (hdata : c.data.length < 2 ^ 63) (hahead : c.data.drop c.offset = opcode :: rest) :
    Measured (Operation.widths opcode) c (Operation.decode.run c) := by
  have hopcode : Cursor.readUInt8.run c = .ok opcode (c.skip 1) := by
    refine (accepts_readUInt8 c opcode _ hdata).2 ⟨[opcode], (bigEndian_one opcode).symm, ?_, rfl⟩
    exact ⟨rest, hahead.symm⟩
  have hinside : c.offset + 1 ≤ c.data.length := by
    have hlength := congrArg List.length hahead
    rw [List.length_drop, List.length_cons] at hlength
    omega
  rw [Operation.decode, run_bind_of_ok hopcode, Operation.widths]
  change Measured ([1] ++ _) c _
  refine Measured.behind ?_
  cases hkind : OpKind.ofOpcode opcode with
  | error fault => exact .refused (refuses_ofOpcode (fun _ => rfl) opcode fault hkind)
  | ok kind =>
    exact (laidOut_decodeFields (Q := Fault.Uncut) rfl opcode kind).measured hdata hinside

end Decoder

theorem Cursor.exists_ahead {c : Cursor} (hend : ¬ c.atEnd = true) :
    ∃ opcode rest, c.data.drop c.offset = opcode :: rest := by
  cases hahead : c.data.drop c.offset with
  | nil => exact absurd (decide_eq_true (List.drop_eq_nil_iff.1 hahead)) hend
  | cons opcode rest => exact ⟨opcode, rest, rfl⟩

theorem Operation.widthsFrom_cons (opcode : UInt8) (rest : List UInt8) :
    widthsFrom (opcode :: rest) =
      widths opcode ++ widthsFrom ((opcode :: rest).drop (widths opcode).sum) := by
  rw [widthsFrom]

structure Cursor.Lacks (c : Cursor) (ws : List Nat) (offset needed : Nat) : Prop where
  offset_le : offset ≤ c.data.length
  needed_pos : 1 ≤ needed
  field : ∃ start width, FieldAt ws start width ∧ offset = c.offset + start ∧
    offset + width = c.data.length + needed

theorem Decoder.Measured.lacks {α : Type} {ws : List Nat} {c c' : Cursor} {offset needed : Nat}
    (h : Measured ws c
      (.error (.truncatedProgram offset needed) c' : EStateM.Result Fault Cursor α)) :
    c.Lacks ws offset needed := by
  cases h with
  | refused h => cases h
  | cut hfield hstart hneeded hwidth => exact ⟨hstart, hneeded, _, _, hfield, rfl, hwidth⟩

namespace Cursor.Lacks

variable {c : Cursor} {ws ws' : List Nat} {offset needed : Nat}

theorem append (h : c.Lacks ws offset needed) (ws' : List Nat) :
    c.Lacks (ws ++ ws') offset needed := by
  obtain ⟨start, width, hfield, hwhere⟩ := h.field
  exact ⟨h.offset_le, h.needed_pos, start, width, hfield.append ws', hwhere⟩

theorem behind (h : (c.skip ws.sum).Lacks ws' offset needed) :
    c.Lacks (ws ++ ws') offset needed := by
  obtain ⟨start, width, hfield, hoffset, hwidth⟩ := h.field
  exact ⟨h.offset_le, h.needed_pos, _, width, hfield.behind ws,
    hoffset.trans (Nat.add_assoc ..), hwidth⟩

end Cursor.Lacks

theorem decodeOperations_lacks {c : Cursor} {offset needed : Nat} (hdata : c.data.length < 2 ^ 63)
    (hinside : c.offset ≤ c.data.length)
    (h : decodeOperations c = .error (.truncatedProgram offset needed)) :
    c.Lacks (Operation.widthsFrom (c.data.drop c.offset)) offset needed := by
  induction c using Cursor.reading_induction with
  | ended c hend =>
    rw [decodeOperations_atEnd hend] at h
    cases h
  | failed c fault c' hend hdecode =>
    obtain ⟨opcode, rest, hahead⟩ := Cursor.exists_ahead hend
    have hmeasured := Decoder.measured_decode hdata hahead
    rw [decodeOperations_failed hend hdecode, Except.error.injEq] at h
    rw [hdecode, h] at hmeasured
    rw [hahead, Operation.widthsFrom_cons]
    exact hmeasured.lacks.append _
  | decoded c op next hend hdecode ih =>
    obtain ⟨opcode, rest, hahead⟩ := Cursor.exists_ahead hend
    have hmeasured := Decoder.measured_decode hdata hahead
    rw [hdecode] at hmeasured
    rw [decodeOperations_decoded hend hdecode, map_eq_error] at h
    cases hmeasured with
    | taken hfits =>
      have hrest := ih hdata hfits h
      have hdrop : c.data.drop (c.offset + (Operation.widths opcode).sum) =
          (opcode :: rest).drop (Operation.widths opcode).sum := by
        rw [← hahead, List.drop_drop]
      rw [hahead, Operation.widthsFrom_cons, ← hdrop]
      exact hrest.behind

/-- A program that is cut short is cut in a field of its layout. The fault names the place where the
field begins, and how many bytes the data would have to have more to hold it. -/
theorem Program.decode_lacks {data : List UInt8} {offset needed : Nat}
    (hdata : data.length < 2 ^ 63)
    (h : Program.decode data = .error (.truncatedProgram offset needed)) :
    (Cursor.start data).Lacks (Program.widths data) offset needed := by
  have hmeasured : Decoder.Measured [2] (.start data) (Cursor.readUInt16.run (.start data)) :=
    Decoder.laidOut_readUInt16.measured hdata (Nat.zero_le _)
  unfold Program.decode at h
  generalize Cursor.readUInt16.run (.start data) = r at h hmeasured
  cases r with
  | error fault c' =>
    cases h
    exact hmeasured.lacks.append _
  | ok capacity c =>
    rw [bind_eq_error] at h
    simp only [pure_eq_error, and_false, exists_false, or_false] at h
    cases hmeasured with
    | taken hfits =>
      have hrest := decodeOperations_lacks hdata hfits h
      change (Cursor.start data).Lacks ([2] ++ _) offset needed
      exact hrest.behind

end NetSettle
