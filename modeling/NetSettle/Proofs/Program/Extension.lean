import NetSettle.Proofs.Program.Layout

/-!
# Data that goes on

What a decoder says of data stands when more bytes follow it. Fields that were read are read again,
and a value that was refused is refused again. A field that was missing lacks as many bytes less as
there are more, and is read once none is lacking: from then on the fault, if there is one, lies
behind it. So a program that is cut off somewhere is not taken for another: what is left of it is
read to the cut, and either the cut falls between two operations or it is found.
-/
namespace NetSettle

open Faulting

def Cursor.extend (c : Cursor) (more : List UInt8) : Cursor := { c with data := c.data ++ more }

theorem Cursor.not_atEnd_extend {c : Cursor} (h : ¬ c.atEnd = true) (more : List UInt8) :
    ¬ (c.extend more).atEnd = true := by
  have hlt : c.offset < c.data.length := Nat.not_le.1 fun hle => h (decide_eq_true hle)
  rw [atEnd, decide_eq_true_iff, extend, List.length_append]
  exact Nat.not_le.2 (Nat.lt_add_right _ hlt)

namespace Decoder

variable {α β : Type}

/-- A result that lies at a place or behind it: a cursor that has come so far, or a fault that finds
the data cut short no earlier. -/
def NotBefore (place : Nat) : EStateM.Result Fault Cursor α → Prop
  | .ok _ c => place ≤ c.offset
  | .error fault _ => ∀ offset, fault.cutAt? = some offset → place ≤ offset

theorem NotBefore.mono {place place' : Nat} {r : EStateM.Result Fault Cursor α}
    (h : NotBefore place r) (hle : place' ≤ place) : NotBefore place' r := by
  cases r with
  | ok a c => exact hle.trans h
  | error fault c => exact fun offset hoffset => hle.trans (h offset hoffset)

inductive Resumed (more : List UInt8) :
    EStateM.Result Fault Cursor α → EStateM.Result Fault Cursor α → Prop
  | ok (a : α) (c : Cursor) : Resumed more (.ok a c) (.ok a (c.extend more))
  | refused {fault : Fault} {c c' : Cursor} (h : fault.Uncut) :
    Resumed more (.error fault c) (.error fault c')
  | short {offset needed : Nat} {c c' : Cursor} (h : more.length < needed) :
    Resumed more (.error (.truncatedProgram offset needed) c)
      (.error (.truncatedProgram offset (needed - more.length)) c')
  | filled {offset needed : Nat} {c : Cursor} {r : EStateM.Result Fault Cursor α}
    (h : needed ≤ more.length) (hbehind : NotBefore (offset + 1) r) :
    Resumed more (.error (.truncatedProgram offset needed) c) r

structure Steady (read : Decoder α) : Prop where
  onward : ∀ c, NotBefore c.offset (read.run c)
  resumed : ∀ more c, Resumed more (read.run c) (read.run (c.extend more))

theorem steady_pure (a : α) : Steady (pure a : Decoder α) where
  onward := fun _ => le_rfl
  resumed := fun _ c => .ok a c

theorem steady_lift {x : Except Fault α} (h : Refuses Fault.Uncut x) :
    Steady (monadLift x : Decoder α) := by
  cases x with
  | ok a => exact steady_pure a
  | error fault =>
    have hfault : fault.cutAt? = none := h fault rfl
    refine ⟨fun c offset hoffset => ?_, fun more c => .refused hfault⟩
    rw [hfault] at hoffset
    cases hoffset

theorem resumed_take {width : Nat} (hpos : 0 < width) (more : List UInt8) (c : Cursor) :
    Resumed more ((Cursor.take width).run c) ((Cursor.take width).run (c.extend more)) := by
  rw [take_run, take_run, field, field]
  simp only [Cursor.extend, List.length_append]
  by_cases hwrap : 2 ^ 64 ≤ c.offset + width
  · simp only [if_pos hwrap]
    exact .refused rfl
  simp only [if_neg hwrap]
  by_cases hcut : c.data.length < c.offset + width
  · rw [if_pos hcut]
    by_cases hshort : c.data.length + more.length < c.offset + width
    · have hneeded : c.offset + width - (c.data.length + more.length) =
          c.offset + width - c.data.length - more.length := Nat.sub_add_eq ..
      rw [if_pos hshort, hneeded]
      exact .short (by omega)
    · rw [if_neg hshort]
      exact .filled (by omega) (Nat.add_le_add_left hpos _)
  · have hsame : ((c.data ++ more).drop c.offset).take width =
        (c.data.drop c.offset).take width := by
      rw [List.drop_append_of_le_length (by omega), List.take_append_of_le_length]
      rw [List.length_drop]
      omega
    rw [if_neg hcut, if_neg (by omega), hsame]
    exact .ok _ (c.skip width)

theorem steady_take {width : Nat} (hpos : 0 < width) : Steady (Cursor.take width) where
  onward := fun c => by
    rw [take_run]
    cases hfield : field c.data c.offset width with
    | ok bytes => exact Nat.le_add_right ..
    | error fault =>
      intro offset hoffset
      unfold field at hfield
      split at hfield
      · cases hfield
        cases hoffset
      · split at hfield
        · cases hfield
          cases hoffset
          exact le_rfl
        · cases hfield
  resumed := resumed_take hpos

theorem NotBefore.bind {place : Nat} {read : Decoder α} {next : α → Decoder β} {c : Cursor}
    (h : NotBefore place (read.run c)) (hnext : ∀ a, Steady (next a)) :
    NotBefore place ((read >>= next).run c) := by
  rw [EStateM.run_bind]
  generalize read.run c = r at h
  cases r with
  | ok a c' => exact ((hnext a).onward c').mono h
  | error fault c' => exact h

theorem Steady.bind {read : Decoder α} {next : α → Decoder β} (hread : Steady read)
    (hnext : ∀ a, Steady (next a)) : Steady (read >>= next) where
  onward := fun c => (hread.onward c).bind hnext
  resumed := fun more c => by
    have h := hread.resumed more c
    rw [EStateM.run_bind, EStateM.run_bind]
    generalize read.run c = r at h
    generalize read.run (c.extend more) = r' at h
    cases h with
    | ok a c => exact (hnext a).resumed more c
    | refused h => exact .refused h
    | short h => exact .short h
    | filled h hbehind =>
      refine .filled h ?_
      cases r' with
      | ok a c' => exact ((hnext a).onward c').mono hbehind
      | error fault c' => exact hbehind

theorem LaidOut.steady {ws : List Nat} {read : Decoder α} (h : LaidOut Fault.Uncut ws read) :
    Steady read := by
  induction h with
  | pure a => exact steady_pure a
  | lift h => exact steady_lift h
  | take hpos _ => exact steady_take hpos
  | bind _ _ ih ih' => exact ih.bind ih'

theorem steady_decode : Steady Operation.decode :=
  laidOut_readUInt8.steady.bind fun opcode =>
    (steady_lift (refuses_ofOpcode (fun _ => rfl) opcode)).bind fun kind =>
      (laidOut_decodeFields (Q := Fault.Uncut) rfl opcode kind).steady

end Decoder

open Decoder (NotBefore)

/-- What becomes of a decoding when the data goes on. If it had come to the end, there may be more
behind; what that is, is open. -/
inductive Continued {α : Type} (more : List UInt8) (prior : α → α → Prop) :
    Except Fault α → Except Fault α → Prop
  | read {a : α} {x : Except Fault α} (h : ∀ a', x = .ok a' → prior a a') :
    Continued more prior (.ok a) x
  | refused {fault : Fault} (h : fault.Uncut) :
    Continued more prior (.error fault) (.error fault)
  | short {offset needed : Nat} (h : more.length < needed) :
    Continued more prior (.error (.truncatedProgram offset needed))
      (.error (.truncatedProgram offset (needed - more.length)))
  | filled {offset needed : Nat} {x : Except Fault α} (h : needed ≤ more.length)
    (hbehind : ∀ needed', x ≠ .error (.truncatedProgram offset needed')) :
    Continued more prior (.error (.truncatedProgram offset needed)) x

theorem Continued.map {α β : Type} {more : List UInt8} {prior : α → α → Prop}
    {prior' : β → β → Prop} {x x' : Except Fault α} {f : α → β} (h : Continued more prior x x')
    (hf : ∀ a a', prior a a' → prior' (f a) (f a')) :
    Continued more prior' (x.map f) (x'.map f) := by
  cases h with
  | read h =>
    refine .read fun b hb => ?_
    cases x' with
    | ok a' =>
      cases hb
      exact hf _ a' (h a' rfl)
    | error fault => cases hb
  | refused h => exact .refused h
  | short h => exact .short h
  | filled h hbehind => exact .filled h fun needed' hx => hbehind needed' (map_eq_error.1 hx)

theorem decodeOperations_notBefore {c : Cursor} {offset needed : Nat}
    (h : decodeOperations c = .error (.truncatedProgram offset needed)) : c.offset ≤ offset := by
  induction c using Cursor.reading_induction with
  | ended c hend =>
    rw [decodeOperations_atEnd hend] at h
    cases h
  | failed c fault c' hend hdecode =>
    have honward := Decoder.steady_decode.onward c
    rw [decodeOperations_failed hend hdecode] at h
    cases h
    rw [hdecode] at honward
    exact honward offset rfl
  | decoded c op next hend hdecode ih =>
    have honward := Decoder.steady_decode.onward c
    rw [decodeOperations_decoded hend hdecode, map_eq_error] at h
    rw [hdecode] at honward
    exact le_trans honward (ih h)

theorem decodeOperations_behind {c : Cursor} {place : Nat} (hend : ¬ c.atEnd = true)
    (hbehind : NotBefore (place + 1) (Operation.decode.run c)) (needed : Nat) :
    decodeOperations c ≠ .error (.truncatedProgram place needed) := by
  intro h
  cases hdecode : Operation.decode.run c with
  | ok op next =>
    rw [hdecode] at hbehind
    rw [decodeOperations_decoded hend hdecode, map_eq_error] at h
    exact Nat.not_succ_le_self place (le_trans hbehind (decodeOperations_notBefore h))
  | error fault c' =>
    rw [hdecode] at hbehind
    rw [decodeOperations_failed hend hdecode] at h
    cases h
    exact Nat.not_succ_le_self place (hbehind place rfl)

theorem decodeOperations_continued (more : List UInt8) (c : Cursor) :
    Continued more (· <+: ·) (decodeOperations c) (decodeOperations (c.extend more)) := by
  induction c using Cursor.reading_induction with
  | ended c hend =>
    rw [decodeOperations_atEnd hend]
    exact .read fun ops _ => List.nil_prefix
  | failed c fault c' hend hdecode =>
    have hend' := Cursor.not_atEnd_extend hend more
    have hresumed := Decoder.steady_decode.resumed more c
    rw [hdecode] at hresumed
    rw [decodeOperations_failed hend hdecode]
    generalize hdecode' : Operation.decode.run (c.extend more) = r at hresumed
    cases hresumed with
    | refused h =>
      rw [decodeOperations_failed hend' hdecode']
      exact .refused h
    | short h =>
      rw [decodeOperations_failed hend' hdecode']
      exact .short h
    | filled h hbehind =>
      rw [← hdecode'] at hbehind
      exact .filled h (decodeOperations_behind hend' hbehind)
  | decoded c op next hend hdecode ih =>
    have hend' := Cursor.not_atEnd_extend hend more
    have hresumed := Decoder.steady_decode.resumed more c
    rw [hdecode] at hresumed
    generalize hdecode' : Operation.decode.run (c.extend more) = r at hresumed
    cases hresumed with
    | ok =>
      rw [decodeOperations_decoded hend hdecode, decodeOperations_decoded hend' hdecode']
      exact ih.map fun ops ops' h => List.cons_prefix_cons.2 ⟨rfl, h⟩

namespace Program

structure Begins (q p : Program) : Prop where
  capacity : q.ledgerCapacity = p.ledgerCapacity
  operations : q.operations <+: p.operations

theorem decode_eq (data : List UInt8) : decode data =
    match Cursor.readUInt16.run (.start data) with
    | .error fault _ => .error fault
    | .ok capacity c => (decodeOperations c).map (Program.mk capacity) := by
  unfold decode
  cases Cursor.readUInt16.run (.start data) with
  | error fault c => rfl
  | ok capacity c =>
    cases decodeOperations c <;> rfl

theorem decode_continued (data more : List UInt8) :
    Continued more Begins (decode data) (decode (data ++ more)) := by
  have hresumed := Decoder.laidOut_readUInt16.steady.resumed more (.start data)
  rw [decode_eq, decode_eq]
  change Continued more Begins _ (match Cursor.readUInt16.run ((Cursor.start data).extend more) with
    | .error fault _ => .error fault
    | .ok capacity c => (decodeOperations c).map (Program.mk capacity))
  generalize Cursor.readUInt16.run (.start data) = r at hresumed
  generalize Cursor.readUInt16.run ((Cursor.start data).extend more) = r' at hresumed
  cases hresumed with
  | ok capacity c =>
    exact (decodeOperations_continued more c).map fun ops ops' h => ⟨rfl, h⟩
  | refused h => exact .refused h
  | short h => exact .short h
  | @filled offset _ _ _ h hbehind =>
    refine .filled h fun needed' => ?_
    cases r' with
    | error fault c' =>
      rintro ⟨⟩
      exact Nat.not_succ_le_self offset (hbehind offset rfl)
    | ok capacity c' =>
      intro hcut
      exact Nat.not_succ_le_self offset
        (le_trans hbehind (decodeOperations_notBefore (map_eq_error.1 hcut)))

/-- Faults of decoding stand when the data goes on. A refused token or opcode stays refused. A
program that is cut short is cut in a field of its layout; the fault says how many bytes the field
lacks, less when there are more, and none once they are there. And what is left of a program that is
cut off is the beginning of it, or is found to be cut short. -/
theorem decode_stable (data more : List UInt8) (hdata : (data ++ more).length < 2 ^ 63) :
    (∀ fault, (fault = .zeroToken ∨ ∃ opcode, fault = .unknownOperation opcode) →
      decode data = .error fault → decode (data ++ more) = .error fault) ∧
    (∀ offset needed, decode data = .error (.truncatedProgram offset needed) →
      offset ≤ data.length ∧ 1 ≤ needed ∧
      (∃ width, FieldAt (widths data) offset width ∧ offset + width = data.length + needed) ∧
      (more.length < needed →
        decode (data ++ more) = .error (.truncatedProgram offset (needed - more.length))) ∧
      (needed ≤ more.length →
        ∀ needed', decode (data ++ more) ≠ .error (.truncatedProgram offset needed'))) ∧
    ∀ p, decode (data ++ more) = .ok p →
      (∃ q, decode data = .ok q ∧ q.Begins p) ∨
        ∃ offset needed, decode data = .error (.truncatedProgram offset needed) := by
  have hcontinued := decode_continued data more
  refine ⟨fun fault hkind hfault => ?_, fun offset needed hcut => ?_, fun p hp => ?_⟩
  · have hnone : fault.cutAt? = none := by
      obtain rfl | ⟨opcode, rfl⟩ := hkind <;> rfl
    rw [hfault] at hcontinued
    generalize decode (data ++ more) = x at hcontinued
    cases hcontinued with
    | refused => rfl
    | short => cases hnone
    | filled => cases hnone
  · have hshorter : data.length < 2 ^ 63 := by
      rw [List.length_append] at hdata
      omega
    obtain ⟨hle, hpos, start, width, hfield, hoffset, hwidth⟩ := decode_lacks hshorter hcut
    have hstart : offset = start := hoffset.trans (Nat.zero_add start)
    refine ⟨hle, hpos, ⟨width, hstart ▸ hfield, hwidth⟩, ?_⟩
    rw [hcut] at hcontinued
    generalize decode (data ++ more) = x at hcontinued
    cases hcontinued with
    | refused h => cases h
    | short h => exact ⟨fun _ => rfl, fun hle => absurd h (Nat.not_lt.2 hle)⟩
    | filled h hbehind => exact ⟨fun hlt => absurd h (Nat.not_le.2 hlt), fun _ => hbehind⟩
  · rw [hp] at hcontinued
    generalize decode data = x at hcontinued
    cases hcontinued with
    | read h => exact .inl ⟨_, rfl, h p rfl⟩
    | filled => exact .inr ⟨_, _, rfl⟩

def brokenDeposit : List UInt8 := (encode ⟨1, [.deposit 1 5]⟩).take 30

theorem decode_stable_brokenDeposit :
    decode brokenDeposit = .error (.truncatedProgram 23 9) ∧
      (∃ width, FieldAt (widths brokenDeposit) 23 width ∧ 23 + width = brokenDeposit.length + 9) ∧
      decode (brokenDeposit ++ [0, 0, 0, 0]) = .error (.truncatedProgram 23 5) := by
  have hcut : decode brokenDeposit = .error (.truncatedProgram 23 9) := by decide +kernel
  obtain ⟨-, hcuts, -⟩ := decode_stable brokenDeposit [0, 0, 0, 0] (by decide +kernel)
  obtain ⟨-, -, hfield, hshort, -⟩ := hcuts 23 9 hcut
  exact ⟨hcut, hfield, hshort (by decide)⟩

end Program

end NetSettle
