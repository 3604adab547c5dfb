import NetSettle.Proofs.Ending
import NetSettle.Proofs.Program.Layout
import NetSettle.Proofs.Tracking

/-!
# How decoders are put together

Every decoder of a program is put together from fields, none wider than a word, and from pure
computations that refuse what they do not know. What holds of fields and of refusals, and is passed
on from decoders to a decoder that runs one after the other, therefore holds of all of them: it need
not be shown for one kind of operation after the other.
-/
namespace NetSettle

inductive Decoder.Assembled (Q : Fault → Prop) : {α : Type} → Decoder α → Prop
  | pure {α : Type} (a : α) : Assembled Q (pure a : Decoder α)
  | lift {α : Type} {x : Except Fault α} (h : Refuses Q x) :
    Assembled Q (monadLift x : Decoder α)
  | take (width : Nat) (h : width ≤ maxFieldWidth) : Assembled Q (Cursor.take width)
  | bind {α β : Type} {read : Decoder α} {next : α → Decoder β} (hread : Assembled Q read)
    (hnext : ∀ a, Assembled Q (next a)) : Assembled Q (read >>= next)

section

open Decoder

variable {Q : Fault → Prop} {α : Type}

theorem Decoder.LaidOut.assembled {ws : List Nat} {read : Decoder α} (h : LaidOut Q ws read) :
    Assembled Q read := by
  induction h with
  | pure a => exact .pure a
  | lift h => exact .lift h
  | take _ hle => exact .take _ hle
  | bind _ _ ih ih' => exact .bind ih ih'

theorem assembled_readUInt16 : Assembled Q Cursor.readUInt16 := laidOut_readUInt16.assembled

theorem assembled_decode (hzero : Q .zeroToken) (hopcode : ∀ opcode, Q (.unknownOperation opcode)) :
    Assembled Q Operation.decode :=
  .bind laidOut_readUInt8.assembled fun opcode => .bind (.lift (refuses_ofOpcode hopcode opcode))
    fun kind => (laidOut_decodeFields hzero opcode kind).assembled

end

theorem Decoder.Assembled.raises {Q : Fault → Prop} {α : Type} {read : Decoder α}
    (h : Assembled Q read) (htake : ∀ width, Raises Q (Cursor.take width)) : Raises Q read := by
  induction h with
  | pure a => exact .pure a
  | lift hx => exact .lift hx
  | take width => exact htake width
  | bind _ _ ih ih' => exact .bind ih ih'

theorem Decoder.Assembled.ends {Q : Fault → Prop} {P : Cursor → Prop} {α : Type}
    {read : Decoder α} (h : Assembled Q read)
    (htake : ∀ width ≤ maxFieldWidth, Ends P (Cursor.take width) P fun fault _ => Q fault) :
    Ends P read P fun fault _ => Q fault := by
  induction h with
  | pure a => exact .pure a
  | lift hx => exact .lift (hx.mono fun _ hfault _ _ => hfault)
  | take width hwidth => exact htake width hwidth
  | bind _ _ ih ih' => exact .bind ih ih'

structure Cursor.Alike (c d : Cursor) : Prop where
  offset : d.offset = c.offset
  length : d.data.length = c.data.length
  ahead : d.data.drop d.offset = c.data.drop c.offset

theorem Cursor.Alike.atEnd {c d : Cursor} (h : Alike c d) : d.atEnd = c.atEnd := by
  rw [Cursor.atEnd, Cursor.atEnd, h.offset, h.length]

theorem tracks_take (width : Nat) :
    Tracks Cursor.Alike (Cursor.take width) (Cursor.take width) := by
  intro c d h
  have hfield : field d.data d.offset width = field c.data c.offset width := by
    rw [field, field, h.ahead, h.offset, h.length]
  simp only [Cursor.take, EStateM.run_bind, EStateM.run_get, hfield]
  cases field c.data c.offset width with
  | error fault => exact .error fault h
  | ok bytes =>
    refine .ok bytes ⟨congrArg (· + width) h.offset, h.length, ?_⟩
    change d.data.drop (d.offset + width) = c.data.drop (c.offset + width)
    rw [← List.drop_drop, ← List.drop_drop, h.ahead]

/-- A decoder sees nothing of the data but where it is, how much there is, and what is ahead. -/
theorem Decoder.Assembled.tracks {Q : Fault → Prop} {α : Type} {read : Decoder α}
    (h : Assembled Q read) : Tracks Cursor.Alike read read := by
  induction h with
  | pure a => exact .pure a
  | lift => exact .lift _
  | take width => exact tracks_take width
  | bind _ _ ih ih' => exact .bind ih ih'

end NetSettle
