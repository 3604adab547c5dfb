import NetSettle.Fault
import NetSettle.Program.BigEndian

/-!
# Fields of a program

A program is a run of big-endian fields with no padding. A field is read at a 64-bit offset, and a
field that runs past the end is a fault that says how many bytes are missing, never a read of what
lies beyond. A cursor reads one field after the other: it only moves forward, and a read that fails
leaves it where it was.
-/
namespace NetSettle

def field (data : List UInt8) (offset width : Nat) : Except Fault (List UInt8) :=
  if 2 ^ 64 ≤ offset + width then .error .overflow
  else if data.length < offset + width then
    .error (.truncatedProgram offset (offset + width - data.length))
  else .ok ((data.drop offset).take width)

def maxFieldWidth : Nat := 32

structure Cursor where
  data : List UInt8
  offset : Nat
  deriving DecidableEq, Repr

abbrev Decoder := Faulting Cursor

namespace Cursor

def start (data : List UInt8) : Cursor := ⟨data, 0⟩

def remaining (c : Cursor) : Nat := c.data.length - c.offset

def atEnd (c : Cursor) : Bool := c.data.length ≤ c.offset

def take (width : Nat) : Decoder (List UInt8) := do
  let c ← get
  let bytes ← field c.data c.offset width
  set { c with offset := c.offset + width }
  return bytes

def readUInt (width : Nat) : Decoder Word := do
  if width = 0 ∨ maxFieldWidth < width then
    throw (.invalidFieldWidth width)
  return BitVec.ofNat 256 (ofBigEndian (← take width))

def readUInt8 : Decoder UInt8 := return UInt8.ofNat (ofBigEndian (← take 1))

def readUInt16 : Decoder UInt16 := return UInt16.ofNat (ofBigEndian (← take 2))

def readUInt64 : Decoder UInt64 := return UInt64.ofNat (ofBigEndian (← take 8))

def readAmount : Decoder Amount := return BitVec.ofNat 128 (ofBigEndian (← take 16))

def readAddress : Decoder Address := return BitVec.ofNat 160 (ofBigEndian (← take 20))

def readWord : Decoder Word := return BitVec.ofNat 256 (ofBigEndian (← take 32))

def readAt {α : Type} (read : Decoder α) (data : List UInt8) (offset : Nat) : Except Fault α :=
  match read.run ⟨data, offset⟩ with
  | .ok a _ => .ok a
  | .error fault _ => .error fault

end Cursor

def Decoder.endOf {α : Type} (read : Decoder α) (c : Cursor) : Cursor :=
  match read.run c with
  | .ok _ c' => c'
  | .error _ c' => c'

def Decoder.Forward {α : Type} (read : Decoder α) : Prop :=
  ∀ c, (endOf read c).data = c.data ∧ c.offset ≤ (endOf read c).offset

namespace Decoder.Forward

variable {α β : Type}

theorem pure (a : α) : Forward (pure a : Decoder α) := fun _ => ⟨rfl, Nat.le_refl _⟩

theorem lift (x : Except Fault α) : Forward (monadLift x : Decoder α) := by
  intro c
  cases x <;> exact ⟨rfl, Nat.le_refl _⟩

theorem bind {x : Decoder α} {f : α → Decoder β} (hx : Forward x) (hf : ∀ a, Forward (f a)) :
    Forward (x >>= f) := by
  intro c
  have h := hx c
  have hb : endOf (x >>= f) c =
      match x.run c with
      | .ok a c' => endOf (f a) c'
      | .error _ c' => c' := by
    simp only [endOf, EStateM.run, Bind.bind, EStateM.bind]
    cases x c <;> rfl
  rw [hb]
  unfold endOf at h
  split
  · rename_i a c' hr
    rw [hr] at h
    exact ⟨(hf a c').1.trans h.1, Nat.le_trans h.2 (hf a c').2⟩
  · rename_i c' hr
    rw [hr] at h
    exact h

theorem ite {p : Prop} [Decidable p] {x y : Decoder α} (hx : Forward x) (hy : Forward y) :
    Forward (if p then x else y) := by
  split
  · exact hx
  · exact hy

theorem take (width : Nat) : Forward (Cursor.take width) := by
  intro c
  unfold endOf Cursor.take
  simp only [EStateM.run_bind, EStateM.run_get]
  cases h : field c.data c.offset width with
  | error fault => exact ⟨rfl, Nat.le_refl _⟩
  | ok bytes => exact ⟨rfl, Nat.le_add_right _ _⟩

theorem readUInt8 : Forward Cursor.readUInt8 := bind (take 1) fun _ => pure _
theorem readUInt64 : Forward Cursor.readUInt64 := bind (take 8) fun _ => pure _
theorem readAmount : Forward Cursor.readAmount := bind (take 16) fun _ => pure _
theorem readAddress : Forward Cursor.readAddress := bind (take 20) fun _ => pure _
theorem readWord : Forward Cursor.readWord := bind (take 32) fun _ => pure _

end Decoder.Forward

theorem Cursor.readUInt8_offset {c c' : Cursor} {b : UInt8} (h : readUInt8.run c = .ok b c') :
    c'.offset = c.offset + 1 ∧ c'.data = c.data ∧ c.offset < c.data.length := by
  unfold readUInt8 take at h
  simp only [EStateM.run_bind, EStateM.run_get] at h
  cases hf : field c.data c.offset 1 with
  | error fault =>
    rw [hf] at h
    cases h
  | ok bytes =>
    rw [hf] at h
    unfold field at hf
    split at hf
    · cases hf
    · split at hf
      · cases hf
      · cases h
        exact ⟨rfl, rfl, by omega⟩

end NetSettle
