import NetSettle.Program.Codec
import NetSettle.Proofs.Arithmetic
import NetSettle.Proofs.Program.BigEndian

/-!
# What decoders accept

Values are spelled in bytes. A decoder accepts a spelling if it returns a value exactly when the
bytes ahead of its cursor spell that value, and steps over these bytes and no others. A decoder that
is put together from parts accepts what its parts accept, one after the other.
-/
namespace NetSettle

open Faulting

namespace Cursor

def Ahead (c : Cursor) (bytes : List UInt8) : Prop := bytes <+: c.data.drop c.offset

def skip (c : Cursor) (n : Nat) : Cursor := { c with offset := c.offset + n }

theorem ahead_nil (c : Cursor) : c.Ahead [] := List.nil_prefix

theorem skip_skip (c : Cursor) (m n : Nat) : (c.skip m).skip n = c.skip (m + n) :=
  congrArg (Cursor.mk c.data) (Nat.add_assoc ..)

theorem ahead_append {c : Cursor} {first rest : List UInt8} :
    c.Ahead (first ++ rest) ↔ c.Ahead first ∧ (c.skip first.length).Ahead rest := by
  have hdrop : c.data.drop (c.offset + first.length) =
      (c.data.drop c.offset).drop first.length := List.drop_drop.symm
  rw [Ahead, Ahead, Ahead, skip, hdrop]
  generalize c.data.drop c.offset = data
  constructor
  · rintro ⟨after, rfl⟩
    rw [List.append_assoc, List.drop_left]
    exact ⟨⟨_, rfl⟩, ⟨_, rfl⟩⟩
  · rintro ⟨⟨after, rfl⟩, hrest⟩
    rw [List.drop_left] at hrest
    exact (List.prefix_append_right_inj first).2 hrest

theorem Ahead.drop_eq {c : Cursor} {bytes : List UInt8} (h : c.Ahead bytes) :
    c.data.drop c.offset = bytes ++ c.data.drop (c.offset + bytes.length) := by
  obtain ⟨after, hafter⟩ := h
  rw [← List.drop_drop, ← hafter, List.drop_left]

theorem Ahead.le {c : Cursor} {bytes : List UInt8} (h : c.Ahead bytes) (hpos : 0 < bytes.length) :
    c.offset + bytes.length ≤ c.data.length := by
  have hlength := h.length_le
  rw [List.length_drop] at hlength
  omega

end Cursor

abbrev Spelling (α : Type) := α → List UInt8 → Prop

/-- A decoder of exactly what is spelled, in data that is no longer than memory. -/
def Decoder.Accepts {α : Type} (read : Decoder α) (spells : Spelling α) : Prop :=
  ∀ (c : Cursor) (a : α) (c' : Cursor), c.data.length < 2 ^ 63 →
    (read.run c = .ok a c' ↔
      ∃ bytes, spells a bytes ∧ c.Ahead bytes ∧ c' = c.skip bytes.length)

namespace Decoder.Accepts

variable {α β : Type} {S T : Spelling α}

theorem congr {read : Decoder α} (h : read.Accepts S)
    (hspells : ∀ a bytes, S a bytes ↔ T a bytes) : read.Accepts T := by
  intro c a c' hc
  simp only [h c a c' hc, hspells]

theorem pure (a : α) : Accepts (pure a : Decoder α) fun b bytes => b = a ∧ bytes = [] := by
  intro c b c' _
  rw [run_pure_eq_ok]
  constructor
  · rintro ⟨rfl, rfl⟩
    exact ⟨[], ⟨rfl, rfl⟩, Cursor.ahead_nil _, rfl⟩
  · rintro ⟨_, ⟨rfl, rfl⟩, -, rfl⟩
    exact ⟨rfl, rfl⟩

theorem lift (x : Except Fault α) :
    Accepts (monadLift x : Decoder α) fun a bytes => x = .ok a ∧ bytes = [] := by
  cases x with
  | error fault =>
    intro c a c' _
    constructor
    · rintro ⟨⟩
    · rintro ⟨_, ⟨⟨⟩, _⟩, _⟩
  | ok a =>
    refine (Accepts.pure a).congr fun b bytes => ?_
    rw [Except.ok.injEq, eq_comm]

theorem bind {read : Decoder α} {next : α → Decoder β} {R : α → Spelling β}
    (hread : read.Accepts S) (hnext : ∀ a, (next a).Accepts (R a)) :
    Accepts (read >>= next) fun b bytes =>
      ∃ a first rest, S a first ∧ R a b rest ∧ bytes = first ++ rest := by
  intro c b c' hc
  rw [run_bind_eq_ok]
  constructor
  · rintro ⟨a, c₁, hfirst, hrest⟩
    obtain ⟨first, hS, hahead, rfl⟩ := (hread c a c₁ hc).1 hfirst
    obtain ⟨rest, hR, hahead', rfl⟩ := (hnext a (c.skip first.length) b c' hc).1 hrest
    refine ⟨first ++ rest, ⟨a, first, rest, hS, hR, rfl⟩,
      Cursor.ahead_append.2 ⟨hahead, hahead'⟩, ?_⟩
    rw [Cursor.skip_skip, List.length_append]
  · rintro ⟨_, ⟨a, first, rest, hS, hR, rfl⟩, hahead, rfl⟩
    obtain ⟨hahead, hahead'⟩ := Cursor.ahead_append.1 hahead
    refine ⟨a, c.skip first.length, (hread c a _ hc).2 ⟨first, hS, hahead, rfl⟩,
      (hnext a (c.skip first.length) b _ hc).2 ⟨rest, hR, hahead', ?_⟩⟩
    rw [Cursor.skip_skip, List.length_append]

theorem ite {p : Prop} [Decidable p] {read read' : Decoder α} (h : read.Accepts S)
    (h' : read'.Accepts T) :
    Accepts (if p then read else read') fun a bytes => if p then S a bytes else T a bytes := by
  by_cases hp : p
  · simpa only [if_pos hp] using h
  · simpa only [if_neg hp] using h'

end Decoder.Accepts

section Fields

open Decoder

variable {α : Type}

theorem field_eq_ok {data bytes : List UInt8} {offset width : Nat} (hdata : data.length < 2 ^ 63)
    (hwidth : 0 < width) : field data offset width = .ok bytes ↔
      bytes.length = width ∧ bytes <+: data.drop offset := by
  rw [field]
  constructor
  · intro h
    split at h
    · cases h
    · split at h
      · cases h
      · cases h
        refine ⟨?_, List.take_prefix ..⟩
        rw [List.length_take, List.length_drop]
        omega
  · rintro ⟨rfl, hprefix⟩
    have hle : offset + bytes.length ≤ data.length :=
      Cursor.Ahead.le (c := ⟨data, offset⟩) hprefix hwidth
    rw [if_neg (by omega), if_neg (by omega), ← List.prefix_iff_eq_take.1 hprefix]

theorem accepts_take {width : Nat} (hwidth : 0 < width) :
    Accepts (Cursor.take width) fun a bytes => bytes = a ∧ a.length = width := by
  intro c a c' hc
  constructor
  · intro h
    simp only [Cursor.take, EStateM.run_bind, EStateM.run_get] at h
    cases hfield : field c.data c.offset width with
    | error fault =>
      rw [hfield] at h
      cases h
    | ok bytes =>
      rw [hfield] at h
      cases h
      obtain ⟨hlength, hahead⟩ := (field_eq_ok hc hwidth).1 hfield
      exact ⟨a, ⟨rfl, hlength⟩, hahead, by rw [hlength]; rfl⟩
  · rintro ⟨_, ⟨rfl, rfl⟩, hahead, rfl⟩
    simp only [Cursor.take, EStateM.run_bind, EStateM.run_get,
      (field_eq_ok hc hwidth).2 ⟨rfl, hahead⟩]
    rfl

theorem accepts_fitting {width : Nat} (hwidth : 0 < width) {ofNat : Nat → α} {toNat : α → Nat}
    (hof : ∀ a, ofNat (toNat a) = a) (hto : ∀ n < 256 ^ width, toNat (ofNat n) = n) :
    Accepts (do return ofNat (ofBigEndian (← Cursor.take width)))
      fun a bytes => toNat a < 256 ^ width ∧ bytes = bigEndian width (toNat a) := by
  refine ((accepts_take hwidth).bind fun bytes => .pure _).congr fun a bytes => ?_
  constructor
  · rintro ⟨_, _, _, ⟨rfl, rfl⟩, ⟨rfl, rfl⟩, rfl⟩
    rw [hto _ (ofBigEndian_lt _), bigEndian_ofBigEndian, List.append_nil]
    exact ⟨ofBigEndian_lt _, rfl⟩
  · rintro ⟨hlt, rfl⟩
    refine ⟨_, _, [], ⟨rfl, length_bigEndian ..⟩, ⟨?_, rfl⟩, (List.append_nil _).symm⟩
    rw [ofBigEndian_bigEndian_of_lt hlt, hof]

theorem accepts_number {width : Nat} (hwidth : 0 < width) {ofNat : Nat → α} {toNat : α → Nat}
    (hlt : ∀ a, toNat a < 256 ^ width) (hof : ∀ a, ofNat (toNat a) = a)
    (hto : ∀ n < 256 ^ width, toNat (ofNat n) = n) :
    Accepts (do return ofNat (ofBigEndian (← Cursor.take width)))
      fun a bytes => bytes = bigEndian width (toNat a) :=
  (accepts_fitting hwidth hof hto).congr fun a _ => and_iff_right (hlt a)

theorem accepts_bits {width bits : Nat} (hwidth : 0 < width) (hbits : 2 ^ bits = 256 ^ width) :
    Accepts (do return BitVec.ofNat bits (ofBigEndian (← Cursor.take width)))
      fun a bytes => bytes = bigEndian width a.toNat :=
  accepts_number hwidth (fun a => hbits ▸ a.isLt)
    (fun a => by rw [BitVec.ofNat_toNat, BitVec.setWidth_eq])
    fun n hn => (BitVec.toNat_ofNat ..).trans (Nat.mod_eq_of_lt (hbits ▸ hn))

theorem accepts_readUInt8 :
    Accepts Cursor.readUInt8 fun a bytes => bytes = bigEndian 1 a.toNat :=
  accepts_number Nat.one_pos UInt8.toNat_lt (fun _ => UInt8.ofNat_toNat)
    fun _ h => UInt8.toNat_ofNat_of_lt' h

theorem accepts_readUInt16 :
    Accepts Cursor.readUInt16 fun a bytes => bytes = bigEndian 2 a.toNat :=
  accepts_number Nat.two_pos UInt16.toNat_lt (fun _ => UInt16.ofNat_toNat)
    fun _ h => UInt16.toNat_ofNat_of_lt' h

theorem accepts_readUInt64 :
    Accepts Cursor.readUInt64 fun a bytes => bytes = bigEndian 8 a.toNat :=
  accepts_number (by decide) UInt64.toNat_lt (fun _ => UInt64.ofNat_toNat)
    fun _ h => UInt64.toNat_ofNat_of_lt' h

theorem accepts_readAmount : Accepts Cursor.readAmount fun a bytes => bytes = Amount.bytes a :=
  accepts_bits (by decide) (by decide)

theorem accepts_readAddress : Accepts Cursor.readAddress fun a bytes => bytes = Address.bytes a :=
  accepts_bits (by decide) (by decide)

theorem accepts_readWord : Accepts Cursor.readWord fun a bytes => bytes = Word.bytes a :=
  accepts_bits (by decide) (by decide)

theorem accepts_readToken :
    Accepts readToken fun token bytes => token ≠ 0 ∧ bytes = Address.bytes token := by
  refine (accepts_readAddress.bind fun token => .lift _).congr fun token bytes => ?_
  constructor
  · rintro ⟨address, first, rest, hfirst, ⟨htoken, rfl⟩, rfl⟩
    obtain ⟨rfl, hne⟩ := requireToken_eq_ok.1 htoken
    exact ⟨hne, (List.append_nil first).trans hfirst⟩
  · rintro ⟨hne, hbytes⟩
    exact ⟨token, bytes, [], hbytes, ⟨requireToken_eq_ok.2 ⟨rfl, hne⟩, rfl⟩,
      (List.append_nil bytes).symm⟩

theorem accepts_readOptional (present : Bool) : Accepts (readOptional present)
    fun a bytes => a.isSome = present ∧ bytes = optionalBytes a := by
  refine (Accepts.ite (accepts_readAmount.bind fun _ => .pure _) (.pure _)).congr fun a bytes => ?_
  cases present with
  | true =>
    constructor
    · rintro ⟨amount, first, rest, hfirst, ⟨rfl, rfl⟩, rfl⟩
      exact ⟨rfl, (List.append_nil first).trans hfirst⟩
    · rintro ⟨hsome, hbytes⟩
      obtain ⟨amount, rfl⟩ := Option.isSome_iff_exists.1 hsome
      exact ⟨amount, bytes, [], hbytes, ⟨rfl, rfl⟩, (List.append_nil bytes).symm⟩
  | false =>
    constructor
    · rintro ⟨rfl, rfl⟩
      exact ⟨rfl, rfl⟩
    · rintro ⟨hnone, rfl⟩
      obtain rfl := Option.not_isSome_iff_eq_none.1 (Bool.not_eq_true _ ▸ hnone)
      exact ⟨rfl, rfl⟩

theorem accepts_bounds (opcode : UInt8) : Accepts (Bounds.decode opcode) fun b bytes =>
    b.min.isSome = flag0 opcode ∧ b.max.isSome = flag1 opcode ∧ bytes = b.encode := by
  refine ((accepts_readOptional _).bind fun min => (accepts_readOptional _).bind fun max =>
    .pure _).congr fun b bytes => ?_
  constructor
  · rintro ⟨min, _, _, ⟨hmin, rfl⟩, ⟨max, _, _, ⟨hmax, rfl⟩, ⟨rfl, rfl⟩, rfl⟩, rfl⟩
    rw [List.append_nil]
    exact ⟨hmin, hmax, rfl⟩
  · rintro ⟨hmin, hmax, rfl⟩
    exact ⟨b.min, _, _, ⟨hmin, rfl⟩, ⟨b.max, _, [], ⟨hmax, rfl⟩, ⟨rfl, rfl⟩,
      (List.append_nil _).symm⟩, rfl⟩

end Fields

theorem decodeOperations_atEnd {c : Cursor} (h : c.atEnd = true) : decodeOperations c = .ok [] := by
  rw [decodeOperations, if_pos h]

theorem decodeOperations_eq_nil {c : Cursor} (h : decodeOperations c = .ok []) :
    c.atEnd = true := by
  rw [decodeOperations] at h
  split at h
  · assumption
  · split at h
    · cases h
    · rw [bind_eq_ok] at h
      obtain ⟨rest, -, h⟩ := h
      cases h

theorem decodeOperations_eq_cons {c : Cursor} {op : Operation} {ops : List Operation}
    (h : decodeOperations c = .ok (op :: ops)) :
    ¬ c.atEnd = true ∧ ∃ next, Operation.decode.run c = .ok op next ∧
      decodeOperations next = .ok ops := by
  rw [decodeOperations] at h
  split at h
  · cases h
  · rename_i hend
    split at h
    · cases h
    · rename_i op' next hdecode
      rw [bind_eq_ok] at h
      obtain ⟨rest, hrest, h⟩ := h
      cases h
      exact ⟨hend, next, hdecode, hrest⟩

theorem decodeOperations_failed {c c' : Cursor} {fault : Fault} (hend : ¬ c.atEnd = true)
    (h : Operation.decode.run c = .error fault c') : decodeOperations c = .error fault := by
  rw [decodeOperations, if_neg hend]
  split
  · rename_i hdecode
    rw [h] at hdecode
    cases hdecode
    rfl
  · rename_i hdecode
    rw [h] at hdecode
    cases hdecode

theorem decodeOperations_decoded {c next : Cursor} {op : Operation} (hend : ¬ c.atEnd = true)
    (h : Operation.decode.run c = .ok op next) :
    decodeOperations c = (decodeOperations next).map (op :: ·) := by
  rw [decodeOperations, if_neg hend]
  split
  · rename_i hdecode
    rw [h] at hdecode
    cases hdecode
  · rename_i hdecode
    rw [h] at hdecode
    cases hdecode
    cases decodeOperations next <;> rfl

theorem decodeOperations_cons {c next : Cursor} {op : Operation} {ops : List Operation}
    (hend : ¬ c.atEnd = true) (hdecode : Operation.decode.run c = .ok op next)
    (h : decodeOperations next = .ok ops) : decodeOperations c = .ok (op :: ops) := by
  rw [decodeOperations_decoded hend hdecode, h]
  rfl

/-- What holds where nothing is left or where no operation can be read, and before an operation if
it holds behind it, holds everywhere. The induction is on the bytes that are left to be read. -/
theorem Cursor.reading_induction {motive : Cursor → Prop}
    (ended : ∀ c, c.atEnd = true → motive c)
    (failed : ∀ c fault c', ¬ c.atEnd = true → Operation.decode.run c = .error fault c' → motive c)
    (decoded : ∀ c op next, ¬ c.atEnd = true → Operation.decode.run c = .ok op next →
      motive next → motive c)
    (c : Cursor) : motive c := by
  induction hr : c.remaining using Nat.strong_induction_on generalizing c with
  | _ r ih =>
    by_cases hend : c.atEnd = true
    · exact ended c hend
    · cases hdecode : Operation.decode.run c with
      | error fault c' => exact failed c fault c' hend hdecode
      | ok op next =>
        have hlt := Operation.remaining_lt_of_decode hdecode
        exact decoded c op next hend hdecode (ih _ (hr ▸ hlt) next rfl)

/-- The operations that can be read before the end or before the first fault. -/
def readableOperations (c : Cursor) : List Operation :=
  if c.atEnd then []
  else
    match _h : Operation.decode.run c with
    | .error _ _ => []
    | .ok op next => op :: readableOperations next
termination_by c.remaining
decreasing_by exact Operation.remaining_lt_of_decode (by assumption)

theorem readableOperations_atEnd {c : Cursor} (h : c.atEnd = true) : readableOperations c = [] := by
  rw [readableOperations, if_pos h]

theorem readableOperations_failed {c c' : Cursor} {fault : Fault} (hend : ¬ c.atEnd = true)
    (h : Operation.decode.run c = .error fault c') : readableOperations c = [] := by
  rw [readableOperations, if_neg hend]
  split
  · rfl
  · rename_i hdecode
    rw [h] at hdecode
    cases hdecode

theorem readableOperations_decoded {c next : Cursor} {op : Operation} (hend : ¬ c.atEnd = true)
    (h : Operation.decode.run c = .ok op next) :
    readableOperations c = op :: readableOperations next := by
  rw [readableOperations, if_neg hend]
  split
  · rename_i hdecode
    rw [h] at hdecode
    cases hdecode
  · rename_i hdecode
    rw [h] at hdecode
    cases hdecode
    rfl

theorem length_readableOperations_le (c : Cursor) :
    (readableOperations c).length ≤ c.remaining := by
  induction c using Cursor.reading_induction with
  | ended c hend =>
    rw [readableOperations_atEnd hend]
    exact Nat.zero_le _
  | failed c fault _ hend hdecode =>
    rw [readableOperations_failed hend hdecode]
    exact Nat.zero_le _
  | decoded c op next hend hdecode ih =>
    rw [readableOperations_decoded hend hdecode, List.length_cons]
    exact ih.trans_lt (Operation.remaining_lt_of_decode hdecode)

theorem readableOperations_eq {c : Cursor} {ops : List Operation}
    (h : decodeOperations c = .ok ops) : readableOperations c = ops := by
  induction ops generalizing c with
  | nil => exact readableOperations_atEnd (decodeOperations_eq_nil h)
  | cons op ops ih =>
    obtain ⟨hend, next, hdecode, hrest⟩ := decodeOperations_eq_cons h
    rw [readableOperations_decoded hend hdecode, ih hrest]

theorem Program.decode_eq_ok {data : List UInt8} {p : Program} :
    Program.decode data = .ok p ↔ ∃ cursor,
      Cursor.readUInt16.run (.start data) = .ok p.ledgerCapacity cursor ∧
        decodeOperations cursor = .ok p.operations := by
  unfold Program.decode
  cases Cursor.readUInt16.run (.start data) with
  | error fault cursor => simp
  | ok capacity cursor =>
    simp only [bind_eq_ok, pure_eq_ok]
    constructor
    · rintro ⟨ops, hops, rfl⟩
      exact ⟨cursor, rfl, hops⟩
    · rintro ⟨_, hread, hops⟩
      cases hread
      exact ⟨p.operations, hops, rfl⟩

end NetSettle
