import NetSettle.Proofs.Program.Reading
import Mathlib.Tactic.Simproc.ExistsAndEq

/-!
# The grammar of programs

A byte string spells a program if it is the program's encoding, but for flags in the opcodes that
the kinds of the operations do not use. `Program.decode` accepts just these byte strings, and it
reads each operation from the bytes that spell it. So the encoding of a program is read back, and no
byte but an opcode can be changed without changing what is read.
-/
namespace NetSettle

open Decoder

instance decidableForallByte {P : UInt8 → Prop} [DecidablePred P] : Decidable (∀ b, P b) :=
  decidable_of_iff (∀ bits : BitVec 8, P ⟨bits⟩)
    ⟨fun h b => h b.toBitVec, fun h bits => h ⟨bits⟩⟩

namespace OpKind

/-- The flags that a kind does not use: bits 2 and 3 for a swap and the settlements, bits 1 to 3
for adding and removing liquidity, and all four bits for the other kinds. -/
def unusedFlags (kind : OpKind) : UInt8 := 0x0f &&& ~~~kind.usedFlags

theorem ofOpcode_eq_ok {opcode : UInt8} {kind : OpKind} : ofOpcode opcode = .ok kind ↔
    opcode &&& ~~~kind.unusedFlags = kind.opcode (opcode &&& kind.usedFlags) := by
  revert opcode
  cases kind <;> decide +kernel

theorem opcode_and_used (kind : OpKind) (flags : UInt8) :
    kind.opcode flags &&& kind.usedFlags = flags &&& kind.usedFlags := by
  revert flags
  cases kind <;> decide +kernel

theorem opcode_and_not_unused (kind : OpKind) (flags : UInt8) :
    kind.opcode flags &&& ~~~kind.unusedFlags = kind.opcode (flags &&& kind.usedFlags) := by
  revert flags
  cases kind <;> decide +kernel

theorem not_unused_and_used (kind : OpKind) :
    ~~~kind.unusedFlags &&& kind.usedFlags = kind.usedFlags := by
  cases kind <;> decide

theorem opcode_eq_iff {kind : OpKind} {opcode flags : UInt8}
    (hflags : flags &&& kind.usedFlags = flags) :
    opcode &&& ~~~kind.unusedFlags = kind.opcode flags ↔
      ofOpcode opcode = .ok kind ∧ flags = opcode &&& kind.usedFlags := by
  rw [ofOpcode_eq_ok]
  constructor
  · intro h
    have hused : flags = opcode &&& kind.usedFlags := by
      rw [← hflags, ← opcode_and_used, ← h, UInt8.and_assoc, not_unused_and_used]
    exact ⟨hused ▸ h, hused⟩
  · rintro ⟨h, rfl⟩
    exact h

end OpKind

theorem flagBits_eq_and_three {first second : Bool} {opcode : UInt8} :
    flagBits first second = opcode &&& 0b11 ↔ first = flag0 opcode ∧ second = flag1 opcode := by
  revert opcode first second
  decide +kernel

theorem flagBits_eq_and_one {first : Bool} {opcode : UInt8} :
    flagBits first false = opcode &&& 0b01 ↔ first = flag0 opcode := by
  revert opcode first
  decide +kernel

theorem flagBits_and (first second : Bool) :
    flagBits first second &&& 0b11 = flagBits first second := by
  revert first second
  decide

theorem flagBits_false_and (first : Bool) :
    flagBits first false &&& 0b01 = flagBits first false := by
  revert first
  decide

namespace Operation

def TokensNonzero (op : Operation) : Prop := ∀ t ∈ op.tokens, t ≠ 0

instance (op : Operation) : Decidable op.TokensNonzero := List.decidableBAll _ op.tokens

theorem flags_and_used (op : Operation) : op.flags &&& op.kind.usedFlags = op.flags := by
  cases op with
  | swap | sendAll | receiveAll | receiveAllViaCallback | markReceived => exact flagBits_and _ _
  | addLiquidity | removeLiquidity => exact flagBits_false_and _
  | deposit | withdraw | permit | claimFees => exact UInt8.and_zero

def SpellsFields (opcode : UInt8) (kind : OpKind) (op : Operation) (bytes : List UInt8) : Prop :=
  op.kind = kind ∧ op.TokensNonzero ∧ op.flags = opcode &&& kind.usedFlags ∧
    bytes = op.encodeFields

def amountBytes : SwapAmount → List UInt8
  | .exact amount => Amount.bytes amount
  | .fromLedger => []

theorem encodeFields_swap (token0 token1 : Address) (direction : Direction) (amount : SwapAmount) :
    (swap token0 token1 direction amount).encodeFields =
      Address.bytes token0 ++ Address.bytes token1 ++ amountBytes amount := by
  cases amount with
  | exact amount => rfl
  | fromLedger => exact (List.append_nil _).symm

theorem accepts_input (token0 token1 : Address) (direction : Direction) (taken : Bool) :
    Accepts (if taken then return swap token0 token1 direction .fromLedger
      else return swap token0 token1 direction (.exact (← Cursor.readAmount)))
      fun op bytes => ∃ amount, op = swap token0 token1 direction amount ∧
        decide (amount = .fromLedger) = taken ∧ bytes = amountBytes amount := by
  cases taken with
  | true =>
    refine (Accepts.pure _).congr fun op bytes => ?_
    simp [amountBytes]
  | false =>
    refine (accepts_readAmount.bind fun amount => .pure _).congr fun op bytes => ?_
    constructor
    · rintro ⟨amount, first, rest, hfirst, ⟨rfl, rfl⟩, rfl⟩
      exact ⟨.exact amount, rfl, rfl, (List.append_nil first).trans hfirst⟩
    · rintro ⟨amount, rfl, htaken, hbytes⟩
      cases amount with
      | exact amount => exact ⟨amount, bytes, [], hbytes, ⟨rfl, rfl⟩, (List.append_nil bytes).symm⟩
      | fromLedger => cases htaken

theorem eq_ofFlag {direction : Direction} {flag : Bool} :
    direction = .ofFlag flag ↔ direction.isZeroForOne = flag := by
  constructor
  · rintro rfl
    exact Direction.isZeroForOne_ofFlag flag
  · rintro rfl
    exact (Direction.ofFlag_isZeroForOne direction).symm

theorem accepts_swapFields (opcode : UInt8) :
    Accepts (decodeFields opcode .swap) (SpellsFields opcode .swap) := by
  refine (accepts_readToken.bind fun _ => accepts_readToken.bind fun _ =>
    accepts_input _ _ _ _).congr fun op bytes => ?_
  simp only [exists_and_left, and_assoc, existsAndEq]
  cases op <;> simp [SpellsFields, TokensNonzero, kind, tokens, flags, OpKind.usedFlags,
    flagBits_eq_and_three, encodeFields_swap, eq_ofFlag, and_assoc]

theorem signature_eq_mk {g : Signature} {v : UInt8} {r s : Word} :
    g = ⟨v, r, s⟩ ↔ v = g.v ∧ r = g.r ∧ s = g.s := by
  cases g
  rw [Signature.mk.injEq, eq_comm, @eq_comm _ r, @eq_comm _ s]

theorem isSome_eq_not {shares : Option Amount} {flag : Bool} :
    shares.isSome = (!flag) ↔ shares.isNone = flag := by
  rw [← Option.not_isSome, Bool.not_eq_eq_eq_not]

/-- The decoder of each kind accepts the fields of that kind, one after the other. What it accepts
in all is a chain of values, each with its bytes; for each operation the chain is either that of its
own fields, or that of another kind and impossible. -/
theorem accepts_decodeFields (opcode : UInt8) (kind : OpKind) :
    Accepts (decodeFields opcode kind) (SpellsFields opcode kind) := by
  cases kind
  case swap => exact accepts_swapFields opcode
  case' addLiquidity =>
    refine (accepts_readToken.bind fun _ => accepts_readToken.bind fun _ =>
      accepts_readAddress.bind fun _ => accepts_readAmount.bind fun _ =>
      accepts_readAmount.bind fun _ => (accepts_readOptional _).bind fun _ => .pure _).congr ?_
  case' removeLiquidity =>
    refine (accepts_readToken.bind fun _ => accepts_readToken.bind fun _ =>
      (accepts_readOptional _).bind fun _ => .pure _).congr ?_
  case' sendAll =>
    refine (accepts_readToken.bind fun _ => accepts_readAddress.bind fun _ =>
      (accepts_bounds _).bind fun _ => .pure _).congr ?_
  case' receiveAll | receiveAllViaCallback | markReceived =>
    refine (accepts_readToken.bind fun _ => (accepts_bounds _).bind fun _ => .pure _).congr ?_
  case' deposit =>
    refine (accepts_readToken.bind fun _ => accepts_readAmount.bind fun _ => .pure _).congr ?_
  case' withdraw =>
    refine (accepts_readToken.bind fun _ => accepts_readAddress.bind fun _ =>
      accepts_readAmount.bind fun _ => .pure _).congr ?_
  case' permit =>
    refine (accepts_readToken.bind fun _ => accepts_readAmount.bind fun _ =>
      accepts_readUInt64.bind fun _ => accepts_readUInt8.bind fun _ =>
      accepts_readWord.bind fun _ => accepts_readWord.bind fun _ => .pure _).congr ?_
  case' claimFees =>
    refine (accepts_readToken.bind fun _ => accepts_readToken.bind fun _ => .pure _).congr ?_
  all_goals
    intro op bytes
    simp only [exists_and_left, and_assoc, existsAndEq, List.append_nil, true_and]
    cases op <;> simp [SpellsFields, TokensNonzero, kind, tokens, flags, Bounds.flags,
      OpKind.usedFlags, flagBits_eq_and_three, flagBits_eq_and_one, encodeFields, signature_eq_mk,
      isSome_eq_not, and_assoc]

def Spells (op : Operation) (bytes : List UInt8) : Prop :=
  ∃ opcode, opcode &&& ~~~op.kind.unusedFlags = op.opcode ∧ bytes = opcode :: op.encodeFields

theorem accepts_decode : Accepts decode fun op bytes => op.TokensNonzero ∧ op.Spells bytes := by
  refine (accepts_readUInt8.bind fun opcode => (Accepts.lift _).bind fun kind =>
    accepts_decodeFields opcode kind).congr fun op bytes => ?_
  constructor
  · rintro ⟨opcode, _, _, rfl, ⟨_, _, _, ⟨hkind, rfl⟩, ⟨rfl, htokens, hflags, rfl⟩, rfl⟩, rfl⟩
    refine ⟨htokens, opcode, (OpKind.opcode_eq_iff op.flags_and_used).2 ⟨hkind, hflags⟩, ?_⟩
    rw [bigEndian_one]
    rfl
  · rintro ⟨htokens, opcode, hopcode, rfl⟩
    obtain ⟨hkind, hflags⟩ := (OpKind.opcode_eq_iff op.flags_and_used).1 hopcode
    exact ⟨opcode, _, _, rfl, ⟨op.kind, [], _, ⟨hkind, rfl⟩, ⟨rfl, htokens, hflags, rfl⟩, rfl⟩,
      by rw [bigEndian_one]; rfl⟩

theorem spells_encode (op : Operation) : op.Spells op.encode := by
  refine ⟨op.opcode, ?_, rfl⟩
  rw [opcode, OpKind.opcode_and_not_unused, flags_and_used]

theorem Spells.length_eq {op : Operation} {bytes : List UInt8} (h : op.Spells bytes) :
    bytes.length = op.encode.length := by
  obtain ⟨opcode, -, rfl⟩ := h
  rfl

theorem decode_run {op : Operation} {bytes : List UInt8} (htokens : op.TokensNonzero)
    (h : op.Spells bytes) (before after : List UInt8)
    (hlength : (before ++ bytes ++ after).length < 2 ^ 63) :
    decode.run ⟨before ++ bytes ++ after, before.length⟩ =
      .ok op ⟨before ++ bytes ++ after, before.length + bytes.length⟩ := by
  refine (accepts_decode _ _ _ hlength).2 ⟨bytes, ⟨htokens, h⟩, ?_, rfl⟩
  rw [Cursor.Ahead, List.append_assoc, List.drop_left]
  exact ⟨after, rfl⟩

end Operation

namespace Program

def TokensNonzero (p : Program) : Prop := ∀ op ∈ p.operations, op.TokensNonzero

instance (p : Program) : Decidable p.TokensNonzero := List.decidableBAll _ p.operations

def Spells (p : Program) (data : List UInt8) : Prop :=
  ∃ parts, List.Forall₂ Operation.Spells p.operations parts ∧
    data = bigEndian 2 p.ledgerCapacity.toNat ++ parts.flatten

end Program

theorem decodeOperations_eq_ok {c : Cursor} (hc : c.data.length < 2 ^ 63) {ops : List Operation} :
    decodeOperations c = .ok ops ↔ (∀ op ∈ ops, op.TokensNonzero) ∧
      ∃ parts, List.Forall₂ Operation.Spells ops parts ∧
        c.data.drop c.offset = parts.flatten := by
  induction ops generalizing c with
  | nil =>
    constructor
    · intro h
      have hend := of_decide_eq_true (decodeOperations_eq_nil h)
      exact ⟨by simp, [], .nil, List.drop_eq_nil_of_le hend⟩
    · rintro ⟨-, _, ⟨⟩, hdrop⟩
      exact decodeOperations_atEnd (decide_eq_true (List.drop_eq_nil_iff.1 hdrop))
  | cons op ops ih =>
    rw [List.forall_mem_cons]
    constructor
    · intro h
      obtain ⟨-, next, hdecode, hrest⟩ := decodeOperations_eq_cons h
      obtain ⟨bytes, ⟨htokens, hspells⟩, hahead, rfl⟩ :=
        (Operation.accepts_decode c _ _ hc).1 hdecode
      obtain ⟨hall, parts, hparts, hdrop⟩ := (ih (c := c.skip bytes.length) hc).1 hrest
      exact ⟨⟨htokens, hall⟩, bytes :: parts, .cons hspells hparts,
        hahead.drop_eq.trans (congrArg _ hdrop)⟩
    · rintro ⟨⟨htokens, hall⟩, _, hforall, hdrop⟩
      cases hforall with
      | @cons _ bytes _ parts hspells hparts =>
        have hahead : c.Ahead bytes := ⟨parts.flatten, hdrop.symm⟩
        have hpos : 0 < bytes.length := by
          rw [hspells.length_eq]
          exact Nat.succ_pos _
        have hend : ¬ c.atEnd = true := by
          have hle := hahead.le hpos
          rw [Cursor.atEnd, decide_eq_true_eq]
          omega
        refine decodeOperations_cons hend ((Operation.accepts_decode c op _ hc).2
          ⟨bytes, ⟨htokens, hspells⟩, hahead, rfl⟩)
          ((ih (c := c.skip bytes.length) hc).2 ⟨hall, parts, hparts, ?_⟩)
        exact List.append_cancel_left (hahead.drop_eq.symm.trans hdrop)

namespace Program

theorem decode_eq_ok_iff {data : List UInt8} (hdata : data.length < 2 ^ 63) {p : Program} :
    decode data = .ok p ↔ p.TokensNonzero ∧ p.Spells data := by
  rw [decode_eq_ok]
  constructor
  · rintro ⟨cursor, hread, hops⟩
    obtain ⟨_, rfl, hahead, rfl⟩ := (accepts_readUInt16 _ _ _ hdata).1 hread
    obtain ⟨htokens, parts, hparts, hdrop⟩ :=
      (decodeOperations_eq_ok (c := (Cursor.start data).skip _) hdata).1 hops
    exact ⟨htokens, parts, hparts, hahead.drop_eq.trans (congrArg _ hdrop)⟩
  · rintro ⟨htokens, parts, hparts, rfl⟩
    have hahead : (Cursor.start (bigEndian 2 p.ledgerCapacity.toNat ++ parts.flatten)).Ahead
        (bigEndian 2 p.ledgerCapacity.toNat) := ⟨parts.flatten, rfl⟩
    refine ⟨_, (accepts_readUInt16 _ _ _ hdata).2 ⟨_, rfl, hahead, rfl⟩,
      (decodeOperations_eq_ok (c := (Cursor.start _).skip _) hdata).2 ⟨htokens, parts, hparts, ?_⟩⟩
    exact List.append_cancel_left hahead.drop_eq.symm

theorem spells_encode (p : Program) : p.Spells p.encode := by
  refine ⟨p.operations.map Operation.encode, ?_, ?_⟩
  · exact List.forall₂_map_right_iff.2 (List.forall₂_same.2 fun op _ => op.spells_encode)
  · rw [encode, List.flatMap_def]

theorem length_flatten {ops : List Operation} {parts : List (List UInt8)}
    (h : List.Forall₂ Operation.Spells ops parts) :
    parts.flatten.length = (ops.flatMap Operation.encode).length := by
  induction h with
  | nil => rfl
  | cons hspells _ ih =>
    rw [List.flatten_cons, List.flatMap_cons, List.length_append, List.length_append, ih,
      hspells.length_eq]

theorem Spells.length_eq {p : Program} {data : List UInt8} (h : p.Spells data) :
    data.length = p.encode.length := by
  obtain ⟨parts, hparts, rfl⟩ := h
  rw [encode, List.length_append, List.length_append, length_flatten hparts]

theorem Spells.decode_run {p : Program} {data : List UInt8} (h : p.Spells data)
    (htokens : p.TokensNonzero) (hdata : data.length < 2 ^ 63) {before after : List Operation}
    {op : Operation} (hops : p.operations = before ++ op :: after) :
    Operation.decode.run ⟨data, 2 + (before.flatMap Operation.encode).length⟩ = .ok op
      ⟨data, 2 + (before.flatMap Operation.encode).length + op.encode.length⟩ := by
  obtain ⟨parts, hparts, hsplit⟩ := h
  rw [hops] at hparts
  have hbefore : List.Forall₂ Operation.Spells before (parts.take before.length) :=
    (List.forall₂_take_append _ _ _ hparts.flip).flip
  have hrest : List.Forall₂ Operation.Spells (op :: after) (parts.drop before.length) :=
    (List.forall₂_drop_append _ _ _ hparts.flip).flip
  have hjoin := List.take_append_drop before.length parts
  generalize parts.take before.length = first at hbefore hjoin
  generalize parts.drop before.length = rest at hrest hjoin
  subst hjoin
  cases hrest with
  | @cons _ bytes _ rest hspells _ =>
    have hlength : (bigEndian 2 p.ledgerCapacity.toNat ++ first.flatten).length =
        2 + (before.flatMap Operation.encode).length := by
      rw [List.length_append, length_bigEndian, length_flatten hbefore]
    have hbytes : data = bigEndian 2 p.ledgerCapacity.toNat ++ first.flatten ++ bytes ++
        rest.flatten := by
      rw [hsplit]
      simp only [List.flatten_append, List.flatten_cons, List.append_assoc]
    have hop : op.TokensNonzero := htokens op (by simp [hops])
    rw [← hlength, ← hspells.length_eq, hbytes]
    exact Operation.decode_run hop hspells _ _ (hbytes ▸ hdata)

/-- Reading undoes writing, for programs and for an operation anywhere in a byte string. -/
theorem decode_undoes_encode :
    (∀ p : Program, p.TokensNonzero → p.encode.length < 2 ^ 63 → decode p.encode = .ok p) ∧
      ∀ (before after : List UInt8) (op : Operation), op.TokensNonzero →
        (before ++ op.encode ++ after).length < 2 ^ 63 →
        Operation.decode.run ⟨before ++ op.encode ++ after, before.length⟩ =
          .ok op ⟨before ++ op.encode ++ after, before.length + op.encode.length⟩ := by
  constructor
  · intro p htokens hlength
    exact (decode_eq_ok_iff hlength).2 ⟨htokens, p.spells_encode⟩
  · intro before after op htokens hlength
    exact Operation.decode_run htokens op.spells_encode before after hlength

def sampleProgram : Program where
  ledgerCapacity := 3
  operations := [.swap 1 2 .oneForZero .fromLedger, .addLiquidity 1 2 7 10 20 (some 5),
    .removeLiquidity 1 2 none, .sendAll 1 7 ⟨some 3, none⟩, .permit 2 9 60 ⟨27, 1, 1⟩]

def sampleDeposit : Operation := .deposit 1 5

theorem decode_undoes_encode_sample :
    decode sampleProgram.encode = .ok sampleProgram ∧
      Operation.decode.run ⟨[0xff] ++ sampleDeposit.encode ++ [0x00], [0xff].length⟩ =
        .ok sampleDeposit ⟨[0xff] ++ sampleDeposit.encode ++ [0x00],
          [0xff].length + sampleDeposit.encode.length⟩ := by
  obtain ⟨hprogram, hoperation⟩ := decode_undoes_encode
  exact ⟨hprogram sampleProgram (by decide +kernel) (by decide +kernel),
    hoperation [0xff] [0x00] sampleDeposit (by decide +kernel) (by decide +kernel)⟩

/-- A byte string is read as a program exactly if it is the encoding of the program, but for flags
that the kinds of its operations do not use. All of it is read, each operation from the bytes that
it is written in. -/
theorem decode_accepts_spellings :
    (∀ (data : List UInt8) (p : Program), data.length < 2 ^ 63 → decode data = .ok p →
      p.TokensNonzero ∧ p.encode.length = data.length ∧ p.Spells data ∧
        (∀ before op after, p.operations = before ++ op :: after →
          Operation.decode.run ⟨data, 2 + (before.flatMap Operation.encode).length⟩ = .ok op
            ⟨data, 2 + (before.flatMap Operation.encode).length + op.encode.length⟩) ∧
        decode p.encode = .ok p) ∧
      ∀ (data : List UInt8) (p : Program), data.length < 2 ^ 63 → p.TokensNonzero →
        p.Spells data → decode data = .ok p := by
  constructor
  · intro data p hdata hdecode
    obtain ⟨htokens, hspells⟩ := (decode_eq_ok_iff hdata).1 hdecode
    refine ⟨htokens, hspells.length_eq.symm, hspells,
      fun before op after hops => hspells.decode_run htokens hdata hops, ?_⟩
    exact (decode_eq_ok_iff (hspells.length_eq ▸ hdata)).2 ⟨htokens, p.spells_encode⟩
  · intro data p hdata htokens hspells
    exact (decode_eq_ok_iff hdata).2 ⟨htokens, hspells⟩

def sampleSale : Operation := .swap 1 2 .zeroForOne .fromLedger

def strayBytes : List UInt8 :=
  [0, 2] ++ (0x0f :: sampleSale.encodeFields) ++ (0x7f :: sampleDeposit.encodeFields)

theorem decode_accepts_spellings_stray :
    strayBytes ≠ encode ⟨2, [sampleSale, sampleDeposit]⟩ ∧
      decode strayBytes = .ok ⟨2, [sampleSale, sampleDeposit]⟩ ∧
      Operation.decode.run ⟨strayBytes, 2 + ([sampleSale].flatMap Operation.encode).length⟩ =
        .ok sampleDeposit ⟨strayBytes,
          2 + ([sampleSale].flatMap Operation.encode).length + sampleDeposit.encode.length⟩ := by
  obtain ⟨hsound, hcomplete⟩ := decode_accepts_spellings
  have hspells : Spells ⟨2, [sampleSale, sampleDeposit]⟩ strayBytes :=
    ⟨[0x0f :: sampleSale.encodeFields, 0x7f :: sampleDeposit.encodeFields],
      .cons ⟨0x0f, by decide, rfl⟩ (.cons ⟨0x7f, by decide, rfl⟩ .nil), rfl⟩
  have hdecode := hcomplete strayBytes _ (by decide +kernel) (by decide +kernel) hspells
  obtain ⟨-, -, -, hruns, -⟩ := hsound strayBytes _ (by decide +kernel) hdecode
  exact ⟨by decide +kernel, hdecode, hruns [sampleSale] sampleDeposit [] rfl⟩

end Program

end NetSettle
