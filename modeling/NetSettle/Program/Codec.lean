import NetSettle.Program.Cursor
import NetSettle.Program.Operation

/-!
# The packed form of programs

A program is two bytes of ledger capacity and then its operations, back to back. An operation is
its opcode byte and then its fields; an optional field is there only when its flag is set. Flags
that a kind does not use are ignored. `Operation.decode` is the only reader of operations, so what
runs and what is listed is read by the same rules.
-/
namespace NetSettle

def Amount.bytes (a : Amount) : List UInt8 := bigEndian 16 a.toNat

def Address.bytes (a : Address) : List UInt8 := bigEndian 20 a.toNat

def Word.bytes (w : Word) : List UInt8 := bigEndian 32 w.toNat

def readToken : Decoder Address := do
  let token ← Cursor.readAddress
  requireToken token

def readOptional (present : Bool) : Decoder (Option Amount) := do
  if present then
    return some (← Cursor.readAmount)
  else
    return none

def optionalBytes (a : Option Amount) : List UInt8 := (a.map Amount.bytes).getD []

def Bounds.decode (opcode : UInt8) : Decoder Bounds := do
  let min ← readOptional (flag0 opcode)
  let max ← readOptional (flag1 opcode)
  return ⟨min, max⟩

def Bounds.encode (b : Bounds) : List UInt8 := optionalBytes b.min ++ optionalBytes b.max

namespace Operation

def decodeFields (opcode : UInt8) : OpKind → Decoder Operation
  | .swap => do
    let token0 ← readToken
    let token1 ← readToken
    let direction := Direction.ofFlag (flag0 opcode)
    if flag1 opcode then
      return .swap token0 token1 direction .fromLedger
    else
      return .swap token0 token1 direction (.exact (← Cursor.readAmount))
  | .addLiquidity => do
    let token0 ← readToken
    let token1 ← readToken
    let recipient ← Cursor.readAddress
    let max0 ← Cursor.readAmount
    let max1 ← Cursor.readAmount
    let minShares ← readOptional (flag0 opcode)
    return .addLiquidity token0 token1 recipient max0 max1 minShares
  | .removeLiquidity => do
    let token0 ← readToken
    let token1 ← readToken
    let shares ← readOptional (!flag0 opcode)
    return .removeLiquidity token0 token1 shares
  | .sendAll => do
    let token ← readToken
    let recipient ← Cursor.readAddress
    return .sendAll token recipient (← Bounds.decode opcode)
  | .receiveAll => do
    let token ← readToken
    return .receiveAll token (← Bounds.decode opcode)
  | .receiveAllViaCallback => do
    let token ← readToken
    return .receiveAllViaCallback token (← Bounds.decode opcode)
  | .markReceived => do
    let token ← readToken
    return .markReceived token (← Bounds.decode opcode)
  | .deposit => do
    let token ← readToken
    return .deposit token (← Cursor.readAmount)
  | .withdraw => do
    let token ← readToken
    let recipient ← Cursor.readAddress
    return .withdraw token recipient (← Cursor.readAmount)
  | .permit => do
    let token ← readToken
    let amount ← Cursor.readAmount
    let deadline ← Cursor.readUInt64
    let v ← Cursor.readUInt8
    let r ← Cursor.readWord
    let s ← Cursor.readWord
    return .permit token amount deadline ⟨v, r, s⟩
  | .claimFees => do
    let token0 ← readToken
    let token1 ← readToken
    return .claimFees token0 token1

def decode : Decoder Operation := do
  let opcode ← Cursor.readUInt8
  let kind ← OpKind.ofOpcode opcode
  decodeFields opcode kind

def encodeFields : Operation → List UInt8
  | swap token0 token1 _ (.exact amount) =>
    Address.bytes token0 ++ Address.bytes token1 ++ Amount.bytes amount
  | swap token0 token1 _ .fromLedger => Address.bytes token0 ++ Address.bytes token1
  | addLiquidity token0 token1 recipient max0 max1 minShares =>
    Address.bytes token0 ++ Address.bytes token1 ++ Address.bytes recipient ++ Amount.bytes max0 ++
      Amount.bytes max1 ++ optionalBytes minShares
  | removeLiquidity token0 token1 shares =>
    Address.bytes token0 ++ Address.bytes token1 ++ optionalBytes shares
  | sendAll token recipient bounds =>
    Address.bytes token ++ Address.bytes recipient ++ bounds.encode
  | receiveAll token bounds | receiveAllViaCallback token bounds | markReceived token bounds =>
    Address.bytes token ++ bounds.encode
  | deposit token amount => Address.bytes token ++ Amount.bytes amount
  | withdraw token recipient amount =>
    Address.bytes token ++ Address.bytes recipient ++ Amount.bytes amount
  | permit token amount deadline signature =>
    Address.bytes token ++ Amount.bytes amount ++ bigEndian 8 deadline.toNat ++
      bigEndian 1 signature.v.toNat ++ Word.bytes signature.r ++ Word.bytes signature.s
  | claimFees token0 token1 => Address.bytes token0 ++ Address.bytes token1

def encode (op : Operation) : List UInt8 := op.opcode :: op.encodeFields

open Decoder in
theorem forward_readToken : Forward readToken :=
  .bind .readAddress fun _ => .lift _

open Decoder in
theorem forward_readOptional (present : Bool) : Forward (readOptional present) :=
  .ite (.bind .readAmount fun _ => .pure _) (.pure _)

open Decoder in
theorem forward_bounds (opcode : UInt8) : Forward (Bounds.decode opcode) :=
  .bind (forward_readOptional _) fun _ => .bind (forward_readOptional _) fun _ => .pure _

open Decoder in
theorem forward_decodeFields (opcode : UInt8) (kind : OpKind) :
    Forward (decodeFields opcode kind) := by
  cases kind with
  | swap =>
    exact .bind forward_readToken fun _ => .bind forward_readToken fun _ =>
      .ite (.pure _) (.bind .readAmount fun _ => .pure _)
  | addLiquidity =>
    exact .bind forward_readToken fun _ => .bind forward_readToken fun _ =>
      .bind .readAddress fun _ => .bind .readAmount fun _ => .bind .readAmount fun _ =>
      .bind (forward_readOptional _) fun _ => .pure _
  | removeLiquidity =>
    exact .bind forward_readToken fun _ => .bind forward_readToken fun _ =>
      .bind (forward_readOptional _) fun _ => .pure _
  | sendAll =>
    exact .bind forward_readToken fun _ => .bind .readAddress fun _ =>
      .bind (forward_bounds _) fun _ => .pure _
  | receiveAll | receiveAllViaCallback | markReceived =>
    exact .bind forward_readToken fun _ => .bind (forward_bounds _) fun _ => .pure _
  | deposit => exact .bind forward_readToken fun _ => .bind .readAmount fun _ => .pure _
  | withdraw =>
    exact .bind forward_readToken fun _ => .bind .readAddress fun _ =>
      .bind .readAmount fun _ => .pure _
  | permit =>
    exact .bind forward_readToken fun _ => .bind .readAmount fun _ => .bind .readUInt64 fun _ =>
      .bind .readUInt8 fun _ => .bind .readWord fun _ => .bind .readWord fun _ => .pure _
  | claimFees =>
    exact .bind forward_readToken fun _ => .bind forward_readToken fun _ => .pure _

theorem remaining_lt_of_decode {c c' : Cursor} {op : Operation} (h : decode.run c = .ok op c') :
    c'.remaining < c.remaining := by
  have hd : decode.run c =
      match Cursor.readUInt8.run c with
      | .ok opcode c₁ =>
        (monadLift (OpKind.ofOpcode opcode) >>= decodeFields opcode : Decoder Operation).run c₁
      | .error fault c₁ => .error fault c₁ := by
    simp only [decode, EStateM.run, Bind.bind, EStateM.bind]
    cases Cursor.readUInt8 c <;> rfl
  rw [hd] at h
  cases hr : Cursor.readUInt8.run c with
  | error fault c₁ =>
    rw [hr] at h
    cases h
  | ok opcode c₁ =>
    rw [hr] at h
    change (monadLift (OpKind.ofOpcode opcode) >>= decodeFields opcode : Decoder Operation).run c₁
      = .ok op c' at h
    have hb := Cursor.readUInt8_offset hr
    have hf := (Decoder.Forward.bind (.lift (OpKind.ofOpcode opcode))
      (forward_decodeFields opcode)) c₁
    unfold Decoder.endOf at hf
    rw [h] at hf
    simp only [Cursor.remaining, hf.1, hb.2.1]
    have hlt := hb.2.2
    have ho := hb.1
    have hle := hf.2
    simp only at hle
    omega

end Operation

def decodeOperations (c : Cursor) : Except Fault (List Operation) :=
  if c.atEnd then .ok []
  else
    match _h : Operation.decode.run c with
    | .error fault _ => .error fault
    | .ok op c' => do
      let rest ← decodeOperations c'
      return op :: rest
termination_by c.remaining
decreasing_by exact Operation.remaining_lt_of_decode (by assumption)

namespace Program

def decode (data : List UInt8) : Except Fault Program :=
  match Cursor.readUInt16.run (.start data) with
  | .error fault _ => .error fault
  | .ok capacity c => do
    let operations ← decodeOperations c
    return ⟨capacity, operations⟩

def encode (p : Program) : List UInt8 :=
  bigEndian 2 p.ledgerCapacity.toNat ++ p.operations.flatMap Operation.encode

end Program

end NetSettle
