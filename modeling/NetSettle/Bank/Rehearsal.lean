import NetSettle.Bank

/-!
# Rehearsed callbacks

A simulated world that follows a script: it refuses chosen requests, and when its caller is asked
to settle it first calls the engine back and moves tokens as the script says. It notes what every
callback was asked and what the calls that it made answered.
-/
namespace NetSettle

/-- What a rehearsed world does besides what its bank does. -/
structure Script where
  refuseSend : Option String
  refusePull : Option String
  refusePermit : Option String
  nested : Option (List UInt8)
  setFees : Option (Address × FeeSettings)
  observe : Bool
  drain : Option Word
  pay : Option Word
  marker : Option Marker

structure CallbackNote where
  caller : Address
  token : Address
  amount : Word
  marker : Marker
  nested : Option (Except Fault Receipt)
  setFees : Option (Except Fault Unit)
  observed : Option (List Pool × FeeSettings)
  drained : Option (Except HostFault Unit)

structure Rehearsal where
  bank : Bank
  script : Script
  callbacks : List CallbackNote

namespace Rehearsal

def orRefuse (r : Rehearsal) (reason : Option String) (work : EStateM HostFault Bank Unit) :
    Session Rehearsal (Except HostFault Unit) :=
  match reason with
  | some text => .finish (.error (.rejected text)) r
  | none =>
    match work.run r.bank with
    | .ok _ b => .finish (.ok ()) { r with bank := b }
    | .error fault b => .finish (.error fault) { r with bank := b }

def tryTransfer (b : Bank) (token sender recipient : Address) (n : Word) :
    Except HostFault Unit × Bank :=
  match (Bank.transfer token sender recipient n).run b with
  | .ok _ b => (.ok (), b)
  | .error fault b => (.error fault, b)

def conclude (r : Rehearsal) (note : CallbackNote) : Session Rehearsal Marker :=
  let (drained, b) := match r.script.drain with
    | some n =>
      let (outcome, b) := tryTransfer r.bank note.token r.bank.engine note.caller n
      (some outcome, b)
    | none => (none, r.bank)
  let (marker, b, short) := match r.script.pay with
    | some n =>
      match tryTransfer b note.token note.caller b.engine n with
      | (.ok _, b) => (Marker.accepted, b, none)
      | (.error _, b) => (0, b, none)
    | none => b.settle note.caller note.token note.amount
  let marker := r.script.marker.getD marker
  let note := { note with marker := marker, drained := drained }
  let answer := .finish marker { r with bank := b, callbacks := r.callbacks ++ [note] }
  match short with
  | some fault => .note (.callerShort fault) answer
  | none => answer

def session (r : Rehearsal) (caller token : Address) (amount : Word) : Session Rehearsal Marker :=
  let observe (r : Rehearsal) (note : CallbackNote) : Session Rehearsal Marker :=
    if r.script.observe then
      .readPools fun pools => .readFees fun fees =>
        r.conclude { note with observed := some (pools, fees) }
    else r.conclude note
  let setFees (r : Rehearsal) (note : CallbackNote) : Session Rehearsal Marker :=
    match r.script.setFees with
    | some (admin, settings) => .setFees admin settings fun outcome =>
      observe r { note with setFees := some outcome }
    | none => observe r note
  let note : CallbackNote := ⟨caller, token, amount, 0, none, none, none, none⟩
  match r.script.nested with
  | some program => .execute caller program r fun outcome r =>
    setFees r { note with nested := some outcome }
  | none => setFees r note

instance : Host Rehearsal where
  serve r
    | .sendOut token recipient n => r.orRefuse r.script.refuseSend (Bank.sendOut token recipient n)
    | .pullIn token owner n => r.orRefuse r.script.refusePull (Bank.pullIn token owner n)
    | .balanceOf token holder => .finish (r.bank.balance token holder) r
    | .settle caller token n => r.session caller token n
    | .grantPermit owner token amount deadline signature =>
      r.orRefuse r.script.refusePermit (Bank.grantPermit owner token amount deadline signature)

end Rehearsal

end NetSettle
