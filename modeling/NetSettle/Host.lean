import NetSettle.Journal
import NetSettle.Pool.Book

/-!
# The outside world

Tokens, the caller's side of a settlement and allowances by signature lie outside the engine. An
execution reaches them through the requests that a `Host` serves, and treats any refusal as a fault
of the whole. Whatever is asked of it, the outside world may call the engine back before it answers:
what it does is a `Session`, a sequence of calls that ends with the answer.
-/
namespace NetSettle

abbrev Marker := BitVec 32

def Marker.accepted : Marker := 0x5e771eac

/-- Calls on the engine made while a request is served, each followed by what depends on its
answer. The state of the outside world is handed on from call to call. -/
inductive Session (σ α : Type) where
  | finish (answer : α) (host : σ)
  | execute (caller : Address) (program : List UInt8) (host : σ)
      (next : Except Fault Receipt → σ → Session σ α)
  | setFees (caller : Address) (settings : FeeSettings) (next : Except Fault Unit → Session σ α)
  | readFees (next : FeeSettings → Session σ α)
  | readPool (pair : Pair) (next : Option Pool → Session σ α)
  | readPools (next : List Pool → Session σ α)
  | note (entry : JournalEntry) (next : Session σ α)

def Session.ofRun {σ α ε : Type} : EStateM.Result ε σ α → Session σ (Except ε α)
  | .ok a host => .finish (.ok a) host
  | .error fault host => .finish (.error fault) host

/-- What an execution asks of the outside world, by the type of the answer. -/
inductive HostRequest : Type → Type where
  | sendOut (token recipient : Address) (amount : Word) : HostRequest (Except HostFault Unit)
  | pullIn (token owner : Address) (amount : Word) : HostRequest (Except HostFault Unit)
  | balanceOf (token holder : Address) : HostRequest Word
  | settle (caller token : Address) (amount : Word) : HostRequest Marker
  | grantPermit (owner token : Address) (amount : Amount) (deadline : UInt64)
      (signature : Signature) : HostRequest (Except HostFault Unit)

class Host (σ : Type) where
  serve {α : Type} (host : σ) (request : HostRequest α) : Session σ α

end NetSettle
