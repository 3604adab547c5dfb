import NetSettle.Host

/-!
# The engine and the world around it

The engine stores the fee settings and the pool book, and a flag that is set while a program runs.
A world is an engine with its outside world and the journal of both. A session of calls made while
a request is served is carried out on the world; how it runs a program is given from outside.
-/
namespace NetSettle

structure Engine where
  address : Address
  admin : Address
  fees : FeeSettings
  book : PoolBook
  executing : Bool
  deriving DecidableEq

namespace Engine

def create (address admin : Address) (fees : FeeSettings) : Except Fault Engine := do
  fees.validate
  return ⟨address, admin, fees, .empty, false⟩

def withPools (e : Engine) (pools : List Pool) : Engine :=
  { e with book := .ofPools pools }

end Engine

structure World (σ : Type) where
  engine : Engine
  host : σ
  journal : List JournalEntry

namespace World

variable {σ : Type}

def note (w : World σ) (entry : JournalEntry) : World σ :=
  { w with journal := w.journal ++ [entry] }

def setExecuting (w : World σ) (executing : Bool) : World σ :=
  { w with engine := { w.engine with executing := executing } }

def setFees (caller : Address) (settings : FeeSettings) : Faulting (World σ) Unit := do
  if caller ≠ (← get).engine.admin then
    throw (.unauthorized caller)
  settings.validate
  modify fun w => { w with engine := { w.engine with fees := settings } }
  modify (·.note (.feesUpdated settings))

end World

abbrev Runner (σ : Type) := Address → List UInt8 → Faulting (World σ) Receipt

def Session.run {σ α : Type} (nested : Runner σ) : Session σ α → World σ → α × World σ
  | .finish answer host, w => (answer, { w with host := host })
  | .execute caller program host next, w =>
    match (nested caller program).run { w with host := host } with
    | .ok receipt w => run nested (next (.ok receipt) w.host) w
    | .error fault w => run nested (next (.error fault) w.host) w
  | .setFees caller settings next, w =>
    match (World.setFees caller settings).run w with
    | .ok _ w => run nested (next (.ok ())) w
    | .error fault w => run nested (next (.error fault)) w
  | .readFees next, w => run nested (next w.engine.fees) w
  | .readPool pair next, w => run nested (next (w.engine.book.find? pair)) w
  | .readPools next, w => run nested (next w.engine.book.pools) w
  | .note entry next, w => run nested next (w.note entry)

def World.serve {σ α : Type} [Host σ] (nested : Runner σ) (w : World σ) (request : HostRequest α) :
    α × World σ :=
  (Host.serve w.host request).run nested w

end NetSettle
