import NetSettle.Pool.Basic

/-!
# The pool book and its overlay

All pools stand in one book, by pair. An execution works on an overlay: it copies a pool out of
the book when it first touches it and writes the copies back only when it commits, so an execution
that faults leaves the book as it was. A shared book stands behind a lock; once a holder of the
lock has died in the middle of its work the book is poisoned, and nobody reads it again.
-/
namespace NetSettle

abbrev PoolBook := SortedMap Pair Pool

def PoolBook.ofPools (pools : List Pool) : PoolBook :=
  SortedMap.ofList (pools.map fun p => (p.pair, p))

def PoolBook.pools (book : PoolBook) : List Pool := book.values

inductive SharedBook where
  | available (book : PoolBook)
  | poisoned
  deriving DecidableEq

def SharedBook.lock : SharedBook → Except Fault PoolBook
  | .available book => .ok book
  | .poisoned => .error .statePoisoned

structure Overlay where
  touched : SortedMap Pair Pool
  deriving DecidableEq

namespace Overlay

def empty : Overlay := ⟨.empty⟩

def fetch (base : SharedBook) (pair : Pair) : Faulting Overlay Pool := do
  match (← get).touched.find? pair with
  | some pool => return pool
  | none =>
    let book ← base.lock
    let pool := (book.find? pair).getD (.fresh pair)
    modify fun o => ⟨o.touched.insert pair pool⟩
    return pool

/-- Does work on the working copy of a pool. What the work changed before a fault stays changed. -/
def onPool {α : Type} (base : SharedBook) (pair : Pair) (work : Faulting Pool α) :
    Faulting Overlay α := do
  let pool ← fetch base pair
  match work.run pool with
  | .ok a pool' =>
    modify fun o => ⟨o.touched.insert pair pool'⟩
    return a
  | .error fault pool' =>
    modify fun o => ⟨o.touched.insert pair pool'⟩
    throw fault

/-- Writes one pool back. A pool that the book does not have and that is still as it was made is
left out. -/
def writeBack (book : PoolBook) (entry : Pair × Pool) : PoolBook :=
  if (book.find? entry.1).isNone && entry.2 = .fresh entry.1 then book
  else book.insert entry.2.pair entry.2

def commitTo (o : Overlay) (book : PoolBook) : PoolBook :=
  o.touched.toList.foldl writeBack book

def commit (o : Overlay) (base : SharedBook) : Except Fault SharedBook := do
  return .available (o.commitTo (← base.lock))

end Overlay

end NetSettle
