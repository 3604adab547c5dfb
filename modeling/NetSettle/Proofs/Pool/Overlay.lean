import NetSettle.Pool.Book
import NetSettle.Proofs.Faulting
import NetSettle.Proofs.Pool.Holding
import NetSettle.Proofs.SortedMap

/-!
# Work on an overlay

Through an overlay an execution sees the pools that it touched as it left them and all others as
the book has them. Work on a pool replaces one working copy. When the copies are written back the
pools hold what they held before and what the overlay gained, and every pool of the new book comes
from the overlay or from the old book.
-/
namespace NetSettle

open Faulting
open Ranked (rank rank_inj)

/-- Every pool stands under its own pair. -/
def Keyed (pools : SortedMap Pair Pool) : Prop := pools.All fun pair p => p.pair = pair

namespace PoolBook

def pool (book : PoolBook) (pair : Pair) : Pool := (book.find? pair).getD (.fresh pair)

def holdings (book : PoolBook) (t : Address) : Int := book.sumBy fun _ p => p.holding t

theorem keyed_ofPools (pools : List Pool) : Keyed (ofPools pools) := by
  apply SortedMap.all_ofList
  intro e he
  obtain ⟨p, -, rfl⟩ := List.mem_map.1 he
  rfl

theorem ofPools_pools {book : PoolBook} (h : Keyed book) : ofPools book.pools = book := by
  have hentries : book.pools.map (fun p => (p.pair, p)) = book.toList := by
    rw [pools, SortedMap.values, List.map_map]
    refine (List.map_congr_left fun e he => ?_).trans (List.map_id _)
    exact Prod.ext (h e.1 e.2 (SortedMap.mem_toList.1 he)) rfl
  rw [ofPools, hentries, SortedMap.ofList_toList]

theorem pair_pool {book : PoolBook} (h : Keyed book) (pair : Pair) :
    (book.pool pair).pair = pair := by
  rw [pool]
  cases hfind : book.find? pair with
  | none => rfl
  | some p => exact h pair p hfind

theorem holdings_insert (book : PoolBook) (pair : Pair) (p : Pool) (t : Address) :
    holdings (book.insert pair p) t =
      book.holdings t + (p.holding t - (book.pool pair).holding t) := by
  unfold holdings pool
  rw [SortedMap.sumBy_insert]
  cases book.find? pair with
  | none =>
    simp only [Option.map_none, Option.getD_none, Pool.holding_fresh]
    omega
  | some p₀ =>
    simp only [Option.map_some, Option.getD_some]
    omega

end PoolBook

namespace Overlay

variable {o o' : Overlay} {book : PoolBook}

def pool (o : Overlay) (book : PoolBook) (pair : Pair) : Pool :=
  (o.touched.find? pair).getD (book.pool pair)

def put (o : Overlay) (pair : Pair) (p : Pool) : Overlay := ⟨o.touched.insert pair p⟩

theorem pool_put (o : Overlay) (book : PoolBook) (pair pair' : Pair) (p : Pool) :
    (o.put pair p).pool book pair' = if pair' = pair then p else o.pool book pair' := by
  unfold put pool
  rw [SortedMap.find?_insert]
  split <;> rfl

theorem fetch_run (book : PoolBook) (pair : Pair) (o : Overlay) :
    ∃ o₁, (fetch (.available book) pair).run o = .ok (o.pool book pair) o₁ ∧
      ∀ p, o₁.put pair p = o.put pair p := by
  unfold pool
  cases htouched : o.touched.find? pair with
  | some p =>
    refine ⟨o, ?_, fun _ => rfl⟩
    simp only [fetch, EStateM.run_bind, EStateM.run_get, htouched]
    rfl
  | none =>
    refine ⟨o.put pair (book.pool pair), ?_, fun p => ?_⟩
    · simp only [fetch, EStateM.run_bind, EStateM.run_get, htouched]
      rfl
    · exact congrArg Overlay.mk (SortedMap.insert_insert ..)

/-- Work on a pool works on what is seen of it, and what the work left is seen from then on. -/
theorem onPool_run {α : Type} (book : PoolBook) (pair : Pair) (work : Faulting Pool α)
    (o : Overlay) :
    (onPool (.available book) pair work).run o =
      match work.run (o.pool book pair) with
      | .ok a p => .ok a (o.put pair p)
      | .error fault p => .error fault (o.put pair p) := by
  obtain ⟨o₁, hfetch, hput⟩ := fetch_run book pair o
  rw [onPool, run_bind_of_ok hfetch]
  cases work.run (o.pool book pair) with
  | ok a p => exact congrArg (EStateM.Result.ok a) (hput p)
  | error fault p => exact congrArg (EStateM.Result.error fault) (hput p)

theorem onPool_eq_ok {α : Type} {pair : Pair} {work : Faulting Pool α} {a : α}
    (h : (onPool (.available book) pair work).run o = .ok a o') :
    ∃ p', work.run (o.pool book pair) = .ok a p' ∧ o' = o.put pair p' := by
  rw [onPool_run] at h
  cases hwork : work.run (o.pool book pair) with
  | error fault p' =>
    rw [hwork] at h
    cases h
  | ok b p' =>
    rw [hwork] at h
    cases h
    exact ⟨p', rfl, rfl⟩

def gain (o : Overlay) (book : PoolBook) (t : Address) : Int :=
  o.touched.sumBy fun pair p => p.holding t - (book.pool pair).holding t

theorem gain_put (o : Overlay) (book : PoolBook) (pair : Pair) (p : Pool) (t : Address) :
    (o.put pair p).gain book t = o.gain book t + (p.holding t - (o.pool book pair).holding t) := by
  unfold gain put pool
  rw [SortedMap.sumBy_insert]
  cases o.touched.find? pair with
  | none =>
    simp only [Option.map_none, Option.getD_none]
    omega
  | some p₀ =>
    simp only [Option.map_some, Option.getD_some]
    omega

theorem find?_writeBack {entry : Pair × Pool} (hkey : entry.2.pair = entry.1) (book : PoolBook)
    (pair : Pair) : (writeBack book entry).find? pair =
      if pair = entry.1 ∧ ¬ (book.find? pair = none ∧ entry.2 = .fresh pair) then some entry.2
      else book.find? pair := by
  unfold writeBack
  simp only [Bool.and_eq_true, Option.isNone_iff_eq_none, decide_eq_true_eq, hkey]
  split
  · rename_i h
    by_cases hpair : pair = entry.1
    · subst hpair
      rw [if_neg fun hn => hn.2 h]
    · rw [if_neg fun hn => hpair hn.1]
  · rename_i h
    rw [SortedMap.find?_insert]
    by_cases hpair : pair = entry.1
    · subst hpair
      rw [if_pos rfl, if_pos ⟨rfl, h⟩]
    · rw [if_neg hpair, if_neg fun hn => hpair hn.1]

theorem writeBack_pool {entry : Pair × Pool} (hkey : entry.2.pair = entry.1) (pair : Pair)
    (hne : pair ≠ entry.1) : (writeBack book entry).pool pair = book.pool pair := by
  rw [PoolBook.pool, find?_writeBack hkey, if_neg fun h => hne h.1, PoolBook.pool]

theorem writeBack_holdings {entry : Pair × Pool} (hkey : entry.2.pair = entry.1) (t : Address) :
    (writeBack book entry).holdings t =
      book.holdings t + (entry.2.holding t - (book.pool entry.1).holding t) := by
  unfold writeBack
  split
  · rename_i h
    simp only [Bool.and_eq_true, Option.isNone_iff_eq_none, decide_eq_true_eq] at h
    simp [PoolBook.pool, h.1, h.2]
  · rw [hkey, PoolBook.holdings_insert]

theorem foldl_writeBack_holdings {entries : List (Pair × Pool)}
    (hs : entries.Pairwise fun a b => rank a.1 < rank b.1)
    (hkey : ∀ e ∈ entries, e.2.pair = e.1) (book : PoolBook) (t : Address) :
    PoolBook.holdings (entries.foldl writeBack book) t = book.holdings t +
      (entries.map fun e => e.2.holding t - (book.pool e.1).holding t).sum := by
  induction entries generalizing book with
  | nil => simp
  | cons e rest ih =>
    rw [List.pairwise_cons] at hs
    have he := hkey e (List.mem_cons_self ..)
    have hrest : rest.map (fun a => a.2.holding t - ((writeBack book e).pool a.1).holding t) =
        rest.map fun a => a.2.holding t - (book.pool a.1).holding t := by
      apply List.map_congr_left
      intro a ha
      have hne : a.1 ≠ e.1 := fun h => absurd (hs.1 a ha) (by rw [h]; exact lt_irrefl _)
      rw [writeBack_pool he a.1 hne]
    rw [List.foldl_cons, ih hs.2 (fun a ha => hkey a (List.mem_cons_of_mem _ ha)), hrest,
      writeBack_holdings he, List.map_cons, List.sum_cons]
    omega

theorem holdings_commitTo (hkey : Keyed o.touched) (book : PoolBook) (t : Address) :
    (o.commitTo book).holdings t = book.holdings t + o.gain book t :=
  foldl_writeBack_holdings o.touched.sorted
    (fun e he => hkey e.1 e.2 (SortedMap.mem_toList.1 he)) book t

theorem find?_foldl_writeBack {entries : List (Pair × Pool)}
    (hs : entries.Pairwise fun a b => rank a.1 < rank b.1)
    (hkey : ∀ e ∈ entries, e.2.pair = e.1) (book : PoolBook) (pair : Pair) :
    (entries.foldl writeBack book).find? pair =
      match SortedMap.lookup pair entries with
      | none => book.find? pair
      | some p => if book.find? pair = none ∧ p = .fresh pair then none else some p := by
  induction entries generalizing book with
  | nil => rfl
  | cons e rest ih =>
    rw [List.pairwise_cons] at hs
    have he := find?_writeBack (hkey e (List.mem_cons_self ..)) book pair
    rw [List.foldl_cons, ih hs.2 fun a ha => hkey a (List.mem_cons_of_mem _ ha), SortedMap.lookup]
    by_cases hpair : pair = e.1
    · subst hpair
      rw [SortedMap.lookup_eq_none hs.1, if_pos rfl]
      dsimp only
      rw [he]
      by_cases hfresh : book.find? e.1 = none ∧ e.2 = .fresh e.1
      · rw [if_neg fun h => h.2 hfresh, if_pos hfresh, hfresh.1]
      · rw [if_pos ⟨rfl, hfresh⟩, if_neg hfresh]
    · rw [if_neg fun h => hpair h.1] at he
      rw [if_neg fun hrank => hpair (rank_inj hrank), he]

/-- A touched pool is written back as it was left, unless it is new and still as it was made. -/
theorem find?_commitTo (hkey : Keyed o.touched) (book : PoolBook) (pair : Pair) :
    (o.commitTo book).find? pair =
      match o.touched.find? pair with
      | none => book.find? pair
      | some p => if book.find? pair = none ∧ p = .fresh pair then none else some p :=
  find?_foldl_writeBack o.touched.sorted
    (fun e he => hkey e.1 e.2 (SortedMap.mem_toList.1 he)) book pair

theorem find?_commitTo_of_some (hkey : Keyed o.touched) {pair : Pair} {p : Pool}
    (h : book.find? pair = some p) : (o.commitTo book).find? pair = some (o.pool book pair) := by
  rw [find?_commitTo hkey, pool, PoolBook.pool, h]
  cases o.touched.find? pair <;> simp

theorem pool_commitTo (hkey : Keyed o.touched) (book : PoolBook) (pair : Pair) :
    (o.commitTo book).pool pair = o.pool book pair := by
  rw [PoolBook.pool, find?_commitTo hkey, pool]
  cases o.touched.find? pair with
  | none => rfl
  | some p =>
    dsimp only
    split
    · rename_i h
      rw [h.2]
      rfl
    · rfl

theorem all_writeBack {P : Pair → Pool → Prop} (hbook : book.All P) {entry : Pair × Pool}
    (hkey : entry.2.pair = entry.1) (h : P entry.1 entry.2) : (writeBack book entry).All P := by
  unfold writeBack
  split
  · exact hbook
  · rw [hkey]
    exact hbook.insert h

theorem all_commitTo {P : Pair → Pool → Prop} (hkey : Keyed o.touched) (ho : o.touched.All P)
    (hbook : book.All P) : (o.commitTo book).All P := by
  have hentries : ∀ e ∈ o.touched.toList, e.2.pair = e.1 ∧ P e.1 e.2 := by
    intro e he
    have hfind := SortedMap.mem_toList.1 he
    exact ⟨hkey _ _ hfind, ho _ _ hfind⟩
  unfold commitTo
  generalize o.touched.toList = entries at hentries
  induction entries generalizing book with
  | nil => exact hbook
  | cons e rest ih =>
    obtain ⟨he, hp⟩ := hentries e (List.mem_cons_self ..)
    exact ih (all_writeBack hbook he hp) fun a ha => hentries a (List.mem_cons_of_mem _ ha)

theorem all_pool {P : Pair → Pool → Prop} (ho : o.touched.All P) (hbook : book.All P) {pair : Pair}
    (hfresh : P pair (.fresh pair)) : P pair (o.pool book pair) := by
  unfold pool PoolBook.pool
  cases htouched : o.touched.find? pair with
  | some p => exact ho pair p htouched
  | none =>
    cases hstored : book.find? pair with
    | some p => exact hbook pair p hstored
    | none => exact hfresh

end Overlay

end NetSettle
