import NetSettle.Proofs.Execution.Reentry

/-!
# Work on the book itself

An execution works on copies of the pools and writes them back when it commits. A tally is kept
without copies: each deal is made with the pool that stands in the book, and only then are the pools
left out that are new and still as they were made. Both lead to the same book. An execution that
fails leaves the book as it was. The fee settings are no part of it: what the outside world has set
meanwhile stays, however the execution ends.
-/
namespace NetSettle

open Faulting (finalState)

/-- A book that is worked on in place, and what the caller owes in each token. -/
structure Tally where
  book : PoolBook
  debt : Address → Int

namespace Tally

/-- Makes the deal of an operation with the pool in the book, which is new if there is none. An
operation that makes no deal changes the debts alone. -/
def apply (caller : Address) (fees : FeeSettings) (t : Tally) (op : Operation) :
    Except Fault Tally :=
  match op.deal? caller fees t.debt with
  | none => .ok { t with debt := fun token => t.debt token + op.posting t.debt token }
  | some deal =>
    match deal.work.run (t.book.pool deal.pair) with
    | .error fault _ => .error fault
    | .ok e p => .ok ⟨t.book.insert deal.pair p, fun token => t.debt token + e.net token⟩

def applyAll (caller : Address) (fees : FeeSettings) (ops : List Operation) (t : Tally) :
    Except Fault Tally :=
  ops.foldlM (apply caller fees) t

variable {caller : Address} {fees : FeeSettings} {t t' : Tally} {pair : Pair}

theorem find?_apply {op : Operation} (h : t.apply caller fees op = .ok t')
    (hpair : op.pair? ≠ some pair) : t'.book.find? pair = t.book.find? pair := by
  unfold apply at h
  split at h
  · cases h
    rfl
  · rename_i deal hdeal
    split at h
    · cases h
    · cases h
      have hne : pair ≠ deal.pair := by
        rintro rfl
        exact hpair (Operation.pair?_of_deal? hdeal)
      exact SortedMap.find?_insert_ne _ hne _

theorem isSome_apply {op : Operation} (h : t.apply caller fees op = .ok t')
    (hpair : (t.book.find? pair).isSome) : (t'.book.find? pair).isSome := by
  unfold apply at h
  split at h
  · cases h
    exact hpair
  · rename_i deal hdeal
    split at h
    · cases h
    · cases h
      rw [SortedMap.find?_insert]
      split
      · rfl
      · exact hpair

theorem find?_applyAll {ops : List Operation} (h : t.applyAll caller fees ops = .ok t')
    (hpair : ∀ op ∈ ops, op.pair? ≠ some pair) : t'.book.find? pair = t.book.find? pair := by
  induction ops generalizing t with
  | nil =>
    cases h
    rfl
  | cons op ops ih =>
    rw [applyAll, List.foldlM_cons, Faulting.bind_eq_ok] at h
    obtain ⟨t₁, hop, hrest⟩ := h
    rw [ih hrest fun op hmem => hpair op (List.mem_cons_of_mem _ hmem),
      find?_apply hop (hpair op (List.mem_cons_self ..))]

theorem isSome_applyAll {ops : List Operation} (h : t.applyAll caller fees ops = .ok t')
    (hpair : (t.book.find? pair).isSome) : (t'.book.find? pair).isSome := by
  induction ops generalizing t with
  | nil =>
    cases h
    exact hpair
  | cons op ops ih =>
    rw [applyAll, List.foldlM_cons, Faulting.bind_eq_ok] at h
    obtain ⟨t₁, hop, hrest⟩ := h
    exact ih hrest (isSome_apply hop hpair)

end Tally

namespace Context

variable {σ : Type} [Host σ] {nested : Runner σ}

structure Mirrored (e : Engine) (caller : Address) (c : Context σ) (t : Tally) : Prop where
  running : World.Running e.book c.engine
  caller : c.caller = caller
  fees : c.fees = e.fees
  valid : c.ledger.Valid
  debt : t.debt = c.ledger.debt
  keyed : Keyed c.overlay.touched
  pools : ∀ pair, t.book.find? pair = (c.overlay.touched.find? pair).or (e.book.find? pair)

variable {e : Engine} {caller : Address} {c c' : Context σ} {t : Tally}

omit [Host σ] in
theorem Mirrored.pool (h : c.Mirrored e caller t) (pair : Pair) :
    t.book.pool pair = c.overlay.pool e.book pair := by
  rw [PoolBook.pool, h.pools, Overlay.pool]
  cases c.overlay.touched.find? pair <;> rfl

omit [Host σ] in
theorem Mirrored.trades {op : Operation} {es : List Event} {o : Overlay}
    (h : c.Mirrored e caller t) (ho : Trades op c es o) :
    ∃ t', t.apply caller e.fees op = .ok t' ∧
      (∀ token, t'.debt token = c.ledger.debt token + flow Event.net es token) ∧
      ∀ pair, t'.book.find? pair = (o.touched.find? pair).or (e.book.find? pair) := by
  unfold Tally.apply
  rw [h.debt, ← h.caller, ← h.fees]
  cases ho with
  | none hdeal hpair hnet =>
    rw [hdeal]
    exact ⟨_, rfl, fun token => by rw [hnet], h.pools⟩
  | deal hpos hlt hdeal hes hrun =>
    rw [h.running.2, ← h.pool] at hrun
    subst hes
    simp only [hdeal, hrun]
    refine ⟨_, rfl, fun token => by rw [flow_singleton], fun pair => ?_⟩
    rw [Overlay.put, SortedMap.find?_insert, SortedMap.find?_insert, h.pools]
    split <;> rfl

theorem Mirrored.effect (hnested : World.Steady (World.Running e.book) nested) {op : Operation}
    {es : List Event} (hbook : Keyed e.book) (h : c.Mirrored e caller t)
    (he : Effect nested op c c' es) :
    ∃ t', t.apply caller e.fees op = .ok t' ∧ c'.Mirrored e caller t' := by
  obtain ⟨t', happly, hdebt, hpools⟩ := h.trades he.trades
  obtain ⟨hv, -, hdelta⟩ := he.ledger h.valid
  have hoverlay := he.overlay
  rw [h.running.2] at hoverlay
  exact ⟨t', happly, {
    running := he.outside.keeps (World.keptByFees_running e.book) hnested h.running
    caller := he.caller.trans h.caller
    fees := he.fees.trans h.fees
    valid := hv
    debt := funext fun token => (hdebt token).trans (hdelta token).symm
    keyed := hoverlay.keyed hbook h.keyed
    pools := hpools }⟩

end Context

namespace World

variable {σ : Type} [Host σ] {w w' : World σ} {caller : Address} {data : List UInt8}

omit [Host σ] in
theorem mirrored_begin (w : World σ) (caller : Address) {capacity : Nat} {ledger : Ledger}
    (hledger : Ledger.ofCapacity capacity = .ok ledger) :
    (w.begin caller ledger).Mirrored w.engine caller ⟨w.engine.book, fun _ => 0⟩ := by
  have haccounted := Context.accounted_start (w.setExecuting true) caller hledger
  exact {
    running := ⟨rfl, rfl⟩
    caller := rfl
    fees := rfl
    valid := haccounted.valid
    debt := funext fun token => (haccounted.exact token).symm
    keyed := SortedMap.all_empty _
    pools := fun _ => rfl }

/-- Whether a pool stays in the book that was worked on in place: it was there before, or something
was done with it. -/
def lasts (w : World σ) (pair : Pair) (p : Pool) : Bool :=
  (w.engine.book.find? pair).isSome || p ≠ .fresh pair

theorem committed_in_place {receipt : Receipt} (hbook : Keyed w.engine.book)
    (hrun : (execute caller data).run w = .ok receipt w') :
    ∃ p t, Program.decode data = .ok p ∧
      Tally.applyAll caller w.engine.fees p.operations ⟨w.engine.book, fun _ => 0⟩ = .ok t ∧
      w'.engine.book = t.book.filter w.lasts := by
  obtain ⟨p, ledger, c, hcommitted⟩ := execute_eq_ok hrun
  have hsteady : Steady (Running w.engine.book) (nestedRunner : Runner σ) :=
    steady_nestedRunner fun _ h => h.1
  -- The outside world may set fees in between: the execution and the tally both use those of the start.
  obtain ⟨t, happly, hc⟩ := Context.performAll_foldlM
    (fun _ _ _ _ _ h he => h.effect hsteady hbook he) hcommitted.performed
    (mirrored_begin w caller hcommitted.opened)
  refine ⟨p, t, hcommitted.decoded, happly, SortedMap.ext_find? fun pair => ?_⟩
  rw [hcommitted.engine]
  change (c.overlay.commitTo c.engine.book).find? pair = _
  rw [hc.running.2, Overlay.find?_commitTo hc.keyed, SortedMap.find?_filter, hc.pools]
  unfold lasts
  cases c.overlay.touched.find? pair with
  | none => cases w.engine.book.find? pair <;> simp [Option.filter]
  | some q => cases w.engine.book.find? pair <;> simp [Option.filter]

/-- The fee settings that are set while a program runs, in order: each was asked for by the admin in
a call that the outside world made when it served a request of the program, and was acceptable. -/
def feeChanges (w : World σ) (caller : Address) (data : List UInt8) : List FeeSettings :=
  (finalState ((execute caller data).run w.muted)).host.changes

theorem feeChanges_busy (hbusy : w.engine.executing = true) : w.feeChanges caller data = [] := by
  have hmuted : (execute caller data).run w.muted = .error .reentrancy w.muted :=
    executeWith_refused hbusy
  rw [feeChanges, hmuted]
  rfl

theorem fees_of_failed {fault : Fault} (hrun : (execute caller data).run w = .error fault w') :
    (∀ settings ∈ w.feeChanges caller data, settings.validate = .ok ()) ∧
      w'.engine.fees = (w.feeChanges caller data).getLastD w.engine.fees := by
  cases hbusy : w.engine.executing with
  | true =>
    have hrefused : (execute caller data).run w = .error .reentrancy w :=
      executeWith_refused hbusy
    rw [hrefused] at hrun
    cases hrun
    rw [feeChanges_busy hbusy]
    exact ⟨List.forall_mem_nil _, rfl⟩
  | false =>
    have hmatches := matches_muted hbusy caller data
    rw [hrun] at hmatches
    obtain ⟨v, hmuted, hechoes⟩ := hmatches.right_of_error
    rw [feeChanges, hmuted]
    exact ⟨hechoes.valid, congrArg Engine.fees hechoes.engine⟩

theorem book_of_failed {fault : Fault} (hrun : (execute caller data).run w = .error fault w') :
    w'.engine.book = w.engine.book := by
  rcases execute_eq_error_of_keptByFees (fun _ h => h.1) (keptByFees_running w.engine.book)
    ⟨rfl, rfl⟩ hrun with rfl | ⟨e, he, hengine⟩
  · rfl
  · rw [hengine]
    exact he.2

/-- An execution that fails leaves the book as it was, and the fee settings that the outside world
set last, which are those of the start if it set none. One that is committed leaves the book that
working on the book itself leads to, without the pools that are new and still as they were made: a
pool that no operation names is as before, and no pool is lost. -/
theorem execution_is_transaction (w : World σ) (caller : Address) (data : List UInt8)
    (hbook : Keyed w.engine.book) :
    (∀ fault w', (execute caller data).run w = .error fault w' →
      w'.engine.book = w.engine.book ∧
        (∀ settings ∈ w.feeChanges caller data, settings.validate = .ok ()) ∧
        w'.engine.fees = (w.feeChanges caller data).getLastD w.engine.fees) ∧
    ∀ receipt w', (execute caller data).run w = .ok receipt w' →
      ∃ p t, Program.decode data = .ok p ∧
        Tally.applyAll caller w.engine.fees p.operations ⟨w.engine.book, fun _ => 0⟩ = .ok t ∧
        w'.engine.book = t.book.filter w.lasts ∧
        (∀ pair, (∀ op ∈ p.operations, op.pair? ≠ some pair) →
          w'.engine.book.find? pair = w.engine.book.find? pair) ∧
        ∀ pair, (w.engine.book.find? pair).isSome → (w'.engine.book.find? pair).isSome := by
  refine ⟨fun fault w' hrun => ⟨book_of_failed hrun, fees_of_failed hrun⟩,
    fun receipt w' hrun => ?_⟩
  obtain ⟨p, t, hdecode, happly, hfilter⟩ := committed_in_place hbook hrun
  refine ⟨p, t, hdecode, happly, hfilter, fun pair hpair => ?_, fun pair hsome => ?_⟩
  · rw [hfilter, SortedMap.find?_filter, Tally.find?_applyAll happly hpair]
    unfold lasts
    cases w.engine.book.find? pair <;> simp [Option.filter]
  · obtain ⟨q, hq⟩ := Option.isSome_iff_exists.1 (Tally.isSome_applyAll happly hsome)
    have hlasts : w.lasts pair q = true := by rw [lasts, hsome, Bool.true_or]
    rw [hfilter, SortedMap.find?_filter, hq, Option.filter_some_pos hlasts]
    rfl

def meddled : World Rehearsal where
  engine := lender.engine
  host := ⟨lender.host, ⟨none, none, none, none, some (8, ⟨100, 0, 0⟩), false, none, none, some 0⟩,
    []⟩
  journal := []

def askingProgram : Program where
  ledgerCapacity := 2
  operations := [.addLiquidity 1 2 7 1 1 none, .receiveAllViaCallback 1 .unbounded]

theorem execution_is_transaction_seeded :
    (∃ w', (execute 7 askingProgram.encode).run meddled = .error (.settlementRefused 1) w' ∧
      w'.engine.book = meddled.engine.book ∧
      meddled.feeChanges 7 askingProgram.encode = [⟨100, 0, 0⟩] ∧
      w'.engine.fees = ⟨100, 0, 0⟩) ∧
    ∃ receipt w' t, (execute 7 Engine.seedProgram.encode).run lender = .ok receipt w' ∧
      Tally.applyAll 7 lender.engine.fees Engine.seedProgram.operations
        ⟨lender.engine.book, fun _ => 0⟩ = .ok t ∧
      w'.engine.book = t.book.filter lender.lasts ∧
      w'.engine.book.find? ⟨1, 2⟩ = some Engine.seedPool := by
  have hbook : Keyed lender.engine.book := SortedMap.all_empty _
  constructor
  · obtain ⟨fault, w', hrun, hfault⟩ := Faulting.exists_of_faultsWith
      (show Faulting.faultsWith (fun fault _ => decide (fault = .settlementRefused 1))
        ((execute 7 askingProgram.encode).run meddled) = true by decide +kernel)
    obtain ⟨hkept, -, hfees⟩ :=
      (execution_is_transaction meddled 7 askingProgram.encode hbook).1 fault w' hrun
    have hchanges : meddled.feeChanges 7 askingProgram.encode = [⟨100, 0, 0⟩] := by
      decide +kernel
    obtain rfl := of_decide_eq_true hfault
    rw [hchanges] at hfees
    exact ⟨w', hrun, hkept, hchanges, hfees⟩
  · obtain ⟨receipt, w', hrun, hseeded⟩ := Faulting.exists_of_endsWith
      (show Faulting.endsWith (fun _ w' => decide (w'.engine.book.find? ⟨1, 2⟩ =
        some Engine.seedPool)) ((execute 7 Engine.seedProgram.encode).run lender) = true
        by decide +kernel)
    have hdecode : Program.decode Engine.seedProgram.encode = .ok Engine.seedProgram := by
      decide +kernel
    obtain ⟨p, t, hp, happly, hfilter, -⟩ :=
      (execution_is_transaction lender 7 Engine.seedProgram.encode hbook).2 receipt w' hrun
    rw [hdecode] at hp
    cases hp
    exact ⟨receipt, w', t, hrun, happly, hfilter, of_decide_eq_true hseeded⟩

theorem fees_outlive_failure :
    ∃ w', (execute 7 askingProgram.encode).run meddled = .error (.settlementRefused 1) w' ∧
      w'.engine.fees ≠ meddled.engine.fees := by
  obtain ⟨fault, w', hrun, htest⟩ := Faulting.exists_of_faultsWith
    (show Faulting.faultsWith (fun fault w' => decide (fault = .settlementRefused 1 ∧
      w'.engine.fees ≠ meddled.engine.fees)) ((execute 7 askingProgram.encode).run meddled) = true
      by decide +kernel)
  obtain ⟨rfl, hfees⟩ := of_decide_eq_true htest
  exact ⟨w', hrun, hfees⟩

end World

end NetSettle
