import NetSettle.Proofs.Execution.Effect
import NetSettle.Proofs.Execution.Journal
import NetSettle.Proofs.Program.Assembly
import NetSettle.Proofs.Program.Reading

/-!
# From programs to operations

A program that is run is read one operation at a time. What it does is what its list of operations
does, apart from the journal: a run ends well exactly when the program can be read to its end, all
its operations are performed, and no delta is left.
-/
namespace NetSettle

open Faulting

namespace Context

variable {σ : Type} [Host σ] {nested : Runner σ} {P : Engine → Prop}

theorem interpret_atEnd {cursor : Cursor} (h : cursor.atEnd = true) (done : Nat) :
    interpret nested cursor done = pure done := by
  rw [interpret, if_pos h]

theorem interpret_failed {cursor cursor' : Cursor} {fault : Fault} (hend : ¬ cursor.atEnd = true)
    (h : Operation.decode.run cursor = .error fault cursor') (done : Nat) :
    interpret nested cursor done = throw fault := by
  rw [interpret, if_neg hend]
  split
  · rename_i hdecode
    rw [h] at hdecode
    cases hdecode
    rfl
  · rename_i hdecode
    rw [h] at hdecode
    cases hdecode

theorem interpret_decoded {cursor next : Cursor} {op : Operation} (hend : ¬ cursor.atEnd = true)
    (h : Operation.decode.run cursor = .ok op next) (done : Nat) :
    interpret nested cursor done = (do
      note (.operation done cursor.offset op.kind)
      perform nested op
      interpret nested next (done + 1)) := by
  rw [interpret, if_neg hend]
  split
  · rename_i hdecode
    rw [h] at hdecode
    cases hdecode
  · rename_i hdecode
    rw [h] at hdecode
    cases hdecode
    rfl

/-- What holds of an ended and of a refused program, and of an operation with a rest of which it
holds, holds of every program. -/
theorem interpret_induction {motive : Faulting (Context σ) Nat → Prop}
    (hended : ∀ done, motive (pure done)) (hrefused : ∀ fault, motive (throw fault))
    (hstep : ∀ entry op rest, motive rest → motive (do note entry; perform nested op; rest))
    (cursor : Cursor) (done : Nat) : motive (interpret nested cursor done) := by
  induction cursor using Cursor.reading_induction generalizing done with
  | ended cursor hend =>
    rw [interpret_atEnd hend]
    exact hended done
  | failed cursor fault _ hend hdecode =>
    rw [interpret_failed hend hdecode]
    exact hrefused fault
  | decoded cursor op next hend hdecode ih =>
    rw [interpret_decoded hend hdecode]
    exact hstep _ op _ (ih (done + 1))

/-- Performs the operations that can be read, and then faults unless they are all that there is. -/
def performReadable (nested : Runner σ) (cursor : Cursor) (done : Nat) :
    Faulting (Context σ) Nat := do
  performAll nested (readableOperations cursor)
  let ops ← decodeOperations cursor
  return done + ops.length

theorem performReadable_of_decode {cursor : Cursor} {ops : List Operation}
    (h : decodeOperations cursor = .ok ops) (done : Nat) :
    performReadable nested cursor done = (do
      performAll nested ops
      return done + ops.length) := by
  rw [performReadable, readableOperations_eq h, h]
  rfl

theorem performReadable_decoded {cursor next : Cursor} {op : Operation}
    (hend : ¬ cursor.atEnd = true) (h : Operation.decode.run cursor = .ok op next) (done : Nat) :
    performReadable nested cursor done = (do
      perform nested op
      performReadable nested next (done + 1)) := by
  have hcount : (do let ops ← decodeOperations cursor; return done + ops.length :
      Faulting (Context σ) Nat) =
      (do let ops ← decodeOperations next; return done + 1 + ops.length) := by
    rw [decodeOperations_decoded hend h]
    cases decodeOperations next with
    | error fault => rfl
    | ok ops =>
      have hlength : done + (op :: ops).length = done + 1 + ops.length := by
        rw [List.length_cons]
        omega
      change (pure (done + (op :: ops).length) : Faulting (Context σ) Nat) = _
      rw [hlength]
      rfl
  rw [performReadable, readableOperations_decoded hend h, performAll, bind_assoc, hcount]
  rfl

theorem performReadable_eq_ok {cursor : Cursor} {done n : Nat} {c c' : Context σ}
    (h : (performReadable nested cursor done).run c = .ok n c') :
    ∃ ops, decodeOperations cursor = .ok ops ∧ n = done + ops.length ∧
      (performAll nested ops).run c = .ok () c' := by
  rw [performReadable, run_bind_eq_ok] at h
  obtain ⟨_, c₁, hperform, h⟩ := h
  rw [run_lift_bind_eq_ok] at h
  obtain ⟨ops, hops, h⟩ := h
  obtain ⟨rfl, rfl⟩ := run_pure_eq_ok.1 h
  rw [readableOperations_eq hops] at hperform
  exact ⟨ops, hops, rfl, hperform⟩

theorem performReadable_eq_error {cursor : Cursor} {done : Nat} {c c' : Context σ} {fault : Fault}
    (h : (performReadable nested cursor done).run c = .error fault c') :
    (performAll nested (readableOperations cursor)).run c = .error fault c' ∨
      decodeOperations cursor = .error fault := by
  rw [performReadable] at h
  cases hrun : (performAll nested (readableOperations cursor)).run c with
  | error fault' c₁ =>
    rw [run_bind_of_error hrun] at h
    cases h
    exact .inl rfl
  | ok _ c₁ =>
    rw [run_bind_of_ok hrun, run_lift_bind_eq_error] at h
    rcases h with ⟨hops, -⟩ | ⟨ops, -, h⟩
    · exact .inr hops
    · cases h

section

variable {τ : Type} [Host τ] {H : World σ → World τ → Prop} {nested' : Runner τ}

theorem follows_interpret {excused : Fault → Prop} {L : Ledger → Ledger → Prop}
    (hL : Ledger.Pairing excused L) (hH : World.Coupling H nested nested') {cursor cursor' : Cursor}
    (h : cursor.Alike cursor') (done : Nat) :
    Follows excused (Abreast L H) (interpret nested cursor done)
      (interpret nested' cursor' done) := by
  have htracks : Tracks Cursor.Alike Operation.decode Operation.decode :=
    (assembled_decode (Q := fun _ => True) trivial fun _ => trivial).tracks
  induction cursor using Cursor.reading_induction generalizing cursor' done with
  | ended cursor hend =>
    rw [interpret_atEnd hend, interpret_atEnd (h.atEnd.trans hend)]
    exact .pure done
  | failed cursor fault _ hend hdecode =>
    have hread := htracks cursor cursor' h
    rw [hdecode] at hread
    obtain ⟨_, hdecode', -⟩ := hread.right_of_error
    rw [interpret_failed hend hdecode, interpret_failed (h.atEnd ▸ hend) hdecode']
    exact .throw fault
  | decoded cursor op next hend hdecode ih =>
    have hread := htracks cursor cursor' h
    rw [hdecode] at hread
    obtain ⟨next', hdecode', hnext⟩ := hread.right_of_ok
    rw [interpret_decoded hend hdecode, interpret_decoded (h.atEnd ▸ hend) hdecode']
    exact .bind (follows_note hH _ _) fun _ => .bind (follows_perform hL hH op) fun _ =>
      ih hnext (done + 1)

theorem tracks_interpret (hH : World.Coupling H nested nested') (cursor : Cursor) (done : Nat) :
    Tracks (InStep H) (interpret nested cursor done) (interpret nested' cursor done) :=
  (follows_interpret Ledger.pairing_same hH ⟨rfl, rfl, rfl⟩ done).tracks

/-- Reading and performing in turn does what reading first and performing then does. -/
theorem tracks_interpret_readable (hH : World.Coupling H nested nested') (cursor : Cursor)
    (done : Nat) :
    Tracks (InStep H) (interpret nested cursor done) (performReadable nested' cursor done) := by
  apply Follows.tracks
  induction cursor using Cursor.reading_induction generalizing done with
  | ended cursor hend =>
    rw [interpret_atEnd hend, performReadable_of_decode (decodeOperations_atEnd hend)]
    exact .pure done
  | failed cursor fault _ hend hdecode =>
    rw [interpret_failed hend hdecode, performReadable, readableOperations_failed hend hdecode,
      decodeOperations_failed hend hdecode]
    exact .throw fault
  | decoded cursor op next hend hdecode ih =>
    rw [interpret_decoded hend hdecode, performReadable_decoded hend hdecode]
    exact follows_note_bind hH _
      (.bind (follows_perform Ledger.pairing_same hH op) fun _ => ih (done + 1))

end

omit [Host σ] in
theorem run_forM_note {α : Type} (entry : α → JournalEntry) (l : List α) (c : Context σ) :
    ∃ journal, (l.forM fun a => note (entry a)).run c = .ok () { c with journal := journal } := by
  induction l generalizing c with
  | nil => exact ⟨c.journal, rfl⟩
  | cons a l ih => exact ih { c with journal := c.journal ++ [entry a] }

omit [Host σ] in
theorem close_settled {c : Context σ} (h : c.ledger.checkSettled = .ok ()) (n : Nat) :
    (close n).run c = .ok
      ⟨c.caller, n, c.ledger.capacity, c.ledger.probes, c.released, c.events⟩
      { c with engine := { c.engine with book := c.overlay.commitTo c.engine.book } } := by
  simp only [close, EStateM.run_bind, EStateM.run_get, h]
  rfl

omit [Host σ] in
theorem close_unsettled {c : Context σ} {fault : Fault} (h : c.ledger.checkSettled = .error fault)
    (n : Nat) : ∃ journal, (close n).run c = .error fault { c with journal := journal } := by
  obtain ⟨journal, hnotes⟩ := run_forM_note
    (fun entry : Address × Delta => .unsettled entry.1 entry.2) c.ledger.outstanding c
  refine ⟨journal, ?_⟩
  simp only [close, EStateM.run_bind, EStateM.run_get, h]
  rw [hnotes]
  rfl

end Context

namespace World

variable {σ : Type} [Host σ]

def setBook (w : World σ) (book : PoolBook) : World σ :=
  { w with engine := { w.engine with book := book } }

/-- How programs are run that the outside world hands to a running engine. -/
def nestedRunner : Runner σ := executeWith fun _ _ => throw .reentrancy

def begin (w : World σ) (caller : Address) (ledger : Ledger) : Context σ :=
  .start (w.setExecuting true) caller ledger

def Running (book : PoolBook) (e : Engine) : Prop := e.executing = true ∧ e.book = book

theorem keptByFees_running (book : PoolBook) : KeptByFees (Running book) := fun _ _ h _ => h

theorem steady_nestedRunner {P : Engine → Prop} (h : ∀ e, P e → e.executing = true) :
    Steady P (nestedRunner : Runner σ) :=
  steady_executeWith h _

theorem coupling_running (book : PoolBook) :
    Coupling (Alike (Running book)) (nestedRunner : Runner σ) nestedRunner :=
  coupling_alike (keptByFees_running book) (steady_nestedRunner fun _ h => h.1)

theorem interpret_matches_readable (w : World σ) (caller : Address) (ledger : Ledger)
    (cursor : Cursor) :
    Matches (Context.InStep (Alike (Running w.engine.book)))
      ((Context.interpret nestedRunner cursor 0).run (w.begin caller ledger))
      ((Context.performReadable nestedRunner cursor 0).run (w.begin caller ledger)) :=
  Context.tracks_interpret_readable (coupling_running w.engine.book) cursor 0 _ _
    (.refl ⟨rfl, rfl⟩)

omit [Host σ] in
theorem within_ok {α : Type} {caller : Address} {ledger : Ledger} {work : Faulting (Context σ) α}
    {w : World σ} {a : α} {c : Context σ} (h : work.run (.start w caller ledger) = .ok a c) :
    (within caller ledger work).run w = .ok a c.toWorld := by
  simp only [EStateM.run, within] at h ⊢
  rw [h]

omit [Host σ] in
theorem within_error {α : Type} {caller : Address} {ledger : Ledger}
    {work : Faulting (Context σ) α} {w : World σ} {fault : Fault} {c : Context σ}
    (h : work.run (.start w caller ledger) = .error fault c) :
    (within caller ledger work).run w = .error fault c.toWorld := by
  simp only [EStateM.run, within] at h ⊢
  rw [h]

theorem runProgram_eq {nested : Runner σ} {caller : Address} {data : List UInt8}
    {capacity : UInt16} {cursor : Cursor} {ledger : Ledger} (w : World σ)
    (hread : Cursor.readUInt16.run (.start data) = .ok capacity cursor)
    (hledger : Ledger.ofCapacity capacity.toNat = .ok ledger) :
    (runProgram nested caller data).run w =
      (within caller ledger (Context.interpret nested cursor 0 >>= Context.close)).run w := by
  unfold runProgram
  rw [hread]
  simp only [EStateM.run_bind, hledger]
  rfl

theorem runProgram_unread {nested : Runner σ} {caller : Address} {data : List UInt8}
    {cursor : Cursor} {fault : Fault} (w : World σ)
    (hread : Cursor.readUInt16.run (.start data) = .error fault cursor) :
    (runProgram nested caller data).run w = .error fault w := by
  unfold runProgram
  rw [hread]
  rfl

theorem runProgram_noLedger {nested : Runner σ} {caller : Address} {data : List UInt8}
    {capacity : UInt16} {cursor : Cursor} {fault : Fault} (w : World σ)
    (hread : Cursor.readUInt16.run (.start data) = .ok capacity cursor)
    (hledger : Ledger.ofCapacity capacity.toNat = .error fault) :
    (runProgram nested caller data).run w = .error fault w := by
  unfold runProgram
  rw [hread]
  simp only [EStateM.run_bind, hledger]
  rfl

section

variable {τ : Type} [Host τ] {H R : World σ → World τ → Prop} {nested : Runner σ}
  {nested' : Runner τ} (hH : Coupling H nested nested') (hcommitted : ∀ w v book, H w v →
    R (w.setBook book) (v.setBook book)) (hfaulted : ∀ w v, H w v → R w v)

include hH hcommitted hfaulted

theorem matches_close {c : Context σ} {d : Context τ} (h : Context.InStep H c d) (n : Nat) :
    Matches (fun c d => R c.toWorld d.toWorld) ((Context.close n).run c)
      ((Context.close n).run d) := by
  cases hsettled : c.ledger.checkSettled with
  | ok =>
    rw [Context.close_settled hsettled, Context.close_settled (h.ledger ▸ hsettled), h.caller,
      h.ledger, h.released, h.events, h.overlay, hH.book h.world]
    exact .ok _ (hcommitted _ _ _ h.world)
  | error fault =>
    obtain ⟨journal, hclose⟩ := Context.close_unsettled hsettled n
    obtain ⟨journal', hclose'⟩ := Context.close_unsettled (c := d) (h.ledger ▸ hsettled) n
    rw [hclose, hclose']
    exact .error _ (hfaulted _ _ (hH.journal journal journal' h.world))

omit [Host σ] [Host τ] hH hcommitted hfaulted in
theorem matches_within {α : Type} {caller : Address} {ledger : Ledger}
    {x : Faulting (Context σ) α} {y : Faulting (Context τ) α} {w : World σ} {v : World τ}
    (h : Matches (fun c d => R c.toWorld d.toWorld) (x.run (.start w caller ledger))
      (y.run (.start v caller ledger))) :
    Matches R ((within caller ledger x).run w) ((within caller ledger y).run v) := by
  simp only [EStateM.run, within] at h ⊢
  generalize x (.start w caller ledger) = r at h
  generalize y (.start v caller ledger) = r' at h
  cases h with
  | ok a h => exact .ok a h
  | error fault h => exact .error fault h

theorem matches_runProgram {w : World σ} {v : World τ} (h : H w v)
    (hfees : v.engine.fees = w.engine.fees) (caller : Address) (data : List UInt8) :
    Matches R ((runProgram nested caller data).run w) ((runProgram nested' caller data).run v) := by
  cases hread : Cursor.readUInt16.run (.start data) with
  | error fault cursor =>
    rw [runProgram_unread _ hread, runProgram_unread _ hread]
    exact .error _ (hfaulted _ _ h)
  | ok capacity cursor =>
    cases hledger : Ledger.ofCapacity capacity.toNat with
    | error fault =>
      rw [runProgram_noLedger _ hread hledger, runProgram_noLedger _ hread hledger]
      exact .error _ (hfaulted _ _ h)
    | ok ledger =>
      rw [runProgram_eq _ hread hledger, runProgram_eq _ hread hledger]
      refine matches_within ?_
      have hrun := Context.tracks_interpret hH cursor 0 _ _
        (Context.inStep_start h hfees caller ledger)
      rw [EStateM.run_bind, EStateM.run_bind]
      generalize (Context.interpret nested cursor 0).run (.start w caller ledger) = r at hrun
      generalize (Context.interpret nested' cursor 0).run (.start v caller ledger) = r' at hrun
      cases hrun with
      | ok n h => exact matches_close hH hcommitted hfaulted h n
      | error fault h => exact .error _ (hfaulted _ _ h.world)

end

def abandon (w : World σ) (caller : Address) (fault : Fault) : World σ :=
  (w.setExecuting false).note (.failed caller fault)

def conclude (w : World σ) (caller : Address) (receipt : Receipt) : World σ :=
  (w.setExecuting false).note (.committed caller receipt.operations receipt.ledgerProbes)

theorem execute_eq {caller : Address} {data : List UInt8} {w : World σ}
    (h : w.engine.executing = false) :
    (execute caller data).run w =
      match (runProgram nestedRunner caller data).run (w.setExecuting true) with
      | .ok receipt w => .ok receipt (w.conclude caller receipt)
      | .error fault w => .error fault (w.abandon caller fault) := by
  change executeWith nestedRunner caller data w = _
  unfold executeWith
  rw [h]
  rfl

theorem execute_refused {caller : Address} {data : List UInt8} {w : World σ}
    (h : w.engine.executing = true) : (execute caller data).run w = .error .reentrancy w :=
  executeWith_refused h

theorem execute_twins {w v : World σ} (h : w.Twins v) (caller : Address) (data : List UInt8) :
    Matches Twins ((execute caller data).run w) ((execute caller data).run v) := by
  cases hidle : w.engine.executing with
  | true =>
    rw [execute_refused hidle, execute_refused (h.1 ▸ hidle)]
    exact .error _ h
  | false =>
    rw [execute_eq hidle, execute_eq (h.1 ▸ hidle)]
    have hrun := matches_runProgram (R := Twins) (coupling_running w.engine.book)
      (fun w v book h => ⟨congrArg (fun e : Engine => { e with book := book }) h.engine_eq,
        h.host_eq⟩) (fun _ _ h => h.twins)
      ((h.setExecuting true).alike ⟨rfl, rfl⟩) (congrArg Engine.fees (h.setExecuting true).1) caller
      data
    generalize (runProgram nestedRunner caller data).run (w.setExecuting true) = r at hrun
    generalize (runProgram nestedRunner caller data).run (v.setExecuting true) = r' at hrun
    cases hrun with
    | ok receipt h => exact .ok receipt (h.setExecuting false)
    | error fault h => exact .error fault (h.setExecuting false)

theorem execute_eq_interpret {caller : Address} {data : List UInt8} {w : World σ}
    {capacity : UInt16} {cursor : Cursor} {ledger : Ledger} (hidle : w.engine.executing = false)
    (hread : Cursor.readUInt16.run (.start data) = .ok capacity cursor)
    (hledger : Ledger.ofCapacity capacity.toNat = .ok ledger) :
    (execute caller data).run w =
      match (Context.interpret nestedRunner cursor 0 >>= Context.close).run
        (w.begin caller ledger) with
      | .ok receipt c => .ok receipt (c.toWorld.conclude caller receipt)
      | .error fault c => .error fault (c.toWorld.abandon caller fault) := by
  rw [execute_eq hidle, runProgram_eq _ hread hledger, begin]
  cases hrun : (Context.interpret nestedRunner cursor 0 >>= Context.close).run
      (.start (w.setExecuting true) caller ledger) with
  | ok receipt c => rw [within_ok hrun]
  | error fault c => rw [within_error hrun]

def Unopened (data : List UInt8) (fault : Fault) : Prop :=
  (∃ cursor, Cursor.readUInt16.run (.start data) = .error fault cursor) ∨
    ∃ capacity cursor, Cursor.readUInt16.run (.start data) = .ok capacity cursor ∧
      Ledger.ofCapacity capacity.toNat = .error fault

inductive Ended (w : World σ) (caller : Address) (data : List UInt8) :
    EStateM.Result Fault (World σ) Receipt → Prop
  | refused (h : w.engine.executing = true) : Ended w caller data (.error .reentrancy w)
  | unopened {fault : Fault} (h : Unopened data fault) :
      Ended w caller data (.error fault ((w.setExecuting true).abandon caller fault))
  | faulted {capacity : UInt16} {cursor : Cursor} {ledger : Ledger} {fault : Fault}
      {c : Context σ} (hread : Cursor.readUInt16.run (.start data) = .ok capacity cursor)
      (hledger : Ledger.ofCapacity capacity.toNat = .ok ledger)
      (hrun : (Context.interpret nestedRunner cursor 0).run (w.begin caller ledger) =
        .error fault c) :
      Ended w caller data (.error fault (c.toWorld.abandon caller fault))
  | unsettled {capacity : UInt16} {cursor : Cursor} {ledger : Ledger} {fault : Fault} {n : Nat}
      {c : Context σ} {journal : List JournalEntry}
      (hread : Cursor.readUInt16.run (.start data) = .ok capacity cursor)
      (hledger : Ledger.ofCapacity capacity.toNat = .ok ledger)
      (hrun : (Context.interpret nestedRunner cursor 0).run (w.begin caller ledger) = .ok n c)
      (hopen : c.ledger.checkSettled = .error fault) :
      Ended w caller data
        (.error fault ({ c.toWorld with journal := journal }.abandon caller fault))
  | committed {capacity : UInt16} {cursor : Cursor} {ledger : Ledger} {n : Nat} {c : Context σ}
      {receipt : Receipt} (hidle : w.engine.executing = false)
      (hread : Cursor.readUInt16.run (.start data) = .ok capacity cursor)
      (hledger : Ledger.ofCapacity capacity.toNat = .ok ledger)
      (hrun : (Context.interpret nestedRunner cursor 0).run (w.begin caller ledger) = .ok n c)
      (hsettled : c.ledger.checkSettled = .ok ())
      (hreceipt : receipt =
        ⟨c.caller, n, c.ledger.capacity, c.ledger.probes, c.released, c.events⟩) :
      Ended w caller data (.ok receipt
        ({ c.toWorld with
          engine := { c.engine with book := c.overlay.commitTo c.engine.book } }.conclude caller
            receipt))

theorem ended_execute (w : World σ) (caller : Address) (data : List UInt8) :
    Ended w caller data ((execute caller data).run w) := by
  cases hidle : w.engine.executing with
  | true =>
    rw [execute_refused hidle]
    exact .refused hidle
  | false =>
    rw [execute_eq hidle]
    cases hread : Cursor.readUInt16.run (.start data) with
    | error fault cursor =>
      rw [runProgram_unread _ hread]
      exact .unopened (.inl ⟨cursor, hread⟩)
    | ok capacity cursor =>
      cases hledger : Ledger.ofCapacity capacity.toNat with
      | error fault =>
        rw [runProgram_noLedger _ hread hledger]
        exact .unopened (.inr ⟨capacity, cursor, hread, hledger⟩)
      | ok ledger =>
        rw [runProgram_eq _ hread hledger]
        cases hrun : (Context.interpret nestedRunner cursor 0).run (w.begin caller ledger) with
        | error fault c =>
          rw [within_error (run_bind_of_error hrun _)]
          exact .faulted hread hledger hrun
        | ok n c =>
          cases hsettled : c.ledger.checkSettled with
          | error fault =>
            obtain ⟨journal, hclose⟩ := Context.close_unsettled hsettled n
            rw [within_error ((run_bind_of_ok hrun _).trans hclose)]
            exact .unsettled hread hledger hrun hsettled
          | ok =>
            rw [within_ok ((run_bind_of_ok hrun _).trans (Context.close_settled hsettled n))]
            exact .committed hidle hread hledger hrun hsettled rfl

variable {caller : Address} {data : List UInt8} {w w' : World σ}

/-- A program whose operations are performed is committed if nothing is left open, and otherwise
faults as the closing check says. -/
theorem execute_of_performAll {capacity : UInt16} {ops : List Operation} {ledger : Ledger}
    {c : Context σ} (hidle : w.engine.executing = false)
    (hdecode : Program.decode data = .ok ⟨capacity, ops⟩)
    (hledger : Ledger.ofCapacity capacity.toNat = .ok ledger)
    (hrun : (Context.performAll nestedRunner ops).run (w.begin caller ledger) = .ok () c) :
    (c.ledger.checkSettled = .ok () → ∃ receipt w', (execute caller data).run w = .ok receipt w') ∧
      ∀ fault, c.ledger.checkSettled = .error fault →
        ∃ w', (execute caller data).run w = .error fault w' := by
  obtain ⟨cursor, hread, hops⟩ := Program.decode_eq_ok.1 hdecode
  have hmatches := interpret_matches_readable w caller ledger cursor
  rw [Context.performReadable_of_decode hops, run_bind_of_ok hrun] at hmatches
  obtain ⟨d, hinterpret, hd⟩ := hmatches.left_of_ok
  obtain ⟨-, journal, rfl⟩ := hd.eq_withJournal
  rw [execute_eq hidle, runProgram_eq _ hread hledger]
  constructor
  · intro hsettled
    have hclose := Context.close_settled (c := d) hsettled (0 + ops.length)
    rw [within_ok ((run_bind_of_ok hinterpret _).trans hclose)]
    exact ⟨_, _, rfl⟩
  · intro fault hunsettled
    obtain ⟨journal', hclose⟩ := Context.close_unsettled (c := d) hunsettled (0 + ops.length)
    rw [within_error ((run_bind_of_ok hinterpret _).trans hclose)]
    exact ⟨_, rfl⟩

structure Committed (w : World σ) (caller : Address) (data : List UInt8) (receipt : Receipt)
    (w' : World σ) (p : Program) (ledger : Ledger) (c : Context σ) : Prop where
  idle : w.engine.executing = false
  decoded : Program.decode data = .ok p
  opened : Ledger.ofCapacity p.ledgerCapacity.toNat = .ok ledger
  performed : (Context.performAll nestedRunner p.operations).run (w.begin caller ledger) =
    .ok () c
  settled : c.ledger.checkSettled = .ok ()
  released : receipt.released = c.released
  events : receipt.events = c.events
  engine : w'.engine =
    { c.engine with book := c.overlay.commitTo c.engine.book, executing := false }
  host : w'.host = c.host

theorem execute_eq_ok {receipt : Receipt} (h : (execute caller data).run w = .ok receipt w') :
    ∃ p ledger c, Committed w caller data receipt w' p ledger c := by
  have hended := ended_execute w caller data
  rw [h] at hended
  cases hended with
  | @committed capacity cursor ledger n c _ hidle hread hledger hrun hsettled hreceipt =>
    have hmatches := interpret_matches_readable w caller ledger cursor
    rw [hrun] at hmatches
    obtain ⟨d, hreadable, hd⟩ := hmatches.right_of_ok
    obtain ⟨-, journal, rfl⟩ := hd.eq_withJournal
    obtain ⟨ops, hops, -, hperform⟩ := Context.performReadable_eq_ok hreadable
    subst hreceipt
    exact ⟨⟨capacity, ops⟩, ledger, _, {
      idle := hidle
      decoded := Program.decode_eq_ok.2 ⟨cursor, hread, hops⟩
      opened := hledger
      performed := hperform
      settled := hsettled
      released := rfl
      events := rfl
      engine := rfl
      host := rfl }⟩

end World

end NetSettle
