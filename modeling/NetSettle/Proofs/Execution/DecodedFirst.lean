import NetSettle.Proofs.Execution.Gate
import NetSettle.Proofs.Execution.Requests
import NetSettle.Proofs.Program.Grammar

/-!
# Programs that are decoded first

A program is read while it runs. It could as well be decoded first: then its capacity is checked,
its operations are performed in order, and the ledger is closed. Both ways end alike and leave the
same engine and the same outside world, also for bytes that are no program: these are never
committed, and are refused for what is wrong with them if nothing before that place faults.
-/
namespace NetSettle

open Faulting

namespace Context

variable {σ : Type} [Host σ] {nested : Runner σ}

/-- What is noted while a program runs depends on its operations and not on how they are
spelled. -/
theorem interpret_congr {ops : List Operation} {c d : Cursor} (hc : c.data.length < 2 ^ 63)
    (hd : d.data.length < 2 ^ 63) (hoffset : c.offset = d.offset)
    (hops : decodeOperations c = .ok ops) (hops' : decodeOperations d = .ok ops) (done : Nat) :
    interpret nested c done = interpret nested d done := by
  induction ops generalizing c d done with
  | nil =>
    rw [interpret_atEnd (decodeOperations_eq_nil hops),
      interpret_atEnd (decodeOperations_eq_nil hops')]
  | cons op ops ih =>
    obtain ⟨hend, next, hdecode, hrest⟩ := decodeOperations_eq_cons hops
    obtain ⟨hend', next', hdecode', hrest'⟩ := decodeOperations_eq_cons hops'
    obtain ⟨bytes, ⟨-, hspells⟩, -, rfl⟩ := (Operation.accepts_decode c op next hc).1 hdecode
    obtain ⟨bytes', ⟨-, hspells'⟩, -, rfl⟩ := (Operation.accepts_decode d op next' hd).1 hdecode'
    -- Offsets are noted in the journal. Both spellings are equally long, so the next ones agree.
    have hnext : (c.skip bytes.length).offset = (d.skip bytes'.length).offset := by
      change c.offset + bytes.length = d.offset + bytes'.length
      rw [hoffset, hspells.length_eq, hspells'.length_eq]
    rw [interpret_decoded hend hdecode, interpret_decoded hend' hdecode', hoffset,
      ih (c := c.skip bytes.length) (d := d.skip bytes'.length) hc hd hnext hrest hrest']

end Context

namespace World

variable {σ : Type} [Host σ]

/-- Performs a program that has been decoded: checks its capacity, performs its operations in
order, and closes the ledger. -/
def performProgram (caller : Address) (p : Program) : Faulting (World σ) Receipt := do
  let ledger ← Ledger.ofCapacity p.ledgerCapacity.toNat
  within caller ledger do
    Context.performAll nestedRunner p.operations
    Context.close p.operations.length

def executeDecoded (caller : Address) (p : Program) : Faulting (World σ) Receipt := fun w =>
  if w.engine.executing then .error .reentrancy w
  else
    match (performProgram caller p).run (w.setExecuting true) with
    | .ok receipt w => .ok receipt (w.setExecuting false)
    | .error fault w => .error fault (w.setExecuting false)

/-- Worlds that differ in the journal at most. -/
def SameState (w v : World σ) : Prop := v.engine = w.engine ∧ v.host = w.host

omit [Host σ] in
theorem sameState_of_alike {P : Engine → Prop} (w v : World σ) (h : Alike P w v) :
    SameState w v := by
  obtain ⟨-, journal, rfl⟩ := h
  exact ⟨rfl, rfl⟩

omit [Host σ] in
theorem sameState_setBook {P : Engine → Prop} (w v : World σ) (book : PoolBook)
    (h : Alike P w v) : SameState (w.setBook book) (v.setBook book) := by
  obtain ⟨-, journal, rfl⟩ := h
  exact ⟨rfl, rfl⟩

theorem matches_performProgram {data : List UInt8} {p : Program}
    (hdecode : Program.decode data = .ok p) (caller : Address) (w : World σ) :
    Matches SameState ((runProgram nestedRunner caller data).run (w.setExecuting true))
      ((performProgram caller p).run (w.setExecuting true)) := by
  obtain ⟨cursor, hread, hops⟩ := Program.decode_eq_ok.1 hdecode
  cases hledger : Ledger.ofCapacity p.ledgerCapacity.toNat with
  | error fault =>
    have hperform : (performProgram caller p).run (w.setExecuting true) =
        .error fault (w.setExecuting true) := by
      rw [performProgram, hledger]
      rfl
    rw [runProgram_noLedger _ hread hledger, hperform]
    exact .error fault ⟨rfl, rfl⟩
  | ok ledger =>
    have hperform : (performProgram caller p).run (w.setExecuting true) =
        (within caller ledger (Context.performAll nestedRunner p.operations >>= fun _ =>
          Context.close p.operations.length)).run (w.setExecuting true) := by
      rw [performProgram, hledger]
      rfl
    have hmatches := interpret_matches_readable w caller ledger cursor
    rw [Context.performReadable_of_decode hops, Nat.zero_add] at hmatches
    rw [runProgram_eq _ hread hledger, hperform]
    refine matches_within ?_
    change Matches _ ((Context.interpret nestedRunner cursor 0 >>= Context.close).run
      (w.begin caller ledger)) ((Context.performAll nestedRunner p.operations >>= fun _ =>
        Context.close p.operations.length).run (w.begin caller ledger))
    cases hrun : (Context.performAll nestedRunner p.operations).run (w.begin caller ledger) with
    | error fault c =>
      rw [run_bind_of_error hrun] at hmatches
      obtain ⟨d, hinterpret, hd⟩ := hmatches.left_of_error
      obtain ⟨-, journal, rfl⟩ := hd.eq_withJournal
      rw [run_bind_of_error hinterpret, run_bind_of_error hrun]
      exact .error fault ⟨rfl, rfl⟩
    | ok _ c =>
      rw [run_bind_of_ok hrun] at hmatches
      obtain ⟨d, hinterpret, hd⟩ := hmatches.left_of_ok
      rw [run_bind_of_ok hinterpret, run_bind_of_ok hrun]
      exact matches_close (coupling_running w.engine.book) sameState_setBook sameState_of_alike hd
        p.operations.length

theorem matches_executeDecoded {data : List UInt8} {p : Program}
    (hdecode : Program.decode data = .ok p) (caller : Address) (w : World σ) :
    Matches SameState ((execute caller data).run w) ((executeDecoded caller p).run w) := by
  cases hidle : w.engine.executing with
  | true =>
    have hrefused : (executeDecoded caller p).run w = .error .reentrancy w := by
      simp [EStateM.run, executeDecoded, hidle]
    rw [execute_refused hidle, hrefused]
    exact .error _ ⟨rfl, rfl⟩
  | false =>
    have hmatches := matches_performProgram hdecode caller w
    have hdecoded : (executeDecoded caller p).run w =
        match (performProgram caller p).run (w.setExecuting true) with
        | .ok receipt w => .ok receipt (w.setExecuting false)
        | .error fault w => .error fault (w.setExecuting false) := by
      simp [EStateM.run, executeDecoded, hidle]
    rw [execute_eq hidle, hdecoded]
    generalize (runProgram nestedRunner caller data).run (w.setExecuting true) = r at hmatches
    generalize (performProgram caller p).run (w.setExecuting true) = r' at hmatches
    cases hmatches with
    | ok receipt h =>
      exact .ok receipt ⟨congrArg (fun e => { e with executing := false }) h.1, h.2⟩
    | error fault h =>
      exact .error fault ⟨congrArg (fun e => { e with executing := false }) h.1, h.2⟩

theorem execute_congr {data data' : List UInt8} {p : Program} (hdata : data.length < 2 ^ 63)
    (hdata' : data'.length < 2 ^ 63) (h : Program.decode data = .ok p)
    (h' : Program.decode data' = .ok p) (caller : Address) :
    (execute caller data : Faulting (World σ) Receipt) = execute caller data' := by
  obtain ⟨c, hread, hops⟩ := Program.decode_eq_ok.1 h
  obtain ⟨d, hread', hops'⟩ := Program.decode_eq_ok.1 h'
  obtain ⟨_, rfl, -, rfl⟩ := (accepts_readUInt16 _ _ _ hdata).1 hread
  obtain ⟨_, rfl, -, rfl⟩ := (accepts_readUInt16 _ _ _ hdata').1 hread'
  have hrun (nested : Runner σ) :
      runProgram nested caller data = runProgram nested caller data' := by
    have hinterpret : Context.interpret nested _ 0 = Context.interpret nested _ 0 :=
      Context.interpret_congr (c := (Cursor.start data).skip _)
        (d := (Cursor.start data').skip _) hdata hdata' rfl hops hops' 0
    unfold runProgram
    rw [hread, hread']
    simp only [hinterpret]
  funext w
  unfold execute
  rw [executeWith, executeWith, hrun]

variable {caller : Address} {data : List UInt8} {w : World σ} {e : Fault}

theorem execute_undecodable (h : Program.decode data = .error e) :
    ∃ fault w', (execute caller data).run w = .error fault w' ∧
      w'.engine.book = w.engine.book := by
  cases hrun : (execute caller data).run w with
  | ok receipt w' =>
    obtain ⟨p, ledger, c, hcommitted⟩ := execute_eq_ok hrun
    have hdecoded := hcommitted.decoded
    rw [h] at hdecoded
    cases hdecoded
  | error fault w' =>
    refine ⟨fault, w', rfl, ?_⟩
    obtain rfl | ⟨engine, hrunning, hengine⟩ := execute_eq_error_of_keptByFees
      (fun _ h => h.1) (keptByFees_running w.engine.book) ⟨rfl, rfl⟩ hrun
    · rfl
    · rw [hengine]
      exact hrunning.2

theorem execute_headless {cursor : Cursor} {fault : Fault} (hidle : w.engine.executing = false)
    (h : Program.decode data = .error e)
    (hread : Cursor.readUInt16.run (.start data) = .error fault cursor) :
    ∃ w', (execute caller data).run w = .error e w' := by
  have he : fault = e := by
    rw [Program.decode, hread] at h
    cases h
    rfl
  rw [execute_eq hidle, runProgram_unread _ hread, he]
  exact ⟨_, rfl⟩

theorem execute_unreadable {capacity : UInt16} {cursor : Cursor} {ledger : Ledger} {c : Context σ}
    (hidle : w.engine.executing = false) (h : Program.decode data = .error e)
    (hread : Cursor.readUInt16.run (.start data) = .ok capacity cursor)
    (hledger : Ledger.ofCapacity capacity.toNat = .ok ledger)
    (hrun : (Context.performAll nestedRunner (readableOperations cursor)).run
      (w.begin caller ledger) = .ok () c) :
    ∃ w', (execute caller data).run w = .error e w' := by
  have hops : decodeOperations cursor = .error e := by
    rw [Program.decode, hread] at h
    cases hops : decodeOperations cursor with
    | error fault =>
      simp only [hops] at h
      cases h
      rfl
    | ok ops =>
      simp only [hops] at h
      cases h
  have hreadable : (Context.performReadable nestedRunner cursor 0).run (w.begin caller ledger) =
      .error e c := by
    rw [Context.performReadable, run_bind_of_ok hrun, hops]
    rfl
  have hmatches := interpret_matches_readable w caller ledger cursor
  rw [hreadable] at hmatches
  obtain ⟨d, hinterpret, -⟩ := hmatches.left_of_error
  rw [execute_eq hidle, runProgram_eq _ hread hledger,
    within_error (run_bind_of_error hinterpret _)]
  exact ⟨_, rfl⟩

/-- A program does what its decoded operations do, however it is spelled. Bytes that are no program
are never committed and leave the book alone; what is wrong with them is reported if they have no
header, or if what could be read before was performed. -/
theorem reading_agrees_with_decoding (w : World σ) (caller : Address) (data : List UInt8)
    (hdata : data.length < 2 ^ 63) :
    (∀ p, Program.decode data = .ok p →
      Matches SameState ((execute caller data).run w) ((executeDecoded caller p).run w) ∧
        (execute caller data).run w = (execute caller p.encode).run w) ∧
    ∀ e, Program.decode data = .error e →
      (∃ fault w', (execute caller data).run w = .error fault w' ∧
        w'.engine.book = w.engine.book) ∧
      (w.engine.executing = false →
        (∀ fault cursor, Cursor.readUInt16.run (.start data) = .error fault cursor →
          ∃ w', (execute caller data).run w = .error e w') ∧
        ∀ capacity cursor, Cursor.readUInt16.run (.start data) = .ok capacity cursor →
          capacity ≠ 0 →
          ∃ ledger, Ledger.ofCapacity capacity.toNat = .ok ledger ∧
            ∀ c, (Context.performAll nestedRunner (readableOperations cursor)).run
                (w.begin caller ledger) = .ok () c →
              ∃ w', (execute caller data).run w = .error e w') := by
  constructor
  · intro p hdecode
    refine ⟨matches_executeDecoded hdecode caller w, ?_⟩
    obtain ⟨htokens, hspells⟩ := (Program.decode_eq_ok_iff hdata).1 hdecode
    have hencode : p.encode.length < 2 ^ 63 := hspells.length_eq ▸ hdata
    rw [execute_congr hdata hencode hdecode
      ((Program.decode_eq_ok_iff hencode).2 ⟨htokens, p.spells_encode⟩)]
  · intro e hdecode
    refine ⟨execute_undecodable hdecode, fun hidle =>
      ⟨fun _ _ hread => execute_headless hidle hdecode hread, ?_⟩⟩
    intro capacity cursor hread hcapacity
    have hpos : 0 < capacity.toNat :=
      Nat.pos_of_ne_zero fun h0 => hcapacity (UInt16.toNat_inj.1 (h0.trans UInt16.toNat_zero.symm))
    obtain ⟨ledger, hledger, -⟩ := Ledger.exists_ofCapacity hpos
    exact ⟨ledger, hledger, fun c hrun => execute_unreadable hidle hdecode hread hledger hrun⟩

def cutShort : List UInt8 := openDeposit.encode ++ [0xff]

theorem reading_agrees_with_decoding_cutShort :
    Matches SameState ((execute 7 openDeposit.encode).run lender)
        ((executeDecoded 7 openDeposit).run lender) ∧
      Program.decode cutShort = .error (.unknownOperation 0xff) ∧
      ∃ w', (execute 7 cutShort).run lender = .error (.unknownOperation 0xff) w' := by
  have hdecode : Program.decode openDeposit.encode = .ok openDeposit := by decide +kernel
  have hcut : Program.decode cutShort = .error (.unknownOperation 0xff) := by decide +kernel
  have hlength : openDeposit.encode.length < 2 ^ 63 ∧ cutShort.length < 2 ^ 63 := by
    decide +kernel
  obtain ⟨hagrees, -⟩ := reading_agrees_with_decoding lender 7 openDeposit.encode hlength.1
  obtain ⟨-, hrefused⟩ := reading_agrees_with_decoding lender 7 cutShort hlength.2
  refine ⟨(hagrees _ hdecode).1, hcut, ?_⟩
  obtain ⟨cursor, hread, hops⟩ : ∃ cursor, Cursor.readUInt16.run (.start cutShort) = .ok 1 cursor ∧
      readableOperations cursor = openDeposit.operations := by
    refine ⟨⟨cutShort, 2⟩, ?_, ?_⟩
    · rfl
    · decide +kernel
  obtain ⟨-, hexact⟩ := (hrefused _ hcut).2 rfl
  obtain ⟨ledger, hledger, hperformed⟩ := hexact 1 cursor hread (by decide)
  rw [hops] at hperformed
  obtain ⟨c, hrun⟩ : ∃ c, (Context.performAll nestedRunner openDeposit.operations).run
      (lender.begin 7 ledger) = .ok () c := by
    cases hledger
    exact ⟨_, rfl⟩
  exact hperformed c hrun

end World

end NetSettle
