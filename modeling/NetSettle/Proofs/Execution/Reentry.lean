import NetSettle.Bank.Rehearsal
import NetSettle.Proofs.Execution.Faults
import NetSettle.Proofs.Execution.Reachable
import NetSettle.Proofs.Keeping

/-!
# Calls from outside

Whatever the outside world is asked, it may call the engine in any way that it likes before it
answers. Its programs are refused, it reads the pools as they were before the execution, and the
fees that it sets are for later: the execution ends as it does in a world that moves the same tokens
and leaves the engine alone. When it has ended, the engine is free again.
-/
namespace NetSettle

open Faulting (finalState)

namespace Session

variable {σ α : Type}

/-- How a session ended, and the fee settings that were set meanwhile, in order. -/
structure Outcome (σ α : Type) where
  answer : α
  host : σ
  changes : List FeeSettings

def Outcome.after (settings : FeeSettings) (outcome : Outcome σ α) : Outcome σ α :=
  { outcome with changes := settings :: outcome.changes }

/-- What a session comes to with an engine that is busy and has these fees. A program is refused and
the outside world is handed back as it was handed over; the pools that are read are those of `book`;
settings that are acceptable and asked for by the admin replace the fees, and nothing else
changes. -/
def aside (admin : Address) (book : PoolBook) : Session σ α → FeeSettings → Outcome σ α
  | .finish answer host, _ => ⟨answer, host, []⟩
  | .execute _ _ host next, fees => (next (.error .reentrancy) host).aside admin book fees
  | .setFees caller settings next, fees =>
    if caller ≠ admin then (next (.error (.unauthorized caller))).aside admin book fees
    else
      match settings.validate with
      | .ok _ => ((next (.ok ())).aside admin book settings).after settings
      | .error fault => (next (.error fault)).aside admin book fees
  | .readFees next, fees => (next fees).aside admin book fees
  | .readPool pair next, fees => (next (book.find? pair)).aside admin book fees
  | .readPools next, fees => (next book.pools).aside admin book fees
  | .note _ next, fees => next.aside admin book fees

theorem aside_valid (session : Session σ α) (admin : Address) (book : PoolBook)
    (fees : FeeSettings) :
    ∀ settings ∈ (session.aside admin book fees).changes, settings.validate = .ok () := by
  induction session generalizing fees with
  | finish => exact List.forall_mem_nil _
  | execute _ _ host next ih => exact ih _ _ fees
  | setFees caller settings next ih =>
    rw [aside]
    by_cases hadmin : caller = admin
    · rw [if_neg (not_not.2 hadmin)]
      cases hvalid : settings.validate with
      | error fault => exact ih _ fees
      | ok => exact List.forall_mem_cons.2 ⟨hvalid, ih _ settings⟩
    · rw [if_pos hadmin]
      exact ih _ fees
  | readFees next ih | readPool _ next ih | readPools next ih => exact ih _ fees
  | note _ next ih => exact ih fees

end Session

namespace World

variable {σ α : Type}

def resumed (w : World σ) (outcome : Session.Outcome σ α) (journal : List JournalEntry) :
    World σ :=
  ⟨{ w.engine with fees := outcome.changes.getLastD w.engine.fees }, outcome.host, journal⟩

end World

theorem Session.run_busy {σ α : Type} [Host σ] (session : Session σ α) {u : World σ}
    (h : u.engine.executing = true) :
    ∃ journal, session.run World.nestedRunner u =
      ((session.aside u.engine.admin u.engine.book u.engine.fees).answer,
        u.resumed (session.aside u.engine.admin u.engine.book u.engine.fees) journal) := by
  -- No call takes the flag back, so what is called after it finds the engine busy again.
  induction session generalizing u with
  | finish answer host => exact ⟨u.journal, rfl⟩
  | execute caller program host next ih =>
    have hrefused : (World.nestedRunner caller program).run { u with host := host } =
        .error .reentrancy { u with host := host } := World.executeWith_refused h
    rw [run, hrefused]
    exact ih (.error .reentrancy) host (u := { u with host := host }) h
  | setFees caller settings next ih =>
    rw [run, aside]
    by_cases hadmin : caller = u.engine.admin
    · rw [if_neg (not_not.2 hadmin)]
      cases hvalid : settings.validate with
      | error fault =>
        rw [World.setFees_invalid hadmin hvalid]
        exact ih (.error fault) h
      | ok =>
        rw [World.setFees_accepted hadmin hvalid]
        obtain ⟨journal, hrun⟩ := ih (.ok ()) (u := { u with
          engine := { u.engine with fees := settings }
          journal := u.journal ++ [.feesUpdated settings] }) h
        refine ⟨journal, hrun.trans ?_⟩
        simp only [World.resumed, Outcome.after, List.getLastD_cons]
    · rw [if_pos hadmin, World.setFees_refused hadmin]
      exact ih (.error (.unauthorized caller)) h
  | readFees next ih => exact ih u.engine.fees h
  | readPool pair next ih => exact ih (u.engine.book.find? pair) h
  | readPools next ih => exact ih u.engine.book.pools h
  | note entry next ih => exact ih (u := u.note entry) h

/-- An outside world that makes no calls. It answers as `host` does to an engine that was `engine`
before the execution began, and keeps a list of the settings that `host` would have set. -/
structure Muted (σ : Type) where
  host : σ
  engine : Engine
  changes : List FeeSettings

namespace Muted

variable {σ : Type}

def fees (m : Muted σ) : FeeSettings := m.changes.getLastD m.engine.fees

def record (m : Muted σ) (host : σ) (changes : List FeeSettings) : Muted σ :=
  { m with host := host, changes := m.changes ++ changes }

theorem fees_record (m : Muted σ) (host : σ) (changes : List FeeSettings) :
    (m.record host changes).fees = changes.getLastD m.fees := by
  rw [fees, record, List.getLastD_eq_getLast?, List.getLast?_append, Option.getD_or,
    ← List.getLastD_eq_getLast?, ← List.getLastD_eq_getLast?]
  rfl

instance [Host σ] : Host (Muted σ) where
  serve m request :=
    let outcome := (Host.serve m.host request).aside m.engine.admin m.engine.book m.fees
    .finish outcome.answer (m.record outcome.host outcome.changes)

end Muted

namespace World

variable {σ : Type}

def muted (w : World σ) : World (Muted σ) where
  engine := w.engine
  host := ⟨w.host, w.engine, []⟩
  journal := w.journal

structure Echoes (fees : FeeSettings) (w : World σ) (v : World (Muted σ)) : Prop where
  engine : w.engine = { v.engine with fees := v.host.changes.getLastD fees }
  host : v.host.host = w.host
  fees : v.engine.fees = fees
  valid : ∀ settings ∈ v.host.changes, settings.validate = .ok ()

structure Silenced (e : Engine) (w : World σ) (v : World (Muted σ)) : Prop where
  engine : v.engine = { e with executing := true }
  stored : w.engine = { e with executing := true, fees := v.host.fees }
  host : v.host.host = w.host
  found : v.host.engine = e
  valid : ∀ settings ∈ v.host.changes, settings.validate = .ok ()

variable {e : Engine} {w : World σ} {v : World (Muted σ)}

theorem Silenced.engine_eq (h : Silenced e w v) :
    w.engine = { v.engine with fees := v.host.changes.getLastD e.fees } := by
  rw [h.stored, h.engine, Muted.fees, h.found]

theorem Silenced.fees_eq (h : Silenced e w v) : v.engine.fees = e.fees := by rw [h.engine]

theorem Silenced.echoes (h : Silenced e w v) : Echoes e.fees w v :=
  ⟨h.engine_eq, h.host, h.fees_eq, h.valid⟩

theorem Silenced.echoes_setBook (h : Silenced e w v) (book : PoolBook) :
    Echoes e.fees (w.setBook book) (v.setBook book) where
  engine := congrArg (fun e : Engine => { e with book := book }) h.engine_eq
  host := h.host
  fees := h.fees_eq
  valid := h.valid

theorem Echoes.ended {fees : FeeSettings} (h : Echoes fees w v) (entry : JournalEntry) :
    Echoes fees ((w.setExecuting false).note entry) ((v.setExecuting false).note entry) where
  engine := congrArg (fun e => { e with executing := false }) h.engine
  host := h.host
  fees := h.fees
  valid := h.valid

variable [Host σ]

/-- In its own world the outside world calls the engine, in the other it does not: both give the
same answer and move the same tokens. -/
theorem Silenced.serve (h : Silenced e w v) {α : Type} (request : HostRequest α) :
    (w.serve nestedRunner request).1 = (v.serve nestedRunner request).1 ∧
      Silenced e (w.serve nestedRunner request).2 (v.serve nestedRunner request).2 := by
  have hbusy : w.engine.executing = true := by rw [h.stored]
  obtain ⟨journal, hrun⟩ := (Host.serve w.host request).run_busy hbusy
  have houtcome : (Host.serve v.host.host request).aside v.host.engine.admin v.host.engine.book
      v.host.fees = (Host.serve w.host request).aside w.engine.admin w.engine.book
        w.engine.fees := by
    rw [h.host, h.found, h.stored]
  rw [World.serve, World.serve, hrun]
  simp only [Host.serve, Session.run, houtcome]
  have hvalid := (Host.serve w.host request).aside_valid w.engine.admin w.engine.book w.engine.fees
  generalize (Host.serve w.host request).aside w.engine.admin w.engine.book w.engine.fees = outcome
    at hvalid
  refine ⟨trivial, h.engine, ?_, rfl, h.found, List.forall_mem_append.2 ⟨h.valid, hvalid⟩⟩
  change _ = { e with executing := true, fees := (v.host.record outcome.host outcome.changes).fees }
  rw [resumed, h.stored, Muted.fees_record]

theorem coupling_silenced : Coupling (Silenced (σ := σ) e) nestedRunner nestedRunner where
  book := fun h => by rw [h.engine, h.stored]
  address := fun h => by rw [h.engine, h.stored]
  journal := fun _ _ h => ⟨h.engine, h.stored, h.host, h.found, h.valid⟩
  serve := fun request h => h.serve request

theorem matches_muted (hidle : w.engine.executing = false) (caller : Address)
    (data : List UInt8) :
    Matches (Echoes w.engine.fees) ((execute caller data).run w)
      ((execute caller data).run w.muted) := by
  have hstart : Silenced w.engine (w.setExecuting true) (w.muted.setExecuting true) :=
    ⟨rfl, rfl, rfl, rfl, List.forall_mem_nil _⟩
  have hrun := matches_runProgram coupling_silenced
    (fun _ _ book h => h.echoes_setBook book) (fun _ _ h => h.echoes) hstart rfl caller data
  rw [execute_eq hidle, execute_eq (w := w.muted) hidle]
  generalize (runProgram nestedRunner caller data).run (w.setExecuting true) = r at hrun
  generalize (runProgram nestedRunner caller data).run (w.muted.setExecuting true) = r' at hrun
  cases hrun with
  | ok receipt h => exact .ok receipt (h.ended _)
  | error fault h => exact .error fault (h.ended _)

def Started (w : World σ) (e : Engine) : Prop :=
  e = { w.engine with executing := true, fees := e.fees }

omit [Host σ] in
theorem keptByFees_started (w : World σ) : KeptByFees w.Started := fun e fees h _ => by
  change { e with fees := fees } = _
  rw [h]

omit [Host σ] in
theorem Started.executing {e : Engine} (h : w.Started e) : e.executing = true := by
  rw [h]

end World

theorem Context.Requests.keeps {σ α : Type} [Host σ] {P : Engine → Prop} {nested : Runner σ}
    {c : Context σ} {op : Operation} {u : World σ} {request : HostRequest α}
    (hfees : World.KeptByFees P) (hnested : World.Steady P nested)
    (h : Requests nested c op u request) (hc : P c.engine) : P u.engine := by
  cases h with
  | sendAll | receiveAll | before | deposit | withdraw | permit => exact hc
  | settle _ _ hbefore => exact World.keeps_serve hfees hnested hc hbefore
  | after _ _ hbefore haccepted =>
    exact World.keeps_serve hfees hnested (World.keeps_serve hfees hnested hc hbefore) haccepted

namespace World

variable {σ : Type} [Host σ] {w : World σ}

theorem Asks.engine {α : Type} {caller : Address} {data : List UInt8} {u : World σ}
    {request : HostRequest α} (h : w.Asks caller data u request) :
    u.engine = { w.engine with executing := true, fees := u.engine.fees } := by
  have hsteady : Steady w.Started (nestedRunner : Runner σ) :=
    steady_nestedRunner fun _ h => h.executing
  obtain ⟨-, -, hrequest⟩ := h
  obtain ⟨-, hrun, hrequest⟩ := hrequest
  have hstarted := Context.performAll_induction (P := fun c => w.Started c.engine)
    (fun _ _ _ _ _ hc he => he.outside.keeps (keptByFees_started w) hsteady hc) hrun rfl
  exact hrequest.keeps (keptByFees_started w) hsteady hstarted

theorem executing_after (hidle : w.engine.executing = false) (caller : Address)
    (data : List UInt8) :
    (finalState ((execute caller data).run w)).engine.executing = false := by
  rw [execute_eq hidle]
  cases (runProgram nestedRunner caller data).run (w.setExecuting true) with
  | ok receipt w' => rfl
  | error fault w' => rfl

theorem execute_ne_reentrancy (hidle : w.engine.executing = false) (caller : Address)
    (data : List UInt8) (w' : World σ) :
    (execute caller data).run w ≠ .error .reentrancy w' := by
  rw [execute_eq hidle]
  cases hrun : (runProgram nestedRunner caller data).run (w.setExecuting true) with
  | ok receipt w'' => nofun
  | error fault w'' =>
    have hfault := raises_runProgram caller data _ _ _ hrun
    rintro ⟨⟩
    exact hfault

/-- Callbacks cannot disturb an execution. Whenever something is asked of the outside world, a
settlement or anything else, its programs are refused, it reads the pools from before the execution,
and the fees are all that it can set. The execution ends as it does in a world that moves the same
tokens without any calls, where the fees are those of the start. Afterwards the engine is free, and
the next program is not refused. -/
theorem callbacks_cannot_disturb (w : World σ) (caller : Address) (data : List UInt8)
    (hidle : w.engine.executing = false) :
    (∀ {α : Type} (u : World σ) (request : HostRequest α), w.Asks caller data u request →
      u.engine = { w.engine with executing := true, fees := u.engine.fees } ∧
      ∃ journal, (Host.serve u.host request).run nestedRunner u =
        (((Host.serve u.host request).aside w.engine.admin w.engine.book u.engine.fees).answer,
          u.resumed ((Host.serve u.host request).aside w.engine.admin w.engine.book u.engine.fees)
            journal)) ∧
    Matches (Echoes w.engine.fees) ((execute caller data).run w)
      ((execute caller data).run w.muted) ∧
    (finalState ((execute caller data).run w)).engine.executing = false ∧
    ∀ caller' data' w', (execute caller' data').run (finalState ((execute caller data).run w)) ≠
      .error .reentrancy w' := by
  refine ⟨fun u request h => ⟨h.engine, ?_⟩, matches_muted hidle caller data,
    executing_after hidle caller data,
    execute_ne_reentrancy (executing_after hidle caller data)⟩
  have hengine := h.engine
  have hbusy : u.engine.executing = true := by rw [hengine]
  have hadmin : u.engine.admin = w.engine.admin := by rw [hengine]
  have hbook : u.engine.book = w.engine.book := by rw [hengine]
  obtain ⟨journal, hrun⟩ := (Host.serve u.host request).run_busy hbusy
  rw [hadmin, hbook] at hrun
  exact ⟨journal, hrun⟩

def busybody : World Rehearsal where
  engine := lender.engine
  host := ⟨lender.host,
    ⟨none, none, none, some openDeposit.encode, some (8, ⟨100, 0, 0⟩), true, none, none, none⟩, []⟩
  journal := []

def callbackProgram : Program where
  ledgerCapacity := 2
  operations := [.addLiquidity 1 2 7 1 1 none, .receiveAllViaCallback 1 .unbounded,
    .receiveAll 2 .unbounded]

theorem callbacks_cannot_disturb_busybody :
    busybody.engine.executing = false ∧
      ∃ receipt w' v', (execute 7 callbackProgram.encode).run busybody = .ok receipt w' ∧
        (execute 7 callbackProgram.encode).run busybody.muted = .ok receipt v' ∧
        (w'.host.callbacks.map fun note => (note.nested.map fun answer => answer.toOption.isSome,
          note.observed)) = [(some false, some ([], ⟨100, 0, 0⟩))] ∧
        w'.engine.fees = ⟨100, 0, 0⟩ ∧ v'.engine.fees = .standard ∧
        w'.engine.book = v'.engine.book ∧
        w'.engine.book.find? ⟨1, 2⟩ = some Engine.seedPool := by
  have hidle : busybody.engine.executing = false := rfl
  obtain ⟨-, hmatches, -, -⟩ :=
    callbacks_cannot_disturb busybody 7 callbackProgram.encode hidle
  obtain ⟨receipt, w', hrun, htest⟩ := Faulting.exists_of_endsWith
    (show Faulting.endsWith (fun _ w' => decide ((w'.host.callbacks.map fun note =>
        (note.nested.map fun answer => answer.toOption.isSome, note.observed)) =
          [(some false, some ([], ⟨100, 0, 0⟩))] ∧ w'.engine.fees = ⟨100, 0, 0⟩ ∧
        w'.engine.book.find? ⟨1, 2⟩ = some Engine.seedPool))
      ((execute 7 callbackProgram.encode).run busybody) = true by decide +kernel)
  obtain ⟨hcallbacks, hfees, hpool⟩ := of_decide_eq_true htest
  rw [hrun] at hmatches
  obtain ⟨v', hmuted, hechoes⟩ := hmatches.right_of_ok
  refine ⟨hidle, receipt, w', v', hrun, hmuted, hcallbacks, hfees, hechoes.fees, ?_, hpool⟩
  rw [hechoes.engine]

end World

end NetSettle
