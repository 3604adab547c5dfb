import NetSettle.Proofs.Execution.Turns
import NetSettle.Proofs.Simulation.Files
import NetSettle.Proofs.Simulation.ProgramFile
import NetSettle.Proofs.Simulation.Snapshot
import NetSettle.Simulation.Perform

/-!
# One call after the other

Each call that runs a program starts from the state in its file: it builds an engine from the pools
there, lets it run one program, and writes the pools and the bank back unless the program fails or
the run is a rehearsal. All calls together come to what a single engine does that is never taken
down, because nothing of an engine but its pools lives on from one program to the next.
-/
namespace NetSettle

def FileTree.save (path : String) (snapshot : Snapshot) (t : FileTree) :
    Except Failure Unit × FileTree :=
  match t.prepare path with
  | (false, t) => (.error (.directoryUnwritable ((Path.parent? path).getD "")), t)
  | (true, t) =>
    (if (t.write path snapshot.toText).1 then .ok () else .error (.stateUnwritable path),
      (t.write path snapshot.toText).2)

namespace Work

variable {α β : Type} {t : FileTree} {path : String}

def on (work : Work (StateM FileTree) α) (printed : String) (t : FileTree) :
    (Except Failure α × String) × FileTree :=
  ((work.run).run printed).run t

theorem on_bind (x : Work (StateM FileTree) α) (f : α → Work (StateM FileTree) β)
    (printed : String) (t : FileTree) :
    (x >>= f).on printed t =
      match x.on printed t with
      | ((.ok a, printed), t) => (f a).on printed t
      | ((.error failure, printed), t) => ((.error failure, printed), t) := by
  simp only [on, ExceptT.run_bind, StateT.run_bind]
  generalize (x.run.run printed).run t = r
  obtain ⟨⟨answer, printed'⟩, t'⟩ := r
  cases answer <;> rfl

theorem on_lift_bind (x : StateM FileTree α) (f : α → Work (StateM FileTree) β)
    (printed : String) (t : FileTree) :
    (liftM x >>= f : Work (StateM FileTree) β).on printed t =
      (f (x.run t).1).on printed (x.run t).2 :=
  rfl

theorem on_readText (failure : String → Failure) (printed : String) :
    (readText path failure : Work (StateM FileTree) String).on printed t =
      ((match t.read? path with
        | some text => .ok text
        | none => .error (failure path), printed), t) := by
  refine (on_lift_bind ..).trans ?_
  change (match t.read? path with | some text => _ | none => _ :
    Work (StateM FileTree) String).on printed t = _
  cases t.read? path <;> rfl

theorem on_writeText (text : String) (failure : String → Failure) (printed : String) :
    (writeText path text failure : Work (StateM FileTree) Unit).on printed t =
      ((if (t.write path text).1 then .ok () else .error (failure path), printed),
        (t.write path text).2) := by
  refine (on_lift_bind ..).trans ?_
  change (if !(t.write path text).1 then _ else _ : Work (StateM FileTree) Unit).on printed
    (t.write path text).2 = _
  cases (t.write path text).1 <;> rfl

theorem read?_of_found? {text : String} (h : t.found? path = some (.text text)) :
    t.read? path = some text := by
  rw [FileTree.read?, show (t.place? path).bind t.find? = some (.text text) from h]

theorem on_snapshot (answer : Except Failure Snapshot) (printed : String) :
    (match answer with
      | .ok snapshot => pure snapshot
      | .error failure => throw failure : Work (StateM FileTree) Snapshot).on printed t =
      ((answer, printed), t) := by
  cases answer <;> rfl

theorem on_loadSnapshot (config : Config) {text : Option String}
    (h : t.found? path = text.map .text) (printed : String) :
    (loadSnapshot config path : Work (StateM FileTree) Snapshot).on printed t =
      ((Snapshot.read config text, printed), t) := by
  have hthere : ((Files.isThere path : StateM FileTree Bool).run t) = (text.isSome, t) := by
    change ((t.found? path).isSome, t) = _
    rw [h, Option.isSome_map]
  refine (on_lift_bind ..).trans ?_
  rw [hthere]
  cases text with
  | none => rfl
  | some text =>
    dsimp only [Option.isSome_some]
    rw [if_pos rfl, on_bind, on_readText, read?_of_found? h]
    exact on_snapshot ..

theorem on_saveSnapshot (snapshot : Snapshot) (printed : String) :
    (saveSnapshot snapshot path : Work (StateM FileTree) Unit).on printed t =
      (((t.save path snapshot).1, printed), (t.save path snapshot).2) := by
  rw [saveSnapshot, FileTree.save, FileTree.prepare]
  cases hparent : Path.parent? path with
  | none => exact on_writeText ..
  | some directory =>
    dsimp only
    cases directory.isEmpty with
    | true => exact on_writeText ..
    | false =>
      refine (on_lift_bind ..).trans ?_
      change (if !(t.makeDirectory directory).1 then _ else _ :
        Work (StateM FileTree) Unit).on printed (t.makeDirectory directory).2 = _
      rw [if_neg Bool.false_ne_true]
      obtain ⟨made, t'⟩ := t.makeDirectory directory
      cases made with
      | false => rfl
      | true => exact on_writeText ..

theorem on_readProgram (path : String) (printed : String) :
    (readProgram path : Work (StateM FileTree) (List UInt8)).on printed t =
      ((match t.read? path with
        | some text => Program.readHex text
        | none => .error (.programUnreadable path), printed), t) := by
  refine (on_bind ..).trans ?_
  rw [on_readText]
  cases t.read? path with
  | none => rfl
  | some text => rfl

end Work

def Failure.Unwritten : Failure → Prop
  | .directoryUnwritable _ | .stateUnwritable _ => True
  | _ => False

namespace Snapshot

def world (e : Engine) (s : Snapshot) : World Bank := ⟨e.withPools s.pools, s.host, []⟩

theorem engine_grant (b : Bank) (g : Grant) : (grant b g).engine = b.engine := by
  unfold grant
  cases g.approve <;> rfl

theorem engine_of_read {config : Config} {text : Option String} {s : Snapshot}
    (h : read config text = .ok s) : s.host.engine = config.engine := by
  cases text with
  | none =>
    cases h
    have hgrants (grants : List Grant) (b : Bank) :
        (grants.foldl grant b).engine = b.engine := by
      induction grants generalizing b with
      | nil => rfl
      | cons g grants ih => exact (ih _).trans (engine_grant b g)
    exact hgrants config.grants _
  | some text =>
    rw [read] at h
    split at h
    · cases h
    · split at h
      · rename_i hengine
        cases h
        exact hengine
      · cases h

theorem read_toText {config : Config} {s : Snapshot} (h : s.host.engine = config.engine) :
    read config (some s.toText) = .ok s := by
  rw [read, read?_toText]
  exact if_pos h

end Snapshot

def World.snapshot (w : World Bank) : Snapshot := ⟨w.engine.book.pools, w.host⟩

theorem Engine.create_eq_ok {address admin : Address} {fees : FeeSettings} {e : Engine}
    (h : create address admin fees = .ok e) : e = ⟨address, admin, fees, .empty, false⟩ := by
  unfold create at h
  rw [Faulting.bind_eq_ok] at h
  obtain ⟨_, -, h⟩ := h
  cases h
  rfl

theorem Snapshot.run_eq {config : Config} {e : Engine}
    (hengine : Engine.create config.engine config.admin config.fees = .ok e) (caller : Address)
    (program : List UInt8) (s : Snapshot) :
    s.run config caller program =
      match (World.execute caller program).run ((s.world e).setClock config.now) with
      | .ok receipt w => .ok (receipt, w.snapshot)
      | .error fault _ => .error (.executionFailed fault) := by
  rw [run, hengine]
  rfl

namespace FileTree

def program? (t : FileTree) (path : String) : Option (List UInt8) :=
  (t.read? path).bind fun text => (Program.readHex text).toOption

/-- The state that a tree holds at a path: the one to begin with, if there is nothing. -/
def Holds (config : Config) (path : String) (t : FileTree) (s : Snapshot) : Prop :=
  ∃ text : Option String, t.found? path = text.map .text ∧ Snapshot.read config text = .ok s

/-- No device stands where a state is to be written. -/
def Writable (path : String) (t : FileTree) : Prop := (t.prepare path).2.found? path ≠ some .sink

theorem writable_of_text {t : FileTree} {path text : String}
    (h : t.found? path = some (.text text)) : t.Writable path := by
  rw [Writable, (t.grows_prepare path).found? h]
  nofun

end FileTree

structure Invocation where
  program : String
  caller : Option Address
  dryRun : Bool

namespace Invocation

open Work

variable {s : Surroundings} {config : Config} {e : Engine} {i : Invocation} {t : FileTree}

def perform (s : Surroundings) (config : Config) (i : Invocation) (t : FileTree) :
    Except Failure Unit × FileTree :=
  let ((answer, _), t) :=
    (Command.runFile s config i.program i.caller i.dryRun : Work (StateM FileTree) Unit).on "" t
  (answer, t)

def run? (config : Config) (t : FileTree) (i : Invocation) : Option (Address × List UInt8) :=
  (t.program? i.program).map fun bytes => (i.caller.getD config.caller, bytes)

inductive Outcome (s : Surroundings) (config : Config) (e : Engine) (stored : Snapshot)
    (i : Invocation) (t : FileTree) : Except Failure Unit × FileTree → Prop
  | unread {failure : Failure} (hrun : i.run? config t = none) (h : ¬ failure.Unwritten) :
    Outcome s config e stored i t (.error failure, t)
  | failed {caller : Address} {bytes : List UInt8} {fault : Fault} {w : World Bank}
      (hrun : i.run? config t = some (caller, bytes))
      (h : (World.execute caller bytes).run ((stored.world e).setClock config.now) =
        .error fault w) :
    Outcome s config e stored i t (.error (.executionFailed fault), t)
  | rehearsed (h : i.dryRun = true) : Outcome s config e stored i t (.ok (), t)
  | saved {caller : Address} {bytes : List UInt8} {receipt : Receipt} {w : World Bank}
      {t' : FileTree} (hdry : i.dryRun = false) (hrun : i.run? config t = some (caller, bytes))
      (h : (World.execute caller bytes).run ((stored.world e).setClock config.now) =
        .ok receipt w)
      (hentry : t'.found? (s.statePath config) = some (.text w.snapshot.toText)) :
    Outcome s config e stored i t (.ok (), t')
  | unsaved {failure : Failure} {t' : FileTree} (h : failure.Unwritten) :
    Outcome s config e stored i t (.error failure, t')

theorem save_ends {path : String} (h : t.Writable path) (snapshot : Snapshot) :
    match t.save path snapshot with
    | (.ok _, t') => t'.found? path = some (.text snapshot.toText)
    | (.error failure, _) => failure.Unwritten := by
  rw [FileTree.save]
  rw [FileTree.Writable] at h
  generalize t.prepare path = r at h ⊢
  obtain ⟨made, t₁⟩ := r
  cases made with
  | false => trivial
  | true =>
    dsimp only at h ⊢
    cases hwrite : t₁.write path snapshot.toText with
    | mk written t₂ =>
      cases written with
      | false => trivial
      | true => exact FileTree.found?_write h hwrite

theorem found?_save {path : String} {snapshot : Snapshot} (hwritable : t.Writable path)
    (h : (t.save path snapshot).1 = .ok ()) :
    (t.save path snapshot).2.found? path = some (.text snapshot.toText) := by
  have hsaved := save_ends hwritable snapshot
  generalize t.save path snapshot = r at h hsaved ⊢
  obtain ⟨answer, t'⟩ := r
  cases h
  exact hsaved

theorem read_of_run {caller : Address} {bytes : List UInt8}
    (hrun : i.run? config t = some (caller, bytes)) :
    ∃ hex, t.read? i.program = some hex ∧ Program.readHex hex = .ok bytes ∧
      i.caller.getD config.caller = caller := by
  obtain ⟨found, hfound, hequal⟩ := Option.map_eq_some_iff.1 hrun
  cases hequal
  obtain ⟨hex, hprogram, hbytes⟩ := Option.bind_eq_some_iff.1 hfound
  cases hread : Program.readHex hex with
  | error failure =>
    rw [hread] at hbytes
    cases hbytes
  | ok read =>
    rw [hread] at hbytes
    cases hbytes
    exact ⟨hex, hprogram, hread, rfl⟩

theorem run_of_read {p : Program} (h : t.read? i.program = some p.toHex) :
    i.run? config t = some (i.caller.getD config.caller, p.encode) := by
  have hhex : Program.readHex p.toHex = .ok p.encode :=
    Program.readHex_of_hexText (.marked (.refl _))
  rw [run?, FileTree.program?, h, Option.bind_some, hhex]
  rfl

theorem perform_of_run {stored : Snapshot} {caller : Address} {bytes : List UInt8}
    (hholds : t.Holds config (s.statePath config) stored)
    (hrun : i.run? config t = some (caller, bytes)) :
    i.perform s config t =
      match (stored.run config caller bytes).map Prod.snd with
      | .error failure => (.error failure, t)
      | .ok after =>
        if i.dryRun then (.ok (), t) else t.save (s.statePath config) after := by
  obtain ⟨text, hentry, hread⟩ := hholds
  obtain ⟨hex, hprogram, hbytes, rfl⟩ := read_of_run hrun
  rw [perform, Command.runFile, on_bind, on_readProgram, hprogram]
  dsimp only
  rw [hbytes]
  dsimp only
  rw [on_bind, on_loadSnapshot config hentry, hread]
  dsimp only
  rw [on_bind]
  cases stored.run config (i.caller.getD config.caller) bytes with
  | error failure => rfl
  | ok ran =>
    obtain ⟨receipt, after⟩ := ran
    let printed := "" ++ receipt.toJson.pretty ++ "\n"
    change (match (if !i.dryRun then saveSnapshot after (s.statePath config) else pure () :
        Work (StateM FileTree) Unit).on printed t with
      | ((answer, _), t') => (answer, t')) = _
    cases i.dryRun with
    | true => rfl
    | false =>
      rw [Bool.not_false, if_pos rfl, on_saveSnapshot]
      rfl

theorem perform_of_error {stored : Snapshot} {caller : Address} {bytes : List UInt8}
    {failure : Failure} (hholds : t.Holds config (s.statePath config) stored)
    (hrun : i.run? config t = some (caller, bytes))
    (h : (stored.run config caller bytes).map Prod.snd = .error failure) :
    i.perform s config t = (.error failure, t) := by
  rw [perform_of_run hholds hrun, h]

theorem perform_of_ok {stored after : Snapshot} {caller : Address} {bytes : List UInt8}
    (hholds : t.Holds config (s.statePath config) stored)
    (hrun : i.run? config t = some (caller, bytes))
    (h : (stored.run config caller bytes).map Prod.snd = .ok after) :
    i.perform s config t =
      if i.dryRun then (.ok (), t) else t.save (s.statePath config) after := by
  rw [perform_of_run hholds hrun, h]

theorem perform_of_no_run (hrun : i.run? config t = none) :
    ∃ failure : Failure, i.perform s config t = (.error failure, t) ∧ ¬ failure.Unwritten := by
  rw [perform, Command.runFile, on_bind, on_readProgram]
  cases hprogram : t.read? i.program with
  | none => exact ⟨_, rfl, id⟩
  | some hex =>
    cases hbytes : Program.readHex hex with
    | ok bytes =>
      rw [run?, FileTree.program?, hprogram, Option.bind_some, hbytes] at hrun
      cases hrun
    | error failure =>
      dsimp only
      rw [hbytes]
      refine ⟨failure, rfl, ?_⟩
      unfold Program.readHex at hbytes
      split at hbytes <;> cases hbytes
      exact id

theorem outcome_perform {stored : Snapshot}
    (hengine : Engine.create config.engine config.admin config.fees = .ok e)
    (hholds : t.Holds config (s.statePath config) stored)
    (hwritable : t.Writable (s.statePath config)) :
    Outcome s config e stored i t (i.perform s config t) := by
  cases hrun : i.run? config t with
  | none =>
    obtain ⟨failure, hperform, hwritten⟩ := perform_of_no_run (s := s) hrun
    rw [hperform]
    exact .unread hrun hwritten
  | some run =>
    obtain ⟨caller, bytes⟩ := run
    have hafter := Snapshot.run_eq hengine caller bytes stored
    cases hexecute : (World.execute caller bytes).run ((stored.world e).setClock config.now) with
    | error fault w =>
      rw [hexecute] at hafter
      rw [perform_of_error hholds hrun (congrArg (Except.map Prod.snd) hafter)]
      exact .failed hrun hexecute
    | ok receipt w =>
      rw [hexecute] at hafter
      rw [perform_of_ok hholds hrun (congrArg (Except.map Prod.snd) hafter)]
      cases hdry : i.dryRun with
      | true => exact .rehearsed hdry
      | false =>
        have hsaved := save_ends hwritable w.snapshot
        rw [if_neg Bool.false_ne_true]
        generalize t.save (s.statePath config) w.snapshot = r at hsaved ⊢
        obtain ⟨answer, t'⟩ := r
        cases answer with
        | ok => exact .saved hdry hrun hexecute hsaved
        | error failure => exact .unsaved hsaved

def lasting (config : Config) (t : FileTree) (i : Invocation) : List (Address × List UInt8) :=
  if i.dryRun then [] else (i.run? config t).toList

theorem lasting_of_run {run : Address × List UInt8} (hdry : i.dryRun = false)
    (hrun : i.run? config t = some run) : i.lasting config t = [run] := by
  rw [lasting, hdry, hrun]
  rfl

structure Stands (s : Surroundings) (config : Config) (e : Engine) (t : FileTree)
    (w : World Bank) : Prop where
  writable : t.Writable (s.statePath config)
  holds : ∃ stored, t.Holds config (s.statePath config) stored ∧ w.Twins (stored.world e)

theorem stands_saved {stored : Snapshot} {caller : Address} {bytes : List UInt8}
    {receipt : Receipt} {w v : World Bank} {t' : FileTree}
    (hengine : Engine.create config.engine config.admin config.fees = .ok e)
    (haddress : stored.host.engine = config.engine)
    (hrun : (World.execute caller bytes).run ((stored.world e).setClock config.now) =
      .ok receipt w)
    (hentry : t'.found? (s.statePath config) = some (.text w.snapshot.toText))
    (htwins : v.Twins w) : Stands s config e t' v := by
  have hkeyed : Keyed ((stored.world e).setClock config.now).engine.book :=
    PoolBook.keyed_ofPools stored.pools
  obtain ⟨hafter, hhost, hkeyed'⟩ := World.hosted_of_executed hkeyed hrun
  have hread : Snapshot.read config (some w.snapshot.toText) = .ok w.snapshot :=
    Snapshot.read_toText (hhost.trans haddress)
  have hworld : (w.snapshot.world e).engine = w.engine := by
    obtain rfl := Engine.create_eq_ok hengine
    change Engine.mk _ _ _ (PoolBook.ofPools w.engine.book.pools) _ = _
    rw [PoolBook.ofPools_pools hkeyed']
    exact hafter.symm
  exact ⟨FileTree.writable_of_text hentry, w.snapshot, ⟨some _, hentry, hread⟩,
    hworld.trans htwins.1, htwins.2⟩

/-- A call goes on from where the engine stands: if it is to stay, the engine takes its turn, and
otherwise both stand where they stood. -/
theorem stands_perform {w : World Bank}
    (hengine : Engine.create config.engine config.admin config.fees = .ok e)
    (h : Stands s config e t w)
    (hwritten : ∀ failure, (i.perform s config t).1 = .error failure → ¬ failure.Unwritten) :
    Stands s config e (i.perform s config t).2
      (World.turns config.now (i.lasting config t) w) := by
  obtain ⟨hwritable, stored, hholds, htwins⟩ := h
  have hstays : Stands s config e t w := ⟨hwritable, stored, hholds, htwins⟩
  have houtcome := outcome_perform (i := i) hengine hholds hwritable
  generalize i.perform s config t = r at hwritten houtcome ⊢
  cases houtcome with
  | unread hrun _ =>
    rw [lasting, hrun, Option.toList_none, ite_self]
    exact hstays
  | rehearsed hdry =>
    rw [lasting, if_pos hdry]
    exact hstays
  | unsaved hunwritten => exact absurd hunwritten (hwritten _ rfl)
  | failed hrun hfailed =>
    cases hdry : i.dryRun with
    | true =>
      rw [lasting, if_pos hdry]
      exact hstays
    | false =>
      have hidle : w.engine.executing = false := by
        obtain rfl := Engine.create_eq_ok hengine
        exact (congrArg Engine.executing htwins.1).symm
      rw [lasting_of_run hdry hrun]
      exact ⟨hwritable, stored, hholds, htwins.turn_of_failed hidle hfailed⟩
  | saved hdry hrun hcommitted hentry =>
    have haddress : stored.host.engine = config.engine := by
      obtain ⟨_, -, hread⟩ := hholds
      exact Snapshot.engine_of_read hread
    rw [lasting_of_run hdry hrun]
    exact stands_saved hengine haddress hcommitted hentry (htwins.turn_of_executed hcommitted)

def performAll (s : Surroundings) (config : Config) :
    List Invocation → FileTree → List (Except Failure Unit) × FileTree
  | [], t => ([], t)
  | i :: rest, t =>
    let (answer, t) := i.perform s config t
    let (answers, t) := performAll s config rest t
    (answer :: answers, t)

/-- What calls one after the other run to stay, as they find their programs. -/
def allLasting (s : Surroundings) (config : Config) :
    List Invocation → FileTree → List (Address × List UInt8)
  | [], _ => []
  | i :: rest, t => i.lasting config t ++ allLasting s config rest (i.perform s config t).2

theorem performAll_cons {answer : Except Failure Unit} {t' : FileTree}
    (h : i.perform s config t = (answer, t')) (rest : List Invocation) :
    performAll s config (i :: rest) t =
      (answer :: (performAll s config rest t').1, (performAll s config rest t').2) := by
  rw [performAll, h]

theorem allLasting_cons {answer : Except Failure Unit} {t' : FileTree}
    (h : i.perform s config t = (answer, t')) (rest : List Invocation) :
    allLasting s config (i :: rest) t =
      i.lasting config t ++ allLasting s config rest t' := by
  rw [allLasting, h]

theorem performAll_append (before after : List Invocation) (t : FileTree) :
    performAll s config (before ++ after) t =
      ((performAll s config before t).1 ++
          (performAll s config after (performAll s config before t).2).1,
        (performAll s config after (performAll s config before t).2).2) := by
  induction before generalizing t with
  | nil => rfl
  | cons i before ih => simp only [List.cons_append, performAll, ih]

theorem stands_performAll {invocations : List Invocation} {w : World Bank}
    (hengine : Engine.create config.engine config.admin config.fees = .ok e)
    (h : Stands s config e t w)
    (hwritten : ∀ failure, .error failure ∈ (performAll s config invocations t).1 →
      ¬ failure.Unwritten) :
    Stands s config e (performAll s config invocations t).2
      (World.turns config.now (allLasting s config invocations t) w) := by
  induction invocations generalizing t w with
  | nil => exact h
  | cons i rest ih =>
    have hfirst : Stands s config e (i.perform s config t).2
        (World.turns config.now (i.lasting config t) w) := by
      refine stands_perform hengine h fun failure hanswer => hwritten failure ?_
      rw [performAll, ← hanswer]
      exact List.mem_cons_self ..
    rw [allLasting, World.turns_append]
    exact ih hfirst fun failure hmem => hwritten failure (List.mem_cons_of_mem _ hmem)

/-- Calls one after the other, each of which reads the state and may write it, come to the pools and
the bank of one engine that runs the same programs in turn. A rehearsal and a call that fails leave
every file as it was; any other leaves the pools and the bank of the engine that it built. -/
theorem invocations_match_engine (s : Surroundings) (config : Config) (e : Engine)
    (invocations : List Invocation) (t : FileTree) (initial : Snapshot)
    (hengine : Engine.create config.engine config.admin config.fees = .ok e)
    (hinitial : t.Holds config (s.statePath config) initial)
    (hwritable : t.Writable (s.statePath config))
    (hwritten : ∀ failure, .error failure ∈ (performAll s config invocations t).1 →
      ¬ failure.Unwritten) :
    (∀ before i after tree, invocations = before ++ i :: after →
      (performAll s config before t).2 = tree →
      ((i.dryRun = true ∨ ∃ failure, (i.perform s config tree).1 = .error failure) →
        (i.perform s config tree).2 = tree) ∧
      (i.dryRun = false → (i.perform s config tree).1 = .ok () →
        ∃ stored caller bytes receipt w, tree.Holds config (s.statePath config) stored ∧
          i.run? config tree = some (caller, bytes) ∧
          (World.execute caller bytes).run ((stored.world e).setClock config.now) =
            .ok receipt w ∧
          (i.perform s config tree).2.found? (s.statePath config) =
            some (.text w.snapshot.toText))) ∧
      ∃ final,
        (performAll s config invocations t).2.Holds config (s.statePath config) final ∧
        PoolBook.ofPools final.pools = (World.turns config.now
          (allLasting s config invocations t) (initial.world e)).engine.book ∧
        final.host = (World.turns config.now (allLasting s config invocations t)
          (initial.world e)).host := by
  have hstart : Stands s config e t (initial.world e) := ⟨hwritable, initial, hinitial, rfl, rfl⟩
  constructor
  · rintro before i after _ rfl rfl
    rw [performAll_append] at hwritten
    obtain ⟨hwritable', stored, hholds, -⟩ := stands_performAll hengine hstart
      fun failure hmem => hwritten failure (List.mem_append_left _ hmem)
    generalize (performAll s config before t).2 = tree at hwritten hwritable' hholds ⊢
    have hanswer (failure : Failure) (h : (i.perform s config tree).1 = .error failure) :
        ¬ failure.Unwritten := by
      refine hwritten failure (List.mem_append_right _ ?_)
      rw [performAll, ← h]
      exact List.mem_cons_self ..
    have houtcome := outcome_perform (i := i) hengine hholds hwritable'
    generalize i.perform s config tree = r at hanswer houtcome ⊢
    cases houtcome with
    | unread | failed => exact ⟨fun _ => rfl, nofun⟩
    | rehearsed hdry => exact ⟨fun _ => rfl, fun hlasts => absurd (hlasts.symm.trans hdry) nofun⟩
    | unsaved hunwritten => exact absurd hunwritten (hanswer _ rfl)
    | saved hdry hrun hcommitted hentry =>
      refine ⟨fun hnot => ?_, fun _ _ => ⟨stored, _, _, _, _, hholds, hrun, hcommitted, hentry⟩⟩
      rcases hnot with hdry' | ⟨failure, hfailure⟩
      · exact absurd (hdry.symm.trans hdry') nofun
      · cases hfailure
  · obtain ⟨-, final, hholds, htwins⟩ := stands_performAll hengine hstart hwritten
    exact ⟨final, hholds, congrArg Engine.book htwins.1, htwins.2⟩

def trialConfig : Config where
  engine := 9
  admin := 8
  caller := 3
  statePath := "var/state.json"
  now := 5
  fees := .standard
  grants := [⟨1, 7, 2000, true⟩, ⟨2, 7, 2000, true⟩]

def openingProgram : Program where
  ledgerCapacity := 2
  operations := [.addLiquidity 1 2 7 1000 1000 none, .receiveAll 1 .unbounded,
    .receiveAll 2 .unbounded]

def sellingProgram : Program where
  ledgerCapacity := 2
  operations := [.swap 1 2 .zeroForOne (.exact 100), .receiveAll 1 .unbounded,
    .sendAll 2 7 .unbounded]

def trialTree : FileTree where
  current := []
  entries := [(["open.hex"], .text openingProgram.toHex),
    (["sell.hex"], .text sellingProgram.toHex)]

def trial : List Invocation :=
  [⟨"missing.hex", none, false⟩, ⟨"sell.hex", none, false⟩, ⟨"open.hex", some 7, true⟩,
    ⟨"open.hex", some 7, false⟩, ⟨"sell.hex", some 7, false⟩]

def trialBank (balances allowances : List (Address × Address × Word)) : Bank :=
  let holdings (entries : List (Address × Address × Word)) : Holdings :=
    entries.foldl (fun h (token, holder, n) => h.set token holder n) .empty
  { Bank.new 9 with balances := holdings balances, allowances := holdings allowances, now := 5 }

def opened : Snapshot where
  pools := [⟨⟨1, 2⟩, 1000, 1000, 1000, 0, 0, SortedMap.empty.insert 7 1000⟩]
  host := trialBank [(1, 7, 1000), (1, 9, 1000), (2, 7, 1000), (2, 9, 1000)]
    [(1, 7, 1000), (2, 7, 1000)]

def sold : Snapshot where
  pools := [⟨⟨1, 2⟩, 1100, 910, 1000, 0, 0, SortedMap.empty.insert 7 1000⟩]
  host := trialBank [(1, 7, 900), (1, 9, 1100), (2, 7, 1090), (2, 9, 910)]
    [(1, 7, 900), (2, 7, 1000)]

def openedTree : FileTree := (trialTree.save "var/state.json" opened).2

def soldTree : FileTree := (openedTree.save "var/state.json" sold).2

theorem invocations_match_engine_trial :
    let answers := (performAll ⟨none, none⟩ trialConfig trial trialTree).1
    let tree := (performAll ⟨none, none⟩ trialConfig trial trialTree).2
    answers = [.error (.programUnreadable "missing.hex"),
        .error (.executionFailed .poolNotInitialized), .ok (), .ok (), .ok ()] ∧
      trialTree.found? "var/state.json" = none ∧
      ∃ final, tree.Holds trialConfig "var/state.json" final ∧
        PoolBook.ofPools final.pools = PoolBook.ofPools sold.pools ∧ final.host = sold.host := by
  have hengine : Engine.create trialConfig.engine trialConfig.admin trialConfig.fees =
      .ok ⟨9, 8, .standard, .empty, false⟩ := by decide +kernel
  have hentry : trialTree.found? "var/state.json" = none := by decide +kernel
  have hseed : trialTree.Holds trialConfig "var/state.json" (.seed trialConfig) :=
    ⟨none, hentry, rfl⟩
  have hwritable : trialTree.Writable "var/state.json" := by
    have hprepared : (trialTree.prepare "var/state.json").2.found? "var/state.json" ≠
        some .sink := by decide +kernel
    exact hprepared
  -- the text of the state stays unread: that it reads back is what `read_toText` says
  have hopened : openedTree.Holds trialConfig "var/state.json" opened :=
    ⟨some _, found?_save hwritable (by decide +kernel), Snapshot.read_toText rfl⟩
  have hopening : run? trialConfig trialTree ⟨"open.hex", some 7, false⟩ =
      some (7, openingProgram.encode) := run_of_read rfl
  have hselling : run? trialConfig trialTree ⟨"sell.hex", none, false⟩ =
      some (3, sellingProgram.encode) := run_of_read rfl
  have hselling' : run? trialConfig openedTree ⟨"sell.hex", some 7, false⟩ =
      some (7, sellingProgram.encode) := run_of_read rfl
  have hopens : ((Snapshot.seed trialConfig).run trialConfig 7 openingProgram.encode).map Prod.snd =
      .ok opened := by decide +kernel
  have hsells : (opened.run trialConfig 7 sellingProgram.encode).map Prod.snd = .ok sold := by
    decide +kernel
  have hfails : ((Snapshot.seed trialConfig).run trialConfig 3 sellingProgram.encode).map Prod.snd =
      .error (.executionFailed .poolNotInitialized) := by decide +kernel
  have hcall₁ : perform ⟨none, none⟩ trialConfig ⟨"missing.hex", none, false⟩ trialTree =
      (.error (.programUnreadable "missing.hex"), trialTree) := rfl
  have hcall₂ : perform ⟨none, none⟩ trialConfig ⟨"sell.hex", none, false⟩ trialTree =
      (.error (.executionFailed .poolNotInitialized), trialTree) :=
    perform_of_error hseed hselling hfails
  have hcall₃ : perform ⟨none, none⟩ trialConfig ⟨"open.hex", some 7, true⟩ trialTree =
      (.ok (), trialTree) := perform_of_ok hseed hopening hopens
  have hcall₄ : perform ⟨none, none⟩ trialConfig ⟨"open.hex", some 7, false⟩ trialTree =
      (.ok (), openedTree) :=
    (perform_of_ok hseed hopening hopens).trans (Prod.ext (by decide +kernel) rfl)
  have hcall₅ : perform ⟨none, none⟩ trialConfig ⟨"sell.hex", some 7, false⟩ openedTree =
      (.ok (), soldTree) :=
    (perform_of_ok hopened hselling' hsells).trans (Prod.ext (by decide +kernel) rfl)
  have hanswers : (performAll ⟨none, none⟩ trialConfig trial trialTree).1 =
      [.error (.programUnreadable "missing.hex"), .error (.executionFailed .poolNotInitialized),
        .ok (), .ok (), .ok ()] := by
    rw [trial, performAll_cons hcall₁, performAll_cons hcall₂, performAll_cons hcall₃,
      performAll_cons hcall₄, performAll_cons hcall₅]
    rfl
  have hlasting : allLasting ⟨none, none⟩ trialConfig trial trialTree =
      [(3, sellingProgram.encode), (7, openingProgram.encode), (7, sellingProgram.encode)] := by
    have hmissing : lasting trialConfig trialTree ⟨"missing.hex", none, false⟩ = [] := rfl
    have hrehearsed : lasting trialConfig trialTree ⟨"open.hex", some 7, true⟩ = [] := rfl
    rw [trial, allLasting_cons hcall₁, allLasting_cons hcall₂, allLasting_cons hcall₃,
      allLasting_cons hcall₄, allLasting_cons hcall₅, hmissing, lasting_of_run rfl hselling,
      hrehearsed, lasting_of_run rfl hopening, lasting_of_run rfl hselling']
    rfl
  obtain ⟨-, final, hfinal, hbook, hhost⟩ := invocations_match_engine ⟨none, none⟩ trialConfig _
    trial trialTree (.seed trialConfig) hengine hseed hwritable
    (by
      rw [hanswers]
      intro failure hmem
      simp only [List.mem_cons, Except.error.injEq, reduceCtorEq, List.not_mem_nil,
        or_false] at hmem
      rcases hmem with rfl | rfl <;> exact id)
  rw [hlasting] at hbook hhost
  exact ⟨hanswers, hentry, final, hfinal, hbook.trans (by decide +kernel),
    hhost.trans (by decide +kernel)⟩

end Invocation

end NetSettle
