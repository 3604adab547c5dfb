import NetSettle.Receipt.Json
import NetSettle.Simulation.Arguments
import NetSettle.Simulation.Files
import NetSettle.Simulation.ProgramFile
import NetSettle.Simulation.Snapshot

/-!
# Performing commands

What each command reads, prints and writes. A run prints its receipt and saves the state only if the
program commits; whatever fails leaves the saved state alone. A configuration that cannot be used is
replaced by the standard one.
-/
namespace NetSettle

structure Surroundings where
  home : Option String
  config : Option String

abbrev Work (m : Type → Type) := ExceptT Failure (StateT String m)

structure Answer where
  code : UInt32
  output : String
  error : Option String
  deriving DecidableEq, Repr

namespace Work

variable {m : Type → Type} [Monad m] [Files m]

def print (text : String) : Work m Unit := modify fun printed => printed ++ text ++ "\n"

def readText (path : String) (failure : String → Failure) : Work m String := do
  match ← (Files.readText path : m (Option String)) with
  | some text => return text
  | none => throw (failure path)

def writeText (path text : String) (failure : String → Failure) : Work m Unit := do
  if !(← (Files.writeText path text : m Bool)) then
    throw (failure path)

def loadConfig (path : String) : Work m Config := do
  let loaded : Option String ← (Files.readText path : m (Option String))
  match loaded.map Config.read with
  | some (.ok config) => return config
  | _ => return .standard

def loadSnapshot (config : Config) (path : String) : Work m Snapshot := do
  let text : Option String ← do
    if ← (Files.isThere path : m Bool) then
      pure (some (← readText path .stateUnreadable))
    else
      pure none
  match Snapshot.read config text with
  | .ok snapshot => return snapshot
  | .error failure => throw failure

def saveSnapshot (snapshot : Snapshot) (path : String) : Work m Unit := do
  if let some directory := Path.parent? path then
    if !directory.isEmpty then
      if !(← (Files.makeDirectory directory : m Bool)) then
        throw (.directoryUnwritable directory)
  writeText path snapshot.toText .stateUnwritable

def readProgram (path : String) : Work m (List UInt8) := do
  let text ← readText path .programUnreadable
  ExceptT.mk (pure (Program.readHex text))

end Work

open Work

def Surroundings.configPath (s : Surroundings) (named : Option String) : String :=
  (named <|> s.config).getD Config.defaultPath

def Surroundings.statePath (s : Surroundings) (config : Config) : String :=
  Path.expandHome s.home config.statePath

namespace Command

variable {m : Type → Type} [Monad m] [Files m]

def runFile (s : Surroundings) (config : Config) (program : String) (caller : Option Address)
    (dryRun : Bool) : Work m Unit := do
  let bytes ← readProgram program
  let snapshot ← loadSnapshot config (s.statePath config)
  let (receipt, after) ←
    ExceptT.mk (pure (snapshot.run config (caller.getD config.caller) bytes))
  print receipt.toJson.pretty
  if !dryRun then
    saveSnapshot after (s.statePath config)

def perform (s : Surroundings) (configPath : String) : Command → Work m Unit
  | .initConfig path => writeText path Config.standard.toText .configUnwritable
  | .run program caller dryRun => do
    let config ← loadConfig configPath
    runFile s config program caller dryRun
  | .disasm program => do
    match Program.decode (← readProgram program) with
    | .ok program => print program.toJson.pretty
    | .error fault => throw (.programMalformed fault)
  | .assemble source output => do
    let text ← readText source .sourceUnreadable
    let program ← ExceptT.mk (pure (Program.readSource text))
    match output with
    | some path => writeText path (program.toHex ++ "\n") .outputUnwritable
    | none => print program.toHex
  | .pools => do
    let config ← loadConfig configPath
    let snapshot ← loadSnapshot config (s.statePath config)
    print (Pool.listToJson snapshot.pools).pretty
  | .balances => do
    let config ← loadConfig configPath
    let snapshot ← loadSnapshot config (s.statePath config)
    snapshot.host.nonzeroBalances.forM fun (token, holder, amount) =>
      print (token.checksummed ++ " " ++ holder.checksummed ++ s!" {amount.toNat}")

end Command

def versionLine : String := "packswap 0.1.0\n"

def Request.answer {m : Type → Type} [Monad m] [Files m] (s : Surroundings) :
    Request → m Answer
  | .misuse => return ⟨2, "", none⟩
  | .help => return ⟨0, "", none⟩
  | .version => return ⟨0, versionLine, none⟩
  | .perform config command => do
    let (result, output) ← ((command.perform s (s.configPath config)).run).run ""
    match result with
    | .ok () => return ⟨0, output, none⟩
    | .error failure => return ⟨1, output, some failure.line⟩

end NetSettle
