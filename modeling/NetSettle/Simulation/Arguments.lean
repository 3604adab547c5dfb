import NetSettle.Simulation.Config

/-!
# Arguments

What the arguments of a call ask for. Options stand before or between operands; two hyphens end the
options. An option is given at most once, its value may be joined to it by an equals sign, and a
value that is not acceptable, like anything unknown, missing or left over, is a misuse. Help and
version are shown as soon as they are met.
-/
namespace NetSettle

inductive Command where
  | initConfig (path : String)
  | run (program : String) (caller : Option Address) (dryRun : Bool)
  | disasm (program : String)
  | assemble (source : String) (output : Option String)
  | pools
  | balances
  deriving DecidableEq, Repr

inductive Request where
  | perform (config : Option String) (command : Command)
  | help
  | version
  | misuse
  deriving DecidableEq, Repr

structure OptionRule where
  name : String
  letter : Option Char
  accepts : Option (String → Bool)

structure Form where
  options : List OptionRule
  operands : Nat
  leading : Bool
  showsVersion : Bool

structure Given where
  options : List (String × String)
  operands : List String

inductive Reading where
  | operand
  | endOfOptions
  | help
  | version
  | switch (name : String)
  | option (rule : OptionRule) (accepts : String → Bool) (value : Option String)
  | unknown

namespace Form

def joinedValue : List Char → String
  | '=' :: value => String.ofList value
  | value => String.ofList value

def readLong (form : Form) (text : List Char) : Reading :=
  let (name, value) := text.span (· != '=')
  let value := if value.isEmpty then none else some (joinedValue value)
  let name := String.ofList name
  if name = "help" && value.isNone then .help
  else if name = "version" && form.showsVersion && value.isNone then .version
  else
    match form.options.find? fun rule => rule.name = name with
    | none => .unknown
    | some rule =>
      match rule.accepts with
      | some accepts => .option rule accepts value
      | none => if value.isNone then .switch name else .unknown

def readShort (form : Form) (letter : Char) (value : List Char) : Reading :=
  if letter = 'h' then .help
  else if letter = 'V' && form.showsVersion then .version
  else
    match form.options.find? fun rule => rule.letter = some letter with
    | some rule =>
      match rule.accepts with
      | some accepts =>
        .option rule accepts (if value.isEmpty then none else some (joinedValue value))
      | none => .unknown
    | none => .unknown

def reading (form : Form) (argument : String) : Reading :=
  match argument.toList with
  | ['-', '-'] => .endOfOptions
  | '-' :: '-' :: text => form.readLong text
  | '-' :: letter :: value => form.readShort letter value
  | _ => .operand

def isOption (argument : String) : Bool :=
  match argument.toList with
  | '-' :: _ :: _ => true
  | _ => false

def addOption (given : Given) (name value : String) (acceptable : Bool) :
    Except Request Given :=
  if acceptable && (given.options.lookup name).isNone then
    .ok { given with options := given.options ++ [(name, value)] }
  else .error .misuse

def addOperand (form : Form) (given : Given) (operand : String) : Except Request Given :=
  if given.operands.length < form.operands && !operand.isEmpty then
    .ok { given with operands := given.operands ++ [operand] }
  else .error .misuse

def read (form : Form) : (operandsOnly : Bool) → Given → List String →
    Except Request (Given × List String)
  | _, given, [] => .ok (given, [])
  | true, given, argument :: rest => do
    let given ← form.addOperand given argument
    form.read true given rest
  | false, given, argument :: rest =>
    match form.reading argument with
    | .operand =>
      if form.leading then .ok (given, argument :: rest)
      else do
        let given ← form.addOperand given argument
        form.read false given rest
    | .endOfOptions => form.read true given rest
    | .help => .error .help
    | .version => .error .version
    | .switch name => do
      let given ← addOption given name "" true
      form.read false given rest
    | .option rule accepts (some value) => do
      let given ← addOption given rule.name value (accepts value)
      form.read false given rest
    | .option rule accepts none =>
      match rest with
      | value :: rest => do
        let given ← addOption given rule.name value (!isOption value && accepts value)
        form.read false given rest
      | [] => .error .misuse
    | .unknown => .error .misuse

def readAll (form : Form) (arguments : List String) : Except Request Given := do
  let (given, _) ← form.read false ⟨[], []⟩ arguments
  return given

end Form

def isPath (text : String) : Bool := !text.isEmpty

def mainForm : Form :=
  ⟨[⟨"config", some 'c', some isPath⟩], 0, true, true⟩

def plainForm (operands : Nat) : Form := ⟨[], operands, false, false⟩

def runForm : Form :=
  ⟨[⟨"caller", none, some fun text => (Address.ofHex? text).isSome⟩, ⟨"dry-run", none, none⟩],
    1, false, false⟩

def assembleForm : Form := ⟨[⟨"output", some 'o', some isPath⟩], 1, false, false⟩

def commandNames : List String :=
  ["init-config", "run", "disasm", "assemble", "pools", "balances", "help"]

def Command.ofArguments (name : String) (arguments : List String) : Except Request Command :=
  match name with
  | "init-config" => do
    let given ← (plainForm 1).readAll arguments
    return .initConfig (given.operands.headD Config.defaultPath)
  | "run" => do
    let given ← runForm.readAll arguments
    let [program] := given.operands | throw .misuse
    let caller := (given.options.lookup "caller").bind Address.ofHex?
    return .run program caller (given.options.lookup "dry-run").isSome
  | "disasm" => do
    let given ← (plainForm 1).readAll arguments
    let [program] := given.operands | throw .misuse
    return .disasm program
  | "assemble" => do
    let given ← assembleForm.readAll arguments
    let [source] := given.operands | throw .misuse
    return .assemble source (given.options.lookup "output")
  | "pools" => do
    let _ ← (plainForm 0).readAll arguments
    return .pools
  | "balances" => do
    let _ ← (plainForm 0).readAll arguments
    return .balances
  | "help" =>
    match arguments with
    | [] => throw .help
    | [topic] => if topic ∈ commandNames then throw .help else throw .misuse
    | _ => throw .misuse
  | _ => throw .misuse

def Request.ofArguments (arguments : List String) : Request :=
  let found : Except Request Request := do
    let (given, rest) ← mainForm.read false ⟨[], []⟩ arguments
    let name :: rest := rest | throw .misuse
    let command ← Command.ofArguments name rest
    return .perform (given.options.lookup "config") command
  match found with
  | .ok request => request
  | .error request => request

end NetSettle
