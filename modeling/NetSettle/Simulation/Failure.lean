import NetSettle.Fault.Message

/-!
# Failed commands

Why a command on the simulated state gave up: a file that could not be read or written, a text that
does not say what it should, or a fault of the engine. The path in a failure is the one that the
command was given.
-/
namespace NetSettle

inductive Failure where
  | programUnreadable (path : String)
  | programNotHex
  | programMalformed (fault : Fault)
  | sourceUnreadable (path : String)
  | sourceMalformed
  | configUnreadable (path : String)
  | configMalformed
  | configFees (fault : Fault)
  | configUnwritable (path : String)
  | stateUnreadable (path : String)
  | stateMalformed
  | stateForeign (found expected : Address)
  | directoryUnwritable (path : String)
  | stateUnwritable (path : String)
  | outputUnwritable (path : String)
  | engineRefused (fault : Fault)
  | executionFailed (fault : Fault)
  deriving DecidableEq, Repr

namespace Failure

def cause? : Failure → Option Fault
  | configFees fault | engineRefused fault => some fault
  | _ => none

def message : Failure → String
  | programUnreadable path => "Failed to read program: " ++ path
  | programNotHex => "Program is not valid hex"
  | programMalformed fault => fault.message ++ " (" ++ fault.class.name ++ ")"
  | sourceUnreadable path => "Failed to read program source: " ++ path
  | sourceMalformed => "Failed to parse program JSON"
  | configUnreadable path => "Failed to read config file: " ++ path
  | configMalformed => "Failed to parse config TOML"
  | configFees _ => "Invalid fee settings in config"
  | configUnwritable path => "Failed to write config to " ++ path
  | stateUnreadable path => "Failed to read state file: " ++ path
  | stateMalformed => "Failed to parse state JSON"
  | stateForeign found expected =>
    "State file belongs to engine " ++ found.checksummed ++ ", config names " ++
      expected.checksummed
  | directoryUnwritable path => "Failed to create " ++ path
  | stateUnwritable path => "Failed to write state to " ++ path
  | outputUnwritable path => "Failed to write " ++ path
  | engineRefused _ => "Invalid engine configuration"
  | executionFailed fault => "Execution failed (" ++ fault.class.name ++ "): " ++ fault.message

def firstLine (text : String) : String :=
  let line := text.toList.takeWhile (· != '\n')
  String.ofList (if line.getLast? = some '\r' then line.dropLast else line)

def line (f : Failure) : String := firstLine ("Error: " ++ f.message)

end Failure

end NetSettle
