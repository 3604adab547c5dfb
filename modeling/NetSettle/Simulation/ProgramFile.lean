import NetSettle.Json.Parser
import NetSettle.Program.Codec
import NetSettle.Program.Json
import NetSettle.Simulation.Failure
import NetSettle.Text.Blank

/-!
# Program files

A program that is to run is kept as hexadecimal text, in which blanks may stand anywhere. A program
that is written by hand is kept as JSON.
-/
namespace NetSettle.Program

def readHex (text : String) : Except Failure (List UInt8) :=
  match Hex.ofChars? (text.toList.filter fun c => !isBlank c) with
  | some bytes => .ok bytes
  | none => .error .programNotHex

def toHex (p : Program) : String := Hex.encode p.encode

def readSource (text : String) : Except Failure Program :=
  match Json.read? shape ofJson? text with
  | some program => .ok program
  | none => .error .sourceMalformed

end NetSettle.Program
