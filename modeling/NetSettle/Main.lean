import NetSettle.Simulation.Perform

/-!
# The command line
-/
namespace NetSettle

def succeeds (action : IO Unit) : IO Bool := do
  try
    action
    return true
  catch _ => return false

instance : Files IO where
  readText path := do
    try
      return some (← IO.FS.readFile path)
    catch _ => return none
  -- found by its name alone: a file that cannot be opened is there and fails to be read
  isThere path := succeeds do
    let _ ← IO.FS.realPath path
  writeText path text := succeeds (IO.FS.writeFile path text)
  makeDirectory path := succeeds (IO.FS.createDirAll path)

end NetSettle

open NetSettle in
def main (arguments : List String) : IO UInt32 := do
  let surroundings : Surroundings := ⟨← IO.getEnv "HOME", ← IO.getEnv "PACKSWAP_CONFIG"⟩
  let answer ← (Request.ofArguments arguments).answer surroundings
  IO.print answer.output
  if let some error := answer.error then
    IO.eprintln error
  return answer.code
