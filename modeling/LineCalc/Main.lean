import LineCalc.CommandLine.Session

/-!
# The program

Input and output around `CommandLine`: lines are read one at a time, and what is to be written is
written before the next one is asked for.
-/

namespace LineCalc.CommandLine

/-- Write what a console holds. -/
def Console.write (c : Console) : IO Unit := do
  IO.print c.stdout
  (← IO.getStdout).flush
  IO.eprint c.stderr
  match c.page with
  | some page => IO.FS.writeFile Page.defaultPath page.html
  | none => pure ()

/-- The status that a console ends with. A defect is shown and counts as a failure. -/
def Console.exit (c : Console) : IO UInt32 :=
  match c.outcome with
  | .ok status => pure status.toUInt32
  | .error defect => do
    IO.eprintln defect.message
    pure 1

/-- Read and answer lines until the input ends. -/
partial def converse [Platform] (settings : Settings) (backend : Backend) : IO UInt32 := do
  IO.print prompt
  (← IO.getStdout).flush
  let line ← (← IO.getStdin).getLine
  if line.isEmpty then
    return 0
  let shown := answer (String.join (inputLines line)) settings backend
  shown.write
  match shown.outcome with
  | .ok _ => converse settings backend
  | .error _ => shown.exit

end LineCalc.CommandLine

open LineCalc.CommandLine LineCalc.Platform in
/-- Run the program. -/
def main (args : List String) : IO UInt32 := do
  match request args with
  | .ok (.run options) =>
    if options.command.isNone then
      return ← converse options.settings options.backend
  | _ => pure ()
  let console := run args ""
  console.write
  console.exit
