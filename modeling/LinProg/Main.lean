import LinProg.CommandLine

/-!
The program: it reads the file that the arguments name, if any, and prints the outcome.
-/
namespace LinProg.CommandLine

/-- The contents of a file, or what the system says of it. -/
def contentsOf (path : String) : IO (Except String String) := do
  try
    return .ok (← IO.FS.readFile path)
  catch
    | .noFileOrDirectory .. => return .error missingFile
    | e => return .error (toString e)

end LinProg.CommandLine

open LinProg.CommandLine in
def main (args : List String) : IO UInt32 := do
  let outcome ← match invocation? args with
    | none => pure usage
    | some i =>
      let contents ← match i.options.file? with
        | some path => contentsOf path
        | none => pure (.error missingFile)
      pure (run i fun _ => contents)
  IO.print outcome.stdout
  IO.eprint outcome.stderr
  return outcome.status.toUInt32
