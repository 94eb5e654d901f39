import LinProg.CommandLine.Arguments
import LinProg.Document
import LinProg.Problem.Inline
import LinProg.Solver.Event
import LinProg.Solver.Solve

/-!
The command line as a function from arguments and files to what is printed.
-/
namespace LinProg.CommandLine

/-- What a call of the program leaves behind. -/
structure Outcome where
  status : Nat := 0
  stdout : String := ""
  stderr : String := ""
  deriving DecidableEq, Repr

/-- What is said of a file that is not there. -/
def missingFile : String := "No such file or directory (os error 2)"

/-- What is said of a document that describes no problem. -/
def malformed : String := "<json>"

/-- The arguments are an error of usage. -/
def usage : Outcome := { status := 2, stderr := "usage: solve|check [FILE] [OPTIONS]\n" }

/-- The problem in a file, by its contents or what is wrong with it. -/
def problemFile (path : String) (contents : Except String String) :
    Except String (Problem Float) :=
  match contents with
  | .error fault => .error ("reading " ++ path ++ ": " ++ fault)
  | .ok source =>
    match Problem.read? source with
    | none => .error ("parsing " ++ path ++ ": " ++ malformed)
    | some p => .ok p

/-- The problem that the options of `solve` ask for. -/
def problem (o : Options) (contents : String → Except String String) :
    Except String (Problem Float) :=
  match o.file? with
  | some path => problemFile path (contents path)
  | none =>
    (Inline.problem o.variableCount? o.max? o.min? o.constraints).mapError Inline.Fault.message

/-- An error in the text of a problem, with a mark under the character where it is. -/
def compileErrorText (p : Problem Float) (e : CompileError) : String :=
  "  " ++ e.message ++ "\n" ++
    match e with
    | .parse location source =>
      match p.textAt? location with
      | none => ""
      | some text =>
        let column := (Text.before text.toList source.offset).length
        "    " ++ text ++ "\n    " ++ "".pushn ' ' column ++ "^\n"
    | _ => ""

def fieldText : Event.Field → String
  | .text s => s
  | .count n => toString n

/-- The log of a solve, down to the level that is asked for. -/
def log (verbosity : Nat) (events : List (Event Float)) : String :=
  let lines := (events.map Event.line).filter fun line =>
    match line.level with
    | .debug => 1 ≤ verbosity
    | .trace => 2 ≤ verbosity
  "".intercalate (lines.map fun line =>
    line.message ++ "".intercalate (line.fields.map fun f => " " ++ f.1 ++ "=" ++ fieldText f.2) ++
      "\n")

/-- A solution as it is printed. -/
def solutionText (o : Options) (s : Solution Float) : String :=
  match o.format?.getD .text with
  | .json => s.toJson.writeIndented ++ "\n"
  | .text => { places := o.places?.getD 4 : Report }.full s o.showTableau

/-- Solves a program and prints the solution, after the log if it is asked for. -/
def solveProgram (o : Options) (program : Program Float) : Outcome :=
  let solver : Solver Float := { maxIterations := o.maxIterations?.getD 10000 }
  let steps := if o.verbosity = 0 then "" else
    match Tableau.build program with
    | .error _ => ""
    | .ok t => log o.verbosity (.compiled program :: solver.events t)
  match solver.solve program with
  | .ok s => { stdout := solutionText o s, stderr := steps }
  | .error e => { status := 1, stderr := steps ++ "Solve error: " ++ e.message ++ "\n" }

def solve (o : Options) (contents : String → Except String String) : Outcome :=
  match problem o contents with
  | .error fault => { status := 1, stderr := "Error: " ++ fault ++ "\n" }
  | .ok p =>
    match p.compile with
    | .error e => { status := 1, stderr := compileErrorText p e }
    | .ok program => solveProgram o program

/-- Checks the problem in a file without solving it. -/
def check (path : String) (contents : Except String String) : Outcome :=
  match problemFile path contents with
  | .error fault => { status := 1, stderr := "Error: " ++ fault ++ "\n" }
  | .ok p =>
    match p.compile with
    | .error e =>
      { status := 1, stderr := "✗ " ++ path ++ " has errors:\n" ++ compileErrorText p e }
    | .ok program =>
      { stdout := "✓ " ++ path ++ " is valid\n  " ++ toString program.registry.size ++
          " variables\n  " ++ toString program.constraints.length ++ " constraints\n" }

/-- Runs an invocation, where `contents` reads a file. -/
def run (i : Invocation) (contents : String → Except String String) : Outcome :=
  match i.verb, i.options.file? with
  | .check, some path => check path (contents path)
  | .check, none => usage
  | .solve, _ => solve i.options contents

end LinProg.CommandLine
