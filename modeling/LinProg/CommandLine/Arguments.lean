import LinProg.Decimal.Literal
import LinProg.Scalar

/-!
The arguments of the command line. `solve` takes a problem file or a problem in options, `check` a
problem file. Arguments that fit neither are an error of usage, about which nothing more is said.
-/
namespace LinProg.CommandLine

inductive OutputFormat
  | text
  | json
  deriving DecidableEq, Repr

inductive Verb
  | solve
  | check
  deriving DecidableEq, Repr

/-- The options with a value. -/
inductive Valued
  | vars
  | max
  | min
  | constraint
  | format
  | precision
  | maxIterations
  deriving DecidableEq, Repr

inductive Flag
  | verbose
  | showTableau
  deriving DecidableEq, Repr

/-- An argument by what it says. -/
inductive Item
  | file (path : String)
  | valued (option : Valued) (value : String)
  | flag (f : Flag)
  deriving DecidableEq, Repr

/-- The options with a value that a verb has, by their long names. -/
def Verb.longValued : Verb → List (String × Valued)
  | .solve => [("vars", .vars), ("max", .max), ("min", .min), ("constraint", .constraint),
      ("format", .format), ("precision", .precision), ("max-iterations", .maxIterations)]
  | .check => []

def Verb.shortValued : Verb → List (Char × Valued)
  | .solve => [('c', .constraint), ('f', .format)]
  | .check => []

def Verb.longFlags : Verb → List (String × Flag)
  | .solve => [("verbose", .verbose), ("show-tableau", .showTableau)]
  | .check => [("verbose", .verbose)]

/-- What an argument is by itself. -/
inductive Reading
  | items (items : List Item)
  /-- The next argument is the value of `option`. -/
  | valueFollows (items : List Item) (option : Valued)
  /-- Only files follow. -/
  | filesFollow

/-- An argument behind two hyphens: a name, perhaps with a value behind an equals sign. -/
def readLong? (verb : Verb) (body : List Char) : Option Reading :=
  let name := String.ofList (body.takeWhile (· != '='))
  match body.dropWhile (· != '=') with
  | [] =>
    match verb.longFlags.lookup name with
    | some f => some (.items [.flag f])
    | none => (verb.longValued.lookup name).map (.valueFollows [])
  | _ :: value =>
    (verb.longValued.lookup name).map fun option =>
      .items [.valued option (String.ofList value)]

/-- An argument behind one hyphen: letters of flags, and at the end an option with its value, which
may follow an equals sign. -/
def readShort? (verb : Verb) (before : List Item) : List Char → Option Reading
  | [] => some (.items before.reverse)
  | 'v' :: rest => readShort? verb (.flag .verbose :: before) rest
  | c :: rest =>
    (verb.shortValued.lookup c).map fun option =>
      match rest with
      | [] => .valueFollows before.reverse option
      | '=' :: value => .items (.valued option (String.ofList value) :: before).reverse
      | value => .items (.valued option (String.ofList value) :: before).reverse

/-- An argument by itself. A lone hyphen is a file. -/
def read? (verb : Verb) (arg : String) : Option Reading :=
  match arg.toList with
  | ['-', '-'] => some .filesFollow
  | '-' :: '-' :: body => readLong? verb body
  | '-' :: c :: body => readShort? verb [] (c :: body)
  | _ => some (.items [.file arg])

/-- Whether an argument can only be meant as an option. -/
def looksLikeOption (arg : String) : Bool :=
  match arg.toList with
  | '-' :: _ :: _ => true
  | _ => false

/-- The items of all arguments. An argument that looks like an option is no value. -/
def items? (verb : Verb) : List String → Option (List Item)
  | [] => some []
  | arg :: rest =>
    match read? verb arg with
    | none => none
    | some .filesFollow => some (rest.map .file)
    | some (.items items) => (items? verb rest).map (items ++ ·)
    | some (.valueFollows items option) =>
      match rest with
      | [] => none
      | value :: rest =>
        if looksLikeOption value then none
        else (items? verb rest).map (items ++ .valued option value :: ·)

/-- A count: digits, perhaps behind a plus sign, below `2 ^ 64`. -/
def count? (text : String) : Option Nat :=
  let digits := match text.toList with
    | '+' :: rest => rest
    | rest => rest
  if digits.isEmpty || !digits.all Char.isDigit then none
  else
    let value := Decimal.ofDigits digits
    if value < wordLimit then some value else none

def format? : String → Option OutputFormat
  | "text" => some .text
  | "json" => some .json
  | _ => none

/-- What the arguments say. All but constraints and `verbose` may be said once only. -/
structure Options where
  verbosity : Nat := 0
  file? : Option String := none
  variableCount? : Option Nat := none
  max? : Option String := none
  min? : Option String := none
  constraints : List String := []
  format? : Option OutputFormat := none
  places? : Option Nat := none
  maxIterations? : Option Nat := none
  showTableau : Bool := false
  deriving DecidableEq, Repr

namespace Options

/-- A value for what has none yet. -/
def once? {α : Type} (old : Option α) (value? : Option α) : Option (Option α) :=
  match old, value? with
  | none, some value => some (some value)
  | _, _ => none

/-- Takes in an item. -/
def add? (o : Options) : Item → Option Options
  | .file path =>
    if path.isEmpty then none
    else (once? o.file? (some path)).map fun v => { o with file? := v }
  | .valued .vars value =>
    (once? o.variableCount? (count? value)).map fun v => { o with variableCount? := v }
  | .valued .max value => (once? o.max? (some value)).map fun v => { o with max? := v }
  | .valued .min value => (once? o.min? (some value)).map fun v => { o with min? := v }
  | .valued .constraint value => some { o with constraints := o.constraints ++ [value] }
  | .valued .format value =>
    (once? o.format? (CommandLine.format? value)).map fun v => { o with format? := v }
  | .valued .precision value =>
    (once? o.places? (count? value)).map fun v => { o with places? := v }
  | .valued .maxIterations value =>
    (once? o.maxIterations? (count? value)).map fun v => { o with maxIterations? := v }
  | .flag .verbose => some { o with verbosity := o.verbosity + 1 }
  | .flag .showTableau => if o.showTableau then none else some { o with showTableau := true }

/-- Whether a part of a problem is given in options. -/
def inline (o : Options) : Bool :=
  o.variableCount?.isSome || o.max?.isSome || o.min?.isSome || !o.constraints.isEmpty

/-- A file and a problem in options exclude each other, and so do the two directions. -/
def conflict (o : Options) : Bool :=
  o.file?.isSome && o.inline || o.max?.isSome && o.min?.isSome

end Options

/-- A verb with all that was said. -/
structure Invocation where
  verb : Verb
  options : Options
  deriving DecidableEq, Repr

/-- The arguments behind a verb; `check` needs a file. -/
def invocationOf? (verb : Verb) (verbosity : Nat) (args : List String) : Option Invocation := do
  let options ← (← items? verb args).foldlM Options.add? { verbosity }
  if options.conflict then none
  else if verb = .check ∧ options.file? = none then none
  else some ⟨verb, options⟩

/-- How often an argument in front of the verb says `verbose`, if it says nothing else. -/
def verboseCount? (arg : String) : Option Nat :=
  match arg.toList with
  | '-' :: 'v' :: rest => if rest.all (· == 'v') then some (rest.length + 1) else none
  | _ => if arg = "--verbose" then some 1 else none

/-- The invocation that arguments spell; there is none if they are an error of usage. -/
def invocationFrom? (verbosity : Nat) : List String → Option Invocation
  | [] => none
  | arg :: rest =>
    if arg = "solve" then invocationOf? .solve verbosity rest
    else if arg = "check" then invocationOf? .check verbosity rest
    else
      match verboseCount? arg with
      | some n => invocationFrom? (verbosity + n) rest
      | none => none

def invocation? (args : List String) : Option Invocation := invocationFrom? 0 args

end LinProg.CommandLine
