import LinProg.Json

/-!
Writing JSON documents, on one line or with each member on a line of its own.
-/
namespace LinProg.Json

/-- Two hexadecimal digits. -/
def hexPair (n : Nat) : List Char := [Nat.digitChar (n / 16), Nat.digitChar (n % 16)]

/-- A character inside a string. Control characters are escaped, by a letter where they have one. -/
def escaped (c : Char) : List Char :=
  match c with
  | '"' => ['\\', '"']
  | '\\' => ['\\', '\\']
  | '\x08' => ['\\', 'b']
  | '\x0c' => ['\\', 'f']
  | '\n' => ['\\', 'n']
  | '\r' => ['\\', 'r']
  | '\t' => ['\\', 't']
  | c => if c.toNat < 0x20 then ['\\', 'u', '0', '0'] ++ hexPair c.toNat else [c]

def quoted (s : String) : String :=
  String.ofList ('"' :: s.toList.flatMap escaped ++ ['"'])

/-- A text that is missing is written as no value. -/
def writeText : Option String → String
  | none => "null"
  | some s => quoted s

/-- Where the parts of a document go: `depth` counts the arrays and objects around them. -/
structure Spacing where
  lineStart : Nat → String
  colon : String

def Spacing.compact : Spacing := ⟨fun _ => "", ":"⟩

/-- Two blanks for each level. -/
def Spacing.indented : Spacing := ⟨fun depth => "\n" ++ "".pushn ' ' (2 * depth), ": "⟩

mutual

def writeAt (s : Spacing) (depth : Nat) : Json → String
  | .null => "null"
  | .bool b => if b then "true" else "false"
  | .number n => n.write
  | .string text? => writeText text?
  | .array items =>
    match items with
    | [] => "[]"
    | items => "[" ++ s.lineStart (depth + 1) ++ writeItems s (depth + 1) items ++
      s.lineStart depth ++ "]"
  | .object members =>
    match members with
    | [] => "\x7b\x7d"
    | members => "\x7b" ++ s.lineStart (depth + 1) ++ writeMembers s (depth + 1) members ++
      s.lineStart depth ++ "\x7d"

def writeItems (s : Spacing) (depth : Nat) : List Json → String
  | [] => ""
  | [item] => writeAt s depth item
  | item :: rest => writeAt s depth item ++ "," ++ s.lineStart depth ++ writeItems s depth rest

def writeMembers (s : Spacing) (depth : Nat) : List (Option String × Json) → String
  | [] => ""
  | [(key, value)] => writeText key ++ s.colon ++ writeAt s depth value
  | (key, value) :: rest => writeText key ++ s.colon ++ writeAt s depth value ++ "," ++
    s.lineStart depth ++ writeMembers s depth rest

end

/-- The document on one line. -/
def write (j : Json) : String := writeAt .compact 0 j

/-- The document with a line for each item and member. -/
def writeIndented (j : Json) : String := writeAt .indented 0 j

end LinProg.Json
