/-!
Texts as lists of characters. Positions are counted in bytes of the UTF-8 form, names are compared
without regard to the case of the letters `a` to `z`, and cells are set out in columns.
-/
namespace LinProg.Text

/-- How many bytes the characters take. -/
def size : List Char → Nat
  | [] => 0
  | c :: cs => c.utf8Size + size cs

@[simp] theorem size_nil : size [] = 0 := rfl

@[simp] theorem size_cons (c : Char) (cs : List Char) : size (c :: cs) = c.utf8Size + size cs := rfl

@[simp] theorem size_append (a b : List Char) : size (a ++ b) = size a + size b := by
  induction a with
  | nil => simp
  | cons c a ih => simp [ih, Nat.add_assoc]

/-- The size of the characters of a text is its size in UTF-8. -/
theorem size_toList (s : String) : size s.toList = s.utf8ByteSize := by
  have h : ∀ cs : List Char, (String.ofList cs).utf8ByteSize = size cs := by
    intro cs
    induction cs with
    | nil => rfl
    | cons c cs ih =>
      rw [show c :: cs = [c] ++ cs from rfl, String.ofList_append, String.utf8ByteSize_append, ih,
        ← String.singleton_eq_ofList, String.utf8ByteSize_singleton]
      rfl
  simpa using (h s.toList).symm

/-- The character that starts `offset` bytes into the text. -/
def charAt? : List Char → Nat → Option Char
  | [], _ => none
  | c :: cs, offset => if offset = 0 then some c else charAt? cs (offset - c.utf8Size)

/-- The characters that start less than `offset` bytes into the text. -/
def before : List Char → Nat → List Char
  | [], _ => []
  | c :: cs, offset => if offset = 0 then [] else c :: before cs (offset - c.utf8Size)

/-! White space, and texts without it at their ends. -/

/-- The code points with the property `White_Space`, as ranges. -/
def blankRanges : List (Nat × Nat) :=
  [(0x0009, 0x000D), (0x0020, 0x0020), (0x0085, 0x0085), (0x00A0, 0x00A0), (0x1680, 0x1680),
    (0x2000, 0x200A), (0x2028, 0x2029), (0x202F, 0x202F), (0x205F, 0x205F), (0x3000, 0x3000)]

def isBlank (c : Char) : Bool :=
  blankRanges.any fun range => range.1 ≤ c.toNat && c.toNat ≤ range.2

/-- The text without white space at either end. -/
def trim (text : List Char) : List Char :=
  ((text.dropWhile isBlank).reverse.dropWhile isBlank).reverse

example : (blankRanges.map fun range => range.2 + 1 - range.1).sum = 25 := by decide

/-! Letter case. -/

/-- The text with `A` to `Z` in lower case. -/
def foldCase (text : String) : List Char := text.toList.map Char.toLower

theorem foldCase_append (a b : String) : foldCase (a ++ b) = foldCase a ++ foldCase b := by
  simp [foldCase]

theorem toLower_of_isDigit {c : Char} (h : c.isDigit = true) : c.toLower = c := by
  have hle : c.val ≤ '9'.val := of_decide_eq_true (Bool.and_eq_true_iff.mp h).2
  refine dif_neg fun hupper => ?_
  exact absurd (UInt32.le_trans hupper.1 hle) (by decide)

/-- The two texts differ at most in the case of the letters `a` to `z`. -/
def sameLetters (a b : String) : Bool := foldCase a == foldCase b

theorem sameLetters_iff {a b : String} : sameLetters a b = true ↔ foldCase a = foldCase b :=
  beq_iff_eq

/-! Cells of text set out in columns. -/

/-- The greatest size in bytes of a cell in each column of the first line. -/
def columnWidths (lines : List (List String)) : List Nat :=
  (List.range (lines.headD []).length).map fun j =>
    (lines.map fun cells => (cells[j]?.map String.utf8ByteSize).getD 0).foldl max 0

/-- The cell with blanks in front of it up to a number of characters. -/
def padLeft (width : Nat) (cell : String) : String :=
  String.ofList (List.replicate (width - cell.length) ' ') ++ cell

@[simp] theorem length_padLeft (width : Nat) (cell : String) :
    (padLeft width cell).length = max width cell.length := by
  simp [padLeft]
  omega

/-- One line of cells, each against the right edge of its column. A width counts bytes and a cell
is filled up by characters, so columns are no narrower than their cells. -/
def gridLine (widths : List Nat) (cells : List String) : String :=
  "  ".intercalate (List.zipWith padLeft widths cells)

def grid (lines : List (List String)) : String :=
  "\n".intercalate (lines.map (gridLine (columnWidths lines)))

end LinProg.Text
