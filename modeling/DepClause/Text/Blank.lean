/-!
# Blanks

The white space that trimming removes and that separates words, and the cuts of a text that
depend on it: trimming, words and lines.
-/

namespace DepClause.Text

/-- White space: the control blanks, the Unicode space separators, the two line separators and
the byte order mark. -/
def isBlank (c : Char) : Bool :=
  let n := c.toNat
  (9 ≤ n && n ≤ 13) || n == 0x20 || n == 0xA0 || n == 0x1680 || (0x2000 ≤ n && n ≤ 0x200A) ||
    n == 0x2028 || n == 0x2029 || n == 0x202F || n == 0x205F || n == 0x3000 || n == 0xFEFF

/-- The characters that end a line: line feed, carriage return and the two separators. -/
def isLineBreak (c : Char) : Bool :=
  c == '\n' || c == '\r' || c == '\u2028' || c == '\u2029'

def trimLeft (s : List Char) : List Char := s.dropWhile isBlank

def trimRight (s : List Char) : List Char := (s.reverse.dropWhile isBlank).reverse

/-- A text without the blanks at its two ends. -/
def trim (s : List Char) : List Char := trimRight (trimLeft s)

/-- Dropping a run from the front never lengthens a list. -/
theorem length_dropWhile_le {α : Type} (p : α → Bool) (s : List α) :
    (s.dropWhile p).length ≤ s.length :=
  (List.dropWhile_sublist p).length_le

/-- The maximal runs of characters that do not separate. -/
def wordsBy (sep : Char → Bool) : List Char → List (List Char)
  | [] => []
  | c :: cs =>
    if sep c then wordsBy sep cs
    else (c :: cs.takeWhile (!sep ·)) :: wordsBy sep (cs.dropWhile (!sep ·))
termination_by s => s.length
decreasing_by
  · simp
  · have := length_dropWhile_le (!sep ·) cs
    simp only [List.length_cons]
    omega

/-- The words of a list written with blanks or commas between its items. -/
def listItems (s : String) : List String :=
  (wordsBy (fun c => isBlank c || c == ',') s.toList).map String.ofList

/-- The words of a text, cut at its blanks. -/
def words (s : String) : List String := (wordsBy isBlank s.toList).map String.ofList

/-- The lines of a text. A line ends at a line feed, alone or after one carriage return. -/
def lines : List Char → List (List Char)
  | [] => [[]]
  | '\n' :: cs => [] :: lines cs
  | '\r' :: '\n' :: cs => [] :: lines cs
  | c :: cs => (lines cs).modifyHead (c :: ·)

end DepClause.Text

namespace DepClause

/-- A text without the blanks at its two ends. -/
def trim (s : String) : String := String.ofList (Text.trim s.toList)

end DepClause
