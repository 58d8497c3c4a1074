import SetForest.Text.Blank

/-!
# Lines and words

A text is split at separators into pieces, of which there is always one more
than there are separators.  Lines are the pieces between line feeds.  Words are
the pieces between blanks, without the empty ones.
-/

namespace SetForest.Text

/-- The pieces of a text between the characters that are separators. -/
def split (isSeparator : Char → Bool) (text : List Char) : List (List Char) :=
  text.foldr (fun c pieces =>
    if isSeparator c then [] :: pieces
    else
      match pieces with
      | [] => [[c]]
      | piece :: rest => (c :: piece) :: rest) [[]]

/-- The lines of a text, the one after the last line feed included. -/
def lines (text : List Char) : List (List Char) :=
  split (· == '\n') text

/-- The words of a line. -/
def words (line : List Char) : List (List Char) :=
  (split isBlank line).filter (!·.isEmpty)

/-- A text without the blanks at its two ends. -/
def trim (text : List Char) : List Char :=
  ((text.dropWhile isBlank).reverse.dropWhile isBlank).reverse

end SetForest.Text
