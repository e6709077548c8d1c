/-!
# Blanks and sizes

Spaces and tabs are the only blanks an expression may hold.  A text is read without them
(`compact`), and a place in it is counted in bytes of UTF-8 (`byteSize`).
-/

namespace InfixArith.Text

/-- A space or a tab. -/
def isBlank (c : Char) : Bool :=
  c == ' ' || c == '\t'

/-- A text without its blanks. -/
def compact (s : List Char) : List Char :=
  s.filter fun c => !isBlank c

/-- The length of a text in bytes of UTF-8. -/
def byteSize (s : List Char) : Nat :=
  s.foldr (fun c size => c.utf8Size + size) 0

theorem byteSize_cons (c : Char) (s : List Char) :
    byteSize (c :: s) = c.utf8Size + byteSize s := rfl

theorem compact_append (s t : List Char) : compact (s ++ t) = compact s ++ compact t := by
  simp [compact]

end InfixArith.Text
