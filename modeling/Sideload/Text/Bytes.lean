/-! # Bytes of a text

Places in a text are counted in bytes of its UTF-8 form. -/

namespace Sideload.Text

/-- The bytes of a text in UTF-8. -/
def byteSize : List Char → Nat
  | [] => 0
  | c :: cs => c.utf8Size + byteSize cs

theorem byteSize_append (cs ds : List Char) : byteSize (cs ++ ds) = byteSize cs + byteSize ds := by
  induction cs with
  | nil => simp [byteSize]
  | cons c cs ih => rw [List.cons_append, byteSize, byteSize, ih, Nat.add_assoc]

example : byteSize ['a', 'é', '😀'] = 7 := by decide

end Sideload.Text
