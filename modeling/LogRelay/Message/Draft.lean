/-
# Drafts

The message of a record is composed in an area of fixed size. Plain bytes are cut at the end of the
area; a piece of text is cut in front of the first character that does not fit, so the text in a
draft is never left with half a character. Every piece is cut for itself: what did not fit of one
piece is gone, and a later, shorter piece may still fit behind it.

Key definitions: `Draft`, `Draft.addBytes`, `Draft.addText`, `Draft.message`.
Key theorems: `Draft.length_append`, `Draft.drop_append`.
-/
import LogRelay.Text.Utf8

namespace LogRelay

/-- A message that is being composed: the area for it, and how much of the area is used. -/
structure Draft where
  area : Bytes
  used : Nat := 0
  used_le : used ≤ area.length := by omega

namespace Draft

/-- An area that is not used yet. -/
def blank (area : Bytes) : Draft := ⟨area, 0, Nat.zero_le _⟩

/-- How much more fits. -/
def room (d : Draft) : Nat := d.area.length - d.used

/-- The message composed so far. -/
def message (d : Draft) : Bytes := d.area.take d.used

/-- Puts a piece that fits behind the message. -/
def append (d : Draft) (piece : Bytes) (fits : piece.length ≤ d.room) : Draft where
  area := overlay d.used piece d.area
  used := d.used + piece.length
  used_le := by
    have := d.used_le
    unfold room at fits
    rw [length_overlay (by omega)]
    omega

/-- Adds as many bytes as fit. -/
def addBytes (d : Draft) (bytes : Bytes) : Draft :=
  d.append (bytes.take d.room) (List.length_take_le _ _)

/-- How much of the text `bytes` fits without cutting a character. -/
def fitting (d : Draft) (bytes : Bytes) : Nat := boundaryBefore bytes (min bytes.length d.room)

/-- Adds as many characters of a text as fit. -/
def addText (d : Draft) (text : String) : Draft :=
  let bytes := utf8 text
  d.append (bytes.take (d.fitting bytes)) <| by
    have := boundaryBefore_le bytes (min bytes.length d.room)
    rw [List.length_take]
    unfold fitting
    omega

/-- The area keeps its size. -/
theorem length_append (d : Draft) (piece : Bytes) (fits : piece.length ≤ d.room) :
    (d.append piece fits).area.length = d.area.length := by
  have := d.used_le
  unfold room at fits
  exact length_overlay (by omega)

/-- What lies behind the message is not touched. -/
theorem drop_append (d : Draft) (piece : Bytes) (fits : piece.length ≤ d.room) :
    (d.append piece fits).area.drop (d.append piece fits).used =
      d.area.drop (d.append piece fits).used := by
  have := d.used_le
  unfold room at fits
  exact drop_overlay (by omega) (Nat.le_refl _)

/-- A piece that fits is added to the message. -/
theorem message_append (d : Draft) (piece : Bytes) (fits : piece.length ≤ d.room) :
    (d.append piece fits).message = d.message ++ piece := by
  have := d.used_le
  simp only [append, message, overlay]
  rw [List.take_append_of_le_length (by simp only [List.length_append, List.length_take]; omega),
    List.take_of_length_le (by simp only [List.length_append, List.length_take]; omega)]

end Draft

end LogRelay
