/-
# Padded text

A short text printed into a column: cut to a greatest count of characters, then filled up to a
least count. What is missing goes to the right, to the left, or half to each side; when the halves
differ the right one is the longer. A text that is already wide enough is not padded.

Key definitions: `Padding`, `Padding.ofStyle`, `Padding.apply`.
-/

namespace LogRelay

/-- Where a text stands in its column. -/
inductive Alignment
  | left
  | right
  | center
  deriving DecidableEq, Repr

/-- The mark of an alignment in a style. -/
def Alignment.ofMark? : Char → Option Alignment
  | '<' => some .left
  | '>' => some .right
  | '^' => some .center
  | _ => none

/-- How a text is put into a column. -/
structure Padding where
  /-- The character that fills the column. -/
  fill : Char := ' '
  /-- Where the text stands. -/
  alignment : Alignment := .left
  /-- The least count of characters printed. -/
  width : Nat := 0
  /-- The greatest count of characters of the text that are kept. -/
  precision : Option Nat := none
  deriving DecidableEq, Repr

namespace Padding

/-- The fill and alignment that a style spells: a mark, or a fill character and a mark. Any other
style is the plain one, which aligns left and fills with spaces. -/
def ofStyle (style : String) : Padding :=
  match style.toList with
  | [mark] =>
    match Alignment.ofMark? mark with
    | some alignment => ⟨' ', alignment, 0, none⟩
    | none => ⟨' ', .left, 0, none⟩
  | [fill, mark] =>
    match Alignment.ofMark? mark with
    | some alignment => ⟨fill, alignment, 0, none⟩
    | none => ⟨' ', .left, 0, none⟩
  | _ => ⟨' ', .left, 0, none⟩

/-- The share of `missing` characters that goes in front of the text. -/
def lead (p : Padding) (missing : Nat) : Nat :=
  match p.alignment with
  | .left => 0
  | .right => missing
  | .center => missing / 2

/-- The characters that are kept of a text. -/
def kept (p : Padding) (text : List Char) : List Char :=
  match p.precision with
  | some n => text.take n
  | none => text

/-- The characters printed for a text. -/
def place (p : Padding) (text : List Char) : List Char :=
  let body := p.kept text
  let missing := p.width - body.length
  List.replicate (p.lead missing) p.fill ++ body
    ++ List.replicate (missing - p.lead missing) p.fill

/-- The text printed in its column. -/
def apply (p : Padding) (text : String) : String := String.ofList (p.place text.toList)

end Padding

end LogRelay
