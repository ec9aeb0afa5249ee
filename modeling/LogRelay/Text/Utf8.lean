/-
# UTF-8

Text as bytes, in both directions. Writing is exact. Reading never fails: where the bytes are not
UTF-8, each longest run that could still have begun a character gives one replacement character
U+FFFD. The table `Lead.ofByte?` is the table of well-formed byte sequences of the Unicode standard:
which bytes may begin a character, and in which range each further byte has to lie, so that no
character is read from more bytes than it needs, no surrogate is read, and nothing past U+10FFFF.

Key definitions: `utf8`, `Lead`, `Lead.ofByte?`, `decodeUtf8`, `isContinuation`, `boundaryBefore`.
Key theorems: `length_follow_le`, `boundaryBefore_le`.
-/
import LogRelay.Bytes

namespace LogRelay

/-! ### Writing -/

/-- The bytes of a list of characters. -/
def utf8Chars (text : List Char) : Bytes := text.flatMap String.utf8EncodeChar

/-- The bytes of a text. -/
def utf8 (text : String) : Bytes := utf8Chars text.toList

/-! ### Reading -/

/-- What a first byte says: the bits it gives to the character, and the range that each further
byte has to lie in. -/
structure Lead where
  payload : Nat
  follow : List (UInt8 × UInt8)

/-- The character printed for bytes that are no UTF-8. -/
def replacement : Char := '\uFFFD'

/-- The reading of a first byte, or nothing if no character begins with it. -/
def Lead.ofByte? (b : UInt8) : Option Lead :=
  let any : UInt8 × UInt8 := (0x80, 0xBF)
  if b ≤ 0x7F then some ⟨b.toNat, []⟩
  else if b < 0xC2 then none
  else if b ≤ 0xDF then some ⟨b.toNat - 0xC0, [any]⟩
  else if b = 0xE0 then some ⟨0, [(0xA0, 0xBF), any]⟩
  else if b = 0xED then some ⟨0xD, [(0x80, 0x9F), any]⟩
  else if b ≤ 0xEF then some ⟨b.toNat - 0xE0, [any, any]⟩
  else if b = 0xF0 then some ⟨0, [(0x90, 0xBF), any, any]⟩
  else if b ≤ 0xF3 then some ⟨b.toNat - 0xF0, [any, any, any]⟩
  else if b = 0xF4 then some ⟨4, [(0x80, 0x8F), any, any]⟩
  else none

/-- Reads the further bytes of a character as long as each lies in its range: the code point, if all
of them did, and the bytes that are left. -/
def follow : Nat → List (UInt8 × UInt8) → Bytes → Option Nat × Bytes
  | code, [], bytes => (some code, bytes)
  | _, _ :: _, [] => (none, [])
  | code, (low, high) :: more, b :: rest =>
    if low ≤ b ∧ b ≤ high then follow (code * 64 + (b.toNat - 0x80)) more rest
    else (none, b :: rest)

theorem length_follow_le : ∀ (code : Nat) (ranges : List (UInt8 × UInt8)) (bytes : Bytes),
    (follow code ranges bytes).2.length ≤ bytes.length
  | _, [], _ => Nat.le_refl _
  | _, _ :: _, [] => Nat.le_refl _
  | code, (low, high) :: more, b :: rest => by
    unfold follow
    split
    · exact Nat.le_trans (length_follow_le _ more rest) (Nat.le_succ _)
    · exact Nat.le_refl _

/-- One character from a first byte and the bytes after it, and the bytes that are left. -/
def readChar (first : UInt8) (rest : Bytes) : Char × Bytes :=
  match Lead.ofByte? first with
  | none => (replacement, rest)
  | some lead =>
    match follow lead.payload lead.follow rest with
    | (some code, left) => (Char.ofNat code, left)
    | (none, left) => (replacement, left)

theorem length_readChar_le (first : UInt8) (rest : Bytes) :
    (readChar first rest).2.length ≤ rest.length := by
  unfold readChar
  split
  · exact Nat.le_refl _
  · next lead _ =>
    have := length_follow_le lead.payload lead.follow rest
    split <;> simp_all

/-- The characters of `bytes`, last first, in front of those already read. -/
def readChars (read : List Char) : Bytes → List Char
  | [] => read
  | b :: rest => readChars ((readChar b rest).1 :: read) (readChar b rest).2
termination_by bytes => bytes.length
decreasing_by exact Nat.lt_succ_of_le (length_readChar_le b rest)

/-- The text of `bytes`, with one replacement character for each run that is no UTF-8. -/
def decodeUtf8 (bytes : Bytes) : String := String.ofList (readChars [] bytes).reverse

/-! ### Boundaries between characters -/

/-- A byte that belongs to a character begun before it. -/
def isContinuation (b : UInt8) : Bool := b &&& 0xC0 == 0x80

/-- Whether a character may be cut off in front of index `k`. -/
def isBoundary (bytes : Bytes) (k : Nat) : Bool :=
  match bytes[k]? with
  | some b => !isContinuation b
  | none => true

/-- The last boundary at or before index `k`. -/
def boundaryBefore (bytes : Bytes) : Nat → Nat
  | 0 => 0
  | k + 1 => if isBoundary bytes (k + 1) then k + 1 else boundaryBefore bytes k

theorem boundaryBefore_le (bytes : Bytes) : ∀ k : Nat, boundaryBefore bytes k ≤ k
  | 0 => Nat.le_refl 0
  | k + 1 => by
    unfold boundaryBefore
    split
    · exact Nat.le_refl _
    · exact Nat.le_succ_of_le (boundaryBefore_le bytes k)

end LogRelay
