/-
# Byte strings and fixed-width numbers

Records travel as plain byte strings. This file fixes how a number is laid out in a fixed count of
bytes (most significant byte first), how 32 bits are read as a signed number, and how a piece of
bytes is laid over a longer string without changing its length.

Key definitions: `Bytes`, `byteSpan`, `bigEndian`, `ofBigEndian`, `signed32`, `overlay`.
Key theorems: `ofBigEndian_bigEndian`, `bigEndian_ofBigEndian`, `length_overlay`.
-/

namespace LogRelay

/-- A string of bytes. -/
abbrev Bytes := List UInt8

/-! ### Numbers -/

/-- How many numbers `width` bytes can spell. -/
def byteSpan : Nat → Nat
  | 0 => 1
  | width + 1 => byteSpan width * 256

theorem byteSpan_pos : ∀ width : Nat, 0 < byteSpan width
  | 0 => Nat.one_pos
  | width + 1 => Nat.mul_pos (byteSpan_pos width) (by decide)

/-- The low `width` bytes of `n`, most significant first. -/
def bigEndian : Nat → Nat → Bytes
  | 0, _ => []
  | width + 1, n => UInt8.ofNat (n / byteSpan width) :: bigEndian width n

/-- The number that `bytes` spells, most significant byte first. -/
def ofBigEndian (bytes : Bytes) : Nat :=
  bytes.foldl (fun n b => n * 256 + b.toNat) 0

/-- The signed reading of a 32-bit word: a word with its top bit set counts down from zero. -/
def signed32 (word : Nat) : Int :=
  if word < 0x80000000 then (word : Int) else (word : Int) - 0x100000000

@[simp] theorem length_bigEndian : ∀ width n : Nat, (bigEndian width n).length = width
  | 0, _ => rfl
  | width + 1, n => by simp [bigEndian, length_bigEndian width n]

theorem foldl_bigEndian : ∀ width n k : Nat,
    (bigEndian width n).foldl (fun m b => m * 256 + b.toNat) k =
      k * byteSpan width + n % byteSpan width
  | 0, n, k => by simp [bigEndian, byteSpan, Nat.mod_one]
  | width + 1, n, k => by
    have digit : n % (byteSpan width * 256) =
        n % byteSpan width + byteSpan width * (n / byteSpan width % 256) := Nat.mod_mul
    have byte : (UInt8.ofNat (n / byteSpan width)).toNat = n / byteSpan width % 256 := by simp
    rw [bigEndian, List.foldl_cons, foldl_bigEndian width, byte, byteSpan, digit, Nat.add_mul]
    simp only [Nat.mul_comm (byteSpan width), Nat.mul_assoc]
    omega

/-- Reading back `width` bytes of `n` gives `n` modulo what `width` bytes can hold. -/
theorem ofBigEndian_bigEndian (width n : Nat) :
    ofBigEndian (bigEndian width n) = n % byteSpan width := by
  simp [ofBigEndian, foldl_bigEndian]

theorem foldl_ofBigEndian : ∀ (bytes : Bytes) (k : Nat),
    bytes.foldl (fun m b => m * 256 + b.toNat) k = k * byteSpan bytes.length + ofBigEndian bytes
  | [], k => by simp [ofBigEndian, byteSpan]
  | b :: rest, k => by
    rw [ofBigEndian, List.foldl_cons, List.foldl_cons, foldl_ofBigEndian rest,
      foldl_ofBigEndian rest, List.length_cons, byteSpan, Nat.add_mul, Nat.zero_mul, Nat.zero_add]
    simp only [Nat.mul_comm (byteSpan rest.length), Nat.mul_assoc]
    omega

theorem ofBigEndian_cons (b : UInt8) (rest : Bytes) :
    ofBigEndian (b :: rest) = b.toNat * byteSpan rest.length + ofBigEndian rest := by
  rw [ofBigEndian, List.foldl_cons, Nat.zero_mul, Nat.zero_add, foldl_ofBigEndian]

theorem ofBigEndian_lt : ∀ bytes : Bytes, ofBigEndian bytes < byteSpan bytes.length
  | [] => by simp [ofBigEndian, byteSpan]
  | b :: rest => by
    have digit := b.toNat_lt
    have tail := ofBigEndian_lt rest
    rw [ofBigEndian_cons, List.length_cons, byteSpan]
    calc b.toNat * byteSpan rest.length + ofBigEndian rest
        < b.toNat * byteSpan rest.length + byteSpan rest.length := by omega
      _ = (b.toNat + 1) * byteSpan rest.length := by rw [Nat.add_mul, Nat.one_mul]
      _ ≤ 256 * byteSpan rest.length := Nat.mul_le_mul_right _ (by omega)
      _ = byteSpan rest.length * 256 := Nat.mul_comm _ _

theorem byteSpan_dvd_succ (width : Nat) : byteSpan width ∣ byteSpan (width + 1) :=
  Nat.dvd_mul_right _ _

theorem bigEndian_mod : ∀ width n : Nat, bigEndian width (n % byteSpan width) = bigEndian width n
  | 0, _ => rfl
  | width + 1, n => by
    have low : n % byteSpan (width + 1) % byteSpan width = n % byteSpan width :=
      Nat.mod_mod_of_dvd n (byteSpan_dvd_succ width)
    have digit : n % byteSpan (width + 1) / byteSpan width = n / byteSpan width % 256 := by
      rw [byteSpan, Nat.mod_mul_right_div_self]
    rw [bigEndian, bigEndian, digit, ← bigEndian_mod width (n % byteSpan (width + 1)), low,
      bigEndian_mod width n]
    congr 1
    exact UInt8.toNat_inj.1 (by simp)

/-- The bytes of a fixed-width number are determined by the number they spell. -/
theorem bigEndian_ofBigEndian : ∀ bytes : Bytes, bigEndian bytes.length (ofBigEndian bytes) = bytes
  | [] => rfl
  | b :: rest => by
    have lt := ofBigEndian_lt rest
    rw [List.length_cons, bigEndian, ofBigEndian_cons, Nat.mul_comm,
      Nat.mul_add_div (byteSpan_pos rest.length), Nat.div_eq_of_lt lt,
      ← bigEndian_mod rest.length, Nat.mul_add_mod, Nat.mod_eq_of_lt lt,
      bigEndian_ofBigEndian rest]
    simp

/-! ### Laying bytes over bytes -/

/-- The target with a piece written from `offset` on. -/
def overlay (offset : Nat) (piece target : Bytes) : Bytes :=
  target.take offset ++ piece ++ target.drop (offset + piece.length)

/-- A piece that lies inside the target leaves the target's length alone. -/
theorem length_overlay {offset : Nat} {piece target : Bytes}
    (h : offset + piece.length ≤ target.length) :
    (overlay offset piece target).length = target.length := by
  simp only [overlay, List.length_append, List.length_take, List.length_drop]
  omega

/-- Bytes past the end of the piece are the target's own. -/
theorem drop_overlay {offset k : Nat} {piece target : Bytes}
    (inside : offset + piece.length ≤ target.length) (past : offset + piece.length ≤ k) :
    (overlay offset piece target).drop k = target.drop k := by
  have split : (target.take offset ++ piece).length = offset + piece.length := by
    simp only [List.length_append, List.length_take]; omega
  rw [overlay, List.drop_append, List.drop_eq_nil_of_le (by omega), List.nil_append, split,
    List.drop_drop]
  congr 1; omega

end LogRelay
