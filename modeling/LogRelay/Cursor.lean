/-
# Cursors

A cursor counts positions in a sequence that only grows: how many records were claimed, published or
consumed. It steps forward by one, may be put anywhere, and may be raised to a position, which never
moves it back.

Key definitions: `Cursor.step`, `Cursor.raise`, `Cursor.steps`.
Key theorem: `Cursor.le_raise`.
-/

namespace LogRelay

namespace Cursor

/-- The cursor one position on. -/
def step (c : Nat) : Nat := c + 1

/-- The cursor moved forward to `target`, or left alone if it is there already. -/
def raise (c target : Nat) : Nat := max c target

/-- The cursor after `count` steps. -/
def steps (c : Nat) : Nat → Nat
  | 0 => c
  | count + 1 => steps (step c) count

theorem le_raise (c target : Nat) : c ≤ raise c target := Nat.le_max_left c target

theorem steps_eq : ∀ c count : Nat, steps c count = c + count
  | _, 0 => rfl
  | c, count + 1 => by rw [steps, steps_eq, step]; omega

end Cursor

end LogRelay
