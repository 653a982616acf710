/-! # The order of UTF-16 units

`compareUnits` compares two texts unit by unit, where a character beyond the basic
plane counts as its two surrogates.  The order differs from that of code points: the
surrogates come before the private characters and the compatibility forms. -/

set_option autoImplicit false

namespace Unflatten.Text

/-- The UTF-16 units of a character. -/
def units (c : Char) : List Nat :=
  let code := c.toNat
  if code < 0x10000 then [code]
  else [0xd800 + (code - 0x10000) / 1024, 0xdc00 + (code - 0x10000) % 1024]

/-- Compares two lists of numbers from the front; a list comes before its extensions. -/
def compareLists : List Nat → List Nat → Ordering
  | [], [] => .eq
  | [], _ :: _ => .lt
  | _ :: _, [] => .gt
  | a :: as, b :: bs => if a < b then .lt else if b < a then .gt else compareLists as bs

/-- Compares two texts by their UTF-16 units. -/
def compareUnits (a b : String) : Ordering :=
  compareLists (a.toList.flatMap units) (b.toList.flatMap units)

theorem compareLists_self (a : List Nat) : compareLists a a = .eq := by
  induction a with
  | nil => rfl
  | cons first rest ih => simp [compareLists, ih]

end Unflatten.Text
