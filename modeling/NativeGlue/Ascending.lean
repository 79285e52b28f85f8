/-!
# Ascending lists

A set of numbers is kept as a list in ascending order, each number once. A
number is looked for by halving, and a new one is put where the search ends.
On a list in another order, the search may miss a number that is there.
-/

namespace NativeGlue
namespace Ascending

/-- Where a number is in an ascending list, or where it would be. -/
inductive Place where
  /-- The number stands at this position. -/
  | held (position : Nat)
  /-- The number is missing, and belongs in front of this position. -/
  | gap (position : Nat)
deriving DecidableEq, Repr, Inhabited

-- The recursion is not structural; as a semireducible one it still evaluates.
/-- The place of a number that can only be between two positions. -/
@[semireducible]
def placeBetween (xs : List Nat) (x low high : Nat)
    (within : high ≤ xs.length) : Place :=
  if _more : low < high then
    let middle := low + (high - low) / 2
    have inside : middle < high := by omega
    match compare x xs[middle] with
    | .lt => placeBetween xs x low middle (by omega)
    | .eq => .held middle
    | .gt => placeBetween xs x (middle + 1) high within
  else
    .gap low
termination_by high - low

/-- The place of a number. -/
def place (xs : List Nat) (x : Nat) : Place :=
  placeBetween xs x 0 xs.length (Nat.le_refl _)

/-- Whether a number is found. -/
def contains (xs : List Nat) (x : Nat) : Bool :=
  match place xs x with
  | .held _ => true
  | .gap _ => false

/-- The list with one more number, unless the number is found. -/
def insert (x : Nat) (xs : List Nat) : List Nat :=
  match place xs x with
  | .held _ => xs
  | .gap position => xs.insertIdx position x

end Ascending
end NativeGlue
