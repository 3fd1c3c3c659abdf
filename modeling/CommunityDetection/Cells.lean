import CommunityDetection.Scalar

/-!
# Arrays of scalars

A cell is read and updated by its index. A read outside the array gives zero and an update outside
it changes nothing.
-/

namespace CommunityDetection

abbrev Cells (α : Type) := Array α

namespace Cells

variable {α : Type} [Scalar α]

def zeros (size : Nat) : Cells α := Array.replicate size 0

def read (cells : Cells α) (index : Nat) : α := cells.getD index 0

def write (cells : Cells α) (index : Nat) (value : α) : Cells α := cells.setIfInBounds index value

def add (cells : Cells α) (index : Nat) (delta : α) : Cells α :=
  cells.write index (cells.read index + delta)

end Cells

end CommunityDetection
