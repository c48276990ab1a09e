import RowMajor.Tensor
import RowMajor.Decimal.Style

/-! The text of tensors: one form for readers, one for diagnosis. -/
namespace RowMajor.Tensor
open Decimal (NumberText)
variable {α : Type}

def bracketed (parts : List String) : String :=
  "[" ++ ", ".intercalate parts ++ "]"

/-- Rows of `width` elements, at least one; a last row may be shorter. -/
def rows : Nat → Nat → List α → List (List α)
  | 0, _, _ => []
  | _, _, [] => []
  | fuel + 1, width, x :: xs => (x :: xs).take width :: rows fuel width ((x :: xs).drop width)

/-- Vectors and matrices show their elements, tensors of other ranks only their shape. -/
def display [NumberText α] (t : Tensor α) : String :=
  let row (cells : List α) := bracketed (cells.map NumberText.display)
  let cells := t.cells.toList
  let contents :=
    match t.shape with
    | [_] => row cells
    | [_, cols] => bracketed ((rows cells.length (max cols 1) cells).map row)
    | _ => "..."
  s!"BufferND(shape={shapeText t.shape}, buffer={contents})"

/-- How a tensor is held: by its owner, or as a view for reading or for writing. -/
inductive Holding where
  | owned
  | viewed
  | viewedForWriting

/-- Owners show their elements, views where they start. -/
def diagnostic [NumberText α] (holding : Holding) (t : Tensor α) : String :=
  let shape := shapeText t.shape
  match holding with
  | .owned =>
    let cells := bracketed (t.cells.toList.map NumberText.diagnostic)
    s!"BufferND \x7b shape: {shape}, buffer: {cells} \x7d"
  | .viewed => s!"NdView \x7b shape: {shape}, offset: {t.start} \x7d"
  | .viewedForWriting => s!"NdViewMut \x7b shape: {shape}, offset: {t.start} \x7d"

end RowMajor.Tensor
