/-
# The text of a value

There are two renderings: the plain one that programs display, and the inspecting one that
quotes texts.  A list is rendered as its elements between brackets; inside itself it is
rendered as `[...]`.
-/
import Pseudocode.Value.Heap
import Pseudocode.Number.Writing
import Pseudocode.Text.Quoted

namespace Pseudocode

/-- A way to write values: what a value that is not a list looks like, and how the signs around
the elements of lists are written. -/
structure Rendering (τ : Type) where
  atom : Value → τ
  sign : String → τ

namespace Rendering

/-- What programs display. -/
def plain : Rendering ByteString where
  atom
    | .nothing => "nothing"
    | .number n => n.format
    | .bool b => if b then "true" else "false"
    | .text s => s
    | .list _ => ""
  sign s := s

/-- What shows the sort of a value: as what programs display, but for texts, which are quoted. -/
def inspect : Rendering String where
  atom
    | .nothing => "nothing"
    | .number n => n.format
    | .bool b => if b then "true" else "false"
    | .text s => Text.quoteBytes s
    | .list _ => ""
  sign s := s

variable {τ : Type} [Append τ]

/-- Texts with commas between them. -/
def separated (r : Rendering τ) : List τ → τ
  | [] => r.sign ""
  | first :: rest => rest.foldl (fun s t => s ++ r.sign "," ++ t) first

end Rendering

namespace Heap

variable {τ : Type} [Append τ]

/-- The text of a value inside the lists `around` it; `depth` bounds how many more lists can
be opened. -/
def renderWithin (h : Heap) (r : Rendering τ) : (depth : Nat) → (around : List ListId) → Value → τ
  | depth, around, .list id =>
      if around.contains id then r.sign "[...]"
      else
        match depth with
        | 0 => r.sign "[...]"
        | depth + 1 =>
            let parts := (h.contents id).map (h.renderWithin r depth (id :: around))
            r.sign "[" ++ r.separated parts ++ r.sign "]"
  | _, _, v => r.atom v

/-- The text of a value.  No more lists can be open at once than there are, and one more that is
unknown and has no elements. -/
def render (h : Heap) (r : Rendering τ) (v : Value) : τ :=
  h.renderWithin r (h.lists.size + 1) [] v

/-- The text that programs display. -/
def display (h : Heap) (v : Value) : ByteString := h.render .plain v

/-- The text that shows what a value is. -/
def inspect (h : Heap) (v : Value) : String := h.render .inspect v

end Heap

end Pseudocode
