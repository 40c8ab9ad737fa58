import Mathlib.Algebra.Ring.Int.Defs
import Marks.Overlaps
import Marks.Strings

/-! # Formatting commands

A command that wraps the selected ranges with a marker, or takes the markers away. What it does to each range is worked
out on the document it starts with, and `changeByRange` of the editor puts the changes together. -/

namespace Marks

open JsString

structure SelectionRange where
  anchor : Nat
  head : Nat
deriving DecidableEq, Repr

namespace SelectionRange

def from_ (range : SelectionRange) : Nat := min range.anchor range.head

def to_ (range : SelectionRange) : Nat := max range.anchor range.head

def empty (range : SelectionRange) : Bool := range.anchor == range.head

def ahead (range : SelectionRange) : SelectionRange := ⟨range.from_, range.to_⟩

def shift (δ : Int) (range : SelectionRange) : SelectionRange := ⟨(range.anchor + δ).toNat, (range.head + δ).toNat⟩

end SelectionRange

structure EditorState where
  doc : JsString
  ranges : List SelectionRange
  mainIndex : Nat
deriving DecidableEq, Repr

structure RangeChange where
  changes : List (Splice UInt16)
  range : SelectionRange

/-! ## The editor's part -/

namespace RangeChange

def growth (change : RangeChange) : Int :=
  (change.changes.map fun splice => (splice.insert.length : Int) - (splice.stop - splice.start : Nat)).sum

def Ends (change : RangeChange) (stop : Nat) : Prop := ∀ splice ∈ change.changes, splice.stop ≤ stop

/-- The changes of a range, and the range, stand behind those of the ranges before it. -/
def Separate (length : Nat) : Nat → List RangeChange → Prop
  | pos, [] => pos ≤ length
  | pos, change :: rest => ∃ stop, pos ≤ stop ∧ Splice.InOrder pos change.changes ∧ change.Ends stop ∧
      pos ≤ change.range.from_ ∧ (change.range.to_ : Int) ≤ stop + change.growth ∧ Separate length stop rest

def mapped : Int → List RangeChange → List SelectionRange
  | _, [] => []
  | δ, change :: rest => change.range.shift δ :: mapped (δ + change.growth) rest

end RangeChange

abbrev ChangeByRange := EditorState → (SelectionRange → RangeChange) → EditorState

/-- The changes are made together on the document, and a range is mapped through the changes of the others. -/
structure LawfulByRange (changeByRange : ChangeByRange) : Prop where
  doc : ∀ state f, (changeByRange state f).doc = Splice.merged state.doc ((state.ranges.map f).flatMap (·.changes))
  ranges : ∀ state f, RangeChange.Separate state.doc.length 0 (state.ranges.map f) →
    (changeByRange state f).ranges = RangeChange.mapped 0 (state.ranges.map f)
  mainIndex : ∀ state f, (changeByRange state f).mainIndex = state.mainIndex

/-! ## The command -/

def isWrapped (marker doc : JsString) (range : SelectionRange) : Bool :=
  let before := doc.slice (range.from_ - marker.length) range.from_
  let after := doc.slice range.to_ (min doc.length (range.to_ + marker.length))
  before == marker && after == marker

def wrapRange (marker placeholder doc : JsString) (range : SelectionRange) : RangeChange :=
  let width := marker.length
  if isWrapped marker doc range then
    { changes := [⟨range.from_ - width, range.from_, []⟩, ⟨range.to_, range.to_ + width, []⟩]
      range := ⟨range.from_ - width, range.to_ - width⟩ }
  else
    let text := doc.slice range.from_ range.to_
    let selected := if text = [] then placeholder else text
    { changes := [⟨range.from_, range.to_, marker ++ selected ++ marker⟩]
      range :=
        if range.empty then ⟨range.from_ + width, range.from_ + width + placeholder.length⟩
        else ⟨range.from_ + width, range.from_ + width + selected.length⟩ }

def toggleWrap (changeByRange : ChangeByRange) (marker placeholder : JsString) (state : EditorState) : EditorState :=
  changeByRange state (wrapRange marker placeholder state.doc)

section
variable (changeByRange : ChangeByRange)

def toggleBold := toggleWrap changeByRange (.ofString "**") (.ofString "bold text")
def toggleItalic := toggleWrap changeByRange (.ofString "*") (.ofString "italic text")
def toggleStrikethrough := toggleWrap changeByRange (.ofString "~~") (.ofString "struck out")
def toggleInlineCode := toggleWrap changeByRange [96] (.ofString "code")
def toggleHighlight := toggleWrap changeByRange (.ofString "==") (.ofString "highlight")
def toggleUnderline := toggleWrap changeByRange (.ofString "++") (.ofString "underlined")
def toggleSuperscript := toggleWrap changeByRange (.ofString "^") (.ofString "sup")
def toggleSubscript := toggleWrap changeByRange (.ofString "~") (.ofString "sub")

end

end Marks
