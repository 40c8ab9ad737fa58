import Marks.Blocks
import Marks.Headings
import Marks.Mealy

/-! # Fenced code

Three scanners of the client look for fenced code: the analyser marks lines, the context signals keep ranges of offsets,
and the source blocks of the preview open with a fence line. Beside them stands what CommonMark takes for fenced code. -/

namespace Marks

open JsString

/-! ## CommonMark -/

def fenceRest (value : JsString) (marker : Fence) : JsString := value.drop (run (· == space) value + marker.2)

def opensCode (value : JsString) : Option Fence :=
  (fenceMarker value).filter fun marker => decide (marker.1 ≠ 96 ∨ 96 ∉ fenceRest value marker)

def closesCode (opened : Fence) (value : JsString) : Bool :=
  (fenceMarker value).any fun marker =>
    opened.1 == marker.1 && decide (opened.2 ≤ marker.2) && (fenceRest value marker).all isGap

/-- Reads lines without their ends, and tells of each whether it belongs to fenced code. -/
def commonMark : Mealy.Machine (Option Fence) JsString Bool where
  step := fun fence value =>
    match fence with
    | none => opensCode value
    | some opened => if closesCode opened value then none else some opened
  out := fun fence value => fence.isSome || (opensCode value).isSome

def bareLines (text : JsString) : List JsString := (lines text).map withoutReturn

def fencedCode (text : JsString) : List Bool := commonMark.outputs none (bareLines text)

/-! ## The analyser -/

/-- Of each line whether `scanLines` marks it as code, as `analyzeDocument` calls it. -/
def codeLines (text : JsString) : List Bool := (scanLines text (envelope text).bodyFrom).map (·.code)

/-! ## Context signals -/

def maxContextScanChars : Nat := 2 * 1024 * 1024

/-- The pieces between line terminators: with the flag `m`, `^` and `$` match at their ends. -/
def multilines : JsString → List JsString
  | [] => [[]]
  | c :: rest =>
    if isLineTerminator c then [] :: multilines rest
    else
      match multilines rest with
      | [] => [[c]]
      | piece :: more => (c :: piece) :: more

/-- The loop over the matches from an offset on; `open_` is the fence and where it was opened. -/
def fencedRangesFrom (textLength : Nat) : List JsString → Nat → Option (Fence × Nat) → List (Nat × Nat)
  | [], _, open_ => (open_.map fun opened => (opened.2, textLength)).toList
  | piece :: rest, from_, open_ =>
    match fenceMarker piece, open_ with
    | none, _ => fencedRangesFrom textLength rest (from_ + (piece.length + 1)) open_
    | some marker, none => fencedRangesFrom textLength rest (from_ + (piece.length + 1)) (some (marker, from_))
    | some marker, some (opened, start) =>
      if opened.1 = marker.1 ∧ opened.2 ≤ marker.2 then
        (start, from_ + piece.length) :: fencedRangesFrom textLength rest (from_ + (piece.length + 1)) none
      else fencedRangesFrom textLength rest (from_ + (piece.length + 1)) (some (opened, start))

def fencedRanges (source : JsString) : List (Nat × Nat) := fencedRangesFrom source.length (multilines source) 0 none

def insideFence (ranges : List (Nat × Nat)) (offset : Nat) : Bool :=
  ranges.any fun range => decide (range.1 ≤ offset) && decide (offset < range.2)

/-- Whether `deriveContextSignals` leaves an assertion at the offset out. -/
def signalsFenced (markdown : JsString) (offset : Nat) : Bool :=
  insideFence (fencedRanges (markdown.take maxContextScanChars)) offset

/-! ## Source blocks -/

def inFenceBlock (text : JsString) (i : Nat) : Bool :=
  (splitSourceBlocks text).any fun block =>
    decide (block.start ≤ i) && decide (i < block.end_) && (isFence ((lines text).getD block.start [])).isSome

end Marks
