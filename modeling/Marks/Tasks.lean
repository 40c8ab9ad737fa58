import Marks.Strings

/-! # Task lists

A click on a rendered checkbox is taken back to the source by its ordinal: the renderer emits a checkbox for each
task item of the token stream, and a regular expression finds the markers line by line. markdown-it is a parameter;
of its tokens the task rule looks at the type and the content. -/

namespace Marks

open JsString

/-! ## Checkboxes of the token stream -/

inductive TaskTokenType
  | listItemOpen
  | paragraphOpen
  | inline
  | other
deriving DecidableEq, Repr

/-- `contentStart` is where the content was taken from in the source; the rule does not look at it. -/
structure TaskToken where
  type : TaskTokenType
  content : JsString
  contentStart : Nat
deriving DecidableEq, Repr

/-- `/^\[([ xX])\][ \t]+/`: the mark. -/
def taskContent : JsString → Option UInt16
  | 91 :: mark :: 93 :: gap :: _ =>
    if (mark = 32 ∨ mark = 120 ∨ mark = 88) ∧ (gap = 32 ∨ gap = 9) then some mark else none
  | _ => none

/-- The inline tokens that get a checkbox, with their marks, in the order of the stream. -/
def taskItems : List TaskToken → List (TaskToken × UInt16)
  | item :: paragraph :: inline :: rest =>
    let here := if item.type = .listItemOpen ∧ paragraph.type = .paragraphOpen ∧ inline.type = .inline then
        (taskContent inline.content).toList.map fun mark => (inline, mark)
      else []
    here ++ taskItems (paragraph :: inline :: rest)
  | _ => []

/-! ## Markers of the source -/

/-- `(?:[-*+]|\d+\.)` and what is behind it. -/
def afterMarker : JsString → Option JsString
  | [] => none
  | c :: rest =>
    if c = 45 ∨ c = 42 ∨ c = 43 then some rest
    else
      match (c :: rest).drop (run isDigit (c :: rest)) with
      | 46 :: behind => if 0 < run isDigit (c :: rest) then some behind else none
      | _ => none

/-- `TASK_LINE`: the length of what is before the bracket, and the mark. -/
def taskLine (line : JsString) : Option (Nat × UInt16) := do
  let behind ← afterMarker (line.drop (run isSpace line))
  guard (0 < run isSpace behind)
  match behind.drop (run isSpace behind) with
  | 91 :: mark :: 93 :: rest =>
    if mark = 32 ∨ mark = 120 ∨ mark = 88 then some (line.length - (rest.length + 3), mark) else none
  | _ => none

structure TaskMarker where
  from_ : Nat
  checked : Bool
deriving DecidableEq, Repr

/-- The loop over the lines, from `lineOffset` on, where so many markers have been seen. -/
def findMarker (sourceStart ordinal : Nat) : List JsString → Nat → Nat → Option TaskMarker
  | [], _, _ => none
  | line :: lines, lineOffset, seen =>
    match taskLine line with
    | some (before, mark) =>
      if seen = ordinal then some ⟨sourceStart + lineOffset + before + 1, mark ≠ space⟩
      else findMarker sourceStart ordinal lines (lineOffset + line.length + 1) (seen + 1)
    | none => findMarker sourceStart ordinal lines (lineOffset + line.length + 1) seen

def taskMarkerAt (source : JsString) (sourceStart sourceEnd ordinal : Int) : Option TaskMarker :=
  if !isSafeInteger sourceStart ∨ !isSafeInteger sourceEnd ∨ !isSafeInteger ordinal ∨ sourceStart < 0 ∨
      sourceEnd < sourceStart ∨ source.length < sourceEnd ∨ ordinal < 0 then none
  else
    findMarker sourceStart.toNat ordinal.toNat (lines (source.slice sourceStart.toNat sourceEnd.toNat)) 0 0

/-- A click on the checkbox of the block that is rendered from the span. -/
def toggleTask (source : JsString) (sourceStart sourceEnd ordinal : Int) : JsString :=
  match taskMarkerAt source sourceStart sourceEnd ordinal with
  | some marker =>
    (applyTextEdit source ⟨marker.from_, marker.from_ + 1, [if marker.checked then 32 else 120]⟩).getD source
  | none => source

end Marks
