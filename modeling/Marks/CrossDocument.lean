import Marks.Headings

/-! # Linked sections

A reference names a document, and perhaps a heading and a label. One part of the client writes it, the renderer's block
rule reads it, and the section under the heading is then looked up in the other document's text. -/

namespace Marks

open JsString

/-! ## References -/

/-- `[A-Za-z0-9_-]`. -/
def isDocumentIdUnit (c : UInt16) : Bool := isLetter c || isDigit c || c == 95 || c == 45

/-- `/^[A-Za-z0-9_-]{1,160}$/`. -/
def isDocumentId (s : JsString) : Bool := s.all isDocumentIdUnit && decide (1 ≤ s.length ∧ s.length ≤ 160)

/-- `replace(/[\]|\r\n]/g, ' ').trim().slice(0, 200)`. -/
def cleanPart (s : JsString) : JsString :=
  (trim (s.map fun c => if c = 93 ∨ c = 124 ∨ c = 13 ∨ c = 10 then space else c)).take 200

/-- A part behind its mark; one that is empty is left out. -/
def markedPart (mark : UInt16) (part : Option JsString) : JsString :=
  match part.map cleanPart with
  | none => []
  | some clean => if clean = [] then [] else mark :: clean

/-- `none` where an error is thrown. -/
def crossDocumentBlock (documentId : JsString) (heading label : Option JsString) : Option JsString :=
  if isDocumentId documentId then
    some ([33, 91, 91] ++ (documentId ++ (markedPart 35 heading ++ (markedPart 124 label ++ [93, 93]))))
  else none

/-! ## The block rule -/

structure BlockReference where
  documentId : JsString
  heading : JsString
  label : JsString
deriving DecidableEq, Repr

/-- A run of `low` to `high` code units, and what is behind it. None of the patterns goes on with a code unit that `p`
takes, so no shorter run is tried. -/
def boundedRun (p : UInt16 → Bool) (low high : Nat) (s : JsString) : Option (JsString × JsString) :=
  if low ≤ run p s ∧ run p s ≤ high then some (s.take (run p s), s.drop (run p s)) else none

/-- `(?:mark(p{1,200}))?`. Without the group the pattern goes on with another code unit than the mark. -/
def optionalPart (mark : UInt16) (p : UInt16 → Bool) (s : JsString) : Option (Option JsString × JsString) :=
  if s.head? = some mark then (boundedRun p 1 200 s.tail).map fun found => (some found.1, found.2) else some (none, s)

/-- `[^\]|\n]`. -/
def isHeadingUnit (c : UInt16) : Bool := c != 93 && c != 124 && c != 10

/-- `[^\]\n]`. -/
def isLabelUnit (c : UInt16) : Bool := c != 93 && c != 10

/-- The block rule on the source of a line. -/
def crossDocumentRule (line : JsString) : Option BlockReference := do
  let rest ← afterPrefix [33, 91, 91] (trim line)
  let (documentId, rest) ← boundedRun isDocumentIdUnit 1 160 rest
  let (heading, rest) ← optionalPart 35 isHeadingUnit rest
  let (label, rest) ← optionalPart 124 isLabelUnit rest
  if rest = [93, 93] then some ⟨documentId, trim (heading.getD []), trim (label.getD [])⟩ else none

/-! ## Sections -/

def headingOutside (fence : Option Fence) (line : JsString) : Option (Nat × JsString) :=
  if fence = none ∧ fenceMarker line = none then (headingMatch line).map fun found => (found.2.1, trim found.2.2) else none

/-- The first loop: the lines before the heading, and its level. -/
def sectionStart (fold : JsString → JsString) (normalized : JsString) : List JsString → Option Fence → Option (Nat × Nat)
  | [], _ => none
  | line :: rest, fence =>
    match (headingOutside fence line).filter fun heading => fold heading.2 == normalized with
    | some heading => some (0, heading.1)
    | none =>
      (sectionStart fold normalized rest (stepFence fence (fenceMarker line))).map fun found => (found.1 + 1, found.2)

/-- The second loop: the lines before the next heading of at most this level. -/
def sectionLength (level : Nat) : List JsString → Option Fence → Nat
  | [], _ => 0
  | line :: rest, fence =>
    if (headingOutside fence line).any fun heading => decide (heading.1 ≤ level) then 0
    else sectionLength level rest (stepFence fence (fenceMarker line)) + 1

/-- `fold` is `toLocaleLowerCase`. -/
def extractDocumentSection (fold : JsString → JsString) (markdown requestedHeading : JsString) : Option JsString :=
  if requestedHeading = [] then some markdown
  else
    let all := lines markdown
    (sectionStart fold (fold (trim requestedHeading)) all none).map fun (start, level) =>
      joinLines ((all.take (start + 1 + sectionLength level (all.drop (start + 1)) none)).drop start)

end Marks
