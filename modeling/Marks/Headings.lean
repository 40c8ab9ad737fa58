import Mathlib.Data.List.DropRight
import Marks.Strings

/-! # Headings of a document

The analyser reads a text line by line behind its front matter. It follows the fences, and a line outside of them that
a regular expression takes for a heading is reported with its level, its title and the section it opens. -/

namespace Marks

open JsString

namespace JsString

def trim (s : JsString) : JsString := (s.dropWhile isSpace).rdropWhile isSpace

/-- `[ \t]`. -/
def isGap (c : UInt16) : Bool := c == 32 || c == 9

def isHash (c : UInt16) : Bool := c == 35

/-- `indexOf(pattern) >= 0`. -/
def includes (pattern : JsString) : JsString → Bool
  | [] => (afterPrefix pattern []).isSome
  | c :: s => (afterPrefix pattern (c :: s)).isSome || includes pattern s

/-- `replace(/\r$/, '')`. -/
def withoutReturn (s : JsString) : JsString := if s.getLast? = some 13 then s.dropLast else s

/-- `\r?\n` at the head: what is behind it. -/
def afterBreak (s : JsString) : Option JsString := (afterPrefix [13, 10] s).or (afterPrefix [10] s)

/-- `(.+?)` at the head, up to where `accepts` takes the rest. -/
def shortest (accepts : JsString → Bool) : JsString → Option JsString
  | [] => none
  | c :: rest =>
    if isLineTerminator c then none
    else if accepts rest then some [c]
    else (shortest accepts rest).map (c :: ·)

/-- `[ \t]+(.+?)` at the head, up to where `accepts` takes the rest. The gap gives back what it has to: the longest
gap comes first. -/
def spaced (accepts : JsString → Bool) (s : JsString) : Option (Nat × JsString) :=
  ((List.range (run isGap s)).reverse.map (· + 1)).findSome? fun gap =>
    (shortest accepts (s.drop gap)).map fun found => (gap, found)

end JsString

/-! ## Front matter -/

def maxFrontMatterChars : Nat := 64 * 1024

structure FrontMatterEnvelope where
  exists_ : Bool
  closed : Bool
  to_ : Nat
  yamlFrom : Nat
  yamlTo : Nat
  bodyFrom : Nat
  yaml : JsString
deriving DecidableEq, Repr

def dashes : JsString := [45, 45, 45]

/-- `---(?:\r?\n|$)` at the head: what is behind it. -/
def afterDashes (s : JsString) : Option JsString := do
  let rest ← afterPrefix dashes s
  if rest = [] then some [] else afterBreak rest

/-- `/\r?\n---(?:\r?\n|$)/` at the head. -/
def afterClosing (s : JsString) : Option JsString := do
  let behind ← afterBreak s
  afterDashes behind

/-- `closing.exec`: the code units before the first match, and what is behind it. -/
def findClosing : JsString → Option (Nat × JsString)
  | [] => none
  | c :: s =>
    match afterClosing (c :: s) with
    | some rest => some (0, rest)
    | none => (findClosing s).map fun found => (found.1 + 1, found.2)

/-- The length of `---\n` or of `---\r\n` at the head. -/
def openingBytes (text : JsString) : Option Nat :=
  if (afterPrefix (dashes ++ [13, 10]) text).isSome then some 5
  else if (afterPrefix (dashes ++ [10]) text).isSome then some 4
  else none

def unclosedEnvelope (text : JsString) (opening : Nat) : FrontMatterEnvelope where
  exists_ := true
  closed := false
  to_ := min text.length maxFrontMatterChars
  yamlFrom := opening
  yamlTo := min text.length maxFrontMatterChars
  bodyFrom := min text.length maxFrontMatterChars
  yaml := text.slice opening maxFrontMatterChars

def envelope (text : JsString) : FrontMatterEnvelope :=
  match openingBytes text with
  | none => ⟨false, true, 0, 0, 0, 0, []⟩
  | some opening =>
    if maxFrontMatterChars < text.length ∧ includes (newline :: dashes) (text.take maxFrontMatterChars) = false then
      unclosedEnvelope text opening
    else
      match findClosing (text.drop opening) with
      | none => unclosedEnvelope text opening
      | some (before, rest) =>
        { exists_ := true
          closed := true
          to_ := text.length - rest.length
          yamlFrom := opening
          yamlTo := opening + before
          bodyFrom := text.length - rest.length
          yaml := text.slice opening (opening + before) }

/-! ## Lines -/

structure LineRecord where
  number : Nat
  from_ : Nat
  to_ : Nat
  text : JsString
  code : Bool
deriving DecidableEq, Repr

abbrev Fence := UInt16 × Nat

/-- ``/^ {0,3}(`{3,}|~{3,})/``. -/
def fenceMarker (value : JsString) : Option Fence :=
  let indent := run (· == space) value
  match value.drop indent with
  | [] => none
  | c :: rest =>
    let length := run (· == c) (c :: rest)
    if indent ≤ 3 ∧ (c = 96 ∨ c = 126) ∧ 3 ≤ length then some (c, length) else none

/-- The fence behind a line with this marker. -/
def stepFence (fence marker : Option Fence) : Option Fence :=
  match marker, fence with
  | none, fence => fence
  | some marker, none => some marker
  | some marker, some opened => if opened.1 = marker.1 ∧ opened.2 ≤ marker.2 then none else some opened

def markerAt (markdownFrom from_ : Nat) (source : JsString) : Option Fence :=
  if markdownFrom ≤ from_ then fenceMarker (withoutReturn source) else none

/-- The loop over the lines from `from_` on. -/
def scanFrom (markdownFrom : Nat) : List JsString → Nat → Nat → Option Fence → List LineRecord
  | [], _, _, _ => []
  | source :: rest, from_, number, fence =>
    let marker := markerAt markdownFrom from_ source
    let wasCode := decide (markdownFrom ≤ from_) && fence.isSome
    ⟨number, from_, from_ + source.length, withoutReturn source, wasCode || marker.isSome⟩ ::
      scanFrom markdownFrom rest (from_ + source.length + 1) (number + 1) (stepFence fence marker)

def scanLines (text : JsString) (markdownFrom : Nat) : List LineRecord :=
  scanFrom markdownFrom (lines text) 0 1 none

/-! ## Headings -/

def maxAnalyzedChars : Nat := 8 * 1024 * 1024
def maxItems : Nat := 2000

structure SourceRange where
  from_ : Nat
  to_ : Nat
  line : Nat
  column : Nat
deriving DecidableEq, Repr

def sourceRange (line : LineRecord) (localFrom localTo : Nat) : SourceRange :=
  ⟨line.from_ + localFrom, line.from_ + localTo, line.number, localFrom + 1⟩

structure IntelligenceHeading where
  level : Nat
  text : JsString
  range : SourceRange
  sectionFrom : Nat
  sectionTo : Nat
deriving DecidableEq, Repr

/-- `/^( {0,3})(#{1,6})/` in front of a blank: both lengths, and what is behind. -/
def atxMarks (s : JsString) : Option (Nat × Nat × JsString) :=
  let indent := run (· == space) s
  let level := run isHash (s.drop indent)
  if indent ≤ 3 ∧ 1 ≤ level ∧ level ≤ 6 then some (indent, level, s.drop (indent + level)) else none

/-- `/[ \t]*#*[ \t]*$/` at the head. -/
def endsHeading (s : JsString) : Bool :=
  let marks := s.drop (run isGap s)
  (marks.drop (run isHash marks)).all isGap

/-- `/^( {0,3})(#{1,6})[ \t]+(.+?)[ \t]*#*[ \t]*$/`: the indentation, the level and the third group. -/
def headingMatch (value : JsString) : Option (Nat × Nat × JsString) := do
  let (indent, level, behind) ← atxMarks value
  let (_, found) ← spaced endsHeading behind
  some (indent, level, found)

/-- ``/^ {0,3}(`{3,}|~{3,})(.*)$/``. -/
def isFenceLine (value : JsString) : Bool := (fenceMarker value).isSome && value.all (!isLineTerminator ·)

/-- What the loop pushes for a line. -/
def headingOf (textLength bodyFrom : Nat) (line : LineRecord) : Option IntelligenceHeading :=
  if bodyFrom ≤ line.from_ ∧ isFenceLine line.text then none
  else if bodyFrom ≤ line.from_ ∧ line.code = false then
    (headingMatch line.text).map fun found =>
      { level := found.2.1
        text := trim found.2.2
        range := sourceRange line found.1 line.text.length
        sectionFrom := line.from_
        sectionTo := textLength }
  else none

def collectHeadings (textLength bodyFrom : Nat) (records : List LineRecord) : List IntelligenceHeading :=
  records.foldl (fun headings line =>
    match headingOf textLength bodyFrom line with
    | some heading => if headings.length < maxItems then headings ++ [heading] else headings
    | none => headings) []

/-- The section of a heading runs to the next one that is not below it. -/
def closeSections (textLength : Nat) : List IntelligenceHeading → List IntelligenceHeading
  | [] => []
  | heading :: rest =>
    let next := rest.find? (·.level ≤ heading.level)
    { heading with sectionTo := (next.map (·.sectionFrom)).getD textLength } :: closeSections textLength rest

def headingsOf (text : JsString) : List IntelligenceHeading :=
  let bodyFrom := (envelope text).bodyFrom
  closeSections text.length (collectHeadings text.length bodyFrom (scanLines text bodyFrom))

structure DocumentIntelligence where
  truncated : Bool
  headings : List IntelligenceHeading
deriving DecidableEq, Repr

def analyzeDocument (markdown : JsString) : DocumentIntelligence :=
  let truncated := decide (maxAnalyzedChars < markdown.length)
  ⟨truncated, headingsOf (if truncated then markdown.take maxAnalyzedChars else markdown)⟩

end Marks
