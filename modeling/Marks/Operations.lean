import Marks.Headings

/-! # Operations on the structure of a document

The edits of the inspector work on the source of the text with the headings of a report: renaming a heading, moving
a section's headings a level up or down, and exchanging a section with its neighbour. -/

namespace Marks

open JsString

inductive StructureDirection
  | up
  | down
deriving DecidableEq, Repr

inductive ShiftDirection
  | promote
  | demote
deriving DecidableEq, Repr

/-- Where the line at the heading's offset starts and ends, and what it holds. -/
def headingLine (text : JsString) (heading : IntelligenceHeading) : Nat × Nat × JsString :=
  let from_ := heading.sectionFrom
  let behind := text.drop from_
  let to_ := if newline ∈ behind then from_ + behind.idxOf newline else text.length
  (from_, to_, text.slice from_ to_)

def replaceRange (text : JsString) (from_ to_ : Nat) (replacement : JsString) : Except String JsString :=
  if to_ < from_ ∨ text.length < to_ then throw "The source range is no longer valid."
  else pure (text.take from_ ++ replacement ++ text.drop to_)

/-! ## Renaming -/

def isBreak (c : UInt16) : Bool := c == 10 || c == 13

/-- `replace(/[\r\n]+/g, ' ')`; the flag says that a run of breaks has its space. -/
def spaceBreaks : Bool → JsString → JsString
  | _, [] => []
  | inRun, c :: rest =>
    if isBreak c then
      if inRun then spaceBreaks true rest else space :: spaceBreaks true rest
    else c :: spaceBreaks false rest

def nextTitle (title : JsString) : JsString := trim (spaceBreaks false title)

/-- `/([ \t]+#*[ \t]*)?$/` at the head. -/
def endsTitle (s : JsString) : Bool := s.isEmpty || (0 < run isGap s && endsHeading s)

/-- `/^( {0,3}#{1,6})[ \t]+(.+?)([ \t]+#*[ \t]*)?$/`: its groups, the last one empty where it is undefined. -/
def titleMatch (source : JsString) : Option (JsString × JsString × JsString) := do
  let (indent, level, behind) ← atxMarks source
  let (gap, found) ← spaced endsTitle behind
  some (source.take (indent + level), found, behind.drop (gap + found.length))

def renameHeading (text : JsString) (heading : IntelligenceHeading) (title : JsString) : Except String JsString :=
  let next := nextTitle title
  if next = [] ∨ 240 < next.length then throw "Use a heading between 1 and 240 characters."
  else
    match titleMatch (headingLine text heading).2.2 with
    | none => throw "The heading changed; refresh the structure report."
    | some (marks, _, closing) =>
      replaceRange text (headingLine text heading).1 (headingLine text heading).2.1 (marks ++ [space] ++ next ++ closing)

/-! ## Shifting -/

/-- The lines of a multiline expression: `^` stands behind each line terminator. -/
def terminated : JsString → List JsString
  | [] => [[]]
  | c :: rest =>
    if isLineTerminator c then [c] :: terminated rest
    else
      match terminated rest with
      | [] => [[c]]
      | line :: more => (c :: line) :: more

/-- `/^( {0,3})(#{1,6})([ \t]+)/` on a line. -/
def hashesAt (line : JsString) : Option (Nat × Nat × JsString) :=
  (atxMarks line).filter fun found => 0 < run isGap found.2.2

def shiftedLevel (direction : ShiftDirection) (level : Nat) : Nat :=
  match direction with
  | .promote => level - 1
  | .demote => level + 1

/-- What `replace` puts for a line. -/
def shiftLine (direction : ShiftDirection) (line : JsString) : JsString :=
  match hashesAt line with
  | none => line
  | some (indent, level, behind) =>
    if shiftedLevel direction level < 1 ∨ 6 < shiftedLevel direction level then line
    else line.take indent ++ List.replicate (shiftedLevel direction level) 35 ++ behind

def depths (part : JsString) : List Nat := (terminated part).filterMap fun line => (hashesAt line).map (·.2.1)

def shiftHeadingDepth (text : JsString) (heading : IntelligenceHeading) (direction : ShiftDirection) :
    Except String JsString :=
  if direction = .promote ∧ heading.level = 1 then throw "A level-one heading cannot be promoted."
  else
    let part := text.slice heading.sectionFrom heading.sectionTo
    let unsafeDepth := (depths part).any fun level =>
      decide (shiftedLevel direction level < 1 ∨ 6 < shiftedLevel direction level)
    if (depths part).isEmpty || unsafeDepth then
      throw (match direction with
        | .promote => "This section contains a heading that cannot be promoted safely."
        | .demote => "This section contains a heading that cannot be demoted safely.")
    else
      let changed := (depths part).any fun level =>
        decide (1 ≤ shiftedLevel direction level ∧ shiftedLevel direction level ≤ 6)
      if changed then
        replaceRange text heading.sectionFrom heading.sectionTo ((terminated part).flatMap (shiftLine direction))
      else throw "No headings in this section can move to that level."

/-! ## Moving -/

def sectionParent (headings : List IntelligenceHeading) (selected : IntelligenceHeading) :
    Option IntelligenceHeading :=
  headings.reverse.find? fun candidate =>
    candidate.sectionFrom < selected.sectionFrom && selected.sectionTo ≤ candidate.sectionTo &&
      candidate.level < selected.level

def siblings (text : JsString) (headings : List IntelligenceHeading) (selected : IntelligenceHeading) :
    List IntelligenceHeading :=
  let parent := sectionParent headings selected
  let scopeFrom := (parent.map (·.sectionFrom)).getD 0
  let scopeTo := (parent.map (·.sectionTo)).getD text.length
  headings.filter fun candidate =>
    candidate.level == selected.level && scopeFrom ≤ candidate.sectionFrom && candidate.sectionTo ≤ scopeTo

/-- `siblings[position ± 1]`, where `findIndex` gives `-1` for a heading that is not among them. -/
def neighbor (all : List IntelligenceHeading) (selected : IntelligenceHeading) (direction : StructureDirection) :
    Option IntelligenceHeading :=
  match all.findIdx? (·.sectionFrom == selected.sectionFrom), direction with
  | some position, .up => if position = 0 then none else all[position - 1]?
  | some position, .down => all[position + 1]?
  | none, .up => none
  | none, .down => all[0]?

def moveHeadingSection (text : JsString) (headings : List IntelligenceHeading) (selected : IntelligenceHeading)
    (direction : StructureDirection) : Except String JsString :=
  match neighbor (siblings text headings selected) selected direction with
  | none =>
    throw (match direction with
      | .up => "This section is already the first at its level."
      | .down => "This section is already the last at its level.")
  | some other =>
    match direction with
    | .up =>
      let before := text.slice other.sectionFrom selected.sectionFrom
      let current := text.slice selected.sectionFrom selected.sectionTo
      replaceRange text other.sectionFrom selected.sectionTo (current ++ before)
    | .down =>
      let current := text.slice selected.sectionFrom selected.sectionTo
      let after := text.slice other.sectionFrom other.sectionTo
      replaceRange text selected.sectionFrom other.sectionTo (after ++ current)

end Marks
