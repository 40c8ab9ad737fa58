import Marks.LinesSound
import Marks.Splices

/-! # Table commands

The commands that add a row or a column to the pipe table at the cursor. They find the lines of the table through the
editor's document, and give it insertions in the coordinates of that document. -/

namespace Marks.PipeTables

open JsString

/-- A line of the editor's document. -/
structure DocLine where
  from_ : Nat
  to_ : Nat
  text : JsString
deriving DecidableEq, Repr

structure TextEditor where
  lineAt : JsString → Nat → DocLine
  update : JsString → List (Splice UInt16) → JsString

def Insertions (length : Nat) : Nat → List (Splice UInt16) → Prop
  | pos, [] => pos ≤ length
  | pos, splice :: rest => pos ≤ splice.start ∧ splice.start = splice.stop ∧ Insertions length splice.stop rest

structure LawfulEditor (editor : TextEditor) : Prop where
  lineAt : ∀ before line after pos, (∀ l ∈ before ++ line :: after, newline ∉ l) → (leading before).length ≤ pos →
    pos ≤ (leading before).length + line.length →
      editor.lineAt (joinLines (before ++ line :: after)) pos =
        ⟨(leading before).length, (leading before).length + line.length, line⟩
  update : ∀ doc changes, Insertions doc.length 0 changes → editor.update doc changes = Splice.together doc 0 changes

/-! ## Lines of a table -/

/-- `/^\s*\|/`. -/
def isTableLine (text : JsString) : Bool := (text.dropWhile isSpace).head? == some 124

/-- `[\s:|-]`. -/
def isDelimiterChar (c : UInt16) : Bool := isSpace c || c == 58 || c == 124 || c == 45

/-- `/^\s*\|[\s:|-]+\|/`. -/
def isSep (row : JsString) : Bool :=
  match row.dropWhile isSpace with
  | [] => false
  | c :: rest => c == 124 && ((rest.takeWhile isDelimiterChar).drop 1).contains 124

/-! ## The commands -/

structure TableUpdate where
  changes : List (Splice UInt16)
  anchor : Option Nat

section
variable (editor : TextEditor) (doc : JsString)

/-- The walk to the last line of the table. -/
def walkDown : Nat → Nat → Nat → Nat
  | 0, _, insertAt => insertAt
  | fuel + 1, cursor, insertAt =>
    if cursor < doc.length then
      let next := editor.lineAt doc cursor
      if isTableLine next.text then walkDown fuel (next.to_ + 1) next.to_ else insertAt
    else insertAt

def cellRow (cells : Nat) : JsString :=
  ofString "| " ++ List.intercalate (ofString " | ") (List.replicate (max 1 cells) (ofString "Cell")) ++ ofString " |"

def addTableRow (main : Nat) : Option TableUpdate :=
  let line := editor.lineAt doc main
  if !isTableLine line.text then none
  else
    let cells := (line.text.splitOn 124).length - 2
    let insertAt := walkDown editor doc (doc.length + 1) main line.to_
    some ⟨[⟨insertAt, insertAt, newline :: cellRow cells⟩], some (insertAt + 3)⟩

def blockStart : Nat → Nat → Nat
  | 0, start => start
  | fuel + 1, start =>
    if 0 < start then
      let previous := editor.lineAt doc (start - 1)
      if isTableLine previous.text then blockStart fuel previous.from_ else start
    else start

def blockEnd : Nat → Nat → Nat
  | 0, last => last
  | fuel + 1, last =>
    if last < doc.length then
      let next := editor.lineAt doc (last + 1)
      if isTableLine next.text then blockEnd fuel next.to_ else last
    else last

def newCell (row : JsString) : JsString := if isSep row then ofString " --- |" else ofString " Cell |"

/-- The insertion behind each row. -/
def cellChanges : Nat → List JsString → List (Splice UInt16)
  | _, [] => []
  | offset, row :: rest =>
    ⟨offset + row.length, offset + row.length, newCell row⟩ :: cellChanges (offset + row.length + 1) rest

def addTableColumn (main : Nat) : Option TableUpdate :=
  let line := editor.lineAt doc main
  if !isTableLine line.text then none
  else
    let start := blockStart editor doc (doc.length + 1) line.from_
    let last := blockEnd editor doc (doc.length + 1) line.to_
    some ⟨cellChanges start (lines (doc.slice start last)), none⟩

def updated : Option TableUpdate → JsString
  | none => doc
  | some update => editor.update doc update.changes

end

/-! ## What a row says -/

/-- The pieces between the pipes without a backslash in front. -/
def splitCells : Bool → JsString → List JsString
  | _, [] => [[]]
  | escaped, c :: rest =>
    if c = 124 ∧ escaped = false then [] :: splitCells false rest
    else
      match splitCells (c == 92) rest with
      | [] => [[c]]
      | piece :: more => (c :: piece) :: more

def afterPipe (row : JsString) : JsString := (row.dropWhile isSpace).drop 1

def trim (text : JsString) : JsString := ((text.dropWhile isSpace).reverse.dropWhile isSpace).reverse

def isClosed (row : JsString) : Bool := ((splitCells false (afterPipe row)).getLast?.getD []).all isSpace

def cellsOf (row : JsString) : List JsString :=
  let pieces := splitCells false (afterPipe row)
  (if isClosed row then pieces.dropLast else pieces).map trim

/-- `/^:?-+:?$/`. -/
def isDelimiterCell (cell : JsString) : Bool :=
  let dashes := if cell.head? = some 58 then cell.drop 1 else cell
  let behind := dashes.dropWhile (· == 45)
  dashes.head? == some 45 && (behind == [] || behind == [58])

/-- A header row, a delimiter row and rows of data, each with so many cells. -/
structure IsTable (columns : Nat) (rows : List JsString) : Prop where
  some_ : 0 < columns
  piped : ∀ row ∈ rows, isTableLine row = true
  cells : ∀ row ∈ rows, (cellsOf row).length = columns
  delimiter : ∃ row, rows[1]? = some row ∧ ∀ cell ∈ cellsOf row, isDelimiterCell cell = true

end Marks.PipeTables
