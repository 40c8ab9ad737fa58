import Marks.Json
import Marks.Outbound
import Marks.Results

/-! # Imported spreadsheets

A sheet of an uploaded workbook becomes a heading and a pipe table. Its cells are strings of the file. -/

namespace Marks.Imports

open Network (isWhiteSpace)

abbrev Text := List Char

inductive ImportFailure
  | unsupported
  | invalid
  | empty
  | tooLarge
deriving DecidableEq, Repr

def maxCellScalars : Nat := 4096

/-- What a `usize` holds at most. -/
def saturate (n : Nat) : Nat := min n (2 ^ 64 - 1)

/-- The category `Cc`. -/
def isControl (c : Char) : Bool := c.toNat < 32 || (127 ≤ c.toNat && c.toNat < 160)

def trimStart (text : Text) : Text := text.dropWhile isWhiteSpace

def trim (text : Text) : Text := (trimStart (trimStart text).reverse).reverse

/-- `replace` of one character. -/
def replaceChar (from_ : Char) (to_ text : Text) : Text := text.flatMap fun c => if c = from_ then to_ else [c]

def lineBreak : Text := "<br>".toList

/-- `replace("\r\n", "<br>")`. -/
def replaceCrLf : Text → Text
  | [] => []
  | [c] => [c]
  | c :: d :: rest => if c = '\r' ∧ d = '\n' then lineBreak ++ replaceCrLf rest else c :: replaceCrLf (d :: rest)

/-- `replace(['\r', '\n'], "<br>")`. -/
def replaceBreaks (text : Text) : Text := text.flatMap fun c => if c = '\r' ∨ c = '\n' then lineBreak else [c]

def keepsInCell (c : Char) : Bool := !isControl c || c == '\n' || c == '\r' || c == '\t'

def escapeCell (value : Text) : Text :=
  trim (replaceBreaks (replaceCrLf (replaceChar '|' ['\\', '|'] (replaceChar '\\' ['\\', '\\']
    ((value.take maxCellScalars).filter keepsInCell)))))

def normalizeHeading (value : Text) : Text :=
  trim ((trim ((value.filter fun c => !isControl c).take 160)).dropWhile (· == '#'))

def pushBounded (output value : Text) (maxUnits : Nat) : Except ImportFailure Text :=
  if saturate (maxUnits * 4) < saturate (Json.utf8Bytes output + Json.utf8Bytes value) then throw .tooLarge
  else pure (output ++ value)

/-- `format!("| {} |\n", cells.join(" | "))`. -/
def tableRow (cells : List Text) : Text := "| ".toList ++ " | ".toList.intercalate cells ++ " |\n".toList

/-- `row.get(column)`, or the empty string. -/
def cellAt (row : List Text) (column : Nat) : Text := (row[column]?).getD []

def headerCell (header : List Text) (column : Nat) : Text :=
  if trim (cellAt header column) = [] then "Column ".toList ++ Nat.toDigits 10 (column + 1)
  else escapeCell (cellAt header column)

def columnsOf (rows : List (List Text)) : Nat := ((rows.map List.length).max?).getD 0

def pushGap (output : Text) (maxUnits : Nat) : Except ImportFailure Text :=
  if output.isEmpty then pure output else pushBounded output "\n\n".toList maxUnits

def renderSheet (output name : Text) (rows : List (List Text)) (maxUnits : Nat) : Except ImportFailure Text :=
  if columnsOf rows = 0 then pure output
  else do
    let output ← pushGap output maxUnits
    let output ← pushBounded output ("## ".toList ++ normalizeHeading name ++ "\n\n".toList) maxUnits
    let header ← found rows.head? .empty
    let output ← pushBounded output (tableRow ((List.range (columnsOf rows)).map (headerCell header))) maxUnits
    let output ← pushBounded output (tableRow (List.replicate (columnsOf rows) "---".toList)) maxUnits
    rows.tail.foldlM (fun output row =>
      pushBounded output (tableRow ((List.range (columnsOf rows)).map fun column => escapeCell (cellAt row column)))
        maxUnits) output

end Marks.Imports
