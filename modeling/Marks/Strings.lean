import Mathlib.Algebra.Ring.Nat
import Mathlib.Data.List.Basic

/-! # Strings of the client

A JavaScript string is its UTF-16 code units. Below it the operations the Markdown code uses, and text edits
as the engine reports them. -/

namespace Marks

abbrev JsString := List UInt16

namespace JsString

/-- The code units of a string of characters below `2 ^ 16`. -/
def ofString (s : String) : JsString := s.toList.map fun c => UInt16.ofNat c.toNat

def newline : UInt16 := 10
def space : UInt16 := 32

/-- `split('\n')`. -/
def lines : JsString → List JsString
  | [] => [[]]
  | c :: rest =>
    if c = newline then [] :: lines rest
    else
      match lines rest with
      | [] => [[c]]
      | line :: more => (c :: line) :: more

/-- `join('\n')`. -/
def joinLines (lines : List JsString) : JsString := List.intercalate [newline] lines

/-- `slice(start, stop)` for bounds that are not negative. -/
def slice (s : JsString) (start stop : Nat) : JsString := (s.take stop).drop start

/-- `WhiteSpace` and `LineTerminator`: what `trim` drops and `\s` matches. -/
def isSpace (c : UInt16) : Bool :=
  (9 ≤ c && c ≤ 13) || c == 32 || c == 0xA0 || c == 0x1680 || (0x2000 ≤ c && c ≤ 0x200A) ||
    c == 0x2028 || c == 0x2029 || c == 0x202F || c == 0x205F || c == 0x3000 || c == 0xFEFF

def isDigit (c : UInt16) : Bool := 48 ≤ c && c ≤ 57

def isLetter (c : UInt16) : Bool := (65 ≤ c && c ≤ 90) || (97 ≤ c && c ≤ 122)

/-- What `.` does not match. -/
def isLineTerminator (c : UInt16) : Bool := c == 10 || c == 13 || c == 0x2028 || c == 0x2029

/-- `trim() === ''`. -/
def isBlank (s : JsString) : Bool := s.all isSpace

/-- The string behind `text`, when it starts with it. -/
def afterPrefix : JsString → JsString → Option JsString
  | [], s => some s
  | c :: text, d :: s => if c = d then afterPrefix text s else none
  | _ :: _, [] => none

/-- The length of the longest run of code units that satisfy `p`. -/
def run (p : UInt16 → Bool) (s : JsString) : Nat := (s.takeWhile p).length

/-! ### Code points -/

def isHighSurrogate (c : UInt16) : Bool := 0xD800 ≤ c && c ≤ 0xDBFF

def isLowSurrogate (c : UInt16) : Bool := 0xDC00 ≤ c && c ≤ 0xDFFF

def loneCodePoint (c : UInt16) : Char :=
  if isHighSurrogate c || isLowSurrogate c then Char.ofNat 0xFFFD else Char.ofNat c.toNat

/-- The code points `TextEncoder` writes. -/
def codePoints : JsString → List Char
  | [] => []
  | [c] => [loneCodePoint c]
  | c :: d :: rest =>
    if isHighSurrogate c && isLowSurrogate d then
      Char.ofNat (0x10000 + (c.toNat - 0xD800) * 0x400 + (d.toNat - 0xDC00)) :: codePoints rest
    else loneCodePoint c :: codePoints (d :: rest)

def codeUnits (c : Char) : JsString :=
  if c.toNat < 0x10000 then [UInt16.ofNat c.toNat]
  else
    [UInt16.ofNat (0xD800 + (c.toNat - 0x10000) / 0x400), UInt16.ofNat (0xDC00 + (c.toNat - 0x10000) % 0x400)]

/-- The string of the code points a `TextDecoder` reads. -/
def ofCodePoints (text : List Char) : JsString := text.flatMap codeUnits

end JsString

/-! ## Text edits -/

/-- A replacement in the coordinates the edits before it produce. -/
structure TextEdit where
  from_ : Int
  to_ : Int
  insert : JsString
deriving DecidableEq, Repr

def isSafeInteger (n : Int) : Bool := n.natAbs < 2 ^ 53

/-- One round of the loop; `none` is the `RangeError`. -/
def applyTextEdit (text : JsString) (edit : TextEdit) : Option JsString :=
  if !isSafeInteger edit.from_ ∨ !isSafeInteger edit.to_ ∨ edit.from_ < 0 ∨ edit.to_ < edit.from_ ∨
      text.length < edit.to_ then none
  else some (text.slice 0 edit.from_.toNat ++ edit.insert ++ text.slice edit.to_.toNat text.length)

def applyTextEdits (text : JsString) (edits : List TextEdit) : Option JsString := edits.foldlM applyTextEdit text

theorem applyTextEdits_append {text : JsString} {edits more : List TextEdit} :
    applyTextEdits text (edits ++ more) = (applyTextEdits text edits).bind (applyTextEdits · more) := by
  unfold applyTextEdits
  rw [List.foldlM_append]
  rfl

end Marks
