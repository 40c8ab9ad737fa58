import Marks.Strings
import Marks.Subsequences

/-! # The difference of two texts

Two texts are compared line by line: by a table of the longest common subsequences of what is behind each pair of
lines, or, where the table would be large, by what they have in common at their start and at their end. -/

namespace Marks

open JsString

inductive ChunkKind
  | equal
  | removed
  | added
deriving DecidableEq, Repr

structure LineDiffChunk where
  kind : ChunkKind
  lines : List JsString
deriving DecidableEq, Repr

def pushChunk (chunks : List LineDiffChunk) (kind : ChunkKind) (line : JsString) : List LineDiffChunk :=
  match chunks.getLast? with
  | none => chunks ++ [⟨kind, [line]⟩]
  | some last =>
    if last.kind = kind then chunks.dropLast ++ [{ last with lines := last.lines ++ [line] }]
    else chunks ++ [⟨kind, [line]⟩]

def pushChunks (chunks : List LineDiffChunk) (kind : ChunkKind) (all : List JsString) : List LineDiffChunk :=
  all.foldl (fun chunks line => pushChunk chunks kind line) chunks

def maxTableCells : Nat := 1500000

/-! ## The table -/

/-- The row of a line of the first text, from its end on and from the row below. -/
def fillRow (line : JsString) : List JsString → List Nat → List Nat
  | [], _ => [0]
  | other :: right, below =>
    let rest := fillRow line right below.tail
    (if line = other then below.tail.headD 0 + 1 else max (below.headD 0) (rest.headD 0)) :: rest

def fillRows (right : List JsString) : List JsString → List (List Nat)
  | [] => [List.replicate (right.length + 1) 0]
  | line :: left =>
    let rows := fillRows right left
    fillRow line right (rows.headD []) :: rows

/-- `rows[i][j]`. -/
def tableCell (rows : List (List Nat)) (i j : Nat) : Nat := (rows.getD i []).getD j 0

/-- The loop over both texts. -/
def diffTable (rows : List (List Nat)) (left right : List JsString) (i j : Nat) (chunks : List LineDiffChunk) :
    List LineDiffChunk :=
  if i < left.length ∨ j < right.length then
    if i < left.length ∧ j < right.length ∧ left[i]? = right[j]? then
      diffTable rows left right (i + 1) (j + 1) (pushChunk chunks .equal (left.getD i []))
    else if j < right.length ∧ (left.length ≤ i ∨ tableCell rows (i + 1) j < tableCell rows i (j + 1)) then
      diffTable rows left right i (j + 1) (pushChunk chunks .added (right.getD j []))
    else diffTable rows left right (i + 1) j (pushChunk chunks .removed (left.getD i []))
  else chunks
termination_by left.length - i + (right.length - j)

/-! ## The two paths -/

def diffEnds (left right : List JsString) : List LineDiffChunk :=
  let start := commonPrefix left right
  let last := commonSuffix start left right
  let chunks := pushChunks [] .equal (left.take start)
  let chunks := pushChunks chunks .removed ((left.take (left.length - last)).drop start)
  let chunks := pushChunks chunks .added ((right.take (right.length - last)).drop start)
  pushChunks chunks .equal (left.drop (left.length - last))

def lineDiff (before after : JsString) : List LineDiffChunk :=
  let left := lines before
  let right := lines after
  if maxTableCells < left.length * right.length then diffEnds left right
  else diffTable (fillRows right left) left right 0 0 []

end Marks
