import Mathlib.Data.UInt
import Marks.Strings

/-! # Markdown blocks

The two ways the preview cuts a text into blocks: by lines, without parsing, and by the top-level groups of
the token stream. markdown-it is a parameter; its tokens are seen as far as the grouping looks at them. -/

namespace Marks

open JsString

/-- cyrb53. -/
def hashString (input : JsString) : Nat :=
  let mix (h : UInt32 × UInt32) (ch : UInt16) : UInt32 × UInt32 :=
    ((h.1 ^^^ ch.toUInt32) * 2654435761, (h.2 ^^^ ch.toUInt32) * 1597334677)
  let h := input.foldl mix (0xdeadbeef, 0x41c6ce57)
  let left (h : UInt32) : UInt32 := (h ^^^ (h >>> 16)) * 2246822507
  let right (h : UInt32) : UInt32 := (h ^^^ (h >>> 13)) * 3266489909
  let h1 := left h.1 ^^^ right h.2
  let h2 := left h.2 ^^^ right h1
  4294967296 * (2097151 &&& h2.toNat) + h1.toNat

/-- The key of a block; the occurrence is written only past the first. -/
inductive BlockKey where
  | block (base occurrence : Nat)
  | error (seq : Nat)
  | terminalError
deriving DecidableEq, Repr

/-- The key of the next block with this hash, behind blocks with the hashes `seen`. -/
def occurrenceKey (seen : List Nat) (base : Nat) : BlockKey := .block base (seen.count base + 1)

def lineOffsets : List JsString → Nat → List Nat
  | [], _ => []
  | line :: lines, offset => offset :: lineOffsets lines (offset + line.length + 1)

/-! ## Lines -/

def indented (line : JsString) : Option JsString :=
  if run (· == space) line ≤ 3 then some (line.drop (run (· == space) line)) else none

/-- The marker of an opening fence and its length. -/
def isFence (line : JsString) : Option (UInt16 × Nat) :=
  match indented line with
  | some (c :: rest) =>
    if (c = 96 ∨ c = 126) ∧ 3 ≤ run (· == c) (c :: rest) then some (c, run (· == c) (c :: rest)) else none
  | _ => none

def closesFence (close : UInt16 × Nat) (line : JsString) : Bool :=
  match indented line with
  | some rest => close.2 ≤ run (· == close.1) rest
  | none => false

def isListStart (line : JsString) : Bool :=
  match indented line with
  | some (c :: rest) =>
    ((c == 45 || c == 43 || c == 42) && rest.head? == some space) ||
      (isDigit c && match (c :: rest).drop (run isDigit (c :: rest)) with
        | mark :: next :: _ => (mark == 46 || mark == 41) && next == space
        | _ => false)
  | _ => false

/-- At most three spaces, one to six `#`, and what is behind them. -/
def headingRest (line : JsString) : Option JsString :=
  match indented line with
  | some rest =>
    if 1 ≤ run (· == 35) rest ∧ run (· == 35) rest ≤ 6 then some (rest.drop (run (· == 35) rest)) else none
  | none => none

def isHeadingStart (line : JsString) : Bool := (headingRest line).any fun rest => rest.head? == some space

def isHeadingSource (line : JsString) : Bool :=
  (headingRest line).any fun rest => 0 < run isSpace rest && run isSpace rest < rest.length

/-- `.+?` and then `]:`. -/
def closesLabel : JsString → Bool
  | [] => false
  | c :: rest => !isLineTerminator c && ((afterPrefix [93, 58] rest).isSome || closesLabel rest)

/-- `GLOBAL_DEF`. -/
def isGlobalDef (line : JsString) : Bool :=
  if 3 < run isSpace line then false
  else
    match line.drop (run isSpace line) with
    | 91 :: rest =>
      (0 < run (· != 93) rest && (afterPrefix [93, 58] (rest.drop (run (· != 93) rest))).isSome) ||
        (match rest with
          | 94 :: label => closesLabel label
          | _ => false)
    | 42 :: 91 :: label => closesLabel label
    | _ => false

/-! ## Source blocks -/

structure SourceBlock where
  sourceStart : Nat
  sourceEnd : Nat
  start : Nat
  end_ : Nat
  source : JsString
  key : BlockKey
deriving DecidableEq, Repr

def fenceLines (close : UInt16 × Nat) : List JsString → Nat
  | [] => 0
  | line :: rest => if closesFence close line then 1 else fenceLines close rest + 1

/-- The lines behind the first of a list. -/
def listLines : List JsString → Nat
  | [] => 0
  | next :: rest =>
    if isBlank next then
      let ahead := rest.headD []
      if isListStart ahead ∨ ahead = [] ∨ ahead.head? = some space then listLines rest + 1 else 0
    else if (isFence next).isSome ∨ isHeadingStart next then 0
    else listLines rest + 1

def paragraphLines : List JsString → Nat
  | [] => 0
  | next :: rest =>
    if isBlank next ∨ (isFence next).isSome ∨ isListStart next ∨ isHeadingStart next then 0
    else paragraphLines rest + 1

/-- The lines of the block that opens with `line`. -/
def blockLines (line : JsString) (rest : List JsString) : Nat :=
  match isFence line with
  | some close => fenceLines close rest + 1
  | none => if isListStart line then listLines rest + 1 else paragraphLines rest + 1

/-- The spans of lines that are blocks; each round takes at least one line. -/
def blockSpans : Nat → Nat → List JsString → List (Nat × Nat)
  | 0, _, _ => []
  | _, _, [] => []
  | fuel + 1, index, line :: rest =>
    if isBlank line then blockSpans fuel (index + 1) rest
    else
      let n := blockLines line rest
      (index, index + n) :: blockSpans fuel (index + n) ((line :: rest).drop n)

def sourceOf (lines : List JsString) (start stop : Nat) : JsString := joinLines ((lines.take stop).drop start)

/-- `push` for each span in turn. -/
def pushBlocks (text : JsString) (lines : List JsString) (offsets : List Nat) :
    List Nat → List (Nat × Nat) → List SourceBlock
  | _, [] => []
  | seen, (start, stop) :: spans =>
    let source := sourceOf lines start stop
    let base := hashString source
    ⟨offsets.getD start 0, if lines.length ≤ stop then text.length else offsets.getD stop 0 - 1, start, stop,
      source, occurrenceKey seen base⟩ :: pushBlocks text lines offsets (seen ++ [base]) spans

def splitSourceBlocks (text : JsString) : List SourceBlock :=
  let lines := lines text
  let spans := blockSpans lines.length 0 lines
  let spans := if spans = [] ∧ text ≠ [] then [(0, lines.length)] else spans
  pushBlocks text lines (lineOffsets lines 0) [] spans

def globalDefinitionSignature (text : JsString) : Nat := hashString (joinLines ((lines text).filter isGlobalDef))

def headingSources (text : JsString) : List JsString := (lines text).filter isHeadingSource

structure IncrementalParse where
  dirty : List SourceBlock
  previousBlocks : List SourceBlock
  nextBlocks : List SourceBlock
  safe : Bool
deriving DecidableEq, Repr

/-- The ratio of dirty blocks is compared with `0.35` as integers. -/
def incrementalParseSafe (previous next : JsString) : IncrementalParse :=
  let previousBlocks := splitSourceBlocks previous
  let nextBlocks := splitSourceBlocks next
  let dirty := nextBlocks.filter fun block => !(previousBlocks.map (·.key)).contains block.key
  let globalsUnchanged := globalDefinitionSignature previous == globalDefinitionSignature next
  let headingsUnchanged := List.intercalate [0] (headingSources previous) == List.intercalate [0] (headingSources next)
  ⟨dirty, previousBlocks, nextBlocks,
    globalsUnchanged && headingsUnchanged && 20 * dirty.length ≤ 7 * nextBlocks.length && !dirty.isEmpty⟩

/-! ## Token groups -/

/-- A markdown-it token; the payload is what only the renderer reads. -/
structure Token (Payload : Type) where
  type : JsString
  nesting : Int
  map : Option (Nat × Nat)
  payload : Payload
deriving DecidableEq, Repr

structure TokenGroup (Payload : Type) where
  tokens : List (Token Payload)
  line : Option Nat
  source : Option JsString
deriving DecidableEq, Repr

section
variable {Payload : Type}

/-- Tokens up to the one that brings the depth back to zero, and the rest. -/
def takeGroup : Int → List (Token Payload) → List (Token Payload) × List (Token Payload)
  | _, [] => ([], [])
  | depth, token :: rest =>
    if 0 < depth + token.nesting then
      let (group, rest) := takeGroup (depth + token.nesting) rest
      (token :: group, rest)
    else ([token], rest)

def tokenGroup (lines : List JsString) (tokens : List (Token Payload)) : TokenGroup Payload :=
  match tokens.findSome? (·.map) with
  | some (start, stop) => ⟨tokens, some start, some (sourceOf lines start stop)⟩
  | none => ⟨tokens, none, none⟩

def groupTokensFrom (lines : List JsString) : Nat → List (Token Payload) → List (TokenGroup Payload)
  | 0, _ => []
  | _, [] => []
  | fuel + 1, token :: rest =>
    if token.nesting = 1 then
      let (group, rest) := takeGroup 0 (token :: rest)
      tokenGroup lines group :: groupTokensFrom lines fuel rest
    else tokenGroup lines [token] :: groupTokensFrom lines fuel rest

def groupTokens (tokens : List (Token Payload)) (lines : List JsString) : List (TokenGroup Payload) :=
  groupTokensFrom lines tokens.length tokens

end

end Marks
