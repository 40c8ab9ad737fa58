import Marks.Strings
import Marks.Subsequences

/-! # Counterfactual patches

A patch remembers a range of a source, what stood there, what stands there instead, and what stood around it. It is
taken from an edit to undo it, or from a selection as an alternative, and applied to a later text. -/

namespace Marks

open JsString

namespace JsString

/-- `indexOf(needle)`. -/
def indexOf (needle : JsString) : JsString → Option Nat
  | [] => if needle = [] then some 0 else none
  | c :: rest => if needle.isPrefixOf (c :: rest) then some 0 else (indexOf needle rest).map (· + 1)

/-- `indexOf(needle, start)`. -/
def indexOfFrom (needle text : JsString) (start : Nat) : Option Nat :=
  (indexOf needle (text.drop start)).map (· + min start text.length)

end JsString

def contextWindow : Nat := 80
def maxPatchChars : Nat := 512 * 1024

structure SourceDelta where
  from_ : Nat
  beforeChars : Nat
  afterChars : Nat
  beforeLines : Nat
  afterLines : Nat
deriving DecidableEq, Repr

inductive PatchSource
  | human
  | agent
  | command
deriving DecidableEq, Repr

structure CounterfactualPatch where
  id : JsString
  documentId : JsString
  label : JsString
  note : String
  createdAt : Nat
  updatedAt : Nat
  source : PatchSource
  commandId : Option JsString
  baseDigest : JsString
  from_ : Nat
  expected : JsString
  replacement : JsString
  prefix_ : JsString
  suffix : JsString
  archived : Bool
  appliedAt : Option Nat
deriving DecidableEq, Repr

/-! ## Taking a patch -/

def lineCount (value : JsString) : Nat := if value = [] then 0 else (lines value).length

def minimalSourceDelta (before after : JsString) : Option SourceDelta :=
  if before = after then none
  else
    let from_ := commonPrefix before after
    let last := commonSuffix from_ before after
    let beforeSegment := before.slice from_ (before.length - last)
    let afterSegment := after.slice from_ (after.length - last)
    some ⟨from_, beforeSegment.length, afterSegment.length, lineCount beforeSegment, lineCount afterSegment⟩

def contextBefore (text : JsString) (from_ : Nat) : JsString := text.slice (from_ - contextWindow) from_

def contextAfter (text : JsString) (to_ : Nat) : JsString := text.slice to_ (to_ + contextWindow)

section
variable (digestText : JsString → JsString)

def reverseCounterfactual (id documentId label commandId : JsString) (source : PatchSource) (before after : JsString)
    (now : Nat) : Option CounterfactualPatch :=
  match minimalSourceDelta before after with
  | none => none
  | some delta =>
    let suffixLength := after.length - delta.from_ - delta.afterChars
    let expected := after.slice delta.from_ (delta.from_ + delta.afterChars)
    let replacement := before.slice delta.from_ (before.length - suffixLength)
    if maxPatchChars < expected.length + replacement.length then none
    else
      some {
        id := id
        documentId := documentId
        label := label.slice 0 160
        note := "Automatically captured before a completed source-changing command."
        createdAt := now
        updatedAt := now
        source := source
        commandId := some commandId
        baseDigest := digestText after
        from_ := delta.from_
        expected := expected
        replacement := replacement
        prefix_ := contextBefore after delta.from_
        suffix := contextAfter after (delta.from_ + expected.length)
        archived := false
        appliedAt := none }

end

/-! ## Applying a patch -/

structure AppliedPatch where
  text : JsString
  from_ : Nat
  rebased : Bool
deriving DecidableEq, Repr

def uniqueIndex (haystack needle : JsString) : Option Nat :=
  match indexOf needle haystack with
  | none => none
  | some first => if (indexOfFrom needle haystack (first + 1)).isSome then none else some first

def prefixMatches (current : JsString) (patch : CounterfactualPatch) (offset : Nat) : Bool :=
  patch.prefix_ = [] || current.slice (offset - patch.prefix_.length) offset == patch.prefix_

def suffixMatches (current : JsString) (patch : CounterfactualPatch) (offset : Nat) : Bool :=
  let suffixFrom := offset + patch.expected.length
  patch.suffix = [] || current.slice suffixFrom (suffixFrom + patch.suffix.length) == patch.suffix

/-- The loop over the occurrences of the expected text; each step goes on behind the last one. -/
def candidates (current : JsString) (patch : CounterfactualPatch) : Nat → Option Nat → List Nat → List Nat
  | 0, _, found => found
  | _ + 1, none, found => found
  | fuel + 1, some offset, found =>
    if found.length < 3 then
      candidates current patch fuel (indexOfFrom patch.expected current (offset + max 1 patch.expected.length))
        (if prefixMatches current patch offset && suffixMatches current patch offset then found ++ [offset] else found)
    else found

def searchedFrom (current : JsString) (patch : CounterfactualPatch) : Except String Nat :=
  if patch.expected ≠ [] then
    match candidates current patch (current.length + 1) (indexOf patch.expected current) [] with
    | [from_] => .ok from_
    | _ => .error "This alternative is stale and has no unique safe source anchor."
  else
    let context := patch.prefix_ ++ patch.suffix
    match if context ≠ [] then uniqueIndex current context else none with
    | none => .error "This insertion is stale and has no unique safe source anchor."
    | some contextFrom => .ok (contextFrom + patch.prefix_.length)

def placeOf (current : JsString) (patch : CounterfactualPatch) : Except String Nat :=
  let exact := current.slice patch.from_ (patch.from_ + patch.expected.length) == patch.expected
  if exact then .ok patch.from_ else searchedFrom current patch

def applyCounterfactual (current : JsString) (patch : CounterfactualPatch) : Except String AppliedPatch := do
  let from_ ← placeOf current patch
  .ok ⟨current.take from_ ++ patch.replacement ++ current.drop (from_ + patch.expected.length), from_, from_ != patch.from_⟩

end Marks
