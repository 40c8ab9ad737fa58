import Mathlib.Algebra.Order.Ring.Unbundled.Rat
import Marks.Headings
import Marks.Results

/-! # Updates of the front matter

The front matter is parsed and printed by a YAML package, which is a parameter: its documents, their texts and values,
and the change at a path. An update parses what stands between the markers, changes the document, and puts its text
in front of the body. -/

namespace Marks.FrontMatter

open JsString

/-! ## The YAML package -/

/-- A number that is not finite has no value. -/
inductive YamlValue
  | null
  | bool (b : Bool)
  | number (value : Option Rat)
  | string (text : JsString)
  | array (items : List YamlValue)
  | record (fields : List (JsString × YamlValue))

/-- An object, with its fields in the order of the document. -/
abbrev Record := List (JsString × YamlValue)

inductive Contents
  | absent
  | mapping
  | other
deriving DecidableEq, Repr

/-- `createMapping` sets the contents to `createNode({})`; an error that is no `Error` has no message. -/
structure Yaml where
  Document : Type
  parseDocument : JsString → Document × List JsString
  contents : Document → Contents
  toJS : Document → Except (Option JsString) YamlValue
  createMapping : Document → Document
  setIn : Document → List JsString → YamlValue → Except JsString Document
  deleteIn : Document → List JsString → Except JsString Document
  print : Document → Except JsString JsString

/-! ## Reading -/

def record : YamlValue → Record
  | .record fields => fields
  | _ => []

def field (fields : Record) (key : JsString) : YamlValue :=
  ((fields.find? fun entry => entry.1 == key).map Prod.snd).getD .null

def stringValue (value : YamlValue) (fallback : JsString) : JsString :=
  match value with
  | .string text => text
  | _ => fallback

def booleanValue (value : YamlValue) (fallback : Bool) : Bool :=
  match value with
  | .bool b => b
  | _ => fallback

def numberValue (value : YamlValue) (fallback low high : Rat) : Rat :=
  match value with
  | .number (some q) => max low (min high q)
  | _ => fallback

def stringItems : YamlValue → List JsString
  | .array items => items.filterMap fun item =>
      match item with
      | .string text => some text
      | _ => none
  | _ => []

structure ParsedYaml (y : Yaml) where
  document : y.Document
  errors : List JsString
  value : Record

/-- The value of a document that parsed without errors. -/
def expand (y : Yaml) (document : y.Document) : List JsString × Record :=
  match y.toJS document with
  | .ok value => ([], record value)
  | .error (some message) => ([message.take 240], [])
  | .error none => ([ofString "Front matter could not be expanded safely."], [])

def parseYaml (y : Yaml) (source : JsString) : ParsedYaml y :=
  let parsed := y.parseDocument source
  let errors := parsed.2.map fun message => ((lines message).headD []).take 240
  let expanded := if errors = [] then expand y parsed.1 else ([], [])
  let shape := if y.contents parsed.1 = .other then [ofString "Front matter must be a YAML mapping."] else []
  ⟨parsed.1, errors ++ expanded.1 ++ shape, expanded.2⟩

inductive PublishProfile
  | web
  | print
  | readme
  | slides
deriving DecidableEq, Repr

def PublishProfile.name : PublishProfile → JsString
  | web => ofString "web"
  | print => ofString "print"
  | readme => ofString "readme"
  | slides => ofString "slides"

inductive PrivacyMode
  | standard
  | strict
deriving DecidableEq, Repr

def PrivacyMode.name : PrivacyMode → JsString
  | standard => ofString "standard"
  | strict => ofString "strict"

structure KnownFields where
  title : JsString
  description : JsString
  audience : JsString
  status : JsString
  tags : List JsString
  publishProfile : PublishProfile
  canonicalUrl : JsString
  draft : Bool
  privacyMode : PrivacyMode
  readingGrade : Rat
  maxSentenceWords : Rat

def knownFields (value : Record) : KnownFields :=
  let marks := record (field value (ofString "marks"))
  let publish := record (field marks (ofString "publish"))
  let privacy := record (field marks (ofString "privacy"))
  let quality := record (field marks (ofString "quality"))
  let profile := stringValue (field publish (ofString "profile")) (ofString "web")
  { title := stringValue (field value (ofString "title")) []
    description := stringValue (field value (ofString "description")) []
    audience := stringValue (field value (ofString "audience")) []
    status := stringValue (field value (ofString "status")) []
    tags := (stringItems (field value (ofString "tags"))).take 64
    publishProfile := ([.print, .readme, .slides].find? fun known => profile == known.name).getD .web
    canonicalUrl := stringValue (field publish (ofString "canonical")) []
    draft := booleanValue (field publish (ofString "draft")) true
    privacyMode :=
      if stringValue (field privacy (ofString "mode")) (ofString "standard") = ofString "strict" then .strict
      else .standard
    readingGrade := numberValue (field quality (ofString "readingGrade")) 10 1 20
    maxSentenceWords := numberValue (field quality (ofString "maxSentenceWords")) 28 8 80 }

def lineRange (text : JsString) (start stop : Nat) : SourceRange :=
  let ahead := text.take start
  let lineStart := ahead.length - ((lines ahead).getLastD []).length
  ⟨start, stop, (lines ahead).length, start - lineStart + 1⟩

structure IntelligenceFrontMatter where
  exists_ : Bool
  range : Option SourceRange
  bodyFrom : Nat
  valid : Bool
  errors : List JsString
  value : Record
  known : KnownFields

def inspectFrontMatter (y : Yaml) (text : JsString) : IntelligenceFrontMatter :=
  let found := envelope text
  let unclosed := if found.exists_ && !found.closed then [ofString "Front matter is not closed within 64 KiB."] else []
  let parsed := parseYaml y found.yaml
  let errors := unclosed ++ if found.exists_ then parsed.errors else []
  let value := if found.exists_ then parsed.value else []
  { exists_ := found.exists_
    range := if found.exists_ then some (lineRange text 0 found.to_) else none
    bodyFrom := found.bodyFrom
    valid := errors.isEmpty
    errors := errors
    value := value
    known := knownFields value }

/-! ## Updates -/

/-- A field is left alone, removed, or given a value. -/
structure FrontMatterPatch where
  title : Option (Option JsString) := none
  description : Option (Option JsString) := none
  audience : Option (Option JsString) := none
  status : Option (Option JsString) := none
  tags : Option (Option (List JsString)) := none
  publishProfile : Option (Option PublishProfile) := none
  canonicalUrl : Option (Option JsString) := none
  draft : Option (Option Bool) := none
  privacyMode : Option (Option PrivacyMode) := none
  readingGrade : Option (Option (Option Rat)) := none
  maxSentenceWords : Option (Option (Option Rat)) := none

/-- The paths in the order they are set. -/
def FrontMatterPatch.entries (patch : FrontMatterPatch) : List (List JsString × Option (Option YamlValue)) :=
  [ ([ofString "title"], patch.title.map (Option.map .string)),
    ([ofString "description"], patch.description.map (Option.map .string)),
    ([ofString "audience"], patch.audience.map (Option.map .string)),
    ([ofString "status"], patch.status.map (Option.map .string)),
    ([ofString "tags"], patch.tags.map (Option.map fun tags => .array (tags.map .string))),
    ([ofString "marks", ofString "publish", ofString "profile"],
      patch.publishProfile.map (Option.map fun profile => .string profile.name)),
    ([ofString "marks", ofString "publish", ofString "canonical"], patch.canonicalUrl.map (Option.map .string)),
    ([ofString "marks", ofString "publish", ofString "draft"], patch.draft.map (Option.map .bool)),
    ([ofString "marks", ofString "privacy", ofString "mode"],
      patch.privacyMode.map (Option.map fun mode => .string mode.name)),
    ([ofString "marks", ofString "quality", ofString "readingGrade"], patch.readingGrade.map (Option.map .number)),
    ([ofString "marks", ofString "quality", ofString "maxSentenceWords"],
      patch.maxSentenceWords.map (Option.map .number)) ]

def setPath (y : Yaml) (document : y.Document) (path : List JsString) :
    Option (Option YamlValue) → Except JsString y.Document
  | none => .ok document
  | some none => y.deleteIn document path
  | some (some value) => y.setIn document path value

def setPaths (y : Yaml) (entries : List (List JsString × Option (Option YamlValue))) (document : y.Document) :
    Except JsString y.Document :=
  match entries with
  | [] => .ok document
  | (path, value) :: entries => setPath y document path value >>= setPaths y entries

/-- The document an update changes. -/
def openDocument (y : Yaml) (text : JsString) : Except JsString y.Document := do
  let found := envelope text
  require (!found.exists_ || found.closed) (ofString "Close the front matter before changing its schema.")
  let parsed := parseYaml y found.yaml
  require (!found.exists_ || parsed.errors.isEmpty) (ofString "Fix front matter first: " ++ parsed.errors.headD [])
  let document := if y.contents parsed.document = .absent then y.createMapping parsed.document else parsed.document
  require (y.contents document = .mapping) (ofString "Front matter must be a YAML mapping.")
  .ok document

def patchedDocument (y : Yaml) (text : JsString) (patch : FrontMatterPatch) : Except JsString y.Document :=
  openDocument y text >>= setPaths y patch.entries

def trimEnd (s : JsString) : JsString := s.rdropWhile isSpace

def block (yaml : JsString) : JsString := dashes ++ newline :: (yaml ++ newline :: (dashes ++ [newline]))

/-- What an update puts behind the block; `replace(/^\r?\n/, '')` is made behind front matter only. -/
def keptBody (text : JsString) : JsString :=
  let body := text.drop (envelope text).bodyFrom
  if (envelope text).exists_ then (afterBreak body).getD body else text

def updateFrontMatter (y : Yaml) (text : JsString) (patch : FrontMatterPatch) : Except JsString JsString := do
  let document ← patchedDocument y text patch
  let printed ← y.print document
  .ok (block (trimEnd printed) ++ keptBody text)

end Marks.FrontMatter
