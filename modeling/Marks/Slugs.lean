import Marks.Headings
import Marks.Naming

/-! # Heading anchors

The analyser gives every heading it reports a slug: the slug of its title, with the count of the headings that share it
behind it from the second on. A link to an anchor is checked against these. The preview gives its headings their slugs
too, made unique by the anchor plugin. -/

namespace Marks

open JsString

/-! ## Slugs -/

/-- The tables of the language: the case mapping, what is a letter or a number (`\p{L}`, `\p{N}`), and the decoding of
percent escapes, which may throw. -/
structure Unicode where
  toLowerCase : JsString → JsString
  letterOrNumber : Char → Bool
  decodeURIComponent : JsString → Option JsString

def dash : UInt16 := 45

/-- What `[^\p{L}\p{N}\s-]` leaves of one code unit. -/
def Unicode.keepsUnit (unicode : Unicode) (c : UInt16) : Bool :=
  c == dash || isSpace c ||
    (!(isHighSurrogate c || isLowSurrogate c) && unicode.letterOrNumber (Char.ofNat c.toNat))

/-- `replace(/[^\p{L}\p{N}\s-]/gu, '')`. -/
def Unicode.words (unicode : Unicode) : JsString → JsString
  | [] => []
  | [c] => if unicode.keepsUnit c then [c] else []
  | c :: d :: rest =>
    if isHighSurrogate c && isLowSurrogate d then
      (if unicode.letterOrNumber (Char.ofNat (0x10000 + (c.toNat - 0xD800) * 0x400 + (d.toNat - 0xDC00))) then [c, d]
        else []) ++ unicode.words rest
    else (if unicode.keepsUnit c then [c] else []) ++ unicode.words (d :: rest)

/-- Each run of what `p` takes becomes one dash. -/
def dashed (p : UInt16 → Bool) : JsString → JsString
  | [] => []
  | c :: rest => if p c then (if rest.head?.any p then dashed p rest else dash :: dashed p rest) else c :: dashed p rest

/-- `replace(/^-|-$/g, '')`. -/
def withoutEndDashes (s : JsString) : JsString :=
  let behind := if s.head? = some dash then s.tail else s
  if behind.getLast? = some dash then behind.dropLast else behind

def section_ : JsString := ofString "section"

def Unicode.slugify (unicode : Unicode) (text : JsString) : JsString :=
  let slug := withoutEndDashes (dashed (· == dash) (dashed isSpace (unicode.words (unicode.toLowerCase (trim text)))))
  if slug = [] then section_ else slug

/-! ## Slugs of a document -/

/-- `${slug}-${n}`. -/
def suffixed (slug : JsString) (n : Nat) : JsString :=
  slug ++ dash :: (Nat.toDigits 10 n).map fun c => UInt16.ofNat c.toNat

/-- The loop over the headings; `counts` is the map of the slugs that have stood. -/
def countSlugs (counts : JsString → Nat) : List JsString → List JsString
  | [] => []
  | slug :: rest =>
    let occurrence := counts slug + 1
    (if 1 < occurrence then suffixed slug occurrence else slug) ::
      countSlugs (fun key => if key = slug then occurrence else counts key) rest

/-- The slugs of the headings that `analyzeDocument` reports. -/
def Unicode.headingSlugs (unicode : Unicode) (markdown : JsString) : List JsString :=
  countSlugs (fun _ => 0) ((analyzeDocument markdown).headings.map fun heading => unicode.slugify heading.text)

/-! ## Links -/

inductive LinkKind where
  | anchor | document | email | asset | external | relative
deriving DecidableEq, Repr

def lowerAscii (c : UInt16) : UInt16 := if 65 ≤ c ∧ c ≤ 90 then c + 32 else c

def startsWith (text : String) (s : JsString) : Bool := (afterPrefix (ofString text) s).isSome

/-- The test of a regular expression with the flag `i`, for a text in lower case. -/
def startsWithAnyCase (text : String) (s : JsString) : Bool := startsWith text (s.map lowerAscii)

def classifyLink (destination : JsString) : LinkKind :=
  if startsWith "#" destination then .anchor
  else if startsWithAnyCase "marks://document/" destination || startsWith "/d/" destination then .document
  else if startsWithAnyCase "mailto:" destination then .email
  else if startsWithAnyCase "/a/" destination || startsWithAnyCase "marks-asset:" destination then .asset
  else if startsWithAnyCase "http://" destination || startsWithAnyCase "https://" destination then .external
  else .relative

def Unicode.decodedAnchor (unicode : Unicode) (value : JsString) : JsString :=
  unicode.toLowerCase ((unicode.decodeURIComponent value).getD value)

inductive LinkStatus where
  | unchecked | valid | broken
deriving DecidableEq, Repr

/-- The status of a link of the report with these slugs. -/
def Unicode.linkStatus (unicode : Unicode) (headingSlugs : List JsString) (destination : JsString) : LinkStatus :=
  match classifyLink destination with
  | .anchor => if unicode.decodedAnchor (destination.drop 1) ∈ headingSlugs then .valid else .broken
  | .asset | .document => .valid
  | _ => .unchecked

/-! ## The preview -/

def Unicode.renderedIds (unicode : Unicode) (titles : List JsString) : List JsString :=
  Naming.unique suffixed (titles.map unicode.slugify)

/-- A title of letters, digits and spaces, with no space around it. -/
structure Unicode.PlainTitle (unicode : Unicode) (title : JsString) : Prop where
  plain : ∃ text : List Char, title = ofCodePoints text ∧ ∀ c ∈ text, unicode.letterOrNumber c = true ∨ c = ' '
  nonempty : title ≠ []
  head : title.head? ≠ some space
  last : title.getLast? ≠ some space

/-- An ATX heading: up to three spaces, up to six marks, the title behind a gap, and perhaps closing marks behind
another. -/
structure AtxHeading (source title : JsString) : Prop where
  shape : ∃ indent level gap before marks after, indent ≤ 3 ∧ 1 ≤ level ∧ level ≤ 6 ∧ gap.all isGap = true ∧ gap ≠ [] ∧
    before.all isGap = true ∧ marks.all isHash = true ∧ after.all isGap = true ∧ (marks = [] ∨ before ≠ []) ∧
    withoutReturn source = List.replicate indent 32 ++ (List.replicate level 35 ++
      (gap ++ (title ++ (before ++ (marks ++ after)))))

/-- The lines of a document of ATX headings with plain titles and of paragraphs, with the titles. What the lines of a
paragraph are is up to the preview. -/
inductive PlainDocument (unicode : Unicode) (paragraph : List JsString → Prop) : List JsString → List JsString → Prop
  | nil : PlainDocument unicode paragraph [] []
  | blank {source rest titles} (blank : (withoutReturn source).all isGap = true)
      (more : PlainDocument unicode paragraph rest titles) : PlainDocument unicode paragraph (source :: rest) titles
  | paragraph {body rest titles} (reads : paragraph body) (more : PlainDocument unicode paragraph rest titles) :
      PlainDocument unicode paragraph (body ++ rest) titles
  | heading {source title rest titles} (atx : AtxHeading source title) (plain : unicode.PlainTitle title)
      (more : PlainDocument unicode paragraph rest titles) :
      PlainDocument unicode paragraph (source :: rest) (title :: titles)

end Marks
