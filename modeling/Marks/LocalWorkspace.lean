import Marks.Headings

/-! # Drafts of a new document

A draft names a template or carries its own text. It becomes a title and a text before anything is created from it. -/

namespace Marks.LocalWorkspace

open JsString

inductive TemplateId
  | blank
  | notes
  | brief
  | meeting
  | githubReadme
  | launch
deriving DecidableEq, Repr

def TemplateId.text : TemplateId → JsString
  | .blank => ofString "blank"
  | .notes => ofString "notes"
  | .brief => ofString "brief"
  | .meeting => ofString "meeting"
  | .githubReadme => ofString "github-readme"
  | .launch => ofString "launch"

structure DocumentTemplate where
  id : TemplateId
  name : JsString
  content : JsString

structure LocalDocumentDraft where
  title : Option JsString
  content : Option JsString
  templateId : Option TemplateId
  requestScope : Option JsString

structure MaterializedDocumentDraft where
  title : Option JsString
  content : JsString
deriving DecidableEq, Repr

/-- `/\s*#*\s*$/` at the head. -/
def endsTitle (s : JsString) : Bool := ((s.dropWhile isSpace).dropWhile isHash).all isSpace

/-- `/^\s{0,3}#{1,6}\s+(.+?)\s*#*\s*$/`: its group, trimmed. -/
def titleOf (line : JsString) : Option JsString :=
  let marks := line.drop (run isSpace line)
  let behind := marks.drop (run isHash marks)
  if run isSpace line ≤ 3 ∧ 1 ≤ run isHash marks ∧ run isHash marks ≤ 6 then
    ((List.range (run isSpace behind)).reverse.map (· + 1)).findSome? fun gap =>
      (shortest endsTitle (behind.drop gap)).map trim
  else none

def deriveTitle (markdown fallback : JsString) : JsString :=
  match (lines markdown).find? fun line => (titleOf line).any (· ≠ []) with
  | some line => ((titleOf line).getD fallback).take 90
  | none => fallback

/-- `DOCUMENT_TEMPLATES` is the argument: one of its texts holds the date of the page load. -/
def materializeDocumentDraft (templates : List DocumentTemplate) (draft : LocalDocumentDraft) :
    MaterializedDocumentDraft :=
  let template := draft.templateId.bind fun id => templates.find? (·.id == id)
  let content := (draft.content.or (template.map (·.content))).getD []
  let explicitTitle := (draft.title.map trim).filter (· ≠ [])
  ⟨explicitTitle.or (template.map fun template => deriveTitle content template.name), content⟩

end Marks.LocalWorkspace
