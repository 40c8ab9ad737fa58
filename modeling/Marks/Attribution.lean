import Marks.Rooms

/-! # Where documents come from

A document is created with its initial Markdown, or as a duplicate of a text. Either way its snapshot is one
insert into a new replica of the server's site, made before the transaction that stores it. -/

namespace Marks

/-- `esbt::Document::insert` at the start of a new replica: the replica and the operations of the update. -/
structure Seeding (E : Engine) where
  insert : List Char → Option (E.Doc × List Operation)

inductive DocumentOrigin where
  | create (markdown : List Char)
  | duplicate (text : List Char)
deriving DecidableEq, Repr

/-- `encode_utf16().count()`. -/
def utf16Count (text : List Char) : Nat := (text.map fun c => if c.toNat < 2 ^ 16 then 1 else 2).sum

/-- The row `INSERT INTO documents` writes. -/
def insertDocument (snapshot : Option Bytes) (chars : Nat) (now : Millis) : DocumentStore :=
  ⟨snapshot, 0, chars, now, 0, none, [], [], [], []⟩

/-- Plain `INSERT`s into `op_authors`, the sequence clamped as a time would be. -/
def insertInitialOperations (author : Author) (now : Millis) :
    List Operation → DocumentStore → Except ApiError DocumentStore
  | [], store => .ok store
  | operation :: operations, store =>
    let row : OpAuthorRow := ⟨operation.origin, min operation.seq maxStoredSequence, author, now⟩
    if store.opAuthors.any fun known => known.site == row.site && known.seq == row.seq then .error .internal
    else insertInitialOperations author now operations { store with opAuthors := store.opAuthors ++ [row] }

section
variable {E : Engine} (seeding : Seeding E) (maxDocumentUnits : Nat) (author : Author) (now : Millis)

def createDocument (markdown : List Char) : Except ApiError DocumentStore :=
  if maxDocumentUnits < utf16Count markdown then .error .badRequest
  else if markdown = [] then .ok (insertDocument none 0 now)
  else
    match seeding.insert markdown with
    | none => .error .badRequest
    | some (seed, operations) =>
      match (E.exportCompactSnapshot seed).or (E.exportFullSnapshot seed) with
      | none => .error .internal
      | some snapshot =>
        insertInitialOperations author now operations (insertDocument (some snapshot) (utf16Count markdown) now)

def duplicateDocument (text : List Char) : Except ApiError DocumentStore :=
  match if text = [] then some E.new else (seeding.insert text).map (·.1) with
  | none => .error .internal
  | some seed =>
    match E.exportFullSnapshot seed with
    | none => .error .internal
    | some snapshot => .ok (insertDocument (some snapshot) (utf16Count text) now)

def DocumentOrigin.store : DocumentOrigin → Except ApiError DocumentStore
  | .create markdown => createDocument seeding maxDocumentUnits author now markdown
  | .duplicate text => duplicateDocument seeding now text

end

end Marks
