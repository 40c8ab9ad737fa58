import Marks.Enrollment
import Marks.Keyset
import Marks.Presence
import Marks.Results
import Marks.Rows
import Marks.Runs

/-! # Comments of a document

The tables of comments and replies, the transactions that write them, and the page of comments a reader asks for. A
request that fails the checks of its caller or of its body reaches no table. -/

namespace Marks.Review

open Enrollment (OpaqueId Text)

def maxCommentsPerDocument : Nat := 10000
def maxRepliesPerComment : Nat := 200
def commentPageSize : Nat := 25
def commentReplyPageSize : Nat := 5000

/-- `ms`: unsigned to stored, at most the largest. -/
def ms (value : UInt64) : Int := min value.toNat (2 ^ 63 - 1)

/-- `from_ms`. -/
def fromMs (value : Int) : Nat := value.toNat

/-! ## Tables -/

structure CommentRow where
  id : OpaqueId
  documentId : OpaqueId
  author : OpaqueId
  body : Text
  createdAt : Int
  resolved : Bool
  startAnchor : Option Bytes
  endAnchor : Option Bytes
  quote : Text
  startOffset : Int
  endOffset : Int
  editedAt : Option Int
  deletedAt : Option Int
deriving DecidableEq

structure ReplyRow where
  id : OpaqueId
  commentId : OpaqueId
  author : OpaqueId
  body : Text
  createdAt : Int
  editedAt : Option Int
  deletedAt : Option Int
deriving DecidableEq

structure ReviewTables where
  comments : List CommentRow
  replies : List ReplyRow

structure ValidatedRange where
  start : Option Bytes
  stop : Option Bytes
  quote : Text
  startOffset : UInt64
  endOffset : UInt64

/-! ## Transactions -/

namespace ReviewTables

variable (db : ReviewTables) (caller documentId : OpaqueId)

def empty : ReviewTables := ⟨[], []⟩

def commentCreate (commentId : OpaqueId) (text : Text) (range : ValidatedRange) (createdAt : UInt64) :
    Except ApiError ReviewTables := do
  require (decide ((db.comments.countP (·.documentId == documentId)) < maxCommentsPerDocument)) .conflict
  let comments ← found (Rows.insert CommentRow.id db.comments
    ⟨commentId, documentId, caller, text, ms createdAt, false, range.start, range.stop, range.quote,
      ms range.startOffset, ms range.endOffset, none, none⟩) .internal
  .ok { db with comments }

def commentUpdate (comment : OpaqueId) (resolved : Option Bool) (body : Option Text) (now : UInt64) :
    Except ApiError ReviewTables := do
  require (resolved.isSome || body.isSome) .badRequest
  let row ← found (db.comments.find? fun row => row.id == comment && row.documentId == documentId) .notFound
  let picks := fun row : CommentRow => row.id == comment && row.documentId == documentId
  let comments := match resolved with
    | some resolved => Rows.update picks (fun row => { row with resolved }) db.comments
    | none => db.comments
  match body with
  | some text => do
    require (row.author == caller) .forbidden
    let edit := fun row : CommentRow => { row with body := text, editedAt := some (ms now), deletedAt := none }
    .ok { db with comments := Rows.update picks edit comments }
  | none => .ok { db with comments }

def commentDelete (comment : OpaqueId) (now : UInt64) : Except ApiError ReviewTables := do
  let picks := fun row : CommentRow =>
    row.id == comment && row.documentId == documentId && row.author == caller && row.deletedAt.isNone
  require (db.comments.any picks) .notFound
  let erase := fun row : CommentRow => { row with body := [], deletedAt := some (ms now) }
  .ok { db with comments := Rows.update picks erase db.comments }

def hasComment (comment : OpaqueId) : Bool :=
  db.comments.any fun row => row.id == comment && row.documentId == documentId

def replyCreate (comment replyId : OpaqueId) (text : Text) (createdAt : UInt64) : Except ApiError ReviewTables := do
  let count := if db.hasComment documentId comment then db.replies.countP (·.commentId == comment) else 0
  require (count != 0 || db.hasComment documentId comment) .notFound
  require (decide (count < maxRepliesPerComment)) .conflict
  let replies ← found (Rows.insert ReplyRow.id db.replies
    ⟨replyId, comment, caller, text, ms createdAt, none, none⟩) .internal
  .ok { db with replies }

def replyPicks (comment reply : OpaqueId) (row : ReplyRow) : Bool :=
  row.id == reply && row.commentId == comment && row.author == caller && db.hasComment documentId comment

def replyUpdate (comment reply : OpaqueId) (text : Text) (now : UInt64) : Except ApiError ReviewTables := do
  let picks := db.replyPicks caller documentId comment reply
  require (db.replies.any picks) .notFound
  let edit := fun row : ReplyRow => { row with body := text, editedAt := some (ms now), deletedAt := none }
  .ok { db with replies := Rows.update picks edit db.replies }

def replyDelete (comment reply : OpaqueId) (now : UInt64) : Except ApiError ReviewTables := do
  let picks := fun row : ReplyRow => db.replyPicks caller documentId comment reply row && row.deletedAt.isNone
  require (db.replies.any picks) .notFound
  let erase := fun row : ReplyRow => { row with body := [], deletedAt := some (ms now) }
  .ok { db with replies := Rows.update picks erase db.replies }

def purge : ReviewTables where
  comments := db.comments.filter (·.documentId != documentId)
  replies := db.replies.filter fun reply => !db.hasComment documentId reply.commentId

end ReviewTables

inductive ReviewEvent
  | commentCreate (caller documentId commentId : OpaqueId) (text : Text) (range : ValidatedRange) (createdAt : UInt64)
  | commentUpdate (caller documentId comment : OpaqueId) (resolved : Option Bool) (body : Option Text) (now : UInt64)
  | commentDelete (caller documentId comment : OpaqueId) (now : UInt64)
  | replyCreate (caller documentId comment replyId : OpaqueId) (text : Text) (createdAt : UInt64)
  | replyUpdate (caller documentId comment reply : OpaqueId) (text : Text) (now : UInt64)
  | replyDelete (caller documentId comment reply : OpaqueId) (now : UInt64)
  | purge (documentId : OpaqueId)

def ReviewTables.transaction (db : ReviewTables) : ReviewEvent → Except ApiError ReviewTables
  | .commentCreate caller documentId commentId text range createdAt =>
    db.commentCreate caller documentId commentId text range createdAt
  | .commentUpdate caller documentId comment resolved body now =>
    db.commentUpdate caller documentId comment resolved body now
  | .commentDelete caller documentId comment now => db.commentDelete caller documentId comment now
  | .replyCreate caller documentId comment replyId text createdAt =>
    db.replyCreate caller documentId comment replyId text createdAt
  | .replyUpdate caller documentId comment reply text now => db.replyUpdate caller documentId comment reply text now
  | .replyDelete caller documentId comment reply now => db.replyDelete caller documentId comment reply now
  | .purge documentId => .ok (db.purge documentId)

def ReviewTables.step (db : ReviewTables) (e : ReviewEvent) : ReviewTables := ((db.transaction e).toOption).getD db

/-! ## Cursors -/

structure Base64Url where
  encodeString : Bytes → Text
  decodeVec : Text → Option Bytes
  decode_encode : ∀ bytes, decodeVec (encodeString bytes) = some bytes

structure CommentCursor where
  createdAt : Int
  id : OpaqueId

/-- An `i64` as `format!` writes it. -/
def displayI64 (value : Int) : Text :=
  if value < 0 then '-' :: Nat.toDigits 10 value.natAbs else Nat.toDigits 10 value.natAbs

def parseDigits (digits : Text) : Option Nat :=
  if digits.isEmpty || !digits.all Char.isDigit then none else some (Nat.ofDigitChars 10 digits 0)

/-- `parse::<i64>`. -/
def parseI64 (text : Text) : Option Int :=
  match text with
  | '-' :: digits => (parseDigits digits).bind fun n => if n ≤ 2 ^ 63 then some (-n : Int) else none
  | '+' :: digits => (parseDigits digits).bind fun n => if n < 2 ^ 63 then some (n : Int) else none
  | digits => (parseDigits digits).bind fun n => if n < 2 ^ 63 then some (n : Int) else none

/-- `split_once`. -/
def splitOnce (separator : Char) (text : Text) : Option (Text × Text) :=
  match text.dropWhile (· != separator) with
  | [] => none
  | _ :: rest => some (text.takeWhile (· != separator), rest)

section
variable (codec : Base64Url)

def encodeCommentCursor (createdAt : Int) (id : OpaqueId) : Text :=
  codec.encodeString (keyBytes (displayI64 createdAt ++ ':' :: id.asStr))

def decodeCommentCursor : Option Text → Except ApiError (Option CommentCursor)
  | none => .ok none
  | some value => do
    let decoded ← found (codec.decodeVec value) .badRequest
    require (decide (decoded.length ≤ 160)) .badRequest
    let decoded ← found (fromUtf8 decoded) .badRequest
    let (createdAt, id) ← found (splitOnce ':' decoded) .badRequest
    let createdAt ← found ((parseI64 createdAt).filter (0 ≤ ·)) .badRequest
    let id ← found (OpaqueId.new id) .badRequest
    .ok (some ⟨createdAt, id⟩)

end

/-! ## Listing -/

structure ListedReply where
  id : Text
  author : Text
  own : Bool
  body : Text
  createdAt : Nat
  editedAt : Option Nat
  deleted : Bool
deriving DecidableEq

structure ListedComment where
  id : Text
  documentId : Text
  author : Text
  own : Bool
  body : Text
  createdAt : Nat
  editedAt : Option Nat
  deleted : Bool
  resolved : Bool
  startAnchor : Option Text
  endAnchor : Option Text
  quote : Text
  startOffset : Nat
  endOffset : Nat
  replies : List ListedReply
deriving DecidableEq

structure CommentPage where
  comments : List ListedComment
  hasMore : Bool
  nextCursor : Option Text
  repliesTruncated : Bool

def Earlier (a b : Int × OpaqueId) : Prop := a.1 < b.1 ∨ a.1 = b.1 ∧ ¬ b.2.asStr < a.2.asStr

instance : DecidableRel Earlier := fun a b => by
  unfold Earlier
  infer_instance

/-- `ORDER BY created_at DESC, id DESC`. -/
def NewestFirst (a b : CommentRow) : Prop := Earlier (b.createdAt, b.id) (a.createdAt, a.id)

/-- `ORDER BY r.created_at ASC, r.id ASC`. -/
def OldestFirst (a b : ReplyRow) : Prop := Earlier (a.createdAt, a.id) (b.createdAt, b.id)

instance : DecidableRel NewestFirst := fun a b => by
  unfold NewestFirst
  infer_instance

instance : DecidableRel OldestFirst := fun a b => by
  unfold OldestFirst
  infer_instance

/-- `created_at < ?2 OR (created_at = ?2 AND id < ?3)`. -/
def CommentCursor.past (cursor : CommentCursor) (row : CommentRow) : Bool :=
  decide (row.createdAt < cursor.createdAt ∨ row.createdAt = cursor.createdAt ∧ row.id.asStr < cursor.id.asStr)

section
variable (codec : Base64Url) (db : ReviewTables) (caller documentId : OpaqueId)

def ReviewTables.commentsOf : List CommentRow := db.comments.filter (·.documentId == documentId)

def commentRows (cursor : Option CommentCursor) (limit : Nat) : List CommentRow :=
  (Keyset.found NewestFirst CommentCursor.past (db.commentsOf documentId) cursor).take limit

def listComment (row : CommentRow) : ListedComment where
  id := row.id.asStr
  documentId := documentId.asStr
  author := row.author.asStr
  own := row.author == caller
  body := if row.deletedAt.isSome then [] else row.body
  createdAt := fromMs row.createdAt
  editedAt := row.editedAt.map fromMs
  deleted := row.deletedAt.isSome
  resolved := row.resolved
  startAnchor := row.startAnchor.map codec.encodeString
  endAnchor := row.endAnchor.map codec.encodeString
  quote := row.quote
  startOffset := fromMs row.startOffset
  endOffset := fromMs row.endOffset
  replies := []

def listReply (row : ReplyRow) : ListedReply where
  id := row.id.asStr
  author := row.author.asStr
  own := row.author == caller
  body := if row.deletedAt.isSome then [] else row.body
  createdAt := fromMs row.createdAt
  editedAt := row.editedAt.map fromMs
  deleted := row.deletedAt.isSome

/-- A reply goes to its comment on the page. -/
def attachReply (comments : List ListedComment) (reply : ReplyRow) : List ListedComment :=
  match comments.findIdx? (·.id == reply.commentId.asStr) with
  | none => comments
  | some index =>
    comments.modify index fun comment => { comment with replies := comment.replies ++ [listReply caller reply] }

/-- The replies joined to the page, one more being read than is given out. -/
def replyRows (cursor : Option CommentCursor) : List ReplyRow :=
  ((db.replies.filter fun reply =>
    (commentRows db documentId cursor commentPageSize).any (·.id == reply.commentId)).insertionSort OldestFirst).take
      (commentReplyPageSize + 1)

def commentsList (value : Option Text) : Except ApiError CommentPage := do
  let cursor ← decodeCommentCursor codec value
  let rows := commentRows db documentId cursor (commentPageSize + 1)
  let hasMore := decide (commentPageSize < rows.length)
  let rows := rows.take commentPageSize
  let nextCursor :=
    if hasMore then rows.getLast?.map fun row => encodeCommentCursor codec row.createdAt row.id else none
  let comments := rows.map (listComment codec caller documentId)
  let replies := replyRows db documentId cursor
  .ok
    { comments := (replies.take commentReplyPageSize).foldl (attachReply caller) comments
      hasMore
      nextCursor
      repliesTruncated := decide (commentReplyPageSize < replies.length) }

/-- The pages from one on, each cursor taken from the page before. -/
def follow : Nat → Option Text → Option (List CommentPage)
  | 0, _ => none
  | fuel + 1, value =>
    match commentsList codec db caller documentId value with
    | .error _ => none
    | .ok page =>
      match page.nextCursor with
      | none => some [page]
      | some next => (follow fuel (some next)).map (page :: ·)

end

def after (events : List ReviewEvent) : ReviewTables := Transition.run ReviewTables.step .empty events

end Marks.Review
