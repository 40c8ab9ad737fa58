import Marks.Lists
import Marks.PresenceWire
import Marks.Review
import Marks.SigningSound

/-! # Reading all comments

Identifiers are given once, and no comment has more replies than it may; so the order of the pages tells their rows
apart, and the replies of a page are never cut off. -/

namespace Marks.Review

open List

open Enrollment (OpaqueId Text)

/-! ## What every transaction keeps -/

structure ReviewTables.Sound (db : ReviewTables) : Prop where
  commentIds : (db.comments.map (·.id)).Nodup
  replyIds : (db.replies.map (·.id)).Nodup
  bounded : ∀ comment, db.replies.countP (·.commentId == comment) ≤ maxRepliesPerComment
  stored : ∀ row ∈ db.comments, 0 ≤ row.createdAt ∧ row.createdAt < 2 ^ 63

theorem ms_range (value : UInt64) : 0 ≤ ms value ∧ ms value < 2 ^ 63 := by
  unfold ms
  omega

theorem update_map {α β : Type} {f : α → β} {picks : α → Bool} {change : α → α} (h : ∀ row, f (change row) = f row)
    (rows : List α) : (Rows.update picks change rows).map f = rows.map f := by
  unfold Rows.update
  rw [map_map]
  apply map_congr_left
  intro row _
  show f (if picks row then change row else row) = f row
  split
  · exact h row
  · rfl

theorem countP_commentId (rows : List ReplyRow) (comment : OpaqueId) :
    rows.countP (·.commentId == comment) = (rows.map (·.commentId)).countP (· == comment) := by
  rw [countP_map]
  rfl

variable {text : Text}

namespace ReviewTables

variable {db db' : ReviewTables} {caller documentId : OpaqueId}

theorem Sound.edit_comments (h : db.Sound) {picks : CommentRow → Bool} {change : CommentRow → CommentRow}
    (hid : ∀ row, (change row).id = row.id) (htime : ∀ row, (change row).createdAt = row.createdAt) :
    ReviewTables.Sound { db with comments := Rows.update picks change db.comments } where
  commentIds := by
    rw [update_map hid]
    exact h.commentIds
  replyIds := h.replyIds
  bounded := h.bounded
  stored := fun row hrow => by
    have hmem : row.createdAt ∈ db.comments.map (·.createdAt) := by
      rw [← update_map htime]
      exact mem_map_of_mem hrow
    obtain ⟨old, hold, heq⟩ := mem_map.mp hmem
    rw [← heq]
    exact h.stored old hold

theorem Sound.edit_replies (h : db.Sound) {picks : ReplyRow → Bool} {change : ReplyRow → ReplyRow}
    (hid : ∀ row, (change row).id = row.id) (hcomment : ∀ row, (change row).commentId = row.commentId) :
    ReviewTables.Sound { db with replies := Rows.update picks change db.replies } where
  commentIds := h.commentIds
  replyIds := by
    rw [update_map hid]
    exact h.replyIds
  bounded := fun comment => by
    rw [countP_commentId, update_map hcomment, ← countP_commentId]
    exact h.bounded comment
  stored := h.stored

theorem nodup_insert {α : Type} {key : α → OpaqueId} {rows rows' : List α} {row : α}
    (h : Rows.insert key rows row = some rows') (hnodup : (rows.map key).Nodup) : (rows'.map key).Nodup := by
  obtain ⟨rfl, hfree, -⟩ := Rows.insert_some h
  rw [map_append, nodup_append]
  refine ⟨hnodup, nodup_singleton _, fun k hk l hl heq => ?_⟩
  obtain ⟨other, hother, rfl⟩ := mem_map.mp hk
  rw [map_singleton, mem_singleton] at hl
  exact Rows.load_none hfree other hother (heq.trans hl)

theorem Sound.commentCreate (h : db.Sound) {commentId : OpaqueId} {range : ValidatedRange}
    {createdAt : UInt64} (hok : db.commentCreate caller documentId commentId text range createdAt = .ok db') :
    db'.Sound := by
  unfold ReviewTables.commentCreate at hok
  obtain ⟨-, hok⟩ := require_bind hok
  obtain ⟨comments, hinsert, hok⟩ := found_bind hok
  cases hok
  refine ⟨nodup_insert hinsert h.commentIds, h.replyIds, h.bounded, fun row hrow => ?_⟩
  obtain ⟨rfl, -⟩ := Rows.insert_some hinsert
  rcases mem_append.mp hrow with hrow | hrow
  · exact h.stored row hrow
  · rw [mem_singleton.mp hrow]
    exact ms_range createdAt

variable {comment : OpaqueId} {now : UInt64}

theorem Sound.commentUpdate (h : db.Sound) {resolved : Option Bool} {body : Option Text}
    (hok : db.commentUpdate caller documentId comment resolved body now = .ok db') : db'.Sound := by
  unfold ReviewTables.commentUpdate at hok
  obtain ⟨-, hok⟩ := require_bind hok
  obtain ⟨row, -, hok⟩ := found_bind hok
  cases resolved with
  | none =>
    cases body with
    | none =>
      cases hok
      exact h
    | some text =>
      obtain ⟨-, hok⟩ := require_bind hok
      cases hok
      exact h.edit_comments (fun _ => rfl) fun _ => rfl
  | some resolved =>
    let picks := fun row : CommentRow => row.id == comment && row.documentId == documentId
    let resolve := fun row : CommentRow => { row with resolved }
    have hresolved : ReviewTables.Sound { db with comments := Rows.update picks resolve db.comments } :=
      h.edit_comments (fun _ => rfl) fun _ => rfl
    cases body with
    | none =>
      cases hok
      exact hresolved
    | some text =>
      obtain ⟨-, hok⟩ := require_bind hok
      cases hok
      exact hresolved.edit_comments (fun _ => rfl) fun _ => rfl

theorem Sound.commentDelete (h : db.Sound)
    (hok : db.commentDelete caller documentId comment now = .ok db') : db'.Sound := by
  unfold ReviewTables.commentDelete at hok
  obtain ⟨-, hok⟩ := require_bind hok
  cases hok
  exact h.edit_comments (fun _ => rfl) fun _ => rfl

theorem Sound.replyCreate (h : db.Sound) {replyId : OpaqueId} {createdAt : UInt64}
    (hok : db.replyCreate caller documentId comment replyId text createdAt = .ok db') : db'.Sound := by
  unfold ReviewTables.replyCreate at hok
  obtain ⟨hexists, hok⟩ := require_bind hok
  obtain ⟨hcount, hok⟩ := require_bind hok
  obtain ⟨replies, hinsert, hok⟩ := found_bind hok
  cases hok
  refine ⟨h.commentIds, nodup_insert hinsert h.replyIds, fun other => ?_, h.stored⟩
  obtain ⟨rfl, -⟩ := Rows.insert_some hinsert
  show (db.replies ++ [_]).countP _ ≤ _
  rw [countP_append, countP_singleton]
  have hbound := h.bounded other
  split
  · next heq =>
    rw [beq_iff_eq] at heq
    have heq : comment = other := heq
    rw [decide_eq_true_iff] at hcount
    cases hhas : db.hasComment documentId comment with
    | false =>
      rw [hhas] at hexists
      cases hexists
    | true =>
      rw [hhas, if_pos rfl, heq] at hcount
      exact hcount
  · exact hbound

theorem Sound.replyUpdate (h : db.Sound) {reply : OpaqueId}
    (hok : db.replyUpdate caller documentId comment reply text now = .ok db') : db'.Sound := by
  unfold ReviewTables.replyUpdate at hok
  obtain ⟨-, hok⟩ := require_bind hok
  cases hok
  exact h.edit_replies (fun _ => rfl) fun _ => rfl

theorem Sound.replyDelete (h : db.Sound) {reply : OpaqueId}
    (hok : db.replyDelete caller documentId comment reply now = .ok db') : db'.Sound := by
  unfold ReviewTables.replyDelete at hok
  obtain ⟨-, hok⟩ := require_bind hok
  cases hok
  exact h.edit_replies (fun _ => rfl) fun _ => rfl

theorem Sound.purge (h : db.Sound) (documentId : OpaqueId) : (db.purge documentId).Sound where
  commentIds := h.commentIds.sublist (List.filter_sublist.map _)
  replyIds := h.replyIds.sublist (List.filter_sublist.map _)
  bounded := fun comment => Nat.le_trans (List.filter_sublist.countP_le) (h.bounded comment)
  stored := fun row hrow => h.stored row (mem_of_mem_filter hrow)

theorem empty_sound : empty.Sound where
  commentIds := nodup_nil
  replyIds := nodup_nil
  bounded := fun _ => Nat.zero_le _
  stored := fun _ hrow => by cases hrow

theorem Sound.step (h : db.Sound) (e : ReviewEvent) : (db.step e).Sound := by
  unfold ReviewTables.step
  cases hok : db.transaction e with
  | error => exact h
  | ok after =>
    show after.Sound
    cases e with
    | commentCreate => exact h.commentCreate hok
    | commentUpdate => exact h.commentUpdate hok
    | commentDelete => exact h.commentDelete hok
    | replyCreate => exact h.replyCreate hok
    | replyUpdate => exact h.replyUpdate hok
    | replyDelete => exact h.replyDelete hok
    | purge documentId =>
      cases hok
      exact h.purge documentId

end ReviewTables

theorem after_sound (events : List ReviewEvent) : (after events).Sound :=
  Transition.run_inv (fun _ e h _ => h.step e) ReviewTables.empty_sound (Transition.along_of fun _ _ => trivial)

/-! ## Cursors -/

theorem keyBytes_ascii (h : ∀ c ∈ text, c.toNat < 128) : (keyBytes text).length = text.length := by
  induction text with
  | nil => rfl
  | cons c text ih =>
    have hsize : c.utf8Size = 1 := Char.utf8Size_eq_one_iff.mpr (by
      have hc := h c mem_cons_self
      rw [UInt32.le_iff_toNat_le]
      exact Nat.le_of_lt_succ hc)
    have htail := ih fun d hd => h d (mem_cons_of_mem c hd)
    unfold keyBytes at htail ⊢
    rw [flatMap_cons, length_append, String.length_utf8EncodeChar, hsize, htail, length_cons,
      Nat.add_comm]

theorem displayI64_nat {n : Int} (h0 : 0 ≤ n) : displayI64 n = Nat.toDigits 10 n.natAbs := if_neg (by omega)

theorem digits_isDigit (n : Nat) : ∀ c ∈ Nat.toDigits 10 n, c.isDigit = true := fun _ hc =>
  Nat.isDigit_of_mem_toDigits (by decide) (by decide) hc

theorem isDigit_range {c : Char} (h : c.isDigit = true) : 48 ≤ c.toNat ∧ c.toNat ≤ 57 := by
  simp only [Char.isDigit, Bool.and_eq_true, decide_eq_true_eq, ge_iff_le, UInt32.le_iff_toNat_le] at h
  exact h

theorem parseDigits_toDigits (n : Nat) : parseDigits (Nat.toDigits 10 n) = some n := by
  unfold parseDigits
  rw [if_neg, Nat.ofDigitChars_ten_toDigits]
  rw [Bool.or_eq_true, not_or, List.isEmpty_iff]
  refine ⟨Nat.toDigits_ne_nil, fun hall => ?_⟩
  rw [all_eq_true.mpr (digits_isDigit n)] at hall
  cases hall

theorem parse_display {n : Int} (h0 : 0 ≤ n) (h1 : n < 2 ^ 63) : parseI64 (displayI64 n) = some n := by
  have hparse := parseDigits_toDigits n.natAbs
  have hdigit := digits_isDigit n.natAbs
  have hbound : n.natAbs < 2 ^ 63 := by omega
  rw [displayI64_nat h0]
  unfold parseI64
  split
  · next hsign =>
    have hrange := isDigit_range (hdigit '-' (hsign ▸ mem_cons_self))
    exact absurd hrange.1 (by decide)
  · next hsign =>
    have hrange := isDigit_range (hdigit '+' (hsign ▸ mem_cons_self))
    exact absurd hrange.1 (by decide)
  · rw [hparse, Option.bind_some, if_pos hbound, Int.natAbs_of_nonneg h0]

theorem splitOnce_append {separator : Char} {before : Text} (h : ∀ c ∈ before, c ≠ separator) (rest : Text) :
    splitOnce separator (before ++ separator :: rest) = some (before, rest) := by
  have hpass : ∀ c ∈ before, (c != separator) = true := fun c hc => bne_iff_ne.mpr (h c hc)
  have hstop : (separator != separator) = false := bne_self_eq_false separator
  unfold splitOnce
  rw [dropWhile_append_of_pos hpass, takeWhile_append_of_pos hpass, dropWhile_cons_of_neg (by simp),
    takeWhile_cons_of_neg (by simp), append_nil]

theorem decode_encode_cursor (codec : Base64Url) {createdAt : Int} (h0 : 0 ≤ createdAt) (h1 : createdAt < 2 ^ 63)
    (id : OpaqueId) :
    decodeCommentCursor codec (some (encodeCommentCursor codec createdAt id)) = .ok (some ⟨createdAt, id⟩) := by
  have hdigits := digits_isDigit createdAt.natAbs
  have hascii : ∀ c ∈ displayI64 createdAt ++ ':' :: id.asStr, c.toNat < 128 := by
    intro c hc
    rw [displayI64_nat h0] at hc
    rcases mem_append.mp hc with hc | hc
    · have hrange := isDigit_range (hdigits c hc)
      omega
    · rcases mem_cons.mp hc with rfl | hc
      · decide
      · exact (id.code c hc).lt
  have hlength : (keyBytes (displayI64 createdAt ++ ':' :: id.asStr)).length ≤ 160 := by
    have hcount : (Nat.toDigits 10 createdAt.natAbs).length ≤ 19 :=
      (Nat.length_toDigits_le_iff (by decide) (by decide)).mpr (by omega)
    have hid := id.length_le.2
    rw [keyBytes_ascii hascii, displayI64_nat h0, length_append, length_cons]
    omega
  have hsplit : splitOnce ':' (displayI64 createdAt ++ ':' :: id.asStr) = some (displayI64 createdAt, id.asStr) := by
    apply splitOnce_append
    intro c hc heq
    rw [displayI64_nat h0] at hc
    have hrange := isDigit_range (hdigits c hc)
    rw [heq] at hrange
    exact absurd hrange.2 (by decide)
  have hnew : OpaqueId.new id.asStr = some id := dif_pos id.valid
  unfold decodeCommentCursor encodeCommentCursor
  simp only [codec.decode_encode, fromUtf8_keyBytes, decide_eq_true hlength, hsplit, parse_display h0 h1, hnew,
    Option.filter_some, decide_eq_true h0, if_true, found_some, require_true]

/-! ## Orders -/

theorem earlier_total (a b : Int × OpaqueId) : Earlier a b ∨ Earlier b a := by
  unfold Earlier
  rcases Int.lt_trichotomy a.1 b.1 with hlt | heq | hgt
  · exact Or.inl (Or.inl hlt)
  · have hid : ¬ b.2.asStr < a.2.asStr ∨ ¬ a.2.asStr < b.2.asStr := List.le_total a.2.asStr b.2.asStr
    rcases hid with hid | hid
    · exact Or.inl (Or.inr ⟨heq, hid⟩)
    · exact Or.inr (Or.inr ⟨heq.symm, hid⟩)
  · exact Or.inr (Or.inl hgt)

theorem earlier_trans {a b c : Int × OpaqueId} (hab : Earlier a b) (hbc : Earlier b c) : Earlier a c := by
  unfold Earlier at *
  rcases hab with hab | ⟨hab, hid⟩
  · left
    omega
  rcases hbc with hbc | ⟨hbc, hid'⟩
  · left
    omega
  · exact Or.inr ⟨hab.trans hbc, List.le_trans hid hid'⟩

theorem earlier_antisymm {a b : Int × OpaqueId} (hab : Earlier a b) (hba : Earlier b a) : a.2 = b.2 := by
  apply Enrollment.OpaqueId.ext
  unfold Earlier at hab hba
  rcases hab with hab | ⟨hab, hid⟩
  · omega
  · rcases hba with hba | ⟨-, hid'⟩
    · omega
    · exact List.le_antisymm hid hid'

instance : Std.Total NewestFirst where
  total _ _ := earlier_total _ _

instance : IsTrans CommentRow NewestFirst where
  trans _ _ _ hab hbc := earlier_trans hbc hab

instance : Std.Total OldestFirst where
  total _ _ := earlier_total _ _

instance : IsTrans ReplyRow OldestFirst where
  trans _ _ _ hab hbc := earlier_trans hab hbc

namespace ReviewTables.Sound

variable {db : ReviewTables} (h : db.Sound)
include h

theorem comment_eq {a b : CommentRow} (ha : a ∈ db.comments) (hb : b ∈ db.comments) (hid : a.id = b.id) : a = b :=
  inj_on_of_nodup_map h.commentIds ha hb hid

theorem comment_keys (documentId : OpaqueId) : Keyset.Keys NewestFirst (db.commentsOf documentId) where
  nodup := (List.Nodup.of_map _ h.commentIds).filter _
  antisymm := by
    intro a ha b hb hab hba
    exact h.comment_eq (mem_of_mem_filter ha) (mem_of_mem_filter hb) (earlier_antisymm hba hab)

theorem reply_keys : Keyset.Keys OldestFirst db.replies where
  nodup := List.Nodup.of_map _ h.replyIds
  antisymm := by
    intro a ha b hb hab hba
    exact inj_on_of_nodup_map h.replyIds ha hb (earlier_antisymm hab hba)

theorem past_iff {documentId : OpaqueId} {a b : CommentRow} (ha : a ∈ db.commentsOf documentId)
    (hb : b ∈ db.commentsOf documentId) :
    CommentCursor.past ⟨a.createdAt, a.id⟩ b = true ↔ NewestFirst a b ∧ a ≠ b := by
  have hsame : a = b ↔ a.id.asStr = b.id.asStr := by
    constructor
    · rintro rfl
      rfl
    · intro hid
      exact h.comment_eq (mem_of_mem_filter ha) (mem_of_mem_filter hb) (Enrollment.OpaqueId.ext hid)
  unfold CommentCursor.past NewestFirst Earlier
  have hid : b.id.asStr < a.id.asStr ↔ ¬ a.id.asStr < b.id.asStr ∧ b.id.asStr ≠ a.id.asStr := by
    constructor
    · intro hlt
      exact ⟨List.lt_asymm hlt, fun heq => List.lt_irrefl _ (heq ▸ hlt)⟩
    · rintro ⟨hle, hne⟩
      by_contra hlt
      exact hne (List.le_antisymm hle hlt)
  rw [decide_eq_true_iff, Ne, hsame]
  dsimp only
  rw [hid]
  constructor
  · rintro (htime | ⟨htime, hid, hne⟩)
    · refine ⟨Or.inl htime, fun heq => ?_⟩
      rw [hsame.mpr heq] at htime
      omega
    · exact ⟨Or.inr ⟨htime, hid⟩, Ne.symm hne⟩
  · rintro ⟨htime | ⟨htime, hid⟩, hne⟩
    · exact Or.inl htime
    · exact Or.inr ⟨htime, hid, Ne.symm hne⟩

end ReviewTables.Sound

/-! ## One page -/

theorem modify_findIdx {α : Type} {p : α → Bool} {f : α → α} {l : List α} (h : l.countP p ≤ 1) :
    (l.findIdx? p).elim l (fun index => l.modify index f) = l.map fun a => if p a then f a else a := by
  induction l with
  | nil => rfl
  | cons a l ih =>
    rw [findIdx?_cons, map_cons]
    cases hp : p a with
    | true =>
      rw [countP_cons_of_pos hp] at h
      have hnone : ∀ b ∈ l, ¬ p b = true := countP_eq_zero.mp (by omega)
      have hrest : (l.map fun b => if p b then f b else b) = l := by
        refine map_congr_left (g := id) (fun b hb => ?_) |>.trans (map_id l)
        exact if_neg (hnone b hb)
      rw [hrest]
      rfl
    | false =>
      rw [countP_cons_of_neg (by rw [hp]; exact Bool.false_ne_true)] at h
      rw [← ih h]
      cases l.findIdx? p <;> rfl

section
variable (codec : Base64Url) (db : ReviewTables) (caller documentId : OpaqueId)

def ReviewTables.repliesOf (comment : OpaqueId) : List ReplyRow :=
  (db.replies.filter (·.commentId == comment)).insertionSort OldestFirst

def listThread (row : CommentRow) : ListedComment :=
  { listComment codec caller documentId row with
    replies := (db.repliesOf row.id).map (listReply caller) }

variable {codec db caller documentId} (h : db.Sound)

theorem attachReply_eq {comments : List ListedComment} {reply : ReplyRow}
    (hone : comments.countP (·.id == reply.commentId.asStr) ≤ 1) :
    attachReply caller comments reply = comments.map fun comment =>
      if comment.id == reply.commentId.asStr then
        { comment with replies := comment.replies ++ [listReply caller reply] }
      else comment := by
  rw [← modify_findIdx hone]
  unfold attachReply
  cases comments.findIdx? (·.id == reply.commentId.asStr) <;> rfl

theorem attach_all {rows : List CommentRow} (hids : (rows.map (·.id)).Nodup) (replies : List ReplyRow)
    (earlier : CommentRow → List ListedReply) :
    replies.foldl (attachReply caller)
        (rows.map fun row => { listComment codec caller documentId row with replies := earlier row }) =
      rows.map fun row =>
        { listComment codec caller documentId row with
          replies := earlier row ++ (replies.filter (·.commentId == row.id)).map (listReply caller) } := by
  induction replies generalizing earlier with
  | nil => simp
  | cons reply replies ih =>
    have hattach : attachReply caller
          (rows.map fun row => { listComment codec caller documentId row with replies := earlier row }) reply =
        rows.map fun row =>
          { listComment codec caller documentId row with
            replies := earlier row ++ if reply.commentId = row.id then [listReply caller reply] else [] } := by
      have hone : (rows.map fun row => { listComment codec caller documentId row with replies := earlier row }).countP
          (·.id == reply.commentId.asStr) ≤ 1 := by
        rw [countP_map]
        apply Lists.countP_le_one
        refine (pairwise_map.mp hids).imp fun {a b} hne ha => ?_
        have hida : a.id.asStr = reply.commentId.asStr := beq_iff_eq.mp ha
        apply beq_eq_false_iff_ne.mpr
        intro hb
        have hidb : b.id.asStr = reply.commentId.asStr := hb
        exact hne (Enrollment.OpaqueId.ext (hida.trans hidb.symm))
      rw [attachReply_eq hone, map_map]
      apply map_congr_left
      intro row _
      by_cases hrow : reply.commentId = row.id
      · have hid : (row.id.asStr == reply.commentId.asStr) = true := by rw [hrow, beq_self_eq_true]
        rw [if_pos hrow]
        exact if_pos hid
      have hid : ¬ (row.id.asStr == reply.commentId.asStr) = true := by
        rw [beq_iff_eq]
        exact fun heq => hrow (Enrollment.OpaqueId.ext heq.symm)
      rw [if_neg hrow, append_nil]
      exact if_neg hid
    rw [foldl_cons, hattach, ih]
    apply map_congr_left
    intro row _
    rw [append_assoc]
    by_cases hrow : reply.commentId = row.id
    · rw [if_pos hrow, filter_cons_of_pos (by rw [hrow, beq_self_eq_true])]
      rfl
    · rw [if_neg hrow, filter_cons_of_neg (by rw [beq_iff_eq]; exact hrow), nil_append]

include h

theorem joined_length (rows : List CommentRow) :
    (db.replies.filter fun reply => rows.any (·.id == reply.commentId)).length ≤ rows.length * maxRepliesPerComment := by
  induction rows with
  | nil => simp
  | cons row rows ih =>
    have hrow : db.replies.countP (row.id == ·.commentId) ≤ maxRepliesPerComment := by
      have hcomm : (fun reply : ReplyRow => row.id == reply.commentId) = (·.commentId == row.id) := by
        funext reply
        exact BEq.comm
      rw [hcomm]
      exact h.bounded row.id
    have hsplit : (db.replies.filter fun reply => (row :: rows).any (·.id == reply.commentId)).length ≤
        db.replies.countP (row.id == ·.commentId) +
          (db.replies.filter fun reply => rows.any (·.id == reply.commentId)).length := by
      rw [← countP_eq_length_filter, ← countP_eq_length_filter]
      generalize db.replies = replies
      induction replies with
      | nil => simp
      | cons reply replies ihr =>
        simp only [countP_cons, any_cons] at ihr ⊢
        cases (row.id == reply.commentId) <;> cases (rows.any (·.id == reply.commentId)) <;> simp <;> omega
    rw [length_cons, Nat.succ_mul]
    omega

theorem replyRows_eq (cursor : Option CommentCursor) :
    replyRows db documentId cursor =
        (db.replies.filter fun reply =>
          (commentRows db documentId cursor commentPageSize).any (·.id == reply.commentId)).insertionSort OldestFirst ∧
      (replyRows db documentId cursor).length ≤ commentReplyPageSize := by
  have hlength := joined_length h (commentRows db documentId cursor commentPageSize)
  have hpage : (commentRows db documentId cursor commentPageSize).length ≤ commentPageSize := by
    unfold commentRows
    exact length_take_le _ _
  have hbound : ((db.replies.filter fun reply =>
      (commentRows db documentId cursor commentPageSize).any (·.id == reply.commentId)).insertionSort OldestFirst).length ≤
        commentReplyPageSize := by
    rw [length_insertionSort]
    exact Nat.le_trans hlength (Nat.mul_le_mul_right maxRepliesPerComment hpage)
  have htake : replyRows db documentId cursor = (db.replies.filter fun reply =>
      (commentRows db documentId cursor commentPageSize).any (·.id == reply.commentId)).insertionSort OldestFirst :=
    take_of_length_le (Nat.le_succ_of_le hbound)
  exact ⟨htake, htake ▸ hbound⟩

variable {cursor : Option CommentCursor}

theorem replies_of_page {row : CommentRow}
    (hrow : row ∈ commentRows db documentId cursor commentPageSize) :
    (replyRows db documentId cursor).filter (·.commentId == row.id) = db.repliesOf row.id := by
  rw [(replyRows_eq h cursor).1, (h.reply_keys.filter _).filter_sorted, filter_filter]
  unfold ReviewTables.repliesOf
  congr 1
  apply filter_congr
  intro reply _
  cases hid : reply.commentId == row.id with
  | false => rfl
  | true =>
    rw [Bool.true_and, any_eq_true]
    exact ⟨row, hrow, by rw [beq_iff_eq.mp hid, beq_self_eq_true]⟩

theorem commentRows_nodup (cursor : Option CommentCursor) :
    ((commentRows db documentId cursor commentPageSize).map (·.id)).Nodup := by
  have hperm := perm_insertionSort NewestFirst
    ((db.commentsOf documentId).filter fun row => cursor.all (CommentCursor.past · row))
  have hsub : List.Sublist ((db.commentsOf documentId).filter fun row => cursor.all (CommentCursor.past · row))
      db.comments := filter_sublist.trans filter_sublist
  have hnodup := h.commentIds.sublist (hsub.map CommentRow.id)
  have hfound := (hperm.map CommentRow.id).nodup_iff.mpr hnodup
  exact hfound.sublist ((take_sublist _ _).map CommentRow.id)

theorem commentsList_ok {value : Option Text}
    (hdecode : decodeCommentCursor codec value = .ok cursor) :
    commentsList codec db caller documentId value = .ok
      { comments := (commentRows db documentId cursor commentPageSize).map (listThread codec db caller documentId)
        hasMore := decide (commentPageSize < (commentRows db documentId cursor (commentPageSize + 1)).length)
        nextCursor :=
          if decide (commentPageSize < (commentRows db documentId cursor (commentPageSize + 1)).length) then
            (commentRows db documentId cursor commentPageSize).getLast?.map fun row =>
              encodeCommentCursor codec row.createdAt row.id
          else none
        repliesTruncated := false } := by
  have hpage : (commentRows db documentId cursor (commentPageSize + 1)).take commentPageSize =
      commentRows db documentId cursor commentPageSize := by
    unfold commentRows
    rw [take_take, Nat.min_eq_left (Nat.le_succ _)]
  have hbound : (replyRows db documentId cursor).length ≤ commentReplyPageSize := (replyRows_eq h cursor).2
  have hall : (replyRows db documentId cursor).take commentReplyPageSize = replyRows db documentId cursor :=
    take_of_length_le hbound
  have hcomments : ((replyRows db documentId cursor).foldl (attachReply caller)
      ((commentRows db documentId cursor commentPageSize).map (listComment codec caller documentId))) =
        (commentRows db documentId cursor commentPageSize).map (listThread codec db caller documentId) := by
    refine (attach_all (commentRows_nodup h cursor) (replyRows db documentId cursor) fun _ => []).trans ?_
    apply map_congr_left
    intro row hrow
    rw [nil_append, replies_of_page h hrow]
    rfl
  unfold commentsList
  rw [hdecode]
  show Except.ok _ = Except.ok _
  rw [hpage, hall, hcomments, decide_eq_false (Nat.not_lt.mpr hbound)]

/-! ## All pages -/

def cursorOf (row : CommentRow) : CommentCursor := ⟨row.createdAt, row.id⟩

variable (caller) in
theorem follow_walk (fuel : Nat) {value : Option Text} {rows : List (List CommentRow)}
    (hdecode : decodeCommentCursor codec value = .ok cursor)
    (hwalk : Keyset.walk NewestFirst CommentCursor.past cursorOf commentPageSize (db.commentsOf documentId) fuel cursor =
      some rows) :
    ∃ pages, follow codec db caller documentId fuel value = some pages ∧
      pages.map (·.comments) = rows.map (·.map (listThread codec db caller documentId)) ∧
      ∀ page ∈ pages, page.repliesTruncated = false := by
  induction fuel generalizing value cursor rows with
  | zero => cases hwalk
  | succ fuel ih =>
    have hpage : (commentRows db documentId cursor (commentPageSize + 1)).take commentPageSize =
        commentRows db documentId cursor commentPageSize := by
      unfold commentRows
      rw [take_take, Nat.min_eq_left (Nat.le_succ _)]
    have hwalk : (if commentPageSize < (commentRows db documentId cursor (commentPageSize + 1)).length then
        (Keyset.walk NewestFirst CommentCursor.past cursorOf commentPageSize (db.commentsOf documentId) fuel
          (((commentRows db documentId cursor (commentPageSize + 1)).take commentPageSize).getLast?.map cursorOf)).map
            ((commentRows db documentId cursor (commentPageSize + 1)).take commentPageSize :: ·)
        else some [(commentRows db documentId cursor (commentPageSize + 1)).take commentPageSize]) = some rows := hwalk
    rw [hpage] at hwalk
    unfold follow
    rw [commentsList_ok h hdecode]
    by_cases hmore : commentPageSize < (commentRows db documentId cursor (commentPageSize + 1)).length
    · rw [if_pos hmore] at hwalk
      obtain ⟨more, hrest, hrows⟩ := Option.map_eq_some_iff.mp hwalk
      have hne : commentRows db documentId cursor commentPageSize ≠ [] := by
        intro hnil
        rw [← hpage, take_eq_nil_iff] at hnil
        rcases hnil with hzero | hnil
        · cases hzero
        · rw [hnil] at hmore
          cases hmore
      obtain ⟨last, hlast⟩ : ∃ last, (commentRows db documentId cursor commentPageSize).getLast? = some last :=
        ⟨_, getLast?_eq_some_getLast hne⟩
      have hstored : last ∈ db.comments := by
        have hmem := mem_of_mem_take (mem_of_getLast? hlast)
        exact mem_of_mem_filter (mem_of_mem_filter ((mem_insertionSort NewestFirst).mp hmem))
      obtain ⟨h0, h1⟩ := h.stored last hstored
      rw [hlast, Option.map_some] at hrest
      obtain ⟨pages, hpages, hcomments, htruncated⟩ := ih (decode_encode_cursor codec h0 h1 last.id) hrest
      simp only [decide_eq_true hmore, if_true, hlast, Option.map_some, hpages]
      refine ⟨_, rfl, ?_, ?_⟩
      · rw [map_cons, hcomments, ← hrows, map_cons]
      intro page hmem
      rcases mem_cons.mp hmem with rfl | hmem
      · rfl
      · exact htruncated page hmem
    · rw [if_neg hmore] at hwalk
      cases hwalk
      simp only [decide_eq_false hmore, Bool.false_eq_true, if_false]
      refine ⟨_, rfl, rfl, ?_⟩
      intro page hmem
      rw [mem_singleton.mp hmem]

end

end Marks.Review
