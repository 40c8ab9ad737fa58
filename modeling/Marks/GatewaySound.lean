import Mathlib.Data.List.Basic
import Marks.Gateway

/-! # Every event of a run is handed on once

However the bytes of a connection are cut into chunks, the client has read the whole frames among them and holds the
text of the frame that is still to come. A connection that ends inside the data of an event, or whose chunks leave
more of one frame unread than an event may have, makes it reject the stream; any other leaves its cursor behind the
events that arrived. -/

namespace Marks.Gateway

open List

open Agent (Text AgentEvent EventKind)

/-! ## Decoding -/

section
variable {bytes : Nat} {text rest : Text}

theorem decoded_cons {c : Char} : decoded bytes (c :: rest) =
    if c.utf8Size ≤ bytes then c :: decoded (bytes - c.utf8Size) rest else [] := rfl

theorem decoded_append (h : Json.utf8Bytes text ≤ bytes) :
    decoded bytes (text ++ rest) = text ++ decoded (bytes - Json.utf8Bytes text) rest := by
  induction text generalizing bytes with
  | nil => rfl
  | cons c text ih =>
    rw [Json.utf8Bytes_cons] at h
    have hc : c.utf8Size ≤ bytes := by omega
    have hrest : Json.utf8Bytes text ≤ bytes - c.utf8Size := by omega
    rw [cons_append, decoded_cons, if_pos hc, ih hrest, Json.utf8Bytes_cons, Nat.sub_sub]
    rfl

theorem decoded_append_lt (h : bytes < Json.utf8Bytes text) : decoded bytes (text ++ rest) = decoded bytes text := by
  induction text generalizing bytes with
  | nil => cases h
  | cons c text ih =>
    rw [Json.utf8Bytes_cons] at h
    rw [cons_append, decoded_cons, decoded_cons]
    split
    · rw [ih (by omega)]
    · rfl

theorem decoded_prefix : decoded bytes text <+: text := by
  induction text generalizing bytes with
  | nil => exact prefix_rfl
  | cons c text ih =>
    rw [decoded_cons]
    split
    · exact cons_prefix_cons.mpr ⟨rfl, ih⟩
    · exact nil_prefix

theorem decoded_mono {more : Nat} (h : bytes ≤ more) : decoded bytes text <+: decoded more text := by
  induction text generalizing bytes more with
  | nil => exact prefix_rfl
  | cons c text ih =>
    rw [decoded_cons, decoded_cons]
    by_cases hc : c.utf8Size ≤ bytes
    · rw [if_pos hc, if_pos (Nat.le_trans hc h)]
      exact cons_prefix_cons.mpr ⟨rfl, ih (Nat.sub_le_sub_right h _)⟩
    · rw [if_neg hc]
      exact nil_prefix

theorem decoded_zero : decoded 0 text = [] := by
  cases text with
  | nil => rfl
  | cons c text =>
    have hc : ¬ c.utf8Size ≤ 0 := Nat.not_le.mpr c.utf8Size_pos
    rw [decoded_cons, if_neg hc]

theorem decoded_next {c : Char} (h : decoded bytes (text ++ c :: rest) = text) :
    Json.utf8Bytes text ≤ bytes ∧ bytes < Json.utf8Bytes text + c.utf8Size := by
  induction text generalizing bytes with
  | nil =>
    rw [nil_append, decoded_cons] at h
    split at h
    · cases h
    · rename_i hc
      rw [Json.utf8Bytes_nil]
      omega
  | cons d text ih =>
    rw [cons_append, decoded_cons] at h
    split at h
    · rename_i hd
      have hnext := ih (List.cons.inj h).2
      rw [Json.utf8Bytes_cons]
      omega
    · cases h

theorem decoded_lt (h : bytes < Json.utf8Bytes text) : (decoded bytes text).length < text.length := by
  induction text generalizing bytes with
  | nil => cases h
  | cons c text ih =>
    rw [Json.utf8Bytes_cons] at h
    rw [decoded_cons]
    split
    · have hrest := @ih (bytes - c.utf8Size) (by omega)
      rw [length_cons, length_cons]
      omega
    · exact Nat.succ_pos _

end

/-! ## Frame boundaries -/

section
variable {value text rest : Text} {c : Char}

theorem indexOf_cons {pattern : Text} : indexOf pattern (c :: rest) =
    if pattern.isPrefixOf (c :: rest) then some 0 else (indexOf pattern rest).map (· + 1) := rfl

theorem indexOf_blank_cons (h : ¬(c = '\n' ∧ rest.head? = some '\n')) :
    indexOf ['\n', '\n'] (c :: rest) = (indexOf ['\n', '\n'] rest).map (· + 1) := by
  rw [indexOf_cons, if_neg]
  intro hp
  cases rest with
  | nil => simp at hp
  | cons d rest =>
    simp only [isPrefixOf_cons_cons, Bool.and_eq_true, beq_iff_eq, isPrefixOf_nil_left, and_true] at hp
    exact h ⟨hp.1.symm, congrArg some hp.2.symm⟩

theorem indexOf_blank_start : indexOf ['\n', '\n'] ('\n' :: '\n' :: rest) = some 0 := by
  rw [indexOf_cons, if_pos (by simp)]

theorem indexOf_blank_none (h : indexOf ['\n', '\n'] (c :: rest) = none) :
    ¬(c = '\n' ∧ rest.head? = some '\n') ∧ indexOf ['\n', '\n'] rest = none := by
  have hnot : ¬(c = '\n' ∧ rest.head? = some '\n') := by
    rintro ⟨rfl, hd⟩
    cases rest with
    | nil => cases hd
    | cons d rest =>
      cases hd
      rw [indexOf_blank_start] at h
      cases h
  rw [indexOf_blank_cons hnot, Option.map_eq_none_iff] at h
  exact ⟨hnot, h⟩

theorem indexOf_blank_earlier (hp : text <+: value) (h : indexOf ['\n', '\n'] value = none) :
    indexOf ['\n', '\n'] text = none := by
  induction text generalizing value with
  | nil => rfl
  | cons c text ih =>
    obtain ⟨value, rfl⟩ : ∃ rest, value = c :: rest := by
      obtain ⟨rest, rfl⟩ := hp
      exact ⟨text ++ rest, rfl⟩
    have hp := (cons_prefix_cons.mp hp).2
    obtain ⟨hnot, hnone⟩ := indexOf_blank_none h
    rw [indexOf_blank_cons, ih hp hnone]
    · rfl
    rintro ⟨hc, hd⟩
    cases text with
    | nil => cases hd
    | cons d text =>
      obtain ⟨rest, rfl⟩ := hp
      exact hnot ⟨hc, hd⟩

theorem indexOf_blank_append (h : indexOf ['\n', '\n'] (text ++ ['\n']) = none) :
    indexOf ['\n', '\n'] (text ++ '\n' :: '\n' :: rest) = some text.length := by
  induction text with
  | nil => exact indexOf_blank_start
  | cons c text ih =>
    obtain ⟨hnot, hnone⟩ := indexOf_blank_none h
    rw [cons_append, indexOf_blank_cons, ih hnone]
    · rfl
    rintro ⟨hc, hd⟩
    cases text with
    | nil => exact hnot ⟨hc, rfl⟩
    | cons d text => exact hnot ⟨hc, hd⟩

theorem indexOf_return_append (h : '\r' ∉ text) :
    indexOf ['\r', '\n', '\r', '\n'] (text ++ rest) =
      (indexOf ['\r', '\n', '\r', '\n'] rest).map (· + text.length) := by
  induction text with
  | nil =>
    rw [nil_append]
    cases indexOf ['\r', '\n', '\r', '\n'] rest <;> rfl
  | cons c text ih =>
    rw [mem_cons, not_or] at h
    rw [cons_append, indexOf_cons, if_neg, ih h.2, Option.map_map]
    · rfl
    · intro hp
      rw [isPrefixOf_cons_cons, Bool.and_eq_true, beq_iff_eq] at hp
      exact h.1 hp.1

theorem indexOf_return_none (h : '\r' ∉ text) : indexOf ['\r', '\n', '\r', '\n'] text = none := by
  have happend := @indexOf_return_append text [] h
  rw [append_nil] at happend
  rw [happend]
  rfl

structure OneFrame (text : Text) : Prop where
  lines : indexOf ['\n', '\n'] (text ++ ['\n']) = none
  returns : '\r' ∉ text

theorem OneFrame.boundary (h : OneFrame text) : eventBoundary (text ++ '\n' :: '\n' :: rest) = some (text.length, 2) := by
  have hreturn : '\r' ∉ text ++ ['\n', '\n'] := by
    rw [mem_append, not_or]
    exact ⟨h.returns, by decide⟩
  have hcrlf := @indexOf_return_append (text ++ ['\n', '\n']) rest hreturn
  rw [append_assoc] at hcrlf
  unfold eventBoundary
  rw [indexOf_blank_append h.lines, show text ++ '\n' :: '\n' :: rest = text ++ (['\n', '\n'] ++ rest) from rfl, hcrlf]
  cases indexOf ['\r', '\n', '\r', '\n'] rest with
  | none => rfl
  | some crlf =>
    simp only [Option.map_some]
    rw [if_neg]
    rw [length_append]
    omega

theorem OneFrame.unfinished (h : OneFrame value) (hp : text <+: value ++ ['\n']) : eventBoundary text = none := by
  unfold eventBoundary
  rw [indexOf_blank_earlier hp h.lines, indexOf_return_none]
  intro hm
  rcases mem_append.mp (hp.subset hm) with hm | hm
  · exact h.returns hm
  · exact absurd hm (by decide)

end

/-! ## Lines and fields -/

section
variable {line rest : Text} {lines : List Text}

theorem splitLines_line (h : '\n' ∉ line) (hr : '\r' ∉ line) : splitLines line = [line] := by
  induction line with
  | nil => rfl
  | cons c line ih =>
    rw [mem_cons, not_or] at h hr
    have htail := ih h.2 hr.2
    rw [splitLines, htail]
    · exact fun hc => h.1 hc.symm
    · exact fun _ hc => absurd hc.symm hr.1

theorem splitLines_append (h : '\n' ∉ line) (hr : '\r' ∉ line) :
    splitLines (line ++ '\n' :: rest) = line :: splitLines rest := by
  induction line with
  | nil => rw [nil_append, splitLines]
  | cons c line ih =>
    rw [mem_cons, not_or] at h hr
    have htail := ih h.2 hr.2
    rw [cons_append, splitLines, htail]
    · exact fun hc => h.1 hc.symm
    · exact fun _ hc => absurd hc.symm hr.1

theorem splitLines_end (h : '\n' ∉ line) (hr : '\r' ∉ line) : splitLines (line ++ ['\n']) = [line, []] :=
  splitLines_append h hr

variable {fields : FrameFields} {value : Text}

theorem readLine_id : readLine fields ("id: ".toList ++ value) = { fields with id := value } := rfl

theorem readLine_event : readLine fields ("event: ".toList ++ value) = { fields with eventName := value } := rfl

theorem readLine_other (h : ¬ "data".toList <+: line) : (readLine fields line).data = fields.data := by
  unfold readLine
  split
  · rfl
  simp only
  split
  · rfl
  split
  · rfl
  split
  · rename_i hname
    exact absurd (hname ▸ List.takeWhile_prefix _) h
  · rfl

end

/-! ## The frame of an event -/

def idLine (event : AgentEvent) : Text := "id: ".toList ++ Nat.toDigits 10 event.sequence
def eventLine (event : AgentEvent) : Text := "event: ".toList ++ event.kind.name.toList
def dataLine (event : AgentEvent) : Text := "data: ".toList ++ event.data.serialize

def frameHead (event : AgentEvent) : Text := idLine event ++ '\n' :: (eventLine event ++ '\n' :: "data".toList)

def frameBody (event : AgentEvent) : Text := idLine event ++ '\n' :: (eventLine event ++ '\n' :: dataLine event)

def pieceBody : Option AgentEvent → Text
  | none => ": keepalive".toList
  | some event => frameBody event

def OneLine (event : AgentEvent) : Prop := '\n' ∉ event.data.serialize ∧ '\r' ∉ event.data.serialize

section
variable {event : AgentEvent} {piece : Option AgentEvent} {c : Char}

theorem frame_eq : frame event = frameBody event ++ ['\n', '\n'] := by
  unfold frame frameBody idLine eventLine dataLine
  have hn : "\nevent: ".toList = '\n' :: "event: ".toList := rfl
  have hd : "\ndata: ".toList = '\n' :: "data: ".toList := rfl
  rw [hn, hd]
  simp only [append_assoc, cons_append]
  rfl

theorem pieceText_eq : pieceText piece = pieceBody piece ++ ['\n', '\n'] := by
  cases piece with
  | none => rfl
  | some event => exact frame_eq

theorem frameBody_eq : frameBody event = frameHead event ++ ':' :: ' ' :: event.data.serialize := by
  unfold frameBody frameHead dataLine
  have hd : "data: ".toList = "data".toList ++ [':', ' '] := rfl
  rw [hd]
  simp only [append_assoc, cons_append, nil_append]

theorem digit_ne (hc : c ∈ Nat.toDigits 10 event.sequence) : c ≠ '\n' ∧ c ≠ '\r' := by
  have hd := Nat.isDigit_of_mem_toDigits (by decide) (by decide) hc
  constructor
  · rintro rfl
    cases hd
  · rintro rfl
    cases hd

theorem idLine_line : '\n' ∉ idLine event ∧ '\r' ∉ idLine event := by
  unfold idLine
  rw [mem_append, not_or, mem_append, not_or]
  exact ⟨⟨by decide, fun hm => (digit_ne hm).1 rfl⟩, by decide, fun hm => (digit_ne hm).2 rfl⟩

theorem eventLine_line : '\n' ∉ eventLine event ∧ '\r' ∉ eventLine event := by
  unfold eventLine
  cases event.kind <;> decide

theorem dataLine_line (h : OneLine event) : '\n' ∉ dataLine event ∧ '\r' ∉ dataLine event := by
  unfold dataLine
  rw [mem_append, not_or, mem_append, not_or]
  exact ⟨⟨by decide, h.1⟩, by decide, h.2⟩

theorem indexOf_blank_line {line rest : Text} (h : '\n' ∉ line) (hne : rest.head? ≠ some '\n')
    (hnone : indexOf ['\n', '\n'] rest = none) : indexOf ['\n', '\n'] (line ++ '\n' :: rest) = none := by
  induction line with
  | nil =>
    rw [nil_append, indexOf_blank_cons fun hc => hne hc.2, hnone]
    rfl
  | cons c line ih =>
    rw [mem_cons, not_or] at h
    rw [cons_append, indexOf_blank_cons fun hc => h.1 hc.1.symm, ih h.2]
    rfl

theorem oneFrame_body (h : ∀ event ∈ piece, OneLine event) : OneFrame (pieceBody piece) := by
  cases piece with
  | none => exact ⟨by decide, by decide⟩
  | some event =>
    have hline := h event rfl
    constructor
    · show indexOf ['\n', '\n'] (frameBody event ++ ['\n']) = none
      unfold frameBody
      simp only [append_assoc, cons_append]
      have hevent : (eventLine event ++ '\n' :: (dataLine event ++ ['\n'])).head? ≠ some '\n' := by
        rw [show (eventLine event ++ '\n' :: (dataLine event ++ ['\n'])).head? = some 'e' from rfl]
        decide
      have hdata : (dataLine event ++ ['\n']).head? ≠ some '\n' := by
        rw [show (dataLine event ++ ['\n']).head? = some 'd' from rfl]
        decide
      have hlast : indexOf ['\n', '\n'] (dataLine event ++ ['\n']) = none :=
        indexOf_blank_line (dataLine_line hline).1 (by decide) rfl
      exact indexOf_blank_line idLine_line.1 hevent (indexOf_blank_line eventLine_line.1 hdata hlast)
    · show '\r' ∉ frameBody event
      unfold frameBody
      simp only [mem_append, mem_cons, not_or]
      exact ⟨idLine_line.2, by decide, eventLine_line.2, by decide, (dataLine_line hline).2⟩

theorem readFields_line {line : Text} (h : '\n' ∉ line) (hr : '\r' ∉ line) (hmark : withoutMark line = line) :
    readFields line = readLine ⟨[], [], []⟩ line := by
  unfold readFields
  rw [hmark, splitLines_line h hr]
  rfl

theorem readFields_idLine {rest : Text} : readFields (idLine event ++ '\n' :: rest) =
    (splitLines rest).foldl readLine ⟨Nat.toDigits 10 event.sequence, [], []⟩ := by
  unfold readFields
  have hmark : withoutMark (idLine event ++ '\n' :: rest) = idLine event ++ '\n' :: rest := rfl
  rw [hmark, splitLines_append idLine_line.1 idLine_line.2, foldl_cons]
  unfold idLine
  rw [readLine_id]

theorem readFields_head {rest : Text} :
    readFields (idLine event ++ '\n' :: (eventLine event ++ '\n' :: rest)) =
      (splitLines rest).foldl readLine ⟨Nat.toDigits 10 event.sequence, event.kind.name.toList, []⟩ := by
  rw [readFields_idLine, splitLines_append eventLine_line.1 eventLine_line.2, foldl_cons]
  unfold eventLine
  rw [readLine_event]

end

/-! ## What is left of a frame -/

section
variable {event : AgentEvent} {text x y : Text}

theorem prefix_line_cases {line tail : Text} (h : text <+: line ++ '\n' :: tail) :
    text <+: line ∨ ∃ rest, text = line ++ '\n' :: rest ∧ rest <+: tail := by
  rcases Nat.lt_or_ge line.length text.length with hlt | hge
  · obtain ⟨rest, rfl⟩ := prefix_of_prefix_length_le (prefix_append line _) h (Nat.le_of_lt hlt)
    have hp := (prefix_append_right_inj line).mp h
    rcases prefix_cons_iff.mp hp with rfl | ⟨rest, rfl, hrest⟩
    · rw [append_nil] at hlt
      omega
    · exact .inr ⟨rest, rfl, hrest⟩
  · exact .inl (prefix_of_prefix_length_le h (prefix_append line _) hge)

theorem not_mem_cut {c : Char} (hp : text <+: x) (h : c ∉ x) : c ∉ text := fun hm => h (hp.subset hm)

theorem not_data {c : Char} (hp : text <+: c :: x) (hc : c ≠ 'd') : ¬ "data".toList <+: text := by
  intro h
  have hd : 'd' = c := (cons_prefix_cons.mp (h.trans hp)).1
  exact hc hd.symm

theorem readFields_before (h : text <+: frameHead event) (hlt : text.length < (frameHead event).length) :
    (readFields text).data = [] := by
  unfold frameHead at h hlt
  rcases prefix_line_cases h with hid | ⟨rest, rfl, hrest⟩
  · have hmark : withoutMark text = text := by
      rcases prefix_cons_iff.mp hid with rfl | ⟨rest, rfl, _⟩
      · rfl
      · rfl
    rw [readFields_line (not_mem_cut hid idLine_line.1) (not_mem_cut hid idLine_line.2) hmark,
      readLine_other (not_data hid (by decide))]
  · rw [readFields_idLine]
    rcases prefix_line_cases hrest with hname | ⟨rest, rfl, hdata⟩
    · rw [splitLines_line (not_mem_cut hname eventLine_line.1) (not_mem_cut hname eventLine_line.2)]
      exact readLine_other (not_data hname (by decide))
    have hn : '\n' ∉ rest := not_mem_cut hdata (by decide)
    have hr : '\r' ∉ rest := not_mem_cut hdata (by decide)
    rw [splitLines_append eventLine_line.1 eventLine_line.2, splitLines_line hn hr]
    have hshort : ¬ "data".toList <+: rest := by
      intro hwhole
      have hle := hwhole.length_le
      simp only [length_append, length_cons] at hlt
      omega
    show (readLine (readLine _ (eventLine event)) rest).data = []
    have hother : ¬ "data".toList <+: eventLine event :=
      @not_data _ ("vent: ".toList ++ event.kind.name.toList) 'e' prefix_rfl (by decide)
    rw [readLine_other hshort, readLine_other hother]

theorem readFields_inside (ht : '\n' ∉ text) (hr : '\r' ∉ text) :
    readFields (frameHead event ++ ':' :: ' ' :: text) =
      ⟨Nat.toDigits 10 event.sequence, event.kind.name.toList, [text]⟩ := by
  have hline : frameHead event ++ ':' :: ' ' :: text =
      idLine event ++ '\n' :: (eventLine event ++ '\n' :: ("data: ".toList ++ text)) := by
    unfold frameHead
    have hd : "data: ".toList = "data".toList ++ [':', ' '] := rfl
    rw [hd]
    simp only [append_assoc, cons_append, nil_append]
  have hn : '\n' ∉ "data: ".toList ++ text := by
    rw [mem_append, not_or]
    exact ⟨by decide, ht⟩
  have hret : '\r' ∉ "data: ".toList ++ text := by
    rw [mem_append, not_or]
    exact ⟨by decide, hr⟩
  rw [hline, readFields_head, splitLines_line hn hret]
  rfl

theorem readFields_name (hs : text = [] ∨ text = [':']) : readFields (frameHead event ++ text) =
    ⟨Nat.toDigits 10 event.sequence, event.kind.name.toList, [[]]⟩ := by
  have hline : frameHead event ++ text = idLine event ++ '\n' :: (eventLine event ++ '\n' :: ("data".toList ++ text)) := by
    unfold frameHead
    simp only [append_assoc, cons_append]
  rw [hline, readFields_head]
  rcases hs with rfl | rfl
  · rw [splitLines_line (by decide) (by decide)]
    rfl
  · rw [splitLines_line (by decide) (by decide)]
    rfl

theorem readFields_body (h : OneLine event) (hs : text = [] ∨ text = ['\n']) : readFields (frameBody event ++ text) =
    ⟨Nat.toDigits 10 event.sequence, event.kind.name.toList, [event.data.serialize]⟩ := by
  rcases hs with rfl | rfl
  · rw [append_nil, frameBody_eq, readFields_inside h.1 h.2]
  have hline : frameBody event ++ ['\n'] =
      idLine event ++ '\n' :: (eventLine event ++ '\n' :: (dataLine event ++ ['\n'])) := by
    unfold frameBody
    simp only [append_assoc, cons_append]
  rw [hline, readFields_head, splitLines_end (dataLine_line h).1 (dataLine_line h).2]
  rfl

end

/-! ## Frames the client reads -/

def envelopeOf (event : AgentEvent) : Option HostedAgentEventEnvelope :=
  (parseRunEvent event.kind.name.toList event.data).map (⟨event.sequence, ·⟩)

section
variable {parseJson : Text → Option Json} {event : AgentEvent} {text rest : Text}

theorem kind_named : event.kind.name.toList ≠ [] := by
  cases event.kind <;> decide

theorem isDigits_sequence : isDigits (Nat.toDigits 10 event.sequence) = true := by
  unfold isDigits
  rw [Bool.and_eq_true, Bool.not_eq_true', isEmpty_eq_false_iff, all_eq_true]
  exact ⟨Nat.toDigits_ne_nil, fun c hc => Nat.isDigit_of_mem_toDigits (by decide) (by decide) hc⟩

theorem parseFrame_fields {data : Text} (h : readFields text =
    ⟨Nat.toDigits 10 event.sequence, event.kind.name.toList, [data]⟩) (hsize : Json.utf8Bytes data ≤ maxEventBytes) :
    parseFrame parseJson text =
      match (parseJson data).bind (parseRunEvent event.kind.name.toList) with
      | some parsed => .ok (some ⟨event.sequence, parsed⟩)
      | none => .error .invalidResponse := by
  unfold parseFrame
  simp only [h]
  rw [if_neg (by simp), isDigits_sequence, Bool.not_true, if_neg Bool.false_ne_true, if_neg kind_named]
  have hjoin : List.intercalate ['\n'] [data] = data := append_nil data
  rewrite [hjoin, if_neg (Nat.not_lt.mpr hsize), Nat.ofDigitChars_toDigits (by decide) (by decide)]
  cases (parseJson data).bind (parseRunEvent event.kind.name.toList) <;> rfl

theorem parseFrame_refused {data : Text} (h : readFields text =
    ⟨Nat.toDigits 10 event.sequence, event.kind.name.toList, [data]⟩) (hnone : parseJson data = none) :
    parseFrame parseJson text = .error .invalidResponse := by
  unfold parseFrame
  simp only [h]
  rw [if_neg (by simp), isDigits_sequence, Bool.not_true, if_neg Bool.false_ne_true, if_neg kind_named]
  have hjoin : List.intercalate ['\n'] [data] = data := append_nil data
  rw [hjoin, hnone]
  split <;> rfl

theorem parseFrame_nothing (h : (readFields text).data = []) : parseFrame parseJson text = .ok none := by
  unfold parseFrame
  simp only
  rw [if_pos h]

theorem parseFrame_keepAlive (hp : text <+: pieceBody none ++ ['\n']) : parseFrame parseJson text = .ok none := by
  refine parseFrame_nothing ?_
  have hline : '\n' ∉ pieceBody none ∧ '\r' ∉ pieceBody none := by decide
  rcases prefix_line_cases hp with hbody | ⟨rest, rfl, hrest⟩
  · have hmark : withoutMark text = text := by
      rcases prefix_cons_iff.mp hbody with rfl | ⟨rest, rfl, _⟩
      · rfl
      · rfl
    rw [readFields_line (not_mem_cut hbody hline.1) (not_mem_cut hbody hline.2) hmark,
      readLine_other (not_data hbody (by decide))]
  · rw [prefix_nil.mp hrest]
    unfold readFields
    have hmark : withoutMark (pieceBody none ++ ['\n']) = pieceBody none ++ ['\n'] := rfl
    rw [hmark, splitLines_end hline.1 hline.2]
    rfl

end

/-! ## Logs -/

/-- What the journal of a finished run is: numbered from one, with one terminal event, the last, and events that are
small enough, of the kinds and with the data the client knows, in compact JSON. -/
structure HostedLog (log : List AgentEvent) : Prop where
  numbered : log.map (·.sequence) = List.range' 1 log.length
  terminal : ∀ i event, log[i]? = some event → (event.kind.isTerminal = true ↔ i + 1 = log.length)
  fits : ∀ event ∈ log, Json.utf8Bytes event.data.serialize ≤ Agent.maxEventBytes
  known : ∀ event ∈ log, (parseRunEvent event.kind.name.toList event.data).isSome = true
  oneLine : ∀ event ∈ log, OneLine event

/-- `JSON.parse` undoes the serialization of the events, and throws on one that is cut, also behind the character
that stands for a cut one. -/
structure ParsesJson (parseJson : Text → Option Json) (log : List AgentEvent) : Prop where
  whole : ∀ event ∈ log, parseJson event.data.serialize = some event.data
  cut : ∀ event ∈ log, ∀ text, text <+: event.data.serialize → text.length < event.data.serialize.length →
    parseJson text = none ∧ parseJson (text ++ ['\uFFFD']) = none

structure Caught (log : List AgentEvent) (start : Nat) (client : Client) (cursor : Nat) : Prop where
  after : client.after = cursor
  calls : client.calls.map some = ((log.take cursor).drop start).map envelopeOf
  ordered : start ≤ cursor ∧ cursor ≤ log.length

section
variable {parseJson : Text → Option Json} {log : List AgentEvent} {event : AgentEvent} {start cursor : Nat}
  {client : Client}

theorem parseRunEvent_terminal {kind : EventKind} {value : Json} {parsed : HostedAgentRunEvent}
    (h : parseRunEvent kind.name.toList value = some parsed) : parsed.isTerminal = kind.isTerminal := by
  unfold parseRunEvent at h
  split at h
  · cases h
  cases kind with
  | runStarted =>
    simp [EventKind.name, Option.bind_eq_some_iff] at h
    obtain ⟨_, _, _, _, _, _, _, rfl⟩ := h
    rfl
  | assistantDelta =>
    simp [EventKind.name, Option.bind_eq_some_iff] at h
    obtain ⟨_, _, rfl⟩ := h
    rfl
  | toolCall =>
    simp [EventKind.name, Option.bind_eq_some_iff] at h
    obtain ⟨_, _, _, _, _, _, _, _, _, _, _, _, rfl⟩ := h
    rfl
  | toolResultAccepted =>
    simp [EventKind.name, Option.bind_eq_some_iff] at h
    obtain ⟨_, _, _, _, rfl⟩ := h
    rfl
  | runCompleted =>
    simp [EventKind.name, Option.bind_eq_some_iff] at h
    obtain ⟨_, _, _, _, _, rfl⟩ := h
    rfl
  | runFailed =>
    simp [EventKind.name, Option.bind_eq_some_iff] at h
    obtain ⟨_, _, _, rfl⟩ := h
    rfl
  | runCancelled =>
    simp [EventKind.name, Option.bind_eq_some_iff] at h
    obtain ⟨_, rfl⟩ := h
    rfl

theorem HostedLog.data_pos (hlog : HostedLog log) (hm : event ∈ log) : 0 < event.data.serialize.length := by
  have hknown := hlog.known event hm
  cases hd : event.data with
  | object fields =>
    unfold Json.serialize
    exact Nat.succ_pos _
  | null => rw [hd] at hknown; cases hknown
  | bool => rw [hd] at hknown; cases hknown
  | number => rw [hd] at hknown; cases hknown
  | string => rw [hd] at hknown; cases hknown
  | array => rw [hd] at hknown; cases hknown

theorem parseFrame_event (hj : ParsesJson parseJson log) (hlog : HostedLog log) (hm : event ∈ log) {text : Text}
    (hs : text = [] ∨ text = ['\n']) : ∃ envelope, envelopeOf event = some envelope ∧
      parseFrame parseJson (frameBody event ++ text) = .ok (some envelope) := by
  obtain ⟨parsed, hp⟩ := Option.isSome_iff_exists.mp (hlog.known event hm)
  refine ⟨⟨event.sequence, parsed⟩, ?_, ?_⟩
  · unfold envelopeOf
    rw [hp]
    rfl
  · rw [parseFrame_fields (readFields_body (hlog.oneLine event hm) hs) (hlog.fits event hm), hj.whole event hm,
      Option.bind_some, hp]

theorem HostedLog.sequence (hlog : HostedLog log) {i : Nat} (hi : log[i]? = some event) : event.sequence = i + 1 := by
  have hmap : (log.map (·.sequence))[i]? = some event.sequence := by
    rw [getElem?_map, hi]
    rfl
  have hlt : i < log.length := (List.getElem?_eq_some_iff.mp hi).1
  rw [hlog.numbered, getElem?_range' hlt, Option.some.injEq] at hmap
  omega

theorem HostedLog.behind (hlog : HostedLog log) : log.filter (cursor < ·.sequence) = log.drop cursor := by
  have hbefore : (log.take cursor).filter (cursor < ·.sequence) = [] := by
    refine filter_eq_nil_iff.mpr fun event hm => ?_
    obtain ⟨i, hi⟩ := getElem?_of_mem hm
    have hlt := (List.getElem?_eq_some_iff.mp hi).1
    rw [length_take] at hlt
    rw [getElem?_take, if_pos (by omega)] at hi
    rw [decide_eq_true_eq, hlog.sequence hi]
    omega
  have hafter : (log.drop cursor).filter (cursor < ·.sequence) = log.drop cursor := by
    refine filter_eq_self.mpr fun event hm => ?_
    obtain ⟨i, hi⟩ := getElem?_of_mem hm
    rw [getElem?_drop] at hi
    rw [decide_eq_true_eq, hlog.sequence hi]
    omega
  rw [← take_append_drop cursor log, filter_append, hbefore, hafter, nil_append,
    take_append_drop]

/-- `count` more events were handed on, and the reader returned if these were the last. -/
def Handed (log : List AgentEvent) (start cursor count : Nat) (left : Client → Prop) (outcome : Progress) : Prop :=
  ∃ read, Caught log start read (cursor + count) ∧
    ((outcome = .returned read ∧ cursor < log.length ∧ cursor + count = log.length) ∨
      (outcome = .reading read ∧ (cursor < log.length → cursor + count < log.length) ∧ left read))

theorem Handed.none {left : Client → Prop} (hc : Caught log start client cursor) (hleft : left client) :
    Handed log start cursor 0 left (.reading client) := ⟨client, hc, .inr ⟨rfl, fun hlt => hlt, hleft⟩⟩

theorem Handed.behind {first more : Nat} {left : Client → Prop} {outcome : Progress}
    (h : Handed log start (cursor + first) more left outcome)
    (hsome : cursor < log.length → cursor + first < log.length) :
    Handed log start cursor (first + more) left outcome := by
  obtain ⟨read, hread, hends⟩ := h
  rw [Nat.add_assoc] at hread hends
  refine ⟨read, hread, ?_⟩
  rcases hends with ⟨hreturned, hlt, hall⟩ | ⟨hreading, hmore, hleft⟩
  · exact .inl ⟨hreturned, by omega, hall⟩
  · exact .inr ⟨hreading, fun hlt => hmore (hsome hlt), hleft⟩

theorem Handed.mono {count : Nat} {left more : Client → Prop} {outcome : Progress}
    (h : Handed log start cursor count left outcome) (himp : ∀ read, left read → more read) :
    Handed log start cursor count more outcome := by
  obtain ⟨read, hread, hends | ⟨hreading, hsome, hleft⟩⟩ := h
  · exact ⟨read, hread, .inl hends⟩
  · exact ⟨read, hread, .inr ⟨hreading, hsome, himp read hleft⟩⟩

theorem Caught.accept (hc : Caught log start client cursor) (hlog : HostedLog log) (hi : log[cursor]? = some event)
    {envelope : HostedAgentEventEnvelope} (he : envelopeOf event = some envelope) :
    Handed log start cursor 1 (·.buffer = client.buffer) (accept client envelope) := by
  obtain ⟨parsed, hp, rfl⟩ := Option.map_eq_some_iff.mp he
  have hlt : cursor < log.length := (List.getElem?_eq_some_iff.mp hi).1
  refine ⟨{ client with after := event.sequence, calls := client.calls ++ [⟨event.sequence, parsed⟩] }, ?_, ?_⟩
  · refine ⟨hlog.sequence hi, ?_, Nat.le_succ_of_le hc.ordered.1, hlt⟩
    have htake : log.take (cursor + 1) = log.take cursor ++ [event] := by
      rw [take_add_one, hi]
      rfl
    have hlength : start ≤ (log.take cursor).length := by
      rw [length_take, Nat.min_eq_left hc.ordered.2]
      exact hc.ordered.1
    rw [map_append, hc.calls, htake, drop_append_of_le_length hlength, map_append]
    exact congrArg _ (congrArg (fun found => [found]) he.symm)
  · have hnew : ¬(client.after ≠ 0 ∧ event.sequence ≤ client.after) := by
      rw [hc.after, hlog.sequence hi]
      omega
    unfold Gateway.accept
    rw [if_neg hnew]
    simp only
    rw [parseRunEvent_terminal hp]
    by_cases hterminal : event.kind.isTerminal = true
    · rw [if_pos hterminal]
      exact .inl ⟨rfl, hlt, (hlog.terminal cursor event hi).mp hterminal⟩
    · rw [if_neg hterminal]
      refine .inr ⟨rfl, fun _ => ?_, trivial⟩
      have hlast : cursor + 1 ≠ log.length := fun h => hterminal ((hlog.terminal cursor event hi).mpr h)
      omega

end

/-! ## Whole frames -/

def arrived : List (Option AgentEvent) → Nat → List (Option AgentEvent)
  | [], _ => []
  | piece :: sent, bytes =>
    if Json.utf8Bytes (pieceText piece) ≤ bytes then piece :: arrived sent (bytes - Json.utf8Bytes (pieceText piece))
    else []

def awaited : List (Option AgentEvent) → Nat → List (Option AgentEvent) × Nat
  | [], bytes => ([], bytes)
  | piece :: sent, bytes =>
    if Json.utf8Bytes (pieceText piece) ≤ bytes then awaited sent (bytes - Json.utf8Bytes (pieceText piece))
    else (piece :: sent, bytes)

def events (sent : List (Option AgentEvent)) : List AgentEvent := sent.filterMap id

def held (sent : List (Option AgentEvent)) (bytes : Nat) : Text := decoded bytes (piecesText sent)

section
variable {parseJson : Text → Option Json} {log : List AgentEvent} {event : AgentEvent} {start cursor bytes fuel : Nat}
  {client : Client} {sent : List (Option AgentEvent)} {piece : Option AgentEvent}

theorem piecesText_cons : piecesText (piece :: sent) = pieceText piece ++ piecesText sent := flatMap_cons

theorem arrived_append_awaited : arrived sent bytes ++ (awaited sent bytes).1 = sent := by
  induction sent generalizing bytes with
  | nil => rfl
  | cons piece sent ih =>
    rw [arrived, awaited]
    split
    · rw [cons_append, ih]
    · rfl

theorem awaited_bytes : Json.utf8Bytes (piecesText (arrived sent bytes)) + (awaited sent bytes).2 = bytes := by
  induction sent generalizing bytes with
  | nil => exact Nat.zero_add bytes
  | cons piece sent ih =>
    rw [arrived, awaited]
    split
    · rename_i hle
      rw [piecesText_cons, Json.utf8Bytes_append, Nat.add_assoc, ih]
      omega
    · exact Nat.zero_add bytes

theorem awaited_events (hs : events sent = log.drop cursor) :
    events (awaited sent bytes).1 = log.drop (cursor + (events (arrived sent bytes)).length) := by
  rw [← @arrived_append_awaited bytes sent] at hs
  unfold events at hs ⊢
  rw [filterMap_append] at hs
  rw [← drop_drop, ← hs, drop_left]

theorem awaited_text {before : Text} : before ++ piecesText sent =
    (before ++ piecesText (arrived sent bytes)) ++ piecesText (awaited sent bytes).1 := by
  rw [append_assoc]
  unfold piecesText
  rw [← flatMap_append, arrived_append_awaited]

theorem awaited_position {before : Text} : Json.utf8Bytes before + bytes =
    Json.utf8Bytes (before ++ piecesText (arrived sent bytes)) + (awaited sent bytes).2 := by
  rw [Json.utf8Bytes_append, Nat.add_assoc, awaited_bytes]

theorem held_whole (h : Json.utf8Bytes (pieceText piece) ≤ bytes) : held (piece :: sent) bytes =
    pieceBody piece ++ '\n' :: '\n' :: held sent (bytes - Json.utf8Bytes (pieceText piece)) := by
  unfold held
  rw [piecesText_cons, decoded_append h, pieceText_eq, append_assoc]
  rfl

theorem held_first (h : bytes < Json.utf8Bytes (pieceText piece)) :
    held (piece :: sent) bytes = decoded bytes (pieceText piece) := by
  unfold held
  rw [piecesText_cons, decoded_append_lt h]

theorem held_unfinished (h : bytes < Json.utf8Bytes (pieceText piece)) :
    held (piece :: sent) bytes <+: pieceBody piece ++ ['\n'] := by
  rw [held_first h]
  have hp : decoded bytes (pieceText piece) <+: pieceText piece := decoded_prefix
  have hlt := decoded_lt h
  rw [pieceText_eq] at hp hlt ⊢
  have hsplit : pieceBody piece ++ ['\n', '\n'] = pieceBody piece ++ ['\n'] ++ ['\n'] := by
    rw [append_assoc]
    rfl
  rw [hsplit] at hp hlt ⊢
  rcases prefix_concat_iff.mp hp with heq | hp
  · rw [heq] at hlt
    omega
  · exact hp

theorem HostedLog.lines (hlog : HostedLog log) (hs : events (piece :: sent) = log.drop cursor) :
    ∀ event ∈ piece, OneLine event := by
  intro event hm
  cases hm
  refine hlog.oneLine event (mem_of_mem_drop (i := cursor) ?_)
  rw [← hs]
  exact mem_cons_self

theorem next_event (hs : events (some event :: sent) = log.drop cursor) : log[cursor]? = some event := by
  have hhead := congrArg (·[0]?) hs
  simp only [getElem?_drop, Nat.add_zero] at hhead
  exact hhead.symm

theorem drain_pieces (hlog : HostedLog log) (hj : ParsesJson parseJson log) (hc : Caught log start client cursor)
    (hs : events sent = log.drop cursor) (hb : client.buffer = held sent bytes) (hf : client.buffer.length ≤ fuel) :
    Handed log start cursor (events (arrived sent bytes)).length
      (·.buffer = held (awaited sent bytes).1 (awaited sent bytes).2) (drain parseJson fuel client) := by
  induction sent generalizing client cursor bytes fuel with
  | nil =>
    have hempty : client.buffer = [] := hb
    have hdrain : drain parseJson fuel client = .reading client := by
      cases fuel with
      | zero => rfl
      | succ fuel =>
        rw [drain, hempty]
        rfl
    rw [hdrain]
    exact .none hc hb
  | cons piece sent ih =>
    have hframe : OneFrame (pieceBody piece) := oneFrame_body (hlog.lines hs)
    rw [arrived, awaited]
    by_cases hle : Json.utf8Bytes (pieceText piece) ≤ bytes
    · rw [if_pos hle, if_pos hle]
      have hbuffer := hb.trans (held_whole hle)
      have hlength := congrArg List.length hbuffer
      simp only [length_append, length_cons] at hlength
      obtain ⟨fuel, rfl⟩ : ∃ less, fuel = less + 1 := Nat.exists_eq_succ_of_ne_zero (by omega)
      have htake : client.buffer.take (pieceBody piece).length = pieceBody piece := by
        rw [hbuffer, take_left]
      have hdrop : client.buffer.drop ((pieceBody piece).length + 2) =
          held sent (bytes - Json.utf8Bytes (pieceText piece)) := by
        rw [hbuffer, ← drop_drop, drop_left]
        rfl
      have hboundary : eventBoundary client.buffer = some ((pieceBody piece).length, 2) := by
        rw [hbuffer]
        exact hframe.boundary
      rw [drain, hboundary]
      simp only
      rw [htake, hdrop]
      have hrest : (held sent (bytes - Json.utf8Bytes (pieceText piece))).length ≤ fuel := by omega
      have hkept : Caught log start
          { client with buffer := held sent (bytes - Json.utf8Bytes (pieceText piece)) } cursor :=
        ⟨hc.after, hc.calls, hc.ordered⟩
      cases piece with
      | none =>
        rw [readFrame, parseFrame_keepAlive (prefix_append _ _)]
        exact ih hkept hs rfl hrest
      | some event =>
        have hi := next_event hs
        have htail : events sent = log.drop (cursor + 1) := by
          have hdrops := congrArg (·.drop 1) hs
          simp only [drop_drop] at hdrops
          exact hdrops
        obtain ⟨envelope, he, hparse⟩ := parseFrame_event hj hlog (mem_of_getElem? hi) (.inl rfl)
        rw [append_nil] at hparse
        have hcount : (events (some event :: arrived sent (bytes - Json.utf8Bytes (pieceText (some event))))).length =
            1 + (events (arrived sent (bytes - Json.utf8Bytes (pieceText (some event))))).length := Nat.add_comm _ 1
        rw [readFrame, show pieceBody (some event) = frameBody event from rfl, hparse, hcount]
        simp only
        obtain ⟨handed, hh, ⟨haccept, hlt, hlast⟩ | ⟨haccept, hsome, hbuf⟩⟩ := hkept.accept hlog hi he
        · -- Nothing follows the terminal event.
          have hnone : events (arrived sent (bytes - Json.utf8Bytes (pieceText (some event)))) = [] := by
            have hsub := @arrived_append_awaited (bytes - Json.utf8Bytes (pieceText (some event))) sent
            have hempty : events sent = [] := by
              rw [htail, hlast, drop_length]
            rw [← hsub] at hempty
            unfold events at hempty ⊢
            rw [filterMap_append] at hempty
            exact (append_eq_nil_iff.mp hempty).1
          rw [haccept, hnone]
          exact ⟨handed, hh, .inl ⟨rfl, hlt, hlast⟩⟩
        · rw [haccept]
          exact (ih hh htail hbuf (by rewrite [hbuf]; exact hrest)).behind hsome
    · rw [if_neg hle, if_neg hle]
      have hdrain : drain parseJson fuel client = .reading client := by
        cases fuel with
        | zero => rfl
        | succ fuel => rw [drain, hb, hframe.unfinished (held_unfinished (Nat.not_le.mp hle))]
      rw [hdrain]
      exact .none hc hb

end

/-! ## Chunks -/

def Bounded (sent : List (Option AgentEvent)) (bytes : Nat) : Prop :=
  arrived sent bytes = [] → Json.utf8Bytes (held sent bytes) ≤ maxEventBytes

def InsideData (event : AgentEvent) (text : Text) : Prop :=
  (frameHead event).length ≤ text.length ∧ text.length < (frameBody event).length

def EndsWell (sent : List (Option AgentEvent)) (bytes : Nat) : Prop :=
  Json.utf8Bytes (held sent bytes) ≤ maxEventBytes ∧ ∀ event ∈ sent.head?.join, ¬InsideData event (held sent bytes)

/-- The chunks of a connection and its end are such that the client can read what they hold. -/
def Intact (sent : List (Option AgentEvent)) (bytes : Nat) : List Nat → Bool → Prop
  | [], clean => clean = true → EndsWell sent bytes
  | size :: sizes, clean =>
    Bounded sent (bytes + size) ∧ Intact (awaited sent (bytes + size)).1 (awaited sent (bytes + size)).2 sizes clean

def leftOver (sent : List (Option AgentEvent)) (bytes : Nat) : Option AgentEvent :=
  sent.head?.join.filter fun event => (frameBody event).length ≤ (held sent bytes).length

def gained (sent : List (Option AgentEvent)) (bytes : Nat) : List Nat → Bool → Nat
  | [], clean => if clean = true ∧ (leftOver sent bytes).isSome = true then 1 else 0
  | size :: sizes, clean =>
    (events (arrived sent (bytes + size))).length +
      gained (awaited sent (bytes + size)).1 (awaited sent (bytes + size)).2 sizes clean

section
variable {parseJson : Text → Option Json} {log : List AgentEvent} {event : AgentEvent}
  {start cursor bytes more : Nat} {client : Client} {sent : List (Option AgentEvent)} {text : Text}

theorem boundary_held (hlog : HostedLog log) (hs : events sent = log.drop cursor) :
    eventBoundary (held sent bytes) = none ↔ arrived sent bytes = [] := by
  cases sent with
  | nil =>
    have hempty : held [] bytes = [] := rfl
    rw [hempty]
    exact ⟨fun _ => rfl, fun _ => rfl⟩
  | cons piece sent =>
    have hframe : OneFrame (pieceBody piece) := oneFrame_body (hlog.lines hs)
    rw [arrived]
    by_cases hle : Json.utf8Bytes (pieceText piece) ≤ bytes
    · rw [if_pos hle]
      rw [held_whole hle, hframe.boundary]
      exact ⟨fun h => (by cases h), fun h => (by cases h)⟩
    · rw [if_neg hle]
      exact ⟨fun _ => rfl, fun _ => hframe.unfinished (held_unfinished (Nat.not_le.mp hle))⟩

theorem readText_rejected (hlog : HostedLog log) (hs : events sent = log.drop cursor)
    (hb : client.buffer ++ text = held sent bytes) (h : ¬Bounded sent bytes) :
    ∃ read, readText parseJson client text = .rejected read := by
  unfold Bounded at h
  rw [Classical.not_imp, Nat.not_le] at h
  unfold readText
  simp only
  rw [hb, if_pos ⟨h.2, (boundary_held hlog hs).mpr h.1⟩]
  exact ⟨_, rfl⟩

theorem readText_pieces (hlog : HostedLog log) (hj : ParsesJson parseJson log) (hc : Caught log start client cursor)
    (hs : events sent = log.drop cursor) (hb : client.buffer ++ text = held sent bytes) (h : Bounded sent bytes) :
    Handed log start cursor (events (arrived sent bytes)).length
      (·.buffer = held (awaited sent bytes).1 (awaited sent bytes).2) (readText parseJson client text) := by
  unfold readText
  simp only
  rw [if_neg]
  · exact drain_pieces hlog hj ⟨hc.after, hc.calls, hc.ordered⟩ hs hb (Nat.le_refl _)
  · rintro ⟨hlarge, hboundary⟩
    rw [hb] at hlarge hboundary
    exact absurd (h ((boundary_held hlog hs).mp hboundary)) (Nat.not_le.mpr hlarge)

theorem held_more {before : Text} (h : bytes ≤ more) :
    held sent bytes ++ (decoded (Json.utf8Bytes before + more) (before ++ piecesText sent)).drop
      (decoded (Json.utf8Bytes before + bytes) (before ++ piecesText sent)).length = held sent more := by
  rw [decoded_append (Nat.le_add_right _ _), decoded_append (Nat.le_add_right _ _), Nat.add_sub_cancel_left,
    Nat.add_sub_cancel_left, length_append, ← drop_drop, drop_left]
  exact prefix_iff_eq_append.mp (decoded_mono h)

theorem flushed_append {before : Text} : flushed (Json.utf8Bytes before + bytes) (before ++ text) = flushed bytes text := by
  unfold flushed
  rw [decoded_append (Nat.le_add_right _ _), Nat.add_sub_cancel_left, Json.utf8Bytes_append]
  simp only [Nat.add_lt_add_iff_left, ne_eq, append_right_inj]

theorem flushed_byte {c : Char} {rest : Text} (h : decoded bytes (text ++ c :: rest) = text) (hc : c.utf8Size = 1) :
    flushed bytes (text ++ c :: rest) = [] := by
  obtain ⟨_, hlt⟩ := decoded_next h
  unfold flushed
  rw [if_neg]
  rw [h]
  rintro ⟨_, hcut⟩
  omega

def Inside (sent : List (Option AgentEvent)) (bytes : Nat) : Prop :=
  ∀ piece ∈ sent.head?, bytes < Json.utf8Bytes (pieceText piece)

theorem awaited_inside : Inside (awaited sent bytes).1 (awaited sent bytes).2 := by
  induction sent generalizing bytes with
  | nil => exact fun _ hm => (by cases hm)
  | cons piece sent ih =>
    rw [awaited]
    split
    · exact ih
    rename_i hlt
    intro other hm
    cases hm
    exact Nat.not_le.mp hlt

theorem arrived_inside (h : Inside sent bytes) : arrived sent bytes = [] ∧ awaited sent bytes = (sent, bytes) := by
  cases sent with
  | nil => exact ⟨rfl, rfl⟩
  | cons piece sent =>
    have hlt := Nat.not_le.mpr (h piece rfl)
    rw [arrived, awaited, if_neg hlt, if_neg hlt]
    exact ⟨rfl, rfl⟩

theorem flushed_held {piece : Option AgentEvent} {c : Char} {rest : Text} (hc : c.utf8Size = 1)
    (hp : pieceText piece = held (piece :: sent) bytes ++ c :: rest) : flushed bytes (piecesText (piece :: sent)) = [] := by
  rw [piecesText_cons, hp, append_assoc, cons_append]
  refine flushed_byte ?_ hc
  have hsame : held (piece :: sent) bytes ++ c :: (rest ++ piecesText sent) = piecesText (piece :: sent) := by
    rw [piecesText_cons]
    conv_rhs => rw [hp]
    rw [append_assoc, cons_append]
  rw [hsame]
  rfl

theorem indexOf_blank_snoc {c : Char} (h : indexOf ['\n', '\n'] text = none) (hc : c ≠ '\n') :
    indexOf ['\n', '\n'] (text ++ [c]) = none := by
  induction text with
  | nil => rw [nil_append, indexOf_blank_cons fun hn => hc hn.1]; rfl
  | cons d text ih =>
    obtain ⟨hnot, hnone⟩ := indexOf_blank_none h
    rw [cons_append, indexOf_blank_cons, ih hnone]
    · rfl
    rintro ⟨hd, hhead⟩
    cases text with
    | nil => exact hc (Option.some.inj hhead)
    | cons e text => exact hnot ⟨hd, hhead⟩

theorem OneFrame.unfinished_cut {value : Text} (h : OneFrame value) (hp : text <+: value ++ ['\n']) :
    eventBoundary (text ++ ['\uFFFD']) = none := by
  unfold eventBoundary
  rw [indexOf_blank_snoc (indexOf_blank_earlier hp h.lines) (by decide), indexOf_return_none]
  rw [mem_append, not_or]
  refine ⟨fun hm => ?_, by decide⟩
  rcases mem_append.mp (hp.subset hm) with hm | hm
  · exact h.returns hm
  · exact absurd hm (by decide)

theorem flushed_cases : flushed bytes text = [] ∨ flushed bytes text = ['\uFFFD'] := by
  unfold flushed
  split
  · exact .inr rfl
  · exact .inl rfl

theorem parseFrame_inside (hj : ParsesJson parseJson log) (hlog : HostedLog log) (hm : event ∈ log)
    (hp : text <+: frameBody event ++ ['\n']) (hi : InsideData event text) {flush : Text}
    (hf : flush = [] ∨ flush = ['\uFFFD'] ∧ (frameHead event).length + 2 ≤ text.length) :
    parseFrame parseJson (text ++ flush) = .error .invalidResponse := by
  obtain ⟨hhead, hbody⟩ := hi
  rw [frameBody_eq] at hp hbody
  obtain ⟨rest, rfl⟩ : frameHead event <+: text :=
    prefix_of_prefix_length_le (by rw [append_assoc]; exact prefix_append _ _) hp hhead
  rw [append_assoc] at hp
  have hrest := (prefix_append_right_inj _).mp hp
  simp only [length_append, length_cons] at hbody hf
  have hempty : parseJson [] = none := (hj.cut event hm [] nil_prefix (hlog.data_pos hm)).1
  rcases prefix_cons_iff.mp hrest with rfl | ⟨after, rfl, hafter⟩
  · obtain rfl : flush = [] := by
      rcases hf with rfl | ⟨_, hlong⟩
      · rfl
      · simp only [length_nil] at hlong
        omega
    rw [append_nil]
    exact parseFrame_refused (readFields_name (.inl rfl)) hempty
  · rcases prefix_cons_iff.mp hafter with rfl | ⟨data, rfl, hdata⟩
    · obtain rfl : flush = [] := by
        rcases hf with rfl | ⟨_, hlong⟩
        · rfl
        · simp only [length_cons, length_nil] at hlong
          omega
      rw [append_nil]
      exact parseFrame_refused (readFields_name (.inr rfl)) hempty
    · simp only [length_cons] at hbody
      have hdata : data <+: event.data.serialize :=
        prefix_of_prefix_length_le hdata (prefix_append _ _) (by omega)
      have hone := hlog.oneLine event hm
      obtain ⟨hnone, hcut⟩ := hj.cut event hm data hdata (by omega)
      rw [append_assoc, cons_append, cons_append]
      rcases hf with rfl | ⟨rfl, _⟩
      · rw [append_nil]
        exact parseFrame_refused
          (readFields_inside (not_mem_cut hdata hone.1) (not_mem_cut hdata hone.2)) hnone
      refine parseFrame_refused (readFields_inside ?_ ?_) hcut
      · rw [mem_append, not_or]
        exact ⟨not_mem_cut hdata hone.1, by decide⟩
      · rw [mem_append, not_or]
        exact ⟨not_mem_cut hdata hone.2, by decide⟩

end

/-! ## Ends -/

theorem isDigit_size {c : Char} (h : c.isDigit = true) : c.utf8Size = 1 := by
  unfold Char.isDigit at h
  rw [Bool.and_eq_true, decide_eq_true_eq, decide_eq_true_eq] at h
  refine Char.utf8Size_eq_one_iff.mpr ?_
  exact Nat.le_trans h.2 (by decide)

section
variable {parseJson : Text → Option Json} {log : List AgentEvent} {event : AgentEvent}
  {start cursor bytes : Nat} {client : Client} {sent : List (Option AgentEvent)} {piece : Option AgentEvent}
  {text : Text}

theorem sizes_one {l : List Char} (h : (l.all fun c => c.utf8Size == 1) = true) : ∀ c ∈ l, c.utf8Size = 1 := by
  intro c hc
  exact beq_iff_eq.mp (all_eq_true.mp h c hc)

theorem frameHead_size {c : Char} (hm : c ∈ frameHead event ++ [':', ' ']) : c.utf8Size = 1 := by
  have hkind : ∀ c ∈ event.kind.name.toList, c.utf8Size = 1 := sizes_one (by cases event.kind <;> rfl)
  have hid : ∀ c ∈ "id: ".toList, c.utf8Size = 1 := sizes_one rfl
  have hevent : ∀ c ∈ "event: ".toList, c.utf8Size = 1 := sizes_one rfl
  have hdata : ∀ c ∈ "data".toList, c.utf8Size = 1 := sizes_one rfl
  have hmarks : ∀ c ∈ [':', ' '], c.utf8Size = 1 := sizes_one rfl
  unfold frameHead idLine eventLine at hm
  rcases mem_append.mp hm with hm | hm
  · rcases mem_append.mp hm with hm | hm
    · rcases mem_append.mp hm with hm | hm
      · exact hid c hm
      · exact isDigit_size (Nat.isDigit_of_mem_toDigits (by decide) (by decide) hm)
    rcases mem_cons.mp hm with rfl | hm
    · rfl
    rcases mem_append.mp hm with hm | hm
    · rcases mem_append.mp hm with hm | hm
      · exact hevent c hm
      · exact hkind c hm
    · rcases mem_cons.mp hm with rfl | hm
      · rfl
      · exact hdata c hm
  · exact hmarks c hm

theorem flushed_inside (hin : Inside (piece :: sent) bytes) :
    flushed bytes (piecesText (piece :: sent)) = [] ∨ flushed bytes (piecesText (piece :: sent)) = ['\uFFFD'] ∧
      ∃ event ∈ piece, (frameHead event).length + 2 ≤ (held (piece :: sent) bytes).length ∧
        (held (piece :: sent) bytes).length < (frameBody event).length := by
  have hlt := hin piece rfl
  obtain ⟨rest, hrest⟩ : held (piece :: sent) bytes <+: pieceText piece := by
    refine (held_unfinished hlt).trans ?_
    rw [pieceText_eq]
    exact (prefix_append_right_inj _).mpr ⟨['\n'], rfl⟩
  cases rest with
  | nil =>
    have hwhole := decoded_lt hlt
    rw [append_nil] at hrest
    rw [← held_first hlt, hrest] at hwhole
    omega
  | cons c rest =>
    cases piece with
    | none =>
      have hsize : ∀ c ∈ pieceText none, c.utf8Size = 1 := sizes_one rfl
      have hm : c ∈ pieceText none := by
        rw [← hrest]
        exact mem_append_right _ mem_cons_self
      exact .inl (flushed_held (hsize c hm) hrest.symm)
    | some event =>
      have hc : (pieceText (some event))[(held (some event :: sent) bytes).length]? = some c := by
        rw [← hrest, getElem?_append_right (Nat.le_refl _), Nat.sub_self]
        rfl
      rw [pieceText_eq] at hc
      change (frameBody event ++ ['\n', '\n'])[_]? = _ at hc
      by_cases hbody : (held (some event :: sent) bytes).length < (frameBody event).length
      · rw [getElem?_append_left hbody] at hc
        by_cases hhead : (frameHead event).length + 2 ≤ (held (some event :: sent) bytes).length
        · rcases @flushed_cases bytes (piecesText (some event :: sent)) with hf | hf
          · exact .inl hf
          · exact .inr ⟨hf, event, rfl, hhead, hbody⟩
        have hsplit : frameBody event = frameHead event ++ [':', ' '] ++ event.data.serialize := by
          rw [frameBody_eq, append_assoc]
          rfl
        rw [hsplit, getElem?_append_left (by rw [length_append]; exact Nat.not_le.mp hhead)] at hc
        exact .inl (flushed_held (frameHead_size (mem_of_getElem? hc)) hrest.symm)
      · rw [getElem?_append_right (Nat.not_lt.mp hbody)] at hc
        have hm := mem_of_getElem? hc
        have hsize : ∀ c ∈ ['\n', '\n'], c.utf8Size = 1 := sizes_one rfl
        exact .inl (flushed_held (hsize c hm) hrest.symm)

theorem drain_none {fuel : Nat} (h : eventBoundary client.buffer = none) :
    drain parseJson fuel client = .reading client := by
  cases fuel with
  | zero => rfl
  | succ fuel => rw [drain, h]

theorem boundary_flushed (hlog : HostedLog log) (hs : events sent = log.drop cursor) (hin : Inside sent bytes) :
    eventBoundary (held sent bytes ++ flushed bytes (piecesText sent)) = none := by
  cases sent with
  | nil =>
    have hempty : held [] bytes ++ flushed bytes (piecesText []) = [] := rfl
    rw [hempty]
    rfl
  | cons piece sent =>
    have hframe : OneFrame (pieceBody piece) := oneFrame_body (hlog.lines hs)
    have hheld : held (piece :: sent) bytes <+: pieceBody piece ++ ['\n'] := held_unfinished (hin piece rfl)
    rcases @flushed_cases bytes (piecesText (piece :: sent)) with hf | hf
    · rw [hf, append_nil]
      exact hframe.unfinished hheld
    · rw [hf]
      exact hframe.unfinished_cut hheld

theorem not_blank (h : "id".toList <+: text) : text.all isSpace = false := by
  obtain ⟨rest, rfl⟩ := h
  rfl

theorem frameHead_id : "id".toList <+: frameHead event := ⟨(frameHead event).drop 2, rfl⟩

theorem held_frame (hin : Inside (some event :: sent) bytes) :
    held (some event :: sent) bytes <+: frameBody event ++ ['\n'] := held_unfinished (hin _ rfl)

theorem finish_pieces (hlog : HostedLog log) (hj : ParsesJson parseJson log) (hc : Caught log start client cursor)
    (hs : events sent = log.drop cursor) (hin : Inside sent bytes) (hb : client.buffer = held sent bytes)
    (he : EndsWell sent bytes) : Handed log start cursor (gained sent bytes [] true) (fun _ => True)
      (finish parseJson client (flushed bytes (piecesText sent))) := by
  obtain ⟨hsize, hdata⟩ := he
  have hflush : flushed bytes (piecesText sent) = [] := by
    cases sent with
    | nil => rfl
    | cons piece sent =>
      rcases flushed_inside hin with hf | ⟨_, event, hm, hhead, hbody⟩
      · exact hf
      · cases hm
        exact absurd ⟨by omega, hbody⟩ (hdata event rfl)
  have hboundary := boundary_flushed hlog hs hin
  rw [hflush, append_nil] at hboundary
  rw [hflush]
  unfold finish readText
  simp only [append_nil]
  rw [hb, if_neg fun h => absurd hsize (Nat.not_le.mpr h.1), ← hb]
  rw [@drain_none parseJson client _ (hb ▸ hboundary)]
  simp only
  have hnothing : leftOver sent bytes = none →
      readFrame parseJson client client.buffer = .reading client →
      Handed log start cursor (gained sent bytes [] true) (fun _ => True)
        (if client.buffer.all isSpace = true then .reading client else readFrame parseJson client client.buffer) := by
    intro hleft hread
    have hzero : gained sent bytes [] true = 0 := by
      rw [gained, hleft]
      rfl
    rw [hread, ite_self, hzero]
    exact .none hc trivial
  cases sent with
  | nil =>
    refine hnothing rfl ?_
    unfold readFrame
    rw [hb]
    rfl
  | cons piece sent =>
    cases piece with
    | none =>
      refine hnothing rfl ?_
      unfold readFrame
      rw [hb, parseFrame_keepAlive (held_unfinished (hin none rfl))]
    | some event =>
      have hp := held_frame hin
      by_cases hwhole : (frameBody event).length ≤ (held (some event :: sent) bytes).length
      · obtain ⟨rest, hrest⟩ := prefix_of_prefix_length_le (prefix_append _ _) hp hwhole
        have htail : rest = [] ∨ rest = ['\n'] := by
          rw [← hrest] at hp
          rcases prefix_cons_iff.mp ((prefix_append_right_inj _).mp hp) with h | ⟨more, h, hmore⟩
          · exact .inl h
          · rw [prefix_nil.mp hmore] at h
            exact .inr h
        have hi := next_event hs
        obtain ⟨envelope, henvelope, hparse⟩ := parseFrame_event hj hlog (mem_of_getElem? hi) htail
        have hone : gained (some event :: sent) bytes [] true = 1 := by
          rw [gained, if_pos]
          refine ⟨rfl, ?_⟩
          unfold leftOver
          simp [hwhole]
        have hid : "id".toList <+: client.buffer := by
          rw [hb, ← hrest, frameBody_eq, append_assoc]
          exact frameHead_id.trans (prefix_append _ _)
        have hread : readFrame parseJson client client.buffer = accept client envelope := by
          unfold readFrame
          rw [hb, ← hrest, hparse]
        rw [if_neg (Bool.eq_false_iff.mp (not_blank hid)), hread, hone]
        exact (hc.accept hlog hi henvelope).mono fun _ _ => trivial
      · have hbefore : (held (some event :: sent) bytes).length < (frameHead event).length := by
          by_contra hge
          exact hdata event rfl ⟨Nat.not_lt.mp hge, Nat.not_le.mp hwhole⟩
        refine hnothing ?_ ?_
        · unfold leftOver
          simpa using Nat.not_le.mp hwhole
        have hhead : held (some event :: sent) bytes <+: frameHead event := by
          rw [frameBody_eq, append_assoc] at hp
          exact prefix_of_prefix_length_le hp (prefix_append _ _) (Nat.le_of_lt hbefore)
        unfold readFrame
        rw [hb, parseFrame_nothing (readFields_before hhead hbefore)]

theorem finish_rejected (hlog : HostedLog log) (hj : ParsesJson parseJson log) (hs : events sent = log.drop cursor)
    (hin : Inside sent bytes) (hb : client.buffer = held sent bytes) (he : ¬EndsWell sent bytes) :
    ∃ read, finish parseJson client (flushed bytes (piecesText sent)) = .rejected read := by
  have hboundary := boundary_flushed hlog hs hin
  unfold finish readText
  simp only
  rw [hb]
  by_cases hsize : maxEventBytes < Json.utf8Bytes (held sent bytes ++ flushed bytes (piecesText sent))
  · rw [if_pos ⟨hsize, hboundary⟩]
    exact ⟨_, rfl⟩
  rw [if_neg fun h => hsize h.1]
  rw [@drain_none parseJson { client with buffer := held sent bytes ++ flushed bytes (piecesText sent) } _ hboundary]
  simp only
  have hsmall : Json.utf8Bytes (held sent bytes) ≤ maxEventBytes := by
    rw [Json.utf8Bytes_append] at hsize
    omega
  unfold EndsWell at he
  rw [not_and, Classical.not_forall] at he
  obtain ⟨event, he⟩ := he hsmall
  rw [Classical.not_imp, Classical.not_not] at he
  obtain ⟨hfirst, hinside⟩ := he
  obtain ⟨rest, rfl⟩ : ∃ rest, sent = some event :: rest := by
    cases sent with
    | nil => cases hfirst
    | cons piece rest =>
      cases piece with
      | none => cases hfirst
      | some other =>
        cases hfirst
        exact ⟨rest, rfl⟩
  have hm : event ∈ log := by
    refine mem_of_mem_drop (i := cursor) ?_
    rw [← hs]
    exact mem_cons_self
  have hflush : flushed bytes (piecesText (some event :: rest)) = [] ∨
      flushed bytes (piecesText (some event :: rest)) = ['\uFFFD'] ∧
        (frameHead event).length + 2 ≤ (held (some event :: rest) bytes).length := by
    rcases flushed_inside hin with hf | ⟨hf, other, ho, hhead, _⟩
    · exact .inl hf
    · cases ho
      exact .inr ⟨hf, hhead⟩
  have hid : "id".toList <+: held (some event :: rest) bytes ++ flushed bytes (piecesText (some event :: rest)) := by
    have hp := held_frame hin
    rw [frameBody_eq, append_assoc] at hp
    have hhead := prefix_of_prefix_length_le (prefix_append _ _) hp hinside.1
    exact (frameHead_id.trans hhead).trans (prefix_append _ _)
  rw [if_neg (Bool.eq_false_iff.mp (not_blank hid))]
  unfold readFrame
  rw [parseFrame_inside hj hlog hm (held_frame hin) hinside hflush]
  exact ⟨_, rfl⟩

/-! ## Connections -/

theorem intact_silent {sizes : List Nat} {clean : Bool} (hs : events sent = []) (hin : Inside sent bytes) :
    Intact sent bytes sizes clean ∧ gained sent bytes sizes clean = 0 := by
  have hnone : ∀ {sent : List (Option AgentEvent)}, events sent = [] → ∀ event, event ∉ sent.head?.join := by
    intro sent hs event hm
    cases sent with
    | nil => cases hm
    | cons piece sent =>
      cases piece with
      | none => cases hm
      | some other => cases hs
  have hsmall : ∀ {sent : List (Option AgentEvent)} {bytes : Nat}, events sent = [] → arrived sent bytes = [] →
      Json.utf8Bytes (held sent bytes) ≤ maxEventBytes := by
    intro sent bytes hs ha
    cases sent with
    | nil => exact Nat.zero_le _
    | cons piece sent =>
      cases piece with
      | some other => cases hs
      | none =>
        rw [arrived] at ha
        split at ha
        · cases ha
        rename_i hlt
        have hp : held (none :: sent) bytes <+: pieceBody none ++ ['\n'] := held_unfinished (Nat.not_le.mp hlt)
        obtain ⟨rest, hrest⟩ := hp
        have hle := congrArg Json.utf8Bytes hrest
        rw [Json.utf8Bytes_append] at hle
        have hwhole : Json.utf8Bytes (pieceBody none ++ ['\n']) ≤ maxEventBytes := by decide
        omega
  induction sizes generalizing sent bytes with
  | nil =>
    refine ⟨fun _ => ⟨hsmall hs (arrived_inside hin).1, fun event hm => absurd hm (hnone hs event)⟩, ?_⟩
    rw [gained, if_neg]
    rintro ⟨_, hleft⟩
    obtain ⟨event, hm⟩ := Option.isSome_iff_exists.mp hleft
    exact hnone hs event (Option.filter_eq_some_iff.mp hm).1
  | cons size sizes ih =>
    have hparts : events (arrived sent (bytes + size)) = [] ∧ events (awaited sent (bytes + size)).1 = [] := by
      have happend := hs
      rw [← @arrived_append_awaited (bytes + size) sent] at happend
      unfold events at happend ⊢
      rw [filterMap_append] at happend
      exact append_eq_nil_iff.mp happend
    obtain ⟨hintact, hzero⟩ := ih hparts.2 awaited_inside
    refine ⟨⟨hsmall hs, hintact⟩, ?_⟩
    rw [gained, hzero, hparts.1]
    rfl

theorem held_chunk {before : Text} {size : Nat} (hb : client.buffer = held sent bytes) :
    client.buffer ++ (decoded (Json.utf8Bytes before + (bytes + size)) (before ++ piecesText sent)).drop
      (decoded (Json.utf8Bytes before + bytes) (before ++ piecesText sent)).length = held sent (bytes + size) := by
  rw [hb]
  exact held_more (Nat.le_add_right _ _)

theorem readChunks_pieces {before : Text} {sizes : List Nat} {clean : Bool} (hlog : HostedLog log)
    (hj : ParsesJson parseJson log) (hc : Caught log start client cursor) (hs : events sent = log.drop cursor)
    (hin : Inside sent bytes) (hb : client.buffer = held sent bytes) (hi : Intact sent bytes sizes clean) :
    Handed log start cursor (gained sent bytes sizes clean) (fun _ => True)
      (readChunks parseJson (before ++ piecesText sent) clean (Json.utf8Bytes before + bytes) sizes client) := by
  induction sizes generalizing sent bytes client cursor before with
  | nil =>
    rw [readChunks]
    cases clean with
    | false => exact .none hc trivial
    | true =>
      rw [if_pos rfl, flushed_append]
      exact finish_pieces hlog hj hc hs hin hb (hi rfl)
  | cons size sizes ih =>
    obtain ⟨hbounded, hrest⟩ := hi
    rw [readChunks, Nat.add_assoc]
    obtain ⟨middle, hm, hcases⟩ := readText_pieces hlog hj hc hs (@held_chunk bytes client sent before size hb) hbounded
    have hlater := @awaited_events _ _ (bytes + size) _ hs
    rw [gained]
    rcases hcases with ⟨hreturned, hlt, hall⟩ | ⟨hreading, hsome, hbuffer⟩
    · have hnone : events (awaited sent (bytes + size)).1 = [] := by
        rw [hlater, hall, drop_length]
      rw [(@intact_silent _ _ sizes clean hnone awaited_inside).2, Nat.add_zero, hreturned]
      exact ⟨middle, hm, .inl ⟨rfl, hlt, hall⟩⟩
    · rw [hreading]
      simp only
      rw [@awaited_text (bytes + size) _ before, @awaited_position (bytes + size) sent before]
      exact (ih hm hlater awaited_inside hbuffer hrest).behind hsome

theorem readChunks_rejected {before : Text} {sizes : List Nat} {clean : Bool} (hlog : HostedLog log)
    (hj : ParsesJson parseJson log) (hc : Caught log start client cursor) (hs : events sent = log.drop cursor)
    (hin : Inside sent bytes) (hb : client.buffer = held sent bytes) (hi : ¬Intact sent bytes sizes clean) :
    ∃ read, readChunks parseJson (before ++ piecesText sent) clean (Json.utf8Bytes before + bytes) sizes client =
      .rejected read := by
  induction sizes generalizing sent bytes client cursor before with
  | nil =>
    unfold Intact at hi
    rw [Classical.not_imp] at hi
    rw [readChunks, if_pos hi.1, flushed_append]
    exact finish_rejected hlog hj hs hin hb hi.2
  | cons size sizes ih =>
    rw [readChunks, Nat.add_assoc]
    have hmore := @held_chunk bytes client sent before size hb
    by_cases hbounded : Bounded sent (bytes + size)
    · have hrest : ¬Intact (awaited sent (bytes + size)).1 (awaited sent (bytes + size)).2 sizes clean :=
        fun h => hi ⟨hbounded, h⟩
      obtain ⟨middle, hm, hcases⟩ := readText_pieces hlog hj hc hs hmore hbounded
      have hlater := @awaited_events _ _ (bytes + size) _ hs
      rcases hcases with ⟨_, _, hall⟩ | ⟨hreading, _, hbuffer⟩
      · have hnone : events (awaited sent (bytes + size)).1 = [] := by
          rw [hlater, hall, drop_length]
        exact absurd (intact_silent hnone awaited_inside).1 hrest
      rw [hreading]
      simp only
      rw [@awaited_text (bytes + size) _ before, @awaited_position (bytes + size) sent before]
      exact ih hm hlater awaited_inside hbuffer hrest
    · obtain ⟨read, hread⟩ := @readText_rejected parseJson _ _ _ _ _ _ hlog hs hmore hbounded
      rw [hread]
      exact ⟨read, rfl⟩

end

/-! ## The stream -/

def Complete (log : List AgentEvent) (connection : Connection) : Prop :=
  ∀ cursor, Json.utf8Bytes (piecesText (pieces connection.waits (log.drop cursor))) ≤ connection.chunks.sum

/-- Every connection that the client makes before it has all events is intact. -/
def Smooth (log : List AgentEvent) : Nat → List Connection → Prop
  | _, [] => True
  | cursor, connection :: connections =>
    Intact (pieces connection.waits (log.drop cursor)) 0 connection.chunks connection.clean ∧
      (cursor + gained (pieces connection.waits (log.drop cursor)) 0 connection.chunks connection.clean < log.length →
        Smooth log (cursor + gained (pieces connection.waits (log.drop cursor)) 0 connection.chunks connection.clean)
          connections)

/-- Every event behind the start was handed on, once and in order; the stream was not rejected, and has returned
unless there was nothing to wait for. -/
structure Delivers (log : List AgentEvent) (start : Nat) (outcome : Progress) : Prop where
  calls : outcome.client.calls.map some = (log.drop start).map envelopeOf
  returns : start < log.length → ∃ client, outcome = .returned client
  reads : ∀ client, outcome ≠ .rejected client

section
variable {parseJson : Text → Option Json} {log : List AgentEvent} {start cursor bytes : Nat} {client : Client}
  {sent : List (Option AgentEvent)} {waits : List Nat} {found : List AgentEvent} {connections : List Connection}

theorem events_pieces : events (pieces waits found) = found := by
  induction found generalizing waits with
  | nil => rfl
  | cons event found ih =>
    rw [pieces, append_cons]
    have hrest := @ih waits.tail
    unfold events at hrest ⊢
    rw [filterMap_append, filterMap_append, hrest]
    have hwaits : (List.replicate (waits.headD 0) (none : Option AgentEvent)).filterMap id = [] := by
      induction waits.headD 0 with
      | zero => rfl
      | succ n hn => rw [replicate_succ, filterMap_cons_none rfl, hn]
    rw [hwaits]
    rfl

theorem inside_zero : Inside sent 0 := by
  intro piece _
  rw [pieceText_eq, Json.utf8Bytes_append]
  exact Nat.lt_of_lt_of_le (by decide) (Nat.le_add_left _ _)

theorem gained_all {sizes : List Nat} {clean : Bool} (hin : Inside sent bytes)
    (h : Json.utf8Bytes (piecesText sent) ≤ bytes + sizes.sum) :
    (events sent).length ≤ gained sent bytes sizes clean := by
  induction sizes generalizing sent bytes with
  | nil =>
    cases sent with
    | nil => exact Nat.zero_le _
    | cons piece sent =>
      have hlt := hin piece rfl
      rw [piecesText_cons, Json.utf8Bytes_append, sum_nil] at h
      omega
  | cons size sizes ih =>
    have hbytes := @awaited_bytes (bytes + size) sent
    have htext := congrArg Json.utf8Bytes (@awaited_text (bytes + size) sent [])
    rw [nil_append, nil_append, Json.utf8Bytes_append] at htext
    rw [sum_cons] at h
    have hrest := @ih _ _ (@awaited_inside (bytes + size) sent) (by omega)
    have hevents := congrArg (fun found => (events found).length) (@arrived_append_awaited (bytes + size) sent)
    simp only [events, filterMap_append, length_append] at hevents hrest ⊢
    rw [gained]
    unfold events
    omega

theorem connection_pieces {connection : Connection} (hlog : HostedLog log) (hj : ParsesJson parseJson log)
    (hc : Caught log start client cursor)
    (hi : Intact (pieces connection.waits (log.drop cursor)) 0 connection.chunks connection.clean) :
    Handed log start cursor (gained (pieces connection.waits (log.drop cursor)) 0 connection.chunks connection.clean)
      (fun _ => True) (readChunks parseJson (piecesText (pieces connection.waits (log.drop cursor))) connection.clean 0
        connection.chunks { client with buffer := [] }) :=
  @readChunks_pieces parseJson log start cursor 0 _ _ [] _ _ hlog hj ⟨hc.after, hc.calls, hc.ordered⟩
    events_pieces inside_zero decoded_zero.symm hi

theorem stream_smooth (hlog : HostedLog log) (hj : ParsesJson parseJson log) (hc : Caught log start client cursor)
    (h : Smooth log cursor connections) : ∃ read reached, Caught log start read reached ∧
      ((streamHostedAgentRun parseJson log connections client = .returned read ∧ reached = log.length) ∨
        (streamHostedAgentRun parseJson log connections client = .reading read ∧
          (cursor < log.length → reached < log.length ∧ ∀ connection ∈ connections, ¬Complete log connection))) := by
  induction connections generalizing client cursor with
  | nil => exact ⟨client, cursor, hc, .inr ⟨rfl, fun hlt => ⟨hlt, fun _ hm => (by cases hm)⟩⟩⟩
  | cons connection connections ih =>
    obtain ⟨hintact, hnext⟩ := h
    have hbehind : log.filter (client.after < ·.sequence) = log.drop cursor := by rw [hc.after, hlog.behind]
    rw [streamHostedAgentRun, hbehind]
    obtain ⟨read, hcaught, hcases⟩ := connection_pieces hlog hj hc hintact
    rcases hcases with ⟨hreturned, _, hall⟩ | ⟨hreading, hsome, -⟩
    · rw [hreturned]
      exact ⟨read, _, hcaught, .inl ⟨rfl, hall⟩⟩
    rw [hreading]
    simp only
    rcases Nat.lt_or_ge cursor log.length with hlt | hge
    · obtain ⟨last, reached, hlast, hends⟩ := ih hcaught (hnext (hsome hlt))
      refine ⟨last, reached, hlast, ?_⟩
      rcases hends with hreturned | ⟨hwaits, hfew⟩
      · exact .inl hreturned
      refine .inr ⟨hwaits, fun _ => ⟨(hfew (hsome hlt)).1, fun other hm => ?_⟩⟩
      rcases mem_cons.mp hm with rfl | hm
      · intro hcomplete
        have hgained := @gained_all 0 _ other.chunks other.clean inside_zero
          (by rw [Nat.zero_add]; exact hcomplete cursor)
        rw [events_pieces, length_drop] at hgained
        have hfewer := hsome hlt
        omega
      · exact (hfew (hsome hlt)).2 other hm
    · -- Nothing was to come, and nothing comes.
      have hstays : cursor + gained (pieces connection.waits (log.drop cursor)) 0 connection.chunks connection.clean =
          log.length := by
        have hle := hcaught.ordered.2
        omega
      have hdone : Smooth log log.length connections := by
        cases connections with
        | nil => trivial
        | cons other others =>
          refine ⟨(intact_silent ?_ inside_zero).1, fun hlt => absurd hlt ?_⟩
          · rw [events_pieces, drop_length]
          · omega
      rw [hstays] at hcaught
      obtain ⟨last, reached, hlast, hends⟩ := ih hcaught hdone
      refine ⟨last, reached, hlast, ?_⟩
      rcases hends with hreturned | ⟨hwaits, _⟩
      · exact .inl hreturned
      · exact .inr ⟨hwaits, fun hlt => absurd hlt (Nat.not_lt.mpr hge)⟩

theorem stream_rejected (hlog : HostedLog log) (hj : ParsesJson parseJson log) (hc : Caught log start client cursor)
    (h : ¬Smooth log cursor connections) :
    ∃ read, streamHostedAgentRun parseJson log connections client = .rejected read := by
  induction connections generalizing client cursor with
  | nil => exact absurd trivial h
  | cons connection connections ih =>
    have hbehind : log.filter (client.after < ·.sequence) = log.drop cursor := by rw [hc.after, hlog.behind]
    rw [streamHostedAgentRun, hbehind]
    by_cases hintact : Intact (pieces connection.waits (log.drop cursor)) 0 connection.chunks connection.clean
    · have hlater := Classical.not_imp.mp (fun hnext => h ⟨hintact, hnext⟩)
      obtain ⟨read, hcaught, ⟨_, _, hall⟩ | ⟨hreading, _⟩⟩ := connection_pieces hlog hj hc hintact
      · exact absurd hlater.1 (by omega)
      · rw [hreading]
        exact ih hcaught hlater.2
    · obtain ⟨read, hread⟩ := @readChunks_rejected parseJson log start cursor 0 { client with buffer := [] } _ [] _ _
        hlog hj ⟨hc.after, hc.calls, hc.ordered⟩ events_pieces inside_zero decoded_zero.symm hintact
      rw [nil_append, Json.utf8Bytes_nil, Nat.add_zero] at hread
      rw [hread]
      exact ⟨read, rfl⟩

end

/-- With some complete connection to come, every event behind the cursor is handed on once, in order, and the stream
returns behind the terminal one, exactly if the connections made until then are intact. -/
theorem agent_events_arrive_once {parseJson : Text → Option Json} {log : List AgentEvent} (hlog : HostedLog log)
    (hj : ParsesJson parseJson log) {start : Nat} (hstart : start ≤ log.length) {connections : List Connection}
    (hcomplete : ∃ connection ∈ connections, Complete log connection) :
    Delivers log start (streamHostedAgentRun parseJson log connections ⟨[], start, []⟩) ↔
      Smooth log start connections := by
  have hc : Caught log start ⟨[], start, []⟩ start := by
    refine ⟨rfl, ?_, Nat.le_refl _, hstart⟩
    have hnone : (log.take start).drop start = [] := by
      rw [drop_eq_nil_iff, length_take]
      exact Nat.min_le_left _ _
    rw [hnone]
    rfl
  constructor
  · intro hdelivers
    by_contra hrough
    obtain ⟨read, hread⟩ := stream_rejected hlog hj hc hrough
    exact hdelivers.reads read hread
  · intro hsmooth
    obtain ⟨read, reached, hcaught, hcases⟩ := stream_smooth hlog hj hc hsmooth
    have hall : reached = log.length → read.calls.map some = (log.drop start).map envelopeOf := by
      intro hr
      rw [hcaught.calls, hr, take_length]
    rcases hcases with ⟨hreturned, hr⟩ | ⟨hreading, hfew⟩
    · rw [hreturned]
      exact ⟨hall hr, fun _ => ⟨read, rfl⟩, fun _ heq => (by cases heq)⟩
    rw [hreading]
    rcases Nat.lt_or_ge start log.length with hlt | hge
    · obtain ⟨connection, hm, hwhole⟩ := hcomplete
      exact absurd hwhole ((hfew hlt).2 connection hm)
    · have hr : reached = log.length := Nat.le_antisymm hcaught.ordered.2 (Nat.le_trans hge hcaught.ordered.1)
      exact ⟨hall hr, fun hlt => absurd hlt (Nat.not_lt.mpr hge), fun _ heq => (by cases heq)⟩

/-! ## Streams that are cut -/

namespace Streams

def delta : AgentEvent := ⟨1, .assistantDelta, .object [("text".toList, Agent.jsonText "é")]⟩
def cancelled : AgentEvent := ⟨2, .runCancelled, .object [("status".toList, Agent.jsonText "cancelled")]⟩
def log : List AgentEvent := [delta, cancelled]

def parseJson (text : Text) : Option Json :=
  if text = delta.data.serialize then some delta.data
  else if text = cancelled.data.serialize then some cancelled.data
  else none

def truncated (clean : Bool) : Connection := ⟨[], [20, 25], clean⟩

def whole : Connection := ⟨[0, 1], [64, 100], true⟩

theorem hosted : HostedLog log := by
  refine ⟨rfl, ?_, by decide +kernel, by decide +kernel, ?_⟩
  · intro i event hi
    match i with
    | 0 => cases hi; decide
    | 1 => cases hi; decide
    | i + 2 => cases hi
  · intro event hm
    rcases mem_pair.mp hm with rfl | rfl
    · exact ⟨by decide +kernel, by decide +kernel⟩
    · exact ⟨by decide +kernel, by decide +kernel⟩

theorem parses : ParsesJson parseJson log := by
  have hcut : ∀ event ∈ log, ∀ n < event.data.serialize.length,
      (parseJson (event.data.serialize.take n)).isNone = true ∧
        (parseJson (event.data.serialize.take n ++ ['\uFFFD'])).isNone = true := by
    decide +kernel
  refine ⟨?_, fun event hm text hp hlt => ?_⟩
  · intro event hm
    rcases mem_pair.mp hm with rfl | rfl
    · rfl
    · rfl
  · obtain ⟨hwhole, hflushed⟩ := hcut event hm _ hlt
    rw [← prefix_iff_eq_take.mp hp] at hwhole hflushed
    exact ⟨Option.isNone_iff_eq_none.mp hwhole, Option.isNone_iff_eq_none.mp hflushed⟩

theorem whole_complete : Complete log whole := by
  intro cursor
  match cursor with
  | 0 => decide +kernel
  | 1 => decide +kernel
  | cursor + 2 =>
    rw [drop_eq_nil_of_le (show log.length ≤ cursor + 2 from Nat.le_add_left _ _), pieces]
    exact Nat.zero_le _

theorem cut_character_reread : Delivers log 0 (streamHostedAgentRun parseJson log [truncated false, whole] ⟨[], 0, []⟩) := by
  refine (agent_events_arrive_once hosted parses (Nat.zero_le _) ⟨whole, by simp, whole_complete⟩).mpr ?_
  refine ⟨⟨fun _ => by decide +kernel, fun _ => by decide +kernel, fun h => (by cases h)⟩, fun _ => ?_⟩
  refine ⟨⟨fun _ => by decide +kernel, ?_⟩, fun _ => trivial⟩
  exact ⟨fun _ => by decide +kernel, (intact_silent (eq_nil_of_length_eq_zero (by decide +kernel)) awaited_inside).1⟩

theorem truncated_run_rejected : ¬Delivers log 0 (streamHostedAgentRun parseJson log [truncated true, whole] ⟨[], 0, []⟩) := by
  intro h
  exact h.reads _ rfl

end Streams

end Marks.Gateway
