import Marks.Engine
import Marks.Framing
import Marks.Gateway

/-! # The provider's event stream

A turn reads the provider's answer as a stream of chunks, in whatever pieces the network delivers them. Frames end at
an empty line; the text deltas of a turn are emitted in batches. `fromUtf8` and `fromJson` are the decoders, and
`emitDelta` answers an emission, given what was emitted before. -/

namespace Marks.Agent.Upstream

open Framing
open Gateway (field textOf)

def maxUpstreamBytes : Nat := 2 * 1024 * 1024
def maxUpstreamEventBytes : Nat := 256 * 1024
def deltaChunkBytes : Nat := 1024

/-- The position of the first window that is `pattern`. -/
def window (pattern : Bytes) : Bytes → Option Nat
  | [] => none
  | byte :: rest => if pattern.isPrefixOf (byte :: rest) then some 0 else (window pattern rest).map (· + 1)

def frameBoundary (buffer : Bytes) : Option (Nat × Nat) :=
  match window [10, 10] buffer, window [13, 10, 13, 10] buffer with
  | some left, some right => if left ≤ right then some (left, 2) else some (right, 4)
  | some position, none => some (position, 2)
  | none, some position => some (position, 4)
  | none, none => none

structure StreamState where
  completed : Option Json
  deltaBuffer : Text
  emittedAny : Bool
  /-- What was emitted so far. -/
  emitted : List Text

/-- The code of a `ProviderError`, with what was emitted before it. -/
abbrev StreamError := String × List Text

/-- `lines`, without the carriage returns at their ends. -/
def linesOf (frame : Text) : List Text :=
  (frame.splitOn '\n').map fun line => (line.reverse.dropWhile (· == '\r')).reverse

def dataLine (line : Text) : Option Text :=
  (line.dropPrefix? "data:".toList).map fun value => (value.dropPrefix? [' ']).getD value

def dataOf (frame : Text) : Text :=
  (linesOf frame).foldl (fun data line =>
    match dataLine line with
    | some value => (if data.isEmpty then data else data ++ ['\n']) ++ value
    | none => data) []

section
variable (fromUtf8 : Bytes → Option Text) (fromJson : Text → Option Json)
  (emitDelta : List Text → Text → Option String)

def StreamState.emit (s : StreamState) (text : Text) : Except StreamError StreamState :=
  match emitDelta s.emitted text with
  | some code => .error (code, s.emitted)
  | none => .ok { s with deltaBuffer := [], emittedAny := true, emitted := s.emitted ++ [text] }

def processFrame (s : StreamState) (frame : Bytes) : Except StreamError StreamState :=
  let malformed : Except StreamError StreamState := .error ("malformedProviderResponse", s.emitted)
  if maxUpstreamEventBytes < frame.length then .error ("providerResponseLimit", s.emitted)
  else
    match fromUtf8 frame with
    | none => malformed
    | some frame =>
      let data := dataOf frame
      if data.isEmpty ∨ data = "[DONE]".toList then .ok s
      else
        match fromJson data with
        | none => malformed
        | some event =>
          match (field event "type").bind textOf with
          | none => malformed
          | some kind =>
            if kind = "response.output_text.delta".toList then
              match (field event "delta").bind textOf with
              | none => malformed
              | some delta =>
                let s := { s with deltaBuffer := s.deltaBuffer ++ delta }
                if deltaChunkBytes ≤ Json.utf8Bytes s.deltaBuffer then s.emit emitDelta s.deltaBuffer else .ok s
            else if kind = "response.completed".toList then
              match field event "response" with
              | none => malformed
              | some response => .ok { s with completed := some response }
            else if kind = "response.failed".toList ∨ kind = "response.incomplete".toList ∨
                kind = "error".toList then
              .error ("providerIncomplete", s.emitted)
            else .ok s

/-- A chunk of the body, with the bytes read before it. -/
def onChunk (state : (StreamState × Bytes) × Nat) (chunk : Bytes) :
    Except StreamError ((StreamState × Bytes) × Nat) := do
  let total := state.2 + chunk.length
  if maxUpstreamBytes < total then .error ("providerResponseLimit", state.1.1.emitted)
  else
    let read ← receive frameBoundary (processFrame fromUtf8 fromJson emitDelta) maxUpstreamEventBytes
      (fun s => ("malformedProviderResponse", s.emitted)) state.1 chunk
    .ok (read, total)

def isAsciiWhitespace (byte : UInt8) : Bool := byte == 9 || byte == 10 || byte == 12 || byte == 13 || byte == 32

/-- The turn up to the response it completes with. -/
def readStream (chunks : List Bytes) : Except StreamError StreamState := do
  let state ← chunks.foldlM (onChunk fromUtf8 fromJson emitDelta) ((⟨none, [], false, []⟩, []), 0)
  let s ← if state.1.2.all isAsciiWhitespace then .ok state.1.1
    else processFrame fromUtf8 fromJson emitDelta state.1.1 state.1.2
  let s ← if s.deltaBuffer.isEmpty then .ok s else s.emit emitDelta s.deltaBuffer
  if s.completed.isNone then .error ("malformedProviderResponse", s.emitted) else .ok s

end

/-! ## The boundary -/

theorem window_cut (pattern buffer more : Bytes) (stop : Nat) (hpattern : 0 < pattern.length) :
    window pattern buffer = some stop ↔
      window pattern (buffer ++ more) = some stop ∧ stop + pattern.length ≤ buffer.length := by
  induction buffer generalizing stop with
  | nil => grind [window]
  | cons byte rest ih =>
    have hfirst : pattern <+: byte :: rest ↔
        pattern <+: byte :: (rest ++ more) ∧ pattern.length ≤ rest.length + 1 :=
      ⟨fun h => ⟨h.trans ⟨more, rfl⟩, h.length_le⟩, fun h => List.prefix_of_prefix_length_le h.1 ⟨more, rfl⟩ h.2⟩
    simp only [List.cons_append, window, List.isPrefixOf_iff_prefix, List.length_cons, hfirst]
    by_cases hlong : pattern <+: byte :: (rest ++ more)
    · by_cases hfits : pattern.length ≤ rest.length + 1
      · rw [if_pos ⟨hlong, hfits⟩, if_pos hlong]
        grind
      · have hnone : window pattern rest = none :=
          Option.eq_none_iff_forall_ne_some.mpr fun stop hcut => by have hle := ((ih stop).mp hcut).2; omega
        rw [if_neg fun hfirst => hfits hfirst.2, if_pos hlong, hnone]
        grind
    · rw [if_neg fun hfirst => hlong hfirst.1, if_neg hlong]
      cases stop with
      | zero => simp
      | succ stop =>
        simp only [Option.map_eq_some_iff, Nat.add_right_cancel_iff, exists_eq_right, ih stop]
        exact and_congr_right fun _ => by omega

theorem window_drop {pattern buffer : Bytes} {stop : Nat} (hcut : window pattern buffer = some stop) :
    pattern <+: buffer.drop stop := by
  induction buffer generalizing stop with
  | nil => cases hcut
  | cons byte rest ih =>
    simp only [window, List.isPrefixOf_iff_prefix] at hcut
    split at hcut
    · cases hcut
      assumption
    · obtain ⟨stop, hrest, rfl⟩ := Option.map_eq_some_iff.mp hcut
      exact ih hrest

/-- No empty line starts at the second byte of `\r\n\r\n`. -/
theorem window_apart (buffer : Bytes) (left right : Nat) (hleft : window [10, 10] buffer = some left)
    (hright : window [13, 10, 13, 10] buffer = some right) : left ≠ right + 1 := by
  rintro rfl
  obtain ⟨after, hafter⟩ := window_drop hright
  have hdrop := window_drop hleft
  rw [← List.drop_drop, ← hafter] at hdrop
  simp [List.cons_prefix_cons] at hdrop

theorem frameBoundary_cut {buffer more : Bytes} {stop size : Nat} : frameBoundary buffer = some (stop, size) ↔
    frameBoundary (buffer ++ more) = some (stop, size) ∧ stop + size ≤ buffer.length := by
  have hlf := fun left => window_cut [10, 10] buffer more left (by decide)
  have hcrlf := fun right => window_cut [13, 10, 13, 10] buffer more right (by decide)
  have hapart := window_apart (buffer ++ more)
  unfold frameBoundary
  generalize window [10, 10] buffer = left, window [13, 10, 13, 10] buffer = right,
    window [10, 10] (buffer ++ more) = left', window [13, 10, 13, 10] (buffer ++ more) = right' at *
  grind

theorem frameBoundary_lawful : Lawful frameBoundary where
  separated hcut := by
    unfold frameBoundary at hcut
    grind
  cut _ := frameBoundary_cut

/-! ## Chunks -/

variable {fromUtf8 : Bytes → Option Text} {fromJson : Text → Option Json}
  {emitDelta : List Text → Text → Option String}

theorem onChunk_all {chunks : List Bytes} {state : StreamState × Bytes} {total : Nat}
    (hlength : total + chunks.flatten.length ≤ maxUpstreamBytes) :
    chunks.foldlM (onChunk fromUtf8 fromJson emitDelta) (state, total) =
      chunks.foldlM (receive frameBoundary (processFrame fromUtf8 fromJson emitDelta) maxUpstreamEventBytes
        fun s => ("malformedProviderResponse", s.emitted)) state >>= fun read =>
          .ok (read, total + chunks.flatten.length) := by
  induction chunks generalizing state total with
  | nil => rfl
  | cons chunk chunks ih =>
    rw [List.flatten_cons, List.length_append] at hlength ⊢
    rw [List.foldlM_cons, List.foldlM_cons, bind_assoc]
    unfold onChunk
    simp only
    rw [if_neg (by omega), bind_assoc]
    congr 1
    funext read
    rw [← Nat.add_assoc] at hlength ⊢
    exact ih hlength

/-- However the network cuts a body whose frames fit the buffer, the turn emits the same and ends the same. -/
theorem cuts_do_not_matter (fromUtf8 : Bytes → Option Text) (fromJson : Text → Option Json)
    (emitDelta : List Text → Text → Option String) (chunks other : List Bytes)
    (hsame : other.flatten = chunks.flatten) (hlength : chunks.flatten.length ≤ maxUpstreamBytes)
    (hshort : Short frameBoundary maxUpstreamEventBytes chunks.flatten) :
    readStream fromUtf8 fromJson emitDelta other = readStream fromUtf8 fromJson emitDelta chunks := by
  have hwhole : ∀ chunks : List Bytes, chunks.flatten.length ≤ maxUpstreamBytes →
      Short frameBoundary maxUpstreamEventBytes chunks.flatten →
      chunks.foldlM (onChunk fromUtf8 fromJson emitDelta) ((⟨none, [], false, []⟩, []), 0) =
        drained frameBoundary (processFrame fromUtf8 fromJson emitDelta) ⟨none, [], false, []⟩ chunks.flatten >>=
          fun read => .ok (read, 0 + chunks.flatten.length) := by
    intro chunks hlength hshort
    rw [onChunk_all (by omega), receive_all frameBoundary_lawful rfl hshort]
    rfl
  unfold readStream
  rw [hwhole chunks hlength hshort, hwhole other (hsame ▸ hlength) (hsame ▸ hshort), hsame]

def doneFrame : Bytes := [100, 97, 116, 97, 58, 32, 91, 68, 79, 78, 69, 93, 13, 10, 13, 10]

def ascii (bytes : Bytes) : Option Text := some (bytes.map fun byte => Char.ofNat byte.toNat)

theorem doneFrame_cut :
    readStream ascii (fun _ => none) (fun _ _ => none) [doneFrame.take 14, doneFrame.drop 14] =
      readStream ascii (fun _ => none) (fun _ _ => none) [doneFrame] :=
  cuts_do_not_matter _ _ _ [doneFrame] _ rfl (by decide) (.frame rfl (by decide) (.rest rfl (by decide)))

end Marks.Agent.Upstream
