import Mathlib.Tactic.Ring
import Marks.PresenceSound

/-! # Presence on the wire

What the room encodes, the client decodes, as long as keys, counts and lengths stay within the limits the
client checks. -/

namespace Marks

open List

/-! ## Integers -/

theorem byte_low (n : Nat) (h : n < 128) : (UInt8.ofNat n &&& 0x7f).toNat = n ∧ UInt8.ofNat n &&& 0x80 = 0 := by
  have hall : ∀ i : Fin 128, (UInt8.ofNat i.val &&& 0x7f).toNat = i.val ∧ UInt8.ofNat i.val &&& 0x80 = 0 := by
    decide +kernel
  exact hall ⟨n, h⟩

theorem byte_high (n : Nat) (h : n < 128) :
    (UInt8.ofNat (n + 128) &&& 0x7f).toNat = n ∧ UInt8.ofNat (n + 128) &&& 0x80 ≠ 0 := by
  have hall : ∀ i : Fin 128,
      (UInt8.ofNat (i.val + 128) &&& 0x7f).toNat = i.val ∧ UInt8.ofNat (i.val + 128) &&& 0x80 ≠ 0 := by
    decide +kernel
  exact hall ⟨n, h⟩

variable {n : Nat}

theorem byte_zero (h : n < 128) (hz : UInt8.ofNat n = 0) : n = 0 := by
  have hlow := (byte_low n h).1
  rw [hz] at hlow
  exact hlow.symm

theorem uintFrom_put (groups n value factor : Nat) (first : Bool) (rest : Bytes) (hn : n < 128 ^ (groups + 1))
    (hsafe : value + n * factor ≤ maxSafeInteger) (hfirst : n = 0 → first = true) :
    Reader.uintFrom value factor first (presencePutUintFrom (groups + 1) n ++ rest) =
      some (value + n * factor, rest) := by
  have hsmall : ∀ n value factor first, n < 128 → value + n * factor ≤ maxSafeInteger →
      (n = 0 → first = true) → Reader.uintFrom value factor first (UInt8.ofNat n :: rest) =
        some (value + n * factor, rest) := by
    intro n value factor first hn hsafe hfirst
    obtain ⟨hlow, hlast⟩ := byte_low n hn
    simp only [Reader.uintFrom, hlow, hlast, if_true, if_neg (Nat.not_lt.mpr hsafe)]
    refine if_neg fun h => ?_
    have hz := byte_zero hn h.2
    simp [hfirst hz] at h
  induction groups generalizing n value factor first with
  | zero =>
    have hlt : n < 128 := hn
    simp only [presencePutUintFrom, Nat.div_eq_of_lt hlt, if_true, Nat.mod_eq_of_lt hlt]
    exact hsmall n value factor first hlt hsafe hfirst
  | succ groups ih =>
    by_cases hlt : n / 128 = 0
    · have hn : n < 128 := by omega
      rw [presencePutUintFrom, if_pos hlt, Nat.mod_eq_of_lt hn]
      exact hsmall n value factor first hn hsafe hfirst
    rw [presencePutUintFrom, if_neg hlt, cons_append]
    obtain ⟨hlow, hmore⟩ := byte_high (n % 128) (Nat.mod_lt n (by decide))
    have hsplit : n * factor = n % 128 * factor + n / 128 * (factor * 128) := by
      calc n * factor = (n % 128 + 128 * (n / 128)) * factor := by rw [Nat.mod_add_div]
        _ = n % 128 * factor + n / 128 * (factor * 128) := by ring
    have hpart : factor * 128 ≤ n / 128 * (factor * 128) := Nat.le_mul_of_pos_left _ (Nat.pos_of_ne_zero hlt)
    have hnext : n / 128 < 128 ^ (groups + 1) := by
      rw [Nat.div_lt_iff_lt_mul (by decide)]
      exact lt_of_lt_of_eq hn (by ring)
    simp only [Reader.uintFrom, hlow, if_neg hmore]
    rw [if_neg (by omega), if_neg (by omega), ih (n / 128) _ _ _ hnext (by omega) fun hz => absurd hz hlt, hsplit,
      Nat.add_assoc]

theorem uint_put (h : n ≤ maxSafeInteger) (rest : Bytes) :
    Reader.uint (presencePutUint n ++ rest) = some (n, rest) := by
  have hn : n < 128 ^ (9 + 1) := lt_of_le_of_lt h (by decide)
  have hread := uintFrom_put 9 n 0 1 true rest hn (by simpa using h) fun _ => rfl
  rw [Nat.zero_add, Nat.mul_one] at hread
  exact hread

/-! ## Byte strings and keys -/

theorem takeBytes_append {bytes : Bytes} (h : bytes.length = n) (rest : Bytes) :
    takeBytes n (bytes ++ rest) = some (bytes, rest) := by
  subst h
  simp [takeBytes]

theorem bytes_put {maximum : Nat} {bytes : Bytes} (h : bytes.length ≤ maximum) (hm : maximum ≤ maxSafeInteger)
    (rest : Bytes) :
    Reader.bytes maximum (presencePutUint bytes.length ++ (bytes ++ rest)) = some (bytes, rest) := by
  have hread := uint_put (h.trans hm) (bytes ++ rest)
  simp only [Reader.bytes, hread, Option.bind_eq_bind, Option.bind_some, guard, if_pos h, Option.pure_def]
  exact takeBytes_append rfl rest

theorem fromUtf8_keyBytes (key : PresenceKey) : fromUtf8 (keyBytes key) = some key := by
  have hbytes : (keyBytes key).toByteArray = key.utf8Encode := rfl
  rw [fromUtf8, hbytes, utf8Decode?_utf8Encode]
  simp

def byteOrderMark : Char := Char.ofNat 0xFEFF

variable {key : PresenceKey}

theorem text_unmarked (h : key.head? ≠ some byteOrderMark) :
    Reader.text (keyBytes key) = some key := by
  rw [Reader.text, if_neg, fromUtf8_keyBytes]
  intro hmark
  cases key with
  | nil => cases hmark
  | cons c rest =>
    have hbytes : keyBytes (c :: rest) = String.utf8EncodeChar byteOrderMark ++ (keyBytes (c :: rest)).drop 3 := by
      calc keyBytes (c :: rest) = (keyBytes (c :: rest)).take 3 ++ (keyBytes (c :: rest)).drop 3 :=
            (take_append_drop 3 _).symm
        _ = _ := by rw [hmark]; rfl
    have hfirst : ((keyBytes (c :: rest)).toByteArray).utf8DecodeChar? 0 = some c := by
      rw [keyBytes, flatMap_cons, toByteArray_append]
      exact ByteArray.utf8DecodeChar?_utf8EncodeChar_append
    have hsame : ((keyBytes (c :: rest)).toByteArray).utf8DecodeChar? 0 = some byteOrderMark := by
      rw [hbytes, toByteArray_append]
      exact ByteArray.utf8DecodeChar?_utf8EncodeChar_append
    rw [hfirst] at hsame
    exact h hsame

theorem text_keyBytes {c : Char} (hc : c.isDigit = true) (hkey : key.head? = some c) :
    Reader.text (keyBytes key) = some key := by
  refine text_unmarked fun hmark => ?_
  rw [hkey] at hmark
  rw [Option.some.inj hmark] at hc
  cases hc

/-! ## Entries and frames -/

variable {entry : PresenceEntry} {entries : List PresenceEntry} {frame : PresenceFrame}

section
variable {J : PresenceJson}

def PresenceEntry.shown (J : PresenceJson) (entry : PresenceEntry) : DecodedEntry J.Value :=
  if entry.deleted then ⟨entry.key, true, 0, none⟩
  else ⟨entry.key, false, min entry.age 30000, J.parse entry.value⟩

structure Decodable (J : PresenceJson) (entry : PresenceEntry) : Prop where
  digit : ∃ c, c.isDigit = true ∧ entry.key.head? = some c
  key : (keyBytes entry.key).length ≤ 256
  value : entry.deleted = false → entry.value.length ≤ 16 * 1024 ∧ (J.parse entry.value).isSome = true

/-- The same for a key that any text decoder leaves as it is. -/
structure Legible (J : PresenceJson) (entry : PresenceEntry) : Prop where
  nonempty : entry.key ≠ []
  text : Reader.text (keyBytes entry.key) = some entry.key
  key : (keyBytes entry.key).length ≤ 256
  value : entry.deleted = false → entry.value.length ≤ 16 * 1024 ∧ (J.parse entry.value).isSome = true

theorem Decodable.legible (h : Decodable J entry) : Legible J entry := by
  obtain ⟨c, hc, hhead⟩ := h.digit
  refine ⟨?_, text_keyBytes hc hhead, h.key, h.value⟩
  intro hnil
  simp [hnil] at hhead

theorem decodeEntry_encode (h : Legible J entry) (rest : Bytes) :
    decodeEntry J (encodePresenceEntry entry ++ rest) = some (entry.shown J, rest) := by
  have hne := h.nonempty
  have hkey : ∀ tail, Reader.bytes 256 (presencePutUint (keyBytes entry.key).length ++
      (keyBytes entry.key ++ tail)) = some (keyBytes entry.key, tail) :=
    fun tail => bytes_put h.key (by decide) tail
  have htext := h.text
  cases hdeleted : entry.deleted with
  | true =>
    simp only [encodePresenceEntry, hdeleted, if_true, append_assoc]
    simp only [decodeEntry, hkey, htext, Option.bind_eq_bind, Option.bind_some, guard, if_pos hne,
      Option.pure_def, singleton_append, takeByte, if_true, PresenceEntry.shown, hdeleted]
  | false =>
    obtain ⟨hlength, hparse⟩ := h.value hdeleted
    obtain ⟨value, hvalue⟩ := Option.isSome_iff_exists.mp hparse
    have hage : min entry.age 30000 ≤ maxSafeInteger := (Nat.min_le_right _ _).trans (by decide)
    have hread := bytes_put hlength (by decide) rest
    simp only [encodePresenceEntry, hdeleted, Bool.false_eq_true, if_false, append_assoc,
      cons_append]
    simp only [decodeEntry, hkey, htext, Option.bind_eq_bind, Option.bind_some, guard, if_pos hne,
      Option.pure_def, takeByte, uint_put hage, hread, hvalue, PresenceEntry.shown, hdeleted]
    rfl

theorem decodeEntries_encode (h : ∀ entry ∈ entries, Legible J entry)
    (rest : Bytes) :
    decodeEntries J entries.length (entries.flatMap encodePresenceEntry ++ rest) =
      some (entries.map (·.shown J), rest) := by
  induction entries with
  | nil => rfl
  | cons entry entries ih =>
    have hfirst := decodeEntry_encode (h entry mem_cons_self) (entries.flatMap encodePresenceEntry ++ rest)
    have hrest := ih fun e he => h e (mem_cons_of_mem entry he)
    simp only [length_cons, decodeEntries, flatMap_cons, append_assoc, hfirst, hrest,
      Option.bind_eq_bind, Option.bind_some, map_cons]

theorem decodeFrame_encode (hinstance : frame.instanceId.length = 16)
    (hsequence : frame.sequence ≠ 0 ∧ frame.sequence ≤ maxSafeInteger) (hcount : frame.entries.length ≤ 256)
    (hbytes : (encodePresence frame).length ≤ maxPresenceBytes)
    (hentries : ∀ entry ∈ frame.entries, Legible J entry) :
    decodeFrame J (encodePresence frame) =
      some ⟨frame.instanceId, frame.sequence, frame.entries.map (·.shown J)⟩ := by
  have hnonempty : encodePresence frame ≠ [] := by simp [encodePresence]
  have hlast : decodeEntries J frame.entries.length (frame.entries.flatMap encodePresenceEntry) =
      some (frame.entries.map (·.shown J), []) := by
    have h := decodeEntries_encode hentries []
    rwa [append_nil] at h
  have hcountsafe : frame.entries.length ≤ maxSafeInteger := hcount.trans (by decide)
  simp only [decodeFrame, guard, if_pos (And.intro hnonempty hbytes)]
  simp only [encodePresence, cons_append, nil_append, takeByte, Option.bind_eq_bind,
    Option.bind_some, Option.pure_def, if_true, takeBytes_append hinstance, uint_put hsequence.2,
    if_pos hsequence, uint_put hcountsafe, if_pos hcount, hlast]

end

/-! ## What a room relays -/

namespace PresenceRoom

variable {J : PresenceJson} {room : PresenceRoom}

theorem mapM_forall₂ {α β : Type} {f : α → Option β} {l : List α} {l' : List β} (h : l.mapM f = some l') :
    List.Forall₂ (fun a b => f a = some b) l l' := by
  induction l generalizing l' with
  | nil =>
    rw [mapM_nil] at h
    cases h
    exact List.Forall₂.nil
  | cons a l ih =>
    simp only [mapM_cons, Option.bind_eq_bind, Option.bind_eq_some_iff] at h
    obtain ⟨b, hb, rest, hrest, heq⟩ := h
    cases heq
    exact List.Forall₂.cons hb (ih hrest)

theorem forall₂_right {α β : Type} {R : α → β → Prop} {l : List α} {l' : List β} (h : List.Forall₂ R l l')
    {b : β} (hb : b ∈ l') : ∃ a ∈ l, R a b := by
  induction h with
  | nil => cases hb
  | cons hhead _ ih =>
    rcases mem_cons.mp hb with rfl | hb
    · exact ⟨_, mem_cons_self, hhead⟩
    · obtain ⟨a, ha, hr⟩ := ih hb
      exact ⟨a, mem_cons_of_mem _ ha, hr⟩

def Owned (key : PresenceKey) : Prop :=
  ∃ site suffix, key = Nat.toDigits 10 site ++ ['-', 'c', 'm', '-'] ++ suffix

theorem Owned.digit (h : Owned key) : ∃ c, c.isDigit = true ∧ key.head? = some c := by
  obtain ⟨site, suffix, rfl⟩ := h
  cases hdigits : Nat.toDigits 10 site with
  | nil => exact absurd hdigits Nat.toDigits_ne_nil
  | cons c rest =>
    refine ⟨c, Nat.isDigit_of_mem_toDigits (b := 10) (n := site) (by decide) (by decide) ?_, rfl⟩
    rw [hdigits]
    exact mem_cons_self

variable {input rest : Bytes}

theorem decodePresenceEntry_spec
    (h : decodePresenceEntry J input = some (entry, rest)) (hlive : entry.deleted = false) :
    J.serdeAccepts entry.value = true := by
  simp only [decodePresenceEntry, Option.bind_eq_bind, Option.bind_eq_some_iff, Option.guard_eq_some'] at h
  obtain ⟨_, _, _, _, _, _, _, _, _, _, h⟩ := h
  split at h
  · rw [← (Prod.mk.inj (Option.some.inj h)).1] at hlive
    cases hlive
  simp only [Option.bind_eq_some_iff, Option.guard_eq_some'] at h
  obtain ⟨_, _, _, _, _, _, _, _, _, _, _, hserde, h⟩ := h
  cases h
  exact hserde

theorem decodePresenceEntries_spec {count : Nat}
    (h : decodePresenceEntries J count input = some (entries, rest)) :
    entries.length = count ∧ ∀ entry ∈ entries, entry.deleted = false → J.serdeAccepts entry.value = true := by
  induction count generalizing input rest entries with
  | zero =>
    cases h
    exact ⟨rfl, fun _ he => by cases he⟩
  | succ count ih =>
    simp only [decodePresenceEntries, Option.bind_eq_bind, Option.bind_eq_some_iff] at h
    obtain ⟨⟨entry, mid⟩, hentry, ⟨others, last⟩, hothers, heq⟩ := h
    obtain ⟨hlength, hserde⟩ := ih hothers
    cases heq
    refine ⟨by simp [hlength], fun e he hlive => ?_⟩
    rcases mem_cons.mp he with rfl | he
    · exact decodePresenceEntry_spec hentry hlive
    · exact hserde e he hlive

theorem decodePresence_spec {payload : Bytes} {sent : PresenceFrame}
    (h : decodePresence J payload = some sent) :
    sent.instanceId.length = 16 ∧ sent.sequence ≠ 0 ∧ sent.sequence ≤ maxPresenceSequence ∧
      sent.entries.length ≤ 256 ∧
        ∀ entry ∈ sent.entries, entry.deleted = false → J.serdeAccepts entry.value = true := by
  simp only [decodePresence, Option.bind_eq_bind, Option.bind_eq_some_iff, Option.guard_eq_some'] at h
  obtain ⟨_, _, _, _, ⟨instanceId, _⟩, hinstance, ⟨sequence, _⟩, _, _, hsequence, ⟨count, _⟩, _, _, hcount,
    ⟨entries, _⟩, hentries, _, _, heq⟩ := h
  obtain ⟨hlength, hserde⟩ := decodePresenceEntries_spec hentries
  cases heq
  refine ⟨?_, hsequence.1, hsequence.2, hlength ▸ hcount, hserde⟩
  unfold takeBytes at hinstance
  split at hinstance
  · next hle =>
    cases hinstance
    exact length_take_of_le hle
  · simp at hinstance

variable {conn : ConnId}

variable {sent relayed : PresenceEntry} {actor : RoomActor} {color : Nat}

theorem rewriteEntry_spec
    (h : rewriteEntry J actor conn color sent = some relayed) :
    ∃ prior suffix, splitOnceCm sent.key = some (prior, suffix) ∧
      relayed.key = presenceOwner actor ++ ['-', 'c', 'm', '-'] ++ suffix ∧
      relayed.deleted = sent.deleted ∧ relayed.age = sent.age ∧
      relayed.value = if suffix = ['u', 's', 'e', 'r'] ∧ sent.deleted = false then J.userValue actor conn color
        else sent.value := by
  simp only [rewriteEntry, Option.bind_eq_bind, Option.bind_eq_some_iff, Option.guard_eq_some'] at h
  obtain ⟨⟨prior, suffix⟩, hsplit, -, -, h⟩ := h
  refine ⟨prior, suffix, hsplit, ?_⟩
  split at h
  · next hc => rw [← Option.some.inj h]; exact ⟨rfl, rfl, rfl, (if_pos hc).symm⟩
  · next hc => rw [← Option.some.inj h]; exact ⟨rfl, rfl, rfl, (if_neg hc).symm⟩

/-- A relay the room put together from what it took. -/
structure Wired (J : PresenceJson) (relay : Relay) : Prop where
  instanceId : relay.frame.instanceId.length = 16
  sequence : relay.frame.sequence ≠ 0 ∧ relay.frame.sequence ≤ maxSafeInteger
  owned : ∀ entry ∈ relay.frame.entries, Owned entry.key
  removals : relay.source = none → ∀ entry ∈ relay.frame.entries, entry.deleted = true
  rewritten : ∀ conn actor color payload, relay.source = some (conn, actor, color, payload) →
    (encodePresence relay.frame).length ≤ maxEphemeralBytes ∧
      ∃ sent, decodePresence J payload = some sent ∧ relay.frame.instanceId = sent.instanceId ∧
        relay.frame.sequence = sent.sequence ∧
          List.Forall₂ (fun entry relayed => rewriteEntry J actor conn color entry = some relayed) sent.entries
            relay.frame.entries

structure Wiring (J : PresenceJson) (room : PresenceRoom) : Prop where
  relays : ∀ relay ∈ room.out, Wired J relay
  keys : ∀ conn s, room.socket conn = some s → ∀ key ∈ s.presenceKeys, Owned key
  leases : ∀ owner lease, room.activePresence.lookup owner = some lease →
    lease.instanceId.length = 16 ∧ lease.sequence < maxPresenceSequence ∧ ∀ key ∈ lease.keys, Owned key

theorem updatedKeys_owned {keys : List PresenceKey}
    (hentries : ∀ entry ∈ entries, Owned entry.key) (hkeys : ∀ key ∈ keys, Owned key) :
    ∀ key ∈ entries.foldl updatedKeys keys, Owned key := by
  induction entries generalizing keys with
  | nil => exact hkeys
  | cons entry entries ih =>
    refine ih (fun e he => hentries e (mem_cons_of_mem entry he)) fun key hkey => ?_
    unfold updatedKeys at hkey
    split at hkey
    · exact hkeys key (mem_of_mem_filter hkey)
    split at hkey
    · exact hkeys key hkey
    · rcases mem_append.mp hkey with hkey | hkey
      · exact hkeys key hkey
      · exact mem_singleton.mp hkey ▸ hentries entry mem_cons_self

theorem sockets_wiring {room' : PresenceRoom} (h : Wiring J room) (ho : room'.out = room.out)
    (ha : room'.activePresence = room.activePresence)
    (hs : ∀ conn s, room'.socket conn = some s → s.presenceKeys = [] ∨
      ∃ s₀, room.socket conn = some s₀ ∧ s₀.presenceKeys = s.presenceKeys) : Wiring J room' where
  relays := by rw [ho]; exact h.relays
  keys := by
    intro conn s hsocket key hkey
    rcases hs conn s hsocket with hnil | ⟨s₀, hs₀, heq⟩
    · rw [hnil] at hkey
      cases hkey
    · exact h.keys conn s₀ hs₀ key (heq ▸ hkey)
  leases := by rw [ha]; exact h.leases

variable {owner : PresenceKey}

theorem retire_wiring (h : Wiring J room) {lease : PresenceLease}
    (hlease : room.activePresence.lookup owner = some lease) (stalled : List ConnId) :
    Wiring J (room.retire lease stalled) := by
  obtain ⟨hout, hleases, -⟩ := @retire_out room lease stalled
  obtain ⟨hinstance, hsequence, hkeys⟩ := h.leases owner lease hlease
  refine ⟨fun relay hrelay => ?_, fun conn s hs key hkey => ?_, by rw [hleases]; exact h.leases⟩
  · rw [hout] at hrelay
    rcases mem_append.mp hrelay with hrelay | hrelay
    · exact h.relays relay hrelay
    rw [mem_singleton.mp hrelay]
    refine ⟨hinstance, ⟨Nat.succ_ne_zero _, hsequence⟩, fun entry hentry => ?_, fun _ entry hentry => ?_, ?_⟩
    · obtain ⟨key, hkey, heq⟩ := mem_map.mp hentry
      rw [← heq]
      exact hkeys key hkey
    · obtain ⟨key, -, heq⟩ := mem_map.mp hentry
      rw [← heq]
    · exact fun _ _ _ _ hsource => by cases hsource
  · rw [retire_socket] at hs
    split at hs
    · obtain ⟨s₀, -, heq⟩ := Option.map_eq_some_iff.mp hs
      rw [← heq] at hkey
      cases hkey
    split at hs
    · simp at hs
    · exact h.keys conn s hs key hkey

theorem publish_wiring (h : Wiring J room) {s : PresenceSocket} (hs : room.socket conn = some s)
    (hinstance : frame.instanceId.length = 16)
    (hsequence : frame.sequence < maxPresenceSequence) (howned : ∀ entry ∈ frame.entries, Owned entry.key) :
    Wiring J (room.publish owner conn frame) := by
  obtain ⟨keys, hkeys, hown, hothers, hout, -, hsockets⟩ := publish_spec hs owner frame
  have hall : ∀ key ∈ keys, Owned key := hkeys ▸ updatedKeys_owned howned (h.keys conn s hs)
  refine ⟨by rw [hout]; exact h.relays, fun c s' hc key hkey => ?_, fun other lease hlease => ?_⟩
  · rw [hsockets] at hc
    split at hc
    · rw [← Option.some.inj hc] at hkey
      exact hall key hkey
    · exact h.keys c s' hc key hkey
  · by_cases hother : other = owner
    · subst hother
      rw [← Option.some.inj (hown.symm.trans hlease)]
      exact ⟨hinstance, hsequence, hall⟩
    · exact h.leases other lease ((hothers other hother) ▸ hlease)

theorem frame_wiring (h : Wiring J room) (conn : ConnId) (payload : Bytes) (allowed : Bool)
    (stalled : List ConnId) : Wiring J (room.clientPresence J conn payload allowed stalled) := by
  unfold clientPresence
  split
  · exact h
  next s hs =>
  split
  · exact h
  next frame haccepts =>
  obtain ⟨sent, hsent, hinst, hseq, -, hmax, -, hlater, hentries⟩ := accepts_spec haccepts
  obtain ⟨hinstance, -, hle, -, -⟩ := decodePresence_spec hsent
  have hrewritten := mapM_forall₂ hentries
  have howned : ∀ entry ∈ frame.entries, Owned entry.key := by
    intro entry hentry
    obtain ⟨sentEntry, -, heq⟩ := forall₂_right hrewritten hentry
    obtain ⟨prior, suffix, -, hkey, -⟩ := rewriteEntry_spec heq
    exact ⟨s.actor.esbtSite, suffix, hkey⟩
  have hbelow : frame.sequence < maxPresenceSequence := by
    rw [hseq]
    exact Nat.lt_of_le_of_ne hle hmax
  have hpublished : ∀ mid : PresenceRoom, Wiring J mid → ¬ maxEphemeralBytes < (encodePresence frame).length →
      (mid.socket conn).isSome = true ∨ mid.publish (presenceOwner s.actor) conn frame = mid →
      Wiring J ((mid.publish (presenceOwner s.actor) conn frame).record
        ⟨some (conn, s.actor, s.color, payload), frame⟩) := by
    intro mid hmid hfits hcase
    have hwiring : Wiring J (mid.publish (presenceOwner s.actor) conn frame) := by
      rcases hcase with hsome | hsame
      · obtain ⟨s₁, hs₁⟩ := Option.isSome_iff_exists.mp hsome
        exact publish_wiring hmid hs₁ (hinst ▸ hinstance) hbelow howned
      · exact hsame.symm ▸ hmid
    refine ⟨fun relay hrelay => ?_, hwiring.keys, hwiring.leases⟩
    rcases mem_append.mp hrelay with hrelay | hrelay
    · exact hwiring.relays relay hrelay
    rw [mem_singleton.mp hrelay]
    refine ⟨hinst ▸ hinstance, ⟨Nat.ne_of_gt (Nat.zero_lt_of_lt hlater), Nat.le_of_lt hbelow⟩, howned,
      fun hnone => absurd hnone (by simp), fun conn' actor color payload' hsource => ?_⟩
    injection Option.some.inj hsource with hconn hrest
    injection hrest with hactor hrest
    injection hrest with hcolor hpayload
    subst hconn hactor hcolor hpayload
    exact ⟨Nat.not_lt.mp hfits, sent, hsent, hinst, hseq, hrewritten⟩
  have hcases : ∀ mid : PresenceRoom,
      (mid.socket conn).isSome = true ∨ mid.publish (presenceOwner s.actor) conn frame = mid := by
    intro mid
    cases hmid : mid.socket conn with
    | some s₁ => exact Or.inl rfl
    | none => exact Or.inr (by simp only [publish, hmid])
  cases hsuperseded : room.superseded (presenceOwner s.actor) s frame.instanceId with
  | none =>
    simp only [hsuperseded]
    split
    · exact h
    · next hfits => exact hpublished room h hfits (hcases room)
  | some lease =>
    have hmid : Wiring J (room.retire lease stalled) := by
      unfold superseded at hsuperseded
      split at hsuperseded
      · exact retire_wiring h (Option.filter_eq_some_iff.mp hsuperseded).1 stalled
      · simp at hsuperseded
    simp only [hsuperseded]
    split
    · exact hmid
    · next hfits => exact hpublished _ hmid hfits (hcases _)

theorem step_wiring {e : PresenceEvent} (h : Wiring J room) : Wiring J (room.step J e) := by
  cases e with
  | join actor color =>
    refine sockets_wiring h rfl rfl fun conn s hs => ?_
    simp only [step, socket, List.lookup_append] at hs
    cases hold : room.sockets.lookup conn with
    | some s₀ =>
      rw [hold, Option.some_or] at hs
      exact Or.inr ⟨s₀, hold, by rw [Option.some.inj hs]⟩
    | none =>
      rw [hold, Option.none_or, List.lookup_cons] at hs
      split at hs
      · exact Or.inl (by rw [← Option.some.inj hs])
      · simp at hs
  | leave conn =>
    refine sockets_wiring h rfl rfl fun c s hs => ?_
    rw [step, socket_closeOne] at hs
    split at hs
    · simp at hs
    · exact Or.inr ⟨s, hs, rfl⟩
  | resolved conn actor =>
    simp only [step]
    split
    · next s₀ hs₀ =>
      split
      · refine sockets_wiring h rfl rfl fun c s hs => ?_
        rw [socket_setSocket] at hs
        by_cases hc : c = conn
        · rw [if_pos hc, hs₀] at hs
          exact Or.inr ⟨s₀, hc ▸ hs₀, by rw [← Option.some.inj hs]⟩
        · rw [if_neg hc] at hs
          exact Or.inr ⟨s, hs, rfl⟩
      · exact h
    · exact h
  | frame conn payload allowed stalled => exact frame_wiring h conn payload allowed stalled

theorem after_wiring (J : PresenceJson) (events : List PresenceEvent) : Wiring J (after J events) := by
  have hinit : Wiring J init :=
    ⟨fun _ hrelay => absurd hrelay not_mem_nil, fun _ _ hs => absurd hs (by simp [init, socket]),
      fun _ _ hlease => absurd hlease (by simp [init])⟩
  refine Transition.run_inv (C := fun _ _ => True) (I := Wiring J) (fun _ _ h _ => step_wiring h) hinit ?_
  exact Transition.along_of fun _ _ => trivial

/-! ## Delivery -/

/-- What a receiver gets for an entry: under the sender's own site, with the sender's payload, or with the
room's identity of the sender where the entry is the user's. -/
def Delivers (J : PresenceJson) (conn : ConnId) (actor : RoomActor) (color : Nat) (sent : PresenceEntry)
    (decoded : DecodedEntry J.Value) : Prop :=
  ∃ prior suffix, splitOnceCm sent.key = some (prior, suffix) ∧
    decoded.key = presenceOwner actor ++ ['-', 'c', 'm', '-'] ++ suffix ∧ decoded.deleted = sent.deleted ∧
    (sent.deleted = false → decoded.age = min sent.age 30000 ∧ decoded.value.isSome = true ∧
      decoded.value = J.parse (if suffix = ['u', 's', 'e', 'r'] then J.userValue actor conn color
        else sent.value))

/-- The room's limits leave these to the client's. -/
def WithinLimits (relay : Relay) : Prop :=
  (∀ entry ∈ relay.frame.entries, (keyBytes entry.key).length ≤ 256) ∧
    (relay.retires = true →
      relay.frame.entries.length ≤ 256 ∧ (encodePresence relay.frame).length ≤ maxPresenceBytes)

instance (relay : Relay) : Decidable (WithinLimits relay) := inferInstanceAs (Decidable (_ ∧ _))

theorem value_length (h : entry ∈ frame.entries)
    (hlive : entry.deleted = false) : entry.value.length ≤ (encodePresence frame).length := by
  have hentry : entry.value.length ≤ (encodePresenceEntry entry).length := by
    simp only [encodePresenceEntry, hlive, Bool.false_eq_true, if_false, length_append, length_cons]
    omega
  have hflat : (encodePresenceEntry entry).length ≤ (frame.entries.flatMap encodePresenceEntry).length := by
    obtain ⟨before, after, heq⟩ := append_of_mem h
    rw [heq]
    simp only [flatMap_append, flatMap_cons, length_append]
    omega
  simp only [encodePresence, length_append]
  omega

theorem delivers_shown (hserde : ∀ bytes, J.serdeAccepts bytes = true → (J.parse bytes).isSome = true)
    (huser : ∀ actor conn color, (J.parse (J.userValue actor conn color)).isSome = true)
    (haccepted : sent.deleted = false → J.serdeAccepts sent.value = true)
    (h : rewriteEntry J actor conn color sent = some relayed) :
    Delivers J conn actor color sent (relayed.shown J) := by
  obtain ⟨prior, suffix, hsplit, hkey, hdeleted, hage, hvalue⟩ := rewriteEntry_spec h
  refine ⟨prior, suffix, hsplit, ?_⟩
  cases hlive : sent.deleted with
  | true =>
    rw [hlive] at hdeleted
    simp [PresenceEntry.shown, hdeleted, hkey]
  | false =>
    rw [hlive] at hdeleted
    simp only [hlive, and_true] at hvalue
    simp only [PresenceEntry.shown, hdeleted, Bool.false_eq_true, if_false, hkey, hage, hvalue, true_and]
    refine fun _ => ⟨?_, trivial⟩
    split
    · exact huser actor conn color
    · exact hserde _ (haccepted hlive)

/-- A relay is accepted in full, and one that a connection sent arrives with its instance, its sequence and
all its entries. -/
def Delivered (J : PresenceJson) (relay : Relay) : Prop :=
  ∃ decoded, decodeFrame J (encodePresence relay.frame) = some decoded ∧
    decoded.instanceId = relay.frame.instanceId ∧ decoded.sequence = relay.frame.sequence ∧
    match relay.source with
    | none => decoded.entries = relay.frame.entries.map fun entry => ⟨entry.key, true, 0, none⟩
    | some (conn, actor, color, payload) => ∃ sent, decodePresence J payload = some sent ∧
        decoded.instanceId = sent.instanceId ∧ decoded.sequence = sent.sequence ∧
        List.Forall₂ (Delivers J conn actor color) sent.entries decoded.entries

/-- **Delivery.** -/
theorem relayed_presence_decodes (J : PresenceJson)
    (hserde : ∀ bytes, J.serdeAccepts bytes = true → (J.parse bytes).isSome = true)
    (huser : ∀ actor conn color, (J.parse (J.userValue actor conn color)).isSome = true)
    (events : List PresenceEvent) (relay : Relay) (hrelay : relay ∈ (after J events).out)
    (hlimits : WithinLimits relay) : Delivered J relay := by
  obtain ⟨hkeys, htombstone⟩ := hlimits
  have hwired := (after_wiring J events).relays relay hrelay
  obtain ⟨source, frame⟩ := relay
  cases source with
  | none =>
    obtain ⟨hcount, hbytes⟩ := htombstone rfl
    have hremovals := hwired.removals rfl
    have hdecodable : ∀ entry ∈ frame.entries, Decodable J entry := fun entry he =>
      ⟨(hwired.owned entry he).digit, hkeys entry he, fun hlive => by simp [hremovals entry he] at hlive⟩
    have hlegible : ∀ entry ∈ frame.entries, Legible J entry := fun entry he => (hdecodable entry he).legible
    refine ⟨_, decodeFrame_encode hwired.instanceId hwired.sequence hcount hbytes hlegible, rfl, rfl, ?_⟩
    refine map_congr_left fun entry he => ?_
    simp only [PresenceEntry.shown, hremovals entry he, if_true]
  | some origin =>
    obtain ⟨conn, actor, color, payload⟩ := origin
    obtain ⟨hbytes, sent, hsent, hinst, hseq, hrewritten⟩ := hwired.rewritten conn actor color payload rfl
    obtain ⟨-, -, -, hcount, hserdes⟩ := decodePresence_spec hsent
    have hparses : ∀ entry ∈ frame.entries, entry.deleted = false → (J.parse entry.value).isSome = true := by
      intro entry he hlive
      obtain ⟨sentEntry, hs, heq⟩ := forall₂_right hrewritten he
      obtain ⟨prior, suffix, -, -, hdeleted, -, hvalue⟩ := rewriteEntry_spec heq
      rw [hvalue]
      split
      · exact huser actor conn color
      · exact hserde _ (hserdes sentEntry hs (hdeleted ▸ hlive))
    have hdecodable : ∀ entry ∈ frame.entries, Decodable J entry := by
      intro entry he
      refine ⟨(hwired.owned entry he).digit, hkeys entry he, fun hlive => ⟨?_, hparses entry he hlive⟩⟩
      exact (value_length he hlive).trans (hbytes.trans (by decide))
    have hcount' : frame.entries.length ≤ 256 := hrewritten.length_eq ▸ hcount
    have hall : (encodePresence frame).length ≤ maxPresenceBytes := hbytes.trans (by decide)
    have hlegible : ∀ entry ∈ frame.entries, Legible J entry := fun entry he => (hdecodable entry he).legible
    refine ⟨_, decodeFrame_encode hwired.instanceId hwired.sequence hcount' hall hlegible, rfl, rfl, sent, hsent,
      hinst, hseq, ?_⟩
    have hboth := (forall₂_and_left sent.entries frame.entries).mpr ⟨hserdes, hrewritten⟩
    refine forall₂_map_right_iff.mpr (hboth.imp fun sentEntry entry hentry => ?_)
    exact delivers_shown hserde huser hentry.1 hentry.2

theorem digitJson_serde (bytes : Bytes) (h : digitJson.serdeAccepts bytes = true) :
    (digitJson.parse bytes).isSome = true := by
  match bytes with
  | [b] =>
    have hdigit : 48 ≤ b ∧ b ≤ 57 := by simpa [digitJson] using h
    simp [digitJson, hdigit]
  | [] => simp [digitJson] at h
  | _ :: _ :: _ => simp [digitJson] at h

theorem digitJson_user (actor : RoomActor) (conn : ConnId) (color : Nat) :
    (digitJson.parse (digitJson.userValue actor conn color)).isSome = true := by
  have hall : ∀ i : Fin 10, (48 : UInt8) ≤ UInt8.ofNat (48 + i.val) ∧ UInt8.ofNat (48 + i.val) ≤ 57 := by decide
  have hdigit := hall ⟨color % 10, Nat.mod_lt _ (by decide)⟩
  show (if _ then some _ else none).isSome = true
  rw [if_pos hdigit]
  rfl

instance : DecidableEq digitJson.Value := inferInstanceAs (DecidableEq Nat)

def digit (n : Nat) : digitJson.Value := n

theorem reconnecting_delivered : ∃ relay ∈ (after digitJson reconnecting).out, Delivered digitJson relay := by
  have hne : (after digitJson reconnecting).out ≠ [] := by decide +kernel
  have hlimits : ∀ relay ∈ (after digitJson reconnecting).out, WithinLimits relay := by decide +kernel
  obtain ⟨relay, hrelay⟩ := exists_mem_of_ne_nil _ hne
  exact ⟨relay, hrelay,
    relayed_presence_decodes digitJson digitJson_serde digitJson_user reconnecting relay hrelay (hlimits relay hrelay)⟩

end PresenceRoom

end Marks
