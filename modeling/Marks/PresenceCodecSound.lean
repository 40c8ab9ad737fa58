import Marks.PresenceWire

/-! # The room's presence codec

What the room decodes is the encoding of what it got, byte for byte, with the ages as they were sent; what it encodes
it decodes again, with the ages it clamped. -/

namespace Marks

open List

/-! ## Integers -/

variable {byte : UInt8}

theorem byte_last (h : byte &&& 0x80 = 0) : byte = UInt8.ofNat (byte &&& 0x7f).toNat := by
  have hall : ∀ i : Fin 256, UInt8.ofNat i.val &&& 0x80 = 0 →
      UInt8.ofNat i.val = UInt8.ofNat (UInt8.ofNat i.val &&& 0x7f).toNat := by decide +kernel
  have hbyte := hall ⟨byte.toNat, byte.toNat_lt⟩
  rw [UInt8.ofNat_toNat] at hbyte
  exact hbyte h

theorem byte_more (h : byte &&& 0x80 ≠ 0) : byte = UInt8.ofNat ((byte &&& 0x7f).toNat + 128) := by
  have hall : ∀ i : Fin 256, UInt8.ofNat i.val &&& 0x80 ≠ 0 →
      UInt8.ofNat i.val = UInt8.ofNat ((UInt8.ofNat i.val &&& 0x7f).toNat + 128) := by decide +kernel
  have hbyte := hall ⟨byte.toNat, byte.toNat_lt⟩
  rw [UInt8.ofNat_toNat] at hbyte
  exact hbyte h

theorem low_lt (byte : UInt8) : (byte &&& 0x7f).toNat < 128 := by
  have hall : ∀ i : Fin 256, (UInt8.ofNat i.val &&& 0x7f).toNat < 128 := by decide +kernel
  have hbyte := hall ⟨byte.toNat, byte.toNat_lt⟩
  rw [UInt8.ofNat_toNat] at hbyte
  exact hbyte

variable {value shift : Nat}

theorem or_shift (h : value < 2 ^ shift) (x : Nat) : value ||| x <<< shift = value + x * 2 ^ shift := by
  rw [Nat.or_comm, ← Nat.shiftLeft_add_eq_or_of_lt h, Nat.shiftLeft_eq, Nat.add_comm]

theorem or_shift_lt {x : Nat} (h : value < 2 ^ shift) (hx : x < 128) :
    value + x * 2 ^ shift < 2 ^ (shift + 7) := by
  calc value + x * 2 ^ shift < 2 ^ shift + x * 2 ^ shift := Nat.add_lt_add_right h _
    _ = (x + 1) * 2 ^ shift := by ring
    _ ≤ 128 * 2 ^ shift := Nat.mul_le_mul_right _ hx
    _ = 2 ^ (shift + 7) := by ring

theorem presenceUintFrom_full (h : 63 ≤ shift) (input : Bytes) :
    presenceUintFrom value shift false input = none := by
  induction input generalizing value shift with
  | nil => rfl
  | cons byte input ih =>
    unfold presenceUintFrom
    by_cases hlow : byte &&& 0x7f = 0
    · rw [if_neg (fun hbits => hbits.2 hlow)]
      by_cases hlast : byte &&& 0x80 = 0
      · have hzero : byte = 0 := by
          rw [byte_last hlast, hlow]
          rfl
        simp only [if_pos hlast]
        exact if_pos ⟨rfl, hzero⟩
      · simp only [if_neg hlast]
        exact ih (by omega)
    · exact if_pos ⟨h, hlow⟩

variable {groups m : Nat}

theorem putFrom_small (h : m / 128 = 0) :
    presencePutUintFrom (groups + 1) m = [UInt8.ofNat (m % 128)] := if_pos h

theorem putFrom_large (h : m / 128 ≠ 0) : presencePutUintFrom (groups + 1) m =
    UInt8.ofNat (m % 128 + 128) :: presencePutUintFrom groups (m / 128) := if_neg h

theorem putFrom_more (groups : Nat) (hm : m < 128 ^ (groups + 1)) :
    presencePutUintFrom (groups + 2) m = presencePutUintFrom (groups + 1) m := by
  induction groups generalizing m with
  | zero =>
    have hsmall : m / 128 = 0 := Nat.div_eq_of_lt hm
    rw [putFrom_small hsmall, putFrom_small hsmall]
  | succ groups ih =>
    by_cases hsmall : m / 128 = 0
    · rw [putFrom_small hsmall, putFrom_small hsmall]
    have hrest : m / 128 < 128 ^ (groups + 1) := by
      rw [Nat.div_lt_iff_lt_mul (by decide), ← Nat.pow_succ]
      exact hm
    rw [putFrom_large hsmall, putFrom_large hsmall, ih hrest]

variable {n : Nat} {input rest : Bytes}

theorem presenceUintFrom_canonical (groups : Nat) {first : Bool}
    (hgroups : shift + 7 * groups = 63) (hfirst : first = true → shift = 0) (hvalue : value < 2 ^ shift)
    (h : presenceUintFrom value shift first input = some (n, rest)) :
    ∃ m, n = value + m * 2 ^ shift ∧ (first = false → m ≠ 0) ∧ m < 128 ^ groups ∧
      input = presencePutUintFrom groups m ++ rest := by
  induction groups generalizing value shift first input with
  | zero =>
    have hfull : first = false := by
      cases first with
      | false => rfl
      | true =>
        have := hfirst rfl
        omega
    rw [hfull, presenceUintFrom_full (by omega)] at h
    cases h
  | succ groups ih =>
    cases input with
    | nil => cases h
    | cons byte input =>
      have hlow := low_lt byte
      unfold presenceUintFrom at h
      rw [if_neg (by omega), or_shift hvalue] at h
      by_cases hlast : byte &&& 0x80 = 0
      · simp only [if_pos hlast] at h
        split at h
        · cases h
        rename_i hminimal
        cases h
        refine ⟨(byte &&& 0x7f).toNat, rfl, ?_, ?_, ?_⟩
        · intro hmore hzero
          refine hminimal ⟨by rw [hmore]; rfl, ?_⟩
          rw [byte_last hlast, hzero]
          rfl
        · exact lt_of_lt_of_le hlow (Nat.le_self_pow (by omega) 128)
        · rw [putFrom_small (Nat.div_eq_of_lt hlow), Nat.mod_eq_of_lt hlow, ← byte_last hlast]
          rfl
      · simp only [if_neg hlast] at h
        obtain ⟨m, hn, hm, hbound, hinput⟩ :=
          ih (by omega) (fun hfalse => by cases hfalse) (or_shift_lt hvalue hlow) h
        have hnonzero := hm rfl
        have hdiv : ((byte &&& 0x7f).toNat + 128 * m) / 128 = m := by omega
        have hmod : ((byte &&& 0x7f).toNat + 128 * m) % 128 = (byte &&& 0x7f).toNat := by omega
        refine ⟨(byte &&& 0x7f).toNat + 128 * m, ?_, fun _ => by omega, ?_, ?_⟩
        · rw [hn]
          ring
        · rw [Nat.pow_succ]
          omega
        · rw [putFrom_large (hdiv.symm ▸ hnonzero), hdiv, hmod, ← byte_more hlast, hinput]
          rfl

theorem presenceUint_canonical (h : presenceUint input = some (n, rest)) :
    input = presencePutUint n ++ rest := by
  obtain ⟨m, hn, -, hbound, hinput⟩ := presenceUintFrom_canonical 9 rfl (fun _ => rfl) Nat.one_pos h
  have hm : n = m := by
    rw [hn]
    omega
  rw [hinput, hm]
  unfold presencePutUint
  rw [putFrom_more 8 hbound]

theorem presenceUintFrom_put {first : Bool}
    (hgroups : shift + 7 * groups ≤ 56) (hvalue : value < 2 ^ shift) (hm : m < 128 ^ (groups + 1))
    (hfirst : m = 0 → first = true) :
    presenceUintFrom value shift first (presencePutUintFrom (groups + 1) m ++ rest) =
      some (value + m * 2 ^ shift, rest) := by
  induction groups generalizing value shift m first with
  | zero =>
    have hsmall : m < 128 := hm
    obtain ⟨hlow, hlast⟩ := byte_low m hsmall
    rw [putFrom_small (Nat.div_eq_of_lt hsmall), Nat.mod_eq_of_lt hsmall]
    show presenceUintFrom value shift first (UInt8.ofNat m :: rest) = _
    unfold presenceUintFrom
    rw [if_neg (by omega), hlow, or_shift hvalue]
    simp only [if_pos hlast]
    refine if_neg fun hzero => ?_
    rw [hfirst (byte_zero hsmall hzero.2)] at hzero
    cases hzero.1
  | succ groups ih =>
    by_cases hsmall : m / 128 = 0
    · have hm : m < 128 := by omega
      obtain ⟨hlow, hlast⟩ := byte_low m hm
      rw [putFrom_small hsmall, Nat.mod_eq_of_lt hm]
      show presenceUintFrom value shift first (UInt8.ofNat m :: rest) = _
      unfold presenceUintFrom
      rw [if_neg (by omega), hlow, or_shift hvalue]
      simp only [if_pos hlast]
      refine if_neg fun hzero => ?_
      rw [hfirst (byte_zero hm hzero.2)] at hzero
      cases hzero.1
    · have hpart := Nat.mod_lt m (show 0 < 128 by decide)
      obtain ⟨hlow, hmore⟩ := byte_high (m % 128) hpart
      have hrest : m / 128 < 128 ^ (groups + 1) := by
        rw [Nat.div_lt_iff_lt_mul (by decide), ← Nat.pow_succ]
        exact hm
      rw [putFrom_large hsmall, cons_append]
      unfold presenceUintFrom
      rw [if_neg (by omega), hlow, or_shift hvalue]
      simp only [if_neg hmore]
      rw [ih (by omega) (or_shift_lt hvalue hpart) hrest (fun hz => absurd hz hsmall)]
      have hsplit : m % 128 * 2 ^ shift + m / 128 * 2 ^ (shift + 7) = m * 2 ^ shift := by
        calc m % 128 * 2 ^ shift + m / 128 * 2 ^ (shift + 7)
            = (m % 128 + 128 * (m / 128)) * 2 ^ shift := by ring
          _ = m * 2 ^ shift := by rw [Nat.mod_add_div]
      rw [Nat.add_assoc, hsplit]

theorem presenceUint_put (h : n < 128 ^ 9) (rest : Bytes) :
    presenceUint (presencePutUint n ++ rest) = some (n, rest) := by
  unfold presenceUint presencePutUint
  rw [putFrom_more 8 h, presenceUintFrom_put (by decide) Nat.one_pos h (fun _ => rfl)]
  simp

/-! ## Byte strings and keys -/

theorem takeBytes_spec {bytes : Bytes} (h : takeBytes n input = some (bytes, rest)) :
    input = bytes ++ rest ∧ bytes.length = n := by
  unfold takeBytes at h
  split at h
  · rename_i hn
    cases h
    exact ⟨(take_append_drop n input).symm, length_take_of_le hn⟩
  · cases h

theorem takeByte_spec (h : takeByte input = some (byte, rest)) :
    input = byte :: rest := by
  unfold takeByte at h
  split at h
  · cases h
  · cases h
    rfl

theorem fromUtf8_spec {bytes : Bytes} {key : PresenceKey} (h : fromUtf8 bytes = some key) : keyBytes key = bytes := by
  unfold fromUtf8 at h
  obtain ⟨chars, hchars, rfl⟩ := Option.map_eq_some_iff.mp h
  have hencoded : chars.toList.utf8Encode = bytes.toByteArray := by
    have hget : bytes.toByteArray.utf8Decode?.get (Option.isSome_of_eq_some hchars) = chars :=
      Option.get_of_eq_some _ hchars
    rw [← hget]
    exact ByteArray.utf8Encode_get_utf8Decode?
  exact toByteArray_inj.mp hencoded

/-! ## What is decoded -/

variable {entry : PresenceEntry}

section
variable {J : PresenceJson}

def encodePresenceEntryUnclamped (entry : PresenceEntry) : Bytes :=
  presencePutUint (keyBytes entry.key).length ++ keyBytes entry.key ++
    if entry.deleted then [1]
    else 0 :: (presencePutUint entry.age ++ (presencePutUint entry.value.length ++ entry.value))

def encodePresenceUnclamped (frame : PresenceFrame) : Bytes :=
  [presenceTag, presenceVersion] ++ (frame.instanceId ++ (presencePutUint frame.sequence ++
    (presencePutUint frame.entries.length ++ frame.entries.flatMap encodePresenceEntryUnclamped)))

theorem decodePresenceEntry_canonical
    (h : decodePresenceEntry J input = some (entry, rest)) : input = encodePresenceEntryUnclamped entry ++ rest := by
  simp only [decodePresenceEntry, Option.bind_eq_bind, Option.bind_eq_some_iff, Option.guard_eq_some'] at h
  obtain ⟨⟨keyLen, afterLen⟩, hlen, -, -, ⟨bytes, afterKey⟩, hbytes, key, hkey, ⟨flags, afterFlags⟩, hflags, h⟩ := h
  dsimp only at hbytes hkey hflags h
  obtain ⟨hsplit, hlength⟩ := takeBytes_spec hbytes
  have hkeyBytes := fromUtf8_spec hkey
  have hhead : input = presencePutUint (keyBytes key).length ++ keyBytes key ++ flags :: afterFlags := by
    rw [presenceUint_canonical hlen, hkeyBytes, hlength, append_assoc, hsplit, takeByte_spec hflags]
  split at h
  · rename_i hdeleted
    cases h
    rw [hhead, hdeleted]
    unfold encodePresenceEntryUnclamped
    simp
  · simp only [Option.bind_eq_some_iff, Option.guard_eq_some'] at h
    obtain ⟨-, hlive, ⟨age, afterAge⟩, hage, ⟨valueLen, afterValueLen⟩, hvalueLen, -, -, ⟨value, afterValue⟩, hvalue,
      -, -, h⟩ := h
    cases h
    dsimp only at hage hvalueLen hvalue ⊢
    obtain ⟨hrest, hvalueLength⟩ := takeBytes_spec hvalue
    have hagePut := presenceUint_canonical hage
    have hlenPut := presenceUint_canonical hvalueLen
    rw [hhead, hlive, hagePut, hlenPut, hrest, ← hvalueLength]
    unfold encodePresenceEntryUnclamped
    simp

theorem decodePresenceEntries_canonical {count : Nat} {entries : List PresenceEntry}
    (h : decodePresenceEntries J count input = some (entries, rest)) :
    input = entries.flatMap encodePresenceEntryUnclamped ++ rest ∧ entries.length = count := by
  induction count generalizing input rest entries with
  | zero =>
    cases h
    exact ⟨rfl, rfl⟩
  | succ count ih =>
    simp only [decodePresenceEntries, Option.bind_eq_bind, Option.bind_eq_some_iff] at h
    obtain ⟨⟨entry, mid⟩, hentry, ⟨others, last⟩, hothers, h⟩ := h
    cases h
    dsimp only at hothers ⊢
    obtain ⟨hmid, hlength⟩ := ih hothers
    refine ⟨?_, congrArg Nat.succ hlength⟩
    rw [decodePresenceEntry_canonical hentry, hmid, flatMap_cons, append_assoc]

theorem decodePresence_canonical {frame : PresenceFrame} (h : decodePresence J input = some frame) :
    encodePresenceUnclamped frame = input := by
  simp only [decodePresence, Option.bind_eq_bind, Option.bind_eq_some_iff, Option.guard_eq_some'] at h
  obtain ⟨⟨header, afterHeader⟩, htake, -, hheader, ⟨instanceId, afterInstance⟩, hinstance, ⟨sequence, afterSequence⟩,
    hsequence, -, -, ⟨count, afterCount⟩, hcount, -, -, ⟨entries, last⟩, hentries, -, hlast, h⟩ := h
  cases h
  dsimp only at hheader hinstance hsequence hcount hentries hlast ⊢
  obtain ⟨hinput, -⟩ := takeBytes_spec htake
  obtain ⟨hafterHeader, -⟩ := takeBytes_spec hinstance
  obtain ⟨hafterCount, hlength⟩ := decodePresenceEntries_canonical hentries
  have hsequencePut := presenceUint_canonical hsequence
  have hcountPut := presenceUint_canonical hcount
  rw [hinput, hheader, hafterHeader, hsequencePut, hcountPut, hafterCount, hlast, ← hlength]
  unfold encodePresenceUnclamped
  simp

/-! ## What is encoded -/

def PresenceEntry.sent (entry : PresenceEntry) : PresenceEntry :=
  if entry.deleted then ⟨entry.key, true, 0, []⟩ else { entry with age := min entry.age 30000 }

structure PresenceEntry.Within (J : PresenceJson) (entry : PresenceEntry) : Prop where
  key : entry.key ≠ []
  keySize : (keyBytes entry.key).length ≤ 256
  valueSize : entry.deleted = false → entry.value.length ≤ 16 * 1024
  json : entry.deleted = false → J.serdeAccepts entry.value = true

theorem keyBytes_ne_nil {key : PresenceKey} (h : key ≠ []) : (keyBytes key).length ≠ 0 := by
  intro hlength
  have hdecoded := fromUtf8_keyBytes key
  have hnil : fromUtf8 [] = some ([] : PresenceKey) := fromUtf8_keyBytes []
  rw [length_eq_zero_iff.mp hlength, hnil] at hdecoded
  exact h (Option.some.inj hdecoded).symm

theorem decodePresenceEntry_put (h : entry.Within J) (rest : Bytes) :
    decodePresenceEntry J (encodePresenceEntry entry ++ rest) = some (entry.sent, rest) := by
  have hsmall : ∀ n, n ≤ 30000 → n < 128 ^ 9 := fun n hn => lt_of_le_of_lt hn (by decide)
  have hkey := h.keySize
  unfold encodePresenceEntry decodePresenceEntry
  rw [append_assoc, append_assoc, presenceUint_put (hsmall _ (by omega))]
  simp only [Option.bind_eq_bind, Option.bind_some, guard, if_pos (And.intro (keyBytes_ne_nil h.key) hkey),
    Option.pure_def, takeBytes_append rfl, fromUtf8_keyBytes]
  cases hdeleted : entry.deleted with
  | true => simp [takeByte, PresenceEntry.sent, hdeleted]
  | false =>
    have hvalue := h.valueSize hdeleted
    simp only [Bool.false_eq_true, if_false, cons_append, takeByte, Option.bind_some, append_assoc]
    rw [if_neg (by decide), if_pos trivial, Option.bind_some, presenceUint_put (hsmall _ (Nat.min_le_right _ _))]
    simp only [Option.bind_some]
    rw [presenceUint_put (hsmall _ (by omega))]
    simp only [Option.bind_some, if_pos hvalue, takeBytes_append rfl, if_pos (h.json hdeleted)]
    simp [PresenceEntry.sent, hdeleted]

theorem decodePresenceEntries_put {entries : List PresenceEntry} (h : ∀ entry ∈ entries, entry.Within J)
    (rest : Bytes) : decodePresenceEntries J entries.length (entries.flatMap encodePresenceEntry ++ rest) =
      some (entries.map PresenceEntry.sent, rest) := by
  induction entries with
  | nil => rfl
  | cons entry entries ih =>
    rw [flatMap_cons, append_assoc, length_cons, decodePresenceEntries,
      decodePresenceEntry_put (h entry mem_cons_self)]
    simp only [Option.bind_eq_bind, Option.bind_some]
    rw [ih fun other hother => h other (mem_cons_of_mem _ hother)]
    rfl

structure PresenceFrame.Within (J : PresenceJson) (frame : PresenceFrame) : Prop where
  instanceId : frame.instanceId.length = 16
  sequence : 1 ≤ frame.sequence ∧ frame.sequence ≤ 2 ^ 53 - 1
  count : frame.entries.length ≤ 256
  entries : ∀ entry ∈ frame.entries, entry.Within J

theorem decodePresence_put {frame : PresenceFrame} (h : frame.Within J) :
    decodePresence J (encodePresence frame) = some { frame with entries := frame.entries.map PresenceEntry.sent } := by
  have hsequence : frame.sequence < 128 ^ 9 := lt_of_le_of_lt h.sequence.2 (by decide)
  have hcount : frame.entries.length < 128 ^ 9 := lt_of_le_of_lt h.count (by decide)
  have hnonzero : frame.sequence ≠ 0 := by
    have := h.sequence.1
    omega
  have hentries := decodePresenceEntries_put h.entries []
  rw [append_nil] at hentries
  have hvalid : frame.sequence ≠ 0 ∧ frame.sequence ≤ maxPresenceSequence := ⟨hnonzero, h.sequence.2⟩
  unfold encodePresence decodePresence
  rw [takeBytes_append (by rfl)]
  simp only [Option.bind_eq_bind, Option.bind_some, guard, if_true, Option.pure_def, takeBytes_append h.instanceId,
    presenceUint_put hsequence, presenceUint_put hcount, if_pos hvalid, if_pos h.count, hentries]

end

/-- The room's codec takes nothing but what it would write of the same entries with their ages, and gives back what
it writes with the ages it clamps; a removal has neither age nor value on the wire. -/
structure PresenceRoundTrip (J : PresenceJson) : Prop where
  canonical : ∀ input frame, decodePresence J input = some frame → encodePresenceUnclamped frame = input
  decodes : ∀ frame : PresenceFrame, frame.Within J →
    decodePresence J (encodePresence frame) = some { frame with entries := frame.entries.map PresenceEntry.sent }
  sent : ∀ entry : PresenceEntry, (entry.deleted = true → entry.age = 0 ∧ entry.value = []) →
    entry.sent = { entry with age := min entry.age 30000 }

theorem presence_round_trip (J : PresenceJson) : PresenceRoundTrip J := by
  refine ⟨fun _ _ => decodePresence_canonical, fun _ => decodePresence_put, fun entry hremoval => ?_⟩
  unfold PresenceEntry.sent
  split
  · rename_i hdeleted
    obtain ⟨hage, hvalue⟩ := hremoval hdeleted
    cases entry with
    | mk key deleted age value =>
      simp only [] at hdeleted hage hvalue
      rw [hdeleted, hage, hvalue]
      rfl
  · rfl

/-! ## What the room changes -/

namespace PresenceRoom

/-- Every relay decodes, and a frame a connection sent arrives with the values it was sent with. -/
def Unchanged (J : PresenceJson) (room : PresenceRoom) : Prop :=
  ∀ relay ∈ room.out, ∃ decoded, decodeFrame J (encodePresence relay.frame) = some decoded ∧
    ∀ conn actor color payload sent, relay.source = some (conn, actor, color, payload) →
      decodePresence J payload = some sent → decoded.entries.map (·.value) =
        sent.entries.map fun entry => if entry.deleted then none else J.parse entry.value

def userEntry : PresenceEntry := ⟨"0-cm-user".toList, false, 0, [49]⟩

def longEntry : PresenceEntry := ⟨"-cm-".toList ++ List.replicate 252 'a', false, 0, [49]⟩

def publishing (entry : PresenceEntry) : List PresenceEvent :=
  [.join (guest 1 2) 2, .frame 0 (encodePresence ⟨List.replicate 16 7, 5, [entry]⟩) true []]

def published (entry relayed : PresenceEntry) : Relay :=
  ⟨some (0, guest 1 2, 2, encodePresence ⟨List.replicate 16 7, 5, [entry]⟩),
    ⟨List.replicate 16 7, 5, [relayed]⟩⟩

theorem published_mem {relayed : PresenceEntry} (h : (step digitJson init (.join (guest 1 2) 2)).accepts digitJson 0
      ⟨guest 1 2, 2, none, 0, []⟩ (encodePresence ⟨List.replicate 16 7, 5, [entry]⟩) true =
        some ⟨List.replicate 16 7, 5, [relayed]⟩)
    (hsize : (encodePresence ⟨List.replicate 16 7, 5, [relayed]⟩).length ≤ maxEphemeralBytes) :
    published entry relayed ∈ (after digitJson (publishing entry)).out := by
  have hrun : after digitJson (publishing entry) = (step digitJson init (.join (guest 1 2) 2)).clientPresence digitJson 0
      (encodePresence ⟨List.replicate 16 7, 5, [entry]⟩) true [] := rfl
  have hsocket : (step digitJson init (.join (guest 1 2) 2)).socket 0 = some ⟨guest 1 2, 2, none, 0, []⟩ := rfl
  have hfirst : (step digitJson init (.join (guest 1 2) 2)).superseded (presenceOwner (guest 1 2))
      ⟨guest 1 2, 2, none, 0, []⟩ (List.replicate 16 7) = none := rfl
  rw [hrun]
  unfold clientPresence
  rw [hsocket]
  dsimp only
  rw [h]
  dsimp only
  rw [hfirst]
  dsimp only
  rw [if_neg (Nat.not_lt.mpr hsize)]
  exact mem_append_right _ mem_cons_self

/-- The room writes its own name for a guest, and makes a key of 256 bytes longer. -/
theorem presence_changed_or_refused :
    ¬ Unchanged digitJson (after digitJson (publishing userEntry)) ∧
      ¬ Unchanged digitJson (after digitJson (publishing longEntry)) := by
  constructor
  · intro h
    have hmem : published userEntry ⟨"2-cm-user".toList, false, 0, [50]⟩ ∈
        (after digitJson (publishing userEntry)).out := by decide +kernel
    have hframe : (published userEntry ⟨"2-cm-user".toList, false, 0, [50]⟩).frame =
        ⟨List.replicate 16 7, 5, [⟨"2-cm-user".toList, false, 0, [50]⟩]⟩ := rfl
    obtain ⟨decoded, hdecoded, hvalues⟩ := h _ hmem
    rw [hframe] at hdecoded
    have hsent : decodePresence digitJson (encodePresence ⟨List.replicate 16 7, 5, [userEntry]⟩) =
        some ⟨List.replicate 16 7, 5, [userEntry]⟩ := by decide +kernel
    have hshown : (decodeFrame digitJson (encodePresence ⟨List.replicate 16 7, 5,
        [⟨"2-cm-user".toList, false, 0, [50]⟩]⟩)).map (fun d => d.entries.map (·.value)) =
          some [some (digit 2)] := by decide +kernel
    have hvalue := hvalues _ _ _ _ _ rfl hsent
    have hparsed : ([userEntry].map fun entry => if entry.deleted then none else digitJson.parse entry.value) =
        [some (digit 1)] := by decide +kernel
    rw [hparsed] at hvalue
    rw [hdecoded, Option.map_some, hvalue] at hshown
    cases hshown
  · intro h
    have hwithin : (⟨List.replicate 16 7, 5, [longEntry]⟩ : PresenceFrame).Within digitJson := {
      instanceId := rfl
      sequence := by decide
      count := by decide
      entries := by
        intro entry hentry
        rw [mem_singleton.mp hentry]
        exact ⟨by decide +kernel, by decide +kernel, fun _ => by decide +kernel, fun _ => by decide +kernel⟩ }
    have hmem : published longEntry ⟨"2-cm-".toList ++ List.replicate 252 'a', false, 0, [49]⟩ ∈
        (after digitJson (publishing longEntry)).out := by
      refine published_mem ?_ (by decide +kernel)
      unfold accepts
      rw [decodePresence_put hwithin]
      decide +kernel
    have hframe : (published longEntry ⟨"2-cm-".toList ++ List.replicate 252 'a', false, 0, [49]⟩).frame =
        ⟨List.replicate 16 7, 5, [⟨"2-cm-".toList ++ List.replicate 252 'a', false, 0, [49]⟩]⟩ := rfl
    obtain ⟨decoded, hdecoded, -⟩ := h _ hmem
    rw [hframe] at hdecoded
    have hrefused : (decodeFrame digitJson (encodePresence ⟨List.replicate 16 7, 5,
        [⟨"2-cm-".toList ++ List.replicate 252 'a', false, 0, [49]⟩]⟩)).isNone = true := by decide +kernel
    rw [hdecoded] at hrefused
    cases hrefused

end PresenceRoom

end Marks
