import Marks.Envelope

/-! # Reader and writer of an envelope agree

What one side takes is what the other writes, field by field, and nothing else; only the id of sixteen zero bytes,
which the client never writes, is taken by the room too. -/

namespace Marks

open List

/-! ## Little-endian fields -/

variable {n : Nat}

theorem toLeBytes_length {value : Nat} : (toLeBytes n value).length = n := by
  induction n generalizing value with
  | zero => rfl
  | succ n ih => exact congrArg Nat.succ ih

theorem fromLeBytes_toLeBytes {value : Nat} (h : value < 256 ^ n) : fromLeBytes (toLeBytes n value) = value := by
  induction n generalizing value with
  | zero =>
    have hzero : value = 0 := by simpa using h
    rw [hzero]
    rfl
  | succ n ih =>
    have hrest : value / 256 < 256 ^ n := by
      rw [Nat.div_lt_iff_lt_mul (by decide), ← Nat.pow_succ]
      exact h
    have hbyte : (UInt8.ofNat (value % 256)).toNat = value % 256 := by
      rw [UInt8.toNat_ofNat']
      omega
    rw [toLeBytes, fromLeBytes, ih hrest, hbyte]
    omega

variable {bytes : Bytes}

theorem fromLeBytes_lt : fromLeBytes bytes < 256 ^ bytes.length := by
  induction bytes with
  | nil => decide
  | cons byte bytes ih =>
    have hbyte := byte.toNat_lt
    rw [fromLeBytes, length_cons, Nat.pow_succ]
    omega

theorem toLeBytes_fromLeBytes (h : bytes.length = n) :
    toLeBytes n (fromLeBytes bytes) = bytes := by
  induction bytes generalizing n with
  | nil =>
    subst h
    rfl
  | cons byte bytes ih =>
    subst h
    have hbyte := byte.toNat_lt
    have hlow : (byte.toNat + 256 * fromLeBytes bytes) % 256 = byte.toNat := by omega
    have hhigh : (byte.toNat + 256 * fromLeBytes bytes) / 256 = fromLeBytes bytes := by omega
    rw [length_cons, fromLeBytes, toLeBytes, hlow, hhigh, ih rfl, UInt8.ofNat_toNat]

/-! ## Hex text -/

namespace Wire

theorem hexDigit_spec (h : n < 16) : isHexDigit (hexDigit n) = true ∧ digitValue (hexDigit n) = n ∧
    ((hexDigit n == 48) = true ↔ n = 0) := by
  have hall : ∀ i : Fin 16, isHexDigit (hexDigit i) = true ∧ digitValue (hexDigit i) = i ∧
      ((hexDigit i == 48) = true ↔ (i : Nat) = 0) := by decide
  exact hall ⟨n, h⟩

theorem digitValue_spec {c : UInt16} (h : isHexDigit c = true) : digitValue c < 16 ∧ hexDigit (digitValue c) = c := by
  have hall : ∀ n : Fin 103, isHexDigit (UInt16.ofNat n) = true →
      digitValue (UInt16.ofNat n) < 16 ∧ hexDigit (digitValue (UInt16.ofNat n)) = UInt16.ofNat n := by decide +kernel
  have hc : c.toNat < 103 := by
    unfold isHexDigit at h
    simp only [Bool.or_eq_true, Bool.and_eq_true, decide_eq_true_eq, UInt16.le_iff_toNat_le] at h
    have h57 : (57 : UInt16).toNat = 57 := rfl
    have h102 : (102 : UInt16).toNat = 102 := rfl
    omega
  have hspec := hall ⟨c.toNat, hc⟩
  rw [UInt16.ofNat_toNat] at hspec
  exact hspec h

theorem bytesToHex_cons {byte : UInt8} : bytesToHex (byte :: bytes) =
    hexDigit (byte.toNat / 16) :: hexDigit (byte.toNat % 16) :: bytesToHex bytes := rfl

theorem byte_halves (byte : UInt8) : byte.toNat / 16 < 16 ∧ byte.toNat % 16 < 16 := by
  have hbyte := byte.toNat_lt
  omega

theorem bytesToHex_length : (bytesToHex bytes).length = 2 * bytes.length := by
  induction bytes with
  | nil => rfl
  | cons byte bytes ih =>
    rw [bytesToHex_cons, length_cons, length_cons, ih, length_cons]
    omega

theorem bytesToHex_digits : (bytesToHex bytes).all isHexDigit = true := by
  induction bytes with
  | nil => rfl
  | cons byte bytes ih =>
    obtain ⟨hhigh, hlow⟩ := byte_halves byte
    rw [bytesToHex_cons, all_cons, all_cons, ih, (hexDigit_spec hhigh).1, (hexDigit_spec hlow).1]
    rfl

theorem bytesToHex_zeros :
    (bytesToHex bytes).all (· == 48) = true ↔ bytes = List.replicate bytes.length 0 := by
  induction bytes with
  | nil => exact ⟨fun _ => rfl, fun _ => rfl⟩
  | cons byte bytes ih =>
    obtain ⟨hhigh, hlow⟩ := byte_halves byte
    have hbyte : byte = 0 ↔ byte.toNat / 16 = 0 ∧ byte.toNat % 16 = 0 := by
      rw [← UInt8.toNat_inj, show (0 : UInt8).toNat = 0 from rfl]
      omega
    rw [bytesToHex_cons, all_cons, all_cons, Bool.and_eq_true, Bool.and_eq_true, (hexDigit_spec hhigh).2.2,
      (hexDigit_spec hlow).2.2, ih, length_cons, replicate_succ, List.cons.injEq, hbyte, and_assoc]

theorem hexPairs_bytesToHex : hexPairs (bytesToHex bytes) = bytes := by
  induction bytes with
  | nil => rfl
  | cons byte bytes ih =>
    obtain ⟨hhigh, hlow⟩ := byte_halves byte
    have hvalue : byte.toNat / 16 * 16 + byte.toNat % 16 = byte.toNat := by omega
    rw [bytesToHex_cons, hexPairs, ih, (hexDigit_spec hhigh).2.1, (hexDigit_spec hlow).2.1, hvalue,
      UInt8.ofNat_toNat]

theorem bytesToHex_hexPairs {hex : JsString} (hlength : hex.length = 2 * n)
    (hdigits : hex.all isHexDigit = true) : bytesToHex (hexPairs hex) = hex := by
  induction n generalizing hex with
  | zero =>
    rw [length_eq_zero_iff.mp hlength]
    rfl
  | succ n ih =>
    cases hex with
    | nil => cases hlength
    | cons high hex =>
      cases hex with
      | nil =>
        rw [length_singleton] at hlength
        omega
      | cons low rest =>
        rw [all_cons, all_cons, Bool.and_eq_true, Bool.and_eq_true] at hdigits
        obtain ⟨hhigh, hlow, hrest⟩ := hdigits
        obtain ⟨hhigh, htext⟩ := digitValue_spec hhigh
        obtain ⟨hlow, htext'⟩ := digitValue_spec hlow
        have hbyte : (UInt8.ofNat (digitValue high * 16 + digitValue low)).toNat =
            digitValue high * 16 + digitValue low := by
          rw [UInt8.toNat_ofNat']
          omega
        have hfirst : (digitValue high * 16 + digitValue low) / 16 = digitValue high := by omega
        have hsecond : (digitValue high * 16 + digitValue low) % 16 = digitValue low := by omega
        have hshorter : rest.length = 2 * n := by
          rw [length_cons, length_cons] at hlength
          omega
        rw [hexPairs, bytesToHex_cons, hbyte, hfirst, hsecond, htext, htext', ih hshorter hrest]

def zeroId : MessageId := List.replicate 16 0

theorem hexToBytes_iff {hex : JsString} :
    hexToBytes hex = some bytes ↔ bytes.length = 16 ∧ bytes ≠ zeroId ∧ bytesToHex bytes = hex := by
  constructor
  · intro h
    unfold hexToBytes at h
    split at h
    · cases h
    rename_i hvalid
    rw [not_or, not_not] at hvalid
    obtain ⟨⟨hlength, hdigits⟩, hzeros⟩ := hvalid
    cases h
    have htext : bytesToHex (hexPairs hex) = hex := bytesToHex_hexPairs (n := 16) hlength hdigits
    have hsize : (hexPairs hex).length = 16 := by
      have := congrArg List.length htext
      rw [bytesToHex_length] at this
      omega
    refine ⟨hsize, fun hzero => hzeros ?_, htext⟩
    rw [← htext, bytesToHex_zeros, hsize]
    exact hzero
  · rintro ⟨hlength, hnonzero, rfl⟩
    unfold hexToBytes
    rw [if_neg, hexPairs_bytesToHex]
    rintro (hinvalid | hzeros)
    · refine hinvalid ⟨?_, bytesToHex_digits⟩
      rw [bytesToHex_length, hlength]
    · rw [bytesToHex_zeros, hlength] at hzeros
      exact hnonzero hzeros

end Wire

/-! ## Layouts -/

section
variable {α : Type} {l : List α}

theorem drop_head {a : α} (h : (l.drop n).head? = some a) : l.drop n = a :: l.drop (n + 1) := by
  have hn : n < l.length := by
    by_contra hn
    rw [drop_of_length_le (Nat.le_of_not_lt hn)] at h
    cases h
  rw [drop_eq_getElem_cons hn] at h ⊢
  rw [Option.some.inj h]

theorem drop_take (n k : Nat) : l.drop n = (l.drop n).take k ++ l.drop (n + k) := by
  rw [← drop_drop, take_append_drop]

end

theorem fromByte_toByte {value : UInt8} {kind : MutationKind} :
    MutationKind.fromByte value = some kind ↔ value = kind.toByte := by
  unfold MutationKind.fromByte
  cases kind with
  | update =>
    by_cases h : value = 1
    · simp [h, MutationKind.toByte]
    · simp [h, MutationKind.toByte]
  | snapshot =>
    by_cases h : value = 1
    · simp [h, MutationKind.toByte]
    · by_cases h' : value = 2
      · simp [h', MutationKind.toByte]
      · simp [h, h', MutationKind.toByte]

theorem decodeMutation_iff {m : Mutation} :
    decodeMutation bytes = some m ↔ m.id.length = 16 ∧ encodeMutation m.id m.kind m.payload = some bytes := by
  constructor
  · intro h
    unfold decodeMutation at h
    split at h
    · cases h
    rename_i hheader
    rw [not_or, Nat.not_lt, not_not] at hheader
    obtain ⟨hsize, hmagic⟩ := hheader
    split at h
    · cases h
    rename_i hversion
    rw [not_not] at hversion
    split at h
    · cases h
    rename_i kind hkind
    obtain ⟨value, hvalue, hkind⟩ := Option.bind_eq_some_iff.mp hkind
    rw [fromByte_toByte] at hkind
    simp only [] at h
    split at h
    · cases h
    rename_i hlength
    rw [not_or, not_not] at hlength
    obtain ⟨hnonempty, hlength⟩ := hlength
    cases h
    have hid : ((bytes.drop 6).take 16).length = 16 := by
      rw [length_take, length_drop]
      unfold mutationHeaderBytes at hsize
      omega
    have hfield : ((bytes.drop 22).take 4).length = 4 := by
      rw [length_take, length_drop]
      unfold mutationHeaderBytes at hsize
      omega
    have hpayload : (bytes.drop mutationHeaderBytes).length = fromLeBytes ((bytes.drop 22).take 4) := by
      rw [length_drop]
      omega
    have hbound : fromLeBytes ((bytes.drop 22).take 4) < 2 ^ 32 := by
      have hlt : fromLeBytes ((bytes.drop 22).take 4) < 256 ^ ((bytes.drop 22).take 4).length := fromLeBytes_lt
      rw [hfield] at hlt
      exact hlt
    refine ⟨hid, ?_⟩
    unfold encodeMutation
    rw [hpayload, if_neg (not_or.mpr ⟨hnonempty, Nat.not_le.mpr hbound⟩), toLeBytes_fromLeBytes hfield]
    refine congrArg some ?_
    calc mutationMagic ++ [protocolVersion, kind.toByte] ++ (bytes.drop 6).take 16 ++ (bytes.drop 22).take 4 ++
          bytes.drop mutationHeaderBytes
        = bytes.take 4 ++ (protocolVersion :: value :: ((bytes.drop 6).take 16 ++ ((bytes.drop 22).take 4 ++
          bytes.drop 26))) := by
          rw [hmagic, hkind]
          simp only [append_assoc, cons_append, nil_append]
          rfl
      _ = bytes.take 4 ++ bytes.drop 4 := by
          rw [← drop_take 22 4, ← drop_take 6 16, ← drop_head hvalue, ← drop_head hversion]
      _ = bytes := take_append_drop 4 bytes
  · rintro ⟨hid, h⟩
    unfold encodeMutation at h
    split at h
    · cases h
    rename_i hpayload
    rw [not_or, Nat.not_le] at hpayload
    obtain ⟨hnonempty, hbound⟩ := hpayload
    cases h
    have hfield : fromLeBytes (toLeBytes 4 m.payload.length) = m.payload.length := fromLeBytes_toLeBytes hbound
    have hlast : (mutationMagic ++ [protocolVersion, m.kind.toByte] ++ m.id ++ toLeBytes 4 m.payload.length).length =
        mutationHeaderBytes := by
      simp [mutationMagic, mutationHeaderBytes, hid, toLeBytes_length]
    have hhead : (mutationMagic ++ [protocolVersion, m.kind.toByte] ++ m.id).length = 22 := by
      simp [mutationMagic, hid]
    unfold decodeMutation
    rw [if_neg, if_neg]
    · have hkind : ((mutationMagic ++ [protocolVersion, m.kind.toByte] ++ m.id ++ toLeBytes 4 m.payload.length ++
          m.payload).drop 5).head?.bind MutationKind.fromByte = some m.kind := fromByte_toByte.mpr rfl
      rw [hkind]
      have hwidth : (((mutationMagic ++ [protocolVersion, m.kind.toByte] ++ m.id ++ toLeBytes 4 m.payload.length ++
          m.payload).drop 22).take 4) = toLeBytes 4 m.payload.length := by
        rw [append_assoc _ (toLeBytes 4 m.payload.length), drop_left' hhead,
          take_left' toLeBytes_length]
      have hinner : ((mutationMagic ++ [protocolVersion, m.kind.toByte] ++ m.id ++ toLeBytes 4 m.payload.length ++
          m.payload).drop 6).take 16 = m.id := by
        rw [append_assoc, append_assoc,
          drop_left' (show (mutationMagic ++ [protocolVersion, m.kind.toByte]).length = 6 from rfl),
          take_left' hid]
      simp only [hwidth, hfield]
      rw [if_neg, hinner, drop_left' hlast]
      rw [not_or, not_not, length_append, hlast]
      exact ⟨hnonempty, rfl⟩
    · exact not_not.mpr rfl
    · rw [not_or, Nat.not_lt, not_not]
      refine ⟨?_, rfl⟩
      rw [length_append, hlast]
      exact Nat.le_add_right _ _

/-! ## The client's envelopes -/

namespace Wire

theorem encodeMutation_eq {id : JsString} {kind : MutationKind} {payload : Bytes} :
    encodeMutation id kind payload = (hexToBytes id).bind fun idBytes => Marks.encodeMutation idBytes kind payload := by
  have hkind : (if kind = .update then (1 : UInt8) else 2) = kind.toByte := by
    cases kind with
    | update => rfl
    | snapshot => rfl
  unfold encodeMutation
  cases hexToBytes id with
  | none => rfl
  | some idBytes =>
    simp only [Option.bind_some, Marks.encodeMutation, hkind]
    have hlimit : (payload.length = 0 ∨ 0xffffffff < payload.length) ↔ (payload.length = 0 ∨ 2 ^ 32 ≤ payload.length) := by
      omega
    simp only [hlimit]

theorem decodeCommitted_iff {receipt : CommittedReceipt} :
    decodeCommitted bytes = some receipt ↔ ∃ id : MessageId, id.length = 16 ∧ receipt.id = bytesToHex id ∧
      receipt.revision < 2 ^ 64 ∧ encodeCommittedBytes id receipt.revision receipt.version = some bytes := by
  constructor
  · intro h
    unfold decodeCommitted at h
    split at h
    · cases h
    rename_i hheader
    rw [not_or, not_or, Nat.not_lt, not_not, not_not] at hheader
    obtain ⟨hsize, hmagic, hversion⟩ := hheader
    simp only [] at h
    split at h
    · cases h
    rename_i hlength
    rw [not_not] at hlength
    cases h
    unfold committedHeaderBytes at hsize
    have hid : ((bytes.drop 5).take 16).length = 16 := by
      rw [length_take, length_drop]
      omega
    have hrevision : ((bytes.drop 21).take 8).length = 8 := by
      rw [length_take, length_drop]
      omega
    have hfield : ((bytes.drop 29).take 4).length = 4 := by
      rw [length_take, length_drop]
      omega
    have hbound : fromLeBytes ((bytes.drop 21).take 8) < 2 ^ 64 := by
      have hlt : fromLeBytes ((bytes.drop 21).take 8) < 256 ^ ((bytes.drop 21).take 8).length := fromLeBytes_lt
      rw [hrevision] at hlt
      exact hlt
    have hwidth : fromLeBytes ((bytes.drop 29).take 4) < 2 ^ 32 := by
      have hlt : fromLeBytes ((bytes.drop 29).take 4) < 256 ^ ((bytes.drop 29).take 4).length := fromLeBytes_lt
      rw [hfield] at hlt
      exact hlt
    have hversionLength : (bytes.drop committedHeaderBytes).length = fromLeBytes ((bytes.drop 29).take 4) := by
      rw [length_drop]
      omega
    have hmark : (bytes.drop 4).head? = some protocolVersion := by
      rw [head?_drop]
      exact hversion
    refine ⟨_, hid, rfl, hbound, ?_⟩
    unfold encodeCommittedBytes encodeCommitted
    rw [if_pos (hversionLength ▸ hwidth), Option.map_some]
    refine congrArg some ?_
    unfold Committed.bytes
    rw [hversionLength, toLeBytes_fromLeBytes hrevision, toLeBytes_fromLeBytes hfield]
    calc committedMagic ++ [protocolVersion] ++ (bytes.drop 5).take 16 ++ (bytes.drop 21).take 8 ++
          (bytes.drop 29).take 4 ++ bytes.drop committedHeaderBytes
        = bytes.take 4 ++ (protocolVersion :: ((bytes.drop 5).take 16 ++ ((bytes.drop 21).take 8 ++
          ((bytes.drop 29).take 4 ++ bytes.drop 33)))) := by
          rw [hmagic]
          simp only [append_assoc, cons_append, nil_append]
          rfl
      _ = bytes.take 4 ++ bytes.drop 4 := by
          rw [← drop_take 29 4, ← drop_take 21 8, ← drop_take 5 16, ← drop_head hmark]
      _ = bytes := take_append_drop 4 bytes
  · rintro ⟨id, hid, htext, hrevision, h⟩
    unfold encodeCommittedBytes encodeCommitted at h
    split at h
    · rename_i hbound
      cases h
      obtain ⟨text, revision, version⟩ := receipt
      simp only [] at htext hrevision hbound ⊢
      subst htext
      unfold Committed.bytes
      simp only []
      have hlast : (committedMagic ++ [protocolVersion] ++ id ++ toLeBytes 8 revision ++
          toLeBytes 4 version.length).length = committedHeaderBytes := by
        simp [committedMagic, committedHeaderBytes, hid, toLeBytes_length]
      have hstart : (committedMagic ++ [protocolVersion] ++ id ++ toLeBytes 8 revision).length = 29 := by
        simp [committedMagic, hid, toLeBytes_length]
      have hhead : (committedMagic ++ [protocolVersion] ++ id).length = 21 := by
        simp [committedMagic, hid]
      have hwidth : ((committedMagic ++ [protocolVersion] ++ id ++ toLeBytes 8 revision ++ toLeBytes 4 version.length ++
          version).drop 29).take 4 = toLeBytes 4 version.length := by
        rw [append_assoc _ (toLeBytes 4 version.length), drop_left' hstart, take_left' toLeBytes_length]
      have hnumber : ((committedMagic ++ [protocolVersion] ++ id ++ toLeBytes 8 revision ++ toLeBytes 4 version.length ++
          version).drop 21).take 8 = toLeBytes 8 revision := by
        rw [append_assoc _ (toLeBytes 4 version.length), append_assoc _ (toLeBytes 8 revision),
          drop_left' hhead, take_left' toLeBytes_length]
      have hinner : ((committedMagic ++ [protocolVersion] ++ id ++ toLeBytes 8 revision ++ toLeBytes 4 version.length ++
          version).drop 5).take 16 = id := by
        rw [append_assoc _ (toLeBytes 4 version.length), append_assoc _ (toLeBytes 8 revision),
          append_assoc _ id, drop_left' (show (committedMagic ++ [protocolVersion]).length = 5 from rfl),
          take_left' hid]
      unfold decodeCommitted
      rw [if_neg]
      · have hvalue : fromLeBytes (toLeBytes 4 version.length) = version.length := fromLeBytes_toLeBytes hbound
        have hvalue' : fromLeBytes (toLeBytes 8 revision) = revision := fromLeBytes_toLeBytes hrevision
        simp only [hwidth, hnumber, hinner, hvalue, hvalue']
        rw [if_neg, drop_left' hlast]
        rw [not_not, length_append, hlast]
      · rw [not_or, not_or, Nat.not_lt, not_not, not_not]
        refine ⟨?_, rfl, rfl⟩
        rw [length_append, hlast]
        exact Nat.le_add_right _ _
    · cases h

end Wire

/-! ## Agreement -/

/-- Every mutation envelope of an id that is not zero is read as it was written, and nothing else is read as one. -/
structure MutationsAgree : Prop where
  taken : ∀ bytes m, decodeMutation bytes = some m ↔
    m.id.length = 16 ∧ encodeMutation m.id m.kind m.payload = some bytes
  nonzero : ∀ bytes m, m.id ≠ Wire.zeroId → (decodeMutation bytes = some m ↔
    m.id.length = 16 ∧ Wire.encodeMutation (Wire.bytesToHex m.id) m.kind m.payload = some bytes)
  written : ∀ id kind payload bytes, Wire.encodeMutation id kind payload = some bytes →
    ∃ idBytes, idBytes ≠ Wire.zeroId ∧ Wire.bytesToHex idBytes = id ∧
      decodeMutation bytes = some ⟨idBytes, kind, payload⟩
  writable : ∀ idBytes kind payload, idBytes.length = 16 → idBytes ≠ Wire.zeroId → payload ≠ [] →
    payload.length < 2 ^ 32 → (Wire.encodeMutation (Wire.bytesToHex idBytes) kind payload).isSome = true

/-- Every receipt is read as it was written, and nothing else is read as one. -/
structure ReceiptsAgree : Prop where
  read : ∀ id : MessageId, ∀ revision version, id.length = 16 → revision < 2 ^ 64 → version.length < 2 ^ 32 →
    ∃ bytes, encodeCommittedBytes id revision version = some bytes ∧
      Wire.decodeCommitted bytes = some ⟨Wire.bytesToHex id, revision, version⟩
  written : ∀ bytes receipt, Wire.decodeCommitted bytes = some receipt → ∃ id : MessageId, id.length = 16 ∧
    receipt.id = Wire.bytesToHex id ∧ receipt.revision < 2 ^ 64 ∧
      encodeCommittedBytes id receipt.revision receipt.version = some bytes

theorem envelopes_agree : MutationsAgree ∧ ReceiptsAgree := by
  refine ⟨⟨fun _ _ => decodeMutation_iff, ?_, ?_, ?_⟩, ⟨?_, fun _ _ => Wire.decodeCommitted_iff.mp⟩⟩
  · intro bytes m hnonzero
    rw [decodeMutation_iff]
    refine and_congr_right fun hid => ?_
    rw [Wire.encodeMutation_eq, Wire.hexToBytes_iff.mpr ⟨hid, hnonzero, rfl⟩, Option.bind_some]
  · intro id kind payload bytes h
    rw [Wire.encodeMutation_eq] at h
    obtain ⟨idBytes, hbytes, h⟩ := Option.bind_eq_some_iff.mp h
    obtain ⟨hlength, hnonzero, htext⟩ := Wire.hexToBytes_iff.mp hbytes
    exact ⟨idBytes, hnonzero, htext, decodeMutation_iff.mpr ⟨hlength, h⟩⟩
  · intro idBytes kind payload hlength hnonzero hpayload hbound
    rw [Wire.encodeMutation_eq, Wire.hexToBytes_iff.mpr ⟨hlength, hnonzero, rfl⟩, Option.bind_some]
    unfold encodeMutation
    rw [if_neg]
    · rfl
    · rw [not_or, Nat.not_le]
      exact ⟨fun h => hpayload (length_eq_zero_iff.mp h), hbound⟩
  · intro id revision version hid hrevision hversion
    have hwritten : encodeCommittedBytes id revision version = some (Committed.bytes ⟨id, revision, version⟩) := by
      unfold encodeCommittedBytes encodeCommitted
      rw [if_pos hversion]
      rfl
    exact ⟨_, hwritten, Wire.decodeCommitted_iff.mpr ⟨id, hid, rfl, hrevision, hwritten⟩⟩

def zeroEnvelope : Bytes := mutationMagic ++ [1, 1] ++ Wire.zeroId ++ [1, 0, 0, 0, 7]

theorem zero_id_taken : ¬ ∀ bytes, (decodeMutation bytes).isSome = true ↔
    ∃ id kind payload, Wire.encodeMutation id kind payload = some bytes := by
  intro h
  obtain ⟨id, kind, payload, hwritten⟩ := (h zeroEnvelope).mp (by decide +kernel)
  rw [Wire.encodeMutation_eq] at hwritten
  obtain ⟨idBytes, hbytes, hwritten⟩ := Option.bind_eq_some_iff.mp hwritten
  obtain ⟨hlength, hnonzero, -⟩ := Wire.hexToBytes_iff.mp hbytes
  have hread : decodeMutation zeroEnvelope = some ⟨idBytes, kind, payload⟩ :=
    decodeMutation_iff.mpr ⟨hlength, hwritten⟩
  have hzero : decodeMutation zeroEnvelope = some ⟨Wire.zeroId, .update, [7]⟩ := by decide +kernel
  rw [hzero] at hread
  cases hread
  exact hnonzero rfl

end Marks
