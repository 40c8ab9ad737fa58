import Marks.Results
import Marks.SigningClient
import Marks.SigningSound

/-! # The client signs what the server verifies

A writer given the parts of a message ends with the message. The fields of a statement of the server, written as the
client has them, pass its checks; the fields that pass them are those of a statement of the server. -/

namespace Marks.SigningClient

open Encoding List
open Enrollment (IdCode idCode_char)

/-! ## Code points -/

theorem isHighSurrogate_eq (u : UInt16) :
    JsString.isHighSurrogate u = decide (0xD800 ≤ u.toNat ∧ u.toNat ≤ 0xDBFF) := by
  unfold JsString.isHighSurrogate
  simp only [UInt16.le_iff_toNat_le, Bool.decide_and]
  rfl

theorem isLowSurrogate_eq (u : UInt16) :
    JsString.isLowSurrogate u = decide (0xDC00 ≤ u.toNat ∧ u.toNat ≤ 0xDFFF) := by
  unfold JsString.isLowSurrogate
  simp only [UInt16.le_iff_toNat_le, Bool.decide_and]
  rfl

theorem codePoints_single {u : UInt16} (hu : JsString.isHighSurrogate u = false) (rest : JsString) :
    JsString.codePoints (u :: rest) = JsString.loneCodePoint u :: rest.codePoints := by
  cases rest with
  | nil => rfl
  | cons d rest => rw [JsString.codePoints, hu, Bool.false_and, if_neg Bool.false_ne_true]

theorem codePoints_codeUnits (c : Char) (rest : JsString) :
    JsString.codePoints (JsString.codeUnits c ++ rest) = c :: rest.codePoints := by
  unfold JsString.codeUnits
  split
  case isTrue hsmall =>
    have hnat : (UInt16.ofNat c.toNat).toNat = c.toNat := by
      rw [UInt16.toNat_ofNat', Nat.mod_eq_of_lt hsmall]
    have hnot : ¬ (0xD800 ≤ c.toNat ∧ c.toNat ≤ 0xDFFF) := by
      rintro ⟨hfrom, hto⟩
      rcases c.valid with hlow | hhigh
      · have hlow : c.toNat < 0xD800 := hlow
        omega
      · have hhigh : 0xDFFF < c.toNat := hhigh.1
        omega
    have hhigh : JsString.isHighSurrogate (UInt16.ofNat c.toNat) = false := by
      rw [isHighSurrogate_eq, hnat, decide_eq_false_iff_not]
      omega
    have hlow : JsString.isLowSurrogate (UInt16.ofNat c.toNat) = false := by
      rw [isLowSurrogate_eq, hnat, decide_eq_false_iff_not]
      omega
    rw [singleton_append, codePoints_single hhigh, JsString.loneCodePoint, hhigh, hlow, Bool.or_false,
      if_neg Bool.false_ne_true, hnat, Char.ofNat_toNat]
  case isFalse hlarge =>
    have hmax : c.toNat ≤ 0x10FFFF := by
      rcases c.valid with hlow | hhigh
      · have hlow : c.toNat < 0xD800 := hlow
        omega
      · have hhigh : c.toNat < 0x110000 := hhigh.2
        omega
    have hfirst : (UInt16.ofNat (0xD800 + (c.toNat - 0x10000) / 0x400)).toNat = 0xD800 + (c.toNat - 0x10000) / 0x400 := by
      rw [UInt16.toNat_ofNat', Nat.mod_eq_of_lt (by omega)]
    have hsecond : (UInt16.ofNat (0xDC00 + (c.toNat - 0x10000) % 0x400)).toNat = 0xDC00 + (c.toNat - 0x10000) % 0x400 := by
      rw [UInt16.toNat_ofNat', Nat.mod_eq_of_lt (by omega)]
    have hhigh : JsString.isHighSurrogate (UInt16.ofNat (0xD800 + (c.toNat - 0x10000) / 0x400)) = true := by
      rw [isHighSurrogate_eq, hfirst, decide_eq_true_iff]
      omega
    have hlow : JsString.isLowSurrogate (UInt16.ofNat (0xDC00 + (c.toNat - 0x10000) % 0x400)) = true := by
      rw [isLowSurrogate_eq, hsecond, decide_eq_true_iff]
      omega
    rw [cons_append, singleton_append, JsString.codePoints, hhigh, hlow, Bool.and_true, if_pos rfl, hfirst,
      hsecond]
    have hcode : 0x10000 + (0xD800 + (c.toNat - 0x10000) / 0x400 - 0xD800) * 0x400 +
        (0xDC00 + (c.toNat - 0x10000) % 0x400 - 0xDC00) = c.toNat := by
      omega
    rw [hcode, Char.ofNat_toNat]

theorem codePoints_ofCodePoints (text : List Char) : (JsString.ofCodePoints text).codePoints = text := by
  induction text with
  | nil => rfl
  | cons c text ih =>
    rw [JsString.ofCodePoints, flatMap_cons, codePoints_codeUnits]
    exact congrArg (c :: ·) ih

/-! ## Parts -/

namespace CanonicalWriter

theorem finish_bytesWithoutLength (writer : CanonicalWriter) (value : Bytes) :
    (writer.bytesWithoutLength value).finish = writer.finish ++ value := by
  unfold finish bytesWithoutLength
  rw [flatten_append, flatten_singleton]

def Writes (op : CanonicalWriter → Except String CanonicalWriter) (part : Option Bytes) : Prop :=
  ∀ writer, ((op writer).map finish).toOption = part.map (writer.finish ++ ·)

def Ends (run : CanonicalWriter → Except String Bytes) (parts : List (Option Bytes)) : Prop :=
  ∀ writer, (run writer).toOption = (message parts).map (writer.finish ++ ·)

theorem ends_nil : Ends (fun writer => .ok writer.finish) [] := by
  intro writer
  rw [message, Option.map_some, append_nil]
  rfl

variable {parts : List (Option Bytes)}

theorem Writes.ends {op : CanonicalWriter → Except String CanonicalWriter} {part : Option Bytes}
    (hop : Writes op part) {run : CanonicalWriter → Except String Bytes}
    (hrun : Ends run parts) : Ends (fun writer => op writer >>= run) (part :: parts) := by
  intro writer
  have hpart := hop writer
  show (op writer >>= run).toOption = _
  cases hwritten : op writer with
  | error text =>
    rw [hwritten] at hpart
    have hnone : part = none := Option.map_eq_none_iff.mp hpart.symm
    rw [hnone]
    rfl
  | ok written =>
    rw [hwritten] at hpart
    obtain ⟨word, hword, hfinish⟩ := Option.map_eq_some_iff.mp hpart.symm
    show (run written).toOption = _
    rw [hrun written, hword, ← hfinish, message, Option.bind_some, Option.map_map]
    congr 1
    funext tail
    exact append_assoc _ _ _

theorem Ends.message {run : CanonicalWriter → Except String Bytes} (h : Ends run parts)
    (domain : Bytes) : (run (empty.bytesWithoutLength domain)).toOption = message (some domain :: parts) := by
  rw [h, finish_bytesWithoutLength]
  rfl

end CanonicalWriter

/-! ## Numbers -/

theorem range_natCast {n : Nat} (bound : Nat) (h : n ≤ bound) :
    ¬ ((!(n : Rat).isInt) = true ∨ (n : Rat) < 0 ∨ (bound : Rat) < n) := by
  rintro (hint | hneg | hlarge)
  · cases hint
  · exact Rat.not_lt.mpr Rat.natCast_nonneg hneg
  · have := Rat.natCast_lt_natCast.mp hlarge
    omega

theorem range_nat {value : Rat} (bound : Nat)
    (h : ¬ ((!value.isInt) = true ∨ value < 0 ∨ (bound : Rat) < value)) : ∃ n : Nat, n ≤ bound ∧ value = n := by
  have hint : value.den = 1 := by
    by_contra hden
    apply h
    left
    rw [Bool.not_eq_true', Rat.isInt, beq_eq_false_iff_ne]
    exact hden
  have hnonneg : 0 ≤ value.num := by
    rw [Rat.num_nonneg]
    exact Rat.not_lt.mp fun hneg => h (Or.inr (Or.inl hneg))
  have hvalue : value = (value.num.toNat : Rat) := by
    apply Rat.ext
    · rw [Rat.num_natCast, Int.toNat_of_nonneg hnonneg]
    · rw [Rat.den_natCast, hint]
  refine ⟨value.num.toNat, ?_, hvalue⟩
  by_contra hlarge
  apply h
  right
  right
  rw [hvalue]
  exact Rat.natCast_lt_natCast.mpr (Nat.lt_of_not_le hlarge)

theorem setUint32_eq (value : UInt32) : CanonicalWriter.setUint32 value.toNat = Enrollment.putU32 value := by
  unfold CanonicalWriter.setUint32
  simp only [Nat.shiftRight_eq_div_pow]
  rfl

theorem setBigUint64_eq (value : UInt64) : CanonicalWriter.setBigUint64 value.toNat = Enrollment.putU64 value := by
  unfold CanonicalWriter.setBigUint64
  simp only [Nat.shiftRight_eq_div_pow]
  rfl

/-! ## Fields -/

namespace CanonicalWriter

theorem u8_writes (value : UInt8) : Writes (·.u8 (value.toNat : Rat)) (some (Enrollment.putU8 value)) := by
  intro writer
  have hbound : value.toNat ≤ 255 := Nat.le_of_lt_succ value.toNat_lt
  have hrange := range_natCast 255 hbound
  rw [Rat.natCast_ofNat] at hrange
  show ((writer.u8 (value.toNat : Rat)).map finish).toOption = _
  unfold u8
  rw [if_neg hrange, Rat.num_natCast, Int.toNat_natCast, UInt8.ofNat_toNat]
  exact congrArg some (finish_bytesWithoutLength writer _)

theorem u32_writes (value : UInt32) : Writes (·.u32 (value.toNat : Rat)) (some (Enrollment.putU32 value)) := by
  intro writer
  have hbound : value.toNat ≤ 4294967295 := Nat.le_of_lt_succ value.toNat_lt
  have hrange := range_natCast 4294967295 hbound
  rw [Rat.natCast_ofNat] at hrange
  show ((writer.u32 (value.toNat : Rat)).map finish).toOption = _
  unfold u32
  rw [if_neg hrange, Rat.num_natCast, Int.toNat_natCast, setUint32_eq]
  exact congrArg some (finish_bytesWithoutLength writer _)

theorem u64_writes (value : UInt64) : Writes (·.u64 (value.toNat : Int)) (some (Enrollment.putU64 value)) := by
  intro writer
  have hrange : ¬ ((value.toNat : Int) < 0 ∨ 0xffffffffffffffff < (value.toNat : Int)) := by
    have := value.toNat_lt
    omega
  show ((writer.u64 (value.toNat : Int)).map finish).toOption = _
  unfold u64
  rw [if_neg hrange, Int.toNat_natCast, setBigUint64_eq]
  exact congrArg some (finish_bytesWithoutLength writer _)

theorem bytes_writes (value : Bytes) : Writes (·.bytes value) (Enrollment.putBytes value) := by
  intro writer
  show ((writer.bytes value).map finish).toOption = _
  unfold bytes Enrollment.putBytes
  split
  case isTrue hsize =>
    have hlength : (UInt32.ofNat value.length).toNat = value.length := by
      rw [UInt32.toNat_ofNat', Nat.mod_eq_of_lt hsize]
    have hu32 := u32_writes (UInt32.ofNat value.length) writer
    rw [hlength] at hu32
    dsimp only at hu32
    cases hwritten : writer.u32 (value.length : Rat) with
    | error text =>
      rw [hwritten] at hu32
      cases hu32
    | ok written =>
      rw [hwritten] at hu32
      have hfinish : written.finish = writer.finish ++ Enrollment.putU32 (UInt32.ofNat value.length) :=
        Option.some.inj hu32
      show some (written.bytesWithoutLength value).finish = _
      rw [finish_bytesWithoutLength, hfinish, append_assoc]
      rfl
  case isFalse hsize =>
    have hlarge : (4294967295 : Rat) < (value.length : Rat) := by
      have hnat : 4294967295 < value.length := by
        have : ¬ value.length < 4294967296 := hsize
        omega
      have hcast := Rat.natCast_lt_natCast.mpr hnat
      rw [Rat.natCast_ofNat] at hcast
      exact hcast
    unfold u32
    rw [if_pos (Or.inr (Or.inr hlarge))]
    rfl

theorem text_writes (text : Enrollment.Text) : Writes (·.text (.ofCodePoints text)) (Enrollment.putText text) := by
  intro writer
  show ((writer.text (.ofCodePoints text)).map finish).toOption = _
  unfold CanonicalWriter.text encodeText Enrollment.putText
  rw [codePoints_ofCodePoints]
  exact bytes_writes _ writer

end CanonicalWriter

/-! ## Identifiers -/

theorem idCode_unit (u : UInt16) :
    (JsString.isLetter u || JsString.isDigit u || u == 95 || u == 45) = true ↔ IdCode u.toNat := by
  unfold IdCode JsString.isLetter JsString.isDigit
  simp only [Bool.or_eq_true, Bool.and_eq_true, decide_eq_true_eq, beq_iff_eq, UInt16.le_iff_toNat_le, ← UInt16.toNat_inj]
  show (((65 ≤ u.toNat ∧ u.toNat ≤ 90 ∨ 97 ≤ u.toNat ∧ u.toNat ≤ 122) ∨ 48 ≤ u.toNat ∧ u.toNat ≤ 57) ∨ u.toNat = 95) ∨
    u.toNat = 45 ↔ _
  omega

theorem codeUnits_small {c : Char} (h : c.toNat < 128) : JsString.codeUnits c = [UInt16.ofNat c.toNat] := by
  unfold JsString.codeUnits
  exact if_pos (by omega)

theorem codeUnits_ofNat {u : UInt16} (h : u.toNat < 128) : JsString.codeUnits (Char.ofNat u.toNat) = [u] := by
  have hvalid : u.toNat.isValidChar := Or.inl (by omega)
  have hnat : (Char.ofNat u.toNat).toNat = u.toNat := by
    rw [Char.ofNat, dif_pos hvalid]
    rfl
  have hsmall : (Char.ofNat u.toNat).toNat < 128 := by
    rw [hnat]
    exact h
  rw [codeUnits_small hsmall, hnat, UInt16.ofNat_toNat]

theorem ofCodePoints_id {text : Enrollment.Text} (h : ∀ c ∈ text, IdCode c.toNat) :
    JsString.ofCodePoints text = text.map fun c => UInt16.ofNat c.toNat := by
  induction text with
  | nil => rfl
  | cons c text ih =>
    rw [JsString.ofCodePoints, flatMap_cons, codeUnits_small (h c mem_cons_self).lt, map_cons]
    exact congrArg (UInt16.ofNat c.toNat :: ·) (ih fun d hd => h d (mem_cons_of_mem c hd))

theorem assertId_of (id : Enrollment.OpaqueId) (name : String) : assertId (.ofCodePoints id.asStr) name = .ok () := by
  have hcodes := id.code
  unfold assertId opaqueIdPattern
  rw [if_pos]
  rw [ofCodePoints_id hcodes, length_map, Bool.and_eq_true, decide_eq_true_iff, all_eq_true]
  refine ⟨id.length_le, fun u hu => ?_⟩
  obtain ⟨c, hc, rfl⟩ := mem_map.mp hu
  apply (idCode_unit _).mpr
  have hcode := hcodes c hc
  have hlt := hcode.lt
  rw [UInt16.toNat_ofNat', Nat.mod_eq_of_lt (by omega)]
  exact hcode

variable {u : Unit} {name : String}

theorem assertId_ok {value : JsString} (h : assertId value name = .ok u) :
    ∃ id : Enrollment.OpaqueId, JsString.ofCodePoints id.asStr = value := by
  unfold assertId at h
  split at h
  case isFalse => cases h
  case isTrue hpattern =>
    unfold opaqueIdPattern at hpattern
    rw [Bool.and_eq_true, decide_eq_true_iff, all_eq_true] at hpattern
    obtain ⟨hlength, hunits⟩ := hpattern
    have hcodes : ∀ unit ∈ value, IdCode unit.toNat := fun unit hunit => (idCode_unit unit).mp (hunits unit hunit)
    have hvalid : Enrollment.validate (value.map fun unit => Char.ofNat unit.toNat) = true := by
      unfold Enrollment.validate
      rw [length_map, Bool.and_eq_true, decide_eq_true_iff, all_eq_true]
      refine ⟨hlength, fun c hc => ?_⟩
      obtain ⟨unit, hunit, rfl⟩ := mem_map.mp hc
      apply (idCode_char _).mpr
      have hcode := hcodes unit hunit
      have hlt := hcode.lt
      have hchar : unit.toNat.isValidChar := Or.inl (by omega)
      rw [Char.ofNat, dif_pos hchar]
      exact hcode
    refine ⟨⟨_, hvalid⟩, ?_⟩
    show JsString.ofCodePoints (value.map fun unit => Char.ofNat unit.toNat) = value
    clear hvalid hlength hunits
    induction value with
    | nil => rfl
    | cons unit value ih =>
      have hunit := codeUnits_ofNat (hcodes unit mem_cons_self).lt
      rw [map_cons, JsString.ofCodePoints, flatMap_cons, hunit]
      exact congrArg (unit :: ·) (ih fun other hother => hcodes other (mem_cons_of_mem unit hother))

/-! ## Hashes and capabilities -/

theorem assertBytes_of (hash : Enrollment.Hash) (name : String) : assertBytes hash.toList 32 name = .ok () := by
  unfold assertBytes
  rw [if_neg]
  rw [Vector.length_toList]
  exact fun h => h rfl

theorem assertBytes_ok {value : Bytes} (h : assertBytes value 32 name = .ok u) :
    ∃ hash : Enrollment.Hash, hash.toList = value := by
  unfold assertBytes at h
  split at h
  case isTrue => cases h
  case isFalse hlength =>
    refine ⟨⟨value.toArray, ?_⟩, ?_⟩
    · rw [size_toArray]
      exact Decidable.not_not.mp hlength
    · exact toList_toArray

theorem and_not_eq_zero {w : Nat} (bits mask : BitVec w) : bits &&& ~~~mask = 0#w ↔ bits &&& mask = bits := by
  constructor
  · intro h
    apply BitVec.eq_of_getLsbD_eq
    intro i hi
    have hbit := congrArg (BitVec.getLsbD · i) h
    simp only [BitVec.getLsbD_and, BitVec.getLsbD_not, hi, decide_true, Bool.true_and, BitVec.getLsbD_zero] at hbit ⊢
    revert hbit
    cases bits.getLsbD i <;> cases mask.getLsbD i <;> decide
  · intro h
    rw [← h, BitVec.and_assoc]
    simp

theorem bits_known (bits : UInt32) :
    bits &&& ~~~deviceCapabilitiesController = 0 ↔ bits &&& 7 = bits := by
  rw [← UInt32.toBitVec_inj, ← UInt32.toBitVec_inj]
  exact and_not_eq_zero bits.toBitVec 7#32

theorem assertCapabilities_of (capabilities : Enrollment.DeviceCapabilities) :
    assertCapabilities (capabilities.bits.toNat : Rat) = .ok () := by
  have hnat : UInt32.ofNat ((capabilities.bits.toNat : Rat).num.toNat) = capabilities.bits := by
    rw [Rat.num_natCast, Int.toNat_natCast, UInt32.ofNat_toNat]
  have hrange := range_natCast _ (Nat.le_refl capabilities.bits.toNat)
  unfold assertCapabilities
  rw [if_neg]
  rintro (hint | hneg | hbits)
  · exact hrange (Or.inl hint)
  · exact hrange (Or.inr (Or.inl hneg))
  · rw [hnat] at hbits
    exact hbits ((bits_known _).mpr capabilities.known)

variable {writer written : CanonicalWriter}

theorem u8_ok {value : Rat} (h : writer.u8 value = .ok written) :
    ∃ byte : UInt8, (byte.toNat : Rat) = value := by
  unfold CanonicalWriter.u8 at h
  split at h
  case isTrue => cases h
  case isFalse hrange =>
    obtain ⟨n, hn, hvalue⟩ := range_nat 255 hrange
    refine ⟨UInt8.ofNat n, ?_⟩
    rw [hvalue, UInt8.toNat_ofNat', Nat.mod_eq_of_lt (by omega)]

theorem u64_ok {value : Int} (h : writer.u64 value = .ok written) :
    ∃ word : UInt64, (word.toNat : Int) = value := by
  unfold CanonicalWriter.u64 at h
  split at h
  case isTrue => cases h
  case isFalse hrange =>
    refine ⟨UInt64.ofNat value.toNat, ?_⟩
    rw [UInt64.toNat_ofNat', Nat.mod_eq_of_lt (by omega), Int.toNat_of_nonneg (by omega)]

theorem capabilities_ok {value : Rat}
    (hchecked : assertCapabilities value = .ok u) (h : writer.u32 value = .ok written) :
    ∃ capabilities : Enrollment.DeviceCapabilities, (capabilities.bits.toNat : Rat) = value := by
  unfold CanonicalWriter.u32 at h
  split at h
  case isTrue => cases h
  case isFalse hrange =>
    obtain ⟨n, hn, hvalue⟩ := range_nat 4294967295 hrange
    have hnat : (UInt32.ofNat n).toNat = n := by rw [UInt32.toNat_ofNat', Nat.mod_eq_of_lt (by omega)]
    unfold assertCapabilities at hchecked
    split at hchecked
    case isTrue => cases hchecked
    case isFalse hbits =>
      have hknown : UInt32.ofNat n &&& ~~~deviceCapabilitiesController = 0 := by
        by_contra hne
        apply hbits
        right
        right
        rw [hvalue, Rat.num_natCast, Int.toNat_natCast]
        exact hne
      refine ⟨⟨UInt32.ofNat n, (bits_known _).mp hknown⟩, ?_⟩
      rw [hnat, hvalue]

/-! ## Statements -/

open CanonicalWriter

def DeviceGrant.of (grant : Enrollment.DeviceGrant) : DeviceGrant where
  version := grant.version.toNat
  principalId := .ofCodePoints grant.principalId.asStr
  controllerId := .ofCodePoints grant.controllerId.asStr
  controllerEpoch := grant.controllerEpoch.toNat
  pairingId := .ofCodePoints grant.pairingId.asStr
  scratchId := .ofCodePoints grant.scratchId.asStr
  pendingDeviceId := .ofCodePoints grant.pendingDeviceId.asStr
  pendingDevicePublicKeyHash := grant.pendingDevicePublicKeyHash.toList
  capabilities := grant.capabilities.bits.toNat
  issuedAtMs := grant.issuedAtMs.toNat
  expiresAtMs := grant.expiresAtMs.toNat

def ControllerBootstrap.of (bootstrap : Enrollment.ControllerBootstrap) : ControllerBootstrap where
  version := bootstrap.version.toNat
  controllerId := .ofCodePoints bootstrap.controllerId.asStr
  controllerDeviceId := .ofCodePoints bootstrap.controllerDeviceId.asStr
  controllerPublicKeyHash := bootstrap.controllerPublicKeyHash.toList
  pairingId := .ofCodePoints bootstrap.pairingId.asStr
  scratchId := .ofCodePoints bootstrap.scratchId.asStr
  pendingDeviceId := .ofCodePoints bootstrap.pendingDeviceId.asStr
  pendingDevicePublicKeyHash := bootstrap.pendingDevicePublicKeyHash.toList
  issuedAtMs := bootstrap.issuedAtMs.toNat
  expiresAtMs := bootstrap.expiresAtMs.toNat

def SelfBootstrap.of (bootstrap : Enrollment.SelfBootstrap) : SelfBootstrap where
  version := bootstrap.version.toNat
  controllerId := .ofCodePoints bootstrap.controllerId.asStr
  scratchId := .ofCodePoints bootstrap.scratchId.asStr
  deviceId := .ofCodePoints bootstrap.deviceId.asStr
  devicePublicKeyHash := bootstrap.devicePublicKeyHash.toList
  issuedAtMs := bootstrap.issuedAtMs.toNat
  expiresAtMs := bootstrap.expiresAtMs.toNat

def DeviceSessionProof.of (proof : Enrollment.DeviceSessionProof) : DeviceSessionProof where
  version := proof.version.toNat
  challengeId := .ofCodePoints proof.challengeId.asStr
  deviceId := .ofCodePoints proof.deviceId.asStr
  deviceKeyEpoch := proof.deviceKeyEpoch.toNat
  audience := .ofCodePoints proof.audience
  challenge := proof.challenge.toList
  issuedAtMs := proof.issuedAtMs.toNat
  expiresAtMs := proof.expiresAtMs.toNat

/-! ### The bytes of a statement of the server -/

theorem deviceGrantDomain_eq : deviceGrantDomain = Enrollment.signingDomain "marks-device-grant-v1" := by
  decide

theorem controllerBootstrapDomain_eq :
    controllerBootstrapDomain = Enrollment.signingDomain "marks-controller-bootstrap-v1" := by
  decide

theorem selfBootstrapDomain_eq : selfBootstrapDomain = Enrollment.signingDomain "marks-self-bootstrap-v1" := by
  decide

theorem deviceSessionDomain_eq : deviceSessionDomain = Enrollment.signingDomain "marks-device-session-v1" := by
  decide

theorem encodeDeviceGrant_of (grant : Enrollment.DeviceGrant) :
    (encodeDeviceGrant (.of grant)).toOption = grant.signingBytes := by
  unfold encodeDeviceGrant DeviceGrant.of
  simp only [assertId_of, assertBytes_of, assertCapabilities_of]
  have hends := (u8_writes grant.version).ends <| (text_writes grant.principalId.asStr).ends <|
    (text_writes grant.controllerId.asStr).ends <| (u64_writes grant.controllerEpoch).ends <|
    (text_writes grant.pairingId.asStr).ends <| (text_writes grant.scratchId.asStr).ends <|
    (text_writes grant.pendingDeviceId.asStr).ends <| (bytes_writes grant.pendingDevicePublicKeyHash.toList).ends <|
    (u32_writes grant.capabilities.bits).ends <| (u64_writes grant.issuedAtMs).ends <|
    (u64_writes grant.expiresAtMs).ends ends_nil
  unfold Enrollment.DeviceGrant.signingBytes
  rw [← deviceGrantDomain_eq]
  exact hends.message deviceGrantDomain

theorem encodeControllerBootstrap_of (bootstrap : Enrollment.ControllerBootstrap) :
    (encodeControllerBootstrap (.of bootstrap)).toOption = bootstrap.signingBytes := by
  unfold encodeControllerBootstrap ControllerBootstrap.of
  simp only [assertId_of, assertBytes_of]
  have hends := (u8_writes bootstrap.version).ends <| (text_writes bootstrap.controllerId.asStr).ends <|
    (text_writes bootstrap.controllerDeviceId.asStr).ends <|
    (bytes_writes bootstrap.controllerPublicKeyHash.toList).ends <| (text_writes bootstrap.pairingId.asStr).ends <|
    (text_writes bootstrap.scratchId.asStr).ends <| (text_writes bootstrap.pendingDeviceId.asStr).ends <|
    (bytes_writes bootstrap.pendingDevicePublicKeyHash.toList).ends <| (u64_writes bootstrap.issuedAtMs).ends <|
    (u64_writes bootstrap.expiresAtMs).ends ends_nil
  unfold Enrollment.ControllerBootstrap.signingBytes
  rw [← controllerBootstrapDomain_eq]
  exact hends.message controllerBootstrapDomain

theorem encodeSelfBootstrap_of (bootstrap : Enrollment.SelfBootstrap) :
    (encodeSelfBootstrap (.of bootstrap)).toOption = bootstrap.signingBytes := by
  unfold encodeSelfBootstrap SelfBootstrap.of
  simp only [assertId_of, assertBytes_of]
  have hends := (u8_writes bootstrap.version).ends <| (text_writes bootstrap.controllerId.asStr).ends <|
    (text_writes bootstrap.scratchId.asStr).ends <| (text_writes bootstrap.deviceId.asStr).ends <|
    (bytes_writes bootstrap.devicePublicKeyHash.toList).ends <| (u64_writes bootstrap.issuedAtMs).ends <|
    (u64_writes bootstrap.expiresAtMs).ends ends_nil
  unfold Enrollment.SelfBootstrap.signingBytes
  rw [← selfBootstrapDomain_eq]
  exact hends.message selfBootstrapDomain

theorem encodeDeviceSessionProof_of (proof : Enrollment.DeviceSessionProof) :
    (encodeDeviceSessionProof (.of proof)).toOption =
      if isWebOrigin (.ofCodePoints proof.audience) then proof.signingBytes else none := by
  unfold encodeDeviceSessionProof DeviceSessionProof.of
  simp only [assertId_of, assertBytes_of]
  have hends := (u8_writes proof.version).ends <| (text_writes proof.challengeId.asStr).ends <|
    (text_writes proof.deviceId.asStr).ends <| (u64_writes proof.deviceKeyEpoch).ends <|
    (text_writes proof.audience).ends <| (bytes_writes proof.challenge.toList).ends <|
    (u64_writes proof.issuedAtMs).ends <| (u64_writes proof.expiresAtMs).ends ends_nil
  cases isWebOrigin (.ofCodePoints proof.audience) with
  | false => rfl
  | true =>
    unfold Enrollment.DeviceSessionProof.signingBytes
    rw [← deviceSessionDomain_eq]
    exact hends.message deviceSessionDomain

/-! ### The statements the client signs -/

variable {bytes : Bytes}

theorem encodeDeviceGrant_ok {grant : DeviceGrant} (h : encodeDeviceGrant grant = .ok bytes) :
    ∃ signed : Enrollment.DeviceGrant, .of signed = grant := by
  obtain ⟨_, hprincipal, h⟩ := bind_ok h
  obtain ⟨_, hcontroller, h⟩ := bind_ok h
  obtain ⟨_, hpairing, h⟩ := bind_ok h
  obtain ⟨_, hscratch, h⟩ := bind_ok h
  obtain ⟨_, hdevice, h⟩ := bind_ok h
  obtain ⟨_, hkey, h⟩ := bind_ok h
  obtain ⟨_, hchecked, h⟩ := bind_ok h
  obtain ⟨_, hversion, h⟩ := bind_ok h
  obtain ⟨_, -, h⟩ := bind_ok h
  obtain ⟨_, -, h⟩ := bind_ok h
  obtain ⟨_, hepoch, h⟩ := bind_ok h
  obtain ⟨_, -, h⟩ := bind_ok h
  obtain ⟨_, -, h⟩ := bind_ok h
  obtain ⟨_, -, h⟩ := bind_ok h
  obtain ⟨_, -, h⟩ := bind_ok h
  obtain ⟨_, hcapabilities, h⟩ := bind_ok h
  obtain ⟨_, hissued, h⟩ := bind_ok h
  obtain ⟨_, hexpires, -⟩ := bind_ok h
  obtain ⟨principalId, hprincipal⟩ := assertId_ok hprincipal
  obtain ⟨controllerId, hcontroller⟩ := assertId_ok hcontroller
  obtain ⟨pairingId, hpairing⟩ := assertId_ok hpairing
  obtain ⟨scratchId, hscratch⟩ := assertId_ok hscratch
  obtain ⟨deviceId, hdevice⟩ := assertId_ok hdevice
  obtain ⟨key, hkey⟩ := assertBytes_ok hkey
  obtain ⟨version, hversion⟩ := u8_ok hversion
  obtain ⟨epoch, hepoch⟩ := u64_ok hepoch
  obtain ⟨capabilities, hcapabilities⟩ := capabilities_ok hchecked hcapabilities
  obtain ⟨issued, hissued⟩ := u64_ok hissued
  obtain ⟨expires, hexpires⟩ := u64_ok hexpires
  refine ⟨⟨version, principalId, controllerId, epoch, pairingId, scratchId, deviceId, key, capabilities, issued,
    expires⟩, ?_⟩
  cases grant
  rw [DeviceGrant.of, DeviceGrant.mk.injEq]
  exact ⟨hversion, hprincipal, hcontroller, hepoch, hpairing, hscratch, hdevice, hkey, hcapabilities, hissued, hexpires⟩

theorem encodeControllerBootstrap_ok {bootstrap : ControllerBootstrap}
    (h : encodeControllerBootstrap bootstrap = .ok bytes) :
    ∃ signed : Enrollment.ControllerBootstrap, .of signed = bootstrap := by
  obtain ⟨_, hcontroller, h⟩ := bind_ok h
  obtain ⟨_, hdevice, h⟩ := bind_ok h
  obtain ⟨_, hpairing, h⟩ := bind_ok h
  obtain ⟨_, hscratch, h⟩ := bind_ok h
  obtain ⟨_, hpending, h⟩ := bind_ok h
  obtain ⟨_, hkey, h⟩ := bind_ok h
  obtain ⟨_, hpendingKey, h⟩ := bind_ok h
  obtain ⟨_, hversion, h⟩ := bind_ok h
  obtain ⟨_, -, h⟩ := bind_ok h
  obtain ⟨_, -, h⟩ := bind_ok h
  obtain ⟨_, -, h⟩ := bind_ok h
  obtain ⟨_, -, h⟩ := bind_ok h
  obtain ⟨_, -, h⟩ := bind_ok h
  obtain ⟨_, -, h⟩ := bind_ok h
  obtain ⟨_, -, h⟩ := bind_ok h
  obtain ⟨_, hissued, h⟩ := bind_ok h
  obtain ⟨_, hexpires, -⟩ := bind_ok h
  obtain ⟨controllerId, hcontroller⟩ := assertId_ok hcontroller
  obtain ⟨deviceId, hdevice⟩ := assertId_ok hdevice
  obtain ⟨pairingId, hpairing⟩ := assertId_ok hpairing
  obtain ⟨scratchId, hscratch⟩ := assertId_ok hscratch
  obtain ⟨pendingId, hpending⟩ := assertId_ok hpending
  obtain ⟨key, hkey⟩ := assertBytes_ok hkey
  obtain ⟨pendingKey, hpendingKey⟩ := assertBytes_ok hpendingKey
  obtain ⟨version, hversion⟩ := u8_ok hversion
  obtain ⟨issued, hissued⟩ := u64_ok hissued
  obtain ⟨expires, hexpires⟩ := u64_ok hexpires
  refine ⟨⟨version, controllerId, deviceId, key, pairingId, scratchId, pendingId, pendingKey, issued, expires⟩, ?_⟩
  cases bootstrap
  rw [ControllerBootstrap.of, ControllerBootstrap.mk.injEq]
  exact ⟨hversion, hcontroller, hdevice, hkey, hpairing, hscratch, hpending, hpendingKey, hissued, hexpires⟩

theorem encodeSelfBootstrap_ok {bootstrap : SelfBootstrap}
    (h : encodeSelfBootstrap bootstrap = .ok bytes) : ∃ signed : Enrollment.SelfBootstrap, .of signed = bootstrap := by
  obtain ⟨_, hcontroller, h⟩ := bind_ok h
  obtain ⟨_, hscratch, h⟩ := bind_ok h
  obtain ⟨_, hdevice, h⟩ := bind_ok h
  obtain ⟨_, hkey, h⟩ := bind_ok h
  obtain ⟨_, hversion, h⟩ := bind_ok h
  obtain ⟨_, -, h⟩ := bind_ok h
  obtain ⟨_, -, h⟩ := bind_ok h
  obtain ⟨_, -, h⟩ := bind_ok h
  obtain ⟨_, -, h⟩ := bind_ok h
  obtain ⟨_, hissued, h⟩ := bind_ok h
  obtain ⟨_, hexpires, -⟩ := bind_ok h
  obtain ⟨controllerId, hcontroller⟩ := assertId_ok hcontroller
  obtain ⟨scratchId, hscratch⟩ := assertId_ok hscratch
  obtain ⟨deviceId, hdevice⟩ := assertId_ok hdevice
  obtain ⟨key, hkey⟩ := assertBytes_ok hkey
  obtain ⟨version, hversion⟩ := u8_ok hversion
  obtain ⟨issued, hissued⟩ := u64_ok hissued
  obtain ⟨expires, hexpires⟩ := u64_ok hexpires
  refine ⟨⟨version, controllerId, scratchId, deviceId, key, issued, expires⟩, ?_⟩
  cases bootstrap
  rw [SelfBootstrap.of, SelfBootstrap.mk.injEq]
  exact ⟨hversion, hcontroller, hscratch, hdevice, hkey, hissued, hexpires⟩

def WellFormed (text : JsString) : Prop := JsString.ofCodePoints text.codePoints = text

theorem encodeDeviceSessionProof_ok {proof : DeviceSessionProof}
    (h : encodeDeviceSessionProof proof = .ok bytes) (haudience : WellFormed proof.audience) :
    ∃ signed : Enrollment.DeviceSessionProof, .of signed = proof := by
  obtain ⟨_, hchallengeId, h⟩ := bind_ok h
  obtain ⟨_, hdevice, h⟩ := bind_ok h
  obtain ⟨_, hchallenge, h⟩ := bind_ok h
  obtain ⟨_, -, h⟩ := bind_ok h
  obtain ⟨_, hversion, h⟩ := bind_ok h
  obtain ⟨_, -, h⟩ := bind_ok h
  obtain ⟨_, -, h⟩ := bind_ok h
  obtain ⟨_, hepoch, h⟩ := bind_ok h
  obtain ⟨_, -, h⟩ := bind_ok h
  obtain ⟨_, -, h⟩ := bind_ok h
  obtain ⟨_, hissued, h⟩ := bind_ok h
  obtain ⟨_, hexpires, -⟩ := bind_ok h
  obtain ⟨challengeId, hchallengeId⟩ := assertId_ok hchallengeId
  obtain ⟨deviceId, hdevice⟩ := assertId_ok hdevice
  obtain ⟨challenge, hchallenge⟩ := assertBytes_ok hchallenge
  obtain ⟨version, hversion⟩ := u8_ok hversion
  obtain ⟨epoch, hepoch⟩ := u64_ok hepoch
  obtain ⟨issued, hissued⟩ := u64_ok hissued
  obtain ⟨expires, hexpires⟩ := u64_ok hexpires
  refine ⟨⟨version, challengeId, deviceId, epoch, proof.audience.codePoints, challenge, issued, expires⟩, ?_⟩
  cases proof
  rw [DeviceSessionProof.of, DeviceSessionProof.mk.injEq]
  exact ⟨hversion, hchallengeId, hdevice, hepoch, haudience, hchallenge, hissued, hexpires⟩

/-! ### All four -/

inductive Statement
  | deviceGrant (grant : DeviceGrant)
  | controllerBootstrap (bootstrap : ControllerBootstrap)
  | selfBootstrap (bootstrap : SelfBootstrap)
  | deviceSession (proof : DeviceSessionProof)

namespace Statement

def of : Enrollment.Statement → Statement
  | .deviceGrant grant => .deviceGrant (.of grant)
  | .controllerBootstrap bootstrap => .controllerBootstrap (.of bootstrap)
  | .selfBootstrap bootstrap => .selfBootstrap (.of bootstrap)
  | .deviceSession proof => .deviceSession (.of proof)

def encode : Statement → Except String Bytes
  | .deviceGrant grant => encodeDeviceGrant grant
  | .controllerBootstrap bootstrap => encodeControllerBootstrap bootstrap
  | .selfBootstrap bootstrap => encodeSelfBootstrap bootstrap
  | .deviceSession proof => encodeDeviceSessionProof proof

def audience : Statement → Option JsString
  | .deviceSession proof => some proof.audience
  | _ => none

end Statement

/-- The bytes of a statement tell it from every other. The client writes those bytes, save for an audience that is no
origin of the web, which it refuses; and what it writes bytes for is such a statement. -/
theorem signing_bytes_agree :
    (∀ (s t : Enrollment.Statement) (bytes : Bytes), s.signingBytes = some bytes → t.signingBytes = some bytes → s = t) ∧
      (∀ s : Enrollment.Statement, (Statement.of s).encode.toOption =
        if (Statement.of s).audience.all isWebOrigin then s.signingBytes else none) ∧
      ∀ (t : Statement) (bytes : Bytes), t.encode = .ok bytes → (∀ audience ∈ t.audience, WellFormed audience) →
        ∃ s : Enrollment.Statement, .of s = t := by
  refine ⟨fun s t bytes => Enrollment.Statement.signingBytes_inj, fun s => ?_, fun t bytes h haudience => ?_⟩
  · cases s with
    | deviceGrant grant => exact encodeDeviceGrant_of grant
    | controllerBootstrap bootstrap => exact encodeControllerBootstrap_of bootstrap
    | selfBootstrap bootstrap => exact encodeSelfBootstrap_of bootstrap
    | deviceSession proof => exact encodeDeviceSessionProof_of proof
  · cases t with
    | deviceGrant grant =>
      obtain ⟨signed, hsigned⟩ := encodeDeviceGrant_ok h
      exact ⟨.deviceGrant signed, congrArg Statement.deviceGrant hsigned⟩
    | controllerBootstrap bootstrap =>
      obtain ⟨signed, hsigned⟩ := encodeControllerBootstrap_ok h
      exact ⟨.controllerBootstrap signed, congrArg Statement.controllerBootstrap hsigned⟩
    | selfBootstrap bootstrap =>
      obtain ⟨signed, hsigned⟩ := encodeSelfBootstrap_ok h
      exact ⟨.selfBootstrap signed, congrArg Statement.selfBootstrap hsigned⟩
    | deviceSession proof =>
      obtain ⟨signed, hsigned⟩ := encodeDeviceSessionProof_ok h (haudience _ rfl)
      exact ⟨.deviceSession signed, congrArg Statement.deviceSession hsigned⟩

def sessionProof (audience : String) : Enrollment.DeviceSessionProof :=
  ⟨1, ⟨"challenge_1".toList, by decide⟩, ⟨"device_1".toList, by decide⟩, 1, audience.toList, Vector.replicate 32 0, 1, 2⟩

theorem session_agrees :
    (sessionProof "https://marks").signingBytes.isSome = true ∧
      (Statement.of (.deviceSession (sessionProof "https://marks"))).encode.toOption =
        (sessionProof "https://marks").signingBytes := by
  refine ⟨by decide +kernel, ?_⟩
  have h := signing_bytes_agree.2.1 (.deviceSession (sessionProof "https://marks"))
  rw [if_pos (by decide +kernel)] at h
  exact h

/-- The client refuses an audience the server has bytes for, and signs two audiences with the same bytes. -/
theorem audience_refused :
    (sessionProof "wss://marks").signingBytes.isSome = true ∧
      encodeDeviceSessionProof (.of (sessionProof "wss://marks")) = .error "audience must be an HTTP or HTTPS origin" ∧
      (encodeDeviceSessionProof { DeviceSessionProof.of (sessionProof "") with
        audience := JsString.ofString "http://" ++ [0xD800] }).toOption =
      (encodeDeviceSessionProof { DeviceSessionProof.of (sessionProof "") with
        audience := JsString.ofString "http://" ++ [0xFFFD] }).toOption ∧
      (encodeDeviceSessionProof { DeviceSessionProof.of (sessionProof "") with
        audience := JsString.ofString "http://" ++ [0xFFFD] }).toOption.isSome = true := by
  refine ⟨by decide +kernel, rfl, by decide +kernel, by decide +kernel⟩

end Marks.SigningClient
