import Marks.Enrollment
import Marks.PresenceWire

/-! # What a signature says

The bytes of a statement are a domain and its fields, integers of a fixed width and texts behind their length. Each
of these is prefix-free, so the bytes give back the domain, field after field, and with it the statement. -/

namespace Marks.Enrollment

open Encoding

/-! ## Identifiers -/

def IdCode (n : Nat) : Prop := 65 ≤ n ∧ n ≤ 90 ∨ 97 ≤ n ∧ n ≤ 122 ∨ 48 ≤ n ∧ n ≤ 57 ∨ n = 95 ∨ n = 45

theorem idCode_char (c : Char) : (c.isAlphanum || c == '-' || c == '_') = true ↔ IdCode c.toNat := by
  have hdash : c = '-' ↔ c.toNat = 45 := by
    constructor
    · rintro rfl
      rfl
    · intro h
      rw [← Char.ofNat_toNat (c := c), h]
  have hunderscore : c = '_' ↔ c.toNat = 95 := by
    constructor
    · rintro rfl
      rfl
    · intro h
      rw [← Char.ofNat_toNat (c := c), h]
  have halphanum : c.isAlphanum = (decide (65 ≤ c.val ∧ c.val ≤ 90) ||
      decide (97 ≤ c.val) && decide (c.val ≤ 122) || decide (48 ≤ c.val) && decide (c.val ≤ 57)) := rfl
  unfold IdCode
  rw [halphanum]
  simp only [Bool.or_eq_true, beq_iff_eq, hdash, hunderscore, Bool.and_eq_true, decide_eq_true_eq,
    UInt32.le_iff_toNat_le]
  show (((65 ≤ c.toNat ∧ c.toNat ≤ 90 ∨ 97 ≤ c.toNat ∧ c.toNat ≤ 122) ∨ 48 ≤ c.toNat ∧ c.toNat ≤ 57) ∨ c.toNat = 45) ∨
    c.toNat = 95 ↔ _
  omega

theorem IdCode.lt {n : Nat} (h : IdCode n) : n < 128 := by
  unfold IdCode at h
  omega

theorem OpaqueId.ext {a b : OpaqueId} (h : a.asStr = b.asStr) : a = b := by
  cases a
  cases b
  cases h
  rfl

theorem OpaqueId.code (id : OpaqueId) : ∀ c ∈ id.asStr, IdCode c.toNat := by
  have hvalid := id.valid
  unfold validate at hvalid
  rw [Bool.and_eq_true, List.all_eq_true] at hvalid
  exact fun c hc => (idCode_char c).mp (hvalid.2 c hc)

theorem OpaqueId.length_le (id : OpaqueId) : 8 ≤ id.asStr.length ∧ id.asStr.length ≤ 128 := by
  have hvalid := id.valid
  unfold validate at hvalid
  rw [Bool.and_eq_true, decide_eq_true_iff] at hvalid
  exact hvalid.1

/-! ## Fields -/

theorem bigEndian_succ (width value : Nat) :
    bigEndian (width + 1) value = UInt8.ofNat (value / 256 ^ width) :: bigEndian width value := by
  unfold bigEndian
  rw [List.range_succ, List.reverse_append]
  rfl

theorem bigEndian_length (width value : Nat) : (bigEndian width value).length = width := by
  unfold bigEndian
  rw [List.length_map, List.length_reverse, List.length_range]

theorem bigEndian_mod {width m n : Nat} (h : bigEndian width m = bigEndian width n) :
    m % 256 ^ width = n % 256 ^ width := by
  induction width with
  | zero => rw [Nat.pow_zero, Nat.mod_one, Nat.mod_one]
  | succ width ih =>
    rw [bigEndian_succ, bigEndian_succ] at h
    obtain ⟨hdigit, hrest⟩ := List.cons.inj h
    have hdigits : m / 256 ^ width % 256 = n / 256 ^ width % 256 := by
      have hnat := congrArg UInt8.toNat hdigit
      rw [UInt8.toNat_ofNat', UInt8.toNat_ofNat'] at hnat
      exact hnat
    rw [Nat.pow_succ, Nat.mod_mul, Nat.mod_mul, ih hrest, hdigits]

theorem putU8_free : PrefixFree fun value : UInt8 => some (putU8 value) := by
  apply PrefixFree.of_width 1
  · intro value
    rfl
  · intro a b h
    exact (List.cons.inj h).1

theorem putU32_free : PrefixFree fun value : UInt32 => some (putU32 value) := by
  apply PrefixFree.of_width 4
  · intro value
    exact bigEndian_length 4 value.toNat
  intro a b h
  have hmod : a.toNat % 2 ^ 32 = b.toNat % 2 ^ 32 := bigEndian_mod h
  rw [Nat.mod_eq_of_lt a.toNat_lt, Nat.mod_eq_of_lt b.toNat_lt] at hmod
  exact UInt32.toNat_inj.mp hmod

theorem putU64_free : PrefixFree fun value : UInt64 => some (putU64 value) := by
  apply PrefixFree.of_width 8
  · intro value
    exact bigEndian_length 8 value.toNat
  intro a b h
  have hmod : a.toNat % 2 ^ 64 = b.toNat % 2 ^ 64 := bigEndian_mod h
  rw [Nat.mod_eq_of_lt a.toNat_lt, Nat.mod_eq_of_lt b.toNat_lt] at hmod
  exact UInt64.toNat_inj.mp hmod

def putLength (length : Nat) : Option Bytes :=
  if length < UInt32.size then some (putU32 (UInt32.ofNat length)) else none

theorem putLength_free : PrefixFree putLength := by
  intro m n p q r s hm hn heq
  unfold putLength at hm hn
  split at hm
  · next hlm =>
    split at hn
    · next hln =>
      obtain ⟨hword, hrest⟩ := putU32_free hm hn heq
      have hnat := congrArg UInt32.toNat hword
      rw [UInt32.toNat_ofNat', UInt32.toNat_ofNat', Nat.mod_eq_of_lt hlm, Nat.mod_eq_of_lt hln] at hnat
      exact ⟨hnat, hrest⟩
    · cases hn
  · cases hm

theorem putBytes_free : PrefixFree putBytes := by
  have hput : putBytes = fun value => (putLength value.length).map (· ++ value) := by
    funext value
    unfold putBytes putLength
    split <;> rfl
  rw [hput]
  exact putLength_free.framed

theorem utf8_injective : Function.Injective fun value : Text => value.flatMap String.utf8EncodeChar := by
  intro a b h
  have hbytes : keyBytes a = keyBytes b := h
  have hread := fromUtf8_keyBytes a
  rw [hbytes, fromUtf8_keyBytes] at hread
  exact (Option.some.inj hread).symm

theorem putText_free : PrefixFree putText := putBytes_free.comap utf8_injective

theorem putId_free : PrefixFree fun id : OpaqueId => putText id.asStr := by
  apply putText_free.comap
  intro a b h
  exact OpaqueId.ext h

theorem putHash_free : PrefixFree fun hash : Hash => putBytes hash.toList := by
  apply putBytes_free.comap
  intro a b h
  exact Vector.toList_inj.mp h

theorem putCapabilities_free : PrefixFree fun capabilities : DeviceCapabilities => some (putU32 capabilities.bits) := by
  refine putU32_free.comap (f := DeviceCapabilities.bits) ?_
  intro a b h
  cases a
  cases b
  cases h
  rfl

/-! ## Statements -/

inductive StatementKind
  | deviceGrant
  | controllerBootstrap
  | selfBootstrap
  | deviceSession
deriving DecidableEq

def StatementKind.domain : StatementKind → String
  | .deviceGrant => "marks-device-grant-v1"
  | .controllerBootstrap => "marks-controller-bootstrap-v1"
  | .selfBootstrap => "marks-self-bootstrap-v1"
  | .deviceSession => "marks-device-session-v1"

theorem domain_free : PrefixFree fun kind : StatementKind => some (signingDomain kind.domain) := by
  apply PrefixFree.of_terminator
  · intro kind
    cases kind <;> decide
  · intro a b h
    cases a <;> cases b <;> first | rfl | exact absurd h (by decide)

inductive Statement
  | deviceGrant (grant : DeviceGrant)
  | controllerBootstrap (bootstrap : ControllerBootstrap)
  | selfBootstrap (bootstrap : SelfBootstrap)
  | deviceSession (proof : DeviceSessionProof)
deriving DecidableEq

namespace Statement

def kind : Statement → StatementKind
  | .deviceGrant _ => .deviceGrant
  | .controllerBootstrap _ => .controllerBootstrap
  | .selfBootstrap _ => .selfBootstrap
  | .deviceSession _ => .deviceSession

def signingBytes : Statement → Option Bytes
  | .deviceGrant grant => grant.signingBytes
  | .controllerBootstrap bootstrap => bootstrap.signingBytes
  | .selfBootstrap bootstrap => bootstrap.signingBytes
  | .deviceSession proof => proof.signingBytes

end Statement

/-! ### The fields come back -/

theorem DeviceGrant.signingBytes_inj {a b : DeviceGrant} {bytes : Bytes} (ha : a.signingBytes = some bytes)
    (hb : b.signingBytes = some bytes) : a = b := by
  obtain ⟨-, _, ha, hb⟩ := domain_free.head (a := .deviceGrant) (b := .deviceGrant) ha hb
  obtain ⟨hversion, _, ha, hb⟩ := putU8_free.head ha hb
  obtain ⟨hprincipal, _, ha, hb⟩ := putId_free.head ha hb
  obtain ⟨hcontroller, _, ha, hb⟩ := putId_free.head ha hb
  obtain ⟨hepoch, _, ha, hb⟩ := putU64_free.head ha hb
  obtain ⟨hpairing, _, ha, hb⟩ := putId_free.head ha hb
  obtain ⟨hscratch, _, ha, hb⟩ := putId_free.head ha hb
  obtain ⟨hdevice, _, ha, hb⟩ := putId_free.head ha hb
  obtain ⟨hkey, _, ha, hb⟩ := putHash_free.head ha hb
  obtain ⟨hcapabilities, _, ha, hb⟩ := putCapabilities_free.head ha hb
  obtain ⟨hissued, _, ha, hb⟩ := putU64_free.head ha hb
  obtain ⟨hexpires, -⟩ := putU64_free.head ha hb
  cases a
  cases b
  rw [DeviceGrant.mk.injEq]
  exact ⟨hversion, hprincipal, hcontroller, hepoch, hpairing, hscratch, hdevice, hkey, hcapabilities, hissued, hexpires⟩

theorem ControllerBootstrap.signingBytes_inj {a b : ControllerBootstrap} {bytes : Bytes}
    (ha : a.signingBytes = some bytes) (hb : b.signingBytes = some bytes) : a = b := by
  obtain ⟨-, _, ha, hb⟩ := domain_free.head (a := .controllerBootstrap) (b := .controllerBootstrap) ha hb
  obtain ⟨hversion, _, ha, hb⟩ := putU8_free.head ha hb
  obtain ⟨hcontroller, _, ha, hb⟩ := putId_free.head ha hb
  obtain ⟨hdevice, _, ha, hb⟩ := putId_free.head ha hb
  obtain ⟨hkey, _, ha, hb⟩ := putHash_free.head ha hb
  obtain ⟨hpairing, _, ha, hb⟩ := putId_free.head ha hb
  obtain ⟨hscratch, _, ha, hb⟩ := putId_free.head ha hb
  obtain ⟨hpending, _, ha, hb⟩ := putId_free.head ha hb
  obtain ⟨hpendingKey, _, ha, hb⟩ := putHash_free.head ha hb
  obtain ⟨hissued, _, ha, hb⟩ := putU64_free.head ha hb
  obtain ⟨hexpires, -⟩ := putU64_free.head ha hb
  cases a
  cases b
  rw [ControllerBootstrap.mk.injEq]
  exact ⟨hversion, hcontroller, hdevice, hkey, hpairing, hscratch, hpending, hpendingKey, hissued, hexpires⟩

theorem SelfBootstrap.signingBytes_inj {a b : SelfBootstrap} {bytes : Bytes} (ha : a.signingBytes = some bytes)
    (hb : b.signingBytes = some bytes) : a = b := by
  obtain ⟨-, _, ha, hb⟩ := domain_free.head (a := .selfBootstrap) (b := .selfBootstrap) ha hb
  obtain ⟨hversion, _, ha, hb⟩ := putU8_free.head ha hb
  obtain ⟨hcontroller, _, ha, hb⟩ := putId_free.head ha hb
  obtain ⟨hscratch, _, ha, hb⟩ := putId_free.head ha hb
  obtain ⟨hdevice, _, ha, hb⟩ := putId_free.head ha hb
  obtain ⟨hkey, _, ha, hb⟩ := putHash_free.head ha hb
  obtain ⟨hissued, _, ha, hb⟩ := putU64_free.head ha hb
  obtain ⟨hexpires, -⟩ := putU64_free.head ha hb
  cases a
  cases b
  rw [SelfBootstrap.mk.injEq]
  exact ⟨hversion, hcontroller, hscratch, hdevice, hkey, hissued, hexpires⟩

theorem DeviceSessionProof.signingBytes_inj {a b : DeviceSessionProof} {bytes : Bytes}
    (ha : a.signingBytes = some bytes) (hb : b.signingBytes = some bytes) : a = b := by
  obtain ⟨-, _, ha, hb⟩ := domain_free.head (a := .deviceSession) (b := .deviceSession) ha hb
  obtain ⟨hversion, _, ha, hb⟩ := putU8_free.head ha hb
  obtain ⟨hchallengeId, _, ha, hb⟩ := putId_free.head ha hb
  obtain ⟨hdevice, _, ha, hb⟩ := putId_free.head ha hb
  obtain ⟨hepoch, _, ha, hb⟩ := putU64_free.head ha hb
  obtain ⟨haudience, _, ha, hb⟩ := putText_free.head ha hb
  obtain ⟨hchallenge, _, ha, hb⟩ := putHash_free.head ha hb
  obtain ⟨hissued, _, ha, hb⟩ := putU64_free.head ha hb
  obtain ⟨hexpires, -⟩ := putU64_free.head ha hb
  cases a
  cases b
  rw [DeviceSessionProof.mk.injEq]
  exact ⟨hversion, hchallengeId, hdevice, hepoch, haudience, hchallenge, hissued, hexpires⟩

namespace Statement

variable {s t : Statement} {bytes : Bytes}

theorem signingBytes_domain (s : Statement) :
    ∃ fields, s.signingBytes = message (some (signingDomain s.kind.domain) :: fields) := by
  cases s <;> exact ⟨_, rfl⟩

theorem kind_eq (hs : s.signingBytes = some bytes) (ht : t.signingBytes = some bytes) : s.kind = t.kind := by
  obtain ⟨sFields, hsBytes⟩ := signingBytes_domain s
  obtain ⟨tFields, htBytes⟩ := signingBytes_domain t
  rw [hsBytes] at hs
  rw [htBytes] at ht
  exact (domain_free.head hs ht).1

theorem signingBytes_inj (hs : s.signingBytes = some bytes) (ht : t.signingBytes = some bytes) : s = t := by
  have hkind := kind_eq hs ht
  cases s with
  | deviceGrant grant =>
    cases t <;> cases hkind
    exact congrArg Statement.deviceGrant (DeviceGrant.signingBytes_inj hs ht)
  | controllerBootstrap bootstrap =>
    cases t <;> cases hkind
    exact congrArg Statement.controllerBootstrap (ControllerBootstrap.signingBytes_inj hs ht)
  | selfBootstrap bootstrap =>
    cases t <;> cases hkind
    exact congrArg Statement.selfBootstrap (SelfBootstrap.signingBytes_inj hs ht)
  | deviceSession proof =>
    cases t <;> cases hkind
    exact congrArg Statement.deviceSession (DeviceSessionProof.signingBytes_inj hs ht)

end Statement

end Marks.Enrollment
