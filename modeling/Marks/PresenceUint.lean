import Marks.PresenceCodecSound

/-! # The shifts of the presence integers

The room's decoder stops where the high bit of a byte is clear. Its guard on the top bits looks at the bits of the byte
and not at the shift, so what it does behind the ninth byte is a matter of its own. -/

namespace Marks

open List

/-! ## The loop -/

structure UintRead where
  value : Option Nat
  offset : Nat
  shifts : List Nat
deriving DecidableEq, Repr

/-- The loop of `presence_uint` over the bytes from the offset on, with the amounts it shifts by. -/
def presenceUintLoop (start : Nat) : Bytes → Nat → Nat → Nat → UintRead
  | [], _, _, offset => ⟨none, offset, []⟩
  | byte :: rest, value, shift, offset =>
    if 63 ≤ shift ∧ byte &&& 0x7f ≠ 0 then ⟨none, offset + 1, []⟩
    else
      let value := value ||| (byte &&& 0x7f).toNat <<< shift
      if byte &&& 0x80 = 0 then
        ⟨if 1 < offset + 1 - start ∧ byte = 0 then none else some value, offset + 1, [shift]⟩
      else
        let read := presenceUintLoop start rest value (shift + 7) (offset + 1)
        { read with shifts := shift :: read.shifts }

def presenceUintAt (input : Bytes) (offset : Nat) : UintRead :=
  presenceUintLoop offset (input.drop offset) 0 0 offset

/-- No shift is as wide as the integer, and what is read is the shortest encoding of an integer of 64 bits. -/
structure UintSound (input : Bytes) (offset : Nat) : Prop where
  shifts : ∀ shift ∈ (presenceUintAt input offset).shifts, shift < 64
  value : ∀ n, (presenceUintAt input offset).value = some n ↔ n < 2 ^ 64 ∧ presencePutUint n <+: input.drop offset
  offset : ∀ n, (presenceUintAt input offset).value = some n →
    (presenceUintAt input offset).offset = offset + (presencePutUint n).length

/-- Nine bytes that go on, and then the top bit of an integer of 64 bits, or two bytes without a bit of their own. -/
def PastNine (bytes : Bytes) : Prop :=
  ∃ nine rest : Bytes, nine.length = 9 ∧ (∀ byte ∈ nine, byte &&& 0x80 ≠ 0) ∧ bytes = nine ++ rest ∧
    (rest.head? = some 1 ∨ rest.take 2 = [0x80, 0] ∨ rest.take 2 = [0x80, 0x80])

theorem loop_cons (start value shift offset : Nat) (byte : UInt8) (rest : Bytes) :
    presenceUintLoop start (byte :: rest) value shift offset =
      if 63 ≤ shift ∧ byte &&& 0x7f ≠ 0 then ⟨none, offset + 1, []⟩
      else if byte &&& 0x80 = 0 then
        ⟨if 1 < offset + 1 - start ∧ byte = 0 then none else some (value ||| (byte &&& 0x7f).toNat <<< shift),
          offset + 1, [shift]⟩
      else
        { presenceUintLoop start rest (value ||| (byte &&& 0x7f).toNat <<< shift) (shift + 7) (offset + 1) with
          shifts := shift ::
            (presenceUintLoop start rest (value ||| (byte &&& 0x7f).toNat <<< shift) (shift + 7) (offset + 1)).shifts } :=
  rfl

theorem from_cons (value shift : Nat) (first : Bool) (byte : UInt8) (rest : Bytes) :
    presenceUintFrom value shift first (byte :: rest) =
      if 63 ≤ shift ∧ byte &&& 0x7f ≠ 0 then none
      else if byte &&& 0x80 = 0 then
        if !first ∧ byte = 0 then none else some (value ||| (byte &&& 0x7f).toNat <<< shift, rest)
      else presenceUintFrom (value ||| (byte &&& 0x7f).toNat <<< shift) (shift + 7) false rest := rfl

theorem loop_value (start : Nat) {bytes : Bytes} {value shift offset : Nat} (h : start ≤ offset) :
    (presenceUintLoop start bytes value shift offset).value =
        (presenceUintFrom value shift (offset == start) bytes).map Prod.fst ∧
      ∀ found, presenceUintFrom value shift (offset == start) bytes = some found →
        (presenceUintLoop start bytes value shift offset).offset + found.2.length = offset + bytes.length := by
  induction bytes generalizing value shift offset with
  | nil => exact ⟨rfl, fun found hfound => by cases hfound⟩
  | cons byte rest ih =>
    rw [loop_cons, from_cons]
    by_cases htop : 63 ≤ shift ∧ byte &&& 0x7f ≠ 0
    · rw [if_pos htop, if_pos htop]
      exact ⟨rfl, fun found hfound => by cases hfound⟩
    rw [if_neg htop, if_neg htop]
    by_cases hlast : byte &&& 0x80 = 0
    · rw [if_pos hlast, if_pos hlast]
      have hfirst : (1 < offset + 1 - start ∧ byte = 0) ↔ ((!(offset == start)) = true ∧ byte = 0) := by
        rw [Bool.not_eq_true', beq_eq_false_iff_ne]
        refine and_congr_left fun _ => ?_
        omega
      by_cases hzero : 1 < offset + 1 - start ∧ byte = 0
      · rw [if_pos hzero, if_pos (hfirst.mp hzero)]
        exact ⟨rfl, fun found hfound => by cases hfound⟩
      rw [if_neg hzero, if_neg (fun hnot => hzero (hfirst.mpr hnot))]
      refine ⟨rfl, fun found hfound => ?_⟩
      cases hfound
      show offset + 1 + rest.length = offset + (rest.length + 1)
      omega
    · rw [if_neg hlast, if_neg hlast]
      have hnext : (offset + 1 == start) = false := beq_false_of_ne (by omega)
      obtain ⟨hvalue, hoffset⟩ := @ih (value ||| (byte &&& 0x7f).toNat <<< shift) (shift + 7) (offset + 1) (by omega)
      rw [hnext] at hvalue hoffset
      refine ⟨hvalue, fun found hfound => ?_⟩
      show (presenceUintLoop start rest _ (shift + 7) (offset + 1)).offset + _ = offset + (rest.length + 1)
      rw [hoffset found hfound]
      omega

theorem loop_shifts (start k : Nat) {bytes : Bytes} {value shift offset : Nat} (hk : shift + 7 * k = 63) {s : Nat}
    (hs : s ∈ (presenceUintLoop start bytes value shift offset).shifts) (hwide : 64 ≤ s) :
    ∃ ahead rest : Bytes, ahead.length = k ∧ (∀ byte ∈ ahead, byte &&& 0x80 ≠ 0) ∧ bytes = ahead ++ rest ∧
      (rest.take 2 = [0x80, 0] ∨ rest.take 2 = [0x80, 0x80]) := by
  induction k generalizing bytes value shift offset with
  | zero =>
    cases bytes with
    | nil => cases hs
    | cons byte bytes =>
      rw [loop_cons] at hs
      split at hs
      · cases hs
      rename_i htop
      have hlow : byte &&& 0x7f = 0 := by
        by_contra hbits
        exact htop ⟨by omega, hbits⟩
      split at hs
      · obtain rfl := mem_singleton.mp hs
        omega
      rename_i hmore
      have hbyte : byte = 0x80 := by
        rw [byte_more hmore, hlow]
        rfl
      rcases mem_cons.mp hs with rfl | hs
      · omega
      -- the eleventh byte is shifted only when it has no bit of its own
      cases bytes with
      | nil => cases hs
      | cons last bytes =>
        rw [loop_cons] at hs
        have hnone : last &&& 0x7f = 0 := by
          by_contra hbits
          rw [if_pos ⟨by omega, hbits⟩] at hs
          cases hs
        refine ⟨[], byte :: last :: bytes, rfl, fun _ h => absurd h not_mem_nil, rfl, ?_⟩
        by_cases hlast : last &&& 0x80 = 0
        · refine Or.inl ?_
          rw [hbyte, byte_last hlast, hnone]
          rfl
        · refine Or.inr ?_
          rw [hbyte, byte_more hlast, hnone]
          rfl
  | succ k ih =>
    cases bytes with
    | nil => cases hs
    | cons byte bytes =>
      rw [loop_cons, if_neg (by omega)] at hs
      split at hs
      · obtain rfl := mem_singleton.mp hs
        omega
      rename_i hmore
      rcases mem_cons.mp hs with rfl | hs
      · omega
      · obtain ⟨ahead, rest, hlength, hall, heq, htail⟩ := ih (by omega) hs
        exact ⟨byte :: ahead, rest, congrArg (· + 1) hlength, forall_mem_cons.mpr ⟨hmore, hall⟩,
          congrArg (byte :: ·) heq, htail⟩

theorem loop_wide (start : Nat) {ahead rest : Bytes} {value shift offset : Nat} (hk : shift + 7 * ahead.length = 63)
    (hall : ∀ byte ∈ ahead, byte &&& 0x80 ≠ 0) {last : UInt8} (hlast : last &&& 0x7f = 0)
    (hrest : rest.take 2 = [0x80, last]) :
    70 ∈ (presenceUintLoop start (ahead ++ rest) value shift offset).shifts := by
  induction ahead generalizing value shift offset with
  | nil =>
    obtain rfl : shift = 63 := hk
    obtain ⟨more, rfl⟩ : ∃ more, rest = 0x80 :: last :: more :=
      ⟨rest.drop 2, (take_append_drop 2 rest).symm.trans (congrArg (· ++ rest.drop 2) hrest)⟩
    rw [nil_append, loop_cons, if_neg (by decide), if_neg (by decide)]
    refine mem_cons_of_mem _ ?_
    rw [loop_cons, if_neg (fun htop => htop.2 hlast)]
    split
    · exact mem_singleton.mpr rfl
    · exact mem_cons_self
  | cons byte ahead ih =>
    rw [forall_mem_cons] at hall
    rw [length_cons] at hk
    rw [cons_append, loop_cons, if_neg (by omega), if_neg hall.1]
    exact mem_cons_of_mem _ (ih (by omega) hall.2)

/-! ## The tenth byte of an encoding -/

theorem put_wide {k m : Nat} (hlow : 128 ^ k ≤ m) (hhigh : m < 2 * 128 ^ k) :
    ∃ ahead : Bytes, ahead.length = k ∧ (∀ byte ∈ ahead, byte &&& 0x80 ≠ 0) ∧
      presencePutUintFrom (k + 1) m = ahead ++ [1] := by
  induction k generalizing m with
  | zero =>
    obtain rfl : m = 1 := by omega
    exact ⟨[], rfl, fun _ h => absurd h not_mem_nil, rfl⟩
  | succ k ih =>
    rw [Nat.pow_succ] at hlow hhigh
    obtain ⟨ahead, hlength, hall, hput⟩ := ih (m := m / 128) (by omega) (by omega)
    have hpos : 0 < 128 ^ k := Nat.pow_pos (by decide)
    refine ⟨UInt8.ofNat (m % 128 + 128) :: ahead, congrArg (· + 1) hlength, forall_mem_cons.mpr ⟨?_, hall⟩, ?_⟩
    · exact (byte_high (m % 128) (Nat.mod_lt m (by decide))).2
    · rw [putFrom_large (by omega), hput]
      rfl

theorem wide_put {ahead : Bytes} (hall : ∀ byte ∈ ahead, byte &&& 0x80 ≠ 0) :
    ∃ m, 128 ^ ahead.length ≤ m ∧ m < 2 * 128 ^ ahead.length ∧
      presencePutUintFrom (ahead.length + 1) m = ahead ++ [1] := by
  induction ahead with
  | nil => exact ⟨1, Nat.le_refl _, by decide, rfl⟩
  | cons byte ahead ih =>
    rw [forall_mem_cons] at hall
    obtain ⟨m, hlow, hhigh, hput⟩ := ih hall.2
    have hbyte := low_lt byte
    have hpos : 0 < 128 ^ ahead.length := Nat.pow_pos (by decide)
    have hdiv : ((byte &&& 0x7f).toNat + 128 * m) / 128 = m := by omega
    have hmod : ((byte &&& 0x7f).toNat + 128 * m) % 128 = (byte &&& 0x7f).toNat := by omega
    refine ⟨(byte &&& 0x7f).toNat + 128 * m, ?_, ?_, ?_⟩
    · rw [length_cons, Nat.pow_succ]
      omega
    · rw [length_cons, Nat.pow_succ]
      omega
    · rw [length_cons, putFrom_large (by omega), hdiv, hmod, ← byte_more hall.1, hput]
      rfl

/-! ## What the room reads -/

theorem uintAt_value {input : Bytes} {offset n : Nat} (h : (presenceUintAt input offset).value = some n) :
    n < 128 ^ 9 ∧ ∃ rest, input.drop offset = presencePutUint n ++ rest ∧
      (presenceUintAt input offset).offset = offset + (presencePutUint n).length := by
  obtain ⟨hvalue, hoffset⟩ := @loop_value offset (input.drop offset) 0 0 offset (Nat.le_refl _)
  rw [show (offset == offset) = true from beq_self_eq_true _] at hvalue hoffset
  obtain ⟨found, hfound, rfl⟩ := Option.map_eq_some_iff.mp (hvalue.symm.trans h)
  have hcanonical := presenceUint_canonical hfound
  obtain ⟨m, hm, -, hbound, -⟩ := presenceUintFrom_canonical 9 rfl (fun _ => rfl) Nat.one_pos hfound
  refine ⟨by omega, found.2, hcanonical, ?_⟩
  have hwidth : (input.drop offset).length = (presencePutUint found.1).length + found.2.length := by
    conv_lhs => rw [hcanonical]
    exact length_append
  have hlength := hoffset found hfound
  show (presenceUintLoop offset (input.drop offset) 0 0 offset).offset = _
  omega

theorem uintAt_put {input : Bytes} {offset n : Nat} (hn : n < 128 ^ 9)
    (h : presencePutUint n <+: input.drop offset) : (presenceUintAt input offset).value = some n := by
  obtain ⟨rest, hrest⟩ := h
  rw [presenceUintAt, (loop_value offset (Nat.le_refl _)).1, beq_self_eq_true, ← hrest]
  exact congrArg (Option.map Prod.fst) (presenceUint_put hn rest)

/-- The room reads integers as it should exactly where nine bytes that go on are not followed by a top bit, or by two
more bytes without a bit of their own. -/
theorem uintSound_iff (input : Bytes) (offset : Nat) : UintSound input offset ↔ ¬ PastNine (input.drop offset) := by
  constructor
  · rintro h ⟨nine, rest, hnine, hall, hbytes, htail⟩
    rcases htail with htop | hwide | hwide
    · obtain ⟨m, hlow, hhigh, hput⟩ := wide_put hall
      rw [hnine] at hlow hhigh hput
      obtain ⟨more, rfl⟩ := head?_eq_some_iff.mp htop
      have hread := (h.value m).mpr ⟨by omega, more, by
        rw [hbytes, presencePutUint, hput, append_assoc]
        rfl⟩
      have hbound := (uintAt_value hread).1
      omega
    · have hshift := @loop_wide offset nine rest 0 0 offset (by omega) hall 0 (by decide) hwide
      rw [← hbytes] at hshift
      exact absurd (h.shifts 70 hshift) (by decide)
    · have hshift := @loop_wide offset nine rest 0 0 offset (by omega) hall 0x80 (by decide) hwide
      rw [← hbytes] at hshift
      exact absurd (h.shifts 70 hshift) (by decide)
  · intro h
    refine ⟨fun shift hshift => ?_, fun n => ⟨fun hvalue => ?_, fun hput => ?_⟩, fun n hvalue => ?_⟩
    · by_contra hwide
      obtain ⟨nine, rest, hnine, hall, hbytes, htail⟩ := loop_shifts offset 9 (by decide) hshift (Nat.le_of_not_lt hwide)
      exact h ⟨nine, rest, hnine, hall, hbytes, Or.inr htail⟩
    · obtain ⟨hbound, rest, hrest, -⟩ := uintAt_value hvalue
      exact ⟨by omega, rest, hrest.symm⟩
    · rcases Nat.lt_or_ge n (128 ^ 9) with hbound | hlow
      · exact uintAt_put hbound hput.2
      obtain ⟨nine, hnine, hall, hencoded⟩ := put_wide (k := 9) hlow (by omega)
      obtain ⟨rest, hrest⟩ := hput.2
      rw [presencePutUint, hencoded, append_assoc] at hrest
      exact absurd ⟨nine, [1] ++ rest, hnine, hall, hrest.symm, Or.inl rfl⟩ h
    · obtain ⟨-, rest, -, hoffset⟩ := uintAt_value hvalue
      exact hoffset

/-- Eleven bytes that go on: the last one is shifted by seventy. -/
theorem eleven_bytes_overflow : ¬ UintSound (List.replicate 11 0x80) 0 := fun h =>
  absurd (h.shifts 70 (by decide +kernel)) (by decide)

end Marks
