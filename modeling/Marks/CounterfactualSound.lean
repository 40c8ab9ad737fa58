import Marks.Counterfactual
import Marks.Results

/-! # Undoing and rebasing

A patch that is taken from an edit undoes it. A patch that is applied elsewhere than where it was taken stands between
the text that stood around it. -/

namespace Marks

open JsString List

/-! ## Searching -/

def StandsAt (needle text : JsString) (offset : Nat) : Prop :=
  offset ≤ text.length ∧ (text.drop offset).take needle.length = needle

variable {needle text : JsString}

theorem standsAt_iff {offset : Nat} :
    StandsAt needle text offset ↔ ∃ start rest, text = start ++ (needle ++ rest) ∧ start.length = offset := by
  constructor
  · rintro ⟨hle, htake⟩
    refine ⟨text.take offset, (text.drop offset).drop needle.length, ?_, by rw [length_take, Nat.min_eq_left hle]⟩
    conv_rhs => enter [2, 1]; rw [← htake]
    rw [take_append_drop, take_append_drop]
  · rintro ⟨start, rest, rfl, rfl⟩
    refine ⟨by simp, ?_⟩
    rw [drop_left, take_left]

theorem indexOf_cons (needle : JsString) (c : UInt16) (rest : JsString) : indexOf needle (c :: rest) =
    if needle.isPrefixOf (c :: rest) then some 0 else (indexOf needle rest).map (· + 1) := rfl

theorem standsAt_zero : StandsAt needle text 0 ↔ needle.isPrefixOf text = true := by
  rw [List.isPrefixOf_iff_prefix, standsAt_iff]
  constructor
  · rintro ⟨start, rest, rfl, hstart⟩
    rw [eq_nil_of_length_eq_zero hstart]
    exact ⟨rest, rfl⟩
  · rintro ⟨rest, rfl⟩
    exact ⟨[], rest, rfl, rfl⟩

theorem standsAt_succ {rest : JsString} {c : UInt16} {offset : Nat} :
    StandsAt needle (c :: rest) (offset + 1) ↔ StandsAt needle rest offset := by
  unfold StandsAt
  rw [length_cons, drop_succ_cons]
  exact and_congr_left fun _ => by omega

theorem indexOf_some {offset : Nat} (h : indexOf needle text = some offset) :
    StandsAt needle text offset ∧ ∀ other, StandsAt needle text other → offset ≤ other := by
  induction text generalizing offset with
  | nil =>
    unfold indexOf at h
    by_cases hempty : needle = []
    · rw [if_pos hempty] at h
      cases h
      rw [hempty]
      exact ⟨⟨Nat.le_refl _, rfl⟩, fun _ _ => Nat.zero_le _⟩
    · rw [if_neg hempty] at h
      cases h
  | cons c rest ih =>
    rw [indexOf_cons] at h
    by_cases hhere : needle.isPrefixOf (c :: rest) = true
    · rw [if_pos hhere] at h
      cases h
      exact ⟨standsAt_zero.mpr hhere, fun _ _ => Nat.zero_le _⟩
    rw [if_neg hhere] at h
    obtain ⟨found, hfound, rfl⟩ := Option.map_eq_some_iff.mp h
    obtain ⟨hstands, hfirst⟩ := ih hfound
    refine ⟨standsAt_succ.mpr hstands, fun other hother => ?_⟩
    cases other with
    | zero => exact absurd (standsAt_zero.mp hother) hhere
    | succ other => exact Nat.succ_le_succ (hfirst other (standsAt_succ.mp hother))

theorem indexOf_none (h : indexOf needle text = none) (offset : Nat) :
    ¬ StandsAt needle text offset := by
  induction text generalizing offset with
  | nil =>
    unfold indexOf at h
    by_cases hempty : needle = []
    · rw [if_pos hempty] at h
      cases h
    · rintro ⟨-, htake⟩
      rw [drop_nil, take_nil] at htake
      exact hempty htake.symm
  | cons c rest ih =>
    rw [indexOf_cons] at h
    by_cases hhere : needle.isPrefixOf (c :: rest) = true
    · rw [if_pos hhere] at h
      cases h
    rw [if_neg hhere, Option.map_eq_none_iff] at h
    intro hstands
    cases offset with
    | zero => exact hhere (standsAt_zero.mp hstands)
    | succ offset => exact ih h offset (standsAt_succ.mp hstands)

variable {start : Nat}

theorem standsAt_drop {offset : Nat} (h : start ≤ text.length) :
    StandsAt needle (text.drop start) offset ↔ StandsAt needle text (offset + start) := by
  unfold StandsAt
  rw [drop_drop, length_drop, Nat.add_comm start]
  exact and_congr_left fun _ => by omega

theorem indexOfFrom_some {offset : Nat} (hle : start ≤ text.length)
    (h : indexOfFrom needle text start = some offset) :
    start ≤ offset ∧ StandsAt needle text offset ∧ ∀ other, start ≤ other → StandsAt needle text other → offset ≤ other := by
  obtain ⟨found, hfound, rfl⟩ := Option.map_eq_some_iff.mp h
  obtain ⟨hstands, hfirst⟩ := indexOf_some hfound
  rw [Nat.min_eq_left hle]
  refine ⟨Nat.le_add_left _ _, (standsAt_drop hle).mp hstands, fun other hother hthere => ?_⟩
  have hshift : other = other - start + start := by omega
  rw [hshift] at hthere ⊢
  exact Nat.add_le_add_right (hfirst _ ((standsAt_drop hle).mpr hthere)) start

theorem indexOfFrom_none {other : Nat} (hle : start ≤ text.length)
    (h : indexOfFrom needle text start = none) (hother : start ≤ other) : ¬ StandsAt needle text other := by
  intro hthere
  have hshift : other = other - start + start := by omega
  rw [hshift] at hthere
  exact indexOf_none (Option.map_eq_none_iff.mp h) _ ((standsAt_drop hle).mpr hthere)

/-! ## Undoing -/

section
variable {before after : JsString}

theorem slice_between (text : JsString) {from_ last : Nat} (hfrom : from_ ≤ text.length) (hlast : last ≤ text.length - from_) :
    (text.slice from_ (text.length - last)).length = text.length - from_ - last ∧
      text.take from_ ++ (text.slice from_ (text.length - last) ++ text.drop (text.length - last)) = text := by
  have hfirst : text.take from_ = (text.take (text.length - last)).take from_ := by
    rw [take_take, Nat.min_eq_left (by omega)]
  constructor
  · rw [slice, length_drop, length_take]
    omega
  · rw [slice, hfirst, ← append_assoc, take_append_drop, take_append_drop]

variable (digestText : JsString → JsString) {id documentId label commandId : JsString} {source : PatchSource} {now : Nat}

/-- How much a patch of the edit would hold. -/
def patchChars (before after : JsString) : Nat :=
  let from_ := commonPrefix before after
  let last := commonSuffix from_ before after
  (after.slice from_ (after.length - last)).length + (before.slice from_ (before.length - last)).length

theorem reverse_applies (hne : before ≠ after) (hsize : patchChars before after ≤ maxPatchChars) :
    ∃ patch, reverseCounterfactual digestText id documentId label commandId source before after now = some patch ∧
      applyCounterfactual after patch = .ok ⟨before, patch.from_, false⟩ := by
  have hstart := @commonPrefix_le _ _ before after
  have hlast := @commonSuffix_le _ _ before after (commonPrefix before after)
  have hsame := @take_commonPrefix _ _ before after
  have hbehind := drop_commonSuffix hstart.1 hstart.2
  unfold patchChars at hsize
  unfold reverseCounterfactual minimalSourceDelta
  rw [if_neg hne]
  dsimp only at hsize ⊢
  generalize commonPrefix before after = from_ at *
  generalize commonSuffix from_ before after = last at *
  obtain ⟨hafterLength, hafter⟩ := slice_between after hstart.2 hlast.2
  obtain ⟨hbeforeLength, hbefore⟩ := slice_between before hstart.1 hlast.1
  have hsuffix : after.length - from_ - (after.slice from_ (after.length - last)).length = last := by omega
  have hstop : from_ + (after.slice from_ (after.length - last)).length = after.length - last := by omega
  rw [hsuffix, hstop, if_neg (by omega)]
  refine ⟨_, rfl, ?_⟩
  unfold applyCounterfactual placeOf
  dsimp only
  rw [hstop, beq_self_eq_true, if_pos rfl]
  show Except.ok _ = _
  rw [hstop, ← hsame, ← hbehind, append_assoc, hbefore]
  simp

end

/-! ## Rebasing -/

def Anchored (current : JsString) (patch : CounterfactualPatch) (offset : Nat) : Prop :=
  ∃ start rest, current = start ++ (patch.prefix_ ++ (patch.expected ++ (patch.suffix ++ rest))) ∧
    offset = (start ++ patch.prefix_).length

def PlacesApart (needle text : JsString) : Prop :=
  ∀ p q, StandsAt needle text p → StandsAt needle text q → p < q → p + needle.length ≤ q

section
variable {current : JsString} {patch : CounterfactualPatch} {offset : Nat}

theorem anchored_iff : Anchored current patch offset ↔ StandsAt patch.expected current offset ∧
    prefixMatches current patch offset = true ∧ suffixMatches current patch offset = true := by
  unfold prefixMatches suffixMatches
  rw [standsAt_iff]
  dsimp only
  simp only [Bool.or_eq_true, decide_eq_true_eq, beq_iff_eq]
  constructor
  · rintro ⟨start, rest, rfl, rfl⟩
    refine ⟨⟨start ++ patch.prefix_, patch.suffix ++ rest, by simp, rfl⟩, Or.inr ?_, Or.inr ?_⟩
    · rw [slice, ← append_assoc, take_left, length_append, Nat.add_sub_cancel, drop_left]
    · rw [slice, ← append_assoc, ← append_assoc, ← length_append, ← append_assoc, ← length_append,
        take_left, drop_left]
  · rintro ⟨⟨start, rest, rfl, rfl⟩, hprefix, hsuffix⟩
    -- the recorded prefix ends what is before, and the recorded suffix begins what is behind
    have hstart : ∃ front, start = front ++ patch.prefix_ := by
      rcases hprefix with hnil | hslice
      · exact ⟨start, by rw [hnil, append_nil]⟩
      · refine ⟨start.take (start.length - patch.prefix_.length), ?_⟩
        rw [slice, take_left] at hslice
        exact (take_append_drop _ start).symm.trans (congrArg (start.take _ ++ ·) hslice)
    have hrest : ∃ back, rest = patch.suffix ++ back := by
      rcases hsuffix with hnil | hslice
      · exact ⟨rest, by rw [hnil, nil_append]⟩
      · refine ⟨rest.drop patch.suffix.length, ?_⟩
        rw [slice, ← append_assoc, ← length_append, take_length_add_append, drop_left] at hslice
        exact (take_append_drop _ rest).symm.trans (congrArg (· ++ rest.drop _) hslice)
    obtain ⟨front, rfl⟩ := hstart
    obtain ⟨back, rfl⟩ := hrest
    exact ⟨front, back, by simp, rfl⟩

theorem candidates_some (fuel offset : Nat) (found : List Nat) :
    candidates current patch (fuel + 1) (some offset) found =
      if found.length < 3 then
        candidates current patch fuel (indexOfFrom patch.expected current (offset + max 1 patch.expected.length))
          (if prefixMatches current patch offset && suffixMatches current patch offset then found ++ [offset] else found)
      else found := rfl

theorem next_start (hne : patch.expected ≠ []) (h : StandsAt patch.expected current offset) :
    offset + max 1 patch.expected.length = offset + patch.expected.length ∧
      offset + patch.expected.length ≤ current.length ∧ 0 < patch.expected.length := by
  have hpos := length_pos_iff.mpr hne
  obtain ⟨start, rest, rfl, rfl⟩ := standsAt_iff.mp h
  simp only [length_append]
  omega

theorem candidates_anchored (hne : patch.expected ≠ []) {fuel : Nat} {place : Option Nat} {found : List Nat}
    (hplace : ∀ p, place = some p → StandsAt patch.expected current p) (hfound : ∀ p ∈ found, Anchored current patch p) :
    ∀ p ∈ candidates current patch fuel place found, Anchored current patch p := by
  induction fuel generalizing place found with
  | zero => exact hfound
  | succ fuel ih =>
    cases place with
    | none => exact hfound
    | some offset =>
      have hstands := hplace offset rfl
      obtain ⟨hnext, hle, -⟩ := next_start hne hstands
      rw [candidates_some]
      by_cases hroom : found.length < 3
      · rw [if_pos hroom]
        refine ih (fun p hp => ?_) ?_
        · rw [hnext] at hp
          exact (indexOfFrom_some hle hp).2.1
        intro p hp
        by_cases hmatch : (prefixMatches current patch offset && suffixMatches current patch offset) = true
        · rw [if_pos hmatch] at hp
          rcases mem_append.mp hp with hp | hp
          · exact hfound p hp
          · rw [mem_singleton.mp hp]
            exact anchored_iff.mpr ⟨hstands, (Bool.and_eq_true _ _).mp hmatch⟩
        · rw [if_neg hmatch] at hp
          exact hfound p hp
      · rw [if_neg hroom]
        exact hfound

theorem candidates_complete (hne : patch.expected ≠ []) (hapart : PlacesApart patch.expected current) {fuel : Nat}
    {place : Option Nat} {found : List Nat}
    (hplace : ∀ p, place = some p → StandsAt patch.expected current p ∧ current.length - p < fuel)
    (hseen : ∀ q, Anchored current patch q → q ∈ found ∨ ∃ p, place = some p ∧ p ≤ q)
    (hfew : (candidates current patch fuel place found).length < 3) {q : Nat} (hq : Anchored current patch q) :
    q ∈ candidates current patch fuel place found := by
  induction fuel generalizing place found with
  | zero =>
    rcases hseen q hq with hmem | ⟨p, hp, -⟩
    · exact hmem
    · exact absurd (hplace p hp).2 (Nat.not_lt_zero _)
  | succ fuel ih =>
    cases place with
    | none =>
      rcases hseen q hq with hmem | ⟨p, hp, -⟩
      · exact hmem
      · cases hp
    | some offset =>
      obtain ⟨hstands, hfuel⟩ := hplace offset rfl
      obtain ⟨hnext, hle, hpos⟩ := next_start hne hstands
      rw [candidates_some] at hfew ⊢
      by_cases hroom : found.length < 3
      · rw [if_pos hroom] at hfew ⊢
        refine ih (fun p hp => ?_) (fun r hr => ?_) hfew
        · rw [hnext] at hp
          obtain ⟨hge, hthere, -⟩ := indexOfFrom_some hle hp
          exact ⟨hthere, by omega⟩
        have hthere := (anchored_iff.mp hr).1
        by_cases hmatch : (prefixMatches current patch offset && suffixMatches current patch offset) = true
        · rw [if_pos hmatch]
          rcases hseen r hr with hmem | ⟨p, hp, hpr⟩
          · exact Or.inl (mem_append_left _ hmem)
          cases hp
          rcases Nat.eq_or_lt_of_le hpr with rfl | hlt
          · exact Or.inl (by simp)
          refine Or.inr ?_
          have hbehind := hapart _ _ hstands hthere hlt
          rw [hnext]
          cases hfound : indexOfFrom patch.expected current (offset + patch.expected.length) with
          | none => exact absurd hthere (indexOfFrom_none hle hfound hbehind)
          | some next => exact ⟨next, rfl, (indexOfFrom_some hle hfound).2.2 r hbehind hthere⟩
        · rw [if_neg hmatch]
          rcases hseen r hr with hmem | ⟨p, hp, hpr⟩
          · exact Or.inl hmem
          cases hp
          rcases Nat.eq_or_lt_of_le hpr with rfl | hlt
          · exact absurd ((Bool.and_eq_true _ _).mpr (anchored_iff.mp hr).2) hmatch
          refine Or.inr ?_
          have hbehind := hapart _ _ hstands hthere hlt
          rw [hnext]
          cases hfound : indexOfFrom patch.expected current (offset + patch.expected.length) with
          | none => exact absurd hthere (indexOfFrom_none hle hfound hbehind)
          | some next => exact ⟨next, rfl, (indexOfFrom_some hle hfound).2.2 r hbehind hthere⟩
      · rw [if_neg hroom] at hfew
        exact absurd hfew hroom

theorem searchedFrom_ok (hne : patch.expected ≠ []) (h : searchedFrom current patch = .ok offset) :
    Anchored current patch offset ∧
      (PlacesApart patch.expected current → ∀ q, Anchored current patch q → q = offset) := by
  unfold searchedFrom at h
  rw [if_pos hne] at h
  have hplace : ∀ p, indexOf patch.expected current = some p → StandsAt patch.expected current p :=
    fun p hp => (indexOf_some hp).1
  have hanchored := @candidates_anchored current patch hne (current.length + 1) (indexOf patch.expected current) [] hplace
    (by simp)
  have hcomplete := @candidates_complete current patch hne
  cases hfound : candidates current patch (current.length + 1) (indexOf patch.expected current) [] with
  | nil =>
    rw [hfound] at h
    cases h
  | cons p found =>
    cases found with
    | cons q found =>
      rw [hfound] at h
      cases h
    | nil =>
      rw [hfound] at h
      obtain rfl := Except.ok.inj h
      refine ⟨hanchored p (by rw [hfound]; simp), fun hapart q hq => ?_⟩
      have hmem : q ∈ candidates current patch (current.length + 1) (indexOf patch.expected current) [] := by
        refine hcomplete hapart (fun p hp => ⟨hplace p hp, by omega⟩) (fun r hr => Or.inr ?_) (by rw [hfound]; simp) hq
        have hthere := (anchored_iff.mp hr).1
        cases hfirst : indexOf patch.expected current with
        | none => exact absurd hthere (indexOf_none hfirst r)
        | some p => exact ⟨p, rfl, (indexOf_some hfirst).2 r hthere⟩
      rw [hfound] at hmem
      exact mem_singleton.mp hmem

/-- What an application has done. -/
structure Applied (current : JsString) (patch : CounterfactualPatch) (result : AppliedPatch) : Prop where
  text : result.text =
    current.take result.from_ ++ patch.replacement ++ current.drop (result.from_ + patch.expected.length)
  place : (result.from_ = patch.from_ ∧
      current.slice patch.from_ (patch.from_ + patch.expected.length) = patch.expected) ∨
    Anchored current patch result.from_ ∧
      (PlacesApart patch.expected current → ∀ q, Anchored current patch q → q = result.from_)

theorem applied_of {result : AppliedPatch} (h : applyCounterfactual current patch = .ok result) :
    Applied current patch result := by
  obtain ⟨from_, hfrom, h⟩ := bind_ok h
  cases h
  unfold placeOf at hfrom
  dsimp only at hfrom
  refine ⟨rfl, ?_⟩
  by_cases hexact : (current.slice patch.from_ (patch.from_ + patch.expected.length) == patch.expected) = true
  · rw [if_pos hexact] at hfrom
    exact Or.inl ⟨(Except.ok.inj hfrom).symm, beq_iff_eq.mp hexact⟩
  rw [if_neg hexact] at hfrom
  refine Or.inr (searchedFrom_ok (fun hnil => hexact ?_) hfrom)
  rw [hnil, slice, length_nil, Nat.add_zero, drop_eq_nil_of_le (by rw [length_take]; omega)]
  rfl

end

/-- A patch that is taken from an edit undoes it, and a patch is applied where it was taken or where its context is. -/
theorem counterfactual_safe (digestText : JsString → JsString) :
    (∀ id documentId label commandId source before after now, before ≠ after →
      patchChars before after ≤ maxPatchChars → ∃ patch,
        reverseCounterfactual digestText id documentId label commandId source before after now = some patch ∧
          applyCounterfactual after patch = .ok ⟨before, patch.from_, false⟩) ∧
      ∀ current patch result, applyCounterfactual current patch = .ok result → Applied current patch result :=
  ⟨fun _ _ _ _ _ _ _ _ hne hsize => reverse_applies digestText hne hsize, fun _ _ _ h => applied_of h⟩

theorem counterfactual_old_new :
    (∃ patch, reverseCounterfactual id [] [] [] [] .command [111] [110] 100 = some patch ∧
      applyCounterfactual [110] patch = .ok ⟨[111], patch.from_, false⟩) ∧
      ∃ result, Applied [110] ⟨[], [], [], "", 0, 0, .human, none, [], 0, [110], [111], [], [], false, none⟩ result :=
  ⟨(counterfactual_safe id).1 [] [] [] [] .command [111] [110] 100 (by decide) (by decide +kernel),
    ⟨[111], 0, false⟩, (counterfactual_safe id).2 _ _ _ rfl⟩

/-- A patch for `a` in front of a blank is applied to an `a` in front of something else. -/
theorem exact_range_without_context : ¬ ∀ current patch result, applyCounterfactual current patch = .ok result →
    Anchored current patch result.from_ ∧ ∀ q, Anchored current patch q → q = result.from_ := by
  intro h
  obtain ⟨⟨start, rest, hcurrent, hstart⟩, -⟩ :=
    h [97, 120] ⟨[], [], [], "", 0, 0, .human, none, [], 0, [97], [98], [], [32], false, none⟩ ⟨[98, 120], 0, false⟩ rfl
  have hnil : start = [] := by simpa using hstart.symm
  rw [hnil] at hcurrent
  exact absurd (List.cons.inj (List.cons.inj hcurrent).2).1 (by decide)

end Marks
