import Marks.EditorBridgeSound
import Marks.Splices

/-! # Changes that are too large for one transaction

Their parts are made one after another in the coordinates of the text before all of them. That is what one transaction
makes of them exactly if every change but the last inserts as much as it deletes. -/

namespace Marks

open List

/-! ## Edits that apply -/

section
variable {text later : JsString} {edit : TextEdit} {edits : List TextEdit} {start stop : Int} {insert : JsString}

theorem applyTextEdit_applies (hstart : 0 ≤ edit.from_) (horder : edit.from_ ≤ edit.to_) (hend : edit.to_ ≤ text.length)
    (hsize : text.length < 2 ^ 53) :
    applyTextEdit text edit = some (text.take edit.from_.toNat ++ edit.insert ++ text.drop edit.to_.toNat) := by
  unfold applyTextEdit
  have hsafe : isSafeInteger edit.from_ = true ∧ isSafeInteger edit.to_ = true :=
    ⟨decide_eq_true (by omega), decide_eq_true (by omega)⟩
  rw [if_neg (by simp only [hsafe.1, hsafe.2, Bool.not_true, Bool.false_eq_true, false_or]; omega)]
  unfold JsString.slice
  rw [drop_zero, take_length]

theorem replacement_applies (hstart : 0 ≤ start) (horder : start ≤ stop) (hend : stop ≤ text.length)
    (hsize : text.length < 2 ^ 53) :
    applyTextEdits text (replacement start stop insert) =
      some (text.take start.toNat ++ insert ++ text.drop stop.toNat) := by
  have hsome : ∃ later, applyTextEdits text (replacement start stop insert) = some later := by
    have hdelete : ∃ deleted, applyTextEdits text (if start < stop then [⟨start, stop, []⟩] else []) = some deleted ∧
        start ≤ deleted.length ∧ deleted.length < 2 ^ 53 := by
      by_cases hlt : start < stop
      · rw [if_pos hlt, applyTextEdits_cons, applyTextEdit_applies hstart horder hend hsize]
        refine ⟨_, rfl, ?_⟩
        simp only [append_nil, length_append, length_take, length_drop]
        omega
      · rw [if_neg hlt]
        exact ⟨text, rfl, by omega, hsize⟩
    obtain ⟨deleted, hdeleted, hplace, hsize⟩ := hdelete
    unfold replacement
    rw [applyTextEdits_append, hdeleted, Option.bind_some]
    by_cases hempty : insert = []
    · exact ⟨deleted, by rw [if_neg (not_not_intro hempty)]; rfl⟩
    · rw [if_pos hempty, applyTextEdits_cons, applyTextEdit_applies hstart (Int.le_refl _) hplace hsize]
      exact ⟨_, rfl⟩
  obtain ⟨later, happlied⟩ := hsome
  rw [happlied, replacement_applied hstart horder happlied]

theorem applyTextEdits_behind (tail : JsString) (h : applyTextEdits text edits = some later) :
    applyTextEdits (text ++ tail) edits = some (later ++ tail) := by
  induction edits generalizing text with
  | nil =>
    cases h
    rfl
  | cons edit edits ih =>
    rw [applyTextEdits_cons] at h
    obtain ⟨middle, happlied, h⟩ := Option.bind_eq_some_iff.mp h
    have hinside := applyTextEdit_some happlied
    have hmore : applyTextEdit (text ++ tail) edit = some (middle ++ tail) := by
      unfold applyTextEdit at happlied ⊢
      split at happlied
      · cases happlied
      rename_i hfits
      rw [if_neg, hinside.2.2.2]
      · unfold JsString.slice
        rw [drop_zero, take_length, take_append_of_le_length (by omega),
          drop_append_of_le_length (by omega)]
        simp only [append_assoc]
      · simp only [not_or, Int.not_lt] at hfits ⊢
        rw [length_append]
        exact ⟨hfits.1, hfits.2.1, hfits.2.2.1, hfits.2.2.2.1, by omega⟩
    rw [applyTextEdits_cons, hmore, Option.bind_some]
    exact ih h

end

/-! ## Parts -/

section
variable {text later : JsString} {start stop : Nat} {insert : JsString}

theorem deleteCounts_inside {fuel remaining : Nat} (hfuel : remaining ≤ fuel) (hstart : start ≤ text.length)
    (h : applyTextEdits text ((deleteCounts fuel remaining).map
      (fun (count : Nat) => [(⟨start, start + count, []⟩ : TextEdit)])).flatten = some later) :
    start + remaining ≤ text.length := by
  induction fuel generalizing text remaining with
  | zero => omega
  | succ fuel ih =>
    unfold deleteCounts at h
    split at h
    · omega
    rw [map_cons, flatten_cons, applyTextEdits_append] at h
    obtain ⟨middle, hdeleted, h⟩ := Option.bind_eq_some_iff.mp h
    obtain ⟨_, _, hend, rfl⟩ := applyTextEdit_some (applyTextEdits_singleton hdeleted)
    simp only at hend h
    have hpositive : 0 < min remaining editorChunkUnits := by
      unfold editorChunkUnits
      omega
    have hless := ih (by omega)
      (by simp only [append_nil, length_append, length_take, length_drop]; omega) h
    simp only [append_nil, length_append, length_take, length_drop] at hless
    omega

theorem deleteCounts_applies {fuel remaining : Nat} (hfuel : remaining ≤ fuel) (hend : start + remaining ≤ text.length)
    (hsize : text.length < 2 ^ 53) :
    ∃ later, applyTextEdits text ((deleteCounts fuel remaining).map
      (fun (count : Nat) => [(⟨start, start + count, []⟩ : TextEdit)])).flatten = some later := by
  induction fuel generalizing text remaining with
  | zero => exact ⟨text, rfl⟩
  | succ fuel ih =>
    unfold deleteCounts
    split
    · exact ⟨text, rfl⟩
    have hpositive : 0 < min remaining editorChunkUnits := by
      unfold editorChunkUnits
      omega
    rw [map_cons, flatten_cons, singleton_append, applyTextEdits_cons,
      applyTextEdit_applies (by simp only; omega) (by simp only; omega) (by simp only; omega) hsize, Option.bind_some]
    refine ih (by omega) ?_ ?_
    · simp only [append_nil, length_append, length_take, length_drop]
      omega
    · simp only [append_nil, length_append, length_take, length_drop]
      omega

theorem insertChunks_applies {fuel offset : Nat} (hplace : offset < insert.length → start + offset ≤ text.length)
    (hsize : text.length + (insert.length - offset) < 2 ^ 53) :
    ∃ later, applyTextEdits text ((insertChunks insert fuel offset).map
      (fun (offset, chunk) => [(⟨start + offset, start + offset, chunk⟩ : TextEdit)])).flatten = some later := by
  induction fuel generalizing text offset with
  | zero => exact ⟨text, rfl⟩
  | succ fuel ih =>
    unfold insertChunks
    split
    · exact ⟨text, rfl⟩
    have hplace := hplace (by omega)
    rw [map_cons, flatten_cons, singleton_append, applyTextEdits_cons,
      applyTextEdit_applies (by simp only; omega) (Int.le_refl _) (by simp only; omega) (by omega), Option.bind_some]
    have hchunk : (insert.slice offset (offset + editorChunkUnits)).length =
        min (offset + editorChunkUnits) insert.length - offset := by
      rw [JsString.slice, length_drop, length_take]
    have hat : ((start : Int) + (offset : Int)).toNat = start + offset := by omega
    have hlength : (text.take (start + offset) ++ insert.slice offset (offset + editorChunkUnits) ++
        text.drop (start + offset)).length =
          text.length + (insert.slice offset (offset + editorChunkUnits)).length := by
      rw [length_append, length_append, length_take, length_drop]
      omega
    simp only [hat]
    refine ih ?_ ?_
    · rw [hlength, hchunk]
      omega
    · rw [hlength, hchunk]
      omega

theorem replaceRangeChunked_applies (horder : start ≤ stop) (hend : stop ≤ text.length)
    (hsize : text.length + insert.length < 2 ^ 53) :
    applyTextEdits text (replaceRangeChunked start stop insert).flatten =
      some (text.take start ++ insert ++ text.drop stop) := by
  have hsome : ∃ later, applyTextEdits text (replaceRangeChunked start stop insert).flatten = some later := by
    unfold replaceRangeChunked
    split
    · rw [flatten_singleton]
      exact ⟨_, replacement_applies (by omega) (by omega) (by omega) (by omega)⟩
    have hcount : start + ((stop : Int) - start).toNat = stop := by omega
    obtain ⟨deleted, hdeleted⟩ := @deleteCounts_applies text start ((stop : Int) - start).toNat
      ((stop : Int) - start).toNat (Nat.le_refl _) (by omega) (by omega)
    have hsame := deleteCounts_applied (Nat.le_refl _) hdeleted
    rw [flatten_append, applyTextEdits_append, hdeleted, Option.bind_some, hsame]
    refine insertChunks_applies (fun _ => ?_) ?_
    · simp only [length_append, length_take, length_drop]
      omega
    · simp only [length_append, length_take, length_drop]
      omega
  obtain ⟨later, happlied⟩ := hsome
  rw [happlied, replaceRangeChunked_applied horder hend happlied]

theorem replaceRangeChunked_inside (horder : start ≤ stop) (hdoes : start < stop ∨ insert ≠ [])
    (h : applyTextEdits text (replaceRangeChunked start stop insert).flatten = some later) : stop ≤ text.length := by
  have hfirst : ∀ {edit : TextEdit} {edits : List TextEdit}, applyTextEdits text (edit :: edits) = some later →
      edit.to_ ≤ text.length := by
    intro edit edits h
    rw [applyTextEdits_cons] at h
    obtain ⟨_, happlied, _⟩ := Option.bind_eq_some_iff.mp h
    exact (applyTextEdit_some happlied).2.2.1
  unfold replaceRangeChunked at h
  split at h
  · rw [flatten_singleton] at h
    unfold replacement at h
    by_cases hlt : start < stop
    · rw [if_pos (Int.ofNat_lt.mpr hlt)] at h
      exact Int.ofNat_le.mp (hfirst h)
    · rw [if_neg (fun hlt' => hlt (Int.ofNat_lt.mp hlt')), if_pos (hdoes.resolve_left hlt)] at h
      have hplace := Int.ofNat_le.mp (hfirst h)
      omega
  · rw [flatten_append, applyTextEdits_append] at h
    obtain ⟨middle, hdeleted, h⟩ := Option.bind_eq_some_iff.mp h
    have hcount : start + ((stop : Int) - start).toNat = stop := by omega
    have hplace : start ≤ text.length := by
      by_cases hlt : start < stop
      · obtain ⟨fuel, hfuel⟩ : ∃ fuel, ((stop : Int) - start).toNat = fuel + 1 := ⟨stop - start - 1, by omega⟩
        rw [hfuel, deleteCounts, if_neg (Nat.succ_ne_zero _), map_cons, flatten_cons, singleton_append,
          applyTextEdits_cons] at hdeleted
        obtain ⟨_, happlied, _⟩ := Option.bind_eq_some_iff.mp hdeleted
        have hplace := (applyTextEdit_some happlied).2.2.1
        simp only at hplace
        omega
      · have hzero : ((stop : Int) - start).toNat = 0 := by omega
        rw [hzero] at hdeleted
        cases hdeleted
        obtain ⟨length, hlength⟩ : ∃ length, insert.length = length + 1 :=
          ⟨insert.length - 1, by have := length_pos_iff.mpr (hdoes.resolve_left hlt); omega⟩
        rw [hlength, insertChunks, if_neg (by omega), map_cons, flatten_cons, singleton_append,
          applyTextEdits_cons] at h
        obtain ⟨_, happlied, _⟩ := Option.bind_eq_some_iff.mp h
        have hplace := (applyTextEdit_some happlied).2.2.1
        simp only at hplace
        omega
    have hinside := deleteCounts_inside (Nat.le_refl _) hplace hdeleted
    omega

end

/-! ## Changes as splices -/

def EditorChange.splice (change : EditorChange) : Splice UInt16 := ⟨change.fromA, change.toA, change.inserted⟩

def Separate (changes : List EditorChange) : Prop := Splice.Apart 0 (changes.map EditorChange.splice)

section
variable {text later before : JsString} {pos : Nat} {change : EditorChange} {changes : List EditorChange}

theorem changed_together : changed text pos changes = Splice.together text pos (changes.map EditorChange.splice) := by
  induction changes generalizing pos with
  | nil => rfl
  | cons change changes ih =>
    rw [changed, ih]
    rfl

theorem inHalves_inTurn (hapart : Splice.Apart pos (changes.map EditorChange.splice))
    (h : applyTextEdits text (inHalves changes).flatten = some later) :
    later = Splice.inTurn text (changes.map EditorChange.splice) := by
  induction changes generalizing text pos with
  | nil =>
    cases h
    rfl
  | cons change changes ih =>
    obtain ⟨_, horder, hdoes, hrest⟩ := hapart
    unfold inHalves at h
    rw [flatMap_cons, flatten_append, applyTextEdits_append] at h
    obtain ⟨middle, hreplaced, h⟩ := Option.bind_eq_some_iff.mp h
    have hinside := replaceRangeChunked_inside horder hdoes hreplaced
    rw [replaceRangeChunked_applied horder hinside hreplaced] at h
    exact ih hrest h

theorem Balanced.of_level (h : Splice.Level (changes.map EditorChange.splice)) : Balanced changes := by
  induction changes with
  | nil => trivial
  | cons change changes ih =>
    exact ⟨fun hmore => h.1 fun hnone => hmore (map_eq_nil_iff.mp hnone), ih h.2⟩

theorem ChangesFit.longer {length : Nat} (h : ChangesFit length pos changes) : ChangesFit (length + 1) pos changes := by
  induction changes generalizing pos with
  | nil => exact Nat.le_succ_of_le h
  | cons change changes ih => exact ⟨h.1, h.2.1, ih h.2.2⟩

theorem ChangesFit.within {length : Nat} (h : ChangesFit length pos changes) :
    Splice.Within (length + 1) (changes.map EditorChange.splice) := by
  induction changes generalizing pos with
  | nil => exact fun _ hm => (by cases hm)
  | cons change changes ih =>
    intro splice hm
    rcases mem_cons.mp hm with rfl | hm
    · exact Nat.lt_succ_of_le h.2.2.le
    · exact ih h.2.2 splice hm

theorem adjusted_applies (hfit : ChangesFit text.length pos changes)
    (hsize : before.length + (text.length - pos) + (changes.map fun change => change.inserted.length).sum < 2 ^ 53) :
    applyTextEdits (before ++ text.drop pos) (adjusted (before.length - pos) changes) =
      some (before ++ changed text pos changes) := by
  induction changes generalizing before pos with
  | nil => rfl
  | cons change changes ih =>
    obtain ⟨hpos, horder, hrest⟩ := hfit
    have hle := hrest.le
    rw [map_cons, sum_cons] at hsize
    have hfrom : ((change.fromA : Int) + (before.length - pos)).toNat = before.length + (change.fromA - pos) := by omega
    have hto : ((change.toA : Int) + (before.length - pos)).toNat = before.length + (change.toA - pos) := by omega
    have hlength : (before ++ text.slice pos change.fromA ++ change.inserted).length =
        before.length + (change.fromA - pos) + change.inserted.length := by
      rw [length_append, length_append, JsString.slice, length_drop, length_take]
      omega
    have hadjust : ((before.length : Int) - pos) + (change.inserted.length - (change.toA - change.fromA)) =
        ((before ++ text.slice pos change.fromA ++ change.inserted).length : Int) - change.toA := by
      rw [hlength]
      omega
    rw [adjusted, applyTextEdits_append, replacement_applies (by omega) (by omega)
      (by rw [length_append, length_drop]; omega) (by rw [length_append, length_drop]; omega),
      Option.bind_some, hfrom, hto, change_applied hpos horder, hadjust, ih hrest (by rw [hlength]; omega), changed]
    simp only [append_assoc]

theorem inHalves_applies (hb : Balanced changes) (hfit : ChangesFit text.length pos changes)
    (hpos : changes ≠ [] → before.length = pos)
    (hsize : before.length + (text.length - pos) + (changes.map fun change => change.inserted.length).sum < 2 ^ 53) :
    applyTextEdits (before ++ text.drop pos) (inHalves changes).flatten = some (before ++ changed text pos changes) := by
  induction changes generalizing before pos with
  | nil => rfl
  | cons change changes ih =>
    obtain ⟨hbefore, horder, hrest⟩ := hfit
    have hle := hrest.le
    have hlength := hpos (cons_ne_nil _ _)
    rw [map_cons, sum_cons] at hsize
    have hfrom : change.fromA = before.length + (change.fromA - pos) := by omega
    have hto : change.toA = before.length + (change.toA - pos) := by omega
    have hchange := @change_applied text before pos change hbefore horder
    rw [← hfrom, ← hto] at hchange
    have hdone : (before ++ text.slice pos change.fromA ++ change.inserted).length =
        change.fromA + change.inserted.length := by
      rw [length_append, length_append, JsString.slice, length_drop, length_take]
      omega
    unfold inHalves
    rw [flatMap_cons, flatten_append, applyTextEdits_append, replaceRangeChunked_applies horder
      (by rw [length_append, length_drop]; omega) (by rw [length_append, length_drop]; omega),
      Option.bind_some, hchange]
    have hmore := @ih (before ++ text.slice pos change.fromA ++ change.inserted) change.toA hb.2 hrest
      (fun hmore => by rw [hdone, hb.1 hmore]; omega) (by rw [hdone]; omega)
    unfold inHalves at hmore
    rw [hmore, changed]
    simp only [append_assoc]

end

namespace EditorBridge

/-! ## The fallback against one transaction -/

section
variable {E : TextEngine} {bridge later : EditorBridge E} {origin : EditorOrigin} {chunks : List (List TextEdit)}

def Takes (E : TextEngine) (chunks : List (List TextEdit)) : Prop :=
  ∀ (doc : E.Doc), ∀ ops ∈ chunks, (applyTextEdits (E.text doc) ops).isSome → ∃ r, E.transact doc ops = .ok r

theorem transacts_applies (hE : E.Lawful) (htakes : Takes E chunks) {text : JsString}
    (h : applyTextEdits bridge.text chunks.flatten = some text) :
    ∃ later, transacts .editor chunks bridge = (later, none) ∧ later.text = text := by
  induction chunks generalizing bridge with
  | nil =>
    cases h
    exact ⟨bridge, rfl, rfl⟩
  | cons ops chunks ih =>
    rw [flatten_cons, applyTextEdits_append] at h
    obtain ⟨middle, happlied, h⟩ := Option.bind_eq_some_iff.mp h
    obtain ⟨⟨doc, edits⟩, htaken⟩ := htakes bridge.doc ops mem_cons_self (Option.isSome_of_eq_some happlied)
    have hmiddle := (hE.transact htaken).1.symm.trans happlied
    unfold transacts
    rw [htaken]
    simp only
    have hadvance : bridge.advance .editor doc edits = { bridge with doc } := by
      unfold advance emitChange
      rw [if_pos (Or.inr rfl)]
    rw [hadvance]
    refine ih (fun doc ops hm => htakes doc ops (mem_cons_of_mem _ hm)) ?_
    rw [show ({ bridge with doc } : EditorBridge E).text = middle from Option.some.inj hmiddle]
    exact h

theorem transacts_edits (hE : E.Lawful) (h : transacts .editor chunks bridge = (later, none)) :
    applyTextEdits bridge.text chunks.flatten = some later.text := by
  induction chunks generalizing bridge with
  | nil =>
    cases h
    rfl
  | cons ops chunks ih =>
    unfold transacts at h
    split at h
    · rename_i doc edits htaken
      have hadvance : bridge.advance .editor doc edits = { bridge with doc } := by
        unfold advance emitChange
        rw [if_pos (Or.inr rfl)]
      rw [hadvance] at h
      rw [flatten_cons, applyTextEdits_append]
      refine Eq.trans (congrArg (Option.bind · _) (hE.transact htaken).1) ?_
      exact ih h
    · cases h

end

/-- The parts come through, and lead from every text of a length to the one that one transaction makes of it, exactly
if the changes are balanced. -/
theorem halves_agree_iff {E : TextEngine} (hE : E.Lawful) (hdocs : ∀ text, ∃ doc, E.text doc = text)
    {changes : List EditorChange} (htakes : Takes E (inHalves changes)) {length : Nat} (hfit : ChangesFit length 0 changes)
    (hseparate : Separate changes) (hsize : length + (changes.map fun change => change.inserted.length).sum < 2 ^ 53) :
    (∀ bridge : EditorBridge E, bridge.text.length = length →
      ∃ later, transacts .editor (inHalves changes) bridge = (later, none) ∧
        applyTextEdits bridge.text (adjusted 0 changes) = some later.text) ↔ Balanced changes := by
  have hadjusted : ∀ text : JsString, text.length = length →
      applyTextEdits text (adjusted 0 changes) = some (changed text 0 changes) := by
    intro text hlength
    have h := @adjusted_applies text [] 0 changes (hlength ▸ hfit) (by rw [length_nil]; omega)
    rwa [drop_zero, nil_append, nil_append] at h
  refine ⟨fun hagree => ?_, fun hb bridge hlength => ?_⟩
  · -- Behind a text on which the two agree, both leave what stands there.
    have hdistinct : Nontrivial UInt16 := ⟨0, 1, by decide⟩
    refine Balanced.of_level (Splice.level_of_same hseparate hfit.within fun text hlength => ?_)
    obtain ⟨doc, hdoc⟩ := hdocs (text.take length)
    have hshort : (text.take length).length = length := by
      rw [length_take, hlength]
      exact Nat.min_eq_left (Nat.le_succ _)
    obtain ⟨later, hlater, hsame⟩ := hagree (opened doc true) ((congrArg List.length hdoc).trans hshort)
    have hhalves := transacts_edits hE hlater
    rw [show (opened doc true : EditorBridge E).text = text.take length from hdoc] at hsame hhalves
    have hturn := inHalves_inTurn hseparate (applyTextEdits_behind (text.drop length) hhalves)
    have hmade := applyTextEdits_behind (text.drop length) hsame
    rw [take_append_drop] at hturn hmade
    have hwhole := @adjusted_applied text _ [] 0 changes (hlength ▸ hfit.longer) hmade
    rw [← hturn, ← changed_together]
    exact hwhole
  · have h := @inHalves_applies bridge.text [] 0 changes hb (hlength ▸ hfit) (fun _ => rfl)
      (by rw [length_nil]; omega)
    rw [drop_zero, nil_append, nil_append] at h
    obtain ⟨later, hlater, htext⟩ := transacts_applies hE htakes h
    exact ⟨later, hlater, by rw [htext, hadjusted _ hlength]⟩

namespace Views

theorem plain_takes {limit : Nat} {chunks : List (List TextEdit)} (h : ∀ ops ∈ chunks, operations ops ≤ limit) :
    Takes (plain limit) chunks := by
  intro doc ops hm hsome
  obtain ⟨later, happlied⟩ := Option.isSome_iff_exists.mp hsome
  refine ⟨(later, ops), ?_⟩
  have hwhole : applyTextEdits doc ops = some later := happlied
  simp only [plain, if_neg (Nat.not_lt.mpr (h ops hm)), hwhole]

def shifting : List EditorChange := [⟨0, 0, [120]⟩, ⟨2, 2, [121, 121, 121]⟩]

def level : List EditorChange := [⟨0, 1, [120]⟩, ⟨2, 2, [121, 121, 121]⟩]

theorem halves_differ :
    (plain 3).transact ([97, 98] : JsString) (adjusted 0 shifting) = .error .tooManyOperations ∧
      ((@opened (plain 3) ([97, 98] : JsString) true).applyChangesInHalves 0 shifting).text =
        [120, 97, 121, 121, 121, 98] ∧
      applyTextEdits [97, 98] (adjusted 0 shifting) = some [120, 97, 98, 121, 121, 121] :=
  ⟨rfl, by decide +kernel, by decide +kernel⟩

theorem level_separate : Separate level := by
  unfold Separate level EditorChange.splice
  simp [Splice.Apart]

theorem level_agree :
    (plain 3).transact ([97, 98] : JsString) (adjusted 0 level) = .error .tooManyOperations ∧
      ∃ later, transacts .editor (inHalves level) (@opened (plain 3) ([97, 98] : JsString) true) = (later, none) ∧
        applyTextEdits [97, 98] (adjusted 0 level) = some later.text :=
  ⟨rfl, (halves_agree_iff plain_lawful (fun text => ⟨text, rfl⟩) (plain_takes (by decide)) (by decide) level_separate
    (by decide)).mpr (by decide) _ rfl⟩

end Views

end EditorBridge

end Marks
