import Marks.FrontMatter
import Marks.FrontMatterSound

/-! # Updates of the front matter are exact

By itself a front matter is what stands between a first line `---` and the next one. An update that finds it there
keeps what follows it, and changes the value at the paths of the patch, as long as the printed document has no such line
of its own. -/

namespace Marks.FrontMatter

open JsString List

/-! ## What the front matter is -/

/-- What follows the next line `---`; the flag says that a line starts here. -/
def behindMarker : Bool → JsString → Option JsString
  | _, [] => none
  | start, c :: s =>
    let later := behindMarker (c == newline) s
    if start then (afterDashes (c :: s)).or later else later

/-- What follows a first line `---`. -/
def behindOpening (text : JsString) : Option JsString := (afterPrefix dashes text).bind afterBreak

def markedBody (text : JsString) : Option JsString := (behindOpening text).bind (behindMarker true)

def bodyOf (text : JsString) : JsString := (markedBody text).getD text

def emptyFrontMatter (text : JsString) : Bool := ((behindOpening text).bind afterDashes).isSome

def holdsMarker (yaml : JsString) : Bool := (behindMarker true (yaml ++ [newline])).isSome

variable {yaml : JsString}

theorem holdsMarker_false :
    holdsMarker yaml = false ↔ behindMarker true (yaml ++ [newline]) = none := by
  rw [holdsMarker, Option.isSome_eq_false_iff, Option.isNone_iff_eq_none]

theorem behindMarker_true (s : JsString) : behindMarker true s = (afterDashes s).or (behindMarker false s) := by
  cases s with
  | nil => rfl
  | cons c s => rfl

theorem behindMarker_false (c : UInt16) (s : JsString) :
    behindMarker false (c :: s) = behindMarker (c == newline) s := rfl

theorem behindMarker_body (s : JsString) : behindMarker false s = (findClosing s).map Prod.snd := by
  induction s with
  | nil => rfl
  | cons c s ih =>
    have hlater : ((findClosing s).map fun found : Nat × JsString => (found.1 + 1, found.2)).map Prod.snd =
        behindMarker false s := by
      rw [ih, Option.map_map]
      rfl
    rw [behindMarker_false, findClosing_cons]
    by_cases hc : c = newline
    · subst hc
      have hclosing : afterClosing (newline :: s) = afterDashes s := by
        rw [afterClosing, afterBreak_newline]
        rfl
      rw [show (newline == newline) = true from rfl, behindMarker_true, hclosing]
      cases afterDashes s with
      | none => exact hlater.symm
      | some rest => rfl
    · rw [beq_false_of_ne hc]
      cases hclosing : afterClosing (c :: s) with
      | none => exact hlater.symm
      | some rest =>
        -- a return in front of a line break that opens a closing line
        obtain ⟨behind, hbehind, hdashes⟩ := Option.bind_eq_some_iff.mp hclosing
        rcases Option.or_eq_some_iff.mp hbehind with hwide | ⟨-, hnarrow⟩
        · cases afterPrefix_some hwide
          show behindMarker false (newline :: behind) = some rest
          rw [behindMarker_false, show (newline == newline) = true from rfl, behindMarker_true, hdashes]
          rfl
        · exact absurd (List.cons.inj (afterPrefix_some hnarrow)).1 hc

variable {s rest : JsString}

theorem afterDashes_length (h : afterDashes s = some rest) : rest.length < s.length := by
  obtain ⟨more, hmore, h⟩ := Option.bind_eq_some_iff.mp h
  rw [afterPrefix_some hmore, length_append]
  by_cases hnil : more = []
  · rw [if_pos hnil] at h
    cases h
    exact Nat.lt_of_lt_of_le (by decide) (Nat.le_add_right _ _)
  · rw [if_neg hnil] at h
    have hlt := afterBreak_length h
    omega

theorem afterDashes_append (s t : JsString) :
    afterDashes (s ++ newline :: t) = (afterDashes (s ++ [newline])).map (· ++ t) := by
  by_cases hs : newline ∈ s
  · obtain ⟨source, more, rfl, hsource⟩ := eq_append_cons_of_mem hs
    have hassoc : ∀ u, (source ++ newline :: more) ++ newline :: u = source ++ newline :: (more ++ newline :: u) := by
      simp
    rw [hassoc, hassoc, afterDashes_line hsource, afterDashes_line hsource]
    split
    · simp
    · rfl
  · rw [afterDashes_line hs, afterDashes_line hs]
    split
    · rfl
    · rfl

theorem behindMarker_append (b : Bool) (s t : JsString) :
    behindMarker b (s ++ newline :: t) =
      ((behindMarker b (s ++ [newline])).map (· ++ t)).or (behindMarker true t) := by
  induction s generalizing b with
  | nil =>
    cases b with
    | false => rfl
    | true => rfl
  | cons c s ih =>
    rw [cons_append, cons_append]
    cases b with
    | false => exact ih _
    | true =>
      rw [behindMarker_true, behindMarker_true, behindMarker_false, behindMarker_false, ih, ← cons_append,
        ← cons_append, afterDashes_append]
      cases afterDashes (c :: s ++ [newline]) with
      | none => rfl
      | some rest => rfl

theorem behindMarker_length {b : Bool} (h : behindMarker b s = some rest) :
    rest.length < s.length := by
  induction s generalizing b with
  | nil => cases h
  | cons c s ih =>
    have hlater : behindMarker (c == newline) s = some rest → rest.length < (c :: s).length := fun hrest =>
      Nat.lt_succ_of_lt (ih hrest)
    cases b with
    | false => exact hlater h
    | true =>
      rw [behindMarker_true] at h
      rcases Option.or_eq_some_iff.mp h with h | ⟨-, h⟩
      · exact afterDashes_length h
      · exact hlater h

theorem afterDashes_shape (h : afterDashes s = some rest) :
    s = dashes ∨ ∃ source, newline ∉ source ∧ behindMarker false (source ++ [newline]) = none ∧ s = source ++ newline :: rest := by
  obtain ⟨more, hmore, h⟩ := Option.bind_eq_some_iff.mp h
  have hsplit := afterPrefix_some hmore
  by_cases hnil : more = []
  · rw [hnil, append_nil] at hsplit
    exact Or.inl hsplit
  rw [if_neg hnil] at h
  rcases Option.or_eq_some_iff.mp h with hwide | ⟨-, hnarrow⟩
  · rw [afterPrefix_some hwide] at hsplit
    exact Or.inr ⟨dashes ++ [13], by decide, rfl, by rw [hsplit]; rfl⟩
  · rw [afterPrefix_some hnarrow] at hsplit
    exact Or.inr ⟨dashes, by decide, rfl, by rw [hsplit]; rfl⟩

theorem afterPrefix_two (a b s : JsString) : afterPrefix (a ++ b) s = (afterPrefix a s).bind (afterPrefix b) := by
  induction a generalizing s with
  | nil => rfl
  | cons c a ih =>
    cases s with
    | nil => rfl
    | cons d s =>
      show (if c = d then afterPrefix (a ++ b) s else none) = (if c = d then afterPrefix a s else none).bind _
      split
      · exact ih s
      · rfl

theorem behindOpening_eq (text : JsString) : behindOpening text = (openingBytes text).map fun n => text.drop n := by
  rw [behindOpening, openingBytes, afterPrefix_two, afterPrefix_two]
  cases hdashes : afterPrefix dashes text with
  | none => rfl
  | some rest =>
    rw [Option.bind_some, Option.bind_some, Option.bind_some, afterBreak]
    cases hwide : afterPrefix [13, 10] rest with
    | some behind =>
      rw [afterPrefix_some hdashes, afterPrefix_some hwide]
      rfl
    | none =>
      cases hnarrow : afterPrefix [10] rest with
      | some behind =>
        rw [afterPrefix_some hdashes, afterPrefix_some hnarrow]
        rfl
      | none => rfl

theorem findClosing_suffix {n : Nat} (h : findClosing s = some (n, rest)) : rest <:+ s := by
  induction s generalizing n with
  | nil => cases h
  | cons c s ih =>
    rw [findClosing_cons] at h
    cases hclosing : afterClosing (c :: s) with
    | some behind =>
      rw [hclosing] at h
      cases h
      obtain ⟨more, hmore, hdashes⟩ := Option.bind_eq_some_iff.mp hclosing
      have hmoreSuffix : more <:+ c :: s := by
        rcases Option.or_eq_some_iff.mp hmore with h | ⟨-, h⟩
        · exact ⟨_, (afterPrefix_some h).symm⟩
        · exact ⟨_, (afterPrefix_some h).symm⟩
      refine List.IsSuffix.trans ?_ hmoreSuffix
      rcases afterDashes_shape hdashes with heq | ⟨source, -, -, heq⟩
      · rw [heq] at hdashes
        cases hdashes
        exact nil_suffix
      · exact ⟨source ++ [newline], by rw [heq]; simp⟩
    | none =>
      rw [hclosing] at h
      obtain ⟨found, hfound, heq⟩ := Option.map_eq_some_iff.mp h
      obtain ⟨-, rfl⟩ := Prod.mk.inj heq
      exact (ih hfound).trans (suffix_cons c s)

/-! ## The envelope of a text -/

def rawBody (text : JsString) : JsString :=
  if (envelope text).exists_ then text.drop (envelope text).bodyFrom else text

theorem keptBody_eq (text : JsString) :
    keptBody text = if (envelope text).exists_ then (afterBreak (rawBody text)).getD (rawBody text) else text := by
  unfold keptBody rawBody
  cases (envelope text).exists_ with
  | false => rfl
  | true => rfl

theorem withoutBreak_length (s : JsString) :
    ((afterBreak s).getD s).length ≤ s.length ∧ s.length ≤ ((afterBreak s).getD s).length + 2 := by
  cases hbreak : afterBreak s with
  | none => exact ⟨Nat.le_refl _, Nat.le_add_right _ _⟩
  | some rest =>
    rw [Option.getD_some]
    rcases Option.or_eq_some_iff.mp hbreak with h | ⟨-, h⟩
    · rw [afterPrefix_some h, length_append]
      exact ⟨Nat.le_add_left _ _, Nat.le_of_eq (Nat.add_comm _ _)⟩
    · rw [afterPrefix_some h, length_append]
      exact ⟨Nat.le_add_left _ _, Nat.add_comm _ _ ▸ Nat.add_le_add_left (by decide) _⟩

theorem keptBody_length (text : JsString) :
    (keptBody text).length ≤ (rawBody text).length ∧ (rawBody text).length ≤ (keptBody text).length + 2 := by
  rw [keptBody_eq]
  cases hexists : (envelope text).exists_ with
  | true => exact withoutBreak_length (rawBody text)
  | false =>
    rw [rawBody, hexists]
    exact ⟨Nat.le_refl _, Nat.le_add_right _ _⟩

variable {text : JsString} {opening : Nat}

theorem envelope_cases (h : openingBytes text = some opening) :
    envelope text = unclosedEnvelope text opening ∨ ∃ n rest, findClosing (text.drop opening) = some (n, rest) ∧
      ¬ (maxFrontMatterChars < text.length ∧
        includes (newline :: dashes) (text.take maxFrontMatterChars) = false) ∧
      envelope text = ⟨true, true, text.length - rest.length, opening, opening + n, text.length - rest.length,
        text.slice opening (opening + n)⟩ := by
  rw [envelope, h]
  dsimp only
  split
  · exact Or.inl rfl
  rename_i hlong
  cases findClosing (text.drop opening) with
  | none => exact Or.inl rfl
  | some found => exact Or.inr ⟨found.1, found.2, rfl, hlong, rfl⟩

theorem envelope_exists (h : openingBytes text = some opening) :
    (envelope text).exists_ = true := by
  rcases envelope_cases h with heq | ⟨n, rest, -, -, heq⟩
  · rw [heq]
    rfl
  · rw [heq]

theorem envelope_closed (h : openingBytes text = some opening)
    (hclosed : (envelope text).exists_ = true → (envelope text).closed = true) :
    ∃ n rest, findClosing (text.drop opening) = some (n, rest) ∧ rawBody text = rest := by
  rcases envelope_cases h with heq | ⟨n, rest, hfind, -, heq⟩
  · have hfalse := hclosed (envelope_exists h)
    rw [heq] at hfalse
    cases hfalse
  refine ⟨n, rest, hfind, ?_⟩
  obtain ⟨ahead, hahead⟩ := (findClosing_suffix hfind).trans (drop_suffix opening text)
  rw [rawBody, heq]
  show text.drop (text.length - rest.length) = rest
  rw [← hahead, length_append, Nat.add_sub_cancel, drop_left]

theorem rawBody_eq (hclosed : (envelope text).exists_ = true → (envelope text).closed = true)
    (hempty : emptyFrontMatter text = false) : rawBody text = bodyOf text := by
  rw [bodyOf, markedBody, behindOpening_eq]
  rw [emptyFrontMatter, behindOpening_eq] at hempty
  cases hopening : openingBytes text with
  | none =>
    have hexists : (envelope text).exists_ = false := by rw [envelope, hopening]
    rw [rawBody, hexists]
    rfl
  | some opening =>
    rw [hopening] at hempty
    obtain ⟨n, rest, hfind, hraw⟩ := envelope_closed hopening hclosed
    have hnone : afterDashes (text.drop opening) = none := by
      rw [← Option.not_isSome_iff_eq_none]
      simpa using hempty
    rw [Option.map_some, Option.bind_some, behindMarker_true, hnone, Option.none_or, behindMarker_body, hfind, hraw]
    rfl

theorem rawBody_short (hclosed : (envelope text).exists_ = true → (envelope text).closed = true)
    (hempty : emptyFrontMatter text = true) : (rawBody text).length < (bodyOf text).length := by
  rw [bodyOf, markedBody, behindOpening_eq]
  rw [emptyFrontMatter, behindOpening_eq] at hempty
  cases hopening : openingBytes text with
  | none =>
    rw [hopening] at hempty
    cases hempty
  | some opening =>
    rw [hopening, Option.map_some, Option.bind_some] at hempty
    obtain ⟨body, hbody⟩ := Option.isSome_iff_exists.mp hempty
    obtain ⟨n, rest, hfind, hraw⟩ := envelope_closed hopening hclosed
    rw [Option.map_some, Option.bind_some, behindMarker_true, hbody, hraw, Option.some_or, Option.getD_some]
    have hmarked : behindMarker false (text.drop opening) = some rest := by rw [behindMarker_body, hfind]; rfl
    rcases afterDashes_shape hbody with heq | ⟨source, -, hnone, heq⟩
    · rw [heq] at hfind
      cases hfind
    · rw [heq, behindMarker_append, hnone] at hmarked
      exact behindMarker_length hmarked

/-! ## The envelope of a block -/

theorem markedBody_block (yaml body : JsString) :
    markedBody (block yaml ++ body) =
      ((behindMarker true (yaml ++ [newline])).map (· ++ (dashes ++ newline :: body))).or (some body) := by
  have hblock : block yaml ++ body = dashes ++ newline :: (yaml ++ newline :: (dashes ++ newline :: body)) := by
    simp [block]
  have hdashes : afterDashes (dashes ++ newline :: body) = some body := by
    rw [afterDashes_line (by decide), if_pos (Or.inl rfl)]
  rw [markedBody, behindOpening, hblock, afterPrefix_append, Option.bind_some, afterBreak_newline, Option.bind_some,
    behindMarker_append, behindMarker_true (dashes ++ newline :: body), hdashes]
  rfl

theorem markedBody_block_eq {body found : JsString} (h : markedBody (block yaml ++ body) = some found)
    (hlength : found.length ≤ body.length + 2) : holdsMarker yaml = false ∧ found = body := by
  rw [markedBody_block] at h
  cases hmarker : behindMarker true (yaml ++ [newline]) with
  | none =>
    rw [hmarker] at h
    exact ⟨by rw [holdsMarker, hmarker]; rfl, (Option.some.inj h).symm⟩
  | some rest =>
    rw [hmarker] at h
    cases h
    simp [dashes] at hlength
    omega

theorem findClosing_printed {b : Bool} (hlast : yaml.getLast? ≠ some 13)
    (hmarker : behindMarker b (yaml ++ [newline]) = none) (s : JsString) (hs : afterDashes s = some rest) :
    findClosing (yaml ++ newline :: s) = some (yaml.length, rest) := by
  induction yaml generalizing b with
  | nil =>
    rw [nil_append, findClosing_cons, afterClosing, afterBreak_newline, Option.bind_eq_bind, Option.bind_some, hs]
    rfl
  | cons c yaml ih =>
    have hnext : behindMarker (c == newline) (yaml ++ [newline]) = none := by
      cases b with
      | false => exact hmarker
      | true =>
        rw [cons_append, behindMarker_true] at hmarker
        exact (Option.or_eq_none_iff.mp hmarker).2
    have hlater : ∀ more, behindMarker true (more ++ [newline]) = none → afterDashes (more ++ newline :: s) = none := by
      intro more hmore
      rw [behindMarker_true] at hmore
      rw [afterDashes_append, (Option.or_eq_none_iff.mp hmore).1]
      rfl
    have hnone : afterClosing (c :: (yaml ++ newline :: s)) = none := by
      rw [afterClosing]
      by_cases hc : c = newline
      · rw [hc] at hnext ⊢
        rw [afterBreak_newline]
        exact hlater yaml hnext
      by_cases hreturn : c = 13
      · -- the return is not the last of the block, and what follows it is no line break in front of a marker
        subst hreturn
        cases yaml with
        | nil => exact absurd rfl hlast
        | cons d more =>
          by_cases hd : d = newline
          · subst hd
            show afterDashes (more ++ newline :: s) = none
            exact hlater more hnext
          have hbreak : afterBreak (13 :: (d :: more ++ newline :: s)) = none := by
            have hwide : ∀ u : JsString, afterPrefix [13, 10] (13 :: d :: u) = if 10 = d then some u else none :=
              fun _ => rfl
            rw [afterBreak, cons_append, hwide, if_neg (fun heq => hd heq.symm)]
            rfl
          rw [hbreak]
          rfl
      · have hbreak : afterBreak (c :: (yaml ++ newline :: s)) = none := by
          rcases hfound : afterBreak (c :: (yaml ++ newline :: s)) with _ | behind
          · rfl
          · rcases Option.or_eq_some_iff.mp hfound with h | ⟨-, h⟩
            · exact absurd (List.cons.inj (afterPrefix_some h)).1 hreturn
            · exact absurd (List.cons.inj (afterPrefix_some h)).1 hc
        rw [hbreak]
        rfl
    have hlastTail : yaml.getLast? ≠ some 13 := by
      cases yaml with
      | nil => simp
      | cons d more => simpa using hlast
    rw [cons_append, findClosing_cons, hnone, ih hlastTail hnext]
    rfl

def fits (yaml : JsString) : Bool := includes (newline :: dashes) ((block yaml).take maxFrontMatterChars)

theorem fits_iff (yaml body : JsString) :
    ¬ (maxFrontMatterChars < (block yaml ++ body).length ∧
      includes (newline :: dashes) ((block yaml ++ body).take maxFrontMatterChars) = false) ↔ fits yaml = true := by
  have hinside : includes (newline :: dashes) (block yaml) = true :=
    includes_iff.mpr ⟨dashes ++ newline :: yaml, [newline], by simp [block]⟩
  rcases Nat.lt_or_ge maxFrontMatterChars (block yaml).length with hlong | hshort
  · rw [fits, take_append_of_le_length (Nat.le_of_lt hlong), length_append]
    constructor
    · intro h
      exact Bool.of_not_eq_false fun hfalse => h ⟨Nat.lt_of_lt_of_le hlong (Nat.le_add_right _ _), hfalse⟩
    · rintro h ⟨-, hfalse⟩
      exact Bool.false_ne_true (hfalse.symm.trans h)
  · have htake : (block yaml ++ body).take maxFrontMatterChars =
        [] ++ (block yaml ++ body.take (maxFrontMatterChars - (block yaml).length)) := by
      rw [take_append, take_of_length_le hshort, nil_append]
    have hfits : fits yaml = true := by rw [fits, take_of_length_le hshort, hinside]
    rw [htake, includes_append hinside]
    exact ⟨fun _ => hfits, fun _ hfalse => Bool.noConfusion hfalse.2⟩

theorem openingBytes_block (yaml body : JsString) : openingBytes (block yaml ++ body) = some 4 := by
  have hblock : block yaml ++ body = dashes ++ newline :: (yaml ++ newline :: (dashes ++ newline :: body)) := by
    simp [block]
  rw [hblock, openingBytes_line (by decide), if_pos (Or.inl rfl)]
  rfl

theorem fits_of_closed {body : JsString} (h : (envelope (block yaml ++ body)).closed = true) : fits yaml = true := by
  rcases envelope_cases (openingBytes_block yaml body) with heq | ⟨n, rest, -, hlong, -⟩
  · rw [heq] at h
    cases h
  · exact (fits_iff yaml body).mp hlong

theorem envelope_block (hlast : yaml.getLast? ≠ some 13) (hmarker : holdsMarker yaml = false)
    (hfits : fits yaml = true) (body : JsString) :
    envelope (block yaml ++ body) =
      ⟨true, true, (block yaml).length, 4, 4 + yaml.length, (block yaml).length, yaml⟩ := by
  have hnone := holdsMarker_false.mp hmarker
  have hdashes : afterDashes (dashes ++ newline :: body) = some body := by
    rw [afterDashes_line (by decide), if_pos (Or.inl rfl)]
  have hdrop : (block yaml ++ body).drop 4 = yaml ++ newline :: (dashes ++ newline :: body) := by
    simp [block, dashes]
  have hfind := findClosing_printed hlast hnone _ hdashes
  have hwidth : (block yaml ++ body).length - body.length = (block yaml).length := by
    rw [length_append, Nat.add_sub_cancel]
  have hyaml : (block yaml ++ body).slice 4 (4 + yaml.length) = yaml := by
    rw [slice, ← take_drop, hdrop, take_left]
  rw [envelope, openingBytes_block]
  dsimp only
  rw [if_neg ((fits_iff yaml body).mpr hfits), hdrop, hfind]
  dsimp only
  rw [hwidth, hyaml]

theorem keptBody_block (hlast : yaml.getLast? ≠ some 13) (hmarker : holdsMarker yaml = false)
    (hfits : fits yaml = true) (body : JsString) :
    keptBody (block yaml ++ body) = (afterBreak body).getD body := by
  rw [keptBody, envelope_block hlast hmarker hfits, if_pos rfl, drop_left]

theorem trimEnd_last (s : JsString) : (trimEnd s).getLast? ≠ some 13 := by
  intro h
  have hne : trimEnd s ≠ [] := by
    intro hnil
    rw [hnil] at h
    cases h
  have hspace := rdropWhile_last_not isSpace s hne
  rw [getLast?_eq_some_getLast hne] at h
  have hlast : (List.rdropWhile isSpace s).getLast hne = 13 := Option.some.inj h
  rw [hlast] at hspace
  exact hspace rfl

/-! ## Values -/

def setField (key : JsString) (value : YamlValue) : Record → Record
  | [] => [(key, value)]
  | entry :: fields => if entry.1 = key then (key, value) :: fields else entry :: setField key value fields

def setAt : List JsString → YamlValue → Record → Record
  | [], _, fields => fields
  | [key], value, fields => setField key value fields
  | key :: path, value, fields =>
    setField key (.record (setAt path value (record (field fields key)))) fields

def removeAt : List JsString → Record → Record
  | [], fields => fields
  | [key], fields => fields.filter fun entry => entry.1 != key
  | key :: path, fields =>
    match field fields key with
    | .record inner => setField key (.record (removeAt path inner)) fields
    | _ => fields

def changeAt (path : List JsString) (change : Option (Option YamlValue)) (fields : Record) : Record :=
  match change with
  | none => fields
  | some none => removeAt path fields
  | some (some value) => setAt path value fields

/-- The value with the paths of the patch set or removed. -/
def patched (patch : FrontMatterPatch) (fields : Record) : Record :=
  patch.entries.foldl (fun fields entry => changeAt entry.1 entry.2 fields) fields

/-- The update touched the front matter only. -/
structure OnlyFrontMatter (y : Yaml) (text : JsString) (patch : FrontMatterPatch) (result : JsString) : Prop where
  body : markedBody result = some (bodyOf text)
  valid : (inspectFrontMatter y result).valid = true
  value : (inspectFrontMatter y result).value = patched patch (inspectFrontMatter y text).value
  again : updateFrontMatter y result patch = .ok result

/-! ## The package -/

/-- What is relied on of the package, for documents that no alias refers into and for those that end in a text with its
last line breaks kept. -/
structure Yaml.Lawful (y : Yaml) (aliased keepsEnd : y.Document → Prop) : Prop where
  parse_nil : y.contents (y.parseDocument []).1 = .absent
  absent {d} : y.contents d = .absent → y.toJS d = .ok .null
  createMapping {d} : y.contents d = .absent →
    y.contents (y.createMapping d) = .mapping ∧ y.toJS (y.createMapping d) = .ok (.record [])
  mapping {d} : y.contents d = .mapping → ¬ aliased d → ∃ fields, y.toJS d = .ok (.record fields)
  parse_print {d s} : y.contents d = .mapping → y.print d = .ok s → y.parseDocument s = (d, [])
  parse_trimEnd {d s} : y.contents d = .mapping → y.print d = .ok s → ¬ keepsEnd d →
    y.parseDocument (trimEnd s) = y.parseDocument s
  keepsEnd_lost {d s value fields} : y.contents d = .mapping → y.print d = .ok s → keepsEnd d →
    y.toJS d = .ok (.record fields) → y.toJS (y.parseDocument (trimEnd s)).1 = .ok value → record value ≠ fields
  setPath_mapping {d d' path change} : path ≠ [] → y.contents d = .mapping → setPath y d path change = .ok d' →
    y.contents d' = .mapping
  setPath_value {d d' path change fields} : path ≠ [] → y.contents d = .mapping → ¬ aliased d →
    y.toJS d = .ok (.record fields) → setPath y d path change = .ok d' →
    ¬ aliased d' ∧ y.toJS d' = .ok (.record (changeAt path change fields))
  setPath_again {d d' path change} : setPath y d path change = .ok d' → setPath y d' path change = .ok d'
  setPath_apart {d d' path change other more} : setPath y d path change = .ok d → setPath y d other more = .ok d' →
    ¬ path <+: other → ¬ other <+: path → setPath y d' path change = .ok d'

variable {fields : Record} {path : List JsString} {change : Option (Option YamlValue)}

section
variable {y : Yaml} {aliased keepsEnd : y.Document → Prop}

variable {entries : List (List JsString × Option (Option YamlValue))}

theorem setPaths_value (hy : y.Lawful aliased keepsEnd)
    (hpaths : ∀ entry ∈ entries, entry.1 ≠ []) {d d' : y.Document} (hd : y.contents d = .mapping)
    (halias : ¬ aliased d) (hvalue : y.toJS d = .ok (.record fields)) (h : setPaths y entries d = .ok d') :
    y.contents d' = .mapping ∧
      y.toJS d' = .ok (.record (entries.foldl (fun fields entry => changeAt entry.1 entry.2 fields) fields)) := by
  induction entries generalizing d fields with
  | nil =>
    cases h
    exact ⟨hd, hvalue⟩
  | cons entry entries ih =>
    rw [forall_mem_cons] at hpaths
    obtain ⟨more, hmore, h⟩ := bind_ok h
    obtain ⟨hmoreAlias, hmoreValue⟩ := hy.setPath_value hpaths.1 hd halias hvalue hmore
    exact ih hpaths.2 (hy.setPath_mapping hpaths.1 hd hmore) hmoreAlias hmoreValue h

theorem setPaths_keeps (hy : y.Lawful aliased keepsEnd)
    (hapart : ∀ entry ∈ entries, ¬ path <+: entry.1 ∧ ¬ entry.1 <+: path) {d d' : y.Document}
    (hd : setPath y d path change = .ok d) (h : setPaths y entries d = .ok d') : setPath y d' path change = .ok d' := by
  induction entries generalizing d with
  | nil =>
    cases h
    exact hd
  | cons entry entries ih =>
    rw [forall_mem_cons] at hapart
    obtain ⟨more, hmore, h⟩ := bind_ok h
    have hkept := hy.setPath_apart hd hmore hapart.1.1 hapart.1.2
    exact ih hapart.2 (hy.setPath_again hkept) h

theorem setPaths_again (hy : y.Lawful aliased keepsEnd)
    (hapart : (entries.map Prod.fst).Pairwise fun path other => ¬ path <+: other ∧ ¬ other <+: path) {d d' : y.Document}
    (h : setPaths y entries d = .ok d') : setPaths y entries d' = .ok d' := by
  induction entries generalizing d with
  | nil => rfl
  | cons entry entries ih =>
    rw [map_cons, pairwise_cons] at hapart
    obtain ⟨more, hmore, h⟩ := bind_ok h
    have hfirst : setPath y d' entry.1 entry.2 = .ok d' :=
      setPaths_keeps hy (fun other hother => hapart.1 other.1 (mem_map_of_mem hother)) (hy.setPath_again hmore) h
    show setPath y d' entry.1 entry.2 >>= setPaths y entries = .ok d'
    rw [hfirst]
    exact ih hapart.2 h

theorem entries_apart (patch : FrontMatterPatch) :
    (patch.entries.map Prod.fst).Pairwise fun path other => ¬ path <+: other ∧ ¬ other <+: path := by
  have hpaths : patch.entries.map Prod.fst = (FrontMatterPatch.entries {}).map Prod.fst := rfl
  rw [hpaths]
  decide +kernel

theorem entries_ne_nil (patch : FrontMatterPatch) : ∀ entry ∈ patch.entries, entry.1 ≠ [] := by
  have hpaths : ∀ path ∈ patch.entries.map Prod.fst, path ≠ [] := by simp [FrontMatterPatch.entries]
  exact fun entry hentry => hpaths entry.1 (mem_map_of_mem hentry)

theorem parseYaml_valid {source : JsString} (h : (parseYaml y source).errors = []) :
    (y.parseDocument source).2 = [] ∧ y.contents (y.parseDocument source).1 ≠ .other ∧
      ∃ value, y.toJS (y.parseDocument source).1 = .ok value ∧ (parseYaml y source).value = record value := by
  have hparts : ((y.parseDocument source).2.map fun message => ((lines message).headD []).take 240) = [] ∧
      (if (y.parseDocument source).2.map (fun message => ((lines message).headD []).take 240) = []
        then expand y (y.parseDocument source).1 else ([], [])).1 = [] ∧
      (if y.contents (y.parseDocument source).1 = .other
        then [ofString "Front matter must be a YAML mapping."] else []) = [] := by
    rw [← append_eq_nil_iff, ← append_eq_nil_iff, ← append_assoc]
    exact h
  obtain ⟨hmessages, hexpand, hshape⟩ := hparts
  rw [if_pos hmessages] at hexpand
  have hvalue : (parseYaml y source).value = (expand y (y.parseDocument source).1).2 := by
    show (if _ = [] then _ else _ : List JsString × Record).2 = _
    rw [if_pos hmessages]
  have hknown : y.contents (y.parseDocument source).1 ≠ .other := by
    intro hother
    rw [if_pos hother] at hshape
    cases hshape
  refine ⟨map_eq_nil_iff.mp hmessages, hknown, ?_⟩
  unfold expand at hexpand hvalue
  cases hjs : y.toJS (y.parseDocument source).1 with
  | ok value =>
    rw [hjs] at hvalue
    exact ⟨value, rfl, hvalue⟩
  | error message =>
    rw [hjs] at hexpand
    cases message with
    | none => cases hexpand
    | some message => cases hexpand

theorem parseYaml_mapping {source : JsString} {d : y.Document}
    (hparse : y.parseDocument source = (d, [])) (hd : y.contents d = .mapping) (hvalue : y.toJS d = .ok (.record fields)) :
    parseYaml y source = ⟨d, [], fields⟩ := by
  simp [parseYaml, hparse, hd, expand, hvalue, record]

/-! ## The opened document -/

theorem openDocument_ok {d : y.Document} (h : openDocument y text = .ok d) :
    ((envelope text).exists_ = true → (envelope text).closed = true ∧ (parseYaml y (envelope text).yaml).errors = []) ∧
      y.contents d = .mapping ∧
      d = if y.contents (y.parseDocument (envelope text).yaml).1 = .absent
        then y.createMapping (y.parseDocument (envelope text).yaml).1 else (y.parseDocument (envelope text).yaml).1 := by
  obtain ⟨hclosed, h⟩ := require_bind h
  obtain ⟨herrors, h⟩ := require_bind h
  obtain ⟨hmapping, h⟩ := require_bind h
  cases h
  refine ⟨fun hexists => ?_, of_decide_eq_true hmapping, rfl⟩
  rw [hexists] at hclosed herrors
  exact ⟨by simpa using hclosed, by simpa using herrors⟩

theorem openDocument_value (hy : y.Lawful aliased keepsEnd) {d : y.Document}
    (h : openDocument y text = .ok d) (halias : ¬ aliased d) :
    y.toJS d = .ok (.record (inspectFrontMatter y text).value) := by
  obtain ⟨herrors, hmapping, hd⟩ := openDocument_ok h
  have hvalue : (inspectFrontMatter y text).value =
      if (envelope text).exists_ then (parseYaml y (envelope text).yaml).value else [] := rfl
  rw [hvalue]
  cases hexists : (envelope text).exists_ with
  | false =>
    have hnone : (envelope text).yaml = [] := by
      unfold envelope at hexists ⊢
      cases hopening : openingBytes text with
      | none => rfl
      | some opening =>
        rw [hopening] at hexists
        dsimp only at hexists
        split at hexists
        · cases hexists
        · split at hexists
          · cases hexists
          · cases hexists
    rw [hnone, if_pos hy.parse_nil] at hd
    rw [hd]
    exact (hy.createMapping hy.parse_nil).2
  | true =>
    obtain ⟨-, -, value, hjs, hparsed⟩ := parseYaml_valid (herrors hexists).2
    rw [if_pos rfl, hparsed]
    by_cases habsent : y.contents (y.parseDocument (envelope text).yaml).1 = .absent
    · rw [if_pos habsent] at hd
      cases (hy.absent habsent).symm.trans hjs
      rw [hd]
      exact (hy.createMapping habsent).2
    · rw [if_neg habsent] at hd
      obtain ⟨fields, hfields⟩ := hy.mapping hmapping halias
      rw [hfields]
      rw [hd] at hfields
      cases hfields.symm.trans hjs
      rfl

/-! ## Updates -/

variable {result : JsString} {patch : FrontMatterPatch}

theorem updateFrontMatter_ok
    (h : updateFrontMatter y text patch = .ok result) :
    ∃ d printed, patchedDocument y text patch = .ok d ∧ y.print d = .ok printed ∧
      result = block (trimEnd printed) ++ keptBody text := by
  obtain ⟨d, hd, h⟩ := bind_ok h
  obtain ⟨printed, hprinted, h⟩ := bind_ok h
  exact ⟨d, printed, hd, hprinted, (Except.ok.inj h).symm⟩

theorem inspectFrontMatter_block (hlast : yaml.getLast? ≠ some 13)
    (hmarker : holdsMarker yaml = false) (hfits : fits yaml = true) (body : JsString) :
    (inspectFrontMatter y (block yaml ++ body)).valid = (parseYaml y yaml).errors.isEmpty ∧
      (inspectFrontMatter y (block yaml ++ body)).value = (parseYaml y yaml).value := by
  unfold inspectFrontMatter
  rw [envelope_block hlast hmarker hfits]
  exact ⟨rfl, rfl⟩

theorem inspectFrontMatter_closed (h : (inspectFrontMatter y text).valid = true)
    (hexists : (envelope text).exists_ = true) : (envelope text).closed = true := by
  have hnil := List.isEmpty_iff.mp h
  cases hclosed : (envelope text).closed with
  | true => rfl
  | false =>
    rw [hexists, hclosed] at hnil
    cases hnil

theorem openDocument_block (hlast : yaml.getLast? ≠ some 13) (hmarker : holdsMarker yaml = false)
    (hfits : fits yaml = true) (body : JsString) {d : y.Document}
    (hparse : parseYaml y yaml = ⟨d, [], fields⟩) (hd : y.contents d = .mapping) :
    openDocument y (block yaml ++ body) = .ok d := by
  have hopen : (if y.contents d = .absent then y.createMapping d else d) = d :=
    if_neg fun habsent => by rw [hd] at habsent; cases habsent
  unfold openDocument
  rw [envelope_block hlast hmarker hfits]
  dsimp only
  rw [hparse]
  dsimp only
  rw [hopen, hd]
  rfl

variable (y aliased keepsEnd) in
/-- When an update touches the front matter only. The document is the one that is printed, and the first condition is
about a front matter whose closing line follows its first line. -/
structure Separable (text : JsString) (patch : FrontMatterPatch) : Prop where
  nonempty : emptyFrontMatter text = false
  unaliased : ∀ d, openDocument y text = .ok d → ¬ aliased d
  body : afterBreak (bodyOf text) = none
  printed : ∀ d printed, patchedDocument y text patch = .ok d → y.print d = .ok printed →
    holdsMarker (trimEnd printed) = false ∧ fits (trimEnd printed) = true ∧ ¬ keepsEnd d

theorem updateFrontMatter_separate (hy : y.Lawful aliased keepsEnd)
    (h : updateFrontMatter y text patch = .ok result) (hseparable : Separable y aliased keepsEnd text patch) :
    OnlyFrontMatter y text patch result := by
  obtain ⟨d', printed, hpatched, hprint, rfl⟩ := updateFrontMatter_ok h
  obtain ⟨d, hd, hset⟩ := bind_ok hpatched
  obtain ⟨hmarker, hfits, hkeeps⟩ := hseparable.printed d' printed hpatched hprint
  have hlast := trimEnd_last printed
  obtain ⟨hclosed, hmapping, -⟩ := openDocument_ok hd
  obtain ⟨hmapping', hvalue'⟩ := setPaths_value hy (entries_ne_nil patch) hmapping (hseparable.unaliased d hd)
    (openDocument_value hy hd (hseparable.unaliased d hd)) hset
  have hraw := rawBody_eq (fun hexists => (hclosed hexists).1) hseparable.nonempty
  have hkept : keptBody text = bodyOf text := by
    rw [keptBody_eq, hraw, hseparable.body]
    split
    · rfl
    · rename_i hexists
      rw [← hraw, rawBody, if_neg hexists]
  have hparse : parseYaml y (trimEnd printed) = ⟨d', [], patched patch (inspectFrontMatter y text).value⟩ :=
    parseYaml_mapping ((hy.parse_trimEnd hmapping' hprint hkeeps).trans (hy.parse_print hmapping' hprint)) hmapping' hvalue'
  obtain ⟨hvalid, hvalue⟩ := inspectFrontMatter_block (y := y) hlast hmarker hfits (keptBody text)
  rw [hparse] at hvalid hvalue
  refine ⟨?_, hvalid, hvalue, ?_⟩
  · rw [markedBody_block, holdsMarker_false.mp hmarker, hkept]
    rfl
  have hagain : patchedDocument y (block (trimEnd printed) ++ keptBody text) patch = .ok d' := by
    rw [patchedDocument, openDocument_block hlast hmarker hfits (keptBody text) hparse hmapping']
    exact setPaths_again hy (entries_apart patch) hset
  unfold updateFrontMatter
  rw [hagain]
  show (y.print d' >>= fun printed' => Except.ok _) = _
  rw [hprint, keptBody_block hlast hmarker hfits, hkept, hseparable.body]
  rfl

theorem separable_of_only (hy : y.Lawful aliased keepsEnd)
    (h : updateFrontMatter y text patch = .ok result) (honly : OnlyFrontMatter y text patch result)
    (halias : ∀ d, openDocument y text = .ok d → ¬ aliased d)
    (htwice : emptyFrontMatter text = true → ∀ d printed, patchedDocument y text patch = .ok d →
      y.print d = .ok printed → holdsMarker (trimEnd printed) = false) :
    Separable y aliased keepsEnd text patch := by
  obtain ⟨d', printed, hpatched, hprint, rfl⟩ := updateFrontMatter_ok h
  obtain ⟨d, hd, hset⟩ := bind_ok hpatched
  have hlast := trimEnd_last printed
  obtain ⟨hclosed, hmapping, -⟩ := openDocument_ok hd
  obtain ⟨hkeptRaw, hrawKept⟩ := keptBody_length text
  have hbody := honly.body
  -- what follows the result's marker is longer than the body when the block has a marker of its own
  have hnonempty : emptyFrontMatter text = false := by
    cases hempty : emptyFrontMatter text with
    | false => rfl
    | true =>
      have hnone := holdsMarker_false.mp (htwice hempty d' printed hpatched hprint)
      have hshort := rawBody_short (fun hexists => (hclosed hexists).1) hempty
      rw [markedBody_block, hnone] at hbody
      have hsame : keptBody text = bodyOf text := Option.some.inj hbody
      rw [← hsame] at hshort
      omega
  have hraw := rawBody_eq (fun hexists => (hclosed hexists).1) hnonempty
  rw [hraw] at hkeptRaw hrawKept
  obtain ⟨hmarker, hsame⟩ := markedBody_block_eq hbody hrawKept
  have hfits : fits (trimEnd printed) = true :=
    fits_of_closed (inspectFrontMatter_closed honly.valid (envelope_exists (openingBytes_block _ _)))
  refine ⟨hnonempty, halias, ?_, ?_⟩
  · -- the same patch again takes a line break from the front of the body
    obtain ⟨-, more, -, -, hagain⟩ := updateFrontMatter_ok honly.again
    rw [keptBody_block hlast hmarker hfits, ← hsame] at hagain
    rw [← hsame, hagain] at hbody
    obtain ⟨-, hstill⟩ := markedBody_block_eq hbody (withoutBreak_length (bodyOf text)).2
    cases hbreak : afterBreak (bodyOf text) with
    | none => rfl
    | some rest =>
      rw [hbreak, Option.getD_some] at hstill
      have hlt := afterBreak_length hbreak
      rw [← hstill] at hlt
      omega
  · intro e text' he htext'
    cases hpatched.symm.trans he
    cases hprint.symm.trans htext'
    refine ⟨hmarker, hfits, fun hkeeps => ?_⟩
    obtain ⟨hmapping', hvalue'⟩ := setPaths_value hy (entries_ne_nil patch) hmapping (halias d hd)
      (openDocument_value hy hd (halias d hd)) hset
    obtain ⟨hvalid, hvalue⟩ := inspectFrontMatter_block (y := y) hlast hmarker hfits (keptBody text)
    rw [honly.valid] at hvalid
    obtain ⟨-, -, value, hjs, hrecord⟩ := parseYaml_valid (List.isEmpty_iff.mp hvalid.symm)
    rw [honly.value, hrecord] at hvalue
    exact hy.keepsEnd_lost hmapping' hprint hkeeps hvalue' hjs hvalue.symm

end

/-! ## A note with a title -/

/-- The documents a note with the title `x` or with none goes through. -/
inductive Note
  | blank
  | untitled
  | titled
deriving DecidableEq, Repr

def titled : Record := [(ofString "title", .string (ofString "x"))]

def isTitle : YamlValue → Bool
  | .string text => text == ofString "x"
  | _ => false

def noteYaml : Yaml where
  Document := Note
  parseDocument source :=
    if source = [] then (.blank, [])
    else if source = ofString "{}" ∨ source = ofString "{}\n" then (.untitled, [])
    else if source = ofString "title: x" ∨ source = ofString "title: x\n" then (.titled, [])
    else (.blank, [ofString "Not a note"])
  contents note := if note = .blank then .absent else .mapping
  toJS
    | .blank => .ok .null
    | .untitled => .ok (.record [])
    | .titled => .ok (.record titled)
  createMapping _ := .untitled
  setIn note path value :=
    if note ≠ .blank ∧ path = [ofString "title"] ∧ isTitle value then .ok .titled else .error (ofString "Not a note")
  deleteIn note path :=
    if note ≠ .blank ∧ path = [ofString "title"] then .ok .untitled else .error (ofString "Not a note")
  print
    | .blank => .ok (ofString "null\n")
    | .untitled => .ok (ofString "{}\n")
    | .titled => .ok (ofString "title: x\n")

theorem note_change {d d' : Note}
    (h : setPath noteYaml d path change = .ok d') :
    (change = none ∧ d' = d) ∨ d ≠ .blank ∧ path = [ofString "title"] ∧
      ((change = some none ∧ d' = .untitled) ∨
        (change = some (some (.string (ofString "x"))) ∧ d' = .titled)) := by
  cases change with
  | none => exact Or.inl ⟨rfl, (Except.ok.inj h).symm⟩
  | some change =>
    refine Or.inr ?_
    cases change with
    | none =>
      have hunfold : setPath noteYaml d path (some none) = if d ≠ .blank ∧ path = [ofString "title"] then .ok .untitled
          else .error (ofString "Not a note") := rfl
      rw [hunfold] at h
      split at h
      · rename_i hnote
        exact ⟨hnote.1, hnote.2, Or.inl ⟨rfl, (Except.ok.inj h).symm⟩⟩
      · cases h
    | some value =>
      have hunfold : setPath noteYaml d path (some (some value)) =
          if d ≠ .blank ∧ path = [ofString "title"] ∧ isTitle value then .ok .titled
          else .error (ofString "Not a note") := rfl
      rw [hunfold] at h
      split at h
      · rename_i hnote
        cases value with
        | string text =>
          obtain rfl : text = ofString "x" := by simpa [isTitle] using hnote.2.2
          exact ⟨hnote.1, hnote.2.1, Or.inr ⟨rfl, (Except.ok.inj h).symm⟩⟩
        | null => cases hnote.2.2
        | bool b => cases hnote.2.2
        | number q => cases hnote.2.2
        | array items => cases hnote.2.2
        | record fields => cases hnote.2.2
      · cases h

theorem note_mapping {d : Note} (h : noteYaml.contents d = .mapping) : d ≠ .blank := by
  rintro rfl
  cases h

theorem note_value {d d' : Note}
    (hfields : noteYaml.toJS d = .ok (.record fields)) (h : setPath noteYaml d path change = .ok d') :
    noteYaml.toJS d' = .ok (.record (changeAt path change fields)) := by
  rcases note_change h with ⟨rfl, rfl⟩ | ⟨hblank, rfl, ⟨rfl, rfl⟩ | ⟨rfl, rfl⟩⟩
  · exact hfields
  · cases d with
    | blank => exact absurd rfl hblank
    | untitled =>
      obtain rfl := YamlValue.record.inj (Except.ok.inj hfields)
      rfl
    | titled =>
      obtain rfl := YamlValue.record.inj (Except.ok.inj hfields)
      rfl
  · cases d with
    | blank => exact absurd rfl hblank
    | untitled =>
      obtain rfl := YamlValue.record.inj (Except.ok.inj hfields)
      rfl
    | titled =>
      obtain rfl := YamlValue.record.inj (Except.ok.inj hfields)
      rfl

theorem noteYaml_lawful : noteYaml.Lawful (fun _ => False) (fun _ => False) where
  parse_nil := rfl
  absent {d} h := by
    cases d with
    | blank => rfl
    | untitled => cases h
    | titled => cases h
  createMapping _ := ⟨rfl, rfl⟩
  mapping {d} h _ := by
    cases d with
    | blank => exact absurd rfl (note_mapping h)
    | untitled => exact ⟨[], rfl⟩
    | titled => exact ⟨titled, rfl⟩
  parse_print {d s} h hprint := by
    cases d with
    | blank => exact absurd rfl (note_mapping h)
    | untitled =>
      cases hprint
      rfl
    | titled =>
      cases hprint
      rfl
  parse_trimEnd {d s} h hprint _ := by
    cases d with
    | blank => exact absurd rfl (note_mapping h)
    | untitled =>
      cases hprint
      rfl
    | titled =>
      cases hprint
      rfl
  keepsEnd_lost _ _ h := h.elim
  setPath_mapping {d d' path change} _ hd h := by
    rcases note_change h with ⟨-, rfl⟩ | ⟨-, -, ⟨-, rfl⟩ | ⟨-, rfl⟩⟩
    · exact hd
    · rfl
    · rfl
  setPath_value _ _ _ hfields h := ⟨id, note_value hfields h⟩
  setPath_again {d d' path change} h := by
    rcases note_change h with ⟨rfl, rfl⟩ | ⟨-, rfl, ⟨rfl, rfl⟩ | ⟨rfl, rfl⟩⟩
    · rfl
    · rfl
    · rfl
  setPath_apart {d d' path change other more} h hmore happart _ := by
    rcases note_change h with ⟨rfl, -⟩ | ⟨-, rfl, -⟩
    · rfl
    · rcases note_change hmore with ⟨-, rfl⟩ | ⟨-, rfl, -⟩
      · exact h
      · exact absurd (prefix_refl _) happart

def titledNote : JsString := ofString "---\ntitle: x\n---\n"

def addTitle : FrontMatterPatch where
  title := some (some (ofString "x"))

end Marks.FrontMatter
