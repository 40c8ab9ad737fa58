import Mathlib.Data.List.Basic
import Marks.CreateRequest
import Marks.FrontMatterSound
import Marks.Runs

/-! # One identity for each create action

A page that gave out a request for a scope rests on its map, or on the record in session storage alone. It returns the
same request until it is confirmed as long as no storage call fails where the record is what it rests on, a confirmed
record is removed, and no other scope with the same storage key takes its place. -/

namespace Marks.CreateRequest

open JsString LocalWorkspace LocalJournal List

/-! ## What the log says -/

/-- The request a page returned for a scope and that was not confirmed since. -/
def inUse (scope : JsString) : List RequestLog → Option PendingDocumentCreateRequest
  | [] => none
  | .returned other request :: log => if other = scope then some request else inUse scope log
  | .confirmed other requestId :: log =>
    if other = scope then (inUse scope log).filter (·.requestId ≠ requestId) else inUse scope log
  | .reloaded :: _ => none

/-- The request returned last for a scope, on any page. -/
def latest (scope : JsString) : List RequestLog → Option PendingDocumentCreateRequest
  | [] => none
  | .returned other request :: log => if other = scope then some request else latest scope log
  | .confirmed _ _ :: log => latest scope log
  | .reloaded :: log => latest scope log

/-- The request returned last for a scope was confirmed. -/
def closed (scope : JsString) : List RequestLog → Bool
  | [] => false
  | .returned other _ :: log => other ≠ scope && closed scope log
  | .confirmed other requestId :: log =>
    closed scope log || (other = scope && (latest scope log).any (·.requestId = requestId))
  | .reloaded :: log => closed scope log

/-- What a call that returns `request` for `scope` owes to the calls before it. -/
structure Identified (scope : JsString) (request : PendingDocumentCreateRequest) (earlier : List RequestLog) :
    Prop where
  apart : ∀ other known, .returned other known ∈ earlier → known.requestId = request.requestId → other = scope
  steady : ∀ known, inUse scope earlier = some known → request = known
  fresh : closed scope earlier = true →
    ∀ other known, .returned other known ∈ earlier → known.requestId ≠ request.requestId

def Agrees : RequestLog → List RequestLog → Prop
  | .returned scope request, earlier => Identified scope request earlier
  | .confirmed _ _, _ => True
  | .reloaded, _ => True

/-- Every call of the log returns the one identity of its scope. -/
def OneIdentity (log : List RequestLog) : Prop := Transition.Chronicle Agrees log

section
variable {scope : JsString} {request : PendingDocumentCreateRequest} {log : List RequestLog}

theorem latest_returned (h : latest scope log = some request) : .returned scope request ∈ log := by
  induction log with
  | nil => cases h
  | cons entry log ih =>
    cases entry with
    | returned other known =>
      unfold latest at h
      by_cases ho : other = scope
      · rw [if_pos ho] at h
        rw [ho, Option.some.inj h]
        exact mem_cons_self
      · rw [if_neg ho] at h
        exact mem_cons_of_mem _ (ih h)
    | confirmed other requestId => exact mem_cons_of_mem _ (ih h)
    | reloaded => exact mem_cons_of_mem _ (ih h)

theorem inUse_latest (h : inUse scope log = some request) :
    latest scope log = some request ∧ closed scope log = false := by
  induction log with
  | nil => cases h
  | cons entry log ih =>
    cases entry with
    | returned other known =>
      unfold inUse at h
      unfold latest closed
      by_cases ho : other = scope
      · rw [if_pos ho] at h ⊢
        exact ⟨h, by simp [ho]⟩
      · rw [if_neg ho] at h ⊢
        exact ⟨(ih h).1, by simp [(ih h).2]⟩
    | confirmed other requestId =>
      unfold inUse at h
      unfold latest closed
      by_cases ho : other = scope
      · rw [if_pos ho] at h
        obtain ⟨hin, hne⟩ := Option.filter_eq_some_iff.mp h
        obtain ⟨hl, hc⟩ := ih hin
        exact ⟨hl, by simpa [hl, hc, ho] using hne⟩
      · rw [if_neg ho] at h
        exact ⟨(ih h).1, by simp [(ih h).2, ho]⟩
    | reloaded => cases h

theorem OneIdentity.apart (h : OneIdentity log) {other : JsString} {known : PendingDocumentCreateRequest}
    (hr : .returned scope request ∈ log) (hk : .returned other known ∈ log)
    (hid : known.requestId = request.requestId) : other = scope := by
  induction log with
  | nil => cases hr
  | cons entry log ih =>
    rcases mem_cons.mp hr with rfl | hold
    · rcases mem_cons.mp hk with heq | hk
      · exact (RequestLog.returned.inj heq).1
      · exact h.1.apart other known hk hid
    · rcases mem_cons.mp hk with rfl | hk
      · exact (h.1.apart scope request hold hid.symm).symm
      · exact ih h.2 hold hk

end

/-! ## Scopes name their content -/

theorem digit_unit {c : Char} {n : Nat} (hc : c ∈ Nat.toDigits 10 n) :
    (UInt16.ofNat c.toNat).toNat = c.toNat ∧ c.toNat < 58 := by
  have hdigit := Nat.isDigit_of_mem_toDigits (by decide) (by decide) hc
  have hlt : c.toNat < 58 := by
    simp only [Char.isDigit, Bool.and_eq_true, decide_eq_true_eq, ge_iff_le, UInt32.le_iff_toNat_le] at hdigit
    have := hdigit.2
    simp at this
    exact Nat.lt_succ_of_le this
  exact ⟨by rw [UInt16.toNat_ofNat']; omega, hlt⟩

theorem decimal_inj {m n : Nat} (h : decimal m = decimal n) : m = n := by
  have hread : ∀ n, Nat.ofDigitChars 10 ((decimal n).map fun unit => Char.ofNat unit.toNat) 0 = n := by
    intro n
    have hback : (decimal n).map (fun unit => Char.ofNat unit.toNat) = Nat.toDigits 10 n := by
      rw [decimal, ofString, String.toList_ofList, map_map]
      refine (map_congr_left fun c hc => ?_).trans (map_id _)
      show Char.ofNat (UInt16.ofNat c.toNat).toNat = c
      rw [(digit_unit hc).1, Char.ofNat_toNat]
    rw [hback, Nat.ofDigitChars_ten_toDigits]
  rw [← hread m, h, hread]

theorem colon_decimal (n : Nat) : (58 : UInt16) ∉ decimal n := by
  rw [decimal, ofString, String.toList_ofList]
  intro h
  obtain ⟨c, hc, heq⟩ := mem_map.mp h
  have := digit_unit hc
  rw [heq] at this
  exact absurd this.2 (by rw [← this.1]; decide)

theorem decimal_split {m n : Nat} {s t : JsString} (h : decimal m ++ 58 :: s = decimal n ++ 58 :: t) :
    m = n ∧ s = t := by
  have hhead : ∀ n s, (decimal n ++ 58 :: s).takeWhile (· != 58) = decimal n := by
    intro n s
    have hall : ∀ c ∈ decimal n, (c != 58) = true := by
      intro c hc
      refine bne_iff_ne.mpr fun heq => colon_decimal n ?_
      rwa [← heq]
    rw [takeWhile_append_of_pos hall, takeWhile_cons_of_neg (by decide), append_nil]
  have hd := congrArg (List.takeWhile (· != 58)) h
  rw [hhead, hhead] at hd
  obtain rfl := decimal_inj hd
  exact ⟨rfl, (List.cons.inj (append_cancel_left h)).2⟩

/-- A text behind its own length. -/
theorem counted_inj {s t rest more : JsString}
    (h : decimal s.length ++ 58 :: (s ++ rest) = decimal t.length ++ 58 :: (t ++ more)) : s = t ∧ rest = more := by
  obtain ⟨hlength, htext⟩ := decimal_split h
  exact append_inj htext hlength

theorem contentScope_inj {draft other : MaterializedDocumentDraft} (h : contentScope draft = contentScope other) :
    draft = other := by
  obtain ⟨title, content⟩ := draft
  obtain ⟨title', content'⟩ := other
  unfold contentScope at h
  rw [append_assoc, append_assoc] at h
  have h := append_cancel_left h
  cases title with
  | none =>
    cases title' with
    | none =>
      have h := (List.cons.inj (append_cancel_left h)).2
      have hc := @counted_inj content content' [] [] (by simpa using h)
      rw [hc.1]
    | some title' => exact absurd (congrArg List.head? h) (by simp [ofString])
  | some title =>
    cases title' with
    | none => exact absurd (congrArg List.head? h) (by simp [ofString])
    | some title' =>
      simp only [append_assoc, cons_append] at h
      obtain ⟨rfl, h⟩ := counted_inj (append_cancel_left h)
      have hc := @counted_inj content content' [] [] (by simpa using h)
      rw [hc.1]

theorem isContent_contentScope (draft : MaterializedDocumentDraft) : isContent (contentScope draft) = true := by
  unfold isContent contentScope
  rw [append_assoc, afterPrefix_append]
  rfl

/-- A scope that is not a content scope is not taken for the name the records of content scopes have. -/
theorem CreateAction.kinds (action : CreateAction) :
    action.scope = contentScope action.draft ∨
      isContent action.scope = false ∧ action.scope ≠ ofString "content" := by
  have hapart : ∀ {c : UInt16} {rest : JsString}, c ≠ 99 →
      isContent (c :: rest) = false ∧ c :: rest ≠ ofString "content" := by
    intro c rest hc
    refine ⟨?_, fun h => hc (List.cons.inj h).1⟩
    show (if (99 : UInt16) = c then _ else none : Option JsString).isSome = false
    rw [if_neg (Ne.symm hc)]
    rfl
  obtain ⟨templates, draft, hscope, hdraft⟩ | ⟨documentId, hscope, -⟩ := action.computed
  · unfold documentCreateRequestScope at hscope
    split at hscope
    · exact .inr (hscope ▸ hapart (by decide))
    · exact .inr (hscope ▸ hapart (by decide))
    simp only at hscope
    split at hscope
    · exact .inr (hscope ▸ hapart (by decide))
    · exact .inl (hdraft ▸ hscope)
  · exact .inr (hscope ▸ hapart (by decide))

theorem CreateAction.draft_eq {action other : CreateAction} (hs : action.scope = other.scope)
    (hc : isContent other.scope = true) : action.draft = other.draft := by
  have hform : ∀ action : CreateAction, isContent action.scope = true → action.scope = contentScope action.draft := by
    intro action hc
    rcases action.kinds with h | h
    · exact h
    · exact absurd hc (by rw [h.1]; decide)
  exact contentScope_inj ((hform action (hs ▸ hc)).symm.trans (hs.trans (hform other hc)))

theorem CreateAction.scope_eq {action other : CreateAction} (hs : storedScope action.scope = storedScope other.scope)
    (hd : isContent other.scope = true → action.draft = other.draft) : action.scope = other.scope := by
  unfold storedScope at hs
  rcases action.kinds with ha | ⟨ha, hname⟩
  · rw [ha, isContent_contentScope, if_pos rfl] at hs
    rcases other.kinds with ho | ⟨ho, hname⟩
    · rw [ha, ho, hd (ho ▸ isContent_contentScope _)]
    · rw [ho] at hs
      exact absurd hs.symm hname
  · rcases other.kinds with ho | ⟨ho, -⟩
    · rw [ha, ho, isContent_contentScope, if_pos rfl] at hs
      exact absurd hs hname
    · rw [ha, ho] at hs
      exact hs

/-! ## Records -/

def recordOf (scope : JsString) (request : PendingDocumentCreateRequest) : StoredDocumentCreateRequest :=
  { request with scope := storedScope scope }

theorem parseStoredRequest_value (record : StoredDocumentCreateRequest) (scope : JsString) :
    parseStoredRequest (some record.value) scope =
      if record.scope = storedScope scope ∧ isUuid record.requestId = true ∧
        validScopeAndDraft scope record.draft = true then
        some { record with scope := storedScope scope }
      else none := by
  obtain ⟨⟨requestId, title, content⟩, stored⟩ := record
  cases title <;> rfl

/-- Storage holds the record of an action's scope, with the request returned last. -/
structure Holds (tab : Tab) (action : CreateAction) (request : PendingDocumentCreateRequest) : Prop where
  stored : tab.stored (requestStorageKey action.scope) = some (recordOf action.scope request).value
  latest : latest action.scope tab.log = some request
  unconfirmed : closed action.scope tab.log = false
  uuid : isUuid request.requestId = true
  valid : validScopeAndDraft action.scope request.draft = true
  draft : isContent action.scope = true → request.draft = action.draft

/-- The page has returned a request of the scope, and storage alone still has it. -/
def Tab.Rests (tab : Tab) (scope : JsString) : Prop :=
  inUse scope tab.log ≠ none ∧ tab.volatilePendingRequests scope = none

structure Sound (tab : Tab) : Prop where
  identity : OneIdentity tab.log
  inMap : ∀ scope record, tab.volatilePendingRequests scope = some record →
    inUse scope tab.log = some record.toPendingDocumentCreateRequest
  inStorage : ∀ key value, tab.stored key = some value →
    ∃ action request, requestStorageKey action.scope = key ∧ Holds tab action request
  backed : ∀ scope, tab.Rests scope → ∃ action request, action.scope = scope ∧ Holds tab action request

section
variable {tab tab' : Tab} {action other : CreateAction} {request : PendingDocumentCreateRequest}
  {record : StoredDocumentCreateRequest} {scope requestId : JsString} {faults : Faults}

theorem Holds.keep (h : Holds tab action request)
    (hs : tab'.stored (requestStorageKey action.scope) = tab.stored (requestStorageKey action.scope))
    (hl : CreateRequest.latest action.scope tab'.log = CreateRequest.latest action.scope tab.log)
    (hc : closed action.scope tab'.log = false) : Holds tab' action request :=
  ⟨hs.trans h.stored, hl.trans h.latest, hc, h.uuid, h.valid, h.draft⟩

theorem Holds.parsed (h : Holds tab action request) :
    tab.parsed action.scope = some (recordOf action.scope request) := by
  rw [Tab.parsed, h.stored, parseStoredRequest_value]
  exact if_pos ⟨rfl, h.uuid, h.valid⟩

theorem Holds.persisted (h : Holds tab other request) (hs : other.scope = action.scope) :
    tab.persisted action = some (recordOf action.scope request) := by
  rw [Tab.persisted, ← hs, h.parsed, Option.filter_some, if_pos]
  cases hc : isContent other.scope with
  | false => rfl
  | true =>
    rw [Bool.not_true, Bool.false_or, decide_eq_true_eq, ← CreateAction.draft_eq hs (hs ▸ hc)]
    exact h.draft hc

theorem Sound.parsed (h : Sound tab) (hp : tab.parsed scope = some record) :
    ∃ action request, Holds tab action request ∧ requestStorageKey action.scope = requestStorageKey scope ∧
      storedScope action.scope = storedScope scope ∧ record = recordOf action.scope request := by
  cases hv : tab.stored (requestStorageKey scope) with
  | none => rw [Tab.parsed, hv] at hp; cases hp
  | some value =>
    obtain ⟨action, request, hkey, hholds⟩ := h.inStorage _ value hv
    rw [Tab.parsed, ← hkey, hholds.stored, parseStoredRequest_value] at hp
    obtain ⟨⟨hstored, -, -⟩, heq⟩ := Option.ite_none_right_eq_some.mp hp
    refine ⟨action, request, hholds, hkey, hstored, ?_⟩
    rw [← Option.some.inj heq, ← show storedScope action.scope = storedScope scope from hstored]
    rfl

theorem Sound.persisted (h : Sound tab) (hp : tab.persisted action = some record) :
    Holds tab action record.toPendingDocumentCreateRequest := by
  obtain ⟨hparsed, hdraft⟩ := Option.filter_eq_some_iff.mp hp
  obtain ⟨other, request, hholds, -, hstored, rfl⟩ := h.parsed hparsed
  have hdraft : isContent action.scope = true → request.draft = action.draft := by
    intro hc
    rw [hc] at hdraft
    exact of_decide_eq_true hdraft
  have hcontent : isContent action.scope = true → isContent other.scope = true := by
    intro hc
    by_contra hn
    rw [storedScope, storedScope, if_neg hn, if_pos hc] at hstored
    rcases other.kinds with ho | ho
    · exact hn (ho ▸ isContent_contentScope _)
    · exact ho.2 hstored
  have hs : other.scope = action.scope :=
    CreateAction.scope_eq hstored fun hc => (hholds.draft (hcontent hc)).symm.trans (hdraft hc)
  exact ⟨hs ▸ hholds.stored, hs ▸ hholds.latest, hs ▸ hholds.unconfirmed, hholds.uuid, hs ▸ hholds.valid, hdraft⟩

/-! ## What a call keeps -/

theorem Sound.returns (h : Sound tab) (hl : latest scope tab.log = some request)
    (hc : closed scope tab.log = false)
    (hb : tab.volatilePendingRequests scope = none → ∃ action, action.scope = scope ∧ Holds tab action request) :
    Sound (tab.returns scope request) := by
  have hlatest : ∀ other, latest other (tab.returns scope request).log = latest other tab.log := by
    intro other
    show (if scope = other then some request else latest other tab.log) = _
    by_cases hs : scope = other
    · rw [if_pos hs, ← hs, hl]
    · rw [if_neg hs]
  have hclosed : ∀ other, closed other tab.log = false → closed other (tab.returns scope request).log = false := by
    intro other hc
    show (_ && closed other tab.log) = false
    rw [hc, Bool.and_false]
  have hkeep : ∀ {action request'}, Holds tab action request' → Holds (tab.returns scope request) action request' :=
    fun hholds => hholds.keep rfl (hlatest _) (hclosed _ hholds.unconfirmed)
  refine ⟨⟨⟨fun other known hk hid => h.identity.apart (latest_returned hl) hk hid, fun known hin => ?_, ?_⟩,
    h.identity⟩, fun other record hv => ?_, fun key value hv => ?_, fun other hrests => ?_⟩
  · exact Option.some.inj (hl.symm.trans (inUse_latest hin).1)
  · intro hclosed
    exact absurd hclosed (by rw [hc]; decide)
  · have hin := h.inMap other record hv
    show (if scope = other then some request else inUse other tab.log) = _
    by_cases hs : scope = other
    · rw [if_pos hs, ← hl, hs, (inUse_latest hin).1]
    · rw [if_neg hs, hin]
  · obtain ⟨action, request', hkey, hholds⟩ := h.inStorage key value hv
    exact ⟨action, request', hkey, hkeep hholds⟩
  · by_cases hs : scope = other
    · obtain ⟨action, haction, hholds⟩ := hb (hs ▸ hrests.2)
      exact ⟨action, request, haction.trans hs, hkeep hholds⟩
    have hin : inUse other tab.log ≠ none := by
      have := hrests.1
      rwa [show inUse other (tab.returns scope request).log =
        if scope = other then some request else inUse other tab.log from rfl, if_neg hs] at this
    obtain ⟨action, request', haction, hholds⟩ := h.backed other ⟨hin, hrests.2⟩
    exact ⟨action, request', haction, hkeep hholds⟩

/-- No other scope with the same key rests on storage. -/
def Tab.Alone (tab : Tab) (scope : JsString) : Prop :=
  ∀ other, other ≠ scope → requestStorageKey other = requestStorageKey scope → ¬ tab.Rests other

theorem Sound.create (h : Sound tab) (hv : tab.volatilePendingRequests action.scope = none)
    (hunused : ∀ other known, .returned other known ∈ tab.log → known.requestId ≠ requestId)
    (huuid : isUuid requestId = true) (hvalid : validScopeAndDraft action.scope action.draft = true)
    (hnew : tab.persisted action ≠ none → inUse action.scope tab.log = none ∧ faults.setItem = false)
    (halone : faults.setItem = false → tab.Alone action.scope) :
    Sound ((tab.create action requestId faults).returns action.scope ⟨requestId, action.draft⟩) := by
  have hnone : inUse action.scope tab.log = none := by
    by_contra hin
    obtain ⟨other, request, hs, hholds⟩ := h.backed action.scope ⟨hin, hv⟩
    exact hin (hnew (by rw [hholds.persisted hs]; exact Option.some_ne_none _)).1
  have hother : ∀ {other : JsString}, other ≠ action.scope → ∀ log : List RequestLog,
      inUse other (.returned action.scope ⟨requestId, action.draft⟩ :: log) = inUse other log ∧
        latest other (.returned action.scope ⟨requestId, action.draft⟩ :: log) = latest other log ∧
          (closed other log = false →
            closed other (.returned action.scope ⟨requestId, action.draft⟩ :: log) = false) := by
    intro other hne log
    refine ⟨if_neg (Ne.symm hne), if_neg (Ne.symm hne), fun hc => ?_⟩
    show (_ && closed other log) = false
    rw [hc, Bool.and_false]
  have hold : ∀ other request, Holds tab other request → (faults.setItem = false →
      requestStorageKey other.scope ≠ requestStorageKey action.scope) →
      Holds ((tab.create action requestId faults).returns action.scope ⟨requestId, action.draft⟩) other request := by
    intro other request hholds hkey
    have hs : other.scope ≠ action.scope := by
      intro hs
      have hset := (hnew (by rw [hholds.persisted hs]; exact Option.some_ne_none _)).2
      exact hkey hset (by rw [hs])
    refine hholds.keep ?_ (hother hs tab.log).2.1 ((hother hs tab.log).2.2 hholds.unconfirmed)
    show (if faults.setItem then tab.stored else _) _ = _
    cases hset : faults.setItem with
    | true => rfl
    | false => exact Function.update_of_ne (hkey hset) _ _
  refine ⟨⟨⟨fun other known hk hid => absurd hid (hunused other known hk), fun known hin => ?_,
    fun _ => hunused⟩, h.identity⟩, fun other record hrecord => ?_, fun key value hvalue => ?_,
    fun other hrests => ?_⟩
  · cases hnone.symm.trans hin
  · replace hrecord : Function.update tab.volatilePendingRequests action.scope
      (some (recordOf action.scope ⟨requestId, action.draft⟩)) other = some record := hrecord
    by_cases hs : other = action.scope
    · rw [hs, Function.update_self] at hrecord
      rw [hs, ← Option.some.inj hrecord]
      exact if_pos rfl
    · rw [Function.update_of_ne hs] at hrecord
      exact (hother hs tab.log).1.trans (h.inMap other record hrecord)
  · replace hvalue : (if faults.setItem then tab.stored else Function.update tab.stored
      (requestStorageKey action.scope) (some (recordOf action.scope ⟨requestId, action.draft⟩).value)) key =
        some value := hvalue
    by_cases hset : faults.setItem = true
    · rw [if_pos hset] at hvalue
      obtain ⟨other, request, hkey, hholds⟩ := h.inStorage key value hvalue
      exact ⟨other, request, hkey, hold other request hholds fun hf => absurd hset (by rw [hf]; decide)⟩
    rw [if_neg hset] at hvalue
    by_cases hkey : key = requestStorageKey action.scope
    · refine ⟨action, ⟨requestId, action.draft⟩, hkey.symm, ?_, if_pos rfl, ?_, huuid, hvalid, fun _ => rfl⟩
      · show (if faults.setItem then tab.stored else Function.update tab.stored _ _) _ = _
        rw [if_neg hset, Function.update_self]
        rfl
      · show (_ && _) = false
        rw [decide_eq_false fun hn => hn rfl, Bool.false_and]
    · rw [Function.update_of_ne hkey] at hvalue
      obtain ⟨other, request, hother, hholds⟩ := h.inStorage key value hvalue
      exact ⟨other, request, hother, hold other request hholds fun _ => hother ▸ hkey⟩
  · obtain ⟨hin, hmap⟩ := hrests
    replace hmap : Function.update tab.volatilePendingRequests action.scope
      (some (recordOf action.scope ⟨requestId, action.draft⟩)) other = none := hmap
    by_cases hs : other = action.scope
    · rw [hs, Function.update_self] at hmap
      cases hmap
    rw [Function.update_of_ne hs] at hmap
    have hrests : tab.Rests other := ⟨fun hn => hin ((hother hs tab.log).1.trans hn), hmap⟩
    obtain ⟨known, request, rfl, hholds⟩ := h.backed other hrests
    exact ⟨known, request, rfl, hold known request hholds fun hset hkey => halone hset known.scope hs hkey hrests⟩

/-- The state in which a call does what it is for, whatever storage does. -/
def Recoverable (tab : Tab) : RequestEvent → Prop
  | .pending action _ faults =>
    validScopeAndDraft action.scope action.draft = true → tab.volatilePendingRequests action.scope = none →
      (faults.getItem = true → tab.persisted action ≠ none →
        inUse action.scope tab.log = none ∧ faults.setItem = false) ∧
      (faults.getItem = true ∨ tab.persisted action = none → faults.setItem = false → tab.Alone action.scope)
  | .confirm scope requestId faults =>
    (tab.parsed scope).any (·.requestId = requestId) = true →
      if (latest scope tab.log).any (·.requestId = requestId) then
        faults.getItem = false ∧ faults.removeItem = false
      else faults.getItem = true ∨ faults.removeItem = true ∨ tab.Alone scope
  | .reload => True

def RequestLog.returnedId : RequestLog → Option JsString
  | .returned _ request => some request.requestId
  | .confirmed _ _ => none
  | .reloaded => none

/-- What `crypto.randomUUID` promises: a UUID that was not drawn before. -/
def Drawn (tab : Tab) : RequestEvent → Prop
  | .pending _ requestId _ => isUuid requestId = true ∧ requestId ∉ tab.log.filterMap (·.returnedId)
  | .confirm _ _ _ => True
  | .reload => True

instance (tab : Tab) : ∀ event, Decidable (Drawn tab event)
  | .pending _ requestId _ =>
    inferInstanceAs (Decidable (isUuid requestId = true ∧ requestId ∉ tab.log.filterMap (·.returnedId)))
  | .confirm _ _ _ => isTrue trivial
  | .reload => isTrue trivial

theorem Sound.pending (h : Sound tab) (hd : Drawn tab (.pending action requestId faults))
    (hr : Recoverable tab (.pending action requestId faults)) :
    Sound (tab.pendingDocumentCreateRequest action requestId faults) := by
  unfold Tab.pendingDocumentCreateRequest
  by_cases hvalid : validScopeAndDraft action.scope action.draft = true
  · rw [hvalid, Bool.not_true, if_neg (by decide)]
    cases hp : if faults.getItem = true then none else tab.persisted action with
    | some record =>
      have hholds := h.persisted (Option.ite_none_left_eq_some.mp hp).2
      exact h.returns hholds.latest hholds.unconfirmed fun _ => ⟨action, rfl, hholds⟩
    | none =>
      cases hv : tab.volatilePendingRequests action.scope with
      | some record =>
        obtain ⟨hl, hc⟩ := inUse_latest (h.inMap _ _ hv)
        exact h.returns hl hc fun hn => absurd (hv.symm.trans hn) (by simp)
      | none =>
        have hmissed : faults.getItem = true ∨ tab.persisted action = none := by
          by_cases hget : faults.getItem = true
          · exact .inl hget
          · rw [if_neg hget] at hp
            exact .inr hp
        simp only [hd.1, Bool.not_true, Bool.false_eq_true, if_false]
        refine h.create hv (fun other known hk heq => ?_) hd.1 hvalid (fun hne => ?_) ((hr hvalid hv).2 hmissed)
        · exact hd.2 (mem_filterMap.mpr ⟨_, hk, congrArg some heq⟩)
        · exact (hr hvalid hv).1 (hmissed.resolve_right hne) hne
  · rw [Bool.not_eq_true] at hvalid
    rw [hvalid]
    exact h

theorem Sound.confirm (h : Sound tab) (hr : Recoverable tab (.confirm scope requestId faults)) :
    Sound (tab.confirmDocumentCreateRequest scope requestId faults) := by
  have hclosed : ∀ other, closed other (.confirmed scope requestId :: tab.log) =
      (closed other tab.log || (scope = other && (latest other tab.log).any (·.requestId = requestId))) :=
    fun _ => rfl
  have hin : ∀ other, inUse other (.confirmed scope requestId :: tab.log) =
      if scope = other then (inUse other tab.log).filter (·.requestId ≠ requestId) else inUse other tab.log :=
    fun _ => rfl
  have hstored : ∀ key value, (tab.confirmDocumentCreateRequest scope requestId faults).stored key = some value →
      tab.stored key = some value := by
    intro key value hvalue
    unfold Tab.confirmDocumentCreateRequest at hvalue
    dsimp only at hvalue
    split at hvalue
    · by_cases hkey : key = requestStorageKey scope
      · rw [hkey, Function.update_self] at hvalue
        cases hvalue
      · rwa [Function.update_of_ne hkey] at hvalue
    · exact hvalue
  have hremoved : faults.getItem = false → (tab.parsed scope).any (·.requestId = requestId) = true →
      faults.removeItem = false →
      (tab.confirmDocumentCreateRequest scope requestId faults).stored (requestStorageKey scope) = none := by
    intro hget hany hremove
    unfold Tab.confirmDocumentCreateRequest
    simp only [hget, hany, hremove, Bool.not_false, Bool.and_true, if_true, Function.update_self]
  refine ⟨⟨trivial, h.identity⟩, fun other record hrecord => ?_, fun key value hvalue => ?_, fun other hrests => ?_⟩
  · have hold : tab.volatilePendingRequests other = some record ∧
        (scope = other → record.requestId ≠ requestId) := by
      unfold Tab.confirmDocumentCreateRequest at hrecord
      dsimp only at hrecord
      split at hrecord
      · by_cases hs : other = scope
        · rw [hs, Function.update_self] at hrecord
          cases hrecord
        · rw [Function.update_of_ne hs] at hrecord
          exact ⟨hrecord, fun heq => absurd heq.symm hs⟩
      · next hany =>
        refine ⟨hrecord, fun hs hid => hany ?_⟩
        rw [hs, hrecord]
        exact decide_eq_true hid
    refine (hin other).trans ?_
    by_cases hs : scope = other
    · rw [if_pos hs, h.inMap other record hold.1, Option.filter_some, if_pos]
      exact decide_eq_true (hold.2 hs)
    · rw [if_neg hs, h.inMap other record hold.1]
  · obtain ⟨action, request, rfl, hholds⟩ := h.inStorage key value (hstored key value hvalue)
    refine ⟨action, request, rfl, hholds.keep (hvalue.trans (hstored _ _ hvalue).symm) rfl ?_⟩
    refine (hclosed action.scope).trans ?_
    rw [hholds.unconfirmed, hholds.latest, Bool.false_or]
    by_contra hconfirmed
    simp only [Option.any_some, Bool.not_eq_false, Bool.and_eq_true, decide_eq_true_eq] at hconfirmed
    obtain ⟨rfl, hid⟩ := hconfirmed
    have hany : (tab.parsed action.scope).any (·.requestId = requestId) = true := by
      rw [hholds.parsed]
      exact decide_eq_true hid
    have hfaults := hr hany
    rw [hholds.latest, Option.any_some, if_pos (decide_eq_true hid)] at hfaults
    rw [hremoved hfaults.1 hany hfaults.2] at hvalue
    cases hvalue
  · obtain ⟨hne, hmap⟩ := hrests
    replace hne : inUse other (.confirmed scope requestId :: tab.log) ≠ none := hne
    rw [hin] at hne
    have hnone : tab.volatilePendingRequests other = none := by
      by_contra hsome
      obtain ⟨record, hrecord⟩ := Option.ne_none_iff_exists'.mp hsome
      unfold Tab.confirmDocumentCreateRequest at hmap
      dsimp only at hmap
      split at hmap
      · next hany =>
        by_cases hs : other = scope
        · rw [← hs, hrecord] at hany
          rw [if_pos hs.symm, h.inMap other record hrecord, Option.filter_some, if_neg] at hne
          · exact hne rfl
          · simpa using hany
        · rw [Function.update_of_ne hs] at hmap
          exact hsome hmap
      · exact hsome hmap
    have hrests : tab.Rests other := by
      refine ⟨fun hn => hne ?_, hnone⟩
      rw [hn]
      split <;> rfl
    obtain ⟨action, request, rfl, hholds⟩ := h.backed other hrests
    have hapart : scope = action.scope → request.requestId ≠ requestId := by
      intro hs hid
      obtain ⟨known, hknown⟩ := Option.ne_none_iff_exists'.mp hrests.1
      have hsame : known = request := Option.some.inj ((inUse_latest hknown).1.symm.trans hholds.latest)
      rw [if_pos hs, hknown, hsame, Option.filter_some, if_neg (by simpa using hid)] at hne
      exact hne rfl
    refine ⟨action, request, rfl, hholds.keep ?_ rfl ?_⟩
    · unfold Tab.confirmDocumentCreateRequest
      dsimp only
      split
      · next hremove =>
        refine Function.update_of_ne (fun hkey => ?_) _ _
        simp only [Bool.and_eq_true, Bool.not_eq_true'] at hremove
        obtain ⟨⟨hget, hany⟩, hremove⟩ := hremove
        obtain ⟨record, hparsed, hid⟩ := (Option.any_eq_true _ _).mp hany
        have hid : request.requestId = requestId := by
          rw [Tab.parsed, ← hkey, hholds.stored, parseStoredRequest_value] at hparsed
          rw [← of_decide_eq_true hid, ← Option.some.inj (Option.ite_none_right_eq_some.mp hparsed).2]
          rfl
        have hs : scope ≠ action.scope := fun hs => hapart hs hid
        have hconfirm := hr hany
        split at hconfirm
        · next hlatest =>
          obtain ⟨known, hknown, hsame⟩ := (Option.any_eq_true _ _).mp hlatest
          exact hs (h.identity.apart (latest_returned hholds.latest) (latest_returned hknown)
            ((of_decide_eq_true hsame).trans hid.symm))
        · rcases hconfirm with hf | hf | halone
          · exact absurd hf (by rw [hget]; decide)
          · exact absurd hf (by rw [hremove]; decide)
          · exact halone action.scope (Ne.symm hs) hkey hrests
      · rfl
    · refine (hclosed action.scope).trans ?_
      rw [hholds.unconfirmed, hholds.latest, Bool.false_or]
      by_contra hconfirmed
      simp only [Option.any_some, Bool.not_eq_false, Bool.and_eq_true, decide_eq_true_eq] at hconfirmed
      exact hapart hconfirmed.1 hconfirmed.2

theorem Sound.reload (h : Sound tab) : Sound tab.reload := by
  refine ⟨⟨trivial, h.identity⟩, fun other record hrecord => ?_, fun key value hvalue => ?_, fun other hrests => ?_⟩
  · cases hrecord
  · obtain ⟨action, request, hkey, hholds⟩ := h.inStorage key value hvalue
    exact ⟨action, request, hkey, hholds.keep rfl rfl hholds.unconfirmed⟩
  · exact absurd rfl hrests.1

end

/-! ## Runs -/

theorem Sound.step {tab : Tab} {event : RequestEvent} (h : Sound tab) (hc : Drawn tab event ∧ Recoverable tab event) :
    Sound (step tab event) := by
  cases event with
  | pending action requestId faults => exact h.pending hc.1 hc.2
  | confirm scope requestId faults => exact h.confirm hc.2
  | reload => exact h.reload

theorem sound_opened : Sound opened := by
  refine ⟨trivial, fun _ _ hrecord => ?_, fun _ _ hvalue => ?_, fun _ hrests => absurd rfl hrests.1⟩
  · cases hrecord
  · cases hvalue

/-- **Create request identity**: where every step is recoverable, each call returns the one identity of its scope. -/
theorem create_requests_identified (events : List RequestEvent)
    (h : Transition.Along step (fun tab event => Drawn tab event ∧ Recoverable tab event) opened events) :
    OneIdentity (Transition.run step opened events).log :=
  (Transition.run_inv (fun _ _ hs hc => Sound.step hs hc) sound_opened h).identity

def firstId : JsString := ofString "11111111-1111-4111-8111-111111111111"
def secondId : JsString := ofString "22222222-2222-4222-8222-222222222222"

def blankPage : CreateAction :=
  ⟨ofString "blank", ⟨none, []⟩, .inl ⟨[], ⟨none, none, none, none⟩, rfl, rfl⟩⟩

/-- A page of which every write is refused is asked twice, and once again behind a reload. -/
theorem blank_page_retried :
    OneIdentity (Transition.run step opened
      [.pending blankPage firstId ⟨false, false, false⟩, .reload,
        .pending blankPage secondId ⟨false, true, true⟩]).log := by
  refine create_requests_identified _ ⟨⟨by decide +kernel, fun _ _ => ⟨fun hget => absurd hget (by decide), ?_⟩⟩, ⟨trivial, trivial⟩,
    ⟨by decide +kernel, fun _ _ => ⟨fun hget => absurd hget (by decide), ?_⟩⟩, trivial⟩
  · exact fun _ _ other _ _ hrests => hrests.1 rfl
  · intro _ hset
    cases hset

/-- The record is not removed when its creation is confirmed, and the next call returns it. -/
theorem confirmed_returned_again :
    ¬ ∀ events, Transition.Along step Drawn opened events →
      OneIdentity (Transition.run step opened events).log := by
  intro h
  have hlog := h [.pending blankPage firstId ⟨false, false, false⟩,
    .confirm blankPage.scope firstId ⟨false, false, true⟩,
    .pending blankPage secondId ⟨false, false, false⟩] ⟨by decide +kernel, trivial, by decide +kernel, trivial⟩
  have hruns : (Transition.run step opened [.pending blankPage firstId ⟨false, false, false⟩,
      .confirm blankPage.scope firstId ⟨false, false, true⟩,
      .pending blankPage secondId ⟨false, false, false⟩]).log =
      [.returned blankPage.scope ⟨firstId, ⟨none, []⟩⟩, .confirmed blankPage.scope firstId,
        .returned blankPage.scope ⟨firstId, ⟨none, []⟩⟩] := by decide +kernel
  rw [hruns] at hlog
  exact hlog.1.fresh (by decide +kernel) blankPage.scope ⟨firstId, ⟨none, []⟩⟩ (by simp) rfl

end Marks.CreateRequest
