import Marks.AuthoritySound

/-! # Sites for replicas

A replica that asks for a site is to be given the one it had, if that is still its own, and a new one otherwise. The
route does so unless the site asked for has another authority, or none is left. -/

namespace Marks

namespace AuthorityTables

def registered (db : AuthorityTables) (site : SiteId) : Option SiteAuthority :=
  (db.sites.find? (·.siteId == site)).map (·.authority)

/-- What a replica is to be given for its hint. -/
def Allocated (db : AuthorityTables) (requested : Option SiteId) (authority : SiteAuthority) : Prop :=
  ∃ later site, allocateSite db requested authority = .ok (later, site) ∧
    later.registered site = some authority ∧
    if requested.bind db.registered = some authority then requested = some site ∧ later = db
    else db.registered site = none ∧ 2 ≤ site ∧ site < 2 ^ 32 ∧
      later = { db with sites := db.sites ++ [⟨site, authority⟩] }

end AuthorityTables

section
variable {db : AuthorityTables} {occupied : List SiteId} {requested : Option SiteId} {authority : SiteAuthority}
  {site : SiteId}

theorem registered_none : db.registered site = none ↔ site ∉ db.sites.map (·.siteId) := by
  unfold AuthorityTables.registered
  rw [Option.map_eq_none_iff, List.find?_eq_none, List.mem_map]
  constructor
  · rintro h ⟨row, hrow, hid⟩
    exact h row hrow (beq_iff_eq.mpr hid)
  · intro h row hrow hid
    exact h ⟨row, hrow, beq_iff_eq.mp hid⟩

theorem free_candidate : ∃ site, (List.range' 2 (occupied.length + 1)).find? (fun site => !occupied.contains site) = some site := by
  cases hfound : (List.range' 2 (occupied.length + 1)).find? fun site => !occupied.contains site with
  | some site => exact ⟨site, rfl⟩
  | none =>
    have hall : List.range' 2 (occupied.length + 1) ⊆ occupied := by
      intro site hm
      have hnot := List.find?_eq_none.mp hfound site hm
      simpa using hnot
    have hle := (List.subperm_of_subset List.nodup_range' hall).length_le
    rw [List.length_range'] at hle
    omega

theorem allocateEsbtSite_some (h : allocateEsbtSite occupied = some site) :
    site ∉ occupied ∧ 2 ≤ site ∧ site < 2 ^ 32 := by
  obtain ⟨hfound, hsmall⟩ := Option.filter_eq_some_iff.mp h
  obtain ⟨hfree, hrange, _⟩ := List.find?_range'_eq_some.mp hfound
  exact ⟨by simpa using hfree, (List.mem_range'_1.mp hrange).1, of_decide_eq_true hsmall⟩

theorem allocateEsbtSite_isSome (hlow : 2 ≤ site) (hsmall : site < 2 ^ 32) (hfree : site ∉ occupied) :
    ∃ found, allocateEsbtSite occupied = some found := by
  obtain ⟨found, hfound⟩ := @free_candidate occupied
  obtain ⟨_, _, hlowest⟩ := List.find?_range'_eq_some.mp hfound
  have hle : found ≤ site := by
    rcases Nat.lt_or_ge site found with hlt | hle
    · have htaken := hlowest site hlow hlt
      exact absurd (by simpa using htaken) hfree
    · exact hle
  refine ⟨found, ?_⟩
  unfold allocateEsbtSite
  rw [hfound, Option.filter_some, if_pos (decide_eq_true (Nat.lt_of_le_of_lt hle hsmall))]

theorem registered_requested : requested.bind db.registered =
    (requested.bind fun site => db.sites.find? (·.siteId == site)).map (·.authority) := by
  cases requested <;> rfl

theorem allocateSite_registered {later : AuthorityTables} (h : allocateSite db requested authority = .ok (later, site)) :
    later.registered site = some authority ∧
      if requested.bind db.registered = some authority then requested = some site ∧ later = db
      else db.registered site = none ∧ 2 ≤ site ∧ site < 2 ^ 32 ∧
        later = { db with sites := db.sites ++ [⟨site, authority⟩] } := by
  unfold allocateSite at h
  rw [registered_requested]
  cases hrow : requested.bind fun site => db.sites.find? (·.siteId == site) with
  | some row =>
    rw [hrow] at h
    simp only at h
    split at h
    · rename_i hsame
      cases h
      obtain ⟨asked, hasked, hfind⟩ := Option.bind_eq_some_iff.mp hrow
      have hid : row.siteId = asked := by simpa using List.find?_some hfind
      rw [Option.map_some, hsame, if_pos rfl, hasked, hid]
      refine ⟨?_, rfl, rfl⟩
      unfold AuthorityTables.registered
      rw [hfind, Option.map_some, hsame]
    · cases h
  | none =>
    rw [hrow] at h
    simp only at h
    split at h
    · rename_i free hfree
      cases h
      obtain ⟨hnew, hlow, hsmall⟩ := allocateEsbtSite_some hfree
      have hnone : db.registered site = none := registered_none.mpr hnew
      rw [Option.map_none, if_neg (by simp)]
      refine ⟨?_, hnone, hlow, hsmall, rfl⟩
      unfold AuthorityTables.registered at hnone ⊢
      rw [List.find?_append, Option.map_eq_none_iff.mp hnone]
      simp
    · cases h

/-- The route gives every replica its site or a new one, exactly if the site asked for is not another's, and is its own
or one is left. -/
theorem allocateSite_iff {db : AuthorityTables} {siteId : Option Json} {authority : SiteAuthority} :
    db.Allocated (requestedSite siteId) authority ↔
      (∀ other, (requestedSite siteId).bind db.registered = some other → other = authority) ∧
      ((requestedSite siteId).bind db.registered = some authority ∨
        ∃ free, 2 ≤ free ∧ free < 2 ^ 32 ∧ db.registered free = none) := by
  generalize requestedSite siteId = requested
  constructor
  · rintro ⟨later, site, hallocated, hregistered, hgiven⟩
    by_cases hown : requested.bind db.registered = some authority
    · rw [hown]
      exact ⟨fun other h => (Option.some.inj h).symm, Or.inl rfl⟩
    rw [if_neg hown] at hgiven
    refine ⟨fun other h => ?_, Or.inr ⟨site, hgiven.2.1, hgiven.2.2.1, hgiven.1⟩⟩
    rw [registered_requested] at h
    obtain ⟨row, hrow, hauthority⟩ := Option.map_eq_some_iff.mp h
    unfold allocateSite at hallocated
    rw [hrow] at hallocated
    simp only at hallocated
    split at hallocated
    · rename_i hsame
      exact hauthority.symm.trans hsame
    · cases hallocated
  · rintro ⟨hother, hleft⟩
    have hsome : ∃ later site, allocateSite db requested authority = .ok (later, site) := by
      rw [registered_requested] at hother hleft
      unfold allocateSite
      cases hrow : requested.bind fun site => db.sites.find? (·.siteId == site) with
      | some row =>
        rw [hrow] at hother
        simp only
        rw [if_pos (hother row.authority rfl)]
        exact ⟨_, _, rfl⟩
      | none =>
        rw [hrow] at hleft
        obtain ⟨free, hlow, hsmall, hfree⟩ := hleft.resolve_left (by simp)
        obtain ⟨found, hfound⟩ := allocateEsbtSite_isSome hlow hsmall (registered_none.mp hfree)
        simp only
        rw [hfound]
        exact ⟨_, _, rfl⟩
    obtain ⟨later, site, hallocated⟩ := hsome
    exact ⟨later, site, hallocated, allocateSite_registered hallocated⟩

end

/-! ## A hint from another device -/

/-- A document whose site 2 is of the principal's first device. -/
def twoDevices : AuthorityTables where
  principals := [⟨1, none⟩]
  devices := [⟨1, 1, true, none⟩, ⟨2, 1, true, none⟩]
  sessions := []
  scratches := []
  document := ⟨⟨.principal 1, 1, none⟩, false⟩
  acl := []
  linkGrants := []
  sites := [⟨2, .principal 1 1⟩]
  tickets := []

theorem foreign_hint_refused :
    twoDevices.resolveCallerRole (.principal ⟨1, 1, 2, 1000⟩) = some (some .owner) ∧
      allocateSite twoDevices (requestedSite (some (.string ['2']))) (.principal 1 2) = .error .forbidden ∧
      ¬twoDevices.Allocated (requestedSite (some (.string ['2']))) (.principal 1 2) := by
  have hrefused : allocateSite twoDevices (requestedSite (some (.string ['2']))) (.principal 1 2) = .error .forbidden := rfl
  refine ⟨rfl, hrefused, ?_⟩
  rintro ⟨later, site, hallocated, _⟩
  rw [hrefused] at hallocated
  cases hallocated

end Marks
