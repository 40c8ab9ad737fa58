import Marks.Outbound
import Marks.Prefixes

/-! # Where outbound fetches go

The special-purpose blocks of the address registries, and the IPv6 forms that stand for an IPv4 address. The
classifiers accept no IPv4 address of them, and of the IPv6 addresses those of four blocks only. -/

namespace Marks

/-! ## Blocks -/

def Ipv4Addr.digits (address : Ipv4Addr) : List Nat :=
  [address.a.toNat, address.b.toNat, address.c.toNat, address.d.toNat]

def Ipv6Addr.digits (address : Ipv6Addr) : List Nat :=
  [address.s0.toNat, address.s1.toNat, address.s2.toNat, address.s3.toNat, address.s4.toNat, address.s5.toNat,
    address.s6.toNat, address.s7.toNat]

def Ipv4Addr.In (address network : Ipv4Addr) (length : Nat) : Prop :=
  Prefix.Shares 32 length (Prefix.number 8 address.digits) (Prefix.number 8 network.digits)

def Ipv6Addr.In (address network : Ipv6Addr) (length : Nat) : Prop :=
  Prefix.Shares 128 length (Prefix.number 16 address.digits) (Prefix.number 16 network.digits)

instance (address network : Ipv4Addr) (length : Nat) : Decidable (address.In network length) := by
  unfold Ipv4Addr.In
  infer_instance

instance (address network : Ipv6Addr) (length : Nat) : Decidable (address.In network length) := by
  unfold Ipv6Addr.In
  infer_instance

inductive Purpose where
  | loopback
  | unspecified
  | private_
  | shared
  | linkLocal
  | siteLocal
  | uniqueLocal
  | multicast
  | reserved
  | benchmarking
  | documentation
deriving DecidableEq, Repr

def ipv4Registry : List (Purpose × Ipv4Addr × Nat) :=
  [(.unspecified, ⟨0, 0, 0, 0⟩, 8), (.loopback, ⟨127, 0, 0, 0⟩, 8), (.private_, ⟨10, 0, 0, 0⟩, 8),
    (.private_, ⟨172, 16, 0, 0⟩, 12), (.private_, ⟨192, 168, 0, 0⟩, 16), (.shared, ⟨100, 64, 0, 0⟩, 10),
    (.linkLocal, ⟨169, 254, 0, 0⟩, 16), (.multicast, ⟨224, 0, 0, 0⟩, 4), (.reserved, ⟨240, 0, 0, 0⟩, 4),
    (.reserved, ⟨192, 0, 0, 0⟩, 24), (.benchmarking, ⟨198, 18, 0, 0⟩, 15), (.documentation, ⟨192, 0, 2, 0⟩, 24),
    (.documentation, ⟨198, 51, 100, 0⟩, 24), (.documentation, ⟨203, 0, 113, 0⟩, 24)]

def siteLocal : Ipv6Addr := ⟨0xfec0, 0, 0, 0, 0, 0, 0, 0⟩
def benchmarking : Ipv6Addr := ⟨0x2001, 2, 0, 0, 0, 0, 0, 0⟩
def documentation : Ipv6Addr := ⟨0x3fff, 0, 0, 0, 0, 0, 0, 0⟩

def ipv6Registry : List (Purpose × Ipv6Addr × Nat) :=
  [(.unspecified, ⟨0, 0, 0, 0, 0, 0, 0, 0⟩, 128), (.loopback, ⟨0, 0, 0, 0, 0, 0, 0, 1⟩, 128),
    (.uniqueLocal, ⟨0xfc00, 0, 0, 0, 0, 0, 0, 0⟩, 7), (.linkLocal, ⟨0xfe80, 0, 0, 0, 0, 0, 0, 0⟩, 10),
    (.siteLocal, siteLocal, 10), (.multicast, ⟨0xff00, 0, 0, 0, 0, 0, 0, 0⟩, 8),
    (.reserved, ⟨0x0100, 0, 0, 0, 0, 0, 0, 0⟩, 64), (.benchmarking, benchmarking, 48),
    (.documentation, ⟨0x2001, 0x0db8, 0, 0, 0, 0, 0, 0⟩, 32), (.documentation, documentation, 20)]

def Ipv4Addr.Special (address : Ipv4Addr) : Prop := ∃ entry ∈ ipv4Registry, address.In entry.2.1 entry.2.2

def Ipv6Addr.Special (address : Ipv6Addr) : Prop := ∃ entry ∈ ipv6Registry, address.In entry.2.1 entry.2.2

namespace Ipv6Addr
variable (address : Ipv6Addr)

def translatedPrefix : Ipv6Addr := ⟨0, 0, 0, 0, 0xffff, 0, 0, 0⟩

def lastBits : List (Ipv6Addr × Nat) :=
  [(⟨0, 0, 0, 0, 0, 0, 0, 0⟩, 96), (⟨0, 0, 0, 0, 0, 0xffff, 0, 0⟩, 96), (translatedPrefix, 96),
    (⟨0x64, 0xff9b, 0, 0, 0, 0, 0, 0⟩, 96), (⟨0x64, 0xff9b, 1, 0, 0, 0, 0, 0⟩, 48)]

/-- The address embeds `v4` or translates to it: in its last bits, behind the prefix of 6to4, or as the server
or the obscured client of Teredo. -/
def Embeds (v4 : Ipv4Addr) : Prop :=
  (∃ entry ∈ lastBits, address.In entry.1 entry.2 ∧ v4 = .ofSegments address.s6 address.s7) ∨
    (address.In ⟨0x2002, 0, 0, 0, 0, 0, 0, 0⟩ 16 ∧ v4 = .ofSegments address.s1 address.s2) ∨
    address.In ⟨0x2001, 0, 0, 0, 0, 0, 0, 0⟩ 32 ∧
      (v4 = .ofSegments address.s2 address.s3 ∨ v4 = .ofSegments (~~~address.s6) (~~~address.s7))

def Missed : Prop :=
  address.In siteLocal 10 ∨ address.In benchmarking 48 ∨ address.In documentation 20 ∨
    address.In translatedPrefix 96 ∧ (Ipv4Addr.ofSegments address.s6 address.s7).Special

end Ipv6Addr

def IpAddr.Internal : IpAddr → Prop
  | .v4 address => address.Special
  | .v6 address => address.Special ∨ ∃ v4, address.Embeds v4 ∧ v4.Special

def IpAddr.Missed : IpAddr → Prop
  | .v4 _ => False
  | .v6 address => address.Missed

/-! ## The IPv4 classifier -/

section
open Prefix
variable {length : Nat}

theorem Ipv4Addr.in_iff {address network : Ipv4Addr} (h : length ≤ 32) :
    address.In network length ↔ SharesDigits 8 length address.digits network.digits := by
  have hdigits : ∀ a : Ipv4Addr, ∀ digit ∈ a.digits, digit < 2 ^ 8 := by
    intro a digit hm
    simp only [Ipv4Addr.digits, List.mem_cons, List.not_mem_nil, or_false] at hm
    rcases hm with rfl | rfl | rfl | rfl <;> exact UInt8.toNat_lt _
  exact @shares_number 8 address.digits network.digits (hdigits _) (hdigits _) rfl length h

theorem Ipv6Addr.in_iff {address network : Ipv6Addr} (h : length ≤ 128) :
    address.In network length ↔ SharesDigits 16 length address.digits network.digits := by
  have hdigits : ∀ a : Ipv6Addr, ∀ digit ∈ a.digits, digit < 2 ^ 16 := by
    intro a digit hm
    simp only [Ipv6Addr.digits, List.mem_cons, List.not_mem_nil, or_false] at hm
    rcases hm with rfl | rfl | rfl | rfl | rfl | rfl | rfl | rfl <;> exact UInt16.toNat_lt _
  exact @shares_number 16 address.digits network.digits (hdigits _) (hdigits _) rfl length h

end

theorem publicIpv4_not_special {address : Ipv4Addr} (h : publicIpv4 address = true) : ¬address.Special := by
  unfold publicIpv4 Ipv4Addr.isPrivate Ipv4Addr.isLoopback Ipv4Addr.isLinkLocal Ipv4Addr.isMulticast at h
  simp only [Bool.not_eq_true', Bool.or_eq_false_iff, Bool.and_eq_false_iff, beq_eq_false_iff_ne, ne_eq,
    decide_eq_false_iff_not, UInt8.le_iff_toNat_le, ← UInt8.toNat_inj, UInt8.reduceToNat] at h
  rintro ⟨entry, hm, hin⟩
  simp only [ipv4Registry, List.mem_cons, List.not_mem_nil, or_false] at hm
  rcases hm with rfl | rfl | rfl | rfl | rfl | rfl | rfl | rfl | rfl | rfl | rfl | rfl | rfl | rfl
  all_goals
    rw [Ipv4Addr.in_iff (by decide)] at hin
    simp only [Prefix.SharesDigits, Ipv4Addr.digits, Prefix.Shares, UInt8.reduceToNat, Nat.reduceLeDiff, Nat.reduceSub,
      if_true, if_false, Nat.pow_zero, Nat.div_one, Nat.reducePow, Nat.reduceDiv,
      Nat.div_eq_iff (show 0 < 16 by decide), Nat.div_eq_iff (show 0 < 64 by decide),
      Nat.div_eq_iff (show 0 < 2 by decide), Nat.reduceMul, Nat.reduceAdd] at hin
    simp [hin] at h
  omega

/-! ## The IPv6 classifier -/

theorem mask_iff {segment base : UInt16} {k : Nat} (hk : k ≤ 16) {mask : UInt16}
    (hmask : mask.toNat = 2 ^ 16 - 2 ^ k) (hbase : 2 ^ k ∣ base.toNat) :
    segment &&& mask = base ↔ segment.toNat / 2 ^ k = base.toNat / 2 ^ k := by
  rw [← UInt16.toNat_inj, UInt16.toNat_and, hmask]
  exact Prefix.mask_eq_iff hk segment.toNat_lt hbase

theorem publicIpv6_of_ne {address : Ipv6Addr} (h : publicIpv6 address = true) (h0 : address.s0.toNat ≠ 0) :
    address.s0.toNat / 2 ^ 8 ≠ 0xff ∧ address.s0.toNat / 2 ^ 9 ≠ 0x7e ∧ address.s0.toNat / 2 ^ 6 ≠ 0x3fa ∧
      (address.s0.toNat = 0x0100 → address.s1.toNat ≠ 0) ∧ (address.s0.toNat = 0x64 → address.s1.toNat ≠ 0xff9b) ∧
      (address.s0.toNat = 0x2001 → address.s1.toNat ≠ 0 ∧ address.s1.toNat ≠ 0x0db8) ∧
      address.s0.toNat ≠ 0x2002 := by
  have hnone : address.toIpv4 = none := by
    unfold Ipv6Addr.toIpv4
    rw [if_neg]
    rintro ⟨hs, _⟩
    exact h0 (congrArg UInt16.toNat hs)
  unfold publicIpv6 Ipv6Addr.isMulticast at h
  rw [hnone] at h
  have hmulti := @mask_iff address.s0 0xff00 8 (by decide) 0xff00 rfl ⟨0xff, rfl⟩
  have hunique := @mask_iff address.s0 0xfc00 9 (by decide) 0xfe00 rfl ⟨0x7e, rfl⟩
  have hlink := @mask_iff address.s0 0xfe80 6 (by decide) 0xffc0 rfl ⟨0x3fa, rfl⟩
  simp only [Bool.not_eq_true', Bool.or_eq_false_iff, Bool.and_eq_false_iff, beq_eq_false_iff_ne, ne_eq, hmulti, hunique,
    hlink, ← UInt16.toNat_inj, UInt16.reduceToNat] at h
  obtain ⟨⟨⟨⟨⟨⟨⟨⟨⟨_, hmulti⟩, hunique⟩, hlink⟩, hdiscard⟩, hnat⟩, hteredo⟩, _⟩, hdoc⟩, hsix⟩ := h
  exact ⟨hmulti, hunique, hlink, fun hs => hdiscard.resolve_left (not_not.mpr hs), fun hs => hnat.resolve_left (not_not.mpr hs),
    fun hs => ⟨hteredo.resolve_left (not_not.mpr hs), hdoc.resolve_left (not_not.mpr hs)⟩, hsix⟩

theorem publicIpv6_of_toIpv4 {address : Ipv6Addr} (h : publicIpv6 address = true)
    (hzero : address.s0.toNat = 0 ∧ address.s1.toNat = 0 ∧ address.s2.toNat = 0 ∧ address.s3.toNat = 0 ∧
      address.s4.toNat = 0 ∧ (address.s5.toNat = 0 ∨ address.s5.toNat = 0xffff)) :
    ¬(Ipv4Addr.ofSegments address.s6 address.s7).Special := by
  have hsome : address.toIpv4 = some (.ofSegments address.s6 address.s7) := by
    unfold Ipv6Addr.toIpv4
    rw [if_pos]
    simp only [← UInt16.toNat_inj]
    exact hzero
  unfold publicIpv6 at h
  rw [hsome] at h
  exact publicIpv4_not_special h

theorem publicIpv6_special {address : Ipv6Addr} (h : publicIpv6 address = true) (hs : address.Special) :
    address.Missed := by
  obtain ⟨entry, hm, hin⟩ := hs
  simp only [ipv6Registry, List.mem_cons, List.not_mem_nil, or_false] at hm
  rcases hm with rfl | rfl | rfl | rfl | rfl | rfl | rfl | rfl | rfl | rfl
  all_goals
    have hbits := (Ipv6Addr.in_iff (by decide)).mp hin
    simp only [Prefix.SharesDigits, Ipv6Addr.digits, Prefix.Shares, UInt16.reduceToNat, Nat.reduceLeDiff, Nat.reduceSub,
      if_true, if_false, Nat.pow_zero, Nat.div_one] at hbits
  · have hzero : address = ⟨0, 0, 0, 0, 0, 0, 0, 0⟩ := by
      simp only [Ipv6Addr.ext_iff, ← UInt16.toNat_inj]
      exact hbits
    rw [hzero] at h
    cases h
  · have hone : address = ⟨0, 0, 0, 0, 0, 0, 0, 1⟩ := by
      simp only [Ipv6Addr.ext_iff, ← UInt16.toNat_inj]
      exact hbits
    rw [hone] at h
    cases h
  · exact absurd hbits (publicIpv6_of_ne h (by omega)).2.1
  · exact absurd hbits (publicIpv6_of_ne h (by omega)).2.2.1
  · exact .inl hin
  · exact absurd hbits (publicIpv6_of_ne h (by omega)).1
  · exact absurd hbits.2.1 ((publicIpv6_of_ne h (by omega)).2.2.2.1 hbits.1)
  · exact .inr (.inl hin)
  · exact absurd hbits.2 ((publicIpv6_of_ne h (by omega)).2.2.2.2.2.1 hbits.1).2
  · exact .inr (.inr (.inl hin))

theorem publicIpv6_embeds {address : Ipv6Addr} {v4 : Ipv4Addr} (h : publicIpv6 address = true)
    (he : address.Embeds v4) (hs : v4.Special) : address.Missed := by
  rcases he with ⟨entry, hm, hin, rfl⟩ | ⟨hin, _⟩ | ⟨hin, _⟩
  · simp only [Ipv6Addr.lastBits, List.mem_cons, List.not_mem_nil, or_false] at hm
    rcases hm with rfl | rfl | rfl | rfl | rfl
    all_goals
      have hbits := (Ipv6Addr.in_iff (by decide)).mp hin
      simp only [Prefix.SharesDigits, Ipv6Addr.digits, Prefix.Shares, UInt16.reduceToNat, Nat.reduceLeDiff,
        Nat.reduceSub, if_true, if_false, Nat.pow_zero, Nat.div_one] at hbits
    · obtain ⟨h0, h1, h2, h3, h4, h5⟩ := hbits
      exact absurd hs (publicIpv6_of_toIpv4 h ⟨h0, h1, h2, h3, h4, .inl h5⟩)
    · obtain ⟨h0, h1, h2, h3, h4, h5⟩ := hbits
      exact absurd hs (publicIpv6_of_toIpv4 h ⟨h0, h1, h2, h3, h4, .inr h5⟩)
    · exact .inr (.inr (.inr ⟨hin, hs⟩))
    · exact absurd hbits.2.1 ((publicIpv6_of_ne h (by omega)).2.2.2.2.1 hbits.1)
    · exact absurd hbits.2.1 ((publicIpv6_of_ne h (by omega)).2.2.2.2.1 hbits.1)
  all_goals
    have hbits := (Ipv6Addr.in_iff (by decide)).mp hin
    simp only [Prefix.SharesDigits, Ipv6Addr.digits, Prefix.Shares, UInt16.reduceToNat, Nat.reduceLeDiff,
      Nat.reduceSub, if_true, if_false, Nat.pow_zero, Nat.div_one] at hbits
  · exact absurd hbits (publicIpv6_of_ne h (by omega)).2.2.2.2.2.2
  · exact absurd hbits.2 ((publicIpv6_of_ne h (by omega)).2.2.2.2.2.1 hbits.1).1

theorem publicIp_internal_iff {address : IpAddr} (h : publicIp address = true) : address.Internal ↔ address.Missed := by
  cases address with
  | v4 address => exact ⟨fun hs => absurd hs (publicIpv4_not_special h), fun hm => hm.elim⟩
  | v6 address =>
    constructor
    · rintro (hs | ⟨v4, he, hs⟩)
      · exact publicIpv6_special h hs
      · exact publicIpv6_embeds h he hs
    rintro (hin | hin | hin | ⟨hin, hs⟩)
    · exact .inl ⟨(.siteLocal, siteLocal, 10), by decide, hin⟩
    · exact .inl ⟨(.benchmarking, benchmarking, 48), by decide, hin⟩
    · exact .inl ⟨(.documentation, documentation, 20), by decide, hin⟩
    · exact .inr ⟨_, .inl ⟨(Ipv6Addr.translatedPrefix, 96), by decide, hin, rfl⟩, hs⟩

/-! ## The connections -/

def Connection.target (connection : Connection) : Option IpAddr :=
  connection.url.hostStr.bind fun host =>
    (literalIp host).or ((connection.answers.bind (·.find? fun address => publicIp address.ip)).map (·.ip))

namespace Network

/-- What the HTTP client promises: it connects to the literal of the host, or to the address it is pinned to. -/
structure Lawful (net : Network) : Prop where
  literal : ∀ turn client url host ip, url.hostStr = some host → literalIp host = some ip →
    (net.connect turn client url).ip = ip
  pinned : ∀ turn url host address, url.hostStr = some host → literalIp host = none →
    (net.connect turn ⟨some (host, address)⟩ url).ip = address.ip

def Pinned (fetches : Fetches) : Prop :=
  ∀ connection ∈ fetches.connections, publicIp connection.address.ip = true ∧
    connection.target = some connection.address.ip

section
variable {net : Network}

variable {url : Url}

theorem pinnedClient_target (h : net.Lawful) {turn : Nat} {client : HttpClient}
    {answers : Option (List SocketAddr)} (hc : net.pinnedClient turn url = .ok (client, answers)) :
    publicIp (net.connect turn client url).ip = true ∧
      Connection.target ⟨url, answers, net.connect turn client url⟩ = some (net.connect turn client url).ip := by
  unfold pinnedClient at hc
  unfold Connection.target
  cases hhost : url.hostStr with
  | none =>
    rw [hhost] at hc
    cases hc
  | some host =>
    rw [hhost] at hc
    split at hc
    · rename_i host' port heq _
      cases heq
      cases hl : literalIp host with
      | some ip =>
        rw [hl] at hc
        have hip := h.literal turn client url host ip hhost hl
        simp only at hc
        split at hc
        · rename_i hpub
          rw [hip, Option.bind_some, hl]
          exact ⟨hpub, rfl⟩
        · cases hc
      | none =>
        rw [hl] at hc
        simp only at hc
        split at hc
        · cases hc
        rename_i addresses _
        split at hc
        · cases hc
        rename_i address hf
        split at hc
        · cases hc
          have hip := h.pinned turn url host address hhost hl
          rw [hip, Option.bind_some, hl, Option.none_or, Option.bind_some, hf]
          have hpub := List.find?_some hf
          exact ⟨hpub, rfl⟩
        · cases hc
    · cases hc

variable {fetches : Fetches}

theorem pinnedRequest_pinned (h : net.Lawful) {method : Method} (hp : Pinned fetches) :
    Pinned (net.pinnedRequest fetches method url).1 := by
  unfold pinnedRequest
  simp only
  split
  · exact hp
  rename_i client answers hc
  intro connection hm
  rcases List.mem_append.mp hm with hm | hm
  · exact hp connection hm
  · rw [List.mem_singleton.mp hm]
    exact pinnedClient_target h hc

theorem checkHop_pinned (h : net.Lawful) (hp : Pinned fetches) :
    Pinned (net.checkHop fetches url).1 := by
  have hhead : Pinned (net.pinnedRequest fetches .head url).1 := pinnedRequest_pinned h hp
  unfold checkHop
  split
  · rename_i hr
    rw [hr] at hhead
    exact hhead
  rename_i hr
  rw [hr] at hhead
  split
  · exact pinnedRequest_pinned h hhead
  · exact hhead

theorem followHops_pinned (h : net.Lawful) {left : Nat} {redirected : Bool}
    (hp : Pinned fetches) : Pinned (net.followHops left fetches url redirected).1 := by
  induction left generalizing fetches url redirected with
  | zero =>
    have hhop : Pinned (net.checkHop fetches url).1 := checkHop_pinned h hp
    rw [followHops]
    split
    · rename_i hr
      rw [hr] at hhop
      exact hhop
    · rename_i hr
      rw [hr] at hhop
      split <;> exact hhop
  | succ left ih =>
    have hhop : Pinned (net.checkHop fetches url).1 := checkHop_pinned h hp
    rw [followHops]
    split
    · rename_i hr
      rw [hr] at hhop
      exact hhop
    rename_i hr
    rw [hr] at hhop
    split
    · exact hhop
    simp only
    split
    · exact hhop
    split
    · exact hhop
    · split
      · exact hhop
      · exact ih hhop

variable {raw : String}

theorem followUrl_pinned (h : net.Lawful) : Pinned (net.followUrl raw).1 := by
  unfold followUrl
  split
  · exact fun _ hm => (by cases hm)
  · exact followHops_pinned h fun _ hm => (by cases hm)

theorem importHops_pinned (h : net.Lawful) {left : Nat} (hp : Pinned fetches) :
    Pinned (net.importHops left fetches url).1 := by
  induction left generalizing fetches url with
  | zero =>
    have hget : Pinned (net.pinnedRequest fetches .get url).1 := pinnedRequest_pinned h hp
    rw [importHops]
    split
    · rename_i hr
      rw [hr] at hget
      exact hget
    · rename_i hr
      rw [hr] at hget
      split <;> exact hget
  | succ left ih =>
    have hget : Pinned (net.pinnedRequest fetches .get url).1 := pinnedRequest_pinned h hp
    rw [importHops]
    split
    · rename_i hr
      rw [hr] at hget
      exact hget
    rename_i hr
    rw [hr] at hget
    split
    · exact hget
    simp only
    split
    · exact hget
    split
    · exact hget
    · split
      · exact hget
      · exact ih hget

theorem importUrl_pinned (h : net.Lawful) : Pinned (net.importUrl raw).1 := by
  unfold importUrl
  cases net.parsePublicUrl (trim raw) with
  | error e => exact fun _ hm => (by cases hm)
  | ok url =>
    have hhops : Pinned (net.importHops maxUrlRedirects .start url).1 :=
      importHops_pinned h fun _ hm => (by cases hm)
    simp only
    split
    · rename_i hr
      rw [hr] at hhops
      exact hhops
    · rename_i hr
      rw [hr] at hhops
      split <;> exact hhops

theorem checkUrl_connections {checkedAt : Millis} :
    (net.checkUrl raw checkedAt).1 = (net.followUrl raw).1 := by
  unfold checkUrl
  split <;> rename_i hr <;> rw [hr]

theorem Pinned.public_iff (h : Pinned fetches) :
    (∀ connection ∈ fetches.connections, ¬connection.address.ip.Internal) ↔
      ∀ connection ∈ fetches.connections, ∀ ip ∈ connection.target, ¬ip.Missed := by
  refine forall₂_congr fun connection hm => ?_
  obtain ⟨hpub, htarget⟩ := h connection hm
  rw [publicIp_internal_iff hpub, htarget]
  exact ⟨fun hn ip hip => Option.mem_some.mp hip ▸ hn, fun hall => hall _ rfl⟩

end

/-! ## A site-local literal -/

def ofHosts (hosts : List (String × String)) (lookup : Nat → String → Nat → Option (List SocketAddr))
    (respond : Nat → HttpClient → Method → Url → Option HttpResponse) : Network where
  parse raw := (hosts.lookup raw).map fun host => ⟨"http", "", none, some host, none, "/", none⟩
  join _ location := (hosts.lookup location).map fun host => ⟨"http", "", none, some host, none, "/", none⟩
  asStr url := "http://" ++ url.hostStr.getD "" ++ "/"
  lookup
  builds _ := true
  connect _ client url :=
    match url.hostStr.bind literalIp with
    | some ip => ⟨ip, 80⟩
    | none => (client.resolve.map (·.2)).getD ⟨.v4 ⟨0, 0, 0, 0⟩, 80⟩
  respond

theorem ofHosts_lawful {hosts : List (String × String)} {lookup : Nat → String → Nat → Option (List SocketAddr)}
    {respond : Nat → HttpClient → Method → Url → Option HttpResponse} : (ofHosts hosts lookup respond).Lawful where
  literal turn client url host ip hhost hl := by
    simp only [ofHosts, hhost, Option.bind_some, hl]
  pinned turn url host address hhost hl := by
    simp only [ofHosts, hhost, Option.bind_some, hl, Option.map_some, Option.getD_some]

def siteNetwork : Network :=
  ofHosts [("http://[fec0::1]/", "[fec0::1]")] (fun _ _ _ => none) fun _ _ _ _ => some ⟨200, none⟩

def redirectingNetwork : Network :=
  ofHosts [("http://example.org/", "example.org"), ("http://1.1.1.1/", "1.1.1.1")]
    (fun _ _ port => some [⟨.v4 ⟨10, 0, 0, 1⟩, port⟩, ⟨.v4 ⟨93, 184, 216, 34⟩, port⟩])
    fun turn _ _ _ => some (if turn = 0 then ⟨302, some "http://1.1.1.1/"⟩ else ⟨200, none⟩)

end Network

end Marks
