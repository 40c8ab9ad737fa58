import Mathlib.Algebra.Ring.Nat
import Mathlib.Data.List.Basic

/-! # Version vectors

A version lists, for each site, the contiguous prefix of sequence numbers received and the sparse
ones above it. The functions below are those the room task runs on versions. -/

namespace Marks

abbrev SiteId := Nat

structure Receipts where
  site : SiteId
  contiguous : Nat
  sparse : List Nat
deriving DecidableEq, Repr

/-- `esbt::clock::Version`, in the order its `receipts()` yields it. -/
structure Version where
  receipts : List Receipts
deriving DecidableEq, Repr

namespace Version

def empty : Version := ⟨[]⟩

def find (v : Version) (site : SiteId) : Option Receipts := v.receipts.find? (·.site == site)

def observed (v : Version) (site : SiteId) : Nat :=
  match v.find site with
  | some r => r.contiguous
  | none => 0

def contains (v : Version) (site : SiteId) (sequence : Nat) : Bool :=
  match v.find site with
  | some r => sequence ≤ r.contiguous || r.sparse.contains sequence
  | none => false

end Version

/-- A run of newly attributed sequence numbers of one site. -/
structure AcceptedRange where
  site : SiteId
  first : Nat
  last : Nat
deriving DecidableEq, Repr

def maxStoredSequence : Nat := 2 ^ 63 - 1

def sequenceFitsStorage (sequence : Nat) : Bool := sequence ≤ maxStoredSequence

def versionFitsStorage (version : Version) : Bool :=
  version.receipts.all fun r => sequenceFitsStorage r.contiguous && r.sparse.all sequenceFitsStorage

def versionHasNewSiteOtherThan (before incoming : Version) (actorSite : SiteId) : Bool :=
  incoming.receipts.any fun r =>
    let introducesReceipt := before.observed r.site < r.contiguous ||
      r.sparse.any fun sequence => !before.contains r.site sequence
    introducesReceipt && r.site != actorSite

def pushAcceptedRange (ranges : List AcceptedRange) (site : SiteId) (first last : Nat) :
    List AcceptedRange :=
  if first = 0 ∨ last < first then ranges
  else
    match ranges.getLast? with
    | some previous =>
      if previous.site = site ∧ previous.last + 1 = first then
        ranges.dropLast ++ [{ previous with last := last }]
      else ranges ++ [⟨site, first, last⟩]
    | none => ranges ++ [⟨site, first, last⟩]

/-- The walk over the sparse sequences already known below a contiguous prefix. -/
def fillGaps (site : SiteId) (contiguous : Nat) :
    List Nat → Nat → List AcceptedRange → Nat × List AcceptedRange
  | [], start, ranges => (start, ranges)
  | known :: rest, start, ranges =>
    if known < start ∨ contiguous < known then fillGaps site contiguous rest start ranges
    else
      fillGaps site contiguous rest (known + 1)
        (if start < known then pushAcceptedRange ranges site start (known - 1) else ranges)

def siteReceiptRanges (before : Version) (ranges : List AcceptedRange) (r : Receipts) :
    List AcceptedRange :=
  let firstMissing := before.observed r.site + 1
  let ranges :=
    if firstMissing ≤ r.contiguous then
      let sparseBefore := match before.find r.site with
        | some known => known.sparse
        | none => []
      let filled := fillGaps r.site r.contiguous sparseBefore firstMissing ranges
      if filled.1 ≤ r.contiguous then
        pushAcceptedRange filled.2 r.site filled.1 r.contiguous
      else filled.2
    else ranges
  r.sparse.foldl (fun ranges sequence =>
    if before.contains r.site sequence then ranges
    else pushAcceptedRange ranges r.site sequence sequence) ranges

/-- `after - before` as ranges, without expanding contiguous prefixes. -/
def newReceiptRanges (before after : Version) : List AcceptedRange :=
  after.receipts.foldl (siteReceiptRanges before) []

end Marks
