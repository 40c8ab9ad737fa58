import Marks.Crc
import Marks.StoredZip
import Marks.ZipFormat

/-! # Stored archives are readable

The table computes the checksum that the generator polynomial defines. What the writer puts into its fields fits, and
the reader of the format gets the entries back. -/

namespace Marks.StoredZip

open List

open Fields (Field)
open SigningClient (encodeText)
open Polynomial

/-! ## The checksum -/

def crcPoly : BitVec 32 := 0xedb88320#32

theorem low_bit_set (crc : UInt32) : crc &&& 1 = 1 ↔ crc.toBitVec.getLsbD 0 = true := by
  have hbit : (crc &&& 1).toBitVec = BitVec.setWidth 32 (BitVec.ofBool (crc.toBitVec.getLsbD 0)) :=
    BitVec.and_one_eq_setWidth_ofBool_getLsbD
  rw [← UInt32.toBitVec_inj, hbit]
  cases crc.toBitVec.getLsbD 0 <;> decide

theorem crcShift_bits (crc : UInt32) : (crcShift crc).toBitVec = Crc.bitStep crcPoly crc.toBitVec := by
  unfold crcShift Crc.bitStep
  by_cases hbit : crc &&& 1 = 1
  · rw [if_pos hbit, if_pos ((low_bit_set crc).mp hbit)]
    rfl
  · rw [if_neg hbit, if_neg (hbit ∘ (low_bit_set crc).mpr)]
    rfl

theorem crcShifts_bits (n : Nat) (crc : UInt32) : (crcShifts n crc).toBitVec = Crc.bits crcPoly n crc.toBitVec := by
  induction n generalizing crc with
  | zero => rfl
  | succ n ih =>
    show (crcShifts n (crcShift crc)).toBitVec = _
    rw [ih, crcShift_bits]
    rfl

theorem crcTable_entry (x : UInt32) :
    crcTable.getD (x &&& 0xff).toNat 0 = crcShifts 8 (x &&& 0xff) := by
  have hlt : (x &&& 0xff).toNat < 256 := by
    rw [UInt32.toNat_and]
    exact Nat.lt_succ_of_le Nat.and_le_right
  unfold crcTable
  rw [getD_eq_getElem?_getD, getElem?_map, getElem?_range hlt]
  show crcShifts 8 (UInt32.ofNat _) = _
  rw [UInt32.ofNat_toNat]

theorem crcByte_update (crc : UInt32) (byte : UInt8) :
    (crcByte crc byte).toBitVec = Crc.update crcPoly crc.toBitVec byte.toBitVec := by
  have hlow : Crc.low 8 (crc.toBitVec ^^^ byte.toBitVec.setWidth 32) =
      ((crc ^^^ byte.toUInt32) &&& 0xff).toBitVec := by
    apply BitVec.eq_of_getLsbD_eq
    intro i hi
    have hmask : (0xff : BitVec 32).getLsbD i = decide (i < 8) := by
      show (255 : Nat).testBit i = _
      exact Nat.testBit_two_pow_sub_one (n := 8) i
    rw [Crc.low_bit, UInt32.toBitVec_and, BitVec.getLsbD_and, Bool.and_comm]
    exact congrArg (_ && ·) hmask.symm
  have hhigh : (crc.toBitVec ^^^ byte.toBitVec.setWidth 32) >>> 8 = crc.toBitVec >>> 8 := by
    apply BitVec.eq_of_getLsbD_eq
    intro i hi
    rw [BitVec.getLsbD_ushiftRight, BitVec.getLsbD_ushiftRight, BitVec.getLsbD_xor, BitVec.getLsbD_setWidth,
      BitVec.getLsbD_of_ge byte.toBitVec (8 + i) (by omega), Bool.and_false, Bool.xor_false]
  unfold Crc.update crcByte
  rw [Crc.bits_table, hlow, hhigh, crcTable_entry, UInt32.toBitVec_xor, crcShifts_bits]
  rfl

theorem crcFold_register (crc : UInt32) (data : Bytes) :
    (data.foldl crcByte crc).toBitVec = Crc.register crcPoly crc.toBitVec (data.map UInt8.toBitVec) := by
  induction data generalizing crc with
  | nil => rfl
  | cons byte data ih =>
    show (data.foldl crcByte (crcByte crc byte)).toBitVec = _
    rw [ih, crcByte_update]
    rfl

/-- CRC-32: the first 32 bits and the remainder complemented, every byte from its lowest bit. -/
noncomputable def crcGenerator : (ZMod 2)[X] :=
  X ^ 32 + X ^ 26 + X ^ 23 + X ^ 22 + X ^ 16 + X ^ 12 + X ^ 11 + X ^ 10 + X ^ 8 + X ^ 7 + X ^ 5 + X ^ 4 + X ^ 2 + X + 1

def IsCrc32 (data : Bytes) (checksum : BitVec 32) : Prop :=
  Crc.toPoly (~~~checksum) = (X ^ (8 * data.length) * Crc.toPoly (BitVec.allOnes 32) +
    X ^ 32 * Crc.messagePoly (data.map UInt8.toBitVec)) %ₘ crcGenerator

theorem generator_eq : Crc.generator crcPoly = crcGenerator := by
  unfold Crc.generator Crc.toPoly crcGenerator
  simp [Finset.sum_range_succ, crcPoly]
  ring

theorem crc32_isCrc32 (data : Bytes) : IsCrc32 data (crc32 data).toBitVec := by
  have hregister : ~~~(crc32 data).toBitVec =
      Crc.register crcPoly (BitVec.allOnes 32) (data.map UInt8.toBitVec) := by
    have hfold := crcFold_register 0xffffffff data
    have hones : (0xffffffff : UInt32).toBitVec = BitVec.allOnes 32 := by decide
    rw [hones] at hfold
    rw [← hfold]
    unfold crc32
    rw [UInt32.toBitVec_xor, hones, BitVec.xor_allOnes, BitVec.not_not]
  unfold IsCrc32
  rw [hregister, Crc.register_remainder crcPoly (by decide), length_map, generator_eq]

/-! ## Writing -/

def entryName (entry : StoredZipEntry) : Bytes := encodeText entry.path

def entryBytes (entry : StoredZipEntry) : Bytes := bytesFor entry.data

def localBytes (entries : List StoredZipEntry) : Nat :=
  (entries.map fun entry => 30 + (entryName entry).length + (entryBytes entry).length).sum

def directoryBytes (entries : List StoredZipEntry) : Nat := (entries.map fun entry => 46 + (entryName entry).length).sum

/-- Every size, length, offset and count of the archive fits its field. -/
structure Recordable (entries : List StoredZipEntry) : Prop where
  count : entries.length < 2 ^ 16
  names : ∀ entry ∈ entries, (entryName entry).length < 2 ^ 16
  sizes : ∀ entry ∈ entries, (entryBytes entry).length < 2 ^ 32
  locals : localBytes entries < 2 ^ 32
  directory : directoryBytes entries < 2 ^ 32

def entryLocal (entry : StoredZipEntry) : List BlobPart :=
  [.block (localHeader (crc32 (entryBytes entry)).toNat (entryBytes entry).length (entryName entry).length),
    .bytes (entryName entry), .bytes (entryBytes entry)]

def entryDirectory (start : Nat) (entry : StoredZipEntry) : List BlobPart :=
  [.block (directoryHeader (crc32 (entryBytes entry)).toNat (entryBytes entry).length (entryName entry).length start),
    .bytes (entryName entry)]

def entryEnd (start : Nat) (entry : StoredZipEntry) : Nat :=
  start + (30 + (entryName entry).length + (entryBytes entry).length)

def directoryParts : Nat → List StoredZipEntry → List BlobPart
  | _, [] => []
  | start, entry :: entries => entryDirectory start entry ++ directoryParts (entryEnd start entry) entries

theorem localBytes_cons (entry : StoredZipEntry) (entries : List StoredZipEntry) :
    localBytes (entry :: entries) = 30 + (entryName entry).length + (entryBytes entry).length + localBytes entries := by
  unfold localBytes
  rw [map_cons, sum_cons]

theorem directoryBytes_cons (entry : StoredZipEntry) (entries : List StoredZipEntry) :
    directoryBytes (entry :: entries) = 46 + (entryName entry).length + directoryBytes entries := by
  unfold directoryBytes
  rw [map_cons, sum_cons]

section
variable {zip built : Building} {entry : StoredZipEntry} {entries : List StoredZipEntry}

theorem safePath_ok {path : JsString} {name : Bytes} (h : safePath path = .ok name) :
    name = encodeText path ∧ name.length < 2 ^ 16 := by
  obtain ⟨-, h⟩ := require_bind h
  obtain ⟨hlength, h⟩ := require_bind h
  cases h
  refine ⟨rfl, ?_⟩
  have hle : ¬ maxU16 < (encodeText path).length := by simpa using hlength
  unfold maxU16 at hle
  omega

theorem addEntry_ok (h : addEntry zip entry = .ok built) :
    (entryName entry).length < 2 ^ 16 ∧ entryEnd zip.offset entry < 2 ^ 32 ∧
      built = ⟨zip.output ++ entryLocal entry, zip.central ++ entryDirectory zip.offset entry, entryEnd zip.offset entry,
        zip.centralBytes + (46 + (entryName entry).length)⟩ := by
  obtain ⟨name, hname, h⟩ := bind_ok h
  obtain ⟨rfl, hlength⟩ := safePath_ok hname
  obtain ⟨hsize, h⟩ := require_bind h
  refine ⟨hlength, ?_, (Except.ok.inj h).symm⟩
  have hle : ¬ maxU32 < (bytesFor entry.data).length ∧
      ¬ maxU32 < zip.offset + 30 + (encodeText entry.path).length + (bytesFor entry.data).length := by
    simpa using hsize
  unfold maxU32 at hle
  unfold entryEnd entryName entryBytes
  omega

theorem addEntries_ok (h : entries.foldlM addEntry zip = .ok built) (hoffset : zip.offset < 2 ^ 32) :
    (∀ entry ∈ entries, (entryName entry).length < 2 ^ 16 ∧ (entryBytes entry).length < 2 ^ 32) ∧
      zip.offset + localBytes entries < 2 ^ 32 ∧
        built = ⟨zip.output ++ entries.flatMap entryLocal, zip.central ++ directoryParts zip.offset entries,
          zip.offset + localBytes entries, zip.centralBytes + directoryBytes entries⟩ := by
  induction entries generalizing zip with
  | nil =>
    cases h
    refine ⟨by simp, by simpa [localBytes] using hoffset, ?_⟩
    simp [localBytes, directoryBytes, directoryParts]
  | cons entry entries ih =>
    rw [foldlM_cons] at h
    obtain ⟨next, hnext, h⟩ := bind_ok h
    obtain ⟨hname, hend, rfl⟩ := addEntry_ok hnext
    obtain ⟨hall, hlocal, rfl⟩ := ih h hend
    rw [localBytes_cons, directoryBytes_cons]
    unfold entryEnd at hend hlocal ⊢
    refine ⟨fun other hother => ?_, by dsimp only at hlocal; omega, ?_⟩
    · rcases mem_cons.mp hother with rfl | hother
      · exact ⟨hname, by omega⟩
      · exact hall other hother
    · simp only [flatMap_cons, append_assoc, directoryParts, entryEnd, Nat.add_assoc]

def archive (entries : List StoredZipEntry) : List BlobPart :=
  entries.flatMap entryLocal ++ directoryParts 0 entries ++
    [.block (endRecord entries.length (directoryBytes entries) (localBytes entries))]

theorem buildStoredZip_ok {parts : List BlobPart} (h : buildStoredZip entries = .ok parts) :
    Recordable entries ∧ parts = archive entries := by
  obtain ⟨hcount, h⟩ := require_bind h
  obtain ⟨zip, hzip, h⟩ := bind_ok h
  obtain ⟨htotal, h⟩ := require_bind h
  obtain ⟨hall, hlocal, rfl⟩ := addEntries_ok hzip (by decide)
  cases h
  have hcount : ¬ maxU16 < entries.length := by simpa using hcount
  have htotal : ¬ maxU32 < localBytes entries + directoryBytes entries := by simpa using htotal
  unfold maxU16 at hcount
  unfold maxU32 at htotal
  refine ⟨⟨by omega, fun entry hentry => (hall entry hentry).1, fun entry hentry => (hall entry hentry).2, by omega,
    by omega⟩, ?_⟩
  simp [archive]

end

/-! ## Fields -/

def PartFits : BlobPart → Prop
  | .block fields => ∀ field ∈ fields, field.Fits
  | .bytes _ => True

def recordOf (start : Nat) (entry : StoredZipEntry) : ZipFormat.DirectoryRecord :=
  ⟨utf8Flag, 0, (crc32 (entryBytes entry)).toNat, (entryBytes entry).length, (entryBytes entry).length, start,
    entryName entry⟩

def memberOf (start : Nat) (entry : StoredZipEntry) : ZipFormat.Member :=
  ⟨entryName entry, entryBytes entry, (crc32 (entryBytes entry)).toNat, (entryBytes entry).length, start⟩

def members : Nat → List StoredZipEntry → List ZipFormat.Member
  | _, [] => []
  | start, entry :: entries => memberOf start entry :: members (entryEnd start entry) entries

def records : Nat → List StoredZipEntry → List ZipFormat.DirectoryRecord
  | _, [] => []
  | start, entry :: entries => recordOf start entry :: records (entryEnd start entry) entries

section
variable {entry : StoredZipEntry} {entries : List StoredZipEntry} {start : Nat}
variable (hname : (entryName entry).length < 2 ^ 16) (hend : entryEnd start entry < 2 ^ 32)

include hname hend in
theorem localHeader_fits : ∀ field ∈ localHeader (crc32 (entryBytes entry)).toNat (entryBytes entry).length
    (entryName entry).length, field.Fits := by
  have hcrc := (crc32 (entryBytes entry)).toNat_lt
  unfold entryEnd at hend
  intro field hfield
  simp only [localHeader, u16, u32, utf8Flag, mem_cons, not_mem_nil, or_false] at hfield
  rcases hfield with rfl | rfl | rfl | rfl | rfl | rfl | rfl | rfl | rfl | rfl | rfl <;> unfold Field.Fits <;> dsimp only <;>
    omega

include hname hend in
theorem directoryHeader_fits : ∀ field ∈ directoryHeader (crc32 (entryBytes entry)).toNat (entryBytes entry).length
    (entryName entry).length start, field.Fits := by
  have hcrc := (crc32 (entryBytes entry)).toNat_lt
  unfold entryEnd at hend
  intro field hfield
  simp only [directoryHeader, u16, u32, utf8Flag, mem_cons, not_mem_nil, or_false] at hfield
  rcases hfield with rfl | rfl | rfl | rfl | rfl | rfl | rfl | rfl | rfl | rfl | rfl | rfl | rfl | rfl | rfl | rfl | rfl <;>
    unfold Field.Fits <;> dsimp only <;> omega

theorem endRecord_fits (h : Recordable entries) : ∀ field ∈ endRecord entries.length (directoryBytes entries)
    (localBytes entries), field.Fits := by
  obtain ⟨hcount, -, -, hlocal, hdirectory⟩ := h
  intro field hfield
  simp only [endRecord, u16, u32, mem_cons, not_mem_nil, or_false] at hfield
  rcases hfield with rfl | rfl | rfl | rfl | rfl | rfl | rfl | rfl <;> unfold Field.Fits <;> dsimp only <;> omega

/-! ## Reading -/

theorem readBytes_append (value rest : Bytes) : ZipFormat.readBytes value.length (value ++ rest) = some (value, rest) := by
  unfold ZipFormat.readBytes
  rw [if_pos (by rw [length_append]; omega), take_left, drop_left]

theorem readBytes_zero (rest : Bytes) : ZipFormat.readBytes 0 rest = some ([], rest) := by
  exact readBytes_append [] rest

include hname hend in
theorem readDirectoryRecord_entry (rest : Bytes) :
    ZipFormat.readDirectoryRecord (blobBytes (entryDirectory start entry) ++ rest) = some (recordOf start entry, rest) := by
  have hbytes : blobBytes (entryDirectory start entry) ++ rest =
      Fields.write (directoryHeader (crc32 (entryBytes entry)).toNat (entryBytes entry).length
        (entryName entry).length start) ++ (entryName entry ++ rest) := by
    simp [blobBytes, entryDirectory, BlobPart.written]
  have hread := Fields.read_write (directoryHeader_fits hname hend) (entryName entry ++ rest)
  simp only [directoryHeader, u16, u32, map_cons, map_nil] at hread
  unfold ZipFormat.readDirectoryRecord
  rw [hbytes]
  simp only [directoryHeader, u16, u32]
  rw [hread]
  simp [readBytes_append, readBytes_zero, guard, recordOf]

include hname hend in
theorem readMember_entry {bytes rest : Bytes} (h : bytes.drop start = blobBytes (entryLocal entry) ++ rest) :
    ZipFormat.readMember bytes (recordOf start entry) = some (memberOf start entry) := by
  have hbytes : blobBytes (entryLocal entry) ++ rest =
      Fields.write (localHeader (crc32 (entryBytes entry)).toNat (entryBytes entry).length (entryName entry).length) ++
        (entryName entry ++ (entryBytes entry ++ rest)) := by
    simp [blobBytes, entryLocal, BlobPart.written]
  have hread := Fields.read_write (localHeader_fits hname hend) (entryName entry ++ (entryBytes entry ++ rest))
  simp only [localHeader, u16, u32, map_cons, map_nil] at hread
  unfold ZipFormat.readMember
  dsimp only [recordOf]
  rw [h, hbytes]
  simp only [localHeader, u16, u32]
  rw [hread]
  simp [readBytes_append, readBytes_zero, guard, memberOf]

end

theorem blobBytes_append (a b : List BlobPart) : blobBytes (a ++ b) = blobBytes a ++ blobBytes b := flatMap_append

theorem localHeader_length (checksum size nameLength : Nat) :
    (Fields.write (localHeader checksum size nameLength)).length = 30 := by
  simp [Fields.write_length, localHeader, u16, u32]

theorem directoryHeader_length (checksum size nameLength offset : Nat) :
    (Fields.write (directoryHeader checksum size nameLength offset)).length = 46 := by
  simp [Fields.write_length, directoryHeader, u16, u32]

theorem entryLocal_length (entry : StoredZipEntry) :
    (blobBytes (entryLocal entry)).length = 30 + (entryName entry).length + (entryBytes entry).length := by
  simp [blobBytes, entryLocal, BlobPart.written, localHeader_length, Nat.add_assoc]

theorem entryDirectory_length (start : Nat) (entry : StoredZipEntry) :
    (blobBytes (entryDirectory start entry)).length = 46 + (entryName entry).length := by
  simp [blobBytes, entryDirectory, BlobPart.written, directoryHeader_length]

theorem locals_length (entries : List StoredZipEntry) :
    (blobBytes (entries.flatMap entryLocal)).length = localBytes entries := by
  induction entries with
  | nil => rfl
  | cons entry entries ih =>
    rw [flatMap_cons, blobBytes_append, length_append, ih, entryLocal_length, localBytes_cons]

theorem directoryParts_length (start : Nat) (entries : List StoredZipEntry) :
    (blobBytes (directoryParts start entries)).length = directoryBytes entries := by
  induction entries generalizing start with
  | nil => rfl
  | cons entry entries ih =>
    have hcons : directoryParts start (entry :: entries) =
        entryDirectory start entry ++ directoryParts (entryEnd start entry) entries := rfl
    rw [hcons, blobBytes_append, length_append, ih, entryDirectory_length, directoryBytes_cons]

theorem entryEnd_le {start : Nat} {entry : StoredZipEntry} {entries : List StoredZipEntry}
    (h : start + localBytes (entry :: entries) < 2 ^ 32) :
    entryEnd start entry + localBytes entries < 2 ^ 32 ∧ entryEnd start entry < 2 ^ 32 := by
  rw [localBytes_cons] at h
  unfold entryEnd
  omega

section
variable {entries : List StoredZipEntry}

theorem readDirectory_entries {start : Nat} (hnames : ∀ entry ∈ entries, (entryName entry).length < 2 ^ 16)
    (hend : start + localBytes entries < 2 ^ 32) (rest : Bytes) :
    ZipFormat.readDirectory entries.length (blobBytes (directoryParts start entries) ++ rest) =
      some (records start entries, rest) := by
  induction entries generalizing start with
  | nil => rfl
  | cons entry entries ih =>
    have hcons : directoryParts start (entry :: entries) =
        entryDirectory start entry ++ directoryParts (entryEnd start entry) entries := rfl
    obtain ⟨hnext, hentry⟩ := entryEnd_le hend
    have hfirst := readDirectoryRecord_entry (hnames entry mem_cons_self) hentry
      (blobBytes (directoryParts (entryEnd start entry) entries) ++ rest)
    have hrest := ih (fun other hother => hnames other (mem_cons_of_mem entry hother)) hnext
    rw [hcons, blobBytes_append, append_assoc]
    show (ZipFormat.readDirectoryRecord _).bind _ = _
    rw [hfirst, Option.bind_some]
    show (ZipFormat.readDirectory _ _).bind _ = _
    rw [hrest]
    rfl

theorem readMembers_entries {bytes front rest : Bytes} (hnames : ∀ entry ∈ entries, (entryName entry).length < 2 ^ 16)
    (hend : front.length + localBytes entries < 2 ^ 32)
    (hbytes : bytes = front ++ (blobBytes (entries.flatMap entryLocal) ++ rest)) :
    (records front.length entries).mapM (ZipFormat.readMember bytes) = some (members front.length entries) := by
  induction entries generalizing front with
  | nil => rfl
  | cons entry entries ih =>
    obtain ⟨hnext, hentry⟩ := entryEnd_le hend
    rw [flatMap_cons, blobBytes_append, append_assoc] at hbytes
    have hfront : (front ++ blobBytes (entryLocal entry)).length = entryEnd front.length entry := by
      rw [length_append, entryLocal_length]
      rfl
    have hrest := ih (fun other hother => hnames other (mem_cons_of_mem entry hother)) (by rw [hfront]; exact hnext)
      (by rw [hbytes, append_assoc])
    have hdrop : bytes.drop front.length = blobBytes (entryLocal entry) ++ (blobBytes (entries.flatMap entryLocal) ++ rest) := by
      rw [hbytes, drop_left]
    have hfirst := readMember_entry (hnames entry mem_cons_self) hentry hdrop
    rw [hfront] at hrest
    show List.mapM _ (recordOf front.length entry :: records (entryEnd front.length entry) entries) = _
    rw [mapM_cons, hfirst, hrest]
    rfl

theorem findSome_zero {α : Type} {f : Nat → Option α} {a : α} {n : Nat} (hn : 0 < n) (h : f 0 = some a) :
    (List.range n).findSome? f = some a := by
  obtain ⟨m, rfl⟩ := Nat.exists_eq_succ_of_ne_zero hn.ne'
  rw [range_succ_eq_map, findSome?_cons, h]

theorem findEnd_archive (h : Recordable entries) (front : Bytes) :
    ZipFormat.findEnd (front ++ Fields.write (endRecord entries.length (directoryBytes entries) (localBytes entries))) =
      some ⟨entries.length, directoryBytes entries, localBytes entries⟩ := by
  have hlength : (Fields.write (endRecord entries.length (directoryBytes entries) (localBytes entries))).length = 22 := by
    simp [Fields.write_length, endRecord, u16, u32]
  have hread := Fields.read_write (endRecord_fits h) []
  rw [append_nil] at hread
  have hend : ZipFormat.endAt (front ++ Fields.write (endRecord entries.length (directoryBytes entries)
      (localBytes entries))) 0 = some ⟨entries.length, directoryBytes entries, localBytes entries⟩ := by
    unfold ZipFormat.endAt
    rw [length_append, hlength, if_neg (by omega), Nat.add_sub_cancel, drop_left]
    simp only [endRecord, u16, u32, map_cons, map_nil] at hread ⊢
    rw [hread]
    simp
  exact findSome_zero (Nat.two_pow_pos 16) hend

theorem readZip_archive (h : Recordable entries) :
    ZipFormat.readZip (blobBytes (archive entries)) = some (members 0 entries) := by
  have hend : blobBytes [.block (endRecord entries.length (directoryBytes entries) (localBytes entries))] =
      Fields.write (endRecord entries.length (directoryBytes entries) (localBytes entries)) := by
    simp [blobBytes, BlobPart.written]
  have hbytes : blobBytes (archive entries) = blobBytes (entries.flatMap entryLocal) ++
      (blobBytes (directoryParts 0 entries) ++
        Fields.write (endRecord entries.length (directoryBytes entries) (localBytes entries))) := by
    unfold archive
    rw [blobBytes_append, blobBytes_append, hend, append_assoc]
  have hfind := findEnd_archive h (blobBytes (entries.flatMap entryLocal) ++ blobBytes (directoryParts 0 entries))
  rw [append_assoc, ← hbytes] at hfind
  have hdirectory := @readDirectory_entries entries 0 h.names (by rw [Nat.zero_add]; exact h.locals)
    (Fields.write (endRecord entries.length (directoryBytes entries) (localBytes entries)))
  have hmembers := @readMembers_entries entries (blobBytes (archive entries)) [] _ h.names
    (by rw [length_nil, Nat.zero_add]; exact h.locals) hbytes
  have hdrop : (blobBytes (archive entries)).drop (localBytes entries) = blobBytes (directoryParts 0 entries) ++
      Fields.write (endRecord entries.length (directoryBytes entries) (localBytes entries)) := by
    rw [hbytes, ← locals_length, drop_left]
  have htotal : (blobBytes (archive entries)).length = localBytes entries + directoryBytes entries +
      (Fields.write (endRecord entries.length (directoryBytes entries) (localBytes entries))).length := by
    rw [hbytes, length_append, length_append, locals_length, directoryParts_length, Nat.add_assoc]
  unfold ZipFormat.readZip
  rw [← hdrop] at hdirectory
  exact Option.bind_eq_some_iff.mpr ⟨_, hfind, Option.bind_eq_some_iff.mpr
    ⟨_, hdirectory, Option.bind_eq_some_iff.mpr ⟨(), if_pos htotal, hmembers⟩⟩⟩

theorem archive_fits (h : Recordable entries) : ∀ part ∈ archive entries, PartFits part := by
  have hdirectory : ∀ (start : Nat) (rest : List StoredZipEntry), (∀ entry ∈ rest, (entryName entry).length < 2 ^ 16) →
      start + localBytes rest < 2 ^ 32 →
        (∀ part ∈ rest.flatMap entryLocal, PartFits part) ∧ ∀ part ∈ directoryParts start rest, PartFits part := by
    intro start rest hnames hend
    induction rest generalizing start with
    | nil => exact ⟨by simp, by simp [directoryParts]⟩
    | cons entry rest ih =>
      obtain ⟨hnext, hentry⟩ := entryEnd_le hend
      obtain ⟨hlocals, hrecords⟩ := ih (entryEnd start entry)
        (fun other hother => hnames other (mem_cons_of_mem entry hother)) hnext
      have hname := hnames entry mem_cons_self
      constructor
      · intro part hpart
        rw [flatMap_cons] at hpart
        rcases mem_append.mp hpart with hpart | hpart
        · simp only [entryLocal, mem_cons, not_mem_nil, or_false] at hpart
          rcases hpart with rfl | rfl | rfl
          · exact localHeader_fits hname hentry
          · trivial
          · trivial
        · exact hlocals part hpart
      · intro part hpart
        rcases mem_append.mp hpart with hpart | hpart
        · simp only [entryDirectory, mem_cons, not_mem_nil, or_false] at hpart
          rcases hpart with rfl | rfl
          · exact directoryHeader_fits hname hentry
          · trivial
        · exact hrecords part hpart
  obtain ⟨hlocals, hrecords⟩ := hdirectory 0 entries h.names (by rw [Nat.zero_add]; exact h.locals)
  intro part hpart
  rcases mem_append.mp hpart with hpart | hpart
  · rcases mem_append.mp hpart with hpart | hpart
    · exact hlocals part hpart
    · exact hrecords part hpart
  · rw [mem_singleton.mp hpart]
    exact endRecord_fits h

end

/-! ## The archive -/

/-- An archive of the entries that the reader of the format gets back. -/
structure ReadableArchive (entries : List StoredZipEntry) (parts : List BlobPart) : Prop where
  members : ZipFormat.readZip (blobBytes parts) = some (members 0 entries)
  last : ZipFormat.findEnd (blobBytes parts) = some ⟨entries.length, directoryBytes entries, localBytes entries⟩
  directory : ∃ rest, (blobBytes parts).drop (localBytes entries) = blobBytes (directoryParts 0 entries) ++ rest ∧
    (blobBytes (directoryParts 0 entries)).length = directoryBytes entries
  checksums : ∀ entry ∈ entries, IsCrc32 (entryBytes entry) (crc32 (entryBytes entry)).toBitVec
  fields : ∀ part ∈ parts, PartFits part

theorem storedZip_readable (entries : List StoredZipEntry) :
    (∀ parts, buildStoredZip entries = .ok parts → ReadableArchive entries parts) ∧
      (¬ Recordable entries → ∃ error, buildStoredZip entries = .error error) := by
  constructor
  · intro parts h
    obtain ⟨hrecordable, rfl⟩ := buildStoredZip_ok h
    refine ⟨readZip_archive hrecordable, ?_, ?_, fun entry _ => crc32_isCrc32 _, archive_fits hrecordable⟩
    · have hfind := findEnd_archive hrecordable
        (blobBytes (entries.flatMap entryLocal) ++ blobBytes (directoryParts 0 entries))
      simpa [archive, blobBytes, BlobPart.written] using hfind
    refine ⟨blobBytes [.block (endRecord entries.length (directoryBytes entries) (localBytes entries))], ?_,
      directoryParts_length 0 entries⟩
    unfold archive
    rw [blobBytes_append, blobBytes_append, append_assoc, ← locals_length, drop_left]
  · intro hnot
    cases hbuild : buildStoredZip entries with
    | error error => exact ⟨error, rfl⟩
    | ok parts => exact absurd (buildStoredZip_ok hbuild).1 hnot

theorem storedZip_letter : ∃ parts, buildStoredZip [⟨[97], .text [104, 105]⟩] = .ok parts ∧
    ReadableArchive [⟨[97], .text [104, 105]⟩] parts :=
  ⟨_, rfl, (storedZip_readable [⟨[97], .text [104, 105]⟩]).1 _ rfl⟩

end Marks.StoredZip
