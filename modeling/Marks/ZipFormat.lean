import Marks.Fields

/-! # Archives in the ZIP format

A reader of archives: the end record is searched from the end of the file, the directory is read where it says, and
every member where the directory says. -/

namespace ZipFormat

abbrev Bytes := List UInt8

def readBytes (length : Nat) (bytes : Bytes) : Option (Bytes × Bytes) :=
  if length ≤ bytes.length then some (bytes.take length, bytes.drop length) else none

structure EndRecord where
  count : Nat
  centralBytes : Nat
  centralOffset : Nat
deriving DecidableEq, Repr

/-- The end record, in front of a comment of so many bytes. -/
def endAt (bytes : Bytes) (comment : Nat) : Option EndRecord :=
  if bytes.length < 22 + comment then none
  else
    match Fields.read [4, 2, 2, 2, 2, 4, 4, 2] (bytes.drop (bytes.length - (22 + comment))) with
    | some ([signature, disk, centralDisk, here, count, centralBytes, centralOffset, length], _) =>
      if signature = 0x0605_4b50 ∧ disk = 0 ∧ centralDisk = 0 ∧ here = count ∧ length = comment then
        some ⟨count, centralBytes, centralOffset⟩
      else none
    | _ => none

def findEnd (bytes : Bytes) : Option EndRecord := (List.range (2 ^ 16)).findSome? (endAt bytes)

structure DirectoryRecord where
  flags : Nat
  method : Nat
  checksum : Nat
  compressed : Nat
  size : Nat
  offset : Nat
  name : Bytes
deriving DecidableEq, Repr

def readDirectoryRecord (bytes : Bytes) : Option (DirectoryRecord × Bytes) :=
  match Fields.read [4, 2, 2, 2, 2, 2, 2, 4, 4, 4, 2, 2, 2, 2, 2, 4, 4] bytes with
  | some ([signature, _, _, flags, method, _, _, checksum, compressed, size, nameLength, extra, comment, _, _, _, offset],
      rest) => do
    guard (signature = 0x0201_4b50)
    let (name, rest) ← readBytes nameLength rest
    let (_, rest) ← readBytes (extra + comment) rest
    some (⟨flags, method, checksum, compressed, size, offset, name⟩, rest)
  | _ => none

def readDirectory : Nat → Bytes → Option (List DirectoryRecord × Bytes)
  | 0, bytes => some ([], bytes)
  | count + 1, bytes => do
    let (record, rest) ← readDirectoryRecord bytes
    let (records, rest) ← readDirectory count rest
    some (record :: records, rest)

structure Member where
  name : Bytes
  bytes : Bytes
  checksum : Nat
  size : Nat
  offset : Nat
deriving DecidableEq, Repr

/-- The member a directory record is about. Its own header has to say the same. -/
def readMember (bytes : Bytes) (record : DirectoryRecord) : Option Member :=
  match Fields.read [4, 2, 2, 2, 2, 2, 4, 4, 4, 2, 2] (bytes.drop record.offset) with
  | some ([signature, _, flags, method, _, _, checksum, compressed, size, nameLength, extra], rest) => do
    guard (signature = 0x0403_4b50 ∧ flags = record.flags ∧ method = 0 ∧ record.method = 0 ∧
      checksum = record.checksum ∧ compressed = record.compressed ∧ size = record.size ∧ compressed = size)
    let (name, rest) ← readBytes nameLength rest
    guard (name = record.name)
    let (_, rest) ← readBytes extra rest
    let (value, _) ← readBytes size rest
    some ⟨name, value, checksum, size, record.offset⟩
  | _ => none

/-- The members of an archive, by its directory. -/
def readZip (bytes : Bytes) : Option (List Member) := do
  let last ← findEnd bytes
  let (records, rest) ← readDirectory last.count (bytes.drop last.centralOffset)
  guard (bytes.length = last.centralOffset + last.centralBytes + rest.length)
  records.mapM (readMember bytes)

end ZipFormat
