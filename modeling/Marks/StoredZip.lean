import Marks.Fields
import Marks.Results
import Marks.SigningClient

/-! # Stored archives

A bundle is written as a ZIP file without compression: the members, each behind its header, then a directory, then the
end record. -/

namespace Marks.StoredZip

open Fields (Field)
open SigningClient (encodeText)

inductive StoredZipSource
  | blob (bytes : Bytes)
  | array (bytes : Bytes)
  | text (value : JsString)

structure StoredZipEntry where
  path : JsString
  data : StoredZipSource

def utf8Flag : Nat := 0x0800
def maxU16 : Nat := 0xffff
def maxU32 : Nat := 0xffff_ffff

/-! ## The checksum -/

def crcShift (crc : UInt32) : UInt32 := if crc &&& 1 = 1 then (0xedb8_8320 : UInt32) ^^^ (crc >>> 1) else crc >>> 1

def crcShifts : Nat → UInt32 → UInt32
  | 0, crc => crc
  | bit + 1, crc => crcShifts bit (crcShift crc)

def crcTable : List UInt32 := (List.range 256).map fun value => crcShifts 8 (UInt32.ofNat value)

def crcByte (crc : UInt32) (byte : UInt8) : UInt32 :=
  crcTable.getD ((crc ^^^ byte.toUInt32) &&& 0xff).toNat 0 ^^^ (crc >>> 8)

def crc32 (bytes : Bytes) : UInt32 := bytes.foldl crcByte 0xffff_ffff ^^^ 0xffff_ffff

/-! ## The parts -/

inductive BlobPart
  | block (fields : List Field)
  | bytes (value : Bytes)

def BlobPart.written : BlobPart → Bytes
  | .block fields => Fields.write fields
  | .bytes value => value

/-- The bytes of a `Blob`. -/
def blobBytes (parts : List BlobPart) : Bytes := parts.flatMap BlobPart.written

def u16 (value : Nat) : Field := ⟨2, value⟩
def u32 (value : Nat) : Field := ⟨4, value⟩

def isUnsafe (path : JsString) : Bool :=
  path.isEmpty || path.head? == some 47 || path.contains 92 || path.contains 0 ||
    (path.splitOn 47).any fun part => part == [] || part == [46] || part == [46, 46]

def safePath (path : JsString) : Except JsString Bytes := do
  require (!isUnsafe path) (.ofString "Unsafe ZIP entry path: " ++ path)
  let encoded := encodeText path
  require (!decide (maxU16 < encoded.length)) (.ofString "ZIP entry path is too long")
  pure encoded

def bytesFor : StoredZipSource → Bytes
  | .blob bytes => bytes
  | .array bytes => bytes
  | .text value => encodeText value

def localHeader (checksum size nameLength : Nat) : List Field :=
  [u32 0x0403_4b50, u16 20, u16 utf8Flag, u16 0, u16 0, u16 33, u32 checksum, u32 size, u32 size, u16 nameLength, u16 0]

def directoryHeader (checksum size nameLength offset : Nat) : List Field :=
  [u32 0x0201_4b50, u16 20, u16 20, u16 utf8Flag, u16 0, u16 0, u16 33, u32 checksum, u32 size, u32 size,
    u16 nameLength, u16 0, u16 0, u16 0, u16 0, u32 0, u32 offset]

def endRecord (count centralBytes offset : Nat) : List Field :=
  [u32 0x0605_4b50, u16 0, u16 0, u16 count, u16 count, u32 centralBytes, u32 offset, u16 0]

/-- What the loop keeps. -/
structure Building where
  output : List BlobPart
  central : List BlobPart
  offset : Nat
  centralBytes : Nat

def addEntry (zip : Building) (entry : StoredZipEntry) : Except JsString Building := do
  let name ← safePath entry.path
  let source := bytesFor entry.data
  let size := source.length
  require (!(decide (maxU32 < size) || decide (maxU32 < zip.offset + 30 + name.length + size)))
    (.ofString "ZIP exceeds the portable bundle size limit")
  let checksum := (crc32 source).toNat
  pure {
    output := zip.output ++ [.block (localHeader checksum size name.length), .bytes name, .bytes source]
    central := zip.central ++ [.block (directoryHeader checksum size name.length zip.offset), .bytes name]
    offset := zip.offset + (30 + name.length + size)
    centralBytes := zip.centralBytes + (46 + name.length) }

def buildStoredZip (entries : List StoredZipEntry) : Except JsString (List BlobPart) := do
  require (!decide (maxU16 < entries.length)) (.ofString "ZIP contains too many entries")
  let zip ← entries.foldlM addEntry ⟨[], [], 0, 0⟩
  require (!decide (maxU32 < zip.offset + zip.centralBytes)) (.ofString "ZIP directory exceeds ZIP32 limits")
  pure (zip.output ++ zip.central ++ [.block (endRecord entries.length zip.centralBytes zip.offset)])

end Marks.StoredZip
