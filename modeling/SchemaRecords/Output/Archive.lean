import SchemaRecords.Output.FileSystem

/-!
# Archives

`ArchiveLibrary` is what is needed of a library that writes zip archives: entries
are begun, their data is written, and the archive is ended, each of which can fail.

`Archive.library` is such a library. It stores entries as they are, whatever
compression is asked for, and refuses a name that it was given before as well as
archives whose counts or sizes are too large for the format. `Archive.decode?`
lists the entries of such an archive.
-/

namespace SchemaRecords.Output

open SchemaRecords.ClassFile (Bytes)

/-- A date and time to the second, with years from 1980 on. -/
structure Stamp where
  year : Nat
  month : Nat
  day : Nat
  hour : Nat
  minute : Nat
  second : Nat
deriving DecidableEq, Repr

namespace Stamp

/-- The time that all entries carry. -/
def epoch : Stamp := ⟨1980, 1, 1, 0, 0, 0⟩

/-- The 16-bit form of the date. -/
def date (s : Stamp) : UInt16 :=
  ((s.year - 1980) * 512 + s.month * 32 + s.day).toUInt16

/-- The 16-bit form of the time of day, which has every other second only. -/
def time (s : Stamp) : UInt16 :=
  (s.hour * 2048 + s.minute * 32 + s.second / 2).toUInt16

/-- The stamp with given 16-bit forms. -/
def ofWords (date time : UInt16) : Stamp :=
  let d := date.toNat
  let t := time.toNat
  ⟨1980 + d / 512, d / 32 % 16, d % 32, t / 2048, t / 32 % 64, t % 32 * 2⟩

/-- A number with at least two digits. -/
def twoDigits (n : Nat) : String := if n < 10 then s!"0{n}" else toString n

/-- The usual way to write a date and time. -/
def text (s : Stamp) : String :=
  s!"{s.year}-{twoDigits s.month}-{twoDigits s.day} {twoDigits s.hour}:{twoDigits s.minute}:{twoDigits s.second}"

end Stamp

/-- A named file in an archive. -/
structure Entry where
  name : String
  stamp : Stamp
  data : Bytes
deriving DecidableEq, Repr

/-- How the data of an entry is kept. -/
inductive Compression where
  | stored
  | deflated
deriving DecidableEq, Repr

/-- What an entry is begun with, other than its name. -/
structure EntryOptions where
  compression : Compression
  stamp : Stamp
deriving DecidableEq, Repr

/-- A library that writes archives. A fault of an archive is given by its wording. -/
structure ArchiveLibrary (m : Type → Type) where
  /-- An archive under way. -/
  Writer : Type
  /-- The file of an archive that was ended, with what is not yet written out. -/
  Ended : Type
  /-- Begins an archive in a new file. -/
  attach : Path → m Writer
  /-- Begins an entry after all others. -/
  startFile : String → EntryOptions → StateT Writer m (Except String Unit)
  /-- Appends to the data of the last entry. -/
  writeAll : Bytes → StateT Writer m (Except FileError Unit)
  /-- Ends the archive. -/
  finish : Writer → m (Except String Ended)
  /-- Writes everything out and closes the file. -/
  flush : Ended → m (Except FileError Unit)
  /-- Gives up an archive. What it holds may still get into its file. -/
  discard : Writer → m Unit

namespace Archive

/-- One bit of the checksum's division. -/
def crcBit (c : UInt32) : UInt32 :=
  if c &&& 1 = 1 then (c >>> 1) ^^^ 0xEDB88320 else c >>> 1

/-- The checksum after another byte. -/
def crcByte (c : UInt32) (b : UInt8) : UInt32 :=
  crcBit (crcBit (crcBit (crcBit (crcBit (crcBit (crcBit (crcBit (c ^^^ b.toUInt32))))))))

/-- The checksum of an entry's data. -/
def crc32 (data : Bytes) : UInt32 :=
  data.foldl crcByte 0xFFFFFFFF ^^^ 0xFFFFFFFF

/-- A 16-bit word, low byte first. -/
def word16 (n : UInt16) : Bytes := [n.toUInt8, (n >>> 8).toUInt8]

/-- A 32-bit word, low byte first. -/
def word32 (n : UInt32) : Bytes :=
  [n.toUInt8, (n >>> 8).toUInt8, (n >>> 16).toUInt8, (n >>> 24).toUInt8]

/-- The UTF-8 form of a name. -/
def nameBytes (name : String) : Bytes := name.toUTF8.data.toList

/-- What both headers of an entry say: version, flags (names are UTF-8), method (stored), time,
date, checksum, both sizes, length of the name, no extra field. -/
def common (e : Entry) : Bytes :=
  word16 20 ++ word16 0x0800 ++ word16 0 ++ word16 e.stamp.time ++ word16 e.stamp.date
    ++ word32 (crc32 e.data) ++ word32 e.data.length.toUInt32 ++ word32 e.data.length.toUInt32
    ++ word16 (nameBytes e.name).length.toUInt16 ++ word16 0

/-- An entry with its header. -/
def localPart (e : Entry) : Bytes :=
  word32 0x04034B50 ++ common e ++ nameBytes e.name ++ e.data

/-- The line of an entry in the directory; its header stands at `offset`. -/
def directoryPart (e : Entry) (offset : Nat) : Bytes :=
  word32 0x02014B50 ++ word16 20 ++ common e ++ word16 0 ++ word16 0 ++ word16 0
    ++ word32 0 ++ word32 offset.toUInt32 ++ nameBytes e.name

/-- The lines of entries in the directory, of which the first stands at `offset`. -/
def directoryFrom (offset : Nat) : List Entry → Bytes
  | [] => []
  | e :: rest => directoryPart e offset ++ directoryFrom (offset + (localPart e).length) rest

/-- The end of an archive: the directory has `count` lines and `size` bytes from `offset` on. -/
def endPart (count size offset : Nat) : Bytes :=
  word32 0x06054B50 ++ word16 0 ++ word16 0 ++ word16 count.toUInt16 ++ word16 count.toUInt16
    ++ word32 size.toUInt32 ++ word32 offset.toUInt32 ++ word16 0

/-- The bytes of an archive: the entries, their directory, and the end. -/
def encode (entries : List Entry) : Bytes :=
  let files := entries.flatMap localPart
  let directory := directoryFrom 0 entries
  files ++ directory ++ endPart entries.length directory.length files.length

/-- The number in the `size` bytes at `offset`, low byte first. -/
def number? (bytes : Array UInt8) (offset size : Nat) : Option Nat :=
  if offset + size ≤ bytes.size then
    some ((bytes.extract offset (offset + size)).foldr (fun b n => n * 256 + b.toNat) 0)
  else none

/-- The `size` bytes at `offset`. -/
def slice? (bytes : Array UInt8) (offset size : Nat) : Option Bytes :=
  if offset + size ≤ bytes.size then some (bytes.extract offset (offset + size)).toList else none

/-- The text that bytes stand for. -/
def text? (bytes : Bytes) : Option String := String.fromUTF8? ⟨bytes.toArray⟩

/-- The entry whose directory line stands at `offset`, and where the next line stands. -/
def entry? (bytes : Array UInt8) (offset : Nat) : Option (Entry × Nat) := do
  guard ((← number? bytes offset 4) = 0x02014B50)
  guard ((← number? bytes (offset + 10) 2) = 0)
  let time ← number? bytes (offset + 12) 2
  let date ← number? bytes (offset + 14) 2
  let size ← number? bytes (offset + 20) 4
  let nameSize ← number? bytes (offset + 28) 2
  let extraSize ← number? bytes (offset + 30) 2
  let commentSize ← number? bytes (offset + 32) 2
  let header ← number? bytes (offset + 42) 4
  let name ← text? (← slice? bytes (offset + 46) nameSize)
  guard ((← number? bytes header 4) = 0x04034B50)
  let skipped ← number? bytes (header + 26) 2
  let extra ← number? bytes (header + 28) 2
  let data ← slice? bytes (header + 30 + skipped + extra) size
  return (⟨name, Stamp.ofWords date.toUInt16 time.toUInt16, data⟩,
    offset + 46 + nameSize + extraSize + commentSize)

/-- Another `n` entries, whose directory lines start at `offset`. -/
def entriesFrom? (bytes : Array UInt8) (done : List Entry) : Nat → Nat → Option (List Entry)
  | 0, _ => some done.reverse
  | n + 1, offset =>
    match entry? bytes offset with
    | some (e, next) => entriesFrom? bytes (e :: done) n next
    | none => none

/-- The entries of an archive, in the order of its directory. -/
def decode? (archive : Bytes) : Option (List Entry) := do
  let bytes := archive.toArray
  guard (22 ≤ bytes.size)
  let tail := bytes.size - 22
  guard ((← number? bytes tail 4) = 0x06054B50)
  let count ← number? bytes (tail + 10) 2
  let directory ← number? bytes (tail + 16) 4
  entriesFrom? bytes [] count directory

/-! ## The library -/

/-- The entry can be described in its headers: its time has every other second only, and its name
and data are short enough. -/
structure EntryFits (e : Entry) : Prop where
  stamp : Stamp.ofWords e.stamp.date e.stamp.time = e.stamp
  name : (nameBytes e.name).length < 65536
  data : e.data.length < 4294967296

/-- All counts, lengths and offsets of the archive fit into their fields. -/
structure Fits (entries : List Entry) : Prop where
  count : entries.length < 65536
  size : (encode entries).length < 4294967296
  entries : ∀ e ∈ entries, EntryFits e

instance (e : Entry) : Decidable (EntryFits e) :=
  decidable_of_iff (Stamp.ofWords e.stamp.date e.stamp.time = e.stamp ∧
      (nameBytes e.name).length < 65536 ∧ e.data.length < 4294967296)
    ⟨fun h => ⟨h.1, h.2.1, h.2.2⟩, fun h => ⟨h.stamp, h.name, h.data⟩⟩

instance (entries : List Entry) : Decidable (Fits entries) :=
  decidable_of_iff (entries.length < 65536 ∧ (encode entries).length < 4294967296 ∧
      ∀ e ∈ entries, EntryFits e)
    ⟨fun h => ⟨h.1, h.2.1, h.2.2⟩, fun h => ⟨h.count, h.size, h.entries⟩⟩

/-- Entries for the archive at a path. -/
structure Packing where
  path : Path
  entries : List Entry := []
deriving DecidableEq, Repr

/-- An archive that can be written. -/
structure Sealed extends Packing where
  fits : Fits entries

/-- The fault of a name that was given before. -/
def duplicateName : String := "invalid Zip archive: Duplicate filename"

/-- The fault of an archive that is too large for its format. -/
def tooLarge : String := "unsupported Zip archive: Archive is too large"

variable {m : Type → Type} [Monad m]

/-- The library for a file system. -/
def library (fs : FileSystem m) : ArchiveLibrary m where
  Writer := Packing
  Ended := Sealed
  attach path := pure { path }
  startFile name options := fun p =>
    if name ∈ p.entries.map Entry.name then pure (.error duplicateName, p)
    else pure (.ok (), { p with entries := p.entries ++ [⟨name, options.stamp, []⟩] })
  writeAll bytes := fun p =>
    match p.entries.getLast? with
    | none => pure (.error (.other "No file has been started"), p)
    | some e =>
      pure (.ok (), { p with entries := p.entries.dropLast ++ [{ e with data := e.data ++ bytes }] })
  finish p := if h : Fits p.entries then pure (.ok ⟨p, h⟩) else pure (.error tooLarge)
  flush p := fs.write p.path (encode p.entries)
  discard _ := pure ()

end Archive

end SchemaRecords.Output
