import Mathlib.Control.Basic
import Mathlib.Data.Option.Basic
import SchemaRecords.Output.Archive

/-!
# Archives that are read back

The entries of an archive are found through its end, which says where the
directory stands, and through the directory, whose lines say where the entries
stand. `StandsAt` says which bytes stand at an offset, and every field of a header
is read from there.

`decode?_encode` is the main result: as long as all counts, lengths and offsets fit
into their fields (`Archive.Fits`), reading an archive gives the entries that it
was made from.
-/

namespace SchemaRecords.Output.Archive

open SchemaRecords.ClassFile (Bytes)

/-! ## Bytes at an offset -/

/-- The bytes `piece` stand at `offset`. -/
def StandsAt (bytes : Array UInt8) (offset : Nat) (piece : Bytes) : Prop :=
  ∃ before after, bytes.toList = before ++ piece ++ after ∧ before.length = offset

namespace StandsAt

variable {bytes : Array UInt8} {offset : Nat} {piece piece' : Bytes}

theorem left (h : StandsAt bytes offset (piece ++ piece')) : StandsAt bytes offset piece := by
  obtain ⟨before, after, hbytes, hoffset⟩ := h
  exact ⟨before, piece' ++ after, by simp [hbytes], hoffset⟩

theorem right (h : StandsAt bytes offset (piece ++ piece')) :
    StandsAt bytes (offset + piece.length) piece' := by
  obtain ⟨before, after, hbytes, hoffset⟩ := h
  exact ⟨before ++ piece, after, by simp [hbytes], by simp [hoffset]⟩

theorem parts (h : StandsAt bytes offset (piece ++ piece')) :
    StandsAt bytes offset piece ∧ StandsAt bytes (offset + piece.length) piece' :=
  ⟨h.left, h.right⟩

theorem size_le (h : StandsAt bytes offset piece) : offset + piece.length ≤ bytes.size := by
  obtain ⟨before, after, hbytes, hoffset⟩ := h
  rw [← Array.length_toList, hbytes]
  simp
  omega

theorem extract (h : StandsAt bytes offset piece) :
    (bytes.extract offset (offset + piece.length)).toList = piece := by
  obtain ⟨before, after, hbytes, hoffset⟩ := h
  rw [Array.toList_extract, hbytes, List.extract_eq_take_drop, ← hoffset, List.append_assoc,
    List.drop_left, Nat.add_sub_cancel_left, List.take_left]

theorem slice? (h : StandsAt bytes offset piece) :
    Archive.slice? bytes offset piece.length = some piece := by
  rw [Archive.slice?, if_pos h.size_le, h.extract]

/-- The number that bytes stand for, low byte first. -/
def value (piece : Bytes) : Nat := piece.foldr (fun b n => n * 256 + b.toNat) 0

theorem number? (h : StandsAt bytes offset piece) :
    Archive.number? bytes offset piece.length = some (value piece) := by
  rw [Archive.number?, if_pos h.size_le, ← Array.foldr_toList, h.extract, value]

end StandsAt

/-! ## Fields -/

theorem value_word16 (n : UInt16) : StandsAt.value (word16 n) = n.toNat := by
  have := n.toNat_lt
  simp [StandsAt.value, word16, Nat.shiftRight_eq_div_pow]
  omega

theorem value_word32 (n : UInt32) : StandsAt.value (word32 n) = n.toNat := by
  have := n.toNat_lt
  simp [StandsAt.value, word32, Nat.shiftRight_eq_div_pow]
  omega

variable {bytes : Array UInt8} {offset : Nat}

theorem number?_word16 {n : UInt16} (h : StandsAt bytes offset (word16 n)) :
    number? bytes offset 2 = some n.toNat := by
  rw [← value_word16]
  exact h.number?

theorem number?_word32 {n : UInt32} (h : StandsAt bytes offset (word32 n)) :
    number? bytes offset 4 = some n.toNat := by
  rw [← value_word32]
  exact h.number?

theorem text?_nameBytes (name : String) : text? (nameBytes name) = some name := by
  have hbytes : (⟨(nameBytes name).toArray⟩ : ByteArray) = name.toByteArray := by
    simp [nameBytes]
  rw [text?, hbytes, String.fromUTF8?, dif_pos name.isValidUTF8]
  rfl

/-! ## Entries -/

/-- The fields of `common` that are read if it stands at `start`. -/
structure Described (bytes : Array UInt8) (start : Nat) (e : Entry) : Prop where
  method : number? bytes (start + 4) 2 = some 0
  time : number? bytes (start + 6) 2 = some e.stamp.time.toNat
  date : number? bytes (start + 8) 2 = some e.stamp.date.toNat
  size : number? bytes (start + 14) 4 = some e.data.length
  name : number? bytes (start + 22) 2 = some (nameBytes e.name).length
  extra : number? bytes (start + 24) 2 = some 0

theorem described_of_standsAt {start : Nat} {e : Entry} (he : EntryFits e)
    (h : StandsAt bytes start (common e)) : Described bytes start e := by
  have hdata : e.data.length.toUInt32.toNat = e.data.length := by
    have := he.data
    simp
    omega
  have hname : (nameBytes e.name).length.toUInt16.toNat = (nameBytes e.name).length := by
    have := he.name
    simp
    omega
  unfold common at h
  obtain ⟨h, hextra⟩ := h.parts
  obtain ⟨h, hnameSize⟩ := h.parts
  obtain ⟨h, -⟩ := h.parts
  obtain ⟨h, hsize⟩ := h.parts
  obtain ⟨h, -⟩ := h.parts
  obtain ⟨h, hdate⟩ := h.parts
  obtain ⟨h, htime⟩ := h.parts
  obtain ⟨-, hmethod⟩ := h.parts
  exact {
    method := number?_word16 hmethod
    time := number?_word16 htime
    date := number?_word16 hdate
    size := hdata ▸ number?_word32 hsize
    name := hname ▸ number?_word16 hnameSize
    extra := number?_word16 hextra }

/-- The fields of a line in the directory that are read. -/
structure Line (bytes : Array UInt8) (offset header : Nat) (e : Entry) : Prop where
  signature : number? bytes offset 4 = some 0x02014B50
  described : Described bytes (offset + 6) e
  comment : number? bytes (offset + 32) 2 = some 0
  header : number? bytes (offset + 42) 4 = some header
  name : slice? bytes (offset + 46) (nameBytes e.name).length = some (nameBytes e.name)

theorem line_of_standsAt {e : Entry} {header : Nat} (he : EntryFits e)
    (hheader : header < 4294967296) (h : StandsAt bytes offset (directoryPart e header)) :
    Line bytes offset header e := by
  have hnumber : header.toUInt32.toNat = header := by
    simp
    omega
  unfold directoryPart at h
  obtain ⟨h, hname⟩ := h.parts
  obtain ⟨h, hplace⟩ := h.parts
  -- the disk and the attributes, which are not read
  obtain ⟨h, -⟩ := h.parts
  obtain ⟨h, -⟩ := h.parts
  obtain ⟨h, -⟩ := h.parts
  obtain ⟨h, hcomment⟩ := h.parts
  obtain ⟨h, hcommon⟩ := h.parts
  obtain ⟨hsignature, -⟩ := h.parts
  exact {
    signature := number?_word32 hsignature
    described := described_of_standsAt he hcommon
    comment := number?_word16 hcomment
    header := hnumber ▸ number?_word32 hplace
    name := hname.slice? }

/-- The fields of an entry's own header that are read, and its data. -/
structure Body (bytes : Array UInt8) (header : Nat) (e : Entry) : Prop where
  signature : number? bytes header 4 = some 0x04034B50
  described : Described bytes (header + 4) e
  data : slice? bytes (header + 30 + (nameBytes e.name).length) e.data.length = some e.data

theorem body_of_standsAt {e : Entry} {header : Nat} (he : EntryFits e)
    (h : StandsAt bytes header (localPart e)) : Body bytes header e := by
  have hposition : header + (word32 0x04034B50 ++ common e ++ nameBytes e.name).length
      = header + 30 + (nameBytes e.name).length := by
    rw [List.length_append, ← Nat.add_assoc]
    rfl
  unfold localPart at h
  exact {
    signature := number?_word32 h.left.left.left
    described := described_of_standsAt he h.left.left.right
    data := hposition ▸ h.right.slice? }

theorem length_directoryPart (e : Entry) (header : Nat) :
    (directoryPart e header).length = 46 + (nameBytes e.name).length := by
  unfold directoryPart
  rw [List.length_append]
  rfl

/-- An entry is read from its line in the directory, if it stands where the line says. -/
theorem entry?_of_standsAt {e : Entry} {header : Nat} (he : EntryFits e)
    (hheader : header < 4294967296) (hline : StandsAt bytes offset (directoryPart e header))
    (hbody : StandsAt bytes header (localPart e)) :
    entry? bytes offset = some (e, offset + (directoryPart e header).length) := by
  have hline := line_of_standsAt he hheader hline
  have hbody := body_of_standsAt he hbody
  have hstamp := he.stamp
  have hnext : offset + 46 + (nameBytes e.name).length
      = offset + (directoryPart e header).length := by
    rw [length_directoryPart, Nat.add_assoc]
  unfold entry?
  simp [hline.signature, hline.described.method, hline.described.time,
    hline.described.date, hline.described.size, hline.described.name, hline.described.extra,
    hline.comment, hline.header, hline.name, text?_nameBytes, hbody.signature,
    hbody.described.name, hbody.described.extra, hbody.data, hstamp, hnext]

/-! ## Whole archives -/

/-- The lines of the directory are read one after the other, in front of those that were read. -/
theorem entriesFrom?_of_standsAt {entries : List Entry} {start : Nat} (done : List Entry)
    (hentries : ∀ e ∈ entries, EntryFits e)
    (hdirectory : StandsAt bytes offset (directoryFrom start entries))
    (hfiles : StandsAt bytes start (entries.flatMap localPart))
    (hsize : start + (entries.flatMap localPart).length < 4294967296) :
    entriesFrom? bytes done entries.length offset = some (done.reverse ++ entries) := by
  induction entries generalizing offset start done with
  | nil => simp [entriesFrom?]
  | cons e entries ih =>
    rw [directoryFrom] at hdirectory
    rw [List.flatMap_cons] at hfiles hsize
    rw [List.length_append] at hsize
    have hentry := entry?_of_standsAt (hentries e (by simp)) (by omega) hdirectory.left hfiles.left
    rw [List.length_cons, entriesFrom?, hentry]
    show entriesFrom? bytes (e :: done) entries.length _ = _
    rw [ih (e :: done) (fun e' he' => hentries e' (by simp [he'])) hdirectory.right hfiles.right
      (by omega)]
    simp

theorem length_endPart (count size offset : Nat) : (endPart count size offset).length = 22 := rfl

/-- The end of an archive says where its directory stands. -/
theorem decode?_append_endPart (before : Bytes) {count size start : Nat} (hcount : count < 65536)
    (hstart : start < 4294967296) :
    decode? (before ++ endPart count size start)
      = entriesFrom? (before ++ endPart count size start).toArray [] count start := by
  generalize hbytes : (before ++ endPart count size start).toArray = bytes
  have hend : StandsAt bytes before.length (endPart count size start) :=
    ⟨before, [], by simp [← hbytes], rfl⟩
  have hsize : bytes.size = before.length + 22 := by
    rw [← hbytes, List.size_toArray, List.length_append, length_endPart]
  have hcount' : count.toUInt16.toNat = count := by
    simp
    omega
  have hstart' : start.toUInt32.toNat = start := by
    simp
    omega
  unfold endPart at hend
  obtain ⟨hend, -⟩ := hend.parts
  obtain ⟨hend, hoffset⟩ := hend.parts
  obtain ⟨hend, -⟩ := hend.parts
  obtain ⟨hend, htotal⟩ := hend.parts
  -- the counts of one disk of several, which are not read
  obtain ⟨hend, -⟩ := hend.parts
  obtain ⟨hend, -⟩ := hend.parts
  obtain ⟨hmark, -⟩ := hend.parts
  have hsignature : number? bytes before.length 4 = some 0x06054B50 := number?_word32 hmark
  have hlines : number? bytes (before.length + 10) 2 = some count :=
    hcount' ▸ number?_word16 htotal
  have hdirectory : number? bytes (before.length + 16) 4 = some start :=
    hstart' ▸ number?_word32 hoffset
  unfold decode?
  simp [hbytes, hsize, hsignature, hlines, hdirectory]

/-- The entries of an archive are those that it was made from, in the same order. -/
theorem decode?_encode {entries : List Entry} (h : Fits entries) :
    decode? (encode entries) = some entries := by
  have hsize := h.size
  unfold encode at hsize ⊢
  simp only [List.length_append] at hsize
  simp only
  generalize hbytes : (entries.flatMap localPart ++ directoryFrom 0 entries
    ++ endPart entries.length (directoryFrom 0 entries).length
      (entries.flatMap localPart).length).toArray = bytes
  have hwhole : StandsAt bytes 0 (entries.flatMap localPart ++ directoryFrom 0 entries) :=
    ⟨[], _, by rw [← hbytes, List.nil_append], rfl⟩
  have hdirectory := hwhole.right
  rw [Nat.zero_add] at hdirectory
  rw [decode?_append_endPart _ h.count (by omega), hbytes,
    entriesFrom?_of_standsAt [] h.entries hdirectory hwhole.left (by omega)]
  rfl

end SchemaRecords.Output.Archive
