import ExamVan.Lib.Bytes
import Mathlib.Algebra.Ring.Nat

/-!
# Archives of stored files

A reader looks for the end record from the end, reads the directory that it points to, and for each
entry the local record at its offset. The archive that lays the local records, the directory and the
end record one behind the other is read back.
-/

namespace Zip

open ByteString

/-! ### Fields -/

/-- The lowest `k` bytes of a number, the lowest first. -/
def leBytes : Nat → Nat → Bytes
  | 0, _ => []
  | k + 1, n => UInt8.ofNat n :: leBytes k (n / 256)

def leValue : Bytes → Nat
  | [] => 0
  | c :: s => c.toNat + 256 * leValue s

/-- Numbers of these widths. -/
def readFields : List Nat → Bytes → Option (List Nat × Bytes)
  | [], s => some ([], s)
  | k :: ks, s =>
      if k ≤ s.length then
        (readFields ks (s.drop k)).map fun r => (leValue (s.take k) :: r.1, r.2)
      else none

/-- Each with its width. -/
def fieldBytes (fields : List (Nat × Nat)) : Bytes := fields.flatMap fun f => leBytes f.1 f.2

variable {k n : Nat} {s : Bytes}

@[simp]
theorem length_leBytes (k n : Nat) : (leBytes k n).length = k := by
  induction k generalizing n with
  | zero => rfl
  | succ k ih => rw [leBytes, List.length_cons, ih]

theorem leValue_leBytes (hn : n < 256 ^ k) : leValue (leBytes k n) = n := by
  induction k generalizing n with
  | zero =>
      obtain rfl : n = 0 := by simpa using hn
      rfl
  | succ k ih =>
      have hrest : n / 256 < 256 ^ k := by
        rw [Nat.div_lt_iff_lt_mul (by decide)]
        exact hn
      have hlow : (UInt8.ofNat n).toNat = n % 256 := UInt8.toNat_ofNat'
      rw [leBytes, leValue, ih hrest, hlow]
      omega

theorem readFields_fieldBytes {fields : List (Nat × Nat)} (h : ∀ f ∈ fields, f.2 < 256 ^ f.1)
    (s : Bytes) : readFields (fields.map Prod.fst) (fieldBytes fields ++ s) =
      some (fields.map Prod.snd, s) := by
  induction fields with
  | nil => rfl
  | cons f fields ih =>
      rw [List.forall_mem_cons] at h
      have htext : fieldBytes (f :: fields) ++ s = leBytes f.1 f.2 ++ (fieldBytes fields ++ s) := by
        rw [fieldBytes, List.flatMap_cons, List.append_assoc]
        rfl
      have hwidth : (leBytes f.1 f.2).length = f.1 := length_leBytes _ _
      rw [htext, List.map_cons, readFields, if_pos (by rw [List.length_append]; omega),
        List.drop_left' hwidth, List.take_left' hwidth, leValue_leBytes h.1, ih h.2]
      rfl

theorem length_fieldBytes (fields : List (Nat × Nat)) :
    (fieldBytes fields).length = (fields.map Prod.fst).sum := by
  rw [fieldBytes, List.length_flatMap]
  simp

/-! ### Reading -/

structure File where
  name : Bytes
  content : Bytes
  crc : Nat
  deriving DecidableEq

structure Entry extends File where
  offset : Nat
  deriving DecidableEq

/-- What the directory says about a file. -/
structure Header where
  flags : Nat
  method : Nat
  crc : Nat
  stored : Nat
  size : Nat
  name : Bytes
  offset : Nat

def localWidths : List Nat := [4, 2, 2, 2, 2, 2, 4, 4, 4, 2, 2]

def centralWidths : List Nat := [4, 2, 2, 2, 2, 2, 2, 4, 4, 4, 2, 2, 2, 2, 2, 4, 4]

def endWidths : List Nat := [4, 2, 2, 2, 2, 4, 4, 2]

/-- The number of entries, and the size and the offset of the directory. -/
def endRecord (s : Bytes) : Option (Nat × Nat × Nat) :=
  match readFields endWidths s with
  | some ([signature, disk, directoryDisk, here, count, size, offset, commentLength], comment) =>
      if signature = 0x06054b50 ∧ disk = 0 ∧ directoryDisk = 0 ∧ here = count ∧
          comment.length = commentLength then some (count, size, offset)
      else none
  | _ => none

/-- The last place with an end record. -/
def findEnd (s : Bytes) : Option (Nat × Nat × Nat) :=
  (List.range (s.length - 21)).reverse.findSome? fun p => endRecord (s.drop p)

def readHeader (s : Bytes) : Option (Header × Bytes) :=
  match readFields centralWidths s with
  | some ([signature, _, _, flags, method, _, _, crc, stored, size, nameLength, extraLength,
      commentLength, disk, _, _, offset], s) =>
      if signature = 0x02014b50 ∧ disk = 0 ∧ nameLength + extraLength + commentLength ≤ s.length then
        some (⟨flags, method, crc, stored, size, s.take nameLength, offset⟩,
          s.drop (nameLength + extraLength + commentLength))
      else none
  | _ => none

/-- So many headers, and nothing behind them. -/
def readDirectory : Nat → Bytes → Option (List Header)
  | 0, s => if s = [] then some [] else none
  | n + 1, s => (readHeader s).bind fun r => (readDirectory n r.2).map (r.1 :: ·)

/-- A file that is stored as it is; the local record says what the directory says. -/
def readEntry (archive : Bytes) (h : Header) : Option Entry :=
  match readFields localWidths (archive.drop h.offset) with
  | some ([signature, _, flags, method, _, _, crc, stored, size, nameLength, extraLength], s) =>
      let content := (s.drop (nameLength + extraLength)).take stored
      if signature = 0x04034b50 ∧ (flags = 0 ∧ h.flags = 0) ∧ (method = 0 ∧ h.method = 0) ∧ crc = h.crc ∧
          (stored = h.stored ∧ size = h.size ∧ stored = size ∧ content.length = size) ∧
          s.take nameLength = h.name then
        some { name := h.name, content := content, crc := crc, offset := h.offset }
      else none
  | _ => none

def read (archive : Bytes) : Option (List Entry) :=
  (findEnd archive).bind fun (count, size, offset) =>
    (readDirectory count ((archive.drop offset).take size)).bind fun headers =>
      headers.mapM (readEntry archive)

/-! ### Writing -/

def localFields (f : File) : List (Nat × Nat) :=
  [(4, 0x04034b50), (2, 20), (2, 0), (2, 0), (2, 0), (2, 0), (4, f.crc), (4, f.content.length),
    (4, f.content.length), (2, f.name.length), (2, 0)]

def localRecord (f : File) : Bytes := fieldBytes (localFields f) ++ (f.name ++ f.content)

def centralFields (offset : Nat) (f : File) : List (Nat × Nat) :=
  [(4, 0x02014b50), (2, 20), (2, 20), (2, 0), (2, 0), (2, 0), (2, 0), (4, f.crc), (4, f.content.length),
    (4, f.content.length), (2, f.name.length), (2, 0), (2, 0), (2, 0), (2, 0), (4, 0), (4, offset)]

def centralRecord (offset : Nat) (f : File) : Bytes := fieldBytes (centralFields offset f) ++ f.name

def locals (files : List File) : Bytes := files.flatMap localRecord

/-- The first local record is at the offset. -/
def directory : Nat → List File → Bytes
  | _, [] => []
  | offset, f :: files => centralRecord offset f ++ directory (offset + (localRecord f).length) files

def endFields (count size offset : Nat) : List (Nat × Nat) :=
  [(4, 0x06054b50), (2, 0), (2, 0), (2, count), (2, count), (4, size), (4, offset), (2, 0)]

def endBytes (count size offset : Nat) : Bytes := fieldBytes (endFields count size offset)

def layout (files : List File) : Bytes :=
  locals files ++ (directory 0 files ++
    endBytes files.length (directory 0 files).length (locals files).length)

/-- The files with their offsets. -/
def entries : Nat → List File → List Entry
  | _, [] => []
  | offset, f :: files => { f with offset := offset } :: entries (offset + (localRecord f).length) files

def headers : Nat → List File → List Header
  | _, [] => []
  | offset, f :: files =>
      ⟨0, 0, f.crc, f.content.length, f.content.length, f.name, offset⟩ ::
        headers (offset + (localRecord f).length) files

/-- The lengths and the checksum of a file fit into their fields. -/
def File.Fits (f : File) : Prop :=
  f.name.length < 2 ^ 16 ∧ f.content.length < 2 ^ 32 ∧ f.crc < 2 ^ 32

/-! ### Reading what is written -/

variable {f : File} {files : List File} {offset count size : Nat}

theorem length_localRecord (f : File) :
    (localRecord f).length = 30 + f.name.length + f.content.length := by
  have hsum : ((localFields f).map Prod.fst).sum = 30 := by simp [localFields]
  rw [localRecord, List.length_append, length_fieldBytes, hsum, List.length_append, Nat.add_assoc]

theorem length_endBytes (count size offset : Nat) : (endBytes count size offset).length = 22 := by
  rw [endBytes, length_fieldBytes]
  simp [endFields]

theorem endRecord_endBytes (hcount : count < 2 ^ 16) (hsize : size < 2 ^ 32) (hoffset : offset < 2 ^ 32) :
    endRecord (endBytes count size offset) = some (count, size, offset) := by
  have hfit : ∀ f ∈ endFields count size offset, f.2 < 256 ^ f.1 := by
    simp [endFields]
    omega
  have hfields : readFields endWidths (endBytes count size offset ++ []) =
      some ((endFields count size offset).map Prod.snd, []) := readFields_fieldBytes hfit []
  rw [List.append_nil] at hfields
  rw [endRecord, hfields]
  exact if_pos ⟨rfl, rfl, rfl, rfl, rfl⟩

/-- The search ends where it begins. -/
theorem findEnd_append (hcount : count < 2 ^ 16) (hsize : size < 2 ^ 32) (hoffset : offset < 2 ^ 32)
    (body : Bytes) : findEnd (body ++ endBytes count size offset) = some (count, size, offset) := by
  have hlength : (body ++ endBytes count size offset).length - 21 = body.length + 1 := by
    rw [List.length_append, length_endBytes]
    omega
  rw [findEnd, hlength, List.range_succ, List.reverse_append, List.reverse_singleton, List.singleton_append,
    List.findSome?_cons, List.drop_left, endRecord_endBytes hcount hsize hoffset]

theorem readHeader_centralRecord (hf : f.Fits) (hoffset : offset < 2 ^ 32) (s : Bytes) :
    readHeader (centralRecord offset f ++ s) =
      some (⟨0, 0, f.crc, f.content.length, f.content.length, f.name, offset⟩, s) := by
  obtain ⟨hname, hcontent, hcrc⟩ := hf
  have hfit : ∀ g ∈ centralFields offset f, g.2 < 256 ^ g.1 := by
    simp [centralFields]
    omega
  have hfields : readFields centralWidths (centralRecord offset f ++ s) =
      some ((centralFields offset f).map Prod.snd, f.name ++ s) := by
    rw [centralRecord, List.append_assoc]
    exact readFields_fieldBytes hfit _
  have hlength : f.name.length + 0 + 0 ≤ (f.name ++ s).length := by
    rw [List.length_append]
    omega
  rw [readHeader, hfields]
  refine (if_pos ⟨rfl, rfl, hlength⟩).trans ?_
  rw [List.take_left, Nat.add_zero, Nat.add_zero, List.drop_left]

theorem readDirectory_directory (hfiles : ∀ f ∈ files, f.Fits)
    (hoffset : offset + (locals files).length < 2 ^ 32) :
    readDirectory files.length (directory offset files) = some (headers offset files) := by
  induction files generalizing offset with
  | nil => rfl
  | cons f files ih =>
      rw [List.forall_mem_cons] at hfiles
      have hlocals : (locals (f :: files)).length = (localRecord f).length + (locals files).length := by
        rw [locals, List.flatMap_cons, List.length_append]
        rfl
      rw [List.length_cons, readDirectory, directory,
        readHeader_centralRecord hfiles.1 (by omega), Option.bind_some, ih hfiles.2 (by omega)]
      rfl

theorem readEntry_localRecord (hf : f.Fits) (before after : Bytes) :
    readEntry (before ++ (localRecord f ++ after))
        ⟨0, 0, f.crc, f.content.length, f.content.length, f.name, before.length⟩ =
      some { f with offset := before.length } := by
  obtain ⟨hname, hcontent, hcrc⟩ := hf
  have hfit : ∀ g ∈ localFields f, g.2 < 256 ^ g.1 := by
    simp [localFields]
    omega
  have hfields : readFields localWidths (localRecord f ++ after) =
      some ((localFields f).map Prod.snd, f.name ++ (f.content ++ after)) := by
    rw [localRecord, List.append_assoc, List.append_assoc]
    exact readFields_fieldBytes hfit _
  have hstored : ((f.name ++ (f.content ++ after)).drop (f.name.length + 0)).take f.content.length =
      f.content := by
    rw [Nat.add_zero, List.drop_left, List.take_left]
  rw [readEntry, List.drop_left, hfields]
  refine (if_pos ⟨rfl, ⟨rfl, rfl⟩, ⟨rfl, rfl⟩, rfl, ⟨rfl, rfl, rfl, by rw [hstored]⟩,
    List.take_left⟩).trans ?_
  rw [hstored]

/-- Every entry of the directory leads to its file. -/
theorem mapM_readEntry (hfiles : ∀ f ∈ files, f.Fits) (before after : Bytes) :
    (headers before.length files).mapM (readEntry (before ++ (locals files ++ after))) =
      some (entries before.length files) := by
  induction files generalizing before with
  | nil => rfl
  | cons f files ih =>
      rw [List.forall_mem_cons] at hfiles
      have hrest := ih hfiles.2 (before ++ localRecord f)
      rw [List.length_append, List.append_assoc] at hrest
      have htext : locals (f :: files) ++ after = localRecord f ++ (locals files ++ after) := by
        rw [locals, List.flatMap_cons, List.append_assoc]
        rfl
      rw [htext, headers, List.mapM_cons, readEntry_localRecord hfiles.1, hrest]
      rfl

/-- An archive whose numbers fit into their fields is read back. -/
theorem read_layout (hfiles : ∀ f ∈ files, f.Fits) (hcount : files.length < 2 ^ 16)
    (hlength : (layout files).length < 2 ^ 32) : read (layout files) = some (entries 0 files) := by
  have hsum : (layout files).length = (locals files).length + ((directory 0 files).length + 22) := by
    rw [layout, List.length_append, List.length_append, length_endBytes]
  have hend : findEnd (layout files) =
      some (files.length, (directory 0 files).length, (locals files).length) := by
    rw [layout, ← List.append_assoc]
    exact findEnd_append hcount (by omega) (by omega) _
  have hdirectory : ((layout files).drop (locals files).length).take (directory 0 files).length =
      directory 0 files := by
    rw [layout, List.drop_left, List.take_left]
  rw [read, hend, Option.bind_some]
  simp only
  rw [hdirectory, readDirectory_directory hfiles (by omega), Option.bind_some]
  exact mapM_readEntry hfiles [] _

/-- The local record of an entry is at its offset. -/
theorem localRecord_prefix {e : Entry} (before after : Bytes)
    (he : e ∈ entries before.length files) :
    localRecord e.toFile <+: (before ++ (locals files ++ after)).drop e.offset := by
  induction files generalizing before with
  | nil => cases he
  | cons f files ih =>
      have htext : locals (f :: files) ++ after = localRecord f ++ (locals files ++ after) := by
        rw [locals, List.flatMap_cons, List.append_assoc]
        rfl
      rw [htext]
      rcases List.mem_cons.mp he with rfl | hrest
      · rw [List.drop_left]
        exact List.prefix_append _ _
      · have hnext := ih (before ++ localRecord f) (by rwa [List.length_append])
        rwa [List.append_assoc] at hnext

theorem map_toFile_entries (offset : Nat) (files : List File) :
    (entries offset files).map Entry.toFile = files := by
  induction files generalizing offset with
  | nil => rfl
  | cons f files ih => rw [entries, List.map_cons, ih]

end Zip
