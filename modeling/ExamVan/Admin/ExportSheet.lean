import ExamVan.Lib.Crc32
import ExamVan.Lib.Decimal
import ExamVan.Lib.Xml
import ExamVan.Lib.Zip
import ExamVan.Store.ExamTable

/-!
# The sheet of an export

`build_submissions_xlsx` writes a row of headers and a row for each submission, every cell with its
reference and its text. The sheet is the text of a tree, so an XML reader finds the tree again.
-/

/-!
## The file of an export

`make_zip` writes the local record of each file as it comes, collects the directory on the side, and
appends it with the end record.
-/

namespace ExamVan.Admin

open ByteString Zip

def writeLe16 (v : UInt16) : Bytes := [(v &&& 0xff).toUInt8, ((v >>> 8) &&& 0xff).toUInt8]

def writeLe32 (v : UInt32) : Bytes :=
  [(v &&& 0xff).toUInt8, ((v >>> 8) &&& 0xff).toUInt8, ((v >>> 16) &&& 0xff).toUInt8,
    ((v >>> 24) &&& 0xff).toUInt8]

/-- The inner loop of `crc32_raw`. -/
def crcRound (c : UInt32) : UInt32 := (c >>> 1) ^^^ (0xEDB88320 &&& (0 - (c &&& 1)))

def crc32Raw (s : Bytes) : UInt32 :=
  ~~~ s.foldl (fun c ch => crcRound^[8] (c ^^^ ch.toUInt32)) 0xffffffff

/-- `out`, `central` and `offset`. -/
structure ZipState where
  out : Bytes := []
  central : Bytes := []
  offset : UInt32 := 0

/-- The loop of `make_zip` over a name and a content. -/
def zipFile (z : ZipState) (f : Bytes × Bytes) : ZipState :=
  let crc := crc32Raw f.2
  let sz := UInt32.ofNat f.2.length
  let out := z.out ++ writeLe32 0x04034b50 ++ writeLe16 20 ++ writeLe16 0 ++ writeLe16 0 ++ writeLe16 0 ++
    writeLe16 0 ++ writeLe32 crc ++ writeLe32 sz ++ writeLe32 sz ++
    writeLe16 (UInt16.ofNat f.1.length) ++ writeLe16 0 ++ f.1 ++ f.2
  let central := z.central ++ writeLe32 0x02014b50 ++ writeLe16 20 ++ writeLe16 20 ++ writeLe16 0 ++
    writeLe16 0 ++ writeLe16 0 ++ writeLe16 0 ++ writeLe32 crc ++ writeLe32 sz ++ writeLe32 sz ++
    writeLe16 (UInt16.ofNat f.1.length) ++ writeLe16 0 ++ writeLe16 0 ++ writeLe16 0 ++ writeLe16 0 ++
    writeLe32 0 ++ writeLe32 z.offset ++ f.1
  { out := out, central := central, offset := z.offset + UInt32.ofNat (out.length - z.out.length) }

def makeZip (files : List (Bytes × Bytes)) : Bytes :=
  let z := files.foldl zipFile {}
  let cdStart := z.out.length
  let out := z.out ++ z.central
  let cdSize := out.length - cdStart
  out ++ writeLe32 0x06054b50 ++ writeLe16 0 ++ writeLe16 0 ++ writeLe16 (UInt16.ofNat files.length) ++
    writeLe16 (UInt16.ofNat files.length) ++ writeLe32 (UInt32.ofNat cdSize) ++
    writeLe32 (UInt32.ofNat cdStart) ++ writeLe16 0

/-! ### The layout -/

/-- A file with its checksum. -/
def zipped (f : Bytes × Bytes) : Zip.File := ⟨f.1, f.2, (crc32Raw f.2).toNat⟩

theorem and_byte (n : Nat) : n &&& 0xff = n % 256 := Nat.and_two_pow_sub_one_eq_mod n 8

theorem writeLe16_eq (v : UInt16) : writeLe16 v = leBytes 2 v.toNat := by
  have hlow : ∀ w : UInt16, (w &&& 0xff).toUInt8 = UInt8.ofNat w.toNat := by
    intro w
    have hand : (w &&& 0xff).toNat = w.toNat % 256 := (UInt16.toNat_and _ _).trans (and_byte _)
    rw [← UInt8.toNat_inj, UInt16.toNat_toUInt8, hand, UInt8.toNat_ofNat']
    exact Nat.mod_mod _ _
  have hhigh : (v >>> 8).toNat = v.toNat / 256 :=
    (UInt16.toNat_shiftRight _ _).trans (Nat.shiftRight_eq_div_pow _ 8)
  rw [writeLe16, hlow, hlow, hhigh]
  rfl

theorem writeLe32_eq (v : UInt32) : writeLe32 v = leBytes 4 v.toNat := by
  have hlow : ∀ w : UInt32, (w &&& 0xff).toUInt8 = UInt8.ofNat w.toNat := by
    intro w
    have hand : (w &&& 0xff).toNat = w.toNat % 256 := (UInt32.toNat_and _ _).trans (and_byte _)
    rw [← UInt8.toNat_inj, UInt32.toNat_toUInt8, hand, UInt8.toNat_ofNat']
    exact Nat.mod_mod _ _
  have h8 : (v >>> 8).toNat = v.toNat / 256 :=
    (UInt32.toNat_shiftRight _ _).trans (Nat.shiftRight_eq_div_pow _ 8)
  have h16 : (v >>> 16).toNat = v.toNat / 256 / 256 := by
    rw [Nat.div_div_eq_div_mul]
    exact (UInt32.toNat_shiftRight _ _).trans (Nat.shiftRight_eq_div_pow _ 16)
  have h24 : (v >>> 24).toNat = v.toNat / 256 / 256 / 256 := by
    rw [Nat.div_div_eq_div_mul, Nat.div_div_eq_div_mul]
    exact (UInt32.toNat_shiftRight _ _).trans (Nat.shiftRight_eq_div_pow _ 24)
  rw [writeLe32, hlow, hlow, hlow, hlow, h8, h16, h24]
  rfl

/-- Only the lowest bytes of a number are written. -/
theorem leBytes_mod (k n : Nat) : leBytes k (n % 256 ^ k) = leBytes k n := by
  induction k generalizing n with
  | zero => rfl
  | succ k ih =>
      have hlow : UInt8.ofNat (n % 256 ^ (k + 1)) = UInt8.ofNat n := by
        have hdvd : 256 ∣ 256 ^ (k + 1) := Dvd.intro_left (256 ^ k) rfl
        rw [← UInt8.toNat_inj, UInt8.toNat_ofNat', UInt8.toNat_ofNat']
        exact Nat.mod_mod_of_dvd n hdvd
      have hhigh : n % 256 ^ (k + 1) / 256 = n / 256 % 256 ^ k := by
        rw [pow_succ', Nat.mod_mul_right_div_self]
      rw [leBytes, leBytes, hlow, hhigh, ih]

theorem writeLe16_ofNat (n : Nat) : writeLe16 (UInt16.ofNat n) = leBytes 2 n := by
  have hwidth : 2 ^ 16 = 256 ^ 2 := by decide
  rw [writeLe16_eq, UInt16.toNat_ofNat', hwidth, leBytes_mod]

theorem writeLe32_ofNat (n : Nat) : writeLe32 (UInt32.ofNat n) = leBytes 4 n := by
  have hwidth : 2 ^ 32 = 256 ^ 4 := by decide
  rw [writeLe32_eq, UInt32.toNat_ofNat', hwidth, leBytes_mod]

/-- The local record of a file as it is written. -/
theorem localRecord_zipped (f : Bytes × Bytes) : localRecord (zipped f) =
    writeLe32 0x04034b50 ++ (writeLe16 20 ++ (writeLe16 0 ++ (writeLe16 0 ++ (writeLe16 0 ++ (writeLe16 0 ++
      (writeLe32 (crc32Raw f.2) ++ (writeLe32 (UInt32.ofNat f.2.length) ++
        (writeLe32 (UInt32.ofNat f.2.length) ++ (writeLe16 (UInt16.ofNat f.1.length) ++ (writeLe16 0 ++
          (f.1 ++ f.2))))))))))) := by
  simp only [localRecord, localFields, fieldBytes, List.flatMap_cons, List.flatMap_nil, zipped,
    writeLe16_ofNat, writeLe32_ofNat, List.append_assoc, List.nil_append]
  rw [writeLe32_eq (crc32Raw f.2)]
  rfl

theorem centralRecord_zipped (offset : UInt32) (f : Bytes × Bytes) :
    centralRecord offset.toNat (zipped f) =
      writeLe32 0x02014b50 ++ (writeLe16 20 ++ (writeLe16 20 ++ (writeLe16 0 ++ (writeLe16 0 ++ (writeLe16 0 ++
        (writeLe16 0 ++ (writeLe32 (crc32Raw f.2) ++ (writeLe32 (UInt32.ofNat f.2.length) ++
          (writeLe32 (UInt32.ofNat f.2.length) ++ (writeLe16 (UInt16.ofNat f.1.length) ++ (writeLe16 0 ++
            (writeLe16 0 ++ (writeLe16 0 ++ (writeLe16 0 ++ (writeLe32 0 ++ (writeLe32 offset ++
              f.1)))))))))))))))) := by
  simp only [centralRecord, centralFields, fieldBytes, List.flatMap_cons, List.flatMap_nil, zipped,
    writeLe16_ofNat, writeLe32_ofNat, List.append_assoc, List.nil_append]
  rw [writeLe32_eq (crc32Raw f.2), writeLe32_eq offset]
  rfl

/-- One file more behind those that the state has. -/
theorem zipFile_eq (z : ZipState) (f : Bytes × Bytes) : zipFile z f =
    { out := z.out ++ localRecord (zipped f)
      central := z.central ++ centralRecord z.offset.toNat (zipped f)
      offset := z.offset + UInt32.ofNat (localRecord (zipped f)).length } := by
  rw [centralRecord_zipped]
  have hout : (zipFile z f).out = z.out ++ localRecord (zipped f) := by
    rw [localRecord_zipped]
    simp only [zipFile, List.append_assoc]
  have hoffset : (zipFile z f).offset =
      z.offset + UInt32.ofNat ((zipFile z f).out.length - z.out.length) := rfl
  rw [hout, List.length_append, Nat.add_sub_cancel_left] at hoffset
  rw [← hout, ← hoffset]
  simp only [zipFile, List.append_assoc]

theorem centralRecord_ofNat (n : Nat) (f : Zip.File) :
    centralRecord (UInt32.ofNat n).toNat f = centralRecord n f := by
  have hoffset : leBytes 4 (UInt32.ofNat n).toNat = leBytes 4 n := by
    rw [← writeLe32_eq, writeLe32_ofNat]
  simp only [centralRecord, centralFields, fieldBytes, List.flatMap_cons, List.flatMap_nil, hoffset]

theorem foldl_zipFile (files : List (Bytes × Bytes)) {z : ZipState} {n : Nat}
    (hoffset : z.offset = UInt32.ofNat n) :
    (files.foldl zipFile z).out = z.out ++ locals (files.map zipped) ∧
      (files.foldl zipFile z).central = z.central ++ directory n (files.map zipped) := by
  induction files generalizing z n with
  | nil => exact ⟨(List.append_nil _).symm, (List.append_nil _).symm⟩
  | cons f files ih =>
      have hnext : (zipFile z f).offset = UInt32.ofNat (n + (localRecord (zipped f)).length) := by
        rw [zipFile_eq, hoffset, UInt32.ofNat_add]
      obtain ⟨hout, hcentral⟩ := ih hnext
      rw [List.foldl_cons, hout, hcentral, zipFile_eq, hoffset, centralRecord_ofNat]
      exact ⟨List.append_assoc _ _ _, List.append_assoc _ _ _⟩

/-- The archive is laid out record by record. -/
theorem makeZip_eq_layout (files : List (Bytes × Bytes)) :
    makeZip files = layout (files.map zipped) := by
  obtain ⟨hout, hcentral⟩ := foldl_zipFile files (z := {}) (n := 0) rfl
  rw [List.nil_append] at hout hcentral
  have hsize : (locals (files.map zipped) ++ directory 0 (files.map zipped)).length -
      (locals (files.map zipped)).length = (directory 0 (files.map zipped)).length := by
    rw [List.length_append, Nat.add_sub_cancel_left]
  rw [makeZip, hout, hcentral, hsize, layout, List.length_map]
  simp only [endBytes, endFields, fieldBytes, List.flatMap_cons, List.flatMap_nil, writeLe16_ofNat,
    writeLe32_ofNat, List.append_assoc]
  rfl

/-- Every name and content is read back, with the standard's checksum and where its record is. -/
theorem read_makeZip {files : List (Bytes × Bytes)} (hnames : ∀ f ∈ files, f.1.length < 2 ^ 16)
    (hcount : files.length < 2 ^ 16) (hsize : (makeZip files).length < 2 ^ 32) :
    ∃ entries, Zip.read (makeZip files) = some entries ∧
      entries.map (fun e => (e.name, e.content)) = files ∧
      ∀ e ∈ entries, Crc32.IsCrc32 e.content e.crc ∧
        localRecord e.toFile <+: (makeZip files).drop e.offset := by
  rw [makeZip_eq_layout] at hsize ⊢
  have hcontent : ∀ f ∈ files, f.2.length < 2 ^ 32 := by
    intro f hf
    have hlocal : (localRecord (zipped f)).length ≤ (locals (files.map zipped)).length :=
      (List.sublist_flatten_of_mem (List.mem_map_of_mem (List.mem_map_of_mem hf))).length_le
    have hrecord : (localRecord (zipped f)).length = 30 + f.1.length + f.2.length := length_localRecord _
    rw [layout, List.length_append] at hsize
    omega
  have hfits : ∀ f ∈ files.map zipped, f.Fits := by
    intro g hg
    obtain ⟨f, hf, rfl⟩ := List.mem_map.mp hg
    exact ⟨hnames f hf, hcontent f hf, (crc32Raw f.2).toNat_lt⟩
  refine ⟨_, read_layout hfits (by rwa [List.length_map]) hsize, ?_, ?_⟩
  · have hfiles := map_toFile_entries 0 (files.map zipped)
    have hpairs : (entries 0 (files.map zipped)).map (fun e => (e.name, e.content)) =
        ((entries 0 (files.map zipped)).map Zip.Entry.toFile).map fun f => (f.name, f.content) := by
      rw [List.map_map]
      rfl
    rw [hpairs, hfiles, List.map_map]
    exact List.map_id files
  · intro e he
    have hfile : e.toFile ∈ files.map zipped := by
      rw [← map_toFile_entries 0 (files.map zipped)]
      exact List.mem_map_of_mem he
    obtain ⟨f, -, hf⟩ := List.mem_map.mp hfile
    have hcrc : e.crc = (Crc32.crc32 e.content).toNat := by
      rw [← hf]
      rfl
    refine ⟨?_, localRecord_prefix [] _ he⟩
    rw [hcrc]
    exact Crc32.isCrc32_crc32 e.content

end ExamVan.Admin

namespace ExamVan.Admin

open ByteString Xml

/-! ### Building -/

structure SubmissionRow where
  id : Bytes := []
  examName : Bytes := []
  studentName : Bytes := []
  examNumber : Bytes := []
  studentClass : Bytes := []
  score : Bytes := []
  submittedAt : Bytes := []
  mac : Bytes := []

/-- The fields in the order of the columns. -/
def SubmissionRow.fields (r : SubmissionRow) : List Bytes :=
  [r.id, r.examName, r.studentName, r.examNumber, r.studentClass, r.score, r.submittedAt, r.mac]

def xmlEscape (s : Bytes) : Bytes :=
  s.flatMap fun ch =>
    if ch = chr '&' then str "&amp;"
    else if ch = chr '<' then str "&lt;"
    else if ch = chr '>' then str "&gt;"
    else if ch = chr '"' then str "&quot;"
    else if ch = chr '\t' ∨ ch = chr '\n' ∨ ch = chr '\r' then [ch]
    else if ch < 0x20 then []
    else [ch]

/-- `while (idx >= 0)`, each letter in front of those before it. -/
def colRef (idx : Int) : Bytes :=
  if 0 ≤ idx then colRef (idx / 26 - 1) ++ [chr 'A' + UInt8.ofNat (idx % 26).toNat] else []
termination_by (idx + 1).toNat
decreasing_by omega

def kHeaders : List Bytes :=
  [str "ID", str "Nama Ujian", str "Nama Siswa", str "Nomor Ujian", str "Kelas", str "Nilai",
    str "Waktu Kumpul", str "ID Perangkat"]

def sheetCell (number : Nat) (value : Bytes) (i : Nat) : Bytes :=
  str "<c r=\"" ++ colRef i ++ natText number ++ str "\" t=\"inlineStr\"><is><t>" ++ xmlEscape value ++
    str "</t></is></c>"

def sheetRow (number : Nat) (values : List Bytes) : Bytes :=
  str "<row r=\"" ++ natText number ++ str "\">" ++
    (values.zipIdx.flatMap fun v => sheetCell number v.1 v.2) ++ str "</row>"

/-- `sheet`. The row of a submission passes its fields as C strings. -/
def exportSheet (rows : List SubmissionRow) : Bytes :=
  str "<worksheet xmlns=\"http://schemas.openxmlformats.org/spreadsheetml/2006/main\"><sheetData>" ++
    sheetRow 1 kHeaders ++
    ((rows.zipIdx 2).flatMap fun r => sheetRow r.2 (r.1.fields.map Store.Postgres.cStr)) ++
    str "</sheetData></worksheet>"

def contentTypes : Bytes :=
  str "<?xml version=\"1.0\" encoding=\"UTF-8\"?><Types " ++
    str "xmlns=\"http://schemas.openxmlformats.org/package/2006/content-types\"><Default " ++
    str "Extension=\"rels\" " ++
    str "ContentType=\"application/vnd.openxmlformats-package.relationships+xml\"/><Default " ++
    str "Extension=\"xml\" ContentType=\"application/xml\"/><Override " ++
    str "PartName=\"/xl/workbook.xml\" " ++
    str "ContentType=\"application/vnd.openxmlformats-officedocument.spreadsheetml.sheet.main+xml\"/><Override " ++
    str "PartName=\"/xl/worksheets/sheet1.xml\" " ++
    str "ContentType=\"application/vnd.openxmlformats-officedocument.spreadsheetml.worksheet+xml\"/></Types>"

def rels : Bytes :=
  str "<?xml version=\"1.0\" encoding=\"UTF-8\"?><Relationships " ++
    str "xmlns=\"http://schemas.openxmlformats.org/package/2006/relationships\"><Relationship " ++
    str "Id=\"rId1\" " ++
    str "Type=\"http://schemas.openxmlformats.org/officeDocument/2006/relationships/officeDocument\" " ++
    str "Target=\"xl/workbook.xml\"/></Relationships>"

def workbook : Bytes :=
  str "<?xml version=\"1.0\" encoding=\"UTF-8\"?><workbook " ++
    str "xmlns=\"http://schemas.openxmlformats.org/spreadsheetml/2006/main\" " ++
    str "xmlns:r=\"http://schemas.openxmlformats.org/officeDocument/2006/relationships\"><sheets><sheet " ++
    str "name=\"Hasil\" sheetId=\"1\" r:id=\"rId1\"/></sheets></workbook>"

def buildSubmissionsXlsx (rows : List SubmissionRow) : Bytes :=
  makeZip [(str "[Content_Types].xml", contentTypes), (str "_rels/.rels", rels),
    (str "xl/workbook.xml", workbook), (str "xl/worksheets/sheet1.xml", exportSheet rows)]

/-! ### Reading -/

/-- The number of a row, and its cells with their references. -/
abbrev SheetRow := Bytes × List (Bytes × Bytes)

def readCell (c : Node) : Option (Bytes × Bytes) :=
  if c.name = str "c" ∧ c.attr (str "t") = some (str "inlineStr") then
    (c.attr (str "r")).bind fun ref =>
      ((c.child (str "is")).bind (·.child (str "t"))).map fun t => (ref, t.text)
  else none

def readRow (r : Node) : Option SheetRow :=
  if r.name = str "row" then
    (r.attr (str "r")).bind fun number => (r.children.mapM readCell).map fun cells => (number, cells)
  else none

def readSheet (s : Bytes) : Option (List SheetRow) :=
  (parse s).bind fun sheet =>
    if sheet.name = str "worksheet" then
      (sheet.child (str "sheetData")).bind fun data => data.children.mapM readRow
    else none

/-! ### The tree of the sheet -/

def cellNode (number : Nat) (value : Bytes) (i : Nat) : Node :=
  ⟨str "c", [(str "r", colRef i ++ natText number), (str "t", str "inlineStr")], [],
    [⟨str "is", [], [], [⟨str "t", [], value.filter isChar, []⟩]⟩]⟩

def rowNode (number : Nat) (values : List Bytes) : Node :=
  ⟨str "row", [(str "r", natText number)], [], values.zipIdx.map fun v => cellNode number v.1 v.2⟩

def sheetNode (rows : List (List Bytes)) : Node :=
  ⟨str "worksheet", [(str "xmlns", str "http://schemas.openxmlformats.org/spreadsheetml/2006/main")], [],
    [⟨str "sheetData", [], [], (rows.zipIdx 1).map fun r => rowNode r.2 r.1⟩]⟩

theorem xmlEscape_eq (s : Bytes) : xmlEscape s = escape (s.filter isChar) := by
  have hbyte : ∀ ch : UInt8, xmlEscape [ch] = escape ([ch].filter isChar) :=
    forall_byte (by decide)
  induction s with
  | nil => rfl
  | cons ch s ih =>
      have hsplit : (ch :: s).filter isChar = [ch].filter isChar ++ s.filter isChar :=
        List.filter_append [ch] s
      calc xmlEscape (ch :: s) = xmlEscape [ch] ++ xmlEscape s := by
            rw [xmlEscape, xmlEscape, xmlEscape, ← List.flatMap_append]
            rfl
        _ = escape ([ch].filter isChar) ++ escape (s.filter isChar) := by rw [hbyte, ih]
        _ = escape ((ch :: s).filter isChar) := by
            rw [hsplit, escape, escape, escape, List.flatMap_append]

theorem colRef_of_lt {i : Nat} (hi : i < 26) : colRef i = [chr 'A' + UInt8.ofNat i] := by
  have hlast : ¬ 0 ≤ (i : Int) / 26 - 1 := by omega
  have hletter : ((i : Int) % 26).toNat = i := by omega
  rw [colRef, if_pos (by omega), colRef, if_neg hlast, hletter]
  rfl

theorem plain_natText (n : Nat) : ∀ c ∈ natText n, c ∉ str "&<>\"" := by
  intro c hc
  have hdigit := isDigit_of_mem_natText hc
  revert hdigit
  exact forall_byte (p := fun c => isDigit c = true → c ∉ str "&<>\"") (by decide) c

theorem escape_cellRef {i : Nat} (hi : i < 26) (number : Nat) :
    escape (colRef i ++ natText number) = colRef i ++ natText number := by
  refine escape_eq_self fun c hc => ?_
  rcases List.mem_append.mp hc with hc | hc
  · rw [colRef_of_lt hi, List.mem_singleton] at hc
    rw [hc]
    have hall : ∀ i < 26, chr 'A' + UInt8.ofNat i ∉ str "&<>\"" := by decide +kernel
    exact hall i hi
  · exact plain_natText number c hc

theorem render_cellNode {i : Nat} (hi : i < 26) (number : Nat) (value : Bytes) :
    render (cellNode number value i) = sheetCell number value i := by
  have hopen : str "<c r=\"" = chr '<' :: (str "c" ++ (chr ' ' :: (str "r" ++ str "=\""))) := rfl
  have htype : str "\" t=\"inlineStr\"><is><t>" = chr '"' :: (chr ' ' :: (str "t" ++ (str "=\"" ++
      (escape (str "inlineStr") ++ (chr '"' :: (chr '>' :: (chr '<' :: (str "is" ++ (chr '>' ::
        (chr '<' :: (str "t" ++ [chr '>'])))))))))) ) := rfl
  have hclose : str "</t></is></c>" = chr '<' :: (chr '/' :: (str "t" ++ (chr '>' :: (chr '<' ::
      (chr '/' :: (str "is" ++ (chr '>' :: (chr '<' :: (chr '/' :: (str "c" ++ [chr '>'])))))))))) := rfl
  have hnil : escape [] = [] := rfl
  rw [sheetCell, hopen, htype, hclose, xmlEscape_eq]
  simp only [cellNode, render, renderAll, attrText, escape_cellRef hi, List.flatMap_cons, List.flatMap_nil,
    hnil, List.append_assoc, List.cons_append, List.nil_append, List.append_nil]

variable {values : List Bytes} {rows : List SubmissionRow}

theorem render_rowNode (hvalues : values.length ≤ 26) (number : Nat) :
    render (rowNode number values) = sheetRow number values := by
  have hopen : str "<row r=\"" = chr '<' :: (str "row" ++ (chr ' ' :: (str "r" ++ str "=\""))) := rfl
  have hmid : str "\">" = [chr '"', chr '>'] := rfl
  have hclose : str "</row>" = chr '<' :: (chr '/' :: (str "row" ++ [chr '>'])) := rfl
  have hnil : escape [] = [] := rfl
  have hcells : (values.zipIdx.map fun v => cellNode number v.1 v.2).flatMap render =
      values.zipIdx.flatMap fun v => sheetCell number v.1 v.2 := by
    rw [List.flatMap_map]
    refine List.flatMap_congr fun v hv => render_cellNode ?_ number v.1
    have hindex := List.snd_lt_of_mem_zipIdx hv
    omega
  rw [sheetRow, hopen, hmid, hclose, ← hcells]
  simp only [rowNode, render, renderAll_eq_flatMap, attrText, escape_eq_self (plain_natText number),
    List.flatMap_cons, List.flatMap_nil, hnil, List.append_assoc, List.cons_append, List.nil_append]

/-- The sheet is the text of its tree. -/
theorem render_sheetNode (rows : List SubmissionRow) :
    render (sheetNode (kHeaders :: rows.map fun r => r.fields.map Store.Postgres.cStr)) = exportSheet rows := by
  have hopen : str "<worksheet xmlns=\"http://schemas.openxmlformats.org/spreadsheetml/2006/main\"><sheetData>" =
      chr '<' :: (str "worksheet" ++ (chr ' ' :: (str "xmlns" ++ (str "=\"" ++
        (escape (str "http://schemas.openxmlformats.org/spreadsheetml/2006/main") ++ (chr '"' ::
          (chr '>' :: (chr '<' :: (str "sheetData" ++ [chr '>'])))))))) ) := rfl
  have hclose : str "</sheetData></worksheet>" = chr '<' :: (chr '/' :: (str "sheetData" ++ (chr '>' ::
      (chr '<' :: (chr '/' :: (str "worksheet" ++ [chr '>'])))))) := rfl
  have hnil : escape [] = [] := rfl
  have hrows : (((kHeaders :: rows.map fun r => r.fields.map Store.Postgres.cStr).zipIdx 1).map
        fun r => rowNode r.2 r.1).flatMap render =
      sheetRow 1 kHeaders ++
        (rows.zipIdx 2).flatMap fun r => sheetRow r.2 (r.1.fields.map Store.Postgres.cStr) := by
    rw [List.zipIdx_cons, List.map_cons, List.flatMap_cons, render_rowNode (by decide), List.zipIdx_map,
      List.map_map, List.flatMap_map]
    congr 1
    exact List.flatMap_congr fun r _ => render_rowNode (by simp [SubmissionRow.fields]) r.2
  rw [exportSheet, hopen, hclose, List.append_assoc, List.append_assoc, ← List.append_assoc (sheetRow 1 kHeaders),
    ← hrows]
  simp only [sheetNode, render, renderAll_eq_flatMap, attrText, List.flatMap_cons, List.flatMap_nil, hnil,
    List.append_assoc, List.cons_append, List.nil_append, List.append_nil]

/-! ### Reading the sheet -/

def columns : List Bytes :=
  [str "A", str "B", str "C", str "D", str "E", str "F", str "G", str "H"]

/-- A row of texts in these columns. -/
def expectedRow (number : Nat) (texts : List Bytes) : SheetRow :=
  (natText number, (columns.zip texts).map fun c => (c.1 ++ natText number, c.2.filter isChar))

def expectedRows (rows : List (List Bytes)) : List SheetRow :=
  (rows.zipIdx 1).map fun r => expectedRow r.2 r.1

theorem mapM_map {α β γ : Type*} {f : β → Option γ} {g : α → β} {h : α → γ} {l : List α}
    (hf : ∀ a ∈ l, f (g a) = some (h a)) : (l.map g).mapM f = some (l.map h) := by
  induction l with
  | nil => rfl
  | cons a l ih =>
      rw [List.forall_mem_cons] at hf
      rw [List.map_cons, List.mapM_cons, hf.1, ih hf.2]
      rfl

theorem named_cellNode (number : Nat) (value : Bytes) (i : Nat) : Named (cellNode number value i) := by
  have hnames : ∀ name ∈ [str "c", str "is", str "t", str "r"], IsName name := by decide
  simp only [List.forall_mem_cons] at hnames
  simp only [cellNode, Named, AllNamed, List.forall_mem_cons]
  exact ⟨hnames.1, ⟨hnames.2.2.2.1, hnames.2.2.1, by simp⟩, ⟨hnames.2.1, by simp,
    ⟨hnames.2.2.1, by simp, trivial⟩, trivial⟩, trivial⟩

theorem named_rowNode (number : Nat) (values : List Bytes) : Named (rowNode number values) := by
  refine ⟨by decide, ?_, (allNamed_iff _).mpr ?_⟩
  · simp only [List.forall_mem_cons]
    exact ⟨by decide, by simp⟩
  · intro n hn
    obtain ⟨v, -, rfl⟩ := List.mem_map.mp hn
    exact named_cellNode number v.1 v.2

theorem named_sheetNode (rows : List (List Bytes)) : Named (sheetNode rows) := by
  refine ⟨by decide, ?_, ⟨by decide, by simp, (allNamed_iff _).mpr ?_⟩, trivial⟩
  · simp only [List.forall_mem_cons]
    exact ⟨by decide, by simp⟩
  · intro n hn
    obtain ⟨r, -, rfl⟩ := List.mem_map.mp hn
    exact named_rowNode r.2 r.1

theorem readCell_cellNode (number : Nat) (value : Bytes) (i : Nat) :
    readCell (cellNode number value i) = some (colRef i ++ natText number, value.filter isChar) := rfl

/-- Eight columns, from A to H. -/
theorem zipIdx_columns (hvalues : values.length = 8) (number : Nat) :
    (values.zipIdx.map fun v => (colRef v.2 ++ natText number, v.1.filter isChar)) =
      (columns.zip values).map fun c => (c.1 ++ natText number, c.2.filter isChar) := by
  have hcolumns : columns = (List.range' 0 8).map fun i : Nat => colRef i := by
    have hletters : columns = (List.range' 0 8).map fun i => [chr 'A' + UInt8.ofNat i] := rfl
    rw [hletters]
    refine List.map_congr_left fun i hi => (colRef_of_lt ?_).symm
    have hlast := (List.mem_range'_1.mp hi).2
    omega
  have hindex : values.zipIdx = ((List.range' 0 8).zip values).map Prod.swap := by
    rw [List.zip_swap, List.zipIdx_eq_zip_range', hvalues]
  rw [hcolumns, hindex, List.zip_map_left, List.map_map, List.map_map]
  rfl

theorem readRow_rowNode (hvalues : values.length = 8) (number : Nat) :
    readRow (rowNode number values) = some (expectedRow number values) := by
  have hcells : (rowNode number values).children.mapM readCell =
      some (values.zipIdx.map fun v => (colRef v.2 ++ natText number, v.1.filter isChar)) :=
    mapM_map fun v _ => readCell_cellNode number v.1 v.2
  have hattr : (rowNode number values).attr (str "r") = some (natText number) := rfl
  have hname : (rowNode number values).name = str "row" := rfl
  rw [readRow, if_pos hname, hattr, Option.bind_some, hcells, zipIdx_columns hvalues]
  rfl

/-- The header row and a row for each submission, in the order of the input. -/
theorem readSheet_exportSheet (hnul : ∀ r ∈ rows, ∀ v ∈ r.fields, 0 ∉ v) :
    readSheet (exportSheet rows) =
      some (expectedRows (kHeaders :: rows.map SubmissionRow.fields)) := by
  have hfields : (rows.map fun r => r.fields.map Store.Postgres.cStr) = rows.map SubmissionRow.fields := by
    refine List.map_congr_left fun r hr => ?_
    calc r.fields.map Store.Postgres.cStr = r.fields.map id :=
          List.map_congr_left fun v hv => Store.Postgres.cStr_eq_self (hnul r hr v hv)
      _ = r.fields := List.map_id _
  have hdata : (((kHeaders :: rows.map SubmissionRow.fields).zipIdx 1).map fun r =>
      rowNode r.2 r.1).mapM readRow = some (expectedRows (kHeaders :: rows.map SubmissionRow.fields)) := by
    refine mapM_map fun r hr => readRow_rowNode ?_ r.2
    rcases List.mem_cons.mp (List.fst_mem_of_mem_zipIdx hr) with hhead | hrow
    · rw [hhead]
      rfl
    · obtain ⟨row, -, hrow⟩ := List.mem_map.mp hrow
      rw [← hrow]
      rfl
  rw [readSheet, ← render_sheetNode, hfields, parse_render (named_sheetNode _), Option.bind_some]
  exact hdata

/-- In the file of an export, too. -/
theorem readSheet_buildSubmissionsXlsx (hnul : ∀ r ∈ rows, ∀ v ∈ r.fields, 0 ∉ v)
    (hsize : (buildSubmissionsXlsx rows).length < 2 ^ 32) :
    ∃ entries, Zip.read (buildSubmissionsXlsx rows) = some entries ∧
      ∃ e ∈ entries, e.name = str "xl/worksheets/sheet1.xml" ∧
        readSheet e.content = some (expectedRows (kHeaders :: rows.map SubmissionRow.fields)) := by
  have hnames : ∀ f ∈ [(str "[Content_Types].xml", contentTypes), (str "_rels/.rels", rels),
      (str "xl/workbook.xml", workbook), (str "xl/worksheets/sheet1.xml", exportSheet rows)],
      f.1.length < 2 ^ 16 := by
    simp only [List.forall_mem_cons]
    exact ⟨by decide, by decide, by decide, by decide, by simp⟩
  obtain ⟨entries, hread, hfiles, -⟩ := read_makeZip hnames (by simp) hsize
  have hsheet : (str "xl/worksheets/sheet1.xml", exportSheet rows) ∈
      entries.map fun e => (e.name, e.content) := by
    rw [hfiles]
    simp
  obtain ⟨e, he, hpair⟩ := List.mem_map.mp hsheet
  obtain ⟨hname, hcontent⟩ := Prod.mk.inj hpair
  refine ⟨entries, hread, e, he, hname, ?_⟩
  rw [hcontent]
  exact readSheet_exportSheet hnul

/-- An archive gives its files back, and the sheet of an export its rows. -/
theorem export_readBack :
    (∀ files : List (Bytes × Bytes), (∀ f ∈ files, f.1.length < 2 ^ 16) → files.length < 2 ^ 16 →
      (makeZip files).length < 2 ^ 32 →
        ∃ entries, Zip.read (makeZip files) = some entries ∧
          entries.map (fun e => (e.name, e.content)) = files ∧
          ∀ e ∈ entries, Crc32.IsCrc32 e.content e.crc ∧
            Zip.localRecord e.toFile <+: (makeZip files).drop e.offset) ∧
      ∀ rows : List SubmissionRow, (∀ r ∈ rows, ∀ v ∈ r.fields, 0 ∉ v) →
        readSheet (exportSheet rows) = some (expectedRows (kHeaders :: rows.map SubmissionRow.fields)) :=
  ⟨fun _ hnames hcount hsize => read_makeZip hnames hcount hsize,
    fun _ hnul => readSheet_exportSheet hnul⟩

def exportRow : SubmissionRow :=
  { id := str "1", examName := str "Kimia & Fisika", studentName := str "<Ani>\x01", score := str "85" }

/-- One file, and one submission with a control character in a name. -/
theorem export_readBack_one :
    (∃ entries, Zip.read (makeZip [(str "a.txt", str "isi")]) = some entries ∧
      entries.map (fun e => (e.name, e.content)) = [(str "a.txt", str "isi")] ∧
      ∀ e ∈ entries, Crc32.IsCrc32 e.content e.crc ∧
        Zip.localRecord e.toFile <+: (makeZip [(str "a.txt", str "isi")]).drop e.offset) ∧
      readSheet (exportSheet [exportRow]) = some (expectedRows (kHeaders :: [exportRow.fields])) :=
  ⟨export_readBack.1 [(str "a.txt", str "isi")] (by decide) (by decide) (by decide +kernel),
    export_readBack.2 [exportRow] (by decide)⟩

end ExamVan.Admin
