import ExamVan.Admin.Upload
import ExamVan.Lib.JsonText

/-!
# A form and its multipart body

The parts of a form are written with a delimiter before each and a closing one at the end.
`parse_multipart` looks for the delimiter anywhere, for attributes by their first spelling, and takes
the blanks off the boundary. It recovers a form exactly if no part's data contains the delimiter and
the attributes of each part are where the searches come upon them.
-/

namespace ExamVan.Admin

open ByteString Queue

/-! ### Forms -/

structure SentFile where
  name : Bytes
  type : Bytes
  /-- the field's name stands before the file's -/
  nameFirst : Bool := true

structure FormPart where
  name : Bytes
  data : Bytes
  file : Option SentFile := none

def nameAttribute (name : Bytes) : Bytes := str "name=\"" ++ (name ++ [chr '"'])

def fileAttribute (name : Bytes) : Bytes := str "filename=\"" ++ (name ++ [chr '"'])

/-- The `Content-Disposition` of a part. -/
def FormPart.disposition (p : FormPart) : Bytes :=
  str "Content-Disposition: form-data; " ++
    match p.file with
    | none => nameAttribute p.name
    | some f =>
        if f.nameFirst then nameAttribute p.name ++ (str "; " ++ fileAttribute f.name)
        else fileAttribute f.name ++ (str "; " ++ nameAttribute p.name)

def FormPart.header (p : FormPart) : Bytes :=
  match p.file with
  | none => p.disposition
  | some f => p.disposition ++ (str "\r\n" ++ (str "Content-Type: " ++ f.type))

def FormPart.encode (delim : Bytes) (p : FormPart) : Bytes :=
  delim ++ (str "\r\n" ++ (p.header ++ (str "\r\n\r\n" ++ (p.data ++ str "\r\n"))))

/-- The body of a form: its parts, and the delimiter that closes them. -/
def encodeForm (delim : Bytes) (parts : List FormPart) : Bytes :=
  parts.flatMap (FormPart.encode delim) ++ (delim ++ str "--\r\n")

def FormPart.send (form : MultipartForm) (p : FormPart) : MultipartForm :=
  match p.file with
  | none => { form with fields := form.fields.insert p.name p.data }
  | some f => { form with fileName := f.name, fileData := p.data, fileType := f.type }

/-- The text fields with their data, and the file. -/
def sentForm (parts : List FormPart) : MultipartForm := parts.foldl FormPart.send {}

/-! ### Boundaries -/

def isTokenByte (c : UInt8) : Bool :=
  (chr '0' ≤ c && c ≤ chr '9') || (chr 'A' ≤ c && c ≤ chr 'Z') || (chr 'a' ≤ c && c ≤ chr 'z') ||
    (str "'+_-.").contains c

/-- The characters of a boundary; those that are no token's need quotes. -/
def isBoundaryByte (c : UInt8) : Bool := isTokenByte c || (str "(),/:=? ").contains c

structure Boundary where
  text : Bytes
  bytes : ∀ c ∈ text, isBoundaryByte c = true
  length : 1 ≤ text.length ∧ text.length ≤ 70
  last : text.getLast? ≠ some (chr ' ')

def Boundary.delimiter (b : Boundary) : Bytes := str "--" ++ b.text

/-- What follows the boundary in a `Content-Type`: nothing, or other parameters. -/
def MoreParameters (more : Bytes) : Prop :=
  ∃ blanks params : Bytes, more = blanks ++ params ∧ (∀ c ∈ blanks, c = chr ' ' ∨ c = chr '\t') ∧
    (params = [] ∨ params.head? = some (chr ';'))

/-- A `Content-Type` with this boundary. -/
inductive Names (b : Boundary) : Bytes → Prop
  | quoted {more : Bytes} (h : MoreParameters more) :
      Names b (str "multipart/form-data; boundary=" ++ chr '"' :: (b.text ++ chr '"' :: more))
  | token {more : Bytes} (hb : ∀ c ∈ b.text, isTokenByte c = true) (h : MoreParameters more) :
      Names b (str "multipart/form-data; boundary=" ++ (b.text ++ more))

/-! ### What can be sent, and what is recovered -/

/-- A value between quotes in a header. -/
def QuotedValue (s : Bytes) : Prop := chr '"' ∉ s ∧ chr '\r' ∉ s ∧ chr '\n' ∉ s

instance (s : Bytes) : Decidable (QuotedValue s) :=
  inferInstanceAs (Decidable (chr '"' ∉ s ∧ chr '\r' ∉ s ∧ chr '\n' ∉ s))

/-- A content type in a header. -/
structure HeaderValue (s : Bytes) : Prop where
  cr : chr '\r' ∉ s
  lf : chr '\n' ∉ s
  head : ∃ c ∈ s.head?, isTrimmedByte c = false
  last : ∃ c ∈ s.getLast?, isTrimmedByte c = false

/-- The part has a header of one line for each field, and no line of its data begins with the
delimiter. -/
structure ValidPart (delim : Bytes) (p : FormPart) : Prop where
  name : QuotedValue p.name
  fileName : ∀ f ∈ p.file, QuotedValue f.name
  fileType : ∀ f ∈ p.file, HeaderValue f.type
  data : findSub (str "\r\n" ++ delim) p.data = none

structure ValidForm (delim : Bytes) (parts : List FormPart) : Prop where
  part : ∀ p ∈ parts, ValidPart delim p
  names : (parts.map FormPart.name).Nodup
  oneFile : (parts.filter fun p => p.file.isSome).length ≤ 1

/-- What stands behind a `Content-Type:`, without the blanks around it. -/
def typeBehind (t : Bytes) : Bytes :=
  ((t.drop 13).dropWhile fun c => c = chr ' ' || c = chr '\t').rdropWhile isTrimmedByte

/-- The file's name is not empty and is behind the first `filename=` with a quote, and its type behind
the first `Content-Type:`. -/
structure FileStands (p : FormPart) (f : SentFile) : Prop where
  named : f.name ≠ []
  first : f.nameFirst = true → str "filename=" <:+ p.name → f.name = str "; filename="
  type : ∀ t, findSub (str "Content-Type:") p.disposition = some t → f.type = typeBehind t

/-- The delimiter is nowhere in the data, a field has a name, and a file's attributes are found. -/
structure PartStands (delim : Bytes) (p : FormPart) : Prop where
  data : findSub delim p.data = none
  named : p.file = none → p.name ≠ []
  file : ∀ f ∈ p.file, FileStands p f

section

variable {n a s t delim : Bytes} {c : UInt8}

/-! ### Searching across a byte that is not searched for -/

theorem findSub_append_cons (hc : c ∉ n) (hn : n ≠ []) (h : findSub n a = none) (s : Bytes) :
    findSub n (a ++ c :: s) = findSub n s := by
  have hbegins : ∀ {a : Bytes}, n <+: a ++ c :: s → n <+: a := by
    intro a hhead
    obtain ⟨u, hu⟩ := hhead
    rcases List.append_eq_append_iff.mp hu with ⟨w, hw, -⟩ | ⟨w, hw, hrest⟩
    · exact ⟨w, hw.symm⟩
    · cases w with
      | nil => exact ⟨[], by simpa using hw⟩
      | cons d w =>
          obtain ⟨rfl, -⟩ := List.cons.inj hrest
          exact absurd (hw ▸ List.mem_append_right _ List.mem_cons_self) hc
  induction a with
  | nil =>
      have hno : ¬ n <+: c :: s := fun hhead => hn (List.prefix_nil.mp (hbegins hhead))
      rw [List.nil_append, findSub, if_neg hno]
  | cons d a ih =>
      rw [findSub] at h
      split at h
      · cases h
      · next hno =>
          have hlater : ¬ n <+: d :: (a ++ c :: s) := fun hhead => hno (hbegins hhead)
          rw [List.cons_append, findSub, if_neg hlater]
          exact ih h

/-! ### One part -/

/-- A delimiter: no line end in it, and more than the two dashes. -/
structure Delimits (delim : Bytes) : Prop where
  cr : chr '\r' ∉ delim
  lf : chr '\n' ∉ delim
  ne_nil : delim ≠ []

theorem before_append (x y : Bytes) : before (x ++ y) y = x := by
  rw [before, List.length_append, Nat.add_sub_cancel]
  exact List.take_left' rfl

/-- A header line has no line end in it. -/
theorem notMem_disposition {p : FormPart} (h : ValidPart delim p) (hc : c = chr '\r' ∨ c = chr '\n') :
    c ∉ p.disposition := by
  have hvalue : ∀ {s : Bytes}, QuotedValue s → c ∉ s := by
    rintro s ⟨-, hcr, hlf⟩
    rcases hc with rfl | rfl
    · exact hcr
    · exact hlf
  have hfixed : ∀ w ∈ ["Content-Disposition: form-data; ", "; ", "name=\"", "filename=\"", "\""],
      c ∉ str w := by
    rcases hc with rfl | rfl <;> decide
  simp only [List.forall_mem_cons] at hfixed
  obtain ⟨hbegins, hsemicolon, hnamed, hfiled, hquote, -⟩ := hfixed
  have hname : ∀ {s : Bytes}, QuotedValue s → c ∉ nameAttribute s := by
    intro s hs
    rw [nameAttribute, List.mem_append, List.mem_append, not_or, not_or]
    exact ⟨hnamed, hvalue hs, hquote⟩
  have hfile : ∀ {s : Bytes}, QuotedValue s → c ∉ fileAttribute s := by
    intro s hs
    rw [fileAttribute, List.mem_append, List.mem_append, not_or, not_or]
    exact ⟨hfiled, hvalue hs, hquote⟩
  unfold FormPart.disposition
  rw [List.mem_append, not_or]
  refine ⟨hbegins, ?_⟩
  cases hf : p.file with
  | none => exact hname h.name
  | some f =>
      have hfileName := hfile (h.fileName f hf)
      dsimp only
      split_ifs
      all_goals
        simp only [List.mem_append, not_or]
        exact ⟨by first | exact hname h.name | exact hfileName, hsemicolon,
          by first | exact hname h.name | exact hfileName⟩

theorem cr_notMem_disposition {p : FormPart} (h : ValidPart delim p) : chr '\r' ∉ p.disposition :=
  notMem_disposition h (.inl rfl)

theorem findSub_header {p : FormPart} (h : ValidPart delim p) (s : Bytes) :
    findSub (str "\r\n\r\n") (p.header ++ (str "\r\n\r\n" ++ s)) = some (str "\r\n\r\n" ++ s) := by
  have hend : findSub (str "\r\n\r\n") (str "\r\n\r\n" ++ s) = some (str "\r\n\r\n" ++ s) :=
    findSub_of_head (List.prefix_append _ _)
  have hskip : ∀ {skip : Bytes}, chr '\r' ∉ skip → ∀ s,
      findSub (str "\r\n\r\n") (skip ++ s) = findSub (str "\r\n\r\n") s :=
    fun hcr s => findSub_append_of_notMem hcr
  have hline := cr_notMem_disposition h
  unfold FormPart.header
  cases hf : p.file with
  | none => exact (hskip hline _).trans hend
  | some f =>
      have htype := (h.fileType f hf).cr
      have hrest : chr '\r' ∉ chr '\n' :: (str "Content-Type: " ++ f.type) := by
        rw [List.mem_cons, List.mem_append, not_or, not_or]
        exact ⟨by decide, by decide, htype⟩
      have hno : ¬ str "\r\n\r\n" <+: chr '\r' :: (chr '\n' :: (str "Content-Type: " ++ f.type) ++
          (str "\r\n\r\n" ++ s)) := by
        simp [str, chr, List.cons_prefix_cons]
      have htext : p.disposition ++ (str "\r\n" ++ (str "Content-Type: " ++ f.type)) ++
          (str "\r\n\r\n" ++ s) = p.disposition ++ (chr '\r' ::
            (chr '\n' :: (str "Content-Type: " ++ f.type) ++ (str "\r\n\r\n" ++ s))) := by
        simp [str]
      rw [htext, hskip hline, findSub, if_neg hno, hskip hrest, hend]

theorem findSub_data (hd : Delimits delim) {data : Bytes} (h : findSub delim data = none) (u : Bytes) :
    findSub delim (data ++ (str "\r\n" ++ (delim ++ u))) = some (delim ++ u) := by
  have hnl : findSub delim (chr '\n' :: (delim ++ u)) = some (delim ++ u) := by
    have hskip := findSub_append_cons (a := []) hd.lf hd.ne_nil (findSub_eq_none_of_length (by
      simpa using List.length_pos_iff.mpr hd.ne_nil)) (delim ++ u)
    rw [List.nil_append] at hskip
    rw [hskip, findSub_of_head (List.prefix_append _ _)]
  exact (findSub_append_cons hd.cr hd.ne_nil h _).trans hnl

/-- A round takes a part whose data does not contain the delimiter. -/
theorem multipartParts_part (hd : Delimits delim) {p : FormPart} (h : ValidPart delim p)
    (hdata : findSub delim p.data = none) (fuel : Nat) (u : Bytes) (form : MultipartForm) :
    multipartParts delim (fuel + 1) (p.encode delim ++ (delim ++ u)) form =
      multipartParts delim fuel (delim ++ u) (form.addPart p.header p.data) := by
  have htext : p.encode delim ++ (delim ++ u) = delim ++ (str "\r\n" ++ (p.header ++
      (str "\r\n\r\n" ++ (p.data ++ (str "\r\n" ++ (delim ++ u)))))) := by
    simp [FormPart.encode]
  have hdashes : ∀ x, ¬ str "--" <+: str "\r\n" ++ x := by
    intro x
    simp [str, chr, List.cons_prefix_cons]
  have hraw : before (p.data ++ (str "\r\n" ++ (delim ++ u))) (delim ++ u) = p.data ++ str "\r\n" := by
    rw [← List.append_assoc]
    exact before_append _ _
  have hne : p.data ++ str "\r\n" ≠ [] := by simp [str]
  have hcut : (p.data ++ str "\r\n").dropLast.dropLast = p.data := by
    have hsplit : p.data ++ str "\r\n" = (p.data ++ [chr '\r']) ++ [chr '\n'] := by simp [str]
    rw [hsplit, List.dropLast_concat, List.dropLast_concat]
  rw [htext, multipartParts, findSub_of_head (List.prefix_append _ _)]
  simp only [List.drop_left]
  rw [if_neg (hdashes _), if_pos (List.prefix_append _ _)]
  have hdrop : ∀ x, (str "\r\n" ++ x).drop 2 = x := fun x => rfl
  have hdrop4 : ∀ x, (str "\r\n\r\n" ++ x).drop 4 = x := fun x => rfl
  simp only [hdrop, findSub_header h, hdrop4, findSub_data hd hdata, hraw, before_append]
  rw [if_neg hne, if_pos (List.suffix_append _ _), hcut]

theorem multipartParts_end (fuel : Nat) (form : MultipartForm) :
    multipartParts delim (fuel + 1) (delim ++ str "--\r\n") form = form := by
  rw [multipartParts, findSub_of_head (List.prefix_append _ _)]
  simp only [List.drop_left]
  rw [if_pos ⟨str "\r\n", rfl⟩]

theorem encodeForm_cons (p : FormPart) (parts : List FormPart) :
    encodeForm delim (p :: parts) = p.encode delim ++ encodeForm delim parts := by
  simp [encodeForm]

theorem delim_prefix_encodeForm (parts : List FormPart) : delim <+: encodeForm delim parts := by
  cases parts with
  | nil => exact List.prefix_append _ _
  | cons p parts =>
      rw [encodeForm_cons, FormPart.encode, List.append_assoc]
      exact List.prefix_append _ _

/-- Parts whose data do not contain the delimiter are taken as they were put. -/
theorem multipartParts_append (hd : Delimits delim) {parts rest : List FormPart}
    (h : ∀ p ∈ parts, ValidPart delim p) (hdata : ∀ p ∈ parts, findSub delim p.data = none) (fuel : Nat)
    (form : MultipartForm) :
    multipartParts delim (fuel + parts.length) (encodeForm delim (parts ++ rest)) form =
      multipartParts delim fuel (encodeForm delim rest)
        (parts.foldl (fun form p => form.addPart p.header p.data) form) := by
  induction parts generalizing form with
  | nil => rfl
  | cons p parts ih =>
      obtain ⟨hp, hrest⟩ := List.forall_mem_cons.mp h
      obtain ⟨hpdata, hrestdata⟩ := List.forall_mem_cons.mp hdata
      have hbegin : delim <+: encodeForm delim (parts ++ rest) := delim_prefix_encodeForm _
      obtain ⟨u, hu⟩ := hbegin
      rw [List.cons_append, encodeForm_cons, ← hu, List.length_cons, ← Nat.add_assoc,
        multipartParts_part hd hp hpdata, hu, ih hrest hrestdata, List.foldl_cons]

/-- A body whose data do not contain the delimiter is taken apart as it was put together. -/
theorem multipartParts_encode (hd : Delimits delim) {parts : List FormPart}
    (h : ∀ p ∈ parts, ValidPart delim p) (hdata : ∀ p ∈ parts, findSub delim p.data = none) {fuel : Nat}
    (hfuel : parts.length < fuel) (form : MultipartForm) :
    multipartParts delim fuel (encodeForm delim parts) form =
      parts.foldl (fun form p => form.addPart p.header p.data) form := by
  obtain ⟨fuel, rfl⟩ := Nat.exists_eq_add_of_le' (Nat.succ_le_of_lt hfuel)
  have happend : multipartParts delim (fuel + 1 + parts.length) (encodeForm delim (parts ++ [])) form =
      multipartParts delim (fuel + 1) (encodeForm delim [])
        (parts.foldl (fun form p => form.addPart p.header p.data) form) :=
    multipartParts_append hd h hdata (fuel + 1) form
  rw [List.append_nil, Nat.add_right_comm] at happend
  exact happend.trans (multipartParts_end fuel _)

/-! ### Attributes -/

/-- A text with a quote at its end is found before the next quote or behind it. -/
theorem findSub_quote {x : Bytes} (hn : chr '"' ∉ n) (hne : n ≠ []) (hx : chr '"' ∉ x) (y : Bytes) :
    findSub (n ++ [chr '"']) (x ++ chr '"' :: y) =
      if n <:+ x then some (n ++ chr '"' :: y) else findSub (n ++ [chr '"']) y := by
  have hhead : ∀ {z : Bytes}, chr '"' ∉ z → (n ++ [chr '"'] <+: z ++ chr '"' :: y ↔ n = z) := by
    intro z hz
    constructor
    · rintro ⟨w, hw⟩
      rw [List.append_assoc, List.singleton_append] at hw
      rw [← (takeWhile_ne_append hn w).1, hw, (takeWhile_ne_append hz _).1]
    · rintro rfl
      exact ⟨y, by simp⟩
  induction x with
  | nil =>
      have hno : ¬ n <:+ [] := fun h => hne (List.suffix_nil.mp h)
      have hskip : ¬ n ++ [chr '"'] <+: chr '"' :: y := fun h => hne ((hhead hx).mp h)
      rw [List.nil_append, if_neg hno, findSub, if_neg hskip]
  | cons d x ih =>
      have hrest : chr '"' ∉ x := fun hmem => hx (List.mem_cons_of_mem d hmem)
      rw [List.cons_append, findSub, ← List.cons_append]
      by_cases heq : n = d :: x
      · rw [if_pos ((hhead hx).mpr heq), if_pos (heq ▸ List.suffix_rfl), heq]
      · have hsuffix : n <:+ d :: x ↔ n <:+ x := by
          rw [List.suffix_cons_iff]
          exact or_iff_right heq
        rw [if_neg fun h => heq ((hhead hx).mp h), ih hrest, if_congr hsuffix rfl rfl]

theorem quotedParam_eq {name hdr : Bytes} {found : Bytes}
    (h : findSub (name ++ str "=\"") hdr = some (name ++ str "=\"" ++ found)) :
    quotedParam name hdr = some (if found.any (· = chr '"') then found.takeWhile (· ≠ chr '"') else []) := by
  have hlength : (name ++ str "=\"").length = name.length + 2 := by simp [str]
  have hdrop : (name ++ str "=\"" ++ found).drop (name.length + 2) = found := by
    rw [← hlength]
    exact List.drop_left
  rw [quotedParam, h, Option.map_some, hdrop]

theorem quotedParam_of_none {name hdr : Bytes} (h : findSub (name ++ str "=\"") hdr = none) :
    quotedParam name hdr = none := by
  rw [quotedParam, h, Option.map_none]

/-- The file's name as it is found in the header of a file. -/
def foundName (p : FormPart) (f : SentFile) : Bytes :=
  if f.nameFirst = true ∧ str "filename=" <:+ p.name then str "; filename=" else f.name

theorem any_quote (z y : Bytes) : (z ++ chr '"' :: y).any (fun c => c = chr '"') = true :=
  List.any_eq_true.mpr ⟨chr '"', by simp, by simp⟩

theorem quotedParam_file {p : FormPart} {f : SentFile} (hf : p.file = some f) (h : ValidPart delim p) :
    quotedParam (str "filename") p.header = some (foundName p f) := by
  have hneedle : str "filename" ++ str "=\"" = str "filename=" ++ [chr '"'] := rfl
  have hplain : chr '"' ∉ str "filename=" := by decide
  have hne : str "filename=" ≠ [] := by decide
  have hname := h.name.1
  have hfile := (h.fileName f hf).1
  have hfound : ∀ {hdr z y : Bytes}, chr '"' ∉ z →
      findSub (str "filename=" ++ [chr '"']) hdr = some (str "filename=" ++ chr '"' :: (z ++ chr '"' :: y)) →
      quotedParam (str "filename") hdr = some z := by
    intro hdr z y hz hfind
    have hsome : findSub (str "filename" ++ str "=\"") hdr =
        some (str "filename" ++ str "=\"" ++ (z ++ chr '"' :: y)) := by
      rw [hneedle, hfind]
      simp
    rw [quotedParam_eq hsome, if_pos (any_quote z y), (takeWhile_ne_append hz _).1]
  unfold FormPart.header foundName
  rw [hf]
  dsimp only
  cases hfirst : f.nameFirst with
  | true =>
      have htext : p.disposition ++ (str "\r\n" ++ (str "Content-Type: " ++ f.type)) =
          str "Content-Disposition: form-data; name=" ++ chr '"' :: (p.name ++ chr '"' ::
            (str "; filename=" ++ chr '"' :: (f.name ++ chr '"' ::
              (str "\r\n" ++ (str "Content-Type: " ++ f.type))))) := by
        simp [FormPart.disposition, hf, hfirst, nameAttribute, fileAttribute, str, chr]
      by_cases hends : str "filename=" <:+ p.name
      · rw [if_pos ⟨rfl, hends⟩, htext]
        refine hfound (y := f.name ++ chr '"' :: (str "\r\n" ++ (str "Content-Type: " ++ f.type)))
          (by decide) ?_
        rw [findSub_quote hplain hne (by decide), if_neg (by decide),
          findSub_quote hplain hne hname, if_pos hends]
      · rw [if_neg fun hboth => hends hboth.2, htext]
        refine hfound (y := str "\r\n" ++ (str "Content-Type: " ++ f.type)) hfile ?_
        rw [findSub_quote hplain hne (by decide), if_neg (by decide),
          findSub_quote hplain hne hname, if_neg hends,
          findSub_quote hplain hne (by decide), if_pos (by decide)]
  | false =>
      have htext : p.disposition ++ (str "\r\n" ++ (str "Content-Type: " ++ f.type)) =
          str "Content-Disposition: form-data; filename=" ++ chr '"' :: (f.name ++ chr '"' ::
            (str "; " ++ (nameAttribute p.name ++
              (str "\r\n" ++ (str "Content-Type: " ++ f.type))))) := by
        simp [FormPart.disposition, hf, hfirst, nameAttribute, fileAttribute, str, chr]
      rw [if_neg (by simp), htext]
      refine hfound (y := str "; " ++ (nameAttribute p.name ++
        (str "\r\n" ++ (str "Content-Type: " ++ f.type)))) hfile ?_
      rw [findSub_quote hplain hne (by decide), if_pos (by decide)]

/-- The header of a text field names the field and no file. -/
theorem params_text {p : FormPart} (hf : p.file = none) (h : ValidPart delim p) :
    (quotedParam (str "filename") p.header).getD [] = [] ∧ partName p.header = p.name := by
  have hplain : chr '"' ∉ str "filename=" := by decide
  have hplain' : chr '"' ∉ str "name=" := by decide
  have hname := h.name.1
  have htext : p.header =
      str "Content-Disposition: form-data; name=" ++ chr '"' :: (p.name ++ chr '"' :: []) := by
    simp [FormPart.header, FormPart.disposition, hf, nameAttribute, str, chr]
  constructor
  · have hneedle : str "filename" ++ str "=\"" = str "filename=" ++ [chr '"'] := rfl
    have hfind : findSub (str "filename=" ++ [chr '"']) p.header =
        if str "filename=" <:+ p.name then some (str "filename=" ++ chr '"' :: []) else none := by
      rw [htext, findSub_quote hplain (by decide) (by decide), if_neg (by decide),
        findSub_quote hplain (by decide) hname]
      rfl
    split_ifs at hfind with hends
    · have hsome : findSub (str "filename" ++ str "=\"") p.header =
          some (str "filename" ++ str "=\"" ++ []) := by
        rw [hneedle, hfind]
        simp
      rw [quotedParam_eq hsome]
      rfl
    · rw [quotedParam_of_none (hneedle ▸ hfind)]
      rfl
  · have hneedle : str "name" ++ str "=\"" = str "name=" ++ [chr '"'] := rfl
    have hsome : findSub (str "name" ++ str "=\"") p.header =
        some (str "name" ++ str "=\"" ++ (p.name ++ chr '"' :: [])) := by
      rw [hneedle, htext, findSub_quote hplain' (by decide) (by decide), if_pos (by decide)]
      simp
    rw [partName, quotedParam_eq hsome, if_pos (any_quote _ _)]
    exact (takeWhile_ne_append hname []).1

/-- What a search finds in a text it finds in a longer one. -/
theorem findSub_append_of_some (h : findSub n a = some t) (s : Bytes) :
    findSub n (a ++ s) = some (t ++ s) := by
  induction a with
  | nil =>
      rw [findSub] at h
      split at h
      · next hnil =>
          cases h
          rw [hnil]
          exact findSub_of_head List.nil_prefix
      · cases h
  | cons d a ih =>
      rw [findSub] at h
      split at h
      · next hhead =>
          cases h
          exact findSub_of_head (hhead.trans (List.prefix_append _ _))
      · next hno =>
          obtain ⟨skip, rfl, hbegin⟩ := exists_of_findSub h
          have hlength : n.length ≤ (d :: (skip ++ t)).length := by
            have hle := hbegin.length_le
            simp only [List.length_cons, List.length_append]
            omega
          have hlater : ¬ n <+: d :: (skip ++ t ++ s) := fun hhead =>
            hno (List.prefix_of_prefix_length_le hhead (List.prefix_append _ s) hlength)
          rw [List.cons_append, findSub, if_neg hlater]
          exact ih h

/-- The file's type as it is found in the header of a file. -/
def foundType (p : FormPart) (f : SentFile) : Bytes :=
  match findSub (str "Content-Type:") p.disposition with
  | none => f.type
  | some t => typeBehind t

/-- A quote ends the line of a part. -/
theorem disposition_concat (p : FormPart) : ∃ u, p.disposition = u ++ [chr '"'] := by
  have hname : ∀ s x, x ++ nameAttribute s = (x ++ (str "name=\"" ++ s)) ++ [chr '"'] := by
    simp [nameAttribute]
  have hfile : ∀ s x, x ++ fileAttribute s = (x ++ (str "filename=\"" ++ s)) ++ [chr '"'] := by
    simp [fileAttribute]
  unfold FormPart.disposition
  cases p.file with
  | none => exact ⟨_, hname _ _⟩
  | some f =>
      dsimp only
      split_ifs
      · rw [← List.append_assoc, ← List.append_assoc]
        exact ⟨_, hfile _ _⟩
      · rw [← List.append_assoc, ← List.append_assoc]
        exact ⟨_, hname _ _⟩

theorem concat_of_suffix {x y u : Bytes} {q : UInt8} (h : x <:+ y) (hy : y = u ++ [q]) (hx : x ≠ []) :
    ∃ v, x = v ++ [q] := by
  obtain ⟨w, rfl⟩ := h
  obtain rfl | ⟨v, e, rfl⟩ := x.eq_nil_or_concat'
  · exact absurd rfl hx
  · have hlast := congrArg List.getLast? hy
    rw [← List.append_assoc] at hlast
    simp only [List.getLast?_concat, Option.some.injEq] at hlast
    exact ⟨v, by rw [hlast]⟩

theorem dropWhile_concat {b : UInt8 → Bool} {u : Bytes} {q : UInt8} (hq : b q = false) :
    (u ++ [q]).dropWhile b = u.dropWhile b ++ [q] := by
  induction u with
  | nil => exact List.dropWhile_cons_of_neg (by simp [hq])
  | cons c u ih =>
      rw [List.cons_append, List.dropWhile_cons, List.dropWhile_cons, ih]
      split_ifs <;> rfl

theorem partType_of_line {p : FormPart} (h : ValidPart delim p)
    (hline : findSub (str "Content-Type:") p.disposition = some t) (s : Bytes) :
    partType (p.disposition ++ (str "\r\n" ++ s)) = typeBehind t := by
  obtain ⟨skip, hskip, hbegin⟩ := exists_of_findSub hline
  have hcr : chr '\r' ∉ t.drop 13 := fun hmem =>
    cr_notMem_disposition h (hskip ▸ List.mem_append_right _ (List.mem_of_mem_drop hmem))
  have hlength : 13 ≤ t.length := hbegin.length_le
  obtain ⟨d, hd⟩ := disposition_concat p
  have hsuffix : t <:+ p.disposition := ⟨skip, hskip.symm⟩
  have hne : t.drop 13 ≠ [] := by
    intro hnil
    have hend : t.length = 13 := le_antisymm (List.drop_eq_nil_iff.mp hnil) hlength
    have ht : str "Content-Type:" = t := hbegin.eq_of_length hend.symm
    obtain ⟨v, hv⟩ := concat_of_suffix (ht ▸ hsuffix) hd (by decide)
    have hlast := congrArg List.getLast? hv
    rw [List.getLast?_concat] at hlast
    revert hlast
    decide
  obtain ⟨v, hv⟩ := concat_of_suffix ((List.drop_suffix 13 t).trans hsuffix) hd hne
  have hfind : findSub (str "\r\n") (t.drop 13 ++ (str "\r\n" ++ s)) = some (str "\r\n" ++ s) :=
    (findSub_append_of_notMem hcr).trans (findSub_of_head (List.prefix_append _ _))
  have hdrop : (t ++ (str "\r\n" ++ s)).drop 13 = t.drop 13 ++ (str "\r\n" ++ s) :=
    List.drop_append_of_le_length hlength
  have hopened : (t.drop 13).dropWhile (fun c => c = chr ' ' || c = chr '\t') =
      v.dropWhile (fun c => c = chr ' ' || c = chr '\t') ++ [chr '"'] := by
    rw [hv]
    exact dropWhile_concat (by decide)
  have htrimmed : typeBehind t = v.dropWhile (fun c => c = chr ' ' || c = chr '\t') ++ [chr '"'] := by
    rw [typeBehind, hopened]
    exact List.rdropWhile_concat_neg _ _ _ (by decide)
  have hnil : ∀ x : Bytes, x ++ [chr '"'] ≠ [] := by simp
  rw [partType, findSub_append_of_some hline]
  simp only [hdrop, hfind, before_append]
  rw [← typeBehind, if_neg (hopened ▸ hnil _), if_neg (htrimmed ▸ hnil _)]

theorem partType_file {p : FormPart} {f : SentFile} (hf : p.file = some f) (h : ValidPart delim p) :
    partType p.header = foundType p f := by
  have hheader : p.header = p.disposition ++ (str "\r\n" ++ (str "Content-Type: " ++ f.type)) := by
    rw [FormPart.header, hf]
  rw [hheader, foundType]
  cases hline : findSub (str "Content-Type:") p.disposition with
  | some t => exact partType_of_line h hline _
  | none =>
      have htype := h.fileType f hf
      obtain ⟨c, hc, hcblank⟩ := htype.head
      obtain ⟨e, he, heblank⟩ := htype.last
      obtain ⟨u, hu⟩ : ∃ u, f.type = u ++ [e] := by
        obtain hnil | ⟨u, e', hu⟩ := f.type.eq_nil_or_concat'
        · rw [hnil] at he
          cases he
        · rw [hu, List.getLast?_concat] at he
          cases he
          exact ⟨u, hu⟩
      have hfind : findSub (str "Content-Type:") (p.disposition ++ (str "\r\n" ++
          (str "Content-Type: " ++ f.type))) = some (str "Content-Type: " ++ f.type) := by
        have hskip : findSub (str "Content-Type:") ([chr '\n'] ++ (str "Content-Type: " ++ f.type)) =
            findSub (str "Content-Type:") (str "Content-Type: " ++ f.type) :=
          findSub_append_of_notMem (by decide)
        refine ((findSub_append_cons (by decide) (by decide) hline _).trans hskip).trans ?_
        exact findSub_of_head ⟨chr ' ' :: f.type, rfl⟩
      have hdrop : (str "Content-Type: " ++ f.type).drop 13 = chr ' ' :: f.type := rfl
      have hnone : findSub (str "\r\n") (chr ' ' :: f.type) = none := by
        have hcr : chr '\r' ∉ chr ' ' :: f.type := by
          rw [List.mem_cons, not_or]
          exact ⟨by decide, htype.cr⟩
        have hskip : findSub (str "\r\n") ((chr ' ' :: f.type) ++ []) = findSub (str "\r\n") [] :=
          findSub_append_of_notMem hcr
        rw [List.append_nil] at hskip
        exact hskip
      have hopened : (chr ' ' :: f.type).dropWhile (fun c => c = chr ' ' || c = chr '\t') = f.type := by
        obtain ⟨rest, hrest⟩ : ∃ rest, f.type = c :: rest := by
          cases htext : f.type with
          | nil =>
              rw [htext] at hc
              cases hc
          | cons c' rest =>
              rw [htext] at hc
              cases hc
              exact ⟨rest, rfl⟩
        have hsolid : ¬ (c = chr ' ' || c = chr '\t') = true := by
          intro hblank
          have htrimmed : ∀ c : UInt8, (c = chr ' ' || c = chr '\t') = true → isTrimmedByte c = true :=
            forall_byte (by decide)
          rw [htrimmed c hblank] at hcblank
          cases hcblank
        rw [List.dropWhile_cons_of_pos (by decide), hrest]
        exact List.dropWhile_cons_of_neg hsolid
      have htrimmed : f.type.rdropWhile isTrimmedByte = f.type := by
        rw [hu]
        exact List.rdropWhile_concat_neg _ _ _ (by simp [heblank])
      have hne : f.type ≠ [] := by simp [hu]
      rw [partType, hfind]
      simp only [hdrop, hnone, hopened, htrimmed]
      rw [if_neg hne, if_neg hne]

/-! ### Forms -/

variable {p : FormPart} {f : SentFile} {form : MultipartForm} {parts : List FormPart}

theorem addPart_text (hf : p.file = none) (h : ValidPart delim p) (data : Bytes) :
    form.addPart p.header data =
      if p.name ≠ [] then { form with fields := form.fields.insert p.name data } else form := by
  obtain ⟨hfile, hname⟩ := params_text hf h
  rw [MultipartForm.addPart]
  simp only [hfile, hname]
  rw [if_neg (not_not.mpr rfl)]

theorem addPart_file (hf : p.file = some f) (h : ValidPart delim p) (hname : foundName p f ≠ [])
    (data : Bytes) : form.addPart p.header data =
      { form with fileName := foundName p f, fileData := data, fileType := foundType p f } := by
  rw [MultipartForm.addPart, quotedParam_file hf h, partType_file hf h]
  exact if_pos hname

/-- What a form holds of a file. -/
def MultipartForm.file (form : MultipartForm) : Bytes × Bytes × Bytes :=
  (form.fileName, form.fileData, form.fileType)

/-- A file without a name is none. -/
theorem file_addPart (hf : p.file = some f) (h : ValidPart delim p) (hname : foundName p f = [])
    (data : Bytes) : (form.addPart p.header data).file = form.file := by
  rw [MultipartForm.addPart, quotedParam_file hf h]
  simp only [hname, Option.getD_some]
  rw [if_neg (not_not.mpr rfl)]
  split_ifs <;> rfl

theorem file_addPart_text (hf : p.file = none) (h : ValidPart delim p) (data : Bytes) :
    (form.addPart p.header data).file = form.file := by
  rw [addPart_text hf h]
  split_ifs <;> rfl

theorem foundName_eq_iff :
    foundName p f = f.name ↔ (f.nameFirst = true → str "filename=" <:+ p.name →
      f.name = str "; filename=") := by
  unfold foundName
  split_ifs with h
  · exact ⟨fun heq _ _ => heq.symm, fun hall => (hall h.1 h.2).symm⟩
  · exact iff_of_true rfl fun hfirst hends => absurd ⟨hfirst, hends⟩ h

theorem foundType_eq_iff : foundType p f = f.type ↔
    ∀ t, findSub (str "Content-Type:") p.disposition = some t → f.type = typeBehind t := by
  unfold foundType
  cases findSub (str "Content-Type:") p.disposition with
  | none => exact iff_of_true rfl nofun
  | some t => exact ⟨fun heq t' ht' => by cases ht'; exact heq.symm, fun hall => (hall t rfl).symm⟩

theorem addPart_of_stands (h : ValidPart delim p) (hstands : PartStands delim p) :
    form.addPart p.header p.data = p.send form := by
  unfold FormPart.send
  cases hf : p.file with
  | none => rw [addPart_text hf h, if_pos (hstands.named hf)]
  | some f =>
      have hfile := hstands.file f hf
      have hname := foundName_eq_iff.mpr hfile.first
      rw [addPart_file hf h (by rw [hname]; exact hfile.named), hname,
        foundType_eq_iff.mpr hfile.type]

/-- If every part stands where it is searched for, the form is recovered. -/
theorem parts_of_stands (hd : Delimits delim) (hvalid : ∀ p ∈ parts, ValidPart delim p)
    (hstands : ∀ p ∈ parts, PartStands delim p) {fuel : Nat} (hfuel : parts.length < fuel) :
    multipartParts delim fuel (encodeForm delim parts) {} = sentForm parts := by
  rw [multipartParts_encode hd hvalid (fun p hp => (hstands p hp).data) hfuel, sentForm]
  exact List.foldl_ext _ _ _ fun form p hp => addPart_of_stands (hvalid p hp) (hstands p hp)

end

end ExamVan.Admin
