import ExamVan.Api.Body
import ExamVan.Lib.Decimal
import Mathlib.Data.List.DropRight

/-!
# Uploaded files

A multipart body is searched for its delimiter; every part is a header block, an empty line and the
data up to the next delimiter. A file must look like a complete PDF without markup, and its name is
reduced to plain characters with the extension `.pdf`.
-/

namespace ExamVan.Admin

open ByteString Queue Api

/-! ### Multipart bodies -/

/-- The text up to and excluding the suffix that a search has found. -/
def before (s suffix : Bytes) : Bytes := s.take (s.length - suffix.length)

def isTrimmedByte (c : UInt8) : Bool :=
  c = chr ' ' || c = chr '\t' || c = chr '\r' || c = chr '\n'

/-- The boundary parameter of a `Content-Type`; empty if there is none. -/
def multipartBoundary (ct : Bytes) : Bytes :=
  match findSub (str "boundary=") ct with
  | none => []
  | some t =>
      let raw := t.drop 9
      let unquoted :=
        if raw.head? = some (chr '"') then raw.tail.takeWhile (· ≠ chr '"') else raw
      let cut := unquoted.takeWhile (· ≠ chr ';')
      let trimmed := (cut.dropWhile isTrimmedByte).rdropWhile isTrimmedByte
      -- a boundary of blanks alone is left as it is
      if trimmed = [] then cut else trimmed

/-- A quoted parameter of a part's header. -/
def quotedParam (name hdr : Bytes) : Option Bytes :=
  (findSub (name ++ str "=\"") hdr).map fun t =>
    let value := t.drop (name.length + 2)
    if value.any (· = chr '"') then value.takeWhile (· ≠ chr '"') else []

/-- The `name` of a part, with or without quotes. -/
def partName (hdr : Bytes) : Bytes :=
  match quotedParam (str "name") hdr with
  | some name => name
  | none =>
      match findSub (str "name=") hdr with
      | none => []
      | some t =>
          let value := (t.drop 5).takeWhile fun c =>
            !(c = chr ';' || c = chr '\r' || c = chr '\n' || c = chr ' ')
          let opened := if value.head? = some (chr '"') then value.tail else value
          if opened.getLast? = some (chr '"') then opened.dropLast else opened

/-- The `Content-Type` of a part, without the blanks around it. -/
def partType (hdr : Bytes) : Bytes :=
  match findSub (str "Content-Type:") hdr with
  | none => []
  | some t =>
      let value :=
        match findSub (str "\r\n") (t.drop 13) with
        | none => t.drop 13
        | some lineEnd => before (t.drop 13) lineEnd
      let opened := value.dropWhile fun c => c = chr ' ' || c = chr '\t'
      let trimmed := opened.rdropWhile isTrimmedByte
      -- a value of blanks alone is left as it is, and one of line ends behind its blanks
      if opened = [] then value else if trimmed = [] then opened else trimmed

structure MultipartForm where
  fields : StringMap := OrderedMap.empty
  fileName : Bytes := []
  fileData : Bytes := []
  fileType : Bytes := []

def MultipartForm.addPart (form : MultipartForm) (hdr data : Bytes) : MultipartForm :=
  let filename := (quotedParam (str "filename") hdr).getD []
  if filename ≠ [] then
    { form with fileName := filename, fileData := data, fileType := partType hdr }
  else if partName hdr ≠ [] then { form with fields := form.fields.insert (partName hdr) data }
  else form

/-- The loop of `parse_multipart`; every round consumes a delimiter. -/
def multipartParts (delim : Bytes) : Nat → Bytes → MultipartForm → MultipartForm
  | 0, _, form => form
  | fuel + 1, s, form =>
      match findSub delim s with
      | none => form
      | some d =>
          let t := d.drop delim.length
          if str "--" <+: t then form
          else
            match if str "\r\n" <+: t then some (t.drop 2)
              else if t.head? = some (chr '\n') then some t.tail else none with
            | none => form
            | some head =>
                match findSub (str "\r\n\r\n") head with
                | none => form
                | some hdrEnd =>
                    let content := hdrEnd.drop 4
                    match findSub delim content with
                    | none => form
                    | some next =>
                        let raw := before content next
                        -- the two bytes before empty data are those of the empty line:
                        -- `data_end` falls before `data_start` and the rest of the body is taken
                        let data := if raw = [] then content
                          else if str "\r\n" <:+ raw then raw.dropLast.dropLast else raw
                        multipartParts delim fuel next (form.addPart (before head hdrEnd) data)

/-- `parse_multipart`. -/
def parseMultipart (body ct : Bytes) : MultipartForm :=
  let boundary := multipartBoundary ct
  if boundary = [] then {} else multipartParts (str "--" ++ boundary) body.length body {}

/-! ### Names and files -/

/-- `sanitize_student_input`: runs of blanks become one space, and the text is trimmed. -/
def collapseSpaces (lastSpace : Bool) : Bytes → Bytes
  | [] => []
  | c :: s =>
      if isSpace c then
        if lastSpace then collapseSpaces true s else chr ' ' :: collapseSpaces true s
      else c :: collapseSpaces false s

def sanitizeStudentInput (s : Bytes) : Bytes :=
  ((collapseSpaces false s).dropWhile (· = chr ' ')).rdropWhile (· = chr ' ')

/-- `validate_pdf_content`. -/
def validatePdfContent (data : Bytes) : Bool :=
  5 ≤ data.length && str "%PDF" <+: data &&
    (findSub (str "%%EOF") (data.drop (data.length - 1024))).isSome &&
    [str "<script", str "<html", str "<iframe", str "javascript:", str "<body", str "</script"].all
      fun sig => findSub sig (data.map tolower) = none

def isFilenameByte (c : UInt8) : Bool :=
  (chr '0' ≤ c && c ≤ chr '9') || (chr 'A' ≤ c && c ≤ chr 'Z') || (chr 'a' ≤ c && c ≤ chr 'z') ||
    c = chr '.' || c = chr '-' || c = chr '_'

/-- `sanitize_filename`. -/
def sanitizeFilename (name : Bytes) : Bytes :=
  let base := name.rtakeWhile fun c => !(c = chr '/' || c = chr '\\')
  let safe := base.filter isFilenameByte
  let named := if safe = [] then str "exam.pdf" else safe
  let stem := if named.any (· = chr '.') then (named.rdropWhile (· ≠ chr '.')).dropLast else named
  (stem ++ str ".pdf").take 128

/-! ### Stored names -/

def baseName (name : Bytes) : Bytes := name.rtakeWhile fun c => !(c = chr '/' || c = chr '\\')

/-- Without the last dot and what follows it. -/
def stemOf (s : Bytes) : Bytes :=
  if s.any (· = chr '.') then (s.rdropWhile (· ≠ chr '.')).dropLast else s

/-- The bytes in front of the last dot of a file name that may be in a stored one. -/
def keptStem (name : Bytes) : Bytes := (stemOf (baseName name)).filter isFilenameByte

/-- A name under which a file may be stored. -/
structure IsSafeName (s : Bytes) : Prop where
  length : 5 ≤ s.length ∧ s.length ≤ 128
  bytes : ∀ c ∈ s, isFilenameByte c = true
  extension : str ".pdf" <:+ s
  stable : sanitizeFilename s = s

variable {name s t : Bytes}

theorem sanitizeFilename_eq (name : Bytes) : sanitizeFilename name =
    (stemOf (if (baseName name).filter isFilenameByte = [] then str "exam.pdf"
      else (baseName name).filter isFilenameByte) ++ str ".pdf").take 128 := rfl

theorem stemOf_append (ht : chr '.' ∉ t) (s : Bytes) : stemOf (s ++ chr '.' :: t) = s := by
  have hne : ∀ c ∈ t, decide (c ≠ chr '.') = true := fun c hc => decide_eq_true fun heq => ht (heq ▸ hc)
  have hdrop : (s ++ chr '.' :: t).rdropWhile (· ≠ chr '.') = s ++ [chr '.'] := by
    rw [List.append_cons, rdropWhile_append_of_pos hne]
    exact List.rdropWhile_concat_neg _ _ _ (by simp)
  rw [stemOf, if_pos (by simp), hdrop, List.dropLast_concat]

theorem stemOf_of_notMem (h : chr '.' ∉ s) : stemOf s = s := by
  rw [stemOf, if_neg (by simpa using h)]

/-- The last dot is no less the last one if other bytes are taken out. -/
theorem stemOf_filter (s : Bytes) : stemOf (s.filter isFilenameByte) = (stemOf s).filter isFilenameByte := by
  by_cases hdot : chr '.' ∈ s
  · obtain ⟨t, u, hsplit, ht⟩ := List.eq_append_cons_of_mem (List.mem_reverse.mpr hdot)
    have hs : s = u.reverse ++ chr '.' :: t.reverse := by
      rw [← List.reverse_reverse s, hsplit]
      simp
    have ht' : chr '.' ∉ t.reverse := fun hmem => ht (List.mem_reverse.mp hmem)
    rw [hs, stemOf_append ht', List.filter_append, List.filter_cons_of_pos (by decide)]
    exact stemOf_append (fun hmem => ht' (List.mem_of_mem_filter hmem)) _
  · rw [stemOf_of_notMem hdot, stemOf_of_notMem fun hmem => hdot (List.mem_of_mem_filter hmem)]

theorem sanitizeFilename_of_kept (h : ∃ c ∈ baseName name, isFilenameByte c = true) :
    sanitizeFilename name = (keptStem name ++ str ".pdf").take 128 := by
  obtain ⟨c, hc, hbyte⟩ := h
  have hne : (baseName name).filter isFilenameByte ≠ [] :=
    List.ne_nil_of_mem (List.mem_filter.mpr ⟨hc, hbyte⟩)
  rw [sanitizeFilename_eq, if_neg hne, stemOf_filter, keptStem]

theorem baseName_of_bytes (h : ∀ c ∈ s, isFilenameByte c = true) : baseName s = s := by
  refine List.rtakeWhile_eq_self_iff.mpr fun c hc => ?_
  have hslash : c ≠ chr '/' := fun heq => absurd (heq ▸ h c hc) (by decide)
  have hback : c ≠ chr '\\' := fun heq => absurd (heq ▸ h c hc) (by decide)
  simp [hslash, hback]

/-- A stem of up to 124 bytes with its extension is left alone. -/
theorem isSafeName_append (hlength : 1 ≤ s.length ∧ s.length ≤ 124)
    (hbytes : ∀ c ∈ s, isFilenameByte c = true) : IsSafeName (s ++ str ".pdf") := by
  have hall : ∀ c ∈ s ++ str ".pdf", isFilenameByte c = true :=
    List.forall_mem_append.mpr ⟨hbytes, by decide⟩
  have hfour : (str ".pdf").length = 4 := rfl
  have hkept : keptStem (s ++ str ".pdf") = s := by
    rw [keptStem, baseName_of_bytes hall, show s ++ str ".pdf" = s ++ chr '.' :: str "pdf" from rfl,
      stemOf_append (by decide), List.filter_eq_self.mpr hbytes]
  refine ⟨?_, hall, List.suffix_append _ _, ?_⟩
  · rw [List.length_append, hfour]
    omega
  · have hany : ∃ c ∈ baseName (s ++ str ".pdf"), isFilenameByte c = true := by
      rw [baseName_of_bytes hall]
      exact ⟨chr '.', List.mem_append_right _ (by decide), by decide⟩
    rw [sanitizeFilename_of_kept hany, hkept, List.take_of_length_le]
    rw [List.length_append, hfour]
    omega

/-- An extension that is cut does not end in the same bytes. -/
theorem prefix_of_take_four (h : (t ++ str ".pdf").take 4 = str ".pdf") : t = [] ∨ str ".pdf" <+: t := by
  by_cases hfew : t.length < 4
  · left
    rcases t with _ | ⟨a, _ | ⟨b, _ | ⟨c, _ | ⟨d, t⟩⟩⟩⟩
    · rfl
    · exact absurd (List.cons.inj (List.cons.inj h).2).1 (by decide)
    · exact absurd (List.cons.inj (List.cons.inj (List.cons.inj h).2).2).1 (by decide)
    · exact absurd (List.cons.inj (List.cons.inj (List.cons.inj (List.cons.inj h).2).2).2).1 (by decide)
    · simp only [List.length_cons] at hfew
      omega
  · right
    rw [List.take_append_of_le_length (by omega)] at h
    exact h ▸ List.take_prefix 4 _

theorem isSafeName_take_iff (hbytes : ∀ c ∈ s, isFilenameByte c = true) :
    IsSafeName ((s ++ str ".pdf").take 128) ↔
      (1 ≤ s.length ∧ s.length ≤ 124) ∨ str ".pdf" <+: s.drop 124 := by
  have hfour : (str ".pdf").length = 4 := rfl
  by_cases hshort : s.length ≤ 124
  · have hdrop : s.drop 124 = [] := List.drop_eq_nil_iff.mpr hshort
    have hnone : ¬ str ".pdf" <+: s.drop 124 := by
      rw [hdrop]
      decide
    rw [or_iff_left hnone, List.take_of_length_le (by rw [List.length_append, hfour]; omega)]
    constructor
    · intro hsafe
      have hpos := hsafe.length.1
      rw [List.length_append, hfour] at hpos
      omega
    · exact fun hlength => isSafeName_append hlength hbytes
  · have hhead : (s.take 124).length = 124 := by
      rw [List.length_take]
      omega
    have hcut : (s ++ str ".pdf").take 128 = s.take 124 ++ (s.drop 124 ++ str ".pdf").take 4 := by
      have hsplit : s ++ str ".pdf" = s.take 124 ++ (s.drop 124 ++ str ".pdf") := by
        rw [← List.append_assoc, List.take_append_drop]
      rw [hsplit, List.take_append, List.take_of_length_le (by omega), hhead]
    rw [or_iff_right (fun hlength => hshort hlength.2), hcut]
    constructor
    · intro hsafe
      obtain ⟨before, hbefore⟩ := hsafe.extension
      have hfour' : (str ".pdf").length = ((s.drop 124 ++ str ".pdf").take 4).length := by
        rw [List.length_take, List.length_append, hfour]
        omega
      have hlast := List.append_inj_right' hbefore hfour'
      refine (prefix_of_take_four hlast.symm).resolve_left fun hnil => ?_
      exact hshort (List.drop_eq_nil_iff.mp hnil)
    · rintro ⟨rest, hrest⟩
      have hlast : (s.drop 124 ++ str ".pdf").take 4 = str ".pdf" := by
        rw [← hrest, List.append_assoc, List.take_left' hfour]
      rw [hlast]
      exact isSafeName_append (by omega) fun c hc => hbytes c (List.mem_of_mem_take hc)

/-- What is stored is safe unless the stem is empty, or so long that the extension is cut. -/
theorem isSafeName_sanitizeFilename_iff (name : Bytes) :
    IsSafeName (sanitizeFilename name) ↔
      (∀ c ∈ baseName name, isFilenameByte c = false) ∨
        (1 ≤ (keptStem name).length ∧ (keptStem name).length ≤ 124) ∨
        str ".pdf" <+: (keptStem name).drop 124 := by
  by_cases hany : ∃ c ∈ baseName name, isFilenameByte c = true
  · have hsome : ¬ ∀ c ∈ baseName name, isFilenameByte c = false := by
      obtain ⟨c, hc, hbyte⟩ := hany
      intro hall
      rw [hall c hc] at hbyte
      cases hbyte
    rw [or_iff_right hsome, sanitizeFilename_of_kept hany]
    exact isSafeName_take_iff fun c hc => (List.mem_filter.mp hc).2
  · have hnone : ∀ c ∈ baseName name, isFilenameByte c = false := by
      intro c hc
      exact Bool.eq_false_iff.mpr fun hbyte => hany ⟨c, hc, hbyte⟩
    have hempty : (baseName name).filter isFilenameByte = [] :=
      List.filter_eq_nil_iff.mpr fun c hc => by simp [hnone c hc]
    have hdefault : sanitizeFilename name = str "exam" ++ str ".pdf" := by
      rw [sanitizeFilename_eq, if_pos hempty]
      rfl
    rw [hdefault]
    exact iff_of_true (isSafeName_append (by decide) (by decide)) (.inl hnone)

/-- A stem of 125 bytes loses the end of its extension. -/
theorem not_isSafeName_sanitizeFilename :
    ¬ ∀ name, IsSafeName (sanitizeFilename name) := by
  intro h
  have hextension := (h (List.replicate 125 (chr 'a') ++ str ".pdf")).extension
  exact absurd hextension (by decide +kernel)

end ExamVan.Admin
