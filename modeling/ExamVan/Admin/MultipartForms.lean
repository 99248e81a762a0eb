import ExamVan.Admin.Multipart

/-!
# When a form is recovered

A round stores what is before the first delimiter, so data with the delimiter in them are never stored
as they were sent. Where they begin with it, the rest of the body is stored.
-/

namespace ExamVan.Admin

open ByteString Queue

section

variable {delim s v : Bytes} {form : MultipartForm} {p q : FormPart} {f : SentFile}
  {front rest parts : List FormPart}

/-! ### Boundaries -/

theorem isTrimmedByte_of_boundary {c : UInt8} (h : isBoundaryByte c = true) (hne : c ≠ chr ' ') :
    isTrimmedByte c = false := by
  have hall : ∀ c : UInt8, isBoundaryByte c = true → c ≠ chr ' ' → isTrimmedByte c = false :=
    forall_byte (by decide)
  exact hall c h hne

/-- The blanks around a boundary are dropped, those before a quoted one as well. -/
theorem trimmed_boundary (b : Boundary) {blanks : Bytes}
    (hblanks : ∀ c ∈ blanks, c = chr ' ' ∨ c = chr '\t') :
    ((b.text ++ blanks).dropWhile isTrimmedByte).rdropWhile isTrimmedByte =
      b.text.dropWhile isTrimmedByte ∧ b.text.dropWhile isTrimmedByte ≠ [] := by
  obtain hnil | ⟨u, e, hu⟩ := b.text.eq_nil_or_concat'
  · have hlength := b.length.1
    rw [hnil] at hlength
    cases hlength
  have he : isTrimmedByte e = false := by
    refine isTrimmedByte_of_boundary (b.bytes e (by simp [hu])) fun hspace => b.last ?_
    rw [hu, List.getLast?_concat, hspace]
  have htext : b.text.dropWhile isTrimmedByte = u.dropWhile isTrimmedByte ++ [e] := by
    rw [hu, dropWhile_concat he]
  have hne : b.text.dropWhile isTrimmedByte ≠ [] := by simp [htext]
  have hall : ∀ c ∈ blanks, isTrimmedByte c = true := fun c hc => by
    rcases hblanks c hc with rfl | rfl <;> decide
  refine ⟨?_, hne⟩
  rw [List.dropWhile_append, if_neg (by simpa using hne), rdropWhile_append_of_pos hall, htext]
  exact List.rdropWhile_concat_neg _ _ _ (by simp [he])

theorem takeWhile_ne {c : UInt8} {x y : Bytes} (hx : c ∉ x) (hy : y = [] ∨ y.head? = some c) :
    (x ++ y).takeWhile (· ≠ c) = x := by
  rcases hy with rfl | hy
  · rw [List.append_nil]
    exact List.takeWhile_eq_self_iff.mpr fun e he => decide_eq_true fun heq => hx (heq ▸ he)
  · obtain ⟨t, rfl⟩ := List.head?_eq_some_iff.mp hy
    exact (takeWhile_ne_append hx t).1

theorem boundary_notMem (b : Boundary) {c : UInt8} (hc : isBoundaryByte c = false) : c ∉ b.text := by
  intro h
  rw [b.bytes c h] at hc
  cases hc

/-- Quoted or not, and whatever follows, the boundary is found. -/
theorem multipartBoundary_of_names {b : Boundary} {ct : Bytes} (h : Names b ct) :
    multipartBoundary ct = b.text.dropWhile isTrimmedByte := by
  have hfind : ∀ x, findSub (str "boundary=") (str "multipart/form-data; boundary=" ++ x) =
      some (str "boundary=" ++ x) := by
    intro x
    have hskip : findSub (str "boundary=") (str "multipart/form-data; " ++ (str "boundary=" ++ x)) =
        findSub (str "boundary=") (str "boundary=" ++ x) :=
      findSub_append_of_notMem (by decide)
    have hfront : str "multipart/form-data; boundary=" =
        str "multipart/form-data; " ++ str "boundary=" := by decide
    rw [hfront, List.append_assoc, hskip]
    exact findSub_of_head (List.prefix_append _ _)
  have hdrop : ∀ x, (str "boundary=" ++ x).drop 9 = x := fun x => rfl
  have hquote : chr '"' ∉ b.text := boundary_notMem b (by decide)
  have hsemicolon : chr ';' ∉ b.text := boundary_notMem b (by decide)
  cases h with
  | @quoted more _ =>
      obtain ⟨htrimmed, hne⟩ := @trimmed_boundary b [] (List.forall_mem_nil _)
      have hcut : (b.text ++ chr '"' :: more).takeWhile (· ≠ chr '"') = b.text :=
        takeWhile_ne hquote (.inr rfl)
      have hwhole : b.text.takeWhile (· ≠ chr ';') = b.text := by
        simpa using takeWhile_ne hsemicolon (y := []) (.inl rfl)
      rw [List.append_nil] at htrimmed
      rw [multipartBoundary, hfind]
      simp only [hdrop, List.head?_cons, if_true, List.tail_cons, hcut, hwhole, htrimmed, if_neg hne]
  | @token more hb hmore =>
      obtain ⟨blanks, params, rfl, hblanks, hparams⟩ := hmore
      obtain ⟨htrimmed, hne⟩ := trimmed_boundary b hblanks
      have hfirst : (b.text ++ (blanks ++ params)).head? ≠ some (chr '"') := by
        obtain ⟨c, t, hct⟩ := List.exists_cons_of_length_pos (Nat.lt_of_succ_le b.length.1)
        rw [hct, List.cons_append, List.head?_cons]
        exact fun heq => hquote (hct ▸ Option.some.inj heq ▸ List.mem_cons_self)
      have hno : chr ';' ∉ b.text ++ blanks := by
        rw [List.mem_append, not_or]
        exact ⟨hsemicolon, fun hmem => absurd (hblanks _ hmem) (by decide)⟩
      have hcut : (b.text ++ (blanks ++ params)).takeWhile (· ≠ chr ';') = b.text ++ blanks := by
        rw [← List.append_assoc]
        exact takeWhile_ne hno hparams
      rw [multipartBoundary, hfind]
      simp only [hdrop, if_neg hfirst, hcut, htrimmed, if_neg hne]

theorem parseMultipart_of_names {b : Boundary} {ct : Bytes} (h : Names b ct)
    (hfirst : b.text.head? ≠ some (chr ' ')) (body : Bytes) :
    parseMultipart body ct = multipartParts b.delimiter body.length body {} := by
  obtain ⟨c, t, hct⟩ := List.exists_cons_of_length_pos (Nat.lt_of_succ_le b.length.1)
  have hc : isTrimmedByte c = false := by
    refine isTrimmedByte_of_boundary (b.bytes c (hct ▸ List.mem_cons_self)) fun hspace => hfirst ?_
    rw [hct, hspace, List.head?_cons]
  have htext : b.text.dropWhile isTrimmedByte = b.text := by
    rw [hct, List.dropWhile_cons_of_neg (by simp [hc])]
  have hne : b.text ≠ [] := by simp [hct]
  rw [parseMultipart, multipartBoundary_of_names h, htext]
  exact if_neg hne

theorem delimits_delimiter (b : Boundary) : Delimits b.delimiter where
  cr := by
    rw [Boundary.delimiter, List.mem_append, not_or]
    exact ⟨by decide, boundary_notMem b (by decide)⟩
  lf := by
    rw [Boundary.delimiter, List.mem_append, not_or]
    exact ⟨by decide, boundary_notMem b (by decide)⟩
  ne_nil := by simp [Boundary.delimiter, str]

/-! ### What is stored -/

/-- A value that a round stores: without the delimiter, or the rest of the text behind an empty line. -/
def Stored (delim s v : Bytes) : Prop :=
  findSub delim v = none ∨ delim <+: v ∧ str "\r\n\r\n" ++ v <:+ s

theorem Stored.of_suffix {s' : Bytes} (h : Stored delim s v) (hs : s <:+ s') : Stored delim s' v :=
  h.imp_right fun hlate => ⟨hlate.1, hlate.2.trans hs⟩

/-- The text before the first place has no other place in it. -/
theorem findSub_before (hne : delim ≠ []) {t : Bytes} (h : findSub delim s = some t) :
    findSub delim (before s t) = none := by
  have htake := findSub_take hne h (s.length - t.length)
  rw [before, htake, if_neg]
  have hpos := List.length_pos_iff.mpr hne
  omega

theorem findSub_dropLast (h : findSub delim s = none) : findSub delim s.dropLast = none := by
  obtain rfl | ⟨u, e, rfl⟩ := s.eq_nil_or_concat'
  · exact h
  · rw [List.dropLast_concat]
    exact findSub_eq_none_of_append h

theorem suffix_of_findSub {t : Bytes} (h : findSub delim s = some t) : t <:+ s := by
  obtain ⟨skip, hskip, -⟩ := exists_of_findSub h
  exact ⟨skip, hskip.symm⟩

/-- Everything a form holds is from before or is stored by a round. -/
structure Holds (delim s : Bytes) (form form' : MultipartForm) : Prop where
  fields : ∀ k v, form'.fields.find? k = some v → form.fields.find? k = some v ∨ Stored delim s v
  file : form'.fileData = form.fileData ∨ Stored delim s form'.fileData

theorem holds_addPart {hdr data : Bytes} (h : Stored delim s data) :
    Holds delim s form (form.addPart hdr data) := by
  unfold MultipartForm.addPart
  dsimp only
  split_ifs with hfile hname
  · exact ⟨fun _ _ hv => .inl hv, .inr h⟩
  · refine ⟨fun k v hv => ?_, .inl rfl⟩
    by_cases hk : k = partName hdr
    · rw [hk, OrderedMap.find?_insert_self] at hv
      cases hv
      exact .inr h
    · rw [OrderedMap.find?_insert_of_ne hk] at hv
      exact .inl hv
  · exact ⟨fun _ _ hv => .inl hv, .inl rfl⟩

theorem Holds.trans {s' : Bytes} {form₁ form₂ : MultipartForm} (h : Holds delim s form form₁)
    (h' : Holds delim s' form₁ form₂) (hs : s' <:+ s) : Holds delim s form form₂ where
  fields k v hv := by
    rcases h'.fields k v hv with hold | hnew
    · exact h.fields k v hold
    · exact .inr (hnew.of_suffix hs)
  file := by
    rcases h'.file with hold | hnew
    · rw [hold]
      exact h.file
    · exact .inr (hnew.of_suffix hs)

/-- The data of a round are stored without the delimiter, or are the rest of the text. -/
theorem stored_data (hne : delim ≠ []) {head hdrEnd next : Bytes}
    (hhead : findSub (str "\r\n\r\n") head = some hdrEnd)
    (hnext : findSub delim (hdrEnd.drop 4) = some next) :
    Stored delim head (if before (hdrEnd.drop 4) next = [] then hdrEnd.drop 4
      else if str "\r\n" <:+ before (hdrEnd.drop 4) next then
        (before (hdrEnd.drop 4) next).dropLast.dropLast
      else before (hdrEnd.drop 4) next) := by
  have hfree := findSub_before hne hnext
  split_ifs with hempty hcrlf
  · obtain ⟨skip, hskip, hbegin⟩ := exists_of_findSub hnext
    obtain ⟨-, -, w, rfl⟩ := exists_of_findSub hhead
    have hcontent : (str "\r\n\r\n" ++ w).drop 4 = w := rfl
    rw [hcontent] at hskip hempty ⊢
    have hnil : skip = [] := by rwa [hskip, before_append] at hempty
    rw [hnil, List.nil_append] at hskip
    exact .inr ⟨hskip ▸ hbegin, suffix_of_findSub hhead⟩
  · exact .inl (findSub_dropLast (findSub_dropLast hfree))
  · exact .inl hfree

theorem holds_multipartParts (hne : delim ≠ []) (fuel : Nat) (s : Bytes) (form : MultipartForm) :
    Holds delim s form (multipartParts delim fuel s form) := by
  have hsame : ∀ s form, Holds delim s form form := fun s form => ⟨fun _ _ hv => .inl hv, .inl rfl⟩
  induction fuel generalizing s form with
  | zero => exact hsame s form
  | succ fuel ih =>
      rw [multipartParts]
      cases hfind : findSub delim s with
      | none => exact hsame s form
      | some d =>
          have hd : d.drop delim.length <:+ s := (List.drop_suffix _ _).trans (suffix_of_findSub hfind)
          have hhead : ∀ head, (if str "\r\n" <+: d.drop delim.length then
              some ((d.drop delim.length).drop 2)
            else if (d.drop delim.length).head? = some (chr '\n') then some (d.drop delim.length).tail
            else none) = some head → head <:+ s := by
            intro head h
            split_ifs at h
            · cases h
              exact (List.drop_suffix _ _).trans hd
            · cases h
              exact (List.tail_suffix _).trans hd
          dsimp only
          split
          · exact hsame s form
          · split
            · exact hsame s form
            · next head ho =>
                have hs := hhead head ho
                split
                · exact hsame s form
                · next hdrEnd hhdr =>
                    split
                    · exact hsame s form
                    · next next hnext =>
                        have hcontent : next <:+ s := ((suffix_of_findSub hnext).trans
                          (List.drop_suffix _ _)).trans ((suffix_of_findSub hhdr).trans hs)
                        have hstored := (stored_data hne hhdr hnext).of_suffix hs
                        exact (holds_addPart hstored).trans (ih next _) hcontent

/-! ### What a part leaves alone -/

theorem find?_send_of_ne {k : Bytes} (hk : q.name ≠ k) :
    (q.send form).fields.find? k = form.fields.find? k := by
  unfold FormPart.send
  cases q.file with
  | none => exact OrderedMap.find?_insert_of_ne (Ne.symm hk)
  | some f => rfl

theorem file_send_text (hf : q.file = none) : (q.send form).file = form.file := by
  rw [FormPart.send, hf]
  rfl

theorem partName_file (hf : q.file = some f) (h : ValidPart delim q) :
    partName q.header = if f.nameFirst = true then q.name else f.name := by
  have hplain : chr '"' ∉ str "name=" := by decide
  have hfound : ∀ {x z y : Bytes}, chr '"' ∉ x → str "name=" <:+ x → chr '"' ∉ z →
      partName (x ++ chr '"' :: (z ++ chr '"' :: y)) = z := by
    intro x z y hx hsuffix hz
    have hneedle : str "name" ++ str "=\"" = str "name=" ++ [chr '"'] := rfl
    have hsome : findSub (str "name" ++ str "=\"") (x ++ chr '"' :: (z ++ chr '"' :: y)) =
        some (str "name" ++ str "=\"" ++ (z ++ chr '"' :: y)) := by
      rw [hneedle, findSub_quote hplain (by decide) hx, if_pos hsuffix]
      simp
    rw [partName, quotedParam_eq hsome, if_pos (any_quote _ _)]
    exact (takeWhile_ne_append hz y).1
  unfold FormPart.header FormPart.disposition
  rw [hf]
  dsimp only
  split_ifs
  · have htext : str "Content-Disposition: form-data; " ++ (nameAttribute q.name ++ (str "; " ++
        fileAttribute f.name)) ++ (str "\r\n" ++ (str "Content-Type: " ++ f.type)) =
          str "Content-Disposition: form-data; name=" ++ chr '"' :: (q.name ++ chr '"' ::
            (str "; " ++ (fileAttribute f.name ++ (str "\r\n" ++ (str "Content-Type: " ++ f.type))))) := by
      simp [nameAttribute, str, chr]
    rw [htext]
    exact hfound (by decide) (by decide) h.name.1
  · have htext : str "Content-Disposition: form-data; " ++ (fileAttribute f.name ++ (str "; " ++
        nameAttribute q.name)) ++ (str "\r\n" ++ (str "Content-Type: " ++ f.type)) =
          str "Content-Disposition: form-data; filename=" ++ chr '"' :: (f.name ++ chr '"' ::
            (str "; " ++ (nameAttribute q.name ++ (str "\r\n" ++ (str "Content-Type: " ++ f.type))))) := by
      simp [fileAttribute, str, chr]
    rw [htext]
    exact hfound (by decide) (by decide) (h.fileName f hf).1

theorem find?_addPart_of_ne {k : Bytes} (h : ValidPart delim q) (hk : q.name ≠ k) (data : Bytes) :
    (form.addPart q.header data).fields.find? k = form.fields.find? k := by
  cases hf : q.file with
  | none =>
      rw [addPart_text hf h]
      split_ifs
      · exact OrderedMap.find?_insert_of_ne (Ne.symm hk)
      · rfl
  | some f =>
      by_cases hname : foundName q f = []
      · rw [MultipartForm.addPart, quotedParam_file hf h, partName_file hf h]
        simp only [hname, Option.getD_some]
        rw [if_neg (not_not.mpr rfl)]
        split_ifs with hfirst hne hempty
        · exact OrderedMap.find?_insert_of_ne (Ne.symm hk)
        · rfl
        · have hno : foundName q f = f.name := foundName_eq_iff.mpr fun h => absurd h hfirst
          exact absurd (hno ▸ hname) hempty
        · rfl
      · rw [addPart_file hf h hname]

theorem find?_foldl_addPart {k : Bytes} (h : ∀ q ∈ parts, ValidPart delim q)
    (hk : ∀ q ∈ parts, q.name ≠ k) (form : MultipartForm) :
    (parts.foldl (fun form q => form.addPart q.header q.data) form).fields.find? k =
      form.fields.find? k := by
  induction parts generalizing form with
  | nil => rfl
  | cons q parts ih =>
      obtain ⟨hq, hparts⟩ := List.forall_mem_cons.mp h
      obtain ⟨hqk, hpartsk⟩ := List.forall_mem_cons.mp hk
      rw [List.foldl_cons, ih hparts hpartsk, find?_addPart_of_ne hq hqk]

theorem file_foldl_addPart (h : ∀ q ∈ parts, ValidPart delim q) (hf : ∀ q ∈ parts, q.file = none)
    (form : MultipartForm) :
    (parts.foldl (fun form q => form.addPart q.header q.data) form).file = form.file := by
  induction parts generalizing form with
  | nil => rfl
  | cons q parts ih =>
      obtain ⟨hq, hparts⟩ := List.forall_mem_cons.mp h
      obtain ⟨hqf, hpartsf⟩ := List.forall_mem_cons.mp hf
      rw [List.foldl_cons, ih hparts hpartsf, file_addPart_text hqf hq]

theorem find?_foldl_send {k : Bytes} (hk : ∀ q ∈ parts, q.name ≠ k) (form : MultipartForm) :
    (parts.foldl FormPart.send form).fields.find? k = form.fields.find? k := by
  induction parts generalizing form with
  | nil => rfl
  | cons q parts ih =>
      obtain ⟨hqk, hpartsk⟩ := List.forall_mem_cons.mp hk
      rw [List.foldl_cons, ih hpartsk, find?_send_of_ne hqk]

theorem file_foldl_send (hf : ∀ q ∈ parts, q.file = none) (form : MultipartForm) :
    (parts.foldl FormPart.send form).file = form.file := by
  induction parts generalizing form with
  | nil => rfl
  | cons q parts ih =>
      obtain ⟨hqf, hpartsf⟩ := List.forall_mem_cons.mp hf
      rw [List.foldl_cons, ih hpartsf, file_send_text hqf]

/-! ### One part among others -/

/-- The other parts have other names and, next to a file, are text fields. -/
structure Others (p : FormPart) (parts : List FormPart) : Prop where
  names : ∀ q ∈ parts, q.name ≠ p.name
  texts : p.file ≠ none → ∀ q ∈ parts, q.file = none

theorem ValidForm.others (h : ValidForm delim (front ++ p :: rest)) :
    Others p front ∧ Others p rest := by
  have hnames := h.names
  rw [List.map_append, List.map_cons, List.nodup_append, List.nodup_cons] at hnames
  obtain ⟨-, ⟨hrest, -⟩, hfront⟩ := hnames
  have htexts : p.file ≠ none → (∀ q ∈ front, q.file = none) ∧ ∀ q ∈ rest, q.file = none := by
    intro hp
    have hone := h.oneFile
    have hsome : p.file.isSome = true := Option.isSome_iff_ne_none.mpr hp
    rw [List.filter_append, List.filter_cons, if_pos hsome, List.length_append, List.length_cons] at hone
    have hfrontNil : (front.filter fun q => q.file.isSome) = [] :=
      List.length_eq_zero_iff.mp (by omega)
    have hrestNil : (rest.filter fun q => q.file.isSome) = [] :=
      List.length_eq_zero_iff.mp (by omega)
    rw [List.filter_eq_nil_iff] at hfrontNil hrestNil
    exact ⟨fun q hq => by simpa using hfrontNil q hq, fun q hq => by simpa using hrestNil q hq⟩
  refine ⟨⟨fun q hq => ?_, fun hp => (htexts hp).1⟩, ⟨fun q hq heq => ?_, fun hp => (htexts hp).2⟩⟩
  · exact hfront _ (List.mem_map_of_mem hq) _ List.mem_cons_self
  · exact hrest (heq ▸ List.mem_map_of_mem hq)

theorem find?_sentForm (h : ValidForm delim (front ++ p :: rest)) (hf : p.file = none) :
    (sentForm (front ++ p :: rest)).fields.find? p.name = some p.data := by
  rw [sentForm, List.foldl_append, List.foldl_cons, find?_foldl_send h.others.2.names, FormPart.send, hf]
  exact OrderedMap.find?_insert_self _ _ _

theorem file_sentForm (h : ValidForm delim (front ++ p :: rest)) (hf : p.file = some f) :
    (sentForm (front ++ p :: rest)).file = (f.name, p.data, f.type) := by
  have hp : p.file ≠ none := by simp [hf]
  rw [sentForm, List.foldl_append, List.foldl_cons, file_foldl_send (h.others.2.texts hp), FormPart.send,
    hf]
  rfl

/-- Where a form is taken apart as it was put together, it is recovered only if every part stands. -/
theorem stands_of_fold (h : ValidForm delim parts)
    (heq : parts.foldl (fun form q => form.addPart q.header q.data) {} = sentForm parts) (hp : p ∈ parts) :
    (p.file = none → p.name ≠ []) ∧ ∀ f ∈ p.file, FileStands p f := by
  obtain ⟨front, rest, rfl⟩ := List.append_of_mem hp
  obtain ⟨hfront, hrest⟩ := h.others
  have hvalid := h.part
  rw [List.forall_mem_append, List.forall_mem_cons] at hvalid
  obtain ⟨hfrontValid, hpValid, hrestValid⟩ := hvalid
  rw [List.foldl_append, List.foldl_cons] at heq
  constructor
  · intro hf hname
    have hfind := congrArg (fun form => form.fields.find? p.name) heq
    simp only [find?_sentForm h hf, find?_foldl_addPart hrestValid hrest.names] at hfind
    rw [addPart_text hf hpValid, if_neg (not_not.mpr hname),
      find?_foldl_addPart hfrontValid hfront.names] at hfind
    cases hfind
  · intro f hf
    have hp : p.file ≠ none := fun hnone => by rw [hnone] at hf; cases hf
    have hfile := congrArg MultipartForm.file heq
    rw [file_sentForm h hf, file_foldl_addPart hrestValid (hrest.texts hp)] at hfile
    by_cases hname : foundName p f = []
    · rw [file_addPart hf hpValid hname, file_foldl_addPart hfrontValid (hfront.texts hp)] at hfile
      have htype : f.type = [] := (congrArg (fun t => t.2.2) hfile).symm
      obtain ⟨c, hc, -⟩ := (hpValid.fileType f hf).head
      rw [htype] at hc
      cases hc
    · rw [addPart_file hf hpValid hname] at hfile
      have hfound : foundName p f = f.name := congrArg Prod.fst hfile
      have htype : foundType p f = f.type := congrArg (fun t => t.2.2) hfile
      exact ⟨hfound ▸ hname, foundName_eq_iff.mp hfound, foundType_eq_iff.mp htype⟩

/-! ### Data with the delimiter in them -/

theorem encodeForm_eq_append (p : FormPart) (rest : List FormPart) :
    ∃ w, encodeForm delim (p :: rest) = w ++ (str "\r\n" ++ (delim ++ str "--\r\n")) := by
  induction rest generalizing p with
  | nil => exact ⟨delim ++ (str "\r\n" ++ (p.header ++ (str "\r\n\r\n" ++ p.data))), by
      simp [encodeForm, FormPart.encode]⟩
  | cons q rest ih =>
      obtain ⟨w, hw⟩ := ih q
      exact ⟨p.encode delim ++ w, by rw [encodeForm_cons, hw, List.append_assoc]⟩

theorem Delimits.head (hd : Delimits delim) (h : delim <+: v) : ∃ c ∈ v.head?, c ≠ chr '\n' := by
  obtain ⟨c, t, hct⟩ := List.exists_cons_of_ne_nil hd.ne_nil
  obtain ⟨w, rfl⟩ := h
  refine ⟨c, by rw [hct]; rfl, ?_⟩
  rintro rfl
  exact hd.lf (hct ▸ List.mem_cons_self)

theorem suffix_of_append {x y e : Bytes} (h : y ++ e <:+ x ++ e) : y <:+ x := by
  obtain ⟨u, hu⟩ := h
  rw [← List.append_assoc] at hu
  exact ⟨u, List.append_cancel_right hu⟩

/-- The line feed of the closing line is the only one behind the delimiter. -/
theorem eq_nil_of_closing (hd : Delimits delim) {z : Bytes} (h : z ++ v = delim ++ str "--\r\n")
    (hz : str "\r\n\r\n" <:+ s ++ z) (hv : v ≠ []) : z = [] := by
  obtain hnil | ⟨z', e, rfl⟩ := z.eq_nil_or_concat'
  · exact hnil
  · have hlast : e = chr '\n' := by
      obtain ⟨u, hu⟩ := hz
      have hends : u ++ str "\r\n\r\n" = u ++ str "\r\n\r" ++ [chr '\n'] := by simp [str]
      have heq := congrArg List.getLast? hu
      rw [hends, ← List.append_assoc, List.getLast?_concat, List.getLast?_concat] at heq
      exact (Option.some.inj heq).symm
    obtain ⟨v', g, rfl⟩ := (v.eq_nil_or_concat').resolve_left hv
    have hsplit : delim ++ str "--\r\n" = delim ++ str "--\r" ++ [chr '\n'] := by simp [str]
    rw [hsplit, ← List.append_assoc] at h
    have hbefore := (List.append_inj' h rfl).1
    have hmem : chr '\n' ∈ delim ++ str "--\r" := by
      rw [← hbefore, hlast]
      simp
    rw [List.mem_append] at hmem
    exact absurd (hmem.resolve_left hd.lf) (by decide)

/-- Only the closing delimiter can be the rest of the body behind an empty line and data of a part. -/
theorem eq_closing_of_suffix (hd : Delimits delim) (hv : findSub (str "\r\n" ++ delim) v = none)
    (hfirst : ∃ c ∈ v.head?, c ≠ chr '\n') (hsuffix : str "\r\n\r\n" ++ v <:+ encodeForm delim (p :: rest)) :
    v = delim ++ str "--\r\n" := by
  obtain ⟨w, hw⟩ := @encodeForm_eq_append delim p rest
  rw [hw, ← List.append_assoc] at hsuffix
  have hvs : v <:+ (w ++ str "\r\n") ++ (delim ++ str "--\r\n") :=
    (List.suffix_append _ _).trans hsuffix
  obtain ⟨c, hc, hlf⟩ := hfirst
  have hne : v ≠ [] := by
    rintro rfl
    cases hc
  rcases List.suffix_or_suffix_of_suffix hvs (List.suffix_append _ _) with hshort | hlong
  · obtain ⟨z, hz⟩ := hshort
    rw [← hz, ← List.append_assoc] at hsuffix
    have hnil := eq_nil_of_closing hd hz (suffix_of_append hsuffix) hne
    rw [← hz, hnil, List.nil_append]
  · obtain ⟨y, rfl⟩ := hlong
    have hcrlf : ∀ x, y ≠ x ++ str "\r\n" := by
      rintro x rfl
      have hfound := isSome_findSub_append (str "\r\n" ++ delim) x (str "--\r\n")
      rw [show x ++ (str "\r\n" ++ delim ++ str "--\r\n") =
        x ++ str "\r\n" ++ (delim ++ str "--\r\n") by simp, hv] at hfound
      cases hfound
    rcases List.suffix_or_suffix_of_suffix (suffix_of_append hvs) (List.suffix_append _ _) with
      hend | ⟨x, hx⟩
    · have hcases : y = str "\r\n" ∨ y = [chr '\n'] ∨ y = [] := by
        simpa [str, List.suffix_cons_iff] using hend
      rcases hcases with hall | hone | hnil
      · exact absurd (by simpa using hall) (hcrlf [])
      · rw [hone, List.singleton_append, List.head?_cons, Option.mem_some_iff] at hc
        exact absurd hc.symm hlf
      · rw [hnil, List.nil_append]
    · exact absurd hx.symm (hcrlf x)

theorem multipartParts_closing (fuel : Nat) (u : Bytes) (form : MultipartForm) :
    multipartParts delim fuel (delim ++ (str "--" ++ u)) form = form := by
  cases fuel with
  | zero => rfl
  | succ fuel =>
      rw [multipartParts, findSub_of_head (List.prefix_append _ _)]
      simp only [List.drop_left]
      rw [if_pos (List.prefix_append _ _)]

/-- Of data that begin with the delimiter the rest of the body is stored. -/
theorem multipartParts_begins (h : ValidPart delim p) (hbegin : delim <+: p.data) (fuel : Nat) (u : Bytes)
    (form : MultipartForm) :
    multipartParts delim (fuel + 1) (p.encode delim ++ u) form =
      multipartParts delim fuel (p.data ++ (str "\r\n" ++ u))
        (form.addPart p.header (p.data ++ (str "\r\n" ++ u))) := by
  have htext : p.encode delim ++ u = delim ++ (str "\r\n" ++ (p.header ++
      (str "\r\n\r\n" ++ (p.data ++ (str "\r\n" ++ u))))) := by
    simp [FormPart.encode]
  have hdashes : ∀ x, ¬ str "--" <+: str "\r\n" ++ x := by
    intro x
    simp [str, chr, List.cons_prefix_cons]
  have hdrop : ∀ x, (str "\r\n" ++ x).drop 2 = x := fun x => rfl
  have hdrop4 : ∀ x, (str "\r\n\r\n" ++ x).drop 4 = x := fun x => rfl
  have hnext : findSub delim (p.data ++ (str "\r\n" ++ u)) = some (p.data ++ (str "\r\n" ++ u)) :=
    findSub_of_head (hbegin.trans (List.prefix_append _ _))
  have hself : ∀ x : Bytes, before x x = [] := fun x => by simpa using before_append [] x
  rw [htext, multipartParts, findSub_of_head (List.prefix_append _ _)]
  simp only [List.drop_left]
  rw [if_neg (hdashes _), if_pos (List.prefix_append _ _)]
  simp only [hdrop, findSub_header h, hdrop4, hnext, hself, if_true, before_append]

/-- The first data with the delimiter in them. -/
theorem exists_first (h : ∃ q ∈ parts, findSub delim q.data ≠ none) :
    ∃ front p rest, parts = front ++ p :: rest ∧ (∀ q ∈ front, findSub delim q.data = none) ∧
      findSub delim p.data ≠ none := by
  induction parts with
  | nil =>
      obtain ⟨q, hq, -⟩ := h
      cases hq
  | cons q parts ih =>
      by_cases hq : findSub delim q.data = none
      · obtain ⟨r, hr, hdata⟩ := h
        have hmem : r ∈ parts := by
          refine (List.mem_cons.mp hr).resolve_left ?_
          rintro rfl
          exact hdata hq
        obtain ⟨front, p, rest, rfl, hfront, hp⟩ := ih ⟨r, hmem, hdata⟩
        exact ⟨q :: front, p, rest, rfl, List.forall_mem_cons.mpr ⟨hq, hfront⟩, hp⟩
      · exact ⟨[], q, parts, rfl, nofun, hq⟩

/-- What is held of the first data with the delimiter in them is not those data. -/
theorem not_held (hd : Delimits delim) (h : ValidPart delim p) (hdata : findSub delim p.data ≠ none)
    (fuel : Nat) (form : MultipartForm) :
    Stored delim (encodeForm delim (p :: rest)) p.data →
      ∃ data, data ≠ p.data ∧
        multipartParts delim (fuel + 1) (encodeForm delim (p :: rest)) form = form.addPart p.header data := by
  intro hstored
  obtain ⟨hbegin, hsuffix⟩ := hstored.resolve_left hdata
  have hclosing := eq_closing_of_suffix hd h.data (hd.head hbegin) hsuffix
  refine ⟨p.data ++ (str "\r\n" ++ encodeForm delim rest), fun heq => ?_, ?_⟩
  · have hlength := congrArg List.length heq
    rw [List.length_append, List.length_append] at hlength
    have htwo : (str "\r\n").length = 2 := rfl
    omega
  · rw [encodeForm_cons, multipartParts_begins h hbegin]
    conv_lhs => rw [hclosing]
    have htext : delim ++ str "--\r\n" ++ (str "\r\n" ++ encodeForm delim rest) =
        delim ++ (str "--" ++ (str "\r\n\r\n" ++ encodeForm delim rest)) := by
      simp [str]
    rw [htext, multipartParts_closing, ← htext, ← hclosing]

/-- A form with the delimiter in some data is not recovered. -/
theorem data_of_recovered (hd : Delimits delim) (h : ValidForm delim parts) {fuel : Nat}
    (hfuel : parts.length < fuel)
    (heq : multipartParts delim fuel (encodeForm delim parts) {} = sentForm parts) :
    ∀ p ∈ parts, findSub delim p.data = none := by
  by_contra hno
  push Not at hno
  obtain ⟨front, p, rest, rfl, hfront, hdata⟩ := exists_first hno
  obtain ⟨hothers, -⟩ := h.others
  have hvalid := h.part
  rw [List.forall_mem_append, List.forall_mem_cons] at hvalid
  obtain ⟨hfrontValid, hp, -⟩ := hvalid
  rw [List.length_append, List.length_cons] at hfuel
  obtain ⟨n, rfl⟩ : ∃ n, fuel = n + 1 + front.length := ⟨fuel - 1 - front.length, by omega⟩
  rw [multipartParts_append hd hfrontValid hfront] at heq
  obtain ⟨form, hform⟩ : ∃ form, form =
      front.foldl (fun form q => MultipartForm.addPart form q.header q.data) {} := ⟨_, rfl⟩
  rw [← hform] at heq
  have hholds := holds_multipartParts hd.ne_nil (n + 1) (encodeForm delim (p :: rest)) form
  rw [heq] at hholds
  cases hf : p.file with
  | none =>
      have hsent := find?_sentForm h hf
      have hold : form.fields.find? p.name = none := by
        rw [hform, find?_foldl_addPart hfrontValid hothers.names]
        rfl
      have hstored : Stored delim (encodeForm delim (p :: rest)) p.data := by
        refine (hholds.fields _ _ hsent).resolve_left fun hin => ?_
        rw [hold] at hin
        cases hin
      obtain ⟨data, hne, hround⟩ := not_held hd hp hdata n form hstored
      rw [← heq, hround, addPart_text hf hp] at hsent
      split_ifs at hsent
      · rw [OrderedMap.find?_insert_self] at hsent
        exact hne (Option.some.inj hsent)
      · rw [hold] at hsent
        cases hsent
  | some f =>
      have hpf : p.file ≠ none := by simp [hf]
      have hsent := file_sentForm h hf
      have hold : form.file = ([], [], []) := by
        rw [hform, file_foldl_addPart hfrontValid (hothers.texts hpf)]
        rfl
      have hsentData : (sentForm (front ++ p :: rest)).fileData = p.data :=
        congrArg (fun t => t.2.1) hsent
      have hnil : p.data ≠ [] := fun hnil => hdata (by
        rw [hnil]
        exact findSub_eq_none_of_length (List.length_pos_iff.mpr hd.ne_nil))
      have hstored : Stored delim (encodeForm delim (p :: rest)) p.data := by
        have hfile := hholds.file
        rw [hsentData] at hfile
        exact hfile.resolve_left fun hin => hnil (hin.trans (congrArg (fun t => t.2.1) hold))
      obtain ⟨data, hne, hround⟩ := not_held hd hp hdata n form hstored
      rw [← heq, hround] at hsentData
      by_cases hname : foundName p f = []
      · have hfile := @file_addPart _ _ _ form hf hp hname data
        rw [hold] at hfile
        exact hnil (hsentData.symm.trans (congrArg (fun t => t.2.1) hfile))
      · rw [addPart_file hf hp hname] at hsentData
        exact hne hsentData

/-- A form is recovered if and only if every part stands where it is searched for. -/
theorem recovered_iff (hd : Delimits delim) (h : ValidForm delim parts) {fuel : Nat}
    (hfuel : parts.length < fuel) :
    multipartParts delim fuel (encodeForm delim parts) {} = sentForm parts ↔
      ∀ p ∈ parts, PartStands delim p := by
  constructor
  · intro heq p hp
    have hdata := data_of_recovered hd h hfuel heq
    rw [multipartParts_encode hd h.part hdata hfuel] at heq
    obtain ⟨hnamed, hfile⟩ := stands_of_fold h heq hp
    exact ⟨hdata p hp, hnamed, hfile⟩
  · exact fun hstands => parts_of_stands hd h.part hstands hfuel

end

end ExamVan.Admin
