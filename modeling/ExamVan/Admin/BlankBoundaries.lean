import ExamVan.Admin.MultipartForms

/-!
# Boundaries with a leading blank

A quoted boundary may begin with blanks, and `parse_multipart` drops them: it searches for another
delimiter than the one that was sent. A round goes on only where that is at the end of a line, which a
form has at most once, behind the type of its file.
-/

namespace ExamVan.Admin

open ByteString Queue

section

variable {delim other a s t : Bytes} {form : MultipartForm} {p : FormPart} {f : SentFile}
  {front rest parts : List FormPart} {after : Bytes → Prop}

/-! ### Places in a text -/

/-- Behind each place where the delimiter is. -/
def Places (delim : Bytes) (after : Bytes → Prop) (s : Bytes) : Prop :=
  ∀ pre post, s = pre ++ (delim ++ post) → after post

/-- More of the line follows. -/
def Inside (post : Bytes) : Prop := ∃ c ∈ post.head?, c ≠ chr '\r' ∧ c ≠ chr '\n'

/-- A round ends here, before its data. -/
def Stops (post : Bytes) : Prop := Inside post ∨ findSub (str "\r\n\r\n") post = none

def InsideOrEnd (post : Bytes) : Prop := Inside post ∨ post = []

theorem findSub_eq_none_iff : findSub delim s = none ↔ Places delim (fun _ => False) s := by
  constructor
  · rintro h pre post rfl
    have hsome := isSome_findSub_append delim pre post
    rw [h] at hsome
    cases hsome
  · intro h
    cases hfind : findSub delim s with
    | none => rfl
    | some d =>
        obtain ⟨skip, hskip, post, rfl⟩ := exists_of_findSub hfind
        exact (h skip post hskip).elim

theorem Places.mono {behind : Bytes → Prop} (h : Places delim behind s)
    (himp : ∀ post, behind post → after post) : Places delim after s :=
  fun pre post heq => himp post (h pre post heq)

theorem places_of_none (h : findSub delim s = none) : Places delim after s :=
  (findSub_eq_none_iff.mp h).mono fun _ hno => hno.elim

theorem Places.of_suffix (h : Places delim after s) (ht : t <:+ s) : Places delim after t := by
  obtain ⟨w, rfl⟩ := ht
  intro pre post heq
  exact h (w ++ pre) post (by rw [heq, List.append_assoc])

theorem findSub_suffix (h : findSub delim s = none) (ht : t <:+ s) : findSub delim t = none :=
  findSub_eq_none_iff.mpr ((findSub_eq_none_iff.mp h).of_suffix ht)

/-- A place before or behind a byte that is not in what is searched for. -/
theorem place_cases {pre post : Bytes} {c : UInt8} (hc : c ∉ delim) (hne : delim ≠ [])
    (h : a ++ c :: s = pre ++ (delim ++ post)) :
    (∃ post', a = pre ++ (delim ++ post') ∧ post = post' ++ c :: s) ∨
      ∃ pre', s = pre' ++ (delim ++ post) := by
  rcases List.append_eq_append_iff.mp h with ⟨w, hpre, hrest⟩ | ⟨w, ha, hrest⟩
  · cases w with
    | nil =>
        obtain ⟨d, t, hd⟩ := List.exists_cons_of_ne_nil hne
        rw [List.nil_append, hd, List.cons_append] at hrest
        exact absurd (hd ▸ (List.cons.inj hrest).1 ▸ List.mem_cons_self) hc
    | cons d w =>
        rw [List.cons_append] at hrest
        exact .inr ⟨w, (List.cons.inj hrest).2⟩
  · rcases List.append_eq_append_iff.mp hrest with ⟨u, hw, hpost⟩ | ⟨u, hdelim, hpost⟩
    · exact .inl ⟨u, by rw [ha, hw], hpost⟩
    · cases u with
      | nil => exact .inl ⟨[], by rw [ha, hdelim]; simp, by simpa using hpost.symm⟩
      | cons d u =>
          rw [List.cons_append] at hpost
          exact absurd (hdelim ▸ (List.cons.inj hpost).1 ▸ by simp) hc

theorem inside_append {post : Bytes} (h : Inside post) (s : Bytes) : Inside (post ++ s) := by
  obtain ⟨c, hc, hends⟩ := h
  obtain ⟨w, rfl⟩ := List.head?_eq_some_iff.mp hc
  exact ⟨c, rfl, hends⟩

/-- The places of two lines: those inside the first, and those of the second. -/
theorem Places.append_cons {c : UInt8} (h : Places delim after s) (hafter : ∀ post, Inside post → after post)
    (hc : c ∉ delim) (hne : delim ≠ []) (ha : Places delim Inside a) :
    Places delim after (a ++ c :: s) := by
  intro pre post heq
  rcases place_cases hc hne heq with ⟨post', hplace, rfl⟩ | ⟨pre', hplace⟩
  · exact hafter _ (inside_append (ha pre post' hplace) _)
  · exact h pre' post hplace

theorem Places.cons {c : UInt8} (h : Places delim after s) (hafter : ∀ post, Inside post → after post)
    (hc : c ∉ delim) (hne : delim ≠ []) : Places delim after (c :: s) :=
  h.append_cons (a := []) hafter hc hne (places_of_none (findSub_eq_none_of_length (by
    simpa using List.length_pos_iff.mpr hne)))

/-! ### Rounds without a delimiter at the end of a line -/

theorem places_of_no_empty_line (h : findSub (str "\r\n\r\n") s = none) : Places delim Stops s := by
  rintro pre post rfl
  exact .inr (findSub_suffix h ((List.suffix_append _ _).trans (List.suffix_append _ _)))

theorem multipartParts_of_stops {post : Bytes} (hfind : findSub delim s = some (delim ++ post))
    (h : Stops post) (fuel : Nat) (form : MultipartForm) : multipartParts delim fuel s form = form := by
  cases fuel with
  | zero => rfl
  | succ fuel =>
      rw [multipartParts, hfind]
      dsimp only
      rw [List.drop_left]
      rcases h with ⟨c, hc, hends⟩ | hno
      · obtain ⟨w, rfl⟩ := List.head?_eq_some_iff.mp hc
        have hcrlf : ¬ str "\r\n" <+: c :: w := fun hhead =>
          hends.1 (List.cons_prefix_cons.mp hhead).1.symm
        have hlf : (c :: w).head? ≠ some (chr '\n') := fun hhead => hends.2 (Option.some.inj hhead)
        rw [if_neg hcrlf, if_neg hlf]
        split_ifs <;> rfl
      · split
        · rfl
        · split
          · rfl
          · next head hsome =>
              have hs : head <:+ post := by
                split_ifs at hsome
                · cases hsome
                  exact List.drop_suffix _ _
                · cases hsome
                  exact List.tail_suffix _
              simp only [findSub_suffix hno hs]

/-- No round gets to its data. -/
theorem multipartParts_of_places (h : Places delim Stops s) (fuel : Nat) (form : MultipartForm) :
    multipartParts delim fuel s form = form := by
  cases hfind : findSub delim s with
  | none =>
      cases fuel with
      | zero => rfl
      | succ fuel => rw [multipartParts, hfind]
  | some d =>
      obtain ⟨skip, hskip, post, rfl⟩ := exists_of_findSub hfind
      exact multipartParts_of_stops hfind (h skip post hskip) fuel form

/-- Behind a delimiter at the end of a line one value is stored at most, and its quotes and those of its
header are in the text. -/
theorem multipartParts_of_line (hfind : findSub delim s = some (delim ++ (str "\r\n" ++ t)))
    (ht : Places delim Stops t) (fuel : Nat) (form : MultipartForm) :
    multipartParts delim fuel s form = form ∨ ∃ hdr data,
      multipartParts delim fuel s form = form.addPart hdr data ∧
        hdr.count (chr '"') + data.count (chr '"') ≤ t.count (chr '"') := by
  have hdashes : ¬ str "--" <+: str "\r\n" ++ t := by
    simp [str, chr, List.cons_prefix_cons]
  have hdrop : (str "\r\n" ++ t).drop 2 = t := rfl
  cases fuel with
  | zero => exact .inl rfl
  | succ fuel =>
      rw [multipartParts, hfind]
      simp only [List.drop_left]
      rw [if_neg hdashes, if_pos (List.prefix_append _ _)]
      simp only [hdrop]
      cases hempty : findSub (str "\r\n\r\n") t with
      | none => exact .inl rfl
      | some hdrEnd =>
          obtain ⟨hdr, rfl, w, rfl⟩ := exists_of_findSub hempty
          have hcontent : (str "\r\n\r\n" ++ w).drop 4 = w := rfl
          dsimp only
          rw [hcontent, before_append]
          cases hnext : findSub delim w with
          | none => exact .inl rfl
          | some next =>
              obtain ⟨raw, rfl, -⟩ := exists_of_findSub hnext
              have hrest : Places delim Stops next := by
                refine ht.of_suffix (((List.suffix_append raw _).trans ?_).trans (List.suffix_append hdr _))
                exact List.suffix_append _ _
              dsimp only
              rw [before_append, multipartParts_of_places hrest]
              refine .inr ⟨hdr, _, rfl, ?_⟩
              have hsub : (if raw = [] then raw ++ next
                  else if str "\r\n" <:+ raw then raw.dropLast.dropLast else raw).Sublist
                    (raw ++ next) := by
                split_ifs
                · exact List.Sublist.refl _
                · exact ((List.dropLast_sublist _).trans (List.dropLast_sublist _)).trans
                    (List.sublist_append_left _ _)
                · exact List.sublist_append_left _ _
              rw [List.count_append, List.count_append]
              have hcount := hsub.count_le (chr '"')
              omega

/-- A text of which only the end of one line lets a round go on. -/
theorem multipartParts_once (hcr : chr '\r' ∉ delim) (hlf : chr '\n' ∉ delim) (hne : delim ≠ [])
    (ha : Places delim InsideOrEnd a) (ht : Places delim Stops t) (fuel : Nat) (form : MultipartForm) :
    multipartParts delim fuel (a ++ chr '\r' :: chr '\n' :: t) form = form ∨ ∃ hdr data,
      multipartParts delim fuel (a ++ chr '\r' :: chr '\n' :: t) form = form.addPart hdr data ∧
        hdr.count (chr '"') + data.count (chr '"') ≤ t.count (chr '"') := by
  cases hfind : findSub delim (a ++ chr '\r' :: chr '\n' :: t) with
  | none =>
      left
      cases fuel with
      | zero => rfl
      | succ fuel => rw [multipartParts, hfind]
  | some d =>
      obtain ⟨skip, hskip, post, rfl⟩ := exists_of_findSub hfind
      rcases place_cases hcr hne hskip with ⟨post', hplace, rfl⟩ | ⟨pre', hplace⟩
      · rcases ha skip post' hplace with hinside | rfl
        · exact .inl (multipartParts_of_stops hfind (.inl (inside_append hinside _)) fuel form)
        · exact multipartParts_of_line hfind ht fuel form
      · have hstops := ht.cons (fun _ => .inl) hlf hne
        exact .inl (multipartParts_of_stops hfind (hstops pre' post hplace) fuel form)

/-! ### The lines of a form -/

/-- The delimiter that is searched for is not in the one that was sent. -/
structure Misses (other delim : Bytes) : Prop where
  searched : Delimits other
  quote : chr '"' ∉ other
  sentQuote : chr '"' ∉ delim
  absent : findSub other delim = none
  shorter : other.length ≤ delim.length

theorem inside_of_line (hcr : chr '\r' ∉ s) (hlf : chr '\n' ∉ s) : Places other InsideOrEnd s := by
  rintro pre (_ | ⟨c, post⟩) rfl
  · exact .inr rfl
  · refine .inl ⟨c, rfl, ?_, ?_⟩
    · rintro rfl
      exact hcr (by simp)
    · rintro rfl
      exact hlf (by simp)

theorem places_disposition (hm : Misses other delim) (h : ValidPart delim p) :
    Places other Inside p.disposition := by
  intro pre post heq
  refine (inside_of_line (notMem_disposition h (.inl rfl)) (notMem_disposition h (.inr rfl)) pre post
    heq).resolve_right ?_
  rintro rfl
  obtain ⟨u, hu⟩ := disposition_concat p
  obtain ⟨w, e, he⟩ := (other.eq_nil_or_concat').resolve_left hm.searched.ne_nil
  have hlast := congrArg List.getLast? (hu.symm.trans heq)
  rw [he, List.append_nil, ← List.append_assoc, List.getLast?_concat, List.getLast?_concat] at hlast
  refine absurd ?_ hm.quote
  rw [he, Option.some.inj hlast]
  simp

section

variable (hm : Misses other delim) (hafter : ∀ post, Inside post → after post)

include hm hafter

theorem places_data (hu : Places other after s) {data : Bytes} (hdata : findSub other data = none) :
    Places other after (chr '\r' :: chr '\n' :: (data ++ chr '\r' :: chr '\n' :: s)) := by
  have hcr := hm.searched.cr
  have hlf := hm.searched.lf
  have hne := hm.searched.ne_nil
  have hend : Places other after (chr '\n' :: s) := hu.cons hafter hlf hne
  have hline : Places other after (data ++ chr '\r' :: chr '\n' :: s) :=
    hend.append_cons hafter hcr hne (places_of_none hdata)
  exact (hline.cons hafter hlf hne).cons hafter hcr hne

/-- The lines up to the end of the disposition. -/
theorem places_line (h : ValidPart delim p) (hu : Places other after s) :
    Places other after (delim ++ (str "\r\n" ++ (p.disposition ++ (str "\r\n" ++ s)))) := by
  have hcr := hm.searched.cr
  have hlf := hm.searched.lf
  have hne := hm.searched.ne_nil
  have hend : Places other after (chr '\n' :: s) := hu.cons hafter hlf hne
  have hline : Places other after (p.disposition ++ chr '\r' :: chr '\n' :: s) :=
    hend.append_cons hafter hcr hne (places_disposition hm h)
  exact (hline.cons hafter hlf hne).append_cons hafter hcr hne (places_of_none hm.absent)

theorem places_text (h : ValidPart delim p) (hf : p.file = none) (hdata : findSub other p.data = none)
    (hu : Places other after s) : Places other after (p.encode delim ++ s) := by
  have htext : p.encode delim ++ s = delim ++ (str "\r\n" ++ (p.disposition ++ (str "\r\n" ++
      (chr '\r' :: chr '\n' :: (p.data ++ chr '\r' :: chr '\n' :: s))))) := by
    simp [FormPart.encode, FormPart.header, hf, str, chr]
  rw [htext]
  exact places_line hm hafter h (places_data hm hafter hu hdata)

theorem places_texts (h : ∀ p ∈ parts, ValidPart delim p) (hf : ∀ p ∈ parts, p.file = none)
    (hdata : ∀ p ∈ parts, findSub other p.data = none) (hu : Places other after s) :
    Places other after (parts.flatMap (FormPart.encode delim) ++ s) := by
  induction parts with
  | nil => exact hu
  | cons p parts ih =>
      obtain ⟨hp, hparts⟩ := List.forall_mem_cons.mp h
      obtain ⟨hpf, hpartsf⟩ := List.forall_mem_cons.mp hf
      obtain ⟨hpdata, hpartsdata⟩ := List.forall_mem_cons.mp hdata
      rw [List.flatMap_cons, List.append_assoc]
      exact places_text hm hafter hp hpf hpdata (ih hparts hpartsf hpartsdata)

end

theorem places_closing (hd : Delimits delim) : Places other Stops (delim ++ str "--\r\n") := by
  refine places_of_no_empty_line ?_
  have hskip : findSub (str "\r\n\r\n") (delim ++ str "--\r\n") =
      findSub (str "\r\n\r\n") (str "--\r\n") :=
    findSub_append_of_notMem hd.cr
  exact hskip.trans (by decide)

/-- Nothing is stored of a form without a file. -/
theorem places_form (hm : Misses other delim) (hd : Delimits delim) (h : ∀ p ∈ parts, ValidPart delim p)
    (hf : ∀ p ∈ parts, p.file = none) (hdata : ∀ p ∈ parts, findSub other p.data = none) :
    Places other Stops (encodeForm delim parts) :=
  places_texts hm (fun _ => .inl) h hf hdata (places_closing hd)

/-- Of a form with a file one value is stored at most. -/
theorem multipartParts_file (hm : Misses other delim) (hd : Delimits delim)
    (h : ∀ q ∈ front ++ p :: rest, ValidPart delim q) (hf : p.file = some f)
    (htexts : ∀ q ∈ front ++ rest, q.file = none)
    (hdata : ∀ q ∈ front ++ p :: rest, findSub other q.data = none) (fuel : Nat) (form : MultipartForm) :
    multipartParts other fuel (encodeForm delim (front ++ p :: rest)) form = form ∨ ∃ hdr data,
      multipartParts other fuel (encodeForm delim (front ++ p :: rest)) form = form.addPart hdr data ∧
        hdr.count (chr '"') + data.count (chr '"') ≤
          p.data.count (chr '"') + (encodeForm delim rest).count (chr '"') := by
  rw [List.forall_mem_append, List.forall_mem_cons] at h hdata
  rw [List.forall_mem_append] at htexts
  obtain ⟨hfront, hp, hrest⟩ := h
  obtain ⟨hfrontData, hpData, hrestData⟩ := hdata
  have htype := hp.fileType f hf
  have hline : Places other InsideOrEnd (str "Content-Type: " ++ f.type) := by
    apply inside_of_line
    · rw [List.mem_append, not_or]
      exact ⟨by decide, htype.cr⟩
    · rw [List.mem_append, not_or]
      exact ⟨by decide, htype.lf⟩
  have hbefore : Places other InsideOrEnd (front.flatMap (FormPart.encode delim) ++ (delim ++
      (str "\r\n" ++ (p.disposition ++ (str "\r\n" ++ (str "Content-Type: " ++ f.type)))))) :=
    places_texts hm (fun _ => .inl) hfront htexts.1 hfrontData
      (places_line hm (fun _ => .inl) hp hline)
  have hbehind : Places other Stops
      (chr '\r' :: chr '\n' :: (p.data ++ chr '\r' :: chr '\n' :: encodeForm delim rest)) :=
    places_data hm (fun _ => .inl) (places_form hm hd hrest htexts.2 hrestData) hpData
  have htext : encodeForm delim (front ++ p :: rest) = front.flatMap (FormPart.encode delim) ++ (delim ++
      (str "\r\n" ++ (p.disposition ++ (str "\r\n" ++ (str "Content-Type: " ++ f.type))))) ++
        chr '\r' :: chr '\n' :: (chr '\r' :: chr '\n' ::
          (p.data ++ chr '\r' :: chr '\n' :: encodeForm delim rest)) := by
    simp [encodeForm, FormPart.encode, FormPart.header, hf, str, chr]
  have hcount : (chr '\r' :: chr '\n' ::
      (p.data ++ chr '\r' :: chr '\n' :: encodeForm delim rest)).count (chr '"') =
        p.data.count (chr '"') + (encodeForm delim rest).count (chr '"') := by
    simp [List.count_append, chr]
  rw [htext, ← hcount]
  exact multipartParts_once hm.searched.cr hm.searched.lf hm.searched.ne_nil hbefore hbehind fuel form

/-! ### Nothing is recovered -/

/-- The delimiter that is searched for is in no data of a form that is recovered. -/
theorem data_of_missed (hm : Misses other delim) (hd : Delimits delim) (h : ValidForm delim parts)
    {fuel : Nat} (heq : multipartParts other fuel (encodeForm delim parts) {} = sentForm parts) :
    ∀ p ∈ parts, findSub other p.data = none := by
  intro p hp
  have hholds := holds_multipartParts hm.searched.ne_nil fuel (encodeForm delim parts) {}
  rw [heq] at hholds
  have hlate : Stored other (encodeForm delim parts) p.data → findSub other p.data = none := by
    refine fun hstored => hstored.resolve_right ?_
    rintro ⟨hbegin, hsuffix⟩
    obtain ⟨q, rest, rfl⟩ := List.exists_cons_of_ne_nil (List.ne_nil_of_mem hp)
    have hclosing := eq_closing_of_suffix hd (h.part p hp).data (hm.searched.head hbegin) hsuffix
    rw [hclosing] at hbegin
    obtain ⟨w, hw⟩ := List.prefix_of_prefix_length_le hbegin (List.prefix_append delim _) hm.shorter
    have hfound := isSome_findSub_append other [] w
    rw [List.nil_append, hw, hm.absent] at hfound
    cases hfound
  obtain ⟨front, rest, rfl⟩ := List.append_of_mem hp
  cases hf : p.file with
  | none => exact hlate ((hholds.fields _ _ (find?_sentForm h hf)).resolve_left nofun)
  | some f =>
      have hsent : (sentForm (front ++ p :: rest)).fileData = p.data :=
        congrArg (fun t => t.2.1) (file_sentForm h hf)
      have hfile := hholds.file
      rw [hsent] at hfile
      rcases hfile with hnil | hstored
      · rw [hnil]
        exact findSub_eq_none_of_length (List.length_pos_iff.mpr hm.searched.ne_nil)
      · exact hlate hstored

/-- A file is stored under a header with a quote, and nothing else then. -/
theorem file_of_addPart {hdr data : Bytes}
    (h : (MultipartForm.addPart {} hdr data).file ≠ ([], [], [])) :
    (MultipartForm.addPart {} hdr data).fields = .empty ∧
      (MultipartForm.addPart {} hdr data).fileData = data ∧ 0 < hdr.count (chr '"') := by
  by_cases hname : (quotedParam (str "filename") hdr).getD [] = []
  · refine absurd ?_ h
    rw [MultipartForm.addPart]
    simp only [hname]
    rw [if_neg (not_not.mpr rfl)]
    split_ifs <;> rfl
  · have hquote : 0 < hdr.count (chr '"') := by
      cases hfind : findSub (str "filename" ++ str "=\"") hdr with
      | none =>
          rw [quotedParam_of_none hfind] at hname
          exact absurd rfl hname
      | some found =>
          obtain ⟨skip, rfl, w, rfl⟩ := exists_of_findSub hfind
          rw [List.count_pos_iff]
          simp [str, chr]
    rw [MultipartForm.addPart]
    dsimp only
    rw [if_pos hname]
    exact ⟨rfl, rfl, hquote⟩

/-- No form with a part is recovered where another delimiter is searched for. -/
theorem not_recovered (hm : Misses other delim) (hd : Delimits delim) (h : ValidForm delim parts)
    (hparts : parts ≠ []) (fuel : Nat) :
    multipartParts other fuel (encodeForm delim parts) {} ≠ sentForm parts := by
  intro heq
  have hdata := data_of_missed hm hd h heq
  have hfile : ∀ p ∈ parts, p.file ≠ none → (sentForm parts).file ≠ ([], [], []) := by
    intro p hp hpf hnone
    obtain ⟨front, rest, rfl⟩ := List.append_of_mem hp
    obtain ⟨f, hf⟩ := Option.ne_none_iff_exists'.mp hpf
    rw [file_sentForm h hf] at hnone
    have htype : f.type = [] := congrArg (fun t => t.2.2) hnone
    obtain ⟨c, hc, -⟩ := ((h.part p hp).fileType f hf).head
    rw [htype] at hc
    cases hc
  have hfields : ∀ p ∈ parts, p.file = none → (sentForm parts).fields ≠ .empty := by
    intro p hp hf hnone
    obtain ⟨front, rest, rfl⟩ := List.append_of_mem hp
    have hfind := find?_sentForm h hf
    rw [hnone] at hfind
    cases hfind
  by_cases htexts : ∀ p ∈ parts, p.file = none
  · obtain ⟨p, rest, rfl⟩ := List.exists_cons_of_ne_nil hparts
    rw [multipartParts_of_places (places_form hm hd h.part htexts hdata)] at heq
    exact hfields p List.mem_cons_self (htexts p List.mem_cons_self) (heq ▸ rfl)
  · push Not at htexts
    obtain ⟨p, hp, hpf⟩ := htexts
    have hsome := hfile p hp hpf
    obtain ⟨front, rest, rfl⟩ := List.append_of_mem hp
    obtain ⟨hfront, hrest⟩ := h.others
    obtain ⟨f, hf⟩ := Option.ne_none_iff_exists'.mp hpf
    have hothers : ∀ q ∈ front ++ rest, q.file = none :=
      List.forall_mem_append.mpr ⟨hfront.texts hpf, hrest.texts hpf⟩
    rcases multipartParts_file hm hd h.part hf hothers hdata fuel {} with hnone | ⟨hdr, data, hone, hcount⟩
    · rw [hnone] at heq
      exact hsome (heq ▸ rfl)
    · rw [hone] at heq
      rw [← heq] at hsome hfields
      obtain ⟨hempty, hstored, hquote⟩ := file_of_addPart hsome
      have hnil : rest = [] := by
        refine List.eq_nil_iff_forall_not_mem.mpr fun q hq => ?_
        exact hfields q (by simp [hq]) (hrest.texts hpf q hq) hempty
      have hsent : (sentForm (front ++ p :: rest)).fileData = p.data :=
        congrArg (fun t => t.2.1) (file_sentForm h hf)
      have hclosing : (encodeForm delim []).count (chr '"') = 0 := by
        rw [List.count_eq_zero, encodeForm, List.flatMap_nil, List.nil_append, List.mem_append, not_or]
        exact ⟨hm.sentQuote, by decide⟩
      have hsame : data = p.data := hstored.symm.trans ((congrArg MultipartForm.fileData heq).trans hsent)
      rw [hnil, hclosing, hsame] at hcount
      omega

/-! ### Boundaries -/

/-- A text that begins with a blank is not found behind the dashes of one with fewer blanks. -/
theorem findSub_dashes {blanks : Bytes} (hblanks : ∀ c ∈ blanks, c = chr ' ') (hne : blanks ≠ [])
    (ht : ∀ c ∈ t.head?, c ≠ chr ' ') (htne : t ≠ []) :
    findSub (str "--" ++ t) (str "--" ++ (blanks ++ t)) = none := by
  obtain ⟨c, u, rfl⟩ := List.exists_cons_of_ne_nil htne
  have hc : c ≠ chr ' ' := ht c rfl
  have hdash : ∀ {pre rest : Bytes}, pre ++ chr '-' :: rest = blanks ++ c :: u →
      ¬ pre.length < blanks.length := by
    intro pre rest heq hlt
    have hprefix : pre ++ [chr '-'] <+: blanks := by
      refine List.prefix_of_prefix_length_le ⟨rest, ?_⟩ (List.prefix_append blanks (c :: u)) ?_
      · rw [List.append_assoc, List.singleton_append, heq]
      · rw [List.length_append]
        exact hlt
    have hmem : chr '-' ∈ blanks := hprefix.subset (by simp)
    exact absurd (hblanks _ hmem) (by decide)
  refine findSub_eq_none_iff.mpr fun pre post heq => ?_
  have hlength := congrArg List.length heq
  simp only [List.length_append, List.length_cons] at hlength
  have hpos := List.length_pos_iff.mpr hne
  obtain ⟨d, w, hdw⟩ := List.exists_cons_of_ne_nil hne
  have hd : d = chr ' ' := hblanks d (hdw ▸ List.mem_cons_self)
  rcases pre with _ | ⟨e₁, _ | ⟨e₂, pre⟩⟩
  · have hrest : blanks ++ c :: u = c :: u ++ post := by
      simpa [str] using heq
    rw [hdw, List.cons_append, List.cons_append] at hrest
    exact hc ((List.cons.inj hrest).1.symm.trans hd)
  · have hrest : chr '-' :: (blanks ++ c :: u) = chr '-' :: chr '-' :: (c :: u ++ post) := by
      have htail := congrArg List.tail heq
      simpa [str] using htail
    rw [hdw, List.cons_append] at hrest
    have hblank := (List.cons.inj (List.cons.inj hrest).2).1
    rw [hd] at hblank
    exact absurd hblank (by decide)
  · have hrest : pre ++ chr '-' :: (chr '-' :: (c :: u ++ post)) = blanks ++ c :: u := by
      have htail := congrArg (fun s => s.tail.tail) heq
      simpa [str] using htail.symm
    refine hdash hrest ?_
    simp only [List.length_cons] at hlength
    omega

/-- What is searched for instead of a boundary with a leading blank. -/
theorem misses_dropWhile (b : Boundary) (hfirst : b.text.head? = some (chr ' ')) :
    Misses (str "--" ++ b.text.dropWhile isTrimmedByte) b.delimiter := by
  have hbytes : ∀ {c : UInt8}, isBoundaryByte c = false → chr '-' ≠ c →
      c ∉ str "--" ++ b.text.dropWhile isTrimmedByte := by
    intro c hc hdash hmem
    rcases List.mem_append.mp hmem with hdashes | hmem
    · have htwo : c = chr '-' ∨ c = chr '-' := by simpa [str] using hdashes
      exact hdash (htwo.elim Eq.symm Eq.symm)
    · exact boundary_notMem b hc ((List.dropWhile_sublist _).subset hmem)
  have hwhole : chr '"' ∉ b.delimiter := by
    rw [Boundary.delimiter, List.mem_append, not_or]
    exact ⟨by decide, boundary_notMem b (by decide)⟩
  refine ⟨⟨hbytes (by decide) (by decide), hbytes (by decide) (by decide), by simp [str]⟩,
    hbytes (by decide) (by decide), hwhole, ?_, ?_⟩
  · have hspace : ∀ c : UInt8, isBoundaryByte c = true → isTrimmedByte c = true → c = chr ' ' :=
      forall_byte (by decide)
    obtain ⟨u, hu⟩ := List.head?_eq_some_iff.mp hfirst
    rw [Boundary.delimiter]
    nth_rewrite 2 [← List.takeWhile_append_dropWhile (p := isTrimmedByte) (l := b.text)]
    apply findSub_dashes
    · intro c hc
      exact hspace c (b.bytes c ((List.takeWhile_sublist _).subset hc)) (List.mem_takeWhile_imp hc)
    · rw [hu, List.takeWhile_cons_of_pos (by decide)]
      exact List.cons_ne_nil _ _
    · rintro c hc rfl
      have hno := List.head?_dropWhile_not isTrimmedByte b.text
      rw [Option.mem_def.mp hc] at hno
      exact absurd hno (by decide)
    · exact (@trimmed_boundary b [] (List.forall_mem_nil _)).2
  · rw [Boundary.delimiter, List.length_append, List.length_append]
    exact Nat.add_le_add_left (List.dropWhile_sublist _).length_le _

theorem length_lt_encodeForm (hne : delim ≠ []) (parts : List FormPart) :
    parts.length < (encodeForm delim parts).length := by
  have hpos := List.length_pos_iff.mpr hne
  induction parts with
  | nil =>
      rw [encodeForm, List.flatMap_nil, List.nil_append, List.length_append]
      exact Nat.add_pos_left hpos _
  | cons p parts ih =>
      have hpart : 0 < (p.encode delim).length := by
        rw [FormPart.encode, List.length_append]
        exact Nat.add_pos_left hpos _
      rw [encodeForm_cons, List.length_append, List.length_cons]
      omega

/-- A form without parts has nothing in it; another one is recovered if and only if its boundary does
not begin with a blank and each part stands where it is searched for. -/
theorem parseMultipart_eq_sentForm_iff {b : Boundary} {ct : Bytes} (hct : Names b ct)
    (h : ValidForm b.delimiter parts) :
    parseMultipart (encodeForm b.delimiter parts) ct = sentForm parts ↔
      parts = [] ∨ b.text.head? ≠ some (chr ' ') ∧ ∀ p ∈ parts, PartStands b.delimiter p := by
  have hd := delimits_delimiter b
  have hfuel := length_lt_encodeForm hd.ne_nil parts
  by_cases hfirst : b.text.head? = some (chr ' ')
  · have hm := misses_dropWhile b hfirst
    have hne : b.text.dropWhile isTrimmedByte ≠ [] := (@trimmed_boundary b [] (List.forall_mem_nil _)).2
    rw [parseMultipart, multipartBoundary_of_names hct, if_neg hne]
    refine ⟨fun heq => .inl ?_, ?_⟩
    · by_contra hparts
      exact not_recovered hm hd h hparts _ heq
    · rintro (rfl | ⟨hno, -⟩)
      · exact multipartParts_of_places (places_closing hd) _ _
      · exact absurd hfirst hno
  · rw [parseMultipart_of_names hct hfirst, recovered_iff hd h hfuel]
    refine ⟨fun hstands => .inr ⟨hfirst, hstands⟩, ?_⟩
    rintro (rfl | ⟨-, hstands⟩)
    · exact List.forall_mem_nil _
    · exact hstands

end

def examBoundary : Boundary := ⟨str "eX", by decide, by decide, by decide⟩

def examFile : FormPart :=
  ⟨str "pdf_file", str "%PDF-1.7\n%%EOF", some ⟨str "a.pdf", str "application/pdf", false⟩⟩

def examForm : List FormPart := [⟨str "duration", str "60", none⟩, examFile]

theorem names_exam : Names examBoundary (str "multipart/form-data; boundary=\"eX\"; charset=utf-8") :=
  .quoted ⟨[], str "; charset=utf-8", rfl, List.forall_mem_nil _, .inr rfl⟩

theorem validForm_exam : ValidForm examBoundary.delimiter examForm := by
  have htype : HeaderValue (str "application/pdf") :=
    ⟨by decide, by decide, ⟨chr 'a', rfl, by decide⟩, ⟨chr 'f', rfl, by decide⟩⟩
  have hfield : ValidPart examBoundary.delimiter ⟨str "duration", str "60", none⟩ :=
    ⟨by decide, nofun, nofun, by decide⟩
  have hfile : ValidPart examBoundary.delimiter examFile := by
    refine ⟨by decide, ?_, ?_, by decide⟩ <;> rintro f ⟨⟩
    · decide
    · exact htype
  refine ⟨?_, by decide, by decide⟩
  rw [examForm, List.forall_mem_cons, List.forall_mem_singleton]
  exact ⟨hfield, hfile⟩

theorem parseMultipart_exam :
    parseMultipart (encodeForm examBoundary.delimiter examForm)
      (str "multipart/form-data; boundary=\"eX\"; charset=utf-8") = sentForm examForm := by
  refine (parseMultipart_eq_sentForm_iff names_exam validForm_exam).mpr (.inr ⟨by decide, ?_⟩)
  have hfield : PartStands examBoundary.delimiter ⟨str "duration", str "60", none⟩ :=
    ⟨by decide, fun _ => by decide, nofun⟩
  have hfile : PartStands examBoundary.delimiter examFile := by
    refine ⟨by decide, nofun, ?_⟩
    rintro f ⟨⟩
    refine ⟨by decide, nofun, fun t ht => ?_⟩
    have hno : findSub (str "Content-Type:") examFile.disposition = none := by decide
    rw [hno] at ht
    cases ht
  rw [examForm, List.forall_mem_cons, List.forall_mem_singleton]
  exact ⟨hfield, hfile⟩

/-- Data with the delimiter within a line are cut there. -/
theorem not_parseMultipart_eq_sentForm :
    ¬ ∀ (b : Boundary) (ct : Bytes) (parts : List FormPart), Names b ct → ValidForm b.delimiter parts →
      parseMultipart (encodeForm b.delimiter parts) ct = sentForm parts := by
  intro hall
  have hvalid : ValidForm examBoundary.delimiter [⟨str "text", str "a --eX b", none⟩] := by
    refine ⟨?_, by decide, by decide⟩
    rw [List.forall_mem_singleton]
    exact ⟨by decide, nofun, nofun, by decide⟩
  have heq := hall _ _ _ names_exam hvalid
  have hfield := congrArg (fun form => form.fields.find? (str "text")) heq
  revert hfield
  decide +kernel

end ExamVan.Admin
