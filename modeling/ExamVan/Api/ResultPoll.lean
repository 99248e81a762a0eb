import ExamVan.Api.Result

/-!
# A student's own result

The worker takes the fingerprint of the identity as it was submitted, the poll that of the identity
it has cleaned and written anew. Both are the same exactly if cleaning and escaping leave every name
and value alone.
-/

namespace ExamVan.Api

open ByteString Queue Models Db Http

/-! ### Reading a literal without its backslashes -/

/-- What `json_string_field` takes of an escaped byte. -/
def looseByte (c : UInt8) : Bytes := if escapeByte c = [c] then [c] else (escapeByte c).tail

/-- What `json_string_field` reads of an escaped text. -/
def loosen (s : Bytes) : Bytes := s.flatMap looseByte

section

variable {name s t : Bytes}

theorem readQuoted_cons {c : UInt8} (hback : c ≠ chr '\\') (hquote : c ≠ chr '"') (t : Bytes) :
    readQuoted (c :: t) = (readQuoted t).map (c :: ·) := by
  rw [readQuoted.eq_def]
  simp [hback, hquote]

theorem readQuoted_backslash (d : UInt8) (t : Bytes) :
    readQuoted (chr '\\' :: d :: t) = (readQuoted t).map (d :: ·) := by
  rw [readQuoted.eq_def]
  simp

theorem readQuoted_plain_append {w : Bytes} (hquote : chr '"' ∉ w) (hback : chr '\\' ∉ w)
    (t : Bytes) : readQuoted (w ++ t) = (readQuoted t).map (w ++ ·) := by
  induction w with
  | nil => simp
  | cons c w ih =>
      rw [List.mem_cons, not_or] at hquote hback
      rw [List.cons_append, readQuoted_cons (Ne.symm hback.1) (Ne.symm hquote.1),
        ih hquote.2 hback.2, Option.map_map]
      rfl

theorem readQuoted_escapeByte (c : UInt8) (t : Bytes) :
    readQuoted (escapeByte c ++ t) = (readQuoted t).map (looseByte c ++ ·) := by
  unfold looseByte
  rcases escapeByte_cases c with ⟨hself, hquote, hback⟩ | ⟨d, w, hesc, hquote, hback, -⟩
  · rw [hself, if_pos rfl]
    exact readQuoted_cons hback hquote t
  · rw [hesc, if_neg (by simp), List.tail_cons, List.cons_append, List.cons_append,
      readQuoted_backslash, readQuoted_plain_append hquote hback, Option.map_map]
    rfl

theorem readQuoted_jsonEscape (s t : Bytes) :
    readQuoted (jsonEscape s ++ chr '"' :: t) = some (loosen s) := by
  induction s with
  | nil =>
      rw [jsonEscape, List.flatMap_nil, List.nil_append, readQuoted.eq_def]
      simp [show chr '"' ≠ chr '\\' by decide, loosen]
  | cons c s ih =>
      rw [jsonEscape_cons, List.append_assoc, readQuoted_escapeByte, ih]
      simp [loosen]

/-- A string behind the found name and the next colon is read to its end. -/
theorem jsonStringField_of_findSub {raw w : Bytes} (hw : ∀ c ∈ w, decide (c = chr ':') = false)
    (h : findSub (needle name) raw = some (needle name ++ (w ++ chr ':' :: (quoted s ++ t)))) :
    jsonStringField raw name = loosen s := by
  have hvalue : (quoted s ++ t).dropWhile isBlank = chr '"' :: (jsonEscape s ++ chr '"' :: t) := by
    rw [quoted_append]
    exact List.dropWhile_cons_of_neg (by decide)
  unfold jsonStringField
  simp only [h, List.drop_left]
  rw [findByte_append hw, findByte_cons_pos (by decide)]
  simp only [List.tail_cons, hvalue, if_true, readQuoted_jsonEscape, Option.getD_some]

theorem loosen_of_unescaped (h : Unescaped s) : loosen s = s := by
  induction s with
  | nil => rfl
  | cons c s ih =>
      obtain ⟨hc, hs⟩ := List.forall_mem_cons.mp h
      have hbyte : looseByte c = [c] := if_pos (escapeByte_eq_self_iff.mpr hc)
      rw [loosen, List.flatMap_cons, hbyte, ← loosen, ih hs]
      rfl

/-! ### Hexadecimal texts -/

def Hexadecimal (s : Bytes) : Prop := ∀ c ∈ s, ∃ n < 16, c = hexDigit n

theorem hexDigit_spec : ∀ n < 16, (hexDigit n ≠ chr '"' ∧ hexDigit n ≠ chr '\\' ∧ 0x20 ≤ hexDigit n) ∧
    hexDigit n ≠ chr '_' ∧ hexDigit n ≠ chr '\x7b' := by decide

theorem Hexadecimal.unescaped (h : Hexadecimal s) : Unescaped s := by
  intro c hc
  obtain ⟨n, hn, rfl⟩ := h c hc
  exact (hexDigit_spec n hn).1

/-- No member's name with an underscore is hexadecimal. -/
theorem Hexadecimal.not_hits (h : Hexadecimal s) (hname : chr '_' ∈ name) : ¬ Hits name s := by
  have hquote : chr '"' ∉ s := fun hmem => (h.unescaped _ hmem).1 rfl
  rw [hits_iff_of_quote_notMem hquote]
  rintro rfl
  obtain ⟨n, hn, heq⟩ := h _ hname
  exact (hexDigit_spec n hn).2.1 heq.symm

theorem hexadecimal_generateJobId (random : List UInt8) : Hexadecimal (generateJobId random) := by
  intro c hc
  obtain ⟨b, -, hb⟩ := List.mem_flatMap.mp hc
  have hlt := b.toNat_lt
  rcases List.mem_pair.mp hb with rfl | rfl
  · exact ⟨b.toNat / 16, by omega, rfl⟩
  · exact ⟨b.toNat % 16, by omega, rfl⟩

theorem hexadecimal_identityFingerprint (hash : Bytes → UInt64) (m : StringMap) :
    Hexadecimal (identityFingerprint hash m) := by
  intro c hc
  obtain ⟨i, -, rfl⟩ := List.mem_map.mp hc
  exact ⟨_, Nat.mod_lt _ (by decide), rfl⟩

/-! ### Searching a stored result -/

/-- A stored result from its flag on. -/
def JobResult.flagged (r : JobResult) : Bytes :=
  member (str "success") (boolText r.success) ++ (membersText false r.remarks ++
    chr ',' :: (member (str "score") (scoreText r.score) ++ [chr '\x7d']))

theorem plainName_members (r : JobResult) : ∀ m ∈ r.members, PlainName m.1 := by
  simp only [JobResult.members, List.forall_mem_cons, List.not_mem_nil, false_implies,
    implies_true, and_true]
  decide

theorem toJson_members (r : JobResult) :
    r.toJson = chr '\x7b' :: (membersText true r.members ++ chr ',' :: r.flagged) := rfl

/-- A member is read as it is escaped, or one behind it if a string before it ends like its name. -/
theorem jsonStringField_toJson {r : JobResult} (hname : PlainName name)
    (hread : readAt name r.members = some (.text s)) : jsonStringField r.toJson name = loosen s := by
  obtain ⟨w, after, htail, hw⟩ := tailAt_of_readAt (plainName_members r) hread (chr ',' :: r.flagged)
  have hfind := findSub_membersText hname (plainName_members r) true (closes_comma r.flagged)
  rw [htail] at hfind
  refine jsonStringField_of_findSub hw (t := membersText false after ++ chr ',' :: r.flagged) ?_
  rw [toJson_members, needle, findSub_cons_of_ne (by decide), ← needle]
  exact hfind

section

variable {r : JobResult} {m : StringMap}

theorem read_jobId (hid : Hexadecimal r.jobId) : jsonStringField r.toJson (str "job_id") = r.jobId :=
  (jsonStringField_toJson (by decide) rfl).trans (loosen_of_unescaped hid.unescaped)

/-- The id and the exam of a stored result are not taken for other members. -/
theorem not_hits_ids (hid : Hexadecimal r.jobId) (hname : chr '_' ∈ name)
    (hjob : str "job_id" ≠ name) (hexam : str "exam_id" ≠ name) :
    ∀ m ∈ [(str "job_id", Scalar.text r.jobId), (str "exam_id", Scalar.number r.examId)],
      m.1 ≠ name ∧ ¬ m.2.Hits name := by
  refine List.forall_mem_cons.mpr ⟨⟨hjob, hid.not_hits hname⟩, ?_⟩
  exact List.forall_mem_cons.mpr ⟨⟨hexam, not_false⟩, fun m hm => absurd hm List.not_mem_nil⟩

theorem read_macAddress (hid : Hexadecimal r.jobId) :
    jsonStringField r.toJson (str "mac_address") = loosen r.macAddress := by
  refine jsonStringField_toJson (by decide) ?_
  refine (readAt_append (not_hits_ids hid (by decide) (by decide) (by decide))).trans ?_
  exact if_pos rfl

/-- The text of a map ends in a brace. -/
theorem not_hits_mapToJson (hname : PlainName name) (m : StringMap) : ¬ Hits name (mapToJson m) := by
  intro h
  have hne : mapToJson m ≠ [] := List.cons_ne_nil _ _
  have hlast : name.getLast hname.1 = chr '\x7d' := by
    have hboth := h.getLast (List.cons_ne_nil _ _)
    rw [List.getLast_cons hname.1, List.getLast_cons hne] at hboth
    rw [hboth]
    simp only [mapToJson, ← List.cons_append, List.getLast_append_singleton]
  have hbyte := hname.2 _ (List.getLast_mem hname.1)
  rw [hlast] at hbyte
  exact absurd hbyte (by decide)

/-- The fingerprint is found, unless the device address ends like the name of its member. -/
theorem read_identityHash (hid : Hexadecimal r.jobId) (hdata : r.identityData = mapToJson m)
    (hhash : Hexadecimal r.identityHash) :
    jsonStringField r.toJson (str "identity_hash") =
      if Hits (str "identity_hash") r.macAddress then loosen r.identityData else r.identityHash := by
  have hmap : ¬ Hits (str "identity_hash") r.identityData :=
    hdata ▸ not_hits_mapToJson (by decide) m
  have hread : readAt (str "identity_hash") r.members = some (.text
      (if Hits (str "identity_hash") r.macAddress then r.identityData else r.identityHash)) := by
    refine (readAt_append (not_hits_ids hid (by decide) (by decide) (by decide))).trans ?_
    have hmacName : str "mac_address" ≠ str "identity_hash" := by decide
    have hdataName : str "identity_data" ≠ str "identity_hash" := by decide
    refine (if_neg hmacName).trans ?_
    by_cases hmac : Hits (str "identity_hash") r.macAddress
    · rw [if_pos hmac]
      exact if_pos hmac
    · rw [if_neg hmac]
      exact (if_neg hmac).trans ((if_neg hdataName).trans ((if_neg hmap).trans (if_pos rfl)))
  rw [jsonStringField_toJson (by decide) hread]
  split
  · rfl
  · exact loosen_of_unescaped hhash.unescaped

/-! ### The exam of a stored result -/

theorem rawValueFrom_skip {key : Bytes} {c : UInt8} (hc : c ≠ chr '"') (t : Bytes) :
    rawValueFrom key false false (c :: t) = rawValueFrom key false false t := by
  have hnot : afterMember key (c :: t) = none := by
    refine if_neg fun hprefix => hc ?_
    rw [needle, List.cons_prefix_cons] at hprefix
    exact hprefix.1.symm
  rw [rawValueFrom.eq_def]
  simp [hnot, hc]

theorem rawValueFrom_inside_append {key w : Bytes} (hquote : chr '"' ∉ w) (hback : chr '\\' ∉ w)
    (t : Bytes) : rawValueFrom key true false (w ++ t) = rawValueFrom key true false t := by
  induction w with
  | nil => rfl
  | cons c w ih =>
      rw [List.mem_cons, not_or] at hquote hback
      rw [List.cons_append, rawValueFrom.eq_def]
      simp [Ne.symm hback.1, Ne.symm hquote.1, ih hquote.2 hback.2]

theorem rawValueFrom_inside (key s t : Bytes) :
    rawValueFrom key true false (jsonEscape s ++ chr '"' :: t) = rawValueFrom key false false t := by
  have hescape : ∀ d u, rawValueFrom key true false (chr '\\' :: d :: u) =
      rawValueFrom key true false u := by
    intro d u
    rw [rawValueFrom.eq_def]
    simp only [Bool.not_true, Bool.false_and, Bool.false_eq_true, if_false, true_and, if_true]
    rw [rawValueFrom.eq_def]
    simp
  induction s with
  | nil =>
      rw [jsonEscape, List.flatMap_nil, List.nil_append, rawValueFrom.eq_def]
      simp [show chr '"' ≠ chr '\\' by decide]
  | cons c s ih =>
      rw [jsonEscape_cons, List.append_assoc]
      rcases escapeByte_cases c with ⟨hself, hquote, hback⟩ | ⟨d, w, hesc, hquote, hback, -⟩
      · rw [hself, rawValueFrom_inside_append (by simpa using Ne.symm hquote)
          (by simpa using Ne.symm hback), ih]
      · rw [hesc, List.cons_append, List.cons_append, hescape,
          rawValueFrom_inside_append hquote hback, ih]

/-- A string is passed over, unless it is the name. -/
theorem rawValueFrom_quoted {key : Bytes} (hkey : PlainName key) (hs : s ≠ key) (t : Bytes) :
    rawValueFrom key false false (quoted s ++ t) = rawValueFrom key false false t := by
  have hnot : afterMember key (chr '"' :: (jsonEscape s ++ chr '"' :: t)) = none :=
    if_neg fun hprefix => hs ((needle_prefix_iff hkey.2 s t).mp hprefix)
  rw [quoted_append, rawValueFrom.eq_def]
  simp [hnot, show chr '"' ≠ chr '\\' by decide, rawValueFrom_inside]

theorem rawValueFrom_own (key v : Bytes) :
    rawValueFrom key false false (needle key ++ chr ':' :: v) = rawValueAt (v.dropWhile isBlank) := by
  have hown : afterMember key (needle key ++ chr ':' :: v) = some (v.dropWhile isBlank) := by
    have hcolon : (chr ':' :: v).dropWhile isBlank = chr ':' :: v :=
      List.dropWhile_cons_of_neg (by decide)
    unfold afterMember
    rw [if_pos (List.prefix_append _ _), List.drop_left, hcolon]
    simp
  have hcons : needle key ++ chr ':' :: v = chr '"' :: (key ++ [chr '"'] ++ chr ':' :: v) := rfl
  rw [hcons] at hown ⊢
  rw [rawValueFrom.eq_def]
  simp only [hown, Bool.not_false, Bool.true_and, if_true]

theorem rawValueAt_intText (n : Int) (t : Bytes) :
    rawValueAt ((intText n ++ chr ',' :: t).dropWhile isBlank) = intText n := by
  obtain ⟨c, u, hcu⟩ := List.exists_cons_of_ne_nil (intText_ne_nil n)
  have hmem : c ∈ intText n := hcu ▸ List.mem_cons_self
  obtain ⟨hquote, -, -, -, -, -, hbrace⟩ := ne_of_mem_intText hmem
  have hblank : ∀ b ∈ intText n, isBlank b = false ∧ b ≠ chr '[' ∧ b ≠ chr ']' := by
    intro b hb
    rcases mem_intText hb with rfl | hdigit
    · decide
    · have hne : ∀ d, isDigit d = false → b ≠ d := by
        rintro d hd rfl
        exact absurd hdigit (by simp [hd])
      refine ⟨?_, hne _ (by decide), hne _ (by decide)⟩
      simp [isBlank, hne (chr ' ') (by decide), hne (chr '\t') (by decide),
        hne (chr '\n') (by decide), hne (chr '\r') (by decide)]
  have hdrop : (intText n ++ chr ',' :: t).dropWhile isBlank = c :: (u ++ chr ',' :: t) := by
    rw [hcu, List.cons_append, List.dropWhile_cons_of_neg (by simp [(hblank c hmem).1])]
  rw [hdrop, rawValueAt, if_neg hquote, if_neg hbrace, if_neg (hblank c hmem).2.1, ← List.cons_append,
    ← hcu, List.takeWhile_append_of_pos, List.takeWhile_cons_of_neg (by decide), List.append_nil]
  intro b hb
  obtain ⟨-, -, -, hcomma, hclose, -⟩ := ne_of_mem_intText hb
  simp [hcomma, hclose, (hblank b hb).2.2]

theorem read_examId (hid : Hexadecimal r.jobId) :
    stoiOrZero (jsonRawValue r.toJson (str "exam_id")) = r.examId := by
  have hjob : r.jobId ≠ str "exam_id" := by
    have hnot : ¬ Hits (str "exam_id") r.jobId := hid.not_hits (by decide)
    exact fun h => hnot (h ▸ List.suffix_rfl)
  have hname : needle (str "job_id") = quoted (str "job_id") := by decide
  have hexam : jsonRawValue r.toJson (str "exam_id") = intText r.examId.toInt := by
    rw [toJson_members, JobResult.members, jsonRawValue, rawValueFrom_skip (by decide), membersText,
      membersText, hname]
    simp only [separator, if_true, List.nil_append, List.append_assoc, List.cons_append, Scalar.encode]
    rw [rawValueFrom_quoted (by decide) (by decide), rawValueFrom_skip (by decide),
      rawValueFrom_quoted (by decide) hjob, membersText]
    simp only [separator, Bool.false_eq_true, if_false, List.append_assoc, List.cons_append,
      List.nil_append, Scalar.encode]
    rw [rawValueFrom_skip (by decide), rawValueFrom_own]
    exact rawValueAt_intText _ _
  rw [hexam, stoiOrZero, stoi_intText]
  rfl

/-! ### The outcome of a stored result -/

theorem storedSuccess_toJson (h : r.success = true) : storedSuccess r.toJson = true := by
  have hfound : (findSub (str "\"success\":true") r.toJson).isSome = true := by
    have hmember : member (str "success") (boolText true) = str "\"success\":true" := by decide
    have hsplit : r.toJson = (chr '\x7b' :: (membersText true r.members ++ [chr ','])) ++
        (str "\"success\":true" ++ (membersText false r.remarks ++
          chr ',' :: (member (str "score") (scoreText r.score) ++ [chr '\x7d']))) := by
      rw [toJson_members, JobResult.flagged, h, hmember]
      simp only [List.cons_append, List.append_assoc, List.nil_append]
    rw [hsplit]
    exact isSome_findSub_append _ _ _
  rw [storedSuccess, hfound, Bool.true_or]

/-- A quoted name with its colon. -/
def field (name : Bytes) : Bytes := needle name ++ [chr ':']

/-- Inside a string that a comma follows there is no such field, whatever the string holds. -/
theorem not_opens_field (hname : PlainName name) (s t : Bytes) :
    ¬ field name <+: chr '"' :: (jsonEscape s ++ chr '"' :: chr ',' :: t) := by
  intro h
  have hs : s = name := (needle_prefix_iff hname.2 s _).mp ((List.prefix_append _ _).trans h)
  have hwhole : chr '"' :: (jsonEscape s ++ chr '"' :: chr ',' :: t) =
      needle name ++ chr ',' :: t := by
    rw [hs, jsonEscape_of_name hname.2]
    simp [needle]
  rw [hwhole, field, List.prefix_append_right_inj, List.cons_prefix_cons] at h
  exact absurd h.1 (by decide)

theorem findSub_field_skip {w : Bytes} (hw : chr '"' ∉ w) (t : Bytes) :
    findSub (field name) (w ++ t) = findSub (field name) t :=
  findSub_append_of_notMem hw

theorem findSub_field_closing {c : UInt8} (hname : PlainName name) (hc : isNameByte c = false) :
    findSub (field name) (chr '"' :: c :: t) = findSub (field name) (c :: t) := by
  refine if_neg fun h => ?_
  obtain ⟨d, name, rfl⟩ := List.exists_cons_of_ne_nil hname.1
  have hhead : d = c := by
    have := (List.cons_prefix_cons.mp h).2
    simpa using (List.cons_prefix_cons.mp this).1
  rw [← hhead, hname.2 d List.mem_cons_self] at hc
  cases hc

theorem findSub_field_inside (hname : PlainName name) (s t : Bytes) :
    findSub (field name) (jsonEscape s ++ chr '"' :: chr ',' :: t) =
      findSub (field name) (chr ',' :: t) := by
  induction s with
  | nil => exact findSub_field_closing hname (by decide)
  | cons c s ih =>
      rw [jsonEscape_cons, List.append_assoc]
      by_cases hc : c = chr '"'
      · subst hc
        rw [escapeByte_quote, List.cons_append, List.singleton_append, field, needle, List.cons_append,
          findSub_cons_of_ne (by decide), ← List.cons_append, ← needle, ← field, findSub,
          if_neg (not_opens_field hname s t), ih]
      · have hskip : chr '"' ∉ escapeByte c := by
          rcases escapeByte_cases c with ⟨hself, hquote, -⟩ | ⟨d, w, hesc, hquote, -, hd⟩
          · simpa [hself] using Ne.symm hquote
          · rw [hesc]
            simp [hquote, Ne.symm (hd hc), show chr '"' ≠ chr '\\' by decide]
        rw [findSub_field_skip hskip, ih]

theorem findSub_field_encode (hname : PlainName name) (v : Scalar) (t : Bytes) :
    findSub (field name) (v.encode ++ chr ',' :: t) = findSub (field name) (chr ',' :: t) := by
  cases v with
  | text s =>
      rw [Scalar.encode, quoted_append, findSub, if_neg (not_opens_field hname s t)]
      exact findSub_field_inside hname s t
  | number n => exact findSub_field_skip (fun h => (ne_of_mem_intText h).1 rfl) _

/-- Another member's name is no such field. -/
theorem findSub_field_needle (hname : PlainName name) {other : Bytes} (hother : PlainName other)
    (hne : other ≠ name) (t : Bytes) :
    findSub (field name) (needle other ++ chr ':' :: t) = findSub (field name) t := by
  have hnot : ¬ field name <+: chr '"' :: (jsonEscape other ++ chr '"' :: chr ':' :: t) := fun h =>
    hne ((needle_prefix_iff hname.2 other _).mp ((List.prefix_append _ _).trans h))
  have hcolon : chr '"' ∉ [chr ':'] := by decide
  rw [← quoted_of_name hother.2, quoted_append, findSub, if_neg hnot, jsonEscape_of_name hother.2,
    findSub_field_skip (quote_notMem_of_name hother.2), findSub_field_closing hname (by decide)]
  exact findSub_field_skip hcolon t

theorem membersText_append_head (ms : List Member) (r : Bytes) :
    ∃ t, membersText false ms ++ chr ',' :: r = chr ',' :: t := by
  cases ms with
  | nil => exact ⟨r, rfl⟩
  | cons m ms => exact ⟨_, rfl⟩

theorem findSub_field_membersText (hname : PlainName name) {ms : List Member}
    (hms : ∀ m ∈ ms, PlainName m.1 ∧ m.1 ≠ name) (first : Bool) (t : Bytes) :
    findSub (field name) (membersText first ms ++ chr ',' :: t) =
      findSub (field name) (chr ',' :: t) := by
  induction ms generalizing first with
  | nil => rfl
  | cons m ms ih =>
      obtain ⟨⟨hplain, hne⟩, hms⟩ := List.forall_mem_cons.mp hms
      obtain ⟨u, hu⟩ := membersText_append_head ms t
      rw [membersText, List.append_assoc, findSub_field_skip (separator_notMem first)]
      simp only [List.append_assoc, List.cons_append]
      rw [findSub_field_needle hname hplain hne, hu, findSub_field_encode hname, ← hu, ih hms]

/-- The score of a stored result is found, whatever its strings hold. -/
theorem findSub_score (r : JobResult) :
    findSub (field (str "score")) r.toJson =
      some (field (str "score") ++ (scoreText r.score ++ [chr '\x7d'])) := by
  have hname : PlainName (str "score") := by decide
  have hnames : ∀ m ∈ r.members ++ r.remarks, PlainName m.1 ∧ m.1 ≠ str "score" := by
    simp only [JobResult.members, JobResult.remarks, List.cons_append, List.nil_append,
      List.forall_mem_cons, List.not_mem_nil, false_implies, implies_true, and_true]
    decide
  obtain ⟨hmembers, hremarks⟩ := List.forall_mem_append.mp hnames
  have hopen : chr '"' ∉ [chr '\x7b'] := by decide
  have hcomma : chr '"' ∉ [chr ','] := by decide
  have hflag : chr '"' ∉ boolText r.success := by cases r.success <;> decide
  have hscore : member (str "score") (scoreText r.score) ++ [chr '\x7d'] =
      field (str "score") ++ (scoreText r.score ++ [chr '\x7d']) := by
    simp [member, field]
  calc findSub (field (str "score")) r.toJson
      = findSub (field (str "score")) (membersText true r.members ++ chr ',' :: r.flagged) :=
        findSub_field_skip hopen _
    _ = findSub (field (str "score")) (chr ',' :: r.flagged) :=
        findSub_field_membersText hname hmembers true _
    _ = findSub (field (str "score")) r.flagged := findSub_field_skip hcomma _
    _ = findSub (field (str "score")) (boolText r.success ++ (membersText false r.remarks ++
          chr ',' :: (member (str "score") (scoreText r.score) ++ [chr '\x7d']))) := by
        rw [JobResult.flagged, member, List.append_assoc]
        exact findSub_field_needle hname (by decide) (by decide) _
    _ = findSub (field (str "score")) (chr ',' :: (member (str "score") (scoreText r.score) ++
          [chr '\x7d'])) :=
        (findSub_field_skip hflag _).trans (findSub_field_membersText hname hremarks false _)
    _ = findSub (field (str "score")) (member (str "score") (scoreText r.score) ++ [chr '\x7d']) :=
        findSub_field_skip hcomma _
    _ = some (field (str "score") ++ (scoreText r.score ++ [chr '\x7d'])) := by
        rw [hscore]
        exact findSub_of_head (List.prefix_append _ _)

/-- A number as it is printed. -/
def IsNumeral (s : Bytes) : Prop :=
  s ≠ [] ∧ ∀ c ∈ s, isDigit c = true ∨ c = chr '-' ∨ c = chr '+' ∨ c = chr '.' ∨ c = chr 'e'

/-- The number after the blanks, unless it is a null. -/
def scoreAt : Bytes → Bytes
  | [] => []
  | c :: u =>
      if c = chr 'n' ∨ c = chr 'N' then []
      else (c :: u).takeWhile fun c => !(c = chr ',' || c = chr '\x7d')

theorem storedScore_toJson (h : ∀ n ∈ r.score, IsNumeral n) :
    (if storedScore r.toJson = [] then str "null" else storedScore r.toJson) = scoreText r.score := by
  have hfield : str "\"score\":" = field (str "score") := by decide
  have hlength : (field (str "score")).length = 8 := by decide
  have hread : storedScore r.toJson =
      scoreAt ((scoreText r.score ++ [chr '\x7d']).dropWhile
        fun c => c = chr ' ' || c = chr '\t') := by
    have hdrop : (field (str "score") ++ (scoreText r.score ++ [chr '\x7d'])).drop 8 =
        scoreText r.score ++ [chr '\x7d'] := hlength ▸ List.drop_left
    unfold storedScore
    rw [hfield, findSub_score]
    dsimp only
    exact hdrop ▸ rfl
  rw [hread]
  cases hscore : r.score with
  | none => decide
  | some n =>
      obtain ⟨hne, hbytes⟩ := h n hscore
      have hplain : ∀ c ∈ n, c ≠ chr ' ' ∧ c ≠ chr '\t' ∧ c ≠ chr 'n' ∧ c ≠ chr 'N' ∧ c ≠ chr ',' ∧
          c ≠ chr '\x7d' := by
        intro c hc
        rcases hbytes c hc with hdigit | rfl | rfl | rfl | rfl
        · refine ⟨?_, ?_, ?_, ?_, ?_, ?_⟩ <;> (rintro rfl; exact absurd hdigit (by decide))
        all_goals decide
      obtain ⟨c, u, rfl⟩ := List.exists_cons_of_ne_nil hne
      obtain ⟨hspace, htab, hlow, hup, -⟩ := hplain c List.mem_cons_self
      have htake : (c :: u ++ [chr '\x7d']).takeWhile (fun c => !(c = chr ',' || c = chr '\x7d')) =
          c :: u := by
        rw [List.takeWhile_append_of_pos, List.takeWhile_cons_of_neg (by decide), List.append_nil]
        intro b hb
        obtain ⟨-, -, -, -, hcomma, hclose⟩ := hplain b hb
        simp [hcomma, hclose]
      have hdrop : (scoreText (some (c :: u)) ++ [chr '\x7d']).dropWhile
          (fun c => c = chr ' ' || c = chr '\t') = c :: (u ++ [chr '\x7d']) :=
        List.dropWhile_cons_of_neg (by simp [hspace, htab])
      have hfound : scoreAt (c :: (u ++ [chr '\x7d'])) = c :: u :=
        (if_neg (by simp [hlow, hup])).trans htake
      rw [hdrop, hfound, if_neg (List.cons_ne_nil c u)]
      rfl

end

end

end ExamVan.Api
