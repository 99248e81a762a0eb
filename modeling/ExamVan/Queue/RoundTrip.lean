import ExamVan.Queue.Codec

/-!
# Where the decoder reads

`from_json` finds a member by the first occurrence of its quoted name. In an encoded job that is the
member itself, unless a string written before it is that name, or ends in a quote and that name:
escaped, such a string still ends in the quoted name. From there the decoder goes on to the next
colon, which belongs to the member after the string. `readAt` says which value it then reads, and
`ReadsBack` when that is the right one for every field.
-/

namespace ExamVan.Queue

open ByteString

/-! ### The encoded job as a list of members -/

inductive Scalar where
  | text (s : Bytes)
  | number (n : Int32)

namespace Scalar

def encode : Scalar → Bytes
  | text s => quoted s
  | number n => intText n.toInt

/-- What `extract` returns for the value. -/
def read : Scalar → Bytes
  | text s => s
  | number n => intText n.toInt

end Scalar

abbrev Member := Bytes × Scalar

/-- The members of an encoded job before its two maps. -/
def scalars (j : SubmissionJob) : List Member :=
  [(str "job_id", .text j.jobId), (str "exam_id", .number j.examId),
    (str "student_name", .text j.studentName), (str "exam_number", .text j.examNumber),
    (str "student_class", .text j.studentClass), (str "mac_address", .text j.macAddress),
    (str "start_time", .text j.startTime), (str "retries", .number j.retries),
    (str "enqueued_at", .text j.enqueuedAt)]

def membersText (first : Bool) : List Member → Bytes
  | [] => []
  | m :: ms => separator first ++ (needle m.1 ++ chr ':' :: (m.2.encode ++ membersText false ms))

/-- The encoded job from the second map on, its opening brace included. -/
def identityText (j : SubmissionJob) : Bytes :=
  chr ',' :: (needle (str "identity_data") ++ chr ':' :: (mapToJson j.identityData ++ [chr '}']))

/-- The encoded job after its scalar members. -/
def mapsText (j : SubmissionJob) : Bytes :=
  chr ',' :: (needle (str "answers") ++ chr ':' :: (mapToJson j.answers ++ identityText j))

theorem toJson_eq (j : SubmissionJob) :
    toJson j = chr '{' :: (membersText true (scalars j) ++ mapsText j) := by
  simp only [toJson, member, scalars, membersText, mapsText, identityText, separator, Scalar.encode,
    Bool.false_eq_true, if_false, if_true, List.append_assoc, List.cons_append, List.nil_append]

/-! ### Occurrences of a quoted name -/

/-- The bytes of member names. -/
def isNameByte (c : UInt8) : Bool := (chr 'a' ≤ c && c ≤ chr 'z') || c = chr '_'

def PlainName (name : Bytes) : Prop := name ≠ [] ∧ ∀ c ∈ name, isNameByte c = true

instance (name : Bytes) : Decidable (PlainName name) := inferInstanceAs (Decidable (_ ∧ _))

/-- The literal of `s` contains the quoted name: `s` is the name, or ends in a quote and the name. -/
def Hits (name s : Bytes) : Prop := chr '"' :: name <:+ chr '"' :: s

instance (name s : Bytes) : Decidable (Hits name s) := inferInstanceAs (Decidable (_ <:+ _))

/-- A text that no member name starts. -/
def NoNameHead (t : Bytes) : Prop := ∀ c ∈ t.head?, isNameByte c = false

theorem noNameHead_cons {c : UInt8} {t : Bytes} (h : isNameByte c = false) : NoNameHead (c :: t) := by
  intro b hb
  rw [List.head?_cons, Option.mem_some_iff] at hb
  exact hb ▸ h

theorem quote_notMem_of_name {name : Bytes} (hname : ∀ c ∈ name, isNameByte c = true) :
    chr '"' ∉ name := fun h => absurd (hname _ h) (by decide)

theorem colon_notMem_needle {name : Bytes} (hname : ∀ c ∈ name, isNameByte c = true) :
    ∀ c ∈ needle name, decide (c = chr ':') = false := by
  intro c hc
  rw [decide_eq_false_iff_not]
  rintro rfl
  rcases List.mem_cons.mp hc with h | h
  · exact absurd h (by decide)
  · rcases List.mem_append.mp h with h | h
    · exact absurd (hname _ h) (by decide)
    · exact absurd (List.mem_singleton.mp h) (by decide)

theorem escapeByte_of_name {c : UInt8} (h : isNameByte c = true) : escapeByte c = [c] := by
  have hlow : ¬ c < 0x20 := by
    intro hlt
    rw [UInt8.lt_iff_toNat_lt] at hlt
    simp only [isNameByte, Bool.or_eq_true, Bool.and_eq_true, decide_eq_true_eq,
      UInt8.le_iff_toNat_le] at h
    rcases h with h | rfl
    · simp [chr] at h hlt
      omega
    · simp [chr] at hlt
  have hne : ∀ b, isNameByte b = false → c ≠ b := by
    rintro b hb rfl
    exact absurd h (by simp [hb])
  unfold escapeByte
  simp only [hne _ (by decide : isNameByte (chr '"') = false),
    hne _ (by decide : isNameByte (chr '\\') = false), hne _ (by decide : isNameByte 8 = false),
    hne _ (by decide : isNameByte 12 = false), hne _ (by decide : isNameByte 10 = false),
    hne _ (by decide : isNameByte 13 = false), hne _ (by decide : isNameByte 9 = false), hlow,
    if_false]

theorem jsonEscape_of_name {name : Bytes} (hname : ∀ c ∈ name, isNameByte c = true) :
    jsonEscape name = name := by
  induction name with
  | nil => rfl
  | cons c name ih =>
      rw [jsonEscape_cons, escapeByte_of_name (hname c List.mem_cons_self),
        ih fun b hb => hname b (List.mem_cons_of_mem c hb), List.singleton_append]

theorem quoted_of_name {name : Bytes} (hname : ∀ c ∈ name, isNameByte c = true) :
    quoted name = needle name := by
  rw [quoted, needle, jsonEscape_of_name hname]

/-- A name stands at the start of a literal exactly when the literal spells it. -/
theorem name_prefix_jsonEscape_iff {name : Bytes} (hname : ∀ c ∈ name, isNameByte c = true)
    (s t : Bytes) : name ++ [chr '"'] <+: jsonEscape s ++ chr '"' :: t ↔ s = name := by
  induction s generalizing name with
  | nil =>
      cases name with
      | nil => simp [jsonEscape]
      | cons c name =>
          have hc : c ≠ chr '"' := by
            rintro rfl
            exact absurd (hname _ List.mem_cons_self) (by decide)
          simp [jsonEscape, List.cons_prefix_cons, hc]
  | cons b s ih =>
      rw [jsonEscape_cons]
      rcases escapeByte_cases b with ⟨hself, hquote, -⟩ | ⟨d, w, hesc, -, -, -⟩
      · rw [hself]
        cases name with
        | nil => simp [List.cons_prefix_cons, Ne.symm hquote]
        | cons c name =>
            have htail := ih fun a ha => hname a (List.mem_cons_of_mem c ha)
            simp only [List.cons_append, List.nil_append, List.cons_prefix_cons, htail,
              List.cons.injEq]
            exact and_congr_left fun _ => eq_comm
      · rw [hesc]
        cases name with
        | nil => simp [List.cons_prefix_cons, show chr '"' ≠ chr '\\' by decide]
        | cons c name =>
            have hname' : isNameByte c = true := hname c List.mem_cons_self
            have hc : c ≠ chr '\\' := by
              rintro rfl
              exact absurd hname' (by decide)
            have hb : b ≠ c := by
              rintro rfl
              rw [escapeByte_of_name hname'] at hesc
              simp at hesc
            simp [List.cons_prefix_cons, hc, hb]

theorem needle_prefix_iff {name : Bytes} (hname : ∀ c ∈ name, isNameByte c = true) (s t : Bytes) :
    needle name <+: chr '"' :: (jsonEscape s ++ chr '"' :: t) ↔ s = name := by
  rw [needle, List.cons_prefix_cons, name_prefix_jsonEscape_iff hname]
  simp

theorem findSub_closing {name t : Bytes} (hname : PlainName name) (ht : NoNameHead t) :
    findSub (needle name) (chr '"' :: t) = findSub (needle name) t := by
  have hnot : ¬ needle name <+: chr '"' :: t := by
    obtain ⟨c, name, rfl⟩ := List.exists_cons_of_ne_nil hname.1
    intro hprefix
    rw [needle, List.cons_append, List.cons_prefix_cons] at hprefix
    cases t with
    | nil => simp at hprefix
    | cons b t =>
        rw [List.cons_prefix_cons] at hprefix
        have hb := ht b (by simp)
        rw [← hprefix.2.1, hname.2 c List.mem_cons_self] at hb
        exact absurd hb (by decide)
  simp [findSub, hnot]

/-- From inside a literal: the name is found at a quote of the literal's own that only the name
follows. -/
theorem findSub_inside {name t : Bytes} (hname : PlainName name) (ht : NoNameHead t) (s : Bytes) :
    findSub (needle name) (jsonEscape s ++ chr '"' :: t) =
      if chr '"' :: name <:+ s then some (needle name ++ t) else findSub (needle name) t := by
  induction s with
  | nil => simpa [jsonEscape] using findSub_closing hname ht
  | cons c s ih =>
      rw [jsonEscape_cons, List.append_assoc]
      by_cases hc : c = chr '"'
      · subst hc
        rw [escapeByte_quote, List.cons_append, List.singleton_append, needle,
          findSub_cons_of_ne (by decide), ← needle]
        by_cases hs : s = name
        · subst hs
          rw [findSub_of_head ((needle_prefix_iff hname.2 s t).mpr rfl),
            if_pos (List.suffix_cons_iff.mpr (Or.inl rfl)), jsonEscape_of_name hname.2]
          simp [needle]
        · have hne : chr '"' :: name ≠ chr '"' :: s := by simpa using Ne.symm hs
          have hnot := (needle_prefix_iff hname.2 s t).not.mpr hs
          rw [findSub, if_neg hnot, ih]
          simp only [List.suffix_cons_iff, hne, false_or]
      · have hskip : chr '"' ∉ escapeByte c := by
          rcases escapeByte_cases c with ⟨hself, hquote, -⟩ | ⟨d, w, hesc, hquote, -, hd⟩
          · simpa [hself] using Ne.symm hquote
          · rw [hesc]
            simp [hquote, Ne.symm (hd hc), show chr '"' ≠ chr '\\' by decide]
        have hne : chr '"' :: name ≠ c :: s := by simp [Ne.symm hc]
        rw [needle, findSub_append_of_notMem hskip, ← needle, ih]
        simp only [List.suffix_cons_iff, hne, false_or]

/-- Searching for a quoted name passes over a literal that it does not hit. -/
theorem findSub_quoted {name t : Bytes} (hname : PlainName name) (ht : NoNameHead t) (s : Bytes) :
    findSub (needle name) (quoted s ++ t) =
      if Hits name s then some (needle name ++ t) else findSub (needle name) t := by
  have hwhole := findSub_inside hname ht (chr '"' :: s)
  rw [jsonEscape_cons, escapeByte_quote, List.append_assoc, List.cons_append, List.cons_append,
    List.nil_append, needle, findSub_cons_of_ne (by decide), ← needle] at hwhole
  rw [quoted_append]
  exact hwhole

theorem hits_iff_of_quote_notMem {name s : Bytes} (hs : chr '"' ∉ s) : Hits name s ↔ s = name := by
  have hnot : ¬ chr '"' :: name <:+ s := fun h => hs (h.subset List.mem_cons_self)
  rw [Hits, List.suffix_cons_iff, or_iff_left hnot, List.cons.injEq, and_iff_right rfl, eq_comm]

theorem hits_of_plain_iff {name k : Bytes} (hk : PlainName k) : Hits name k ↔ k = name :=
  hits_iff_of_quote_notMem (quote_notMem_of_name hk.2)

/-! ### The first occurrence in an encoded job -/

def Scalar.Hits (name : Bytes) : Scalar → Prop
  | text s => Queue.Hits name s
  | number _ => False

instance (name : Bytes) (v : Scalar) : Decidable (v.Hits name) :=
  match v with
  | .text s => inferInstanceAs (Decidable (Hits name s))
  | .number _ => inferInstanceAs (Decidable False)

/-- The encoded text after the first occurrence of the quoted name among the members. -/
def tailAt (name rest : Bytes) : List Member → Option Bytes
  | [] => none
  | m :: ms =>
      if m.1 = name then some (chr ':' :: (m.2.encode ++ (membersText false ms ++ rest)))
      else if m.2.Hits name then some (membersText false ms ++ rest)
      else tailAt name rest ms

theorem separator_notMem (first : Bool) : chr '"' ∉ separator first := by
  cases first <;> decide

/-- What may follow a member. -/
def Closes (rest : Bytes) : Prop := ∃ c t, rest = c :: t ∧ (c = chr ',' ∨ c = chr '}')

theorem closes_comma (r : Bytes) : Closes (chr ',' :: r) := ⟨_, r, rfl, .inl rfl⟩

theorem closes_membersText (ms : List Member) {rest : Bytes} (h : Closes rest) :
    Closes (membersText false ms ++ rest) := by
  cases ms with
  | nil => exact h
  | cons m ms => exact closes_comma _

theorem Closes.noNameHead {rest : Bytes} (h : Closes rest) : NoNameHead rest := by
  obtain ⟨c, t, rfl, rfl | rfl⟩ := h <;> exact noNameHead_cons (by decide)

theorem findSub_encode {name t : Bytes} (hname : PlainName name) (ht : NoNameHead t) (v : Scalar) :
    findSub (needle name) (v.encode ++ t) =
      if v.Hits name then some (needle name ++ t) else findSub (needle name) t := by
  cases v with
  | text s => exact findSub_quoted hname ht s
  | number n =>
      have hskip : chr '"' ∉ intText n.toInt := fun h => (ne_of_mem_intText h).1 rfl
      rw [Scalar.encode, needle, findSub_append_of_notMem hskip, if_neg (by simp [Scalar.Hits])]

theorem findSub_membersText {name : Bytes} (hname : PlainName name) {ms : List Member}
    (hms : ∀ m ∈ ms, PlainName m.1) (first : Bool) {rest : Bytes} (hrest : Closes rest) :
    findSub (needle name) (membersText first ms ++ rest) =
      match tailAt name rest ms with
      | some t => some (needle name ++ t)
      | none => findSub (needle name) rest := by
  induction ms generalizing first with
  | nil => rfl
  | cons m ms ih =>
      have hm : PlainName m.1 := hms m List.mem_cons_self
      have hstep : findSub (needle name) (membersText first (m :: ms) ++ rest) =
          findSub (needle name) (quoted m.1 ++ chr ':' :: (m.2.encode ++
            (membersText false ms ++ rest))) := by
        rw [quoted_of_name hm.2, membersText, List.append_assoc, needle,
          findSub_append_of_notMem (separator_notMem first)]
        simp only [List.append_assoc, List.cons_append]
      rw [hstep, findSub_quoted hname (noNameHead_cons (by decide)), tailAt]
      by_cases hown : m.1 = name
      · rw [if_pos ((hits_of_plain_iff hm).mpr hown), if_pos hown]
      · rw [if_neg ((hits_of_plain_iff hm).not.mpr hown), if_neg hown, needle,
          findSub_cons_of_ne (by decide), ← needle,
          findSub_encode hname (closes_membersText ms hrest).noNameHead]
        by_cases hhit : m.2.Hits name
        · rw [if_pos hhit, if_pos hhit]
        · rw [if_neg hhit, if_neg hhit]
          exact ih (fun m' hm' => hms m' (List.mem_cons_of_mem m hm')) false

/-- The value that `extract` reads: the member's own, or that of the member after the first string
that hits the name. -/
def readAt (name : Bytes) : List Member → Option Scalar
  | [] => none
  | m :: ms =>
      if m.1 = name then some m.2
      else if m.2.Hits name then ms.head?.map Prod.snd
      else readAt name ms

/-- Members that neither have the name nor hit it are read past. -/
theorem readAt_append {name : Bytes} {before after : List Member}
    (h : ∀ m ∈ before, m.1 ≠ name ∧ ¬ m.2.Hits name) :
    readAt name (before ++ after) = readAt name after := by
  induction before with
  | nil => rfl
  | cons m ms ih =>
      obtain ⟨hname, hhit⟩ := h m List.mem_cons_self
      rw [List.cons_append, readAt, if_neg hname, if_neg hhit]
      exact ih fun m' hm' => h m' (List.mem_cons_of_mem m hm')

theorem scalarAt_encode (v : Scalar) (ms : List Member) {rest : Bytes} (hrest : Closes rest) :
    scalarAt (v.encode ++ (membersText false ms ++ rest)) = v.read := by
  cases v with
  | text s => exact scalarAt_quoted s _
  | number n =>
      obtain ⟨c, t, ht, hc⟩ := closes_membersText ms hrest
      rw [ht]
      exact scalarAt_intText n.toInt t hc

theorem scalarAfterColon_colon (t : Bytes) : scalarAfterColon (chr ':' :: t) = scalarAt t := by
  simp [scalarAfterColon, findByte]

theorem scalarAfterColon_skip {w : Bytes} (h : ∀ c ∈ w, decide (c = chr ':') = false) (t : Bytes) :
    scalarAfterColon (w ++ t) = scalarAfterColon t := by
  rw [scalarAfterColon, findByte_append h, scalarAfterColon]

/-- The search stops before the colon of the member that is read. -/
theorem tailAt_of_readAt {name : Bytes} {ms : List Member} {v : Scalar}
    (hms : ∀ m ∈ ms, PlainName m.1) (hread : readAt name ms = some v) (rest : Bytes) :
    ∃ w after, tailAt name rest ms =
        some (w ++ chr ':' :: (v.encode ++ (membersText false after ++ rest))) ∧
      ∀ c ∈ w, decide (c = chr ':') = false := by
  induction ms with
  | nil => simp [readAt] at hread
  | cons m ms ih =>
      rw [readAt] at hread
      rw [tailAt]
      by_cases hown : m.1 = name
      · rw [if_pos hown, Option.some.injEq] at hread
        refine ⟨[], ms, ?_, fun c hc => absurd hc List.not_mem_nil⟩
        rw [if_pos hown, hread, List.nil_append]
      · rw [if_neg hown] at hread
        rw [if_neg hown]
        by_cases hhit : m.2.Hits name
        · rw [if_pos hhit, Option.map_eq_some_iff] at hread
          obtain ⟨next, hnext, rfl⟩ := hread
          obtain ⟨after, rfl⟩ : ∃ after, ms = next :: after := by
            cases ms with
            | nil => simp at hnext
            | cons n after => exact ⟨after, by simpa using hnext⟩
          have hplain : PlainName next.1 := hms next (by simp)
          refine ⟨chr ',' :: needle next.1, after, ?_, ?_⟩
          · rw [if_pos hhit]
            simp [membersText, separator]
          · intro c hc
            rcases List.mem_cons.mp hc with rfl | hc
            · decide
            · exact colon_notMem_needle hplain.2 c hc
        · rw [if_neg hhit] at hread
          rw [if_neg hhit]
          exact ih (fun m' hm' => hms m' (List.mem_cons_of_mem m hm')) hread

theorem scalarAfterColon_tailAt {name : Bytes} {ms : List Member} {v : Scalar}
    (hms : ∀ m ∈ ms, PlainName m.1) (hread : readAt name ms = some v) {rest : Bytes}
    (hrest : Closes rest) : ∃ t, tailAt name rest ms = some t ∧ scalarAfterColon t = v.read := by
  obtain ⟨w, after, htail, hw⟩ := tailAt_of_readAt hms hread rest
  refine ⟨_, htail, ?_⟩
  rw [scalarAfterColon_skip hw, scalarAfterColon_colon, scalarAt_encode v after hrest]

theorem plainName_scalars (j : SubmissionJob) : ∀ m ∈ scalars j, PlainName m.1 := by
  have hnames : ∀ name ∈ (scalars j).map Prod.fst, PlainName name := by
    simp only [scalars, List.map_cons, List.map_nil]
    decide
  exact fun m hm => hnames m.1 (List.mem_map_of_mem hm)

/-- What `extract` returns on an encoded job. -/
theorem extract_toJson {j : SubmissionJob} {name : Bytes} {v : Scalar} (hname : PlainName name)
    (hread : readAt name (scalars j) = some v) : extract (toJson j) name = v.read := by
  have hrest : Closes (mapsText j) := closes_comma _
  obtain ⟨t, htail, hscalar⟩ := scalarAfterColon_tailAt (plainName_scalars j) hread hrest
  have hfind := findSub_membersText hname (plainName_scalars j) true hrest
  rw [htail] at hfind
  rw [extract, toJson_eq, needle, findSub_cons_of_ne (by decide), ← needle, hfind]
  exact (scalarAfterColon_skip (colon_notMem_needle hname.2) t).trans hscalar

theorem exists_readAt {name : Bytes} {ms : List Member} (h : name ∈ ms.map Prod.fst) :
    ∃ v, readAt name ms = some v := by
  induction ms with
  | nil => simp at h
  | cons m ms ih =>
      rw [readAt]
      by_cases hown : m.1 = name
      · exact ⟨m.2, if_pos hown⟩
      · have hlater : name ∈ ms.map Prod.fst :=
          (List.mem_cons.mp h).resolve_left (Ne.symm hown)
        rw [if_neg hown]
        by_cases hhit : m.2.Hits name
        · rw [if_pos hhit]
          cases ms with
          | nil => simp at hlater
          | cons next after => exact ⟨next.2, rfl⟩
        · rw [if_neg hhit]
          exact ih hlater

/-! ### A text with nothing but scalar members -/

def objectOf (ms : List Member) : Bytes := chr '{' :: (membersText true ms ++ [chr '}'])

/-- What `extract` returns on such a text: nothing, if there is no member to read. -/
def textAt (name : Bytes) (ms : List Member) : Bytes := ((readAt name ms).map Scalar.read).getD []

theorem tailAt_of_readAt_eq_none {name : Bytes} {ms : List Member} (h : readAt name ms = none)
    (rest : Bytes) : tailAt name rest ms = none ∨ tailAt name rest ms = some rest := by
  induction ms with
  | nil => exact .inl rfl
  | cons m ms ih =>
      rw [readAt] at h
      rw [tailAt]
      by_cases hown : m.1 = name
      · rw [if_pos hown] at h
        cases h
      · rw [if_neg hown] at h
        rw [if_neg hown]
        by_cases hhit : m.2.Hits name
        · rw [if_pos hhit, Option.map_eq_none_iff, List.head?_eq_none_iff] at h
          rw [if_pos hhit, h]
          exact .inr rfl
        · rw [if_neg hhit] at h
          rw [if_neg hhit]
          exact ih h

theorem extract_objectOf {name : Bytes} {ms : List Member} (hname : PlainName name)
    (hms : ∀ m ∈ ms, PlainName m.1) : extract (objectOf ms) name = textAt name ms := by
  have hrest : Closes [chr '}'] := ⟨_, [], rfl, .inr rfl⟩
  have hfind := findSub_membersText hname hms true hrest
  rw [extract, objectOf, needle, findSub_cons_of_ne (by decide), ← needle, hfind, textAt]
  cases hread : readAt name ms with
  | some v =>
      obtain ⟨t, htail, hscalar⟩ := scalarAfterColon_tailAt hms hread hrest
      rw [htail]
      exact (scalarAfterColon_skip (colon_notMem_needle hname.2) t).trans hscalar
  | none =>
      rcases tailAt_of_readAt_eq_none hread [chr '}'] with htail | htail
      · have hnone : findSub (needle name) [chr '}'] = none := by
          refine findSub_eq_none_of_length ?_
          simp [needle]
        rw [htail, hnone]
        rfl
      · rw [htail]
        exact scalarAfterColon_skip (colon_notMem_needle hname.2) [chr '}']

/-! ### The maps -/

/-- The encoded text after the first occurrence of the quoted name among the entries of a map. -/
def entriesTail (name rest : Bytes) : List (Bytes × Bytes) → Option Bytes
  | [] => none
  | kv :: es =>
      if Hits name kv.1 then some (chr ':' :: (quoted kv.2 ++ (mapMembers false es ++ rest)))
      else if Hits name kv.2 then some (mapMembers false es ++ rest)
      else entriesTail name rest es

theorem findSub_mapMembers {name : Bytes} (hname : PlainName name) (first : Bool)
    (entries : List (Bytes × Bytes)) (r : Bytes) :
    findSub (needle name) (mapMembers first entries ++ chr '}' :: r) =
      match entriesTail name (chr '}' :: r) entries with
      | some t => some (needle name ++ t)
      | none => findSub (needle name) (chr '}' :: r) := by
  induction entries generalizing first with
  | nil => rfl
  | cons kv es ih =>
      have hafter : NoNameHead (mapMembers false es ++ chr '}' :: r) := by
        cases es with
        | nil => exact noNameHead_cons (by decide)
        | cons e es =>
            rw [mapMembers_cons]
            exact noNameHead_cons (by decide)
      have hstep : findSub (needle name) (mapMembers first (kv :: es) ++ chr '}' :: r) =
          findSub (needle name) (quoted kv.1 ++ chr ':' :: (quoted kv.2 ++
            (mapMembers false es ++ chr '}' :: r))) := by
        rw [mapMembers_cons, List.append_assoc, needle,
          findSub_append_of_notMem (separator_notMem first)]
        simp only [List.append_assoc, List.cons_append]
      rw [hstep, findSub_quoted hname (noNameHead_cons (by decide)), entriesTail]
      by_cases hkey : Hits name kv.1
      · rw [if_pos hkey, if_pos hkey]
      · rw [if_neg hkey, if_neg hkey, needle, findSub_cons_of_ne (by decide), ← needle,
          findSub_quoted hname hafter]
        by_cases hvalue : Hits name kv.2
        · rw [if_pos hvalue, if_pos hvalue]
        · rw [if_neg hvalue, if_neg hvalue]
          exact ih false

/-- The encoded text after the string, if any, that the search for `answers` stops at. -/
def answersTail (j : SubmissionJob) : Option Bytes :=
  tailAt (str "answers") (mapsText j) (scalars j)

/-- The same for `identity_data`, which the keys and values of the answers come before as well. -/
def identityTail (j : SubmissionJob) : Option Bytes :=
  match tailAt (str "identity_data") (mapsText j) (scalars j) with
  | some t => some t
  | none => entriesTail (str "identity_data") (chr '}' :: identityText j) j.answers.entries

theorem mapAfterColon_skip {w : Bytes} (h : ∀ c ∈ w, decide (c = chr ':') = false) (t : Bytes) :
    mapAfterColon (w ++ t) = mapAfterColon t := by
  rw [mapAfterColon, findByte_append h, mapAfterColon]

theorem mapAfterColon_own {name : Bytes} (hname : PlainName name) (m : StringMap) (t : Bytes) :
    mapAfterColon (needle name ++ chr ':' :: (mapToJson m ++ t)) = m := by
  rw [mapAfterColon_skip (colon_notMem_needle hname.2), mapAfterColon_mapToJson]

theorem parseMapFromJson_toJson {j : SubmissionJob} {name : Bytes} (hname : PlainName name) :
    parseMapFromJson (toJson j) name =
      match tailAt name (mapsText j) (scalars j) with
      | some t => mapAfterColon t
      | none => parseMapFromJson (mapsText j) name := by
  have hrest : Closes (mapsText j) := closes_comma _
  have hfind := findSub_membersText hname (plainName_scalars j) true hrest
  rw [parseMapFromJson, toJson_eq, needle, findSub_cons_of_ne (by decide), ← needle, hfind]
  cases tailAt name (mapsText j) (scalars j) with
  | none => rfl
  | some t => exact mapAfterColon_skip (colon_notMem_needle hname.2) t

theorem plainName_answers : PlainName (str "answers") := by decide

theorem plainName_identityData : PlainName (str "identity_data") := by decide

theorem parse_answers (j : SubmissionJob) :
    parseMapFromJson (toJson j) (str "answers") =
      match answersTail j with
      | some t => mapAfterColon t
      | none => j.answers := by
  have hown : parseMapFromJson (mapsText j) (str "answers") = j.answers := by
    rw [parseMapFromJson, mapsText, needle, findSub_cons_of_ne (by decide), ← needle,
      findSub_of_head (List.prefix_append _ _)]
    exact mapAfterColon_own plainName_answers j.answers _
  rw [parseMapFromJson_toJson plainName_answers, hown, answersTail]

theorem parse_identityData (j : SubmissionJob) :
    parseMapFromJson (toJson j) (str "identity_data") =
      match identityTail j with
      | some t => mapAfterColon t
      | none => j.identityData := by
  have hskip : findSub (needle (str "identity_data")) (mapsText j) =
      findSub (needle (str "identity_data"))
        (mapMembers true j.answers.entries ++ chr '}' :: identityText j) := by
    have hother : ¬ Hits (str "identity_data") (str "answers") := by decide
    rw [mapsText, ← quoted_of_name plainName_answers.2, needle, findSub_cons_of_ne (by decide),
      ← needle, findSub_quoted plainName_identityData (noNameHead_cons (by decide)), if_neg hother,
      mapToJson]
    simp only [List.cons_append, List.append_assoc, List.nil_append]
    rw [needle, findSub_cons_of_ne (by decide), findSub_cons_of_ne (by decide)]
  have hown : findSub (needle (str "identity_data")) (chr '}' :: identityText j) =
      some (needle (str "identity_data") ++ chr ':' :: (mapToJson j.identityData ++ [chr '}'])) := by
    rw [identityText, needle, findSub_cons_of_ne (by decide), findSub_cons_of_ne (by decide),
      ← needle, findSub_of_head (List.prefix_append _ _)]
  rw [parseMapFromJson_toJson plainName_identityData, identityTail]
  cases tailAt (str "identity_data") (mapsText j) (scalars j) with
  | some t => rfl
  | none =>
      rw [parseMapFromJson, hskip, findSub_mapMembers plainName_identityData, hown]
      cases entriesTail (str "identity_data") (chr '}' :: identityText j) j.answers.entries with
      | some t => exact mapAfterColon_skip (colon_notMem_needle plainName_identityData.2) t
      | none => exact mapAfterColon_own plainName_identityData j.identityData [chr '}']

/-! ### The round trip -/

/-- The bytes that `extract` returns for a scalar member of an encoded job. -/
def readText (name : Bytes) (j : SubmissionJob) : Bytes :=
  match readAt name (scalars j) with
  | some v => v.read
  | none => []

theorem extract_toJson_eq_readText {j : SubmissionJob} {name : Bytes} (hname : PlainName name)
    (hmem : name ∈ (scalars j).map Prod.fst) : extract (toJson j) name = readText name j := by
  obtain ⟨v, hv⟩ := exists_readAt hmem
  rw [extract_toJson hname hv, readText, hv]

theorem readText_jobId (j : SubmissionJob) : readText (str "job_id") j = j.jobId := by
  rw [readText, scalars, readAt, if_pos rfl]
  rfl

/-- Only `job_id` stands before `exam_id`, so the number is found in any case. -/
theorem readText_examId (j : SubmissionJob) : readText (str "exam_id") j = intText j.examId.toInt := by
  have hread : readAt (str "exam_id") (scalars j) = some (.number j.examId) := by
    rw [scalars, readAt, if_neg (show ¬ str "job_id" = str "exam_id" by decide)]
    split
    · rfl
    · rw [readAt, if_pos rfl]
  rw [readText, hread]
  rfl

/-- The job that `from_json` makes of an encoded one. -/
def reread (j : SubmissionJob) : SubmissionJob :=
  { jobId := j.jobId
    examId := j.examId
    studentName := readText (str "student_name") j
    examNumber := readText (str "exam_number") j
    studentClass := readText (str "student_class") j
    startTime := readText (str "start_time") j
    macAddress := readText (str "mac_address") j
    enqueuedAt := readText (str "enqueued_at") j
    retries := stoiOrZero (readText (str "retries") j)
    answers := (answersTail j).elim j.answers mapAfterColon
    identityData := (identityTail j).elim j.identityData mapAfterColon }

/-- An encoded job with a job id is decoded, if not to itself. -/
theorem fromJson_toJson {j : SubmissionJob} (hid : j.jobId ≠ []) :
    fromJson (toJson j) = some (reread j) := by
  have hnames : (scalars j).map Prod.fst = [str "job_id", str "exam_id", str "student_name",
      str "exam_number", str "student_class", str "mac_address", str "start_time", str "retries",
      str "enqueued_at"] := rfl
  have hread : ∀ name, PlainName name → name ∈ [str "job_id", str "exam_id", str "student_name",
      str "exam_number", str "student_class", str "mac_address", str "start_time", str "retries",
      str "enqueued_at"] → extract (toJson j) name = readText name j :=
    fun name hname hmem => extract_toJson_eq_readText hname (hnames ▸ hmem)
  have hanswers : parseMapFromJson (toJson j) (str "answers") =
      (answersTail j).elim j.answers mapAfterColon := by
    rw [parse_answers]
    cases answersTail j <;> rfl
  have hidentity : parseMapFromJson (toJson j) (str "identity_data") =
      (identityTail j).elim j.identityData mapAfterColon := by
    rw [parse_identityData]
    cases identityTail j <;> rfl
  have hjob : extract (toJson j) (str "job_id") = j.jobId := by
    rw [hread _ (by decide) (by decide), readText_jobId]
  have hexam : extract (toJson j) (str "exam_id") = intText j.examId.toInt := by
    rw [hread _ (by decide) (by decide), readText_examId]
  rw [fromJson, hjob, if_neg hid, hexam, hanswers, hidentity,
    hread (str "student_name") (by decide) (by decide),
    hread (str "exam_number") (by decide) (by decide),
    hread (str "student_class") (by decide) (by decide),
    hread (str "start_time") (by decide) (by decide),
    hread (str "mac_address") (by decide) (by decide),
    hread (str "enqueued_at") (by decide) (by decide),
    hread (str "retries") (by decide) (by decide)]
  simp [reread, stoiOrZero]

/-- For every field: no string written before it hits its name, or what is read in its place, the
next member's value or the object at the next brace, is the same. -/
structure ReadsBack (j : SubmissionJob) : Prop where
  studentName : readText (str "student_name") j = j.studentName
  examNumber : readText (str "exam_number") j = j.examNumber
  studentClass : readText (str "student_class") j = j.studentClass
  startTime : readText (str "start_time") j = j.startTime
  macAddress : readText (str "mac_address") j = j.macAddress
  enqueuedAt : readText (str "enqueued_at") j = j.enqueuedAt
  retries : stoiOrZero (readText (str "retries") j) = j.retries
  answers : ∀ t ∈ answersTail j, mapAfterColon t = j.answers
  identityData : ∀ t ∈ identityTail j, mapAfterColon t = j.identityData

theorem reread_eq_iff (j : SubmissionJob) : reread j = j ↔ ReadsBack j := by
  have helim : ∀ (tail : Option Bytes) (m : StringMap),
      tail.elim m mapAfterColon = m ↔ ∀ t ∈ tail, mapAfterColon t = m := by
    intro tail m
    cases tail <;> simp
  constructor
  · intro h
    have hfield := SubmissionJob.ext_iff.mp h
    obtain ⟨-, -, hname, hnumber, hclass, hstart, hmac, hanswers, hidentity, hretries, henqueued⟩ :=
      hfield
    exact ⟨hname, hnumber, hclass, hstart, hmac, henqueued, hretries, (helim _ _).mp hanswers,
      (helim _ _).mp hidentity⟩
  · intro h
    exact SubmissionJob.ext rfl rfl h.studentName h.examNumber h.studentClass h.startTime
      h.macAddress ((helim _ _).mpr h.answers) ((helim _ _).mpr h.identityData) h.retries
      h.enqueuedAt

/-- A student who gives `mac_address` as name: the exam number is read as the device address. -/
def misreadJob : SubmissionJob :=
  { jobId := str "0f"
    examId := 7
    studentName := str "mac_address"
    examNumber := str "12"
    macAddress := str "AA:BB" }

end ExamVan.Queue
