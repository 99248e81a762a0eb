import ExamVan.Admin.UpdateExam
import ExamVan.Api.BodyFields

/-!
# Checking the questions of an exam

`validate_questions_array` takes every object for a question, whatever brackets and commas stand
between them, ends at an object that is not closed, and looks at the fields of each. An accepted text
is cut into the same objects by `parse_questions`. It is a JSON array of objects exactly if its
brackets and commas are where those of an array are and each object is one, and then the two read the
same fields exactly if their searches come upon the same number and the same type.
-/

namespace ExamVan.Admin

open ByteString JsonText Api Middleware
open Queue (objectText)

/-! ### The check -/

/-- The bytes that are skipped between two objects. -/
def isGapByte (c : UInt8) : Bool :=
  isBlank c || c = chr ',' || c = chr '[' || c = chr ']'

/-- The objects of the text; `none` if something else stands where one should. Each takes at least a
byte, so the length of the text is fuel enough. -/
def gapObjects : Nat → Bytes → Option (List Bytes)
  | 0, _ => some []
  | fuel + 1, s =>
      match s.dropWhile isGapByte with
      | [] => some []
      | c :: t =>
          if c = chr '\x7b' then
            match objectText 0 false false (c :: t) with
            -- the loop over an object that is not closed takes the rest of the text
            | none => some []
            | some obj => (gapObjects fuel ((c :: t).drop obj.length)).map (obj :: ·)
          else none

def kTypes : List Bytes :=
  [str "single_choice", str "multiple_choice", str "true_false", str "matching", str "short_answer"]

def isEmptyArray (raw : Bytes) : Bool := raw = [] || raw = str "[]"

/-- The fields that each type needs. -/
def validQuestion (o : Bytes) : Bool :=
  let type := jsonStringField o (str "type")
  let key := jsonRawValue o (str "key")
  let choices := jsonRawValue o (str "choices")
  if type ∉ kTypes then false
  else if jsonIntField o (str "number") = none then false
  else if type = str "matching" then
    key.head? = some (chr '\x7b') && !isEmptyArray (jsonRawValue o (str "left_items")) &&
      !isEmptyArray (jsonRawValue o (str "right_items"))
  else if type = str "multiple_choice" then
    key.head? = some (chr '[') && key ≠ str "[]" && !isEmptyArray choices
  else if type = str "single_choice" ∨ type = str "true_false" then
    jsonStringField o (str "key") ≠ [] && !(type = str "single_choice" && isEmptyArray choices)
  else true

/-- `validate_questions_array`. -/
def validateQuestionsArray (raw : Bytes) : Bool :=
  if raw = [] then true
  else if raw.head? ≠ some (chr '[') then false
  else
    match gapObjects raw.length raw with
    | none => false
    | some objs => objs.all validQuestion

/-! ### What is accepted can be scored -/

/-- The question has the number and the type that were checked. -/
def AsChecked (obj : Bytes) (q : Question) : Prop :=
  jsonIntField obj (str "number") = some q.number ∧ jsonStringField obj (str "type") = q.type

/-- The text is a JSON array of objects, and each object is read as one question, in order, as it was
checked. -/
def Scorable (stod : Bytes → Option ℚ) (q : Bytes) : Prop :=
  ∃ (lead first trail : Blanks) (items : Items) (objects : List (Blanks × Members)),
    q = Text.render ⟨lead, .array first items, trail⟩ ∧
      (items.values = objects.map fun o => .object o.1 o.2) ∧
        List.Forall₂ (fun o question => AsChecked (Value.object o.1 o.2).render question) objects
          (parseQuestions stod q)

/-- The objects that the check comes upon. -/
def checkedObjects (q : Bytes) : List Bytes := (gapObjects q.length q).getD []

/-- What stands before, between and behind the objects. -/
def gaps : List Bytes → Bytes → List Bytes
  | [], s => [s]
  | o :: objs, s => s.takeWhile isGapByte :: gaps objs ((s.dropWhile isGapByte).drop o.length)

/-- The marks of an array behind its opening bracket, blanks aside. -/
def arrayMarks (first : Bool) : Nat → List Bytes
  | 0 => [str "]"]
  | n + 1 => comma first :: arrayMarks false n

/-- Behind the opening bracket stand commas between the objects and a bracket behind them, and
nothing else but blanks. -/
def Punctuated (q : Bytes) : Prop :=
  (gaps (checkedObjects q) q.tail).map (List.filter fun c => !isBlank c) =
    arrayMarks true (checkedObjects q).length

/-- The two searches for the number of an object, and those for its type, come upon the same. -/
structure SearchesAgree (stod : Bytes → Option ℚ) (v : Value) : Prop where
  number : ∃ u, Behind v.render (str "number") u ∧
    stoi (u.dropWhile isBlank) = some (truncated (firstNumber stod (str "number") 0 v))
  type : ∃ u, Behind v.render (str "type") u ∧
    StringNext u (firstText (firstString (str "type") v) (str "single_choice"))

section

variable {stod : Bytes → Option ℚ} {q s : Bytes} {objs : List Bytes} {n : Nat}

/-! ### The objects -/

theorem objectText_length_pos {obj : Bytes} (h : objectText 0 false false s = some obj) :
    0 < obj.length := by
  rw [objectText_eq] at h
  obtain ⟨r, hr, rfl⟩ := Option.map_eq_some_iff.mp h
  exact List.length_pos_iff.mpr (Brackets.ne_nil_of_closing hr)

/-- The scorer's rounds take out the objects of the check. -/
theorem scan_of_gapObjects (h : gapObjects n s = some objs) (hn : s.length ≤ n) :
    scan objectRound (n + 1) s = some objs := by
  induction n generalizing s objs with
  | zero =>
      obtain rfl := List.eq_nil_of_length_eq_zero (Nat.le_zero.mp hn)
      cases h
      rfl
  | succ n ih =>
      have hgap : ∀ c ∈ s.takeWhile isGapByte, decide (c = chr '{') = false := by
        intro c hc
        have hc' := List.mem_takeWhile_imp hc
        exact decide_eq_false (by rintro rfl; revert hc'; decide)
      have hfind : findByte (fun c => decide (c = chr '{')) s =
          findByte (fun c => decide (c = chr '{')) (s.dropWhile isGapByte) := by
        conv_lhs => rw [← List.takeWhile_append_dropWhile (p := isGapByte) (l := s)]
        exact findByte_append hgap
      have hle : (s.dropWhile isGapByte).length ≤ s.length := List.length_dropWhile_le _ _
      unfold gapObjects at h
      cases hdrop : s.dropWhile isGapByte with
      | nil =>
          rw [hdrop] at h hfind
          cases h
          exact Scan.of_none (by rw [objectRound, hfind]; rfl)
      | cons c t =>
          rw [hdrop] at h hfind hle
          dsimp only at h
          split_ifs at h with hc
          have hround : objectRound s = (objectText 0 false false (c :: t)).map fun obj =>
              (obj, (c :: t).drop obj.length) := by
            rw [objectRound, hfind, findByte_cons_pos (by simp [hc]), Option.bind_some]
          cases hobj : objectText 0 false false (c :: t) with
          | none =>
              rw [hobj] at h hround
              cases h
              exact Scan.of_none hround
          | some obj =>
              rw [hobj] at h hround
              obtain ⟨rest, hrest, rfl⟩ := Option.map_eq_some_iff.mp h
              have hpos := objectText_length_pos hobj
              have hlength : ((c :: t).drop obj.length).length ≤ n := by
                rw [List.length_drop]
                rw [List.length_cons] at hle ⊢
                omega
              rw [Scan.of_some hround, ih hrest hlength]
              rfl

/-- What an accepted text is like. -/
theorem accepted (h : validateQuestionsArray q = true) (hne : q ≠ []) :
    q.head? = some (chr '[') ∧ gapObjects q.length q = some (checkedObjects q) ∧
      ∀ o ∈ checkedObjects q, validQuestion o = true := by
  unfold validateQuestionsArray at h
  rw [if_neg hne] at h
  split_ifs at h with hhead
  refine ⟨not_not.mp hhead, ?_⟩
  unfold checkedObjects
  cases hobjs : gapObjects q.length q with
  | none =>
      rw [hobjs] at h
      cases h
  | some objs =>
      rw [hobjs] at h
      exact ⟨rfl, List.all_eq_true.mp h⟩

/-- A checked object has a type and a number, where the searches of the check come upon them. -/
theorem fields_of_validQuestion {o : Bytes} (h : validQuestion o = true) :
    jsonStringField o (str "type") ∈ kTypes ∧ jsonIntField o (str "number") ≠ none := by
  unfold validQuestion at h
  dsimp only at h
  have htype : jsonStringField o (str "type") ∈ kTypes := by
    by_contra hno
    rw [if_pos hno] at h
    cases h
  rw [if_neg (not_not.mpr htype)] at h
  refine ⟨htype, fun hnumber => ?_⟩
  rw [if_pos hnumber] at h
  cases h

theorem hasNumber_of_jsonIntField {o : Bytes} (h : jsonIntField o (str "number") ≠ none) :
    hasNumber o = true := by
  unfold jsonIntField at h
  unfold hasNumber
  have hneedle : Queue.needle (str "number") = str "\"number\"" := rfl
  rw [← hneedle]
  cases hfind : findSub (Queue.needle (str "number")) o with
  | none =>
      rw [hfind] at h
      exact absurd rfl h
  | some t => rfl

/-- An accepted text has one question for each object of the check. -/
theorem parseQuestions_of_accepted (stod : Bytes → Option ℚ) (h : validateQuestionsArray q = true)
    (hne : q ≠ []) :
    parseQuestions stod q = (checkedObjects q).map (parseQuestion stod) := by
  obtain ⟨-, hobjs, hvalid⟩ := accepted h hne
  have hscan := scan_of_gapObjects hobjs le_rfl
  have hnumber : (checkedObjects q).filter hasNumber = checkedObjects q :=
    List.filter_eq_self.mpr fun o ho =>
      hasNumber_of_jsonIntField (fields_of_validQuestion (hvalid o ho)).2
  rw [parseQuestions, hscan, Option.getD_some, hnumber]

/-! ### Between the objects -/

theorem filter_blanks (w : Blanks) : w.text.filter (fun c => !isBlank c) = [] :=
  List.filter_eq_nil_iff.mpr fun c hc => by simp [w.isBlank c hc]

/-- A text that is one byte, blanks aside. -/
theorem eq_of_filter {c : UInt8} (h : s.filter (fun c => !isBlank c) = [c]) :
    ∃ w w' : Blanks, s = w.text ++ c :: w'.text := by
  obtain ⟨w, w', rfl, hw, -, hw'⟩ := List.filter_eq_cons_iff.mp h
  have hw'' := List.filter_eq_nil_iff.mp hw'
  exact ⟨⟨w, fun c hc => by simpa using hw c hc⟩, ⟨w', fun c hc => by simpa using hw'' c hc⟩, rfl⟩

/-- Blanks with a comma, if there is one, among them. -/
theorem eq_of_filter_comma {first : Bool} (h : s.filter (fun c => !isBlank c) = comma first) :
    ∃ w pre : Blanks, s = w.text ++ (comma first ++ pre.text) := by
  cases first with
  | true =>
      have hs := List.filter_eq_nil_iff.mp h
      exact ⟨.empty, ⟨s, fun c hc => by simpa using hs c hc⟩, rfl⟩
  | false => exact eq_of_filter h

theorem isGapByte_blanks (w : Blanks) : ∀ c ∈ w.text, isGapByte c = true := by
  intro c hc
  simp [isGapByte, w.isBlank c hc]

theorem isGapByte_between (w : Blanks) (first : Bool) (pre : Blanks) :
    ∀ c ∈ w.text ++ (comma first ++ pre.text), isGapByte c = true := by
  intro c hc
  rcases List.mem_append.mp hc with hw | hc
  · exact isGapByte_blanks w c hw
  · rcases List.mem_append.mp hc with hcomma | hpre
    · cases first with
      | true => cases hcomma
      | false =>
          rw [List.mem_singleton.mp hcomma]
          decide
    · exact isGapByte_blanks pre c hpre

/-- In an array the marks are where they belong. -/
theorem gaps_items {objects : List (Blanks × Members)} {items : Items}
    (h : items.values = objects.map fun o => .object o.1 o.2) (w : Blanks) (first : Bool)
    (trail : Blanks) :
    (gaps (objects.map fun o => (Value.object o.1 o.2).render)
        (w.text ++ (items.render first ++ chr ']' :: trail.text))).map
          (List.filter fun c => !isBlank c) = arrayMarks first objects.length := by
  induction objects generalizing items w first with
  | nil =>
      cases items with
      | nil =>
          simp only [List.map_nil, gaps, Items.render, List.nil_append, List.map_cons,
            List.filter_append, filter_blanks, List.length_nil, arrayMarks]
          rw [List.filter_cons_of_pos (by decide), filter_blanks]
          rfl
      | cons => cases h
  | cons o objects ih =>
      cases items with
      | nil => cases h
      | cons pre v post rest =>
          obtain ⟨rfl, hrest⟩ := List.cons.inj h
          have htext : w.text ++ ((Items.cons pre (.object o.1 o.2) post rest).render first ++
              chr ']' :: trail.text) = (w.text ++ (comma first ++ pre.text)) ++
                ((Value.object o.1 o.2).render ++
                  (post.text ++ (rest.render false ++ chr ']' :: trail.text))) := by
            simp [Items.render]
          have hgap := isGapByte_between w first pre
          have hopen : ∀ x, ((Value.object o.1 o.2).render ++ x).takeWhile isGapByte = [] ∧
              ((Value.object o.1 o.2).render ++ x).dropWhile isGapByte =
                (Value.object o.1 o.2).render ++ x := fun x =>
            ⟨List.takeWhile_cons_of_neg (by decide), List.dropWhile_cons_of_neg (by decide)⟩
          have hmarks : (w.text ++ (comma first ++ pre.text)).filter (fun c => !isBlank c) =
              comma first := by
            simp only [List.filter_append, filter_blanks, List.nil_append, List.append_nil]
            cases first <;> rfl
          rw [htext, List.map_cons, gaps, List.takeWhile_append_of_pos hgap,
            List.dropWhile_append_of_pos hgap, (hopen _).1, (hopen _).2, List.append_nil,
            List.drop_left, List.map_cons, hmarks, ih hrest, List.length_cons, arrayMarks]

/-- Objects with the marks of an array between them are an array. -/
theorem items_of_gaps (hobjs : gapObjects n s = some objs) (hn : s.length ≤ n) {first : Bool}
    (hgaps : (gaps objs s).map (List.filter fun c => !isBlank c) = arrayMarks first objs.length)
    (hobjects : ∀ o ∈ objs, ∃ lead members, o = (Value.object lead members).render) :
    ∃ (w trail : Blanks) (items : Items) (objects : List (Blanks × Members)),
      s = w.text ++ (items.render first ++ chr ']' :: trail.text) ∧
        (items.values = objects.map fun o => .object o.1 o.2) ∧
          objs = objects.map fun o => (Value.object o.1 o.2).render := by
  induction objs generalizing n s first with
  | nil =>
      have hfilter : s.filter (fun c => !isBlank c) = [chr ']'] := (List.cons.inj hgaps).1
      obtain ⟨w, trail, rfl⟩ := eq_of_filter hfilter
      exact ⟨w, trail, .nil, [], rfl, rfl, rfl⟩
  | cons o objs ih =>
      cases n with
      | zero => cases hobjs
      | succ n =>
          unfold gapObjects at hobjs
          have hsplit := List.takeWhile_append_dropWhile (p := isGapByte) (l := s)
          have hle : (s.dropWhile isGapByte).length ≤ s.length := List.length_dropWhile_le _ _
          obtain ⟨hfirst, hrestgaps⟩ := List.cons.inj hgaps
          cases hdrop : s.dropWhile isGapByte with
          | nil =>
              rw [hdrop] at hobjs
              cases hobjs
          | cons c t =>
              rw [hdrop] at hobjs hsplit hle hrestgaps
              dsimp only at hobjs
              split_ifs at hobjs with hc
              cases hobj : objectText 0 false false (c :: t) with
              | none =>
                  rw [hobj] at hobjs
                  cases hobjs
              | some obj =>
                  rw [hobj] at hobjs
                  obtain ⟨rest, hrest, heq⟩ := Option.map_eq_some_iff.mp hobjs
                  obtain ⟨rfl, rfl⟩ := List.cons.inj heq
                  have hpos := objectText_length_pos hobj
                  have hlength : ((c :: t).drop obj.length).length ≤ n := by
                    rw [List.length_drop]
                    rw [List.length_cons] at hle ⊢
                    omega
                  obtain ⟨post, trail, items, objects, htail, hvalues, rfl⟩ := ih hrest hlength
                    hrestgaps fun o ho => hobjects o (List.mem_cons_of_mem _ ho)
                  obtain ⟨lead, members, rfl⟩ := hobjects obj List.mem_cons_self
                  obtain ⟨w, pre, hgap⟩ := eq_of_filter_comma hfirst
                  have htext : c :: t = (Value.object lead members).render ++
                      (c :: t).drop (Value.object lead members).render.length := by
                    rw [objectText_eq] at hobj
                    obtain ⟨r, hr, hr1⟩ := Option.map_eq_some_iff.mp hobj
                    have happ := Brackets.append_of_closing hr
                    rw [← hr1]
                    conv_lhs => rw [happ]
                    rw [happ, List.drop_left]
                  refine ⟨w, trail, .cons pre (.object lead members) post items,
                    (lead, members) :: objects, ?_, ?_, rfl⟩
                  · rw [← hsplit, hgap, htext, htail]
                    simp [Items.render]
                  · rw [Items.values, hvalues]
                    rfl

/-! ### The fields -/

theorem jsonIntField_iff {obj k : Bytes} {i : Int32} : jsonIntField obj k = some i ↔
    ∃ u, Behind obj k u ∧ stoi (u.dropWhile isBlank) = some i := by
  unfold jsonIntField
  by_cases h : ∃ u, Behind obj k u
  · obtain ⟨u, hu⟩ := h
    obtain ⟨between, hfind, hbetween⟩ := id hu
    simp only [hfind, List.drop_left, findByte_eq_append hbetween, List.tail_cons, Queue.queueIsBlank_eq]
    exact ⟨fun hi => ⟨u, hu, hi⟩, fun ⟨u', hu', hi⟩ => behind_unique hu hu' ▸ hi⟩
  · refine iff_of_false ?_ fun ⟨u, hu, _⟩ => h ⟨u, hu⟩
    have hno := (behind_or obj k).resolve_left h
    cases hfind : findSub (Queue.needle k) obj with
    | none => exact fun hi => by cases hi
    | some t => simp only [hno t hfind, reduceCtorEq, not_false_eq_true]

theorem asChecked_iff (hstod : ReadsNumbers stod) (v : Value) :
    AsChecked v.render (parseQuestion stod v.render) ↔ SearchesAgree stod v := by
  have htype : firstText (firstString (str "type") v) (str "single_choice") ≠ [] := by
    unfold firstText
    split_ifs with h
    · decide
    · exact h
  rw [AsChecked, number_eq hstod, type_eq, jsonIntField_iff, jsonStringField_eq_iff, StringStands,
    or_iff_left fun h => htype h.1]
  exact ⟨fun h => ⟨h.1, h.2⟩, fun h => ⟨h.number, h.type⟩⟩

/-! ### Arrays -/

theorem gapObjects_cons_open (t : Bytes) :
    gapObjects (n + 1) (chr '[' :: t) = gapObjects (n + 1) t := by
  have hopen : isGapByte (chr '[') = true := by decide
  unfold gapObjects
  rw [List.dropWhile_cons_of_pos hopen]

/-- In an accepted array the check comes upon its objects, and the marks are those of an array. -/
theorem checked_of_array (h : validateQuestionsArray q = true) (hne : q ≠ [])
    {lead first trail : Blanks} {items : Items} {objects : List (Blanks × Members)}
    (hq : q = Text.render ⟨lead, .array first items, trail⟩)
    (hvalues : items.values = objects.map fun o => .object o.1 o.2) :
    checkedObjects q = objects.map (fun o => (Value.object o.1 o.2).render) ∧ Punctuated q := by
  obtain ⟨hhead, hobjs, -⟩ := accepted h hne
  have hscan := scan_of_gapObjects hobjs le_rfl
  have hobjects : checkedObjects q = objects.map fun o => (Value.object o.1 o.2).render := by
    have harray := scan_array lead first trail hvalues
    rw [← hq, hscan] at harray
    exact Option.some.inj harray
  have hlead : lead.text = [] := by
    cases hlead : lead.text with
    | nil => rfl
    | cons c t =>
        have hc : isBlank c = true := lead.isBlank c (hlead ▸ List.mem_cons_self)
        rw [hq, Text.render, hlead] at hhead
        obtain rfl : c = chr '[' := Option.some.inj hhead
        exact absurd hc (by decide)
  have htail : q.tail = first.text ++ (items.render true ++ chr ']' :: trail.text) := by
    rw [hq, Text.render, hlead]
    simp [Value.render]
  refine ⟨hobjects, ?_⟩
  rw [Punctuated, hobjects, htail, gaps_items hvalues, List.length_map]

/-- Objects with the marks of an array are an array. -/
theorem array_of_checked (h : validateQuestionsArray q = true) (hne : q ≠ []) (hmarks : Punctuated q)
    (hobjects : ∀ o ∈ checkedObjects q, ∃ lead members, o = (Value.object lead members).render) :
    ∃ (first trail : Blanks) (items : Items) (objects : List (Blanks × Members)),
      q = Text.render ⟨.empty, .array first items, trail⟩ ∧
        (items.values = objects.map fun o => .object o.1 o.2) ∧
          checkedObjects q = objects.map fun o => (Value.object o.1 o.2).render := by
  obtain ⟨hhead, hobjs, -⟩ := accepted h hne
  cases q with
  | nil => exact absurd rfl hne
  | cons c t =>
      obtain rfl : c = chr '[' := Option.some.inj hhead
      rw [List.length_cons, gapObjects_cons_open] at hobjs
      obtain ⟨first, trail, items, objects, htext, hvalues, hmap⟩ :=
        items_of_gaps hobjs (Nat.le_succ _) hmarks hobjects
      refine ⟨first, trail, items, objects, ?_, hvalues, hmap⟩
      rw [htext]
      simp [Text.render, Value.render]

/-- An accepted text can be scored as it was checked exactly if it has the marks of an array between
objects in which the searches of the two agree. -/
theorem scorable_iff (hstod : ReadsNumbers stod) (h : validateQuestionsArray q = true) (hne : q ≠ []) :
    Scorable stod q ↔ Punctuated q ∧ ∀ o ∈ checkedObjects q, ∃ lead members,
      o = (Value.object lead members).render ∧ SearchesAgree stod (.object lead members) := by
  have hquestions := parseQuestions_of_accepted stod h hne
  have hpointwise : ∀ objects : List (Blanks × Members),
      checkedObjects q = objects.map (fun o => (Value.object o.1 o.2).render) →
      (List.Forall₂ (fun o question => AsChecked (Value.object o.1 o.2).render question) objects
          (parseQuestions stod q) ↔
        ∀ o ∈ objects, SearchesAgree stod (.object o.1 o.2)) := by
    intro objects hobjects
    rw [hquestions, hobjects, List.forall₂_map_right_iff, List.forall₂_map_right_iff, List.forall₂_same]
    exact forall₂_congr fun o _ => asChecked_iff hstod (.object o.1 o.2)
  constructor
  · rintro ⟨lead, first, trail, items, objects, hq, hvalues, hread⟩
    obtain ⟨hobjects, hmarks⟩ := checked_of_array h hne hq hvalues
    refine ⟨hmarks, fun o ho => ?_⟩
    rw [hobjects] at ho
    obtain ⟨o', ho', rfl⟩ := List.mem_map.mp ho
    exact ⟨o'.1, o'.2, rfl, (hpointwise objects hobjects).mp hread o' ho'⟩
  · rintro ⟨hmarks, hagree⟩
    obtain ⟨first, trail, items, objects, hq, hvalues, hobjects⟩ := array_of_checked h hne hmarks
      fun o ho => (hagree o ho).imp fun _ => Exists.imp fun _ => And.left
    refine ⟨.empty, first, trail, items, objects, hq, hvalues,
      (hpointwise objects hobjects).mpr fun o ho => ?_⟩
    -- the object may have been divided otherwise, but its text decides what is read
    obtain ⟨lead, members, htext, hsearches⟩ := hagree (Value.object o.1 o.2).render
      (hobjects ▸ List.mem_map_of_mem (f := fun o => (Value.object o.1 o.2).render) ho)
    rw [← asChecked_iff hstod] at hsearches ⊢
    rw [htext]
    exact hsearches

end

theorem scorable_shortAnswer :
    Scorable leadingNumber (str "[\x7b\"number\":1,\"type\":\"short_answer\"\x7d]") ↔
      Punctuated (str "[\x7b\"number\":1,\"type\":\"short_answer\"\x7d]") ∧
        ∀ o ∈ checkedObjects (str "[\x7b\"number\":1,\"type\":\"short_answer\"\x7d]"),
          ∃ lead members, o = (Value.object lead members).render ∧
            SearchesAgree leadingNumber (.object lead members) :=
  scorable_iff readsNumbers_leadingNumber (by decide +kernel) (by decide)

/-- A text without its closing bracket is accepted. -/
theorem not_scorable : ¬ ∀ stod q, ReadsNumbers stod → validateQuestionsArray q = true → q ≠ [] →
    Scorable stod q := by
  intro h
  have haccepted : validateQuestionsArray
      (str "[\x7b\"number\":1,\"type\":\"short_answer\"\x7d") = true := by decide +kernel
  obtain ⟨lead, first, trail, items, objects, hq, hvalues, -⟩ :=
    h leadingNumber _ readsNumbers_leadingNumber haccepted (by decide)
  have hmarks := (checked_of_array haccepted (by decide) hq hvalues).2
  unfold Punctuated at hmarks
  revert hmarks
  decide +kernel

end ExamVan.Admin
