import Mathlib.Algebra.Order.BigOperators.Group.List
import ExamVan.Api.Body
import ExamVan.Middleware.OwnMembers

/-!
# The fields of a request

`json_string_field` goes to the first colon behind the first quoted name and drops the backslashes of
the string there. `json_raw_value` takes the first member of that spelling at any depth, and a literal
with the blanks behind it. `parse_string_map` takes names and values as they are spelled.
-/

namespace ExamVan.Api

open ByteString JsonText Middleware
open Queue (scanString needle StringMap)

/-! ### What a body says -/

def ownString (members : Members) (k : Bytes) : Bytes :=
  match ownValue members k with
  | some (.string s) => decode s
  | _ => []

def ownRaw (members : Members) (k : Bytes) : Bytes :=
  ((ownValue members k).map Value.render).getD []

/-- The member with this name is read as it stands. -/
def ReadsFields (body : Bytes) (members : Members) (k : Bytes) : Prop :=
  jsonStringField body k = ownString members k ∧ jsonRawValue body k = ownRaw members k

def pieces : Value → List Piece
  | .string s => s
  | _ => []

def StringsOnly (members : Members) : Prop := ∀ m ∈ members.own, ∃ s, m.2 = .string s

/-- The names and the strings of an object. -/
def decodedMap (members : Members) : StringMap :=
  OrderedMap.empty.insertAll (members.own.map fun m => (decode m.1, decode (pieces m.2)))

def ReadsMap (text : Bytes) (members : Members) : Prop := parseStringMap text = decodedMap members

/-! ### What the searches come upon -/

/-- A text without a bare quote in it, and what is left of it without its backslashes. -/
inductive Dropped : Bytes → Bytes → Prop
  | nil : Dropped [] []
  | plain {c : UInt8} {x t : Bytes} (hback : c ≠ chr '\\') (hquote : c ≠ chr '"') :
      Dropped x t → Dropped (c :: x) (c :: t)
  | escape {d : UInt8} {x t : Bytes} : Dropped x t → Dropped (chr '\\' :: d :: x) (d :: t)

/-- A closed string comes next, and this is left of it. -/
def StringNext (u t : Bytes) : Prop :=
  ∃ x y, u.dropWhile isBlank = chr '"' :: (x ++ chr '"' :: y) ∧ Dropped x t

/-- Behind the first colon behind the first place of the quoted name stands this string; the empty one
also if none stands there. -/
def StringStands (obj k t : Bytes) : Prop :=
  (∃ u, Behind obj k u ∧ StringNext u t) ∨ t = [] ∧ ∀ u t', Behind obj k u → ¬ StringNext u t'

/-- A value as far as the next comma or closing bracket. -/
def upToMark (v : Value) (post : Blanks) : Bytes :=
  v.render ++ if isLiteral v then post.text else []

/-- The first member that is spelled so, at whatever depth, has the text of this value; if there is no
value, no member is spelled so. -/
def RawStands (v : Value) (k : Bytes) : Option Value → Prop
  | none => ∀ name ∈ v.names, raw name ≠ k
  | some own => ∃ w post, (v.search (fun name => raw name = k) fun w post => some (w, post)) =
      some (w, post) ∧ upToMark w post = own.render

/-- There is no blank before the object and no escape in it. -/
def Verbatim (lead : Blanks) (members : Members) : Prop :=
  (lead.text = [] ∨ members.own = []) ∧
    ∀ m ∈ members.own, chr '\\' ∉ raw m.1 ∧ chr '\\' ∉ raw (pieces m.2)

section

variable {obj k t w : Bytes}

/-! ### Strings -/

theorem readQuoted_of_dropped {x t y : Bytes} (h : Dropped x t) :
    readQuoted (x ++ chr '"' :: y) = some t := by
  induction h with
  | nil =>
      rw [List.nil_append, readQuoted.eq_def]
      simp [chr]
  | plain hback hquote _ ih =>
      rw [List.cons_append, readQuoted.eq_def]
      simp [hback, hquote, ih]
  | escape _ ih =>
      rw [List.cons_append, List.cons_append, readQuoted.eq_def]
      simp [ih]

theorem readQuoted_iff : readQuoted w = some t ↔ ∃ x y, w = x ++ chr '"' :: y ∧ Dropped x t := by
  constructor
  · intro h
    fun_induction readQuoted w generalizing t with
    | case1 => cases h
    | case2 => cases h
    | case3 d rest ih =>
        obtain ⟨t', ht', rfl⟩ := Option.map_eq_some_iff.mp h
        obtain ⟨x, y, rfl, hx⟩ := ih ht'
        exact ⟨_, y, rfl, hx.escape⟩
    | case4 rest =>
        cases h
        exact ⟨[], rest, rfl, .nil⟩
    | case5 c rest hback hquote ih =>
        obtain ⟨t', ht', rfl⟩ := Option.map_eq_some_iff.mp h
        obtain ⟨x, y, rfl, hx⟩ := ih ht'
        exact ⟨_, y, rfl, hx.plain hback hquote⟩
  · rintro ⟨x, y, rfl, hx⟩
    exact readQuoted_of_dropped hx

/-- What `json_string_field` makes of the text behind the colon. -/
def stringBehind (u : Bytes) : Bytes :=
  match u.dropWhile isBlank with
  | [] => []
  | c :: v => if c = chr '"' then (readQuoted v).getD [] else []

theorem stringBehind_of_next {u : Bytes} (h : StringNext u t) : stringBehind u = t := by
  obtain ⟨x, y, hu, hx⟩ := h
  rw [stringBehind, hu]
  dsimp only
  rw [if_pos rfl, readQuoted_of_dropped hx, Option.getD_some]

theorem next_or (u : Bytes) : StringNext u (stringBehind u) ∨
    stringBehind u = [] ∧ ∀ t, ¬ StringNext u t := by
  by_cases h : ∃ t, StringNext u t
  · obtain ⟨t, ht⟩ := h
    rw [stringBehind_of_next ht]
    exact .inl ht
  · refine .inr ⟨?_, not_exists.mp h⟩
    unfold stringBehind
    cases hu : u.dropWhile isBlank with
    | nil => rfl
    | cons c v =>
        dsimp only
        split_ifs with hc
        · cases hread : readQuoted v with
          | none => rfl
          | some t =>
              obtain ⟨x, y, rfl, hx⟩ := readQuoted_iff.mp hread
              exact absurd ⟨t, x, y, by rw [hu, hc], hx⟩ h
        · rfl

theorem jsonStringField_of_behind {u : Bytes} (h : Behind obj k u) :
    jsonStringField obj k = stringBehind u := by
  obtain ⟨between, hfind, hbetween⟩ := h
  unfold jsonStringField
  simp only [hfind, List.drop_left, findByte_eq_append hbetween, List.tail_cons, Queue.queueIsBlank_eq]
  rfl

theorem jsonStringField_of_nowhere (h : ¬ ∃ u, Behind obj k u) : jsonStringField obj k = [] := by
  have hno := (behind_or obj k).resolve_left h
  unfold jsonStringField
  cases hfind : findSub (needle k) obj with
  | none => rfl
  | some t => simp only [hno t hfind]

theorem jsonStringField_eq_iff : jsonStringField obj k = t ↔ StringStands obj k t := by
  unfold StringStands
  by_cases h : ∃ u, Behind obj k u
  · obtain ⟨u, hu⟩ := h
    rw [jsonStringField_of_behind hu]
    constructor
    · rintro rfl
      rcases next_or u with hnext | ⟨hnil, hno⟩
      · exact .inl ⟨u, hu, hnext⟩
      · exact .inr ⟨hnil, fun u' t' hu' => behind_unique hu hu' ▸ hno t'⟩
    · rintro (⟨u', hu', hnext⟩ | ⟨rfl, hno⟩)
      · rw [behind_unique hu hu']
        exact stringBehind_of_next hnext
      · rcases next_or u with hnext | ⟨hnil, -⟩
        · exact absurd hnext (hno u _ hu)
        · exact hnil
  · rw [jsonStringField_of_nowhere h]
    constructor
    · rintro rfl
      exact .inr ⟨rfl, fun u t' hu => absurd ⟨u, hu⟩ h⟩
    · rintro (⟨u, hu, -⟩ | ⟨rfl, -⟩)
      · exact absurd ⟨u, hu⟩ h
      · rfl

/-! ### Values -/

def squares : Brackets := ⟨true, false⟩

theorem bracketText_squares (depth : Int) (inStr esc : Bool) (s : Bytes) :
    bracketText (chr '[') (chr ']') depth inStr esc s =
      (squares.closing depth inStr esc s).map Prod.fst := by
  induction s generalizing depth inStr esc with
  | nil => rfl
  | cons c s ih =>
      unfold bracketText Brackets.closing
      simp only [ih, Option.map_map]
      simp only [squares, Brackets.opens, Brackets.closes, Bool.false_and, Bool.or_false, Bool.true_and,
        decide_eq_true_eq]
      split_ifs <;> simp [Function.comp_def]

theorem bracketText_braces (depth : Int) (inStr esc : Bool) (s : Bytes) :
    bracketText (chr '\x7b') (chr '\x7d') depth inStr esc s =
      (braces.closing depth inStr esc s).map Prod.fst := by
  induction s generalizing depth inStr esc with
  | nil => rfl
  | cons c s ih =>
      unfold bracketText Brackets.closing
      simp only [ih, Option.map_map]
      simp only [braces, Brackets.opens, Brackets.closes, Bool.false_and, Bool.false_or, Bool.true_and,
        decide_eq_true_eq]
      split_ifs <;> simp [Function.comp_def]

theorem rawValueAt_value (v : Value) (post : Blanks) {c : UInt8} (hc : c = chr ',' ∨ c = chr '\x7d')
    (t : Bytes) : rawValueAt (v.render ++ (post.text ++ c :: t)) = upToMark v post := by
  unfold upToMark
  cases v with
  | string s =>
      have htext : stringText s ++ (post.text ++ c :: t) =
          chr '"' :: (raw s ++ chr '"' :: (post.text ++ c :: t)) := by simp [stringText]
      rw [Value.render, htext, rawValueAt, if_pos rfl, Queue.scanString_raw]
      simp [stringText, isLiteral]
  | array lead items =>
      have hclosing := Brackets.closing_array (b := squares) rfl lead items (post.text ++ c :: t)
      have hquote : chr '[' ≠ chr '"' := by decide
      have hbrace : chr '[' ≠ chr '\x7b' := by decide
      rw [Value.render, List.cons_append, rawValueAt, if_neg hquote, if_neg hbrace, if_pos rfl,
        bracketText_squares, ← List.cons_append, ← Value.render, hclosing]
      simp [isLiteral]
  | object lead members =>
      have hclosing := Brackets.closing_object (b := braces) rfl lead members (post.text ++ c :: t)
      have hquote : chr '\x7b' ≠ chr '"' := by decide
      rw [Value.render, List.cons_append, rawValueAt, if_neg hquote, if_pos rfl, bracketText_braces,
        ← List.cons_append, ← Value.render, hclosing]
      simp [isLiteral]
  | literal l =>
      obtain ⟨d, w, hl⟩ := List.exists_cons_of_ne_nil (literal_ne_nil l)
      have hno : ∀ b ∈ l.text, b ∉ str "\"[]\x7b\x7d," := fun b hb => (isWord_literal l b hb).2
      have hd : ∀ e ∈ str "\"[\x7b", d ≠ e := fun e he heq => hno d (hl ▸ List.mem_cons_self)
        (heq ▸ (by decide : ∀ e ∈ str "\"[\x7b", e ∈ str "\"[]\x7b\x7d,") e he)
      have hword : ∀ b ∈ l.text ++ post.text,
          (!(b = chr ',' || b = chr '\x7d' || b = chr ']')) = true := by
        have hblank : ∀ b, isBlank b = true →
            (!(b = chr ',' || b = chr '\x7d' || b = chr ']')) = true :=
          forall_byte (by decide)
        intro b hb
        rcases List.mem_append.mp hb with hb | hb
        · have hne : ∀ e ∈ str ",\x7d]", b ≠ e := fun e he heq => hno b hb
            (heq ▸ (by decide : ∀ e ∈ str ",\x7d]", e ∈ str "\"[]\x7b\x7d,") e he)
          simp [hne (chr ',') (by decide), hne (chr '\x7d') (by decide), hne (chr ']') (by decide)]
        · exact hblank b (post.isBlank b hb)
      have htake : (l.text ++ (post.text ++ c :: t)).takeWhile
          (fun b => !(b = chr ',' || b = chr '\x7d' || b = chr ']')) = l.text ++ post.text := by
        rw [← List.append_assoc, List.takeWhile_append_of_pos hword]
        rcases hc with rfl | rfl <;> rw [List.takeWhile_cons_of_neg (by decide), List.append_nil]
      rw [Value.render, isLiteral, if_pos rfl, ← htake, hl, List.cons_append, rawValueAt,
        if_neg (hd _ (by decide)), if_neg (hd _ (by decide)), if_neg (hd _ (by decide))]

/-- The value behind a colon. -/
def rawMember (t : Bytes) : Option Bytes :=
  match t.dropWhile isBlank with
  | [] => none
  | c :: u => if c = chr ':' then some (rawValueAt (u.dropWhile isBlank)) else none

/-- What a reader makes of the value behind a colon. -/
def valueBehind (read : Bytes → Option Bytes) (t : Bytes) : Option Bytes :=
  match t.dropWhile isBlank with
  | [] => none
  | c :: u => if c = chr ':' then read (u.dropWhile isBlank) else none

theorem rawMember_eq : rawMember = valueBehind fun s => some (rawValueAt s) := by
  funext t
  unfold rawMember valueBehind
  cases t.dropWhile isBlank <;> rfl

theorem bind_afterMember (read : Bytes → Option Bytes) (k : Bytes) (c : UInt8) (s : Bytes) :
    (afterMember k (c :: s)).bind read =
      if decide (chr '"' :: (k ++ [chr '"']) <+: c :: s) then valueBehind read (s.drop (k.length + 1))
      else none := by
  have hlength : (needle k).length = k.length + 1 + 1 := by simp [needle]
  unfold afterMember valueBehind
  rw [hlength, List.drop_succ_cons, Queue.queueIsBlank_eq]
  by_cases hname : chr '"' :: (k ++ [chr '"']) <+: c :: s
  · have hneedle : needle k <+: c :: s := hname
    rw [if_pos hneedle, if_pos (decide_eq_true hname)]
    cases (s.drop (k.length + 1)).dropWhile isBlank with
    | nil => rfl
    | cons d u =>
        dsimp only
        split_ifs <;> rfl
  · have hneedle : ¬ needle k <+: c :: s := hname
    rw [if_neg hneedle, if_neg (by simpa using hname)]
    rfl

theorem memberFrom_eq (read : Bytes → Option Bytes) (k : Bytes) (inStr esc : Bool) (s : Bytes) :
    memberFrom read k inStr esc s = (searchFrom (valueBehind read) k inStr esc s).getD [] := by
  induction s generalizing inStr esc with
  | nil => rfl
  | cons c s ih =>
      have hfound := bind_afterMember read k c s
      rw [memberFrom_cons, searchFrom]
      simp only [ih, getD_or_ite]
      cases inStr <;> cases esc
      · simp only [Bool.not_false, Bool.and_self, Bool.true_and, if_true, hfound]
        congr 1
        split_ifs <;> rfl
      all_goals
        simp only [Bool.not_false, Bool.not_true, Bool.and_false, Bool.false_and, Bool.false_eq_true,
          if_false, Option.getD_none]
        split_ifs <;> rfl

theorem rawValueFrom_eq_memberFrom (inStr esc : Bool) (s : Bytes) :
    rawValueFrom k inStr esc s = memberFrom (fun s => some (rawValueAt s)) k inStr esc s := by
  induction s generalizing inStr esc with
  | nil => rfl
  | cons c s ih =>
      rw [rawValueFrom, memberFrom]
      simp only [ih]
      cases inStr <;> cases esc
      · cases afterMember k (c :: s) <;> rfl
      all_goals rfl

theorem rawValueFrom_eq (inStr esc : Bool) (s : Bytes) :
    rawValueFrom k inStr esc s = (searchFrom rawMember k inStr esc s).getD [] := by
  rw [rawValueFrom_eq_memberFrom, memberFrom_eq, rawMember_eq]

theorem valueBehind_of_not_colonNext {read : Bytes → Option Bytes} {t : Bytes} (h : ¬ ColonNext t) :
    valueBehind read t = none := by
  unfold ColonNext at h
  unfold valueBehind
  cases hdrop : t.dropWhile isBlank with
  | nil => rfl
  | cons c u =>
      rw [hdrop] at h
      exact if_neg fun hc => h (by rw [hc]; rfl)

theorem valueBehind_value {read : Bytes → Option Bytes} (mid gap : Blanks) (v : Value) (s : Bytes) :
    valueBehind read (mid.text ++ chr ':' :: (gap.text ++ (v.render ++ s))) =
      read (v.render ++ s) := by
  have hsolid : (v.render ++ s).dropWhile isBlank = v.render ++ s := solid_value v
  unfold valueBehind
  rw [dropWhile_blanks, List.dropWhile_cons_of_neg (by decide)]
  dsimp only
  rw [if_pos rfl, dropWhile_blanks, hsolid]

/-- In a JSON text `json_raw_value` takes the first member that is spelled so. -/
theorem jsonRawValue_render (hk : chr '"' ∉ k ∧ chr '\\' ∉ k) (q : Text) :
    jsonRawValue q.render k = (q.v.search (fun name => raw name = k) fun w post =>
      some (upToMark w post)).getD [] := by
  have hsearch : searchFrom rawMember k false false q.render =
      q.v.search (fun name => raw name = k) fun w post => some (upToMark w post) :=
    searchFrom_render hk (fun t ht => rawMember_eq ▸ valueBehind_of_not_colonNext ht)
      (fun mid gap v post c t hc => by
        rw [rawMember_eq, valueBehind_value, rawValueAt_value v post hc]) q
  rw [jsonRawValue, rawValueFrom_eq, hsearch]

theorem jsonRawValue_eq_iff (hk : chr '"' ∉ k ∧ chr '\\' ∉ k) (q : Text) (own : Option Value) :
    jsonRawValue q.render k = (own.map Value.render).getD [] ↔ RawStands q.v k own := by
  have hmap : (q.v.search (fun name => raw name = k) fun w post => some (upToMark w post)) =
      (q.v.search (fun name => raw name = k) fun w post => some (w, post)).map fun wp =>
        upToMark wp.1 wp.2 :=
    q.v.search_map (fun w post => some (w, post)) fun wp => upToMark wp.1 wp.2
  rw [jsonRawValue_render hk, hmap]
  cases own with
  | none =>
      have hnone := Value.search_eq_none_iff (p := fun name => raw name = k)
        (fun w post => (w, post)) q.v
      simp only [decide_eq_true_eq] at hnone
      rw [RawStands, ← hnone]
      cases q.v.search (fun name => raw name = k) fun w post => some (w, post) with
      | none => exact iff_of_true rfl rfl
      | some wp =>
          have hne : upToMark wp.1 wp.2 ≠ [] := by simp [upToMark, render_ne_nil]
          exact iff_of_false hne (Option.some_ne_none _)
  | some own =>
      have hne := render_ne_nil own
      unfold RawStands
      cases q.v.search (fun name => raw name = k) fun w post => some (w, post) with
      | none => exact iff_of_false hne.symm fun ⟨_, _, h, _⟩ => by cases h
      | some wp =>
          obtain ⟨w, post⟩ := wp
          constructor
          · exact fun h => ⟨w, post, rfl, h⟩
          · rintro ⟨w', post', heq, h⟩
            cases heq
            exact h

/-! ### Maps -/

/-- The blanks and commas before a member, and what follows them. -/
theorem dropWhile_separators (pre : Blanks) (first : Bool) (lead : Blanks) {c : UInt8} {s : Bytes}
    (hc : (Queue.isBlank c || c = chr ',') = false) :
    (pre.text ++ (comma first ++ (lead.text ++ c :: s))).dropWhile
      (fun c => Queue.isBlank c || c = chr ',') = c :: s := by
  have hblank : ∀ w : Blanks, ∀ c ∈ w.text, (Queue.isBlank c || c = chr ',') = true := fun w c hc => by
    rw [Queue.queueIsBlank_eq]
    simp [w.isBlank c hc]
  have hcomma : ∀ c ∈ comma first, (Queue.isBlank c || c = chr ',') = true := by
    cases first <;> decide
  rw [List.dropWhile_append_of_pos (hblank pre), List.dropWhile_append_of_pos hcomma,
    List.dropWhile_append_of_pos (hblank lead), List.dropWhile_cons_of_neg (by simpa using hc)]

/-- The colon behind a name with the blanks around it. -/
theorem dropWhile_colon (mid gap : Blanks) {c : UInt8} {s : Bytes}
    (hc : (Queue.isBlank c || c = chr ':') = false) :
    (mid.text ++ chr ':' :: (gap.text ++ c :: s)).dropWhile
      (fun c => Queue.isBlank c || c = chr ':') = c :: s := by
  have hblank : ∀ w : Blanks, ∀ c ∈ w.text, (Queue.isBlank c || c = chr ':') = true := fun w c hc => by
    rw [Queue.queueIsBlank_eq]
    simp [w.isBlank c hc]
  rw [List.dropWhile_append_of_pos (hblank mid), List.dropWhile_cons_of_pos (by decide),
    List.dropWhile_append_of_pos (hblank gap), List.dropWhile_cons_of_neg (by simpa using hc)]

/-- The loop of `parse_string_map` over members with strings. -/
theorem stringPairs_members {members : Members} (h : StringsOnly members) (pre : Blanks) (first : Bool)
    {fuel : Nat} (hfuel : members.own.length < fuel) (t : Bytes) (out : StringMap) :
    stringPairs fuel (pre.text ++ (members.render first ++ chr '\x7d' :: t)) out =
      out.insertAll (members.own.map fun m => (raw m.1, raw (pieces m.2))) := by
  induction fuel generalizing members pre first out with
  | zero => exact absurd hfuel (Nat.not_lt_zero _)
  | succ fuel ih =>
      cases members with
      | nil =>
          have hdrop := dropWhile_separators pre true .empty (c := chr '\x7d') (s := t) (by decide)
          rw [stringPairs, Members.render]
          simp only [comma, if_true, Blanks.text_empty, List.nil_append] at hdrop ⊢
          rw [hdrop]
          dsimp only
          rw [if_pos rfl]
          rfl
      | cons lead name mid gap v post rest =>
          obtain ⟨s, rfl⟩ := h (name, v) List.mem_cons_self
          have hrest : StringsOnly rest := fun m hm => h m (List.mem_cons_of_mem _ hm)
          have htext : pre.text ++ ((Members.cons lead name mid gap (.string s) post rest).render first ++
              chr '\x7d' :: t) = pre.text ++ (comma first ++ (lead.text ++ chr '"' :: (raw name ++
                chr '"' :: (mid.text ++ chr ':' :: (gap.text ++ chr '"' :: (raw s ++ chr '"' ::
                  (post.text ++ (rest.render false ++ chr '\x7d' :: t)))))))) := by
            simp [Members.render, Value.render, stringText]
          have hquote : chr '"' ≠ chr '\x7d' := by decide
          rw [htext, stringPairs, dropWhile_separators pre first lead (by decide)]
          dsimp only
          rw [if_neg hquote, if_neg (not_not.mpr rfl), Queue.scanString_raw]
          dsimp only
          rw [dropWhile_colon mid gap (by decide)]
          dsimp only
          rw [if_neg (not_not.mpr rfl), Queue.scanString_raw]
          dsimp only
          rw [ih hrest post false (Nat.lt_of_succ_lt_succ hfuel)]
          rfl

theorem length_own_le : ∀ (members : Members) (first : Bool),
    members.own.length ≤ (members.render first).length
  | .nil, _ => Nat.zero_le _
  | .cons _ _ _ _ _ _ rest, first => by
      have hrest := length_own_le rest false
      simp only [Members.own, Members.render, List.length_cons, List.length_append]
      omega

/-- An object with strings is read with its names and strings as they are spelled. -/
theorem parseStringMap_render {members : Members} (h : StringsOnly members) (lead first trail : Blanks) :
    parseStringMap (Text.render ⟨lead, .object first members, trail⟩) =
      if lead.text = [] then
        OrderedMap.empty.insertAll (members.own.map fun m => (raw m.1, raw (pieces m.2)))
      else OrderedMap.empty := by
  cases hlead : lead.text with
  | nil =>
      have htext : Text.render ⟨lead, .object first members, trail⟩ =
          chr '\x7b' :: (first.text ++ (members.render true ++ chr '\x7d' :: trail.text)) := by
        simp [Text.render, Value.render, hlead]
      have hlength := length_own_le members true
      rw [htext, parseStringMap, if_pos rfl, if_pos rfl, stringPairs_members h]
      simp only [List.length_cons, List.length_append]
      omega
  | cons c s =>
      have hblank : isBlank c = true := lead.isBlank c (hlead ▸ List.mem_cons_self)
      have hne : c ≠ chr '\x7b' := by
        rintro rfl
        exact absurd hblank (by decide)
      rw [Text.render, hlead, List.cons_append, List.cons_append, parseStringMap, if_neg hne,
        if_neg (List.cons_ne_nil c s)]

/-- Lengths that are nowhere smaller and the same in sum are the same everywhere. -/
theorem length_eq_of_sum_eq {α : Type*} {f g : α → Nat} {l : List α} (hle : ∀ a ∈ l, f a ≤ g a)
    (hsum : (l.map f).sum = (l.map g).sum) : ∀ a ∈ l, f a = g a := by
  induction l with
  | nil => exact nofun
  | cons a l ih =>
      obtain ⟨hhead, hrest⟩ := List.forall_mem_cons.mp hle
      have htail : (l.map f).sum ≤ (l.map g).sum := List.sum_le_sum hrest
      simp only [List.map_cons, List.sum_cons] at hsum
      exact List.forall_mem_cons.mpr ⟨by omega, ih hrest (by omega)⟩

/-- The map with the spellings is the one with what they denote only if there is no escape. -/
theorem insertAll_raw_iff {members : Members} (hunique : UniqueNames members) :
    OrderedMap.empty.insertAll (members.own.map fun m => (raw m.1, raw (pieces m.2))) =
        decodedMap members ↔
      ∀ m ∈ members.own, chr '\\' ∉ raw m.1 ∧ chr '\\' ∉ raw (pieces m.2) := by
  constructor
  · intro h
    have hdecoded : (members.own.map fun m => (decode m.1, decode (pieces m.2))).Pairwise
        fun a b => a.1 ≠ b.1 :=
      List.pairwise_map.mpr (List.pairwise_map.mp hunique)
    have hspelled : (members.own.map fun m => (raw m.1, raw (pieces m.2))).Pairwise
        fun a b => a.1 ≠ b.1 := by
      refine List.pairwise_map.mpr ((List.pairwise_map.mp hunique).imp fun {a b} hne heq => hne ?_)
      have hquoted : raw a.1 ++ chr '"' :: [] = raw b.1 ++ chr '"' :: [] := congrArg (· ++ [chr '"']) heq
      exact congrArg decode (raw_unique hquoted).1
    have hperm : (members.own.map fun m => (raw m.1, raw (pieces m.2))).Perm
        (members.own.map fun m => (decode m.1, decode (pieces m.2))) :=
      ((OrderedMap.perm_insertAll (m := .empty) hspelled).symm.trans (.of_eq (congrArg _ h))).trans
        (OrderedMap.perm_insertAll (m := .empty) hdecoded)
    have hle : ∀ s, (decode s).length ≤ (raw s).length := fun s => length_decodeFrom_le none s
    have hsum := (hperm.map fun e : Bytes × Bytes => e.1.length + e.2.length).sum_eq
    rw [List.map_map, List.map_map] at hsum
    have hsame := length_eq_of_sum_eq (fun m _ => Nat.add_le_add (hle m.1) (hle (pieces m.2))) hsum.symm
    intro m hm
    have hboth : (decode m.1).length + (decode (pieces m.2)).length =
        (raw m.1).length + (raw (pieces m.2)).length := hsame m hm
    have hname := hle m.1
    have hvalue := hle (pieces m.2)
    exact ⟨notMem_of_length_le (by omega), notMem_of_length_le (by omega)⟩
  · intro h
    refine congrArg _ (List.map_congr_left fun m hm => ?_)
    rw [decode_of_notMem (h m hm).1, decode_of_notMem (h m hm).2]

theorem readsMap_iff {members : Members} (h : StringsOnly members) (hunique : UniqueNames members)
    (lead first trail : Blanks) :
    ReadsMap (Text.render ⟨lead, .object first members, trail⟩) members ↔ Verbatim lead members := by
  rw [ReadsMap, parseStringMap_render h, Verbatim]
  split_ifs with hlead
  · rw [insertAll_raw_iff hunique]
    exact (and_iff_right (.inl hlead)).symm
  · rw [or_iff_right hlead]
    constructor
    · intro hempty
      have hnone : members.own = [] := by
        by_contra hne
        exact OrderedMap.insertAll_ne_empty (.inr (by simpa using hne)) hempty.symm
      exact ⟨hnone, by simp [hnone]⟩
    · rintro ⟨hnone, -⟩
      rw [decodedMap, hnone]
      rfl

/-- The fields of a body and the map in an object are read as they stand exactly if the searches come
upon the members of the body and the object is spelled without escapes. -/
theorem bodyFields_iff (hk : chr '"' ∉ k ∧ chr '\\' ∉ k) (lead first trail : Blanks)
    (members : Members) {pairs : Members} (hstrings : StringsOnly pairs) (hunique : UniqueNames pairs)
    (lead' first' trail' : Blanks) :
    ReadsFields (Text.render ⟨lead, .object first members, trail⟩) members k ∧
        ReadsMap (Text.render ⟨lead', .object first' pairs, trail'⟩) pairs ↔
      (StringStands (Text.render ⟨lead, .object first members, trail⟩) k (ownString members k) ∧
          RawStands (.object first members) k (ownValue members k)) ∧
        Verbatim lead' pairs := by
  rw [ReadsFields, jsonStringField_eq_iff, ownRaw, jsonRawValue_eq_iff hk,
    readsMap_iff hstrings hunique]

end

/-- A body with one token among the identity data and one of its own. -/
def twoTokens : Members :=
  .compact [
    plainMember "identity_data"
      (.object .empty (.compact [plainMember "token" (.string (Queue.escapedPieces (str "X")))])),
    plainMember "token" (.string (Queue.escapedPieces (str "Y")))]

def oneAnswer : Members := .compact [plainMember "1" (.string (Queue.escapedPieces (str "A")))]

theorem stringsOnly_oneAnswer : StringsOnly oneAnswer := by
  intro m hm
  obtain rfl := List.mem_singleton.mp hm
  exact ⟨_, rfl⟩

theorem bodyFields_twoTokens :
    ReadsFields (Text.render ⟨.empty, .object .empty twoTokens, .empty⟩) twoTokens (str "token") ∧
        ReadsMap (Text.render ⟨.empty, .object .empty oneAnswer, .empty⟩) oneAnswer ↔
      (StringStands (Text.render ⟨.empty, .object .empty twoTokens, .empty⟩) (str "token")
            (ownString twoTokens (str "token")) ∧
          RawStands (.object .empty twoTokens) (str "token") (ownValue twoTokens (str "token"))) ∧
        Verbatim .empty oneAnswer :=
  bodyFields_iff (by decide) _ _ _ _ stringsOnly_oneAnswer (List.nodup_singleton _) _ _ _

/-- The token among the identity data is taken for the token. -/
theorem not_readsFields : ¬ ∀ (k : Bytes), (chr '"' ∉ k ∧ chr '\\' ∉ k) →
    ∀ (lead first trail : Blanks) (members : Members), UniqueNames members →
      ∀ pairs : Members, StringsOnly pairs → UniqueNames pairs → ∀ lead' first' trail' : Blanks,
        ReadsFields (Text.render ⟨lead, .object first members, trail⟩) members k ∧
          ReadsMap (Text.render ⟨lead', .object first' pairs, trail'⟩) pairs := by
  intro h
  have hunique : UniqueNames twoTokens := by
    unfold UniqueNames
    decide +kernel
  have hfield := (h (str "token") (by decide) .empty .empty .empty twoTokens hunique oneAnswer
    stringsOnly_oneAnswer (List.nodup_singleton _) .empty .empty .empty).1.1
  revert hfield
  decide +kernel

end ExamVan.Api
