import ExamVan.Lib.Decimal

/-!
# Connection strings

Settings `name=value`, with blanks between them. A value may stand in single quotes; a backslash
takes the byte behind it as it is. Settings that are written without quotes are read back exactly if
no value needs quotes.
-/

namespace Conninfo

open ByteString

abbrev Setting := Bytes × Bytes

/-! ### Reading -/

/-- A value without quotes, and the text behind the blank that ends it. -/
def unquoted : Bytes → Bytes × Bytes
  | [] => ([], [])
  | c :: s =>
      if isSpace c then ([], s)
      else if c = chr '\\' then
        match s with
        | [] => ([], [])
        | d :: s => (d :: (unquoted s).1, (unquoted s).2)
      else (c :: (unquoted s).1, (unquoted s).2)

/-- A value behind its quote; there has to be another one. -/
def quoted : Bytes → Option (Bytes × Bytes)
  | [] => none
  | c :: s =>
      if c = chr '\\' then
        match s with
        | [] => none
        | d :: s => (quoted s).map fun r => (d :: r.1, r.2)
      else if c = chr '\'' then some ([], s)
      else (quoted s).map fun r => (c :: r.1, r.2)

def readValue (s : Bytes) : Option (Bytes × Bytes) :=
  match s.dropWhile isSpace with
  | [] => some (unquoted [])
  | c :: t => if c = chr '\'' then quoted t else some (unquoted (c :: t))

/-- A name, and the text behind the equals sign. -/
def readName (s : Bytes) : Option (Bytes × Bytes) :=
  match (s.dropWhile fun c => !isSpace c && c ≠ chr '=').dropWhile isSpace with
  | c :: t => if c = chr '=' then some (s.takeWhile fun c => !isSpace c && c ≠ chr '=', t) else none
  | [] => none

/-- Every setting takes some of the text. -/
def parseFrom : Nat → Bytes → Option (List Setting)
  | 0, _ => some []
  | n + 1, s =>
      match s.dropWhile isSpace with
      | [] => some []
      | c :: t =>
          (readName (c :: t)).bind fun name =>
            (readValue name.2).bind fun value =>
              (parseFrom n value.2).map fun settings => (name.1, value.1) :: settings

def parse (s : Bytes) : Option (List Setting) := parseFrom s.length s

/-! ### Writing without quotes -/

def settingText (s : Setting) : Bytes := s.1 ++ chr '=' :: s.2

def render (settings : List Setting) : Bytes := [chr ' '].intercalate (settings.map settingText)

/-- A byte that is not always taken as it is. -/
def isSpecial (c : UInt8) : Bool := isSpace c || c = chr '\\' || c = chr '\''

def IsName (name : Bytes) : Prop := name ≠ [] ∧ ∀ c ∈ name, isSpecial c = false ∧ c ≠ chr '='

/-- A value that needs no quotes, unless it is empty. -/
def Plain (value : Bytes) : Prop :=
  (∀ c ∈ value, isSpace c = false ∧ c ≠ chr '\\') ∧ value.head? ≠ some (chr '\'')

/-- What may follow a value: nothing, or a blank and a name. -/
def Tail (s : Bytes) : Prop := s = [] ∨ ∃ c t, s = chr ' ' :: c :: t ∧ isSpecial c = false

variable {s t v w name rest : Bytes} {c : UInt8}

/-! ### Values -/

theorem unquoted_plain (hspace : isSpace c = false) (hback : c ≠ chr '\\') (s : Bytes) :
    unquoted (c :: s) = (c :: (unquoted s).1, (unquoted s).2) := by
  rw [unquoted.eq_def]
  simp [hspace, hback]

theorem unquoted_space (hspace : isSpace c = true) (s : Bytes) : unquoted (c :: s) = ([], s) := by
  rw [unquoted.eq_def]
  simp [hspace]

theorem unquoted_backslash (d : UInt8) (s : Bytes) :
    unquoted (chr '\\' :: d :: s) = (d :: (unquoted s).1, (unquoted s).2) := by
  rw [unquoted.eq_def]
  simp [isSpace, chr]

theorem quoted_plain (hquote : c ≠ chr '\'') (hback : c ≠ chr '\\') (s : Bytes) :
    quoted (c :: s) = (quoted s).map fun r => (c :: r.1, r.2) := by
  rw [quoted.eq_def]
  simp [hquote, hback]

theorem quoted_backslash (d : UInt8) (s : Bytes) :
    quoted (chr '\\' :: d :: s) = (quoted s).map fun r => (d :: r.1, r.2) := by
  rw [quoted.eq_def]
  simp

theorem quoted_quote (s : Bytes) : quoted (chr '\'' :: s) = some ([], s) := by
  rw [quoted.eq_def]
  simp [chr]

theorem isSpecial_eq_false : isSpecial c = false ↔ isSpace c = false ∧ c ≠ chr '\\' ∧ c ≠ chr '\'' := by
  simp [isSpecial, and_assoc]

/-- A list that begins with other bytes than it ends with has a special byte second. -/
theorem special_of_append {l b r : Bytes} {d e : UInt8} (hl : l ≠ [])
    (hspecial : ∀ c ∈ l, isSpecial c = true) (hb : ∀ c ∈ b.head?, isSpecial c = true)
    (h : d :: e :: r = l ++ b) : isSpecial e = true := by
  cases l with
  | nil => exact absurd rfl hl
  | cons a l =>
      have htail : e :: r = l ++ b := (List.cons.inj h).2
      cases l with
      | nil =>
          rw [List.nil_append] at htail
          exact hb e (by rw [← htail]; rfl)
      | cons a' l =>
          rw [(List.cons.inj htail).1]
          exact hspecial a' (by simp)

/-- The first byte that is read moves to the end of `l`. -/
theorem exists_rotate {l b out : Bytes} {c : UInt8} (hl : l ≠ []) (hspecial : ∀ d ∈ l, isSpecial d = true)
    (h : c :: out = l ++ b) : ∃ l', out = l' ++ b ∧ isSpecial c = true ∧ ∀ d ∈ l', isSpecial d = true := by
  cases l with
  | nil => exact absurd rfl hl
  | cons a l =>
      obtain ⟨rfl, hrest⟩ := List.cons.inj h
      rw [List.forall_mem_cons] at hspecial
      exact ⟨l, hrest, hspecial.1, hspecial.2⟩

theorem forall_special_append {l k : Bytes} (hl : ∀ d ∈ l, isSpecial d = true)
    (hk : ∀ d ∈ k, isSpecial d = true) : ∀ d ∈ l ++ k, isSpecial d = true := by
  intro d hd
  rcases List.mem_append.mp hd with hd | hd
  · exact hl d hd
  · exact hk d hd

theorem isSpecial_backslash : isSpecial (chr '\\') = true := by decide

/-- Once something special has been left out, the value cannot be what is read. -/
theorem unquoted_ne (ht : Tail t) (b : Bytes) {l : Bytes} (hl : l ≠ [])
    (hspecial : ∀ c ∈ l, isSpecial c = true) : (unquoted (b ++ t)).1 ≠ l ++ b := by
  intro heq
  match b with
  | [] =>
      rcases ht with rfl | ⟨d, u, rfl, -⟩
      · exact hl (List.append_eq_nil_iff.mp heq.symm).1
      · rw [List.nil_append, unquoted_space (by decide)] at heq
        exact hl (List.append_eq_nil_iff.mp heq.symm).1
  | [c] =>
      by_cases hspace : isSpace c = true
      · rw [List.singleton_append, unquoted_space hspace] at heq
        exact hl (List.append_eq_nil_iff.mp heq.symm).1
      · by_cases hback : c = chr '\\'
        · subst hback
          rcases ht with rfl | ⟨d, u, rfl, hd⟩
          · exact hl (List.append_eq_nil_iff.mp heq.symm).1
          · have hplain := isSpecial_eq_false.mp hd
            rw [List.singleton_append, unquoted_backslash, unquoted_plain hplain.1 hplain.2.1] at heq
            rw [special_of_append hl hspecial (by simpa using isSpecial_backslash) heq] at hd
            cases hd
        · rw [List.singleton_append, unquoted_plain (by simpa using hspace) hback] at heq
          obtain ⟨l', hout, hc, hl'⟩ := exists_rotate hl hspecial heq
          exact unquoted_ne ht [] (l := l' ++ [c]) (by simp) (forall_special_append hl' (by simpa using hc))
            (by rw [List.nil_append, hout, List.append_nil])
  | c :: d :: b =>
      by_cases hspace : isSpace c = true
      · rw [List.cons_append, unquoted_space hspace] at heq
        exact hl (List.append_eq_nil_iff.mp heq.symm).1
      · by_cases hback : c = chr '\\'
        · subst hback
          rw [List.cons_append, List.cons_append, unquoted_backslash] at heq
          obtain ⟨l', hout, hd, hl'⟩ := exists_rotate hl hspecial heq
          exact unquoted_ne ht b (l := l' ++ [chr '\\', d]) (by simp)
            (forall_special_append hl' (by simpa using ⟨isSpecial_backslash, hd⟩)) (by simpa using hout)
        · rw [List.cons_append, unquoted_plain (by simpa using hspace) hback] at heq
          obtain ⟨l', hout, hc, hl'⟩ := exists_rotate hl hspecial heq
          exact unquoted_ne ht (d :: b) (l := l' ++ [c]) (by simp)
            (forall_special_append hl' (by simpa using hc)) (by simpa using hout)
termination_by b.length

theorem quoted_ne (ht : Tail t) (b : Bytes) {l : Bytes} (hl : l ≠ [])
    (hspecial : ∀ c ∈ l, isSpecial c = true) (rest : Bytes) : quoted (b ++ t) ≠ some (l ++ b, rest) := by
  intro heq
  match b with
  | [] =>
      rcases ht with rfl | ⟨d, u, rfl, hd⟩
      · cases heq
      · have hplain := isSpecial_eq_false.mp hd
        rw [List.nil_append, quoted_plain (by decide) (by decide), quoted_plain hplain.2.2 hplain.2.1,
          Option.map_map, Option.map_eq_some_iff] at heq
        obtain ⟨r, -, hr⟩ := heq
        rw [special_of_append hl hspecial (b := []) (by simp) (Prod.mk.inj hr).1] at hd
        cases hd
  | [c] =>
      by_cases hback : c = chr '\\'
      · subst hback
        rcases ht with rfl | ⟨d, u, rfl, hd⟩
        · cases heq
        · have hplain := isSpecial_eq_false.mp hd
          rw [List.singleton_append, quoted_backslash, quoted_plain hplain.2.2 hplain.2.1, Option.map_map,
            Option.map_eq_some_iff] at heq
          obtain ⟨r, -, hr⟩ := heq
          rw [special_of_append hl hspecial (by simpa using isSpecial_backslash) (Prod.mk.inj hr).1] at hd
          cases hd
      · by_cases hquote : c = chr '\''
        · rw [hquote, List.singleton_append, quoted_quote] at heq
          exact hl (List.append_eq_nil_iff.mp (Prod.mk.inj (Option.some.inj heq)).1.symm).1
        · rw [List.singleton_append, quoted_plain hquote hback, Option.map_eq_some_iff] at heq
          obtain ⟨r, hr, hpair⟩ := heq
          obtain ⟨l', hout, hc, hl'⟩ := exists_rotate hl hspecial (Prod.mk.inj hpair).1
          refine quoted_ne ht [] (l := l' ++ [c]) (by simp) (forall_special_append hl' (by simpa using hc)) r.2 ?_
          rw [List.nil_append, hr, List.append_nil, ← hout]
  | c :: d :: b =>
      by_cases hback : c = chr '\\'
      · subst hback
        rw [List.cons_append, List.cons_append, quoted_backslash, Option.map_eq_some_iff] at heq
        obtain ⟨r, hr, hpair⟩ := heq
        obtain ⟨l', hout, hd, hl'⟩ := exists_rotate hl hspecial (Prod.mk.inj hpair).1
        refine quoted_ne ht b (l := l' ++ [chr '\\', d]) (by simp)
          (forall_special_append hl' (by simpa using ⟨isSpecial_backslash, hd⟩)) r.2 ?_
        rw [hr, List.append_assoc]
        exact congrArg (fun o => some (o, r.2)) hout
      · by_cases hquote : c = chr '\''
        · rw [hquote, List.cons_append, quoted_quote] at heq
          exact hl (List.append_eq_nil_iff.mp (Prod.mk.inj (Option.some.inj heq)).1.symm).1
        · rw [List.cons_append, quoted_plain hquote hback, Option.map_eq_some_iff] at heq
          obtain ⟨r, hr, hpair⟩ := heq
          obtain ⟨l', hout, hc, hl'⟩ := exists_rotate hl hspecial (Prod.mk.inj hpair).1
          refine quoted_ne ht (d :: b) (l := l' ++ [c]) (by simp)
            (forall_special_append hl' (by simpa using hc)) r.2 ?_
          rw [hr, List.append_assoc]
          exact congrArg (fun o => some (o, r.2)) hout
termination_by b.length

theorem unquoted_tail (ht : Tail t) : unquoted t = ([], t.tail) := by
  rcases ht with rfl | ⟨d, u, rfl, -⟩
  · rfl
  · exact unquoted_space (by decide) _

/-- A value is read as itself if there is neither a blank nor a backslash in it. -/
theorem unquoted_eq_iff (ht : Tail t) (v rest : Bytes) : unquoted (v ++ t) = (v, rest) ↔
    (∀ c ∈ v, isSpace c = false ∧ c ≠ chr '\\') ∧ rest = t.tail := by
  induction v with
  | nil =>
      rw [List.nil_append, unquoted_tail ht, Prod.mk.injEq, and_iff_right rfl,
        and_iff_right fun c hc => by cases hc]
      exact eq_comm
  | cons c v ih =>
      rw [List.forall_mem_cons, List.cons_append]
      by_cases hspace : isSpace c = true
      · rw [unquoted_space hspace, hspace]
        simp
      · by_cases hback : c = chr '\\'
        · refine iff_of_false (fun heq => ?_) fun h => h.1.1.2 hback
          subst hback
          cases v with
          | nil =>
              rcases ht with rfl | ⟨d, u, rfl, hd⟩
              · cases heq
              · rw [List.nil_append, unquoted_backslash] at heq
                revert heq
                simp [chr]
          | cons d v =>
              rw [List.cons_append, unquoted_backslash] at heq
              obtain ⟨hd, hrest⟩ := List.cons.inj (Prod.mk.inj heq).1
              exact unquoted_ne ht v (l := [d]) (by simp)
                (by rw [hd]; simpa using isSpecial_backslash) hrest
        · rw [Bool.not_eq_true] at hspace
          have hnow : isSpace c = false ∧ c ≠ chr '\\' := ⟨hspace, hback⟩
          have hpair : (c :: (unquoted (v ++ t)).1, (unquoted (v ++ t)).2) = (c :: v, rest) ↔
              unquoted (v ++ t) = (v, rest) := by simp [Prod.ext_iff]
          rw [unquoted_plain hspace hback, hpair, ih, and_iff_right hnow]

theorem dropWhile_tail (ht : Tail t) (hne : t ≠ []) : ∃ d u, t.dropWhile isSpace = d :: u ∧
    isSpecial d = false := by
  rcases ht with rfl | ⟨d, u, rfl, hd⟩
  · exact absurd rfl hne
  · refine ⟨d, u, ?_, hd⟩
    rw [List.dropWhile_cons_of_pos (by decide),
      List.dropWhile_cons_of_neg (by simp [(isSpecial_eq_false.mp hd).1])]

/-- Only a plain value is read as itself, and an empty one only at the end. -/
theorem readValue_eq_iff (ht : Tail t) (v rest : Bytes) : readValue (v ++ t) = some (v, rest) ↔
    Plain v ∧ (v = [] → t = []) ∧ rest = t.tail := by
  have hsplit := List.takeWhile_append_dropWhile (p := isSpace) (l := v)
  have hblank : ∀ c ∈ v.takeWhile isSpace, isSpace c = true := fun c hc => List.mem_takeWhile_imp hc
  have hspecial : ∀ c ∈ v.takeWhile isSpace, isSpecial c = true := by
    intro c hc
    simp [isSpecial, hblank c hc]
  cases hrest : v.dropWhile isSpace with
  | nil =>
      rw [hrest, List.append_nil] at hsplit
      have hall : ∀ c ∈ v, isSpace c = true := by rwa [hsplit] at hblank
      have hdrop : (v ++ t).dropWhile isSpace = t.dropWhile isSpace :=
        List.dropWhile_append_of_pos hall
      rw [readValue, hdrop]
      by_cases hnil : t = []
      · subst hnil
        rw [List.dropWhile_nil]
        constructor
        · intro heq
          obtain ⟨rfl, rfl⟩ := Prod.mk.inj (Option.some.inj heq)
          exact ⟨⟨by simp, by simp⟩, fun _ => rfl, rfl⟩
        · rintro ⟨hplain, -, rfl⟩
          cases v with
          | nil => rfl
          | cons c v =>
              have hno := (hplain.1 c List.mem_cons_self).1
              rw [hall c List.mem_cons_self] at hno
              cases hno
      · obtain ⟨d, u, hd, hname⟩ := dropWhile_tail ht hnil
        have hd' := isSpecial_eq_false.mp hname
        rw [hd]
        simp only [if_neg hd'.2.2]
        rw [unquoted_plain hd'.1 hd'.2.1]
        refine iff_of_false (fun heq => ?_) fun h => hnil (h.2.1 ?_)
        · have hv := (Prod.mk.inj (Option.some.inj heq)).1
          have hspace := hall d (by rw [← hv]; exact List.mem_cons_self)
          rw [hd'.1] at hspace
          cases hspace
        · cases v with
          | nil => rfl
          | cons c v =>
              have hno := (h.1.1 c List.mem_cons_self).1
              rw [hall c List.mem_cons_self] at hno
              cases hno
  | cons c w =>
      have hc : isSpace c = false := by
        have hfirst := List.head?_dropWhile_not isSpace v
        rw [hrest] at hfirst
        simpa using hfirst
      have hdrop : (v ++ t).dropWhile isSpace = c :: (w ++ t) := by
        rw [List.dropWhile_append, hrest]
        rfl
      have hv : v = v.takeWhile isSpace ++ c :: w := by rw [← hrest, hsplit]
      rw [readValue, hdrop]
      by_cases hquote : c = chr '\''
      · simp only [if_pos hquote]
        refine iff_of_false (fun heq => ?_) fun h => ?_
        · refine quoted_ne ht w (l := v.takeWhile isSpace ++ [c]) (by simp)
            (forall_special_append hspecial (by simp [isSpecial, hquote])) rest ?_
          rw [heq, List.append_assoc]
          exact congrArg (fun o => some (o, rest)) hv
        · have hnone : v.takeWhile isSpace = [] := by
            rw [List.takeWhile_eq_nil_iff]
            intro hpos
            simp [(h.1.1 _ (List.getElem_mem hpos)).1]
          rw [hnone] at hv
          exact h.1.2 (by rw [hv, hquote]; rfl)
      · simp only [if_neg hquote, Option.some.injEq]
        by_cases hnone : v.takeWhile isSpace = []
        · rw [hnone, List.nil_append] at hv
          have hhead : v.head? ≠ some (chr '\'') := by
            rw [hv]
            simpa using hquote
          rw [← List.cons_append, ← hv, unquoted_eq_iff ht]
          constructor
          · rintro ⟨hall, hend⟩
            refine ⟨⟨hall, hhead⟩, fun hnil => ?_, hend⟩
            rw [hnil] at hv
            cases hv
          · rintro ⟨⟨hall, -⟩, -, hend⟩
            exact ⟨hall, hend⟩
        · refine iff_of_false (fun heq => ?_) fun h => ?_
          · refine unquoted_ne ht (c :: w) hnone hspecial ?_
            rw [← hv, List.cons_append, heq]
          · refine hnone ?_
            rw [List.takeWhile_eq_nil_iff]
            intro hpos
            simp [(h.1.1 _ (List.getElem_mem hpos)).1]

/-! ### Settings -/

theorem length_unquoted (s : Bytes) : (unquoted s).2.length ≤ s.length := by
  induction s using unquoted.induct with
  | case1 => exact le_rfl
  | case2 c s hspace => simp [unquoted_space hspace]
  | case3 => exact Nat.zero_le _
  | case4 d s hspace ih =>
      rw [unquoted_backslash]
      simp only [List.length_cons]
      omega
  | case5 c s hspace hback ih =>
      rw [unquoted_plain (by simpa using hspace) hback]
      simp only [List.length_cons]
      omega

theorem length_quoted {r : Bytes × Bytes} (h : quoted s = some r) : r.2.length ≤ s.length := by
  induction s using quoted.induct generalizing r with
  | case1 => cases h
  | case2 => cases h
  | case3 d s ih =>
      rw [quoted_backslash, Option.map_eq_some_iff] at h
      obtain ⟨r', hr, rfl⟩ := h
      have := ih hr
      simp only [List.length_cons]
      omega
  | case4 s hback =>
      rw [quoted_quote] at h
      cases h
      simp
  | case5 c s hback hquote ih =>
      rw [quoted_plain hquote hback, Option.map_eq_some_iff] at h
      obtain ⟨r', hr, rfl⟩ := h
      have := ih hr
      simp only [List.length_cons]
      omega

theorem length_readValue {r : Bytes × Bytes} (h : readValue s = some r) : r.2.length ≤ s.length := by
  have hdrop : (s.dropWhile isSpace).length ≤ s.length := (List.dropWhile_suffix isSpace).length_le
  rw [readValue] at h
  split at h
  · cases h
    exact Nat.zero_le _
  · next c t heq =>
    rw [heq, List.length_cons] at hdrop
    split at h
    · have := length_quoted h
      omega
    · cases h
      have := length_unquoted (c :: t)
      rw [List.length_cons] at this
      omega

theorem length_readName {r : Bytes × Bytes} (h : readName s = some r) : r.2.length < s.length := by
  have hname : (s.dropWhile fun c => !isSpace c && c ≠ chr '=').length ≤ s.length :=
    (List.dropWhile_suffix _).length_le
  have hblank := (List.dropWhile_suffix isSpace (l := s.dropWhile fun c => !isSpace c && c ≠ chr '=')).length_le
  rw [readName] at h
  split at h
  · next c t heq =>
    rw [heq, List.length_cons] at hblank
    split at h
    · cases h
      simp only
      omega
    · cases h
  · cases h

theorem parseFrom_eq_parse {n : Nat} (hn : s.length ≤ n) : parseFrom n s = parse s := by
  have hfuel : ∀ m n : Nat, ∀ s : Bytes, s.length ≤ m → s.length ≤ n → parseFrom m s = parseFrom n s := by
    intro m
    induction m with
    | zero =>
        intro n s hm _
        obtain rfl := List.length_eq_zero_iff.mp (Nat.le_zero.mp hm)
        cases n <;> rfl
    | succ m ih =>
        intro n s hm hn
        cases n with
        | zero =>
            obtain rfl := List.length_eq_zero_iff.mp (Nat.le_zero.mp hn)
            rfl
        | succ n =>
            have hdrop : (s.dropWhile isSpace).length ≤ s.length := (List.dropWhile_suffix isSpace).length_le
            rw [parseFrom, parseFrom]
            split
            · rfl
            · next c t heq =>
              rw [heq] at hdrop
              refine Option.bind_congr fun name hname => Option.bind_congr fun value hvalue => ?_
              have hshort := length_readName hname
              have hrest := length_readValue hvalue
              rw [ih n value.2 (by omega) (by omega)]
  exact hfuel n s.length s hn le_rfl

/-- What follows a setting. -/
def tailText (settings : List Setting) : Bytes :=
  if settings = [] then [] else chr ' ' :: render settings

variable {settings expected : List Setting} {key value : Bytes}

theorem render_cons (setting : Setting) (settings : List Setting) :
    render (setting :: settings) = setting.1 ++ chr '=' :: (setting.2 ++ tailText settings) := by
  cases settings with
  | nil => simp [render, settingText, tailText]
  | cons next settings =>
      rw [render, List.map_cons, List.intercalate_cons_of_ne_nil (by simp), settingText, tailText,
        if_neg (List.cons_ne_nil _ _)]
      simp [render]

theorem tail_tailText (hnames : ∀ s ∈ settings, IsName s.1) : Tail (tailText settings) := by
  cases settings with
  | nil => exact .inl rfl
  | cons s settings =>
      obtain ⟨hne, hall⟩ := hnames s List.mem_cons_self
      rw [tailText, if_neg (List.cons_ne_nil _ _), render_cons]
      cases hkey : s.1 with
      | nil => exact absurd hkey hne
      | cons c key =>
          rw [hkey] at hall
          exact .inr ⟨c, _, rfl, (hall c List.mem_cons_self).1⟩

theorem tail_tailText_eq (settings : List Setting) : (tailText settings).tail = render settings := by
  cases settings with
  | nil => rfl
  | cons s settings => rw [tailText, if_neg (List.cons_ne_nil _ _), List.tail_cons]

theorem parse_render_cons (hkey : IsName key) (value : Bytes) (settings : List Setting) :
    parse (render ((key, value) :: settings)) =
      (readValue (value ++ tailText settings)).bind fun r =>
        (parse r.2).map fun settings => (key, r.1) :: settings := by
  obtain ⟨hne, hall⟩ := hkey
  have hbyte : ∀ c ∈ key, isSpace c = false ∧ c ≠ chr '=' := fun c hc =>
    ⟨(isSpecial_eq_false.mp (hall c hc).1).1, (hall c hc).2⟩
  have htext := render_cons (key, value) settings
  have hname : readName (render ((key, value) :: settings)) = some (key, value ++ tailText settings) := by
    have hkept : ∀ c ∈ key, (!isSpace c && decide (c ≠ chr '=')) = true := by
      intro c hc
      simp [hbyte c hc]
    rw [htext, readName, List.dropWhile_append_of_pos hkept, List.takeWhile_append_of_pos hkept,
      List.dropWhile_cons_of_neg (by decide), List.takeWhile_cons_of_neg (by decide), List.append_nil,
      List.dropWhile_cons_of_neg (by decide)]
    exact if_pos rfl
  obtain ⟨c, rest, hcons, hc⟩ : ∃ c rest, render ((key, value) :: settings) = c :: rest ∧
      isSpace c = false := by
    cases key with
    | nil => exact absurd rfl hne
    | cons c key => exact ⟨c, _, htext, (hbyte c List.mem_cons_self).1⟩
  have hshort := length_readName hname
  rw [hcons] at hname hshort
  rw [parse, hcons, List.length_cons, parseFrom, List.dropWhile_cons_of_neg (by simp [hc])]
  simp only [hname, Option.bind_some]
  refine Option.bind_congr fun r hr => ?_
  have hrest := length_readValue hr
  rw [List.length_cons] at hshort
  rw [parseFrom_eq_parse (by simp only at hshort; omega)]

/-- The first setting is read as it is if its value is plain, and empty only at the end. -/
theorem parse_cons_iff (hkey : IsName key) (hnames : ∀ s ∈ settings, IsName s.1) (k : Bytes) :
    parse (render ((key, value) :: settings)) = some ((k, value) :: expected) ↔
      k = key ∧ (Plain value ∧ (value = [] → settings = [])) ∧ parse (render settings) = some expected := by
  have htail := tail_tailText hnames
  have hnil : tailText settings = [] ↔ settings = [] := by
    rw [tailText]
    split <;> simp_all
  rw [parse_render_cons hkey, Option.bind_eq_some_iff]
  constructor
  · rintro ⟨⟨read, rest⟩, hread, hmap⟩
    obtain ⟨more, hmore, hcons⟩ := Option.map_eq_some_iff.mp hmap
    obtain ⟨hhead, rfl⟩ := List.cons.inj hcons
    obtain ⟨rfl, rfl⟩ := Prod.mk.inj hhead
    obtain ⟨hplain, hempty, hrest⟩ := (readValue_eq_iff htail _ _).mp hread
    refine ⟨rfl, ⟨hplain, fun h => hnil.mp (hempty h)⟩, ?_⟩
    rwa [hrest, tail_tailText_eq] at hmore
  · rintro ⟨rfl, ⟨hplain, hempty⟩, hmore⟩
    refine ⟨_, (readValue_eq_iff htail value _).mpr ⟨hplain, fun h => hnil.mpr (hempty h), rfl⟩, ?_⟩
    rw [tail_tailText_eq, hmore]
    rfl

/-- A plain value in front of whatever else there is to read. -/
theorem parse_cons_of_plain (hkey : IsName key) (hnames : ∀ s ∈ settings, IsName s.1)
    (hplain : Plain value) (hempty : value = [] → settings = []) :
    parse (render ((key, value) :: settings)) =
      (parse (render settings)).map fun more => (key, value) :: more := by
  have hnil : value = [] → tailText settings = [] := by
    intro h
    rw [hempty h]
    rfl
  have hread := (readValue_eq_iff (tail_tailText hnames) value _).mpr ⟨hplain, hnil, rfl⟩
  rw [parse_render_cons hkey, hread, Option.bind_some, tail_tailText_eq]

theorem plain_nil : Plain [] := ⟨by simp, by simp⟩

/-- No setting that is read has an empty name. -/
theorem ne_nil_of_parse (hnames : ∀ s ∈ settings, IsName s.1)
    (h : parse (render settings) = some ((key, value) :: expected)) : key ≠ [] := by
  cases settings with
  | nil => cases h
  | cons s settings =>
      have hs := hnames s List.mem_cons_self
      rw [parse_render_cons hs, Option.bind_eq_some_iff] at h
      obtain ⟨r, -, hmap⟩ := h
      obtain ⟨more, -, hcons⟩ := Option.map_eq_some_iff.mp hmap
      rw [← (Prod.mk.inj (List.cons.inj hcons).1).1]
      exact hs.1

end Conninfo
