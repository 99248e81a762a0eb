import ExamVan.Admin.Packages
import ExamVan.Models.Roles

/-!
# What is read of a package

The object of a package is a JSON object with a member for each column. Its numbers are found outside
of strings. Its key, its label and its role are found behind the first place of a quoted name, which
may be the end of another string.
-/

namespace ExamVan.Admin

open ByteString JsonText Api Models
open Queue (Hits PlainName escapeByte escapeByte_cases escapeByte_eq_self_iff escapeByte_of_unescaped
  escapedPieces findSub_quoted jsonEscape needle noNameHead_cons quoted quoted_append)
open Middleware (Behind isLiteral getD_or_ite)

/-! ### Escapes without their backslash -/

/-- What is left of a byte after `json_escape` and a reader that drops backslashes: of a control
character the letters of its escape. -/
def letters (c : UInt8) : Bytes := if c < 0x20 then (escapeByte c).tail else [c]

def spelledOut (s : Bytes) : Bytes := s.flatMap letters

theorem visible_letters : ∀ c d : UInt8, d ∈ letters c → 0x20 ≤ d := by
  have hall : ∀ c : UInt8, ∀ d ∈ letters c, 0x20 ≤ d := by
    refine forall_byte ?_
    decide
  exact hall

theorem visible_spelledOut {s : Bytes} {c : UInt8} (h : c ∈ spelledOut s) : 0x20 ≤ c := by
  obtain ⟨b, -, hc⟩ := List.mem_flatMap.mp h
  exact visible_letters b c hc

theorem spelledOut_of_visible {s : Bytes} (h : ∀ c ∈ s, 0x20 ≤ c) : spelledOut s = s := by
  induction s with
  | nil => rfl
  | cons c s ih =>
      obtain ⟨hc, hs⟩ := List.forall_mem_cons.mp h
      rw [spelledOut, List.flatMap_cons, letters, if_neg (not_lt.mpr hc), ← spelledOut, ih hs]
      rfl

/-- A text comes through as it is exactly if no control character is in it. -/
theorem spelledOut_eq_self_iff {s : Bytes} : spelledOut s = s ↔ ∀ c ∈ s, 0x20 ≤ c :=
  ⟨fun h _ hc => visible_spelledOut (h.symm ▸ hc), spelledOut_of_visible⟩

theorem dropped_plain {x t w : Bytes} (hquote : chr '"' ∉ w) (hback : chr '\\' ∉ w)
    (h : Dropped x t) : Dropped (w ++ x) (w ++ t) := by
  induction w with
  | nil => exact h
  | cons c w ih =>
      rw [List.mem_cons, not_or] at hquote hback
      exact .plain (Ne.symm hback.1) (Ne.symm hquote.1) (ih hquote.2 hback.2)

theorem dropped_escapeByte (c : UInt8) {x t : Bytes} (h : Dropped x t) :
    Dropped (escapeByte c ++ x) (letters c ++ t) := by
  rcases escapeByte_cases c with ⟨hself, hquote, hback⟩ | ⟨d, w, hesc, hquote, hback, -⟩
  · have hhigh : ¬ c < 0x20 := not_lt.mpr (escapeByte_eq_self_iff.mp hself).2.2
    rw [hself, letters, if_neg hhigh]
    exact h.plain hback hquote
  · by_cases hlow : c < 0x20
    · rw [hesc, letters, if_pos hlow, hesc]
      exact (dropped_plain hquote hback h).escape
    · have hself : c = chr '"' ∨ c = chr '\\' := by
        by_contra hne
        push Not at hne
        rw [escapeByte_of_unescaped hne.1 hne.2 (not_lt.mp hlow)] at hesc
        cases hesc
      rw [letters, if_neg hlow]
      rcases hself with rfl | rfl <;> exact h.escape

theorem dropped_jsonEscape (s : Bytes) : Dropped (jsonEscape s) (spelledOut s) := by
  induction s with
  | nil => exact .nil
  | cons c s ih => exact dropped_escapeByte c ih

theorem stringNext_quoted (s t : Bytes) : StringNext (quoted s ++ t) (spelledOut s) := by
  refine ⟨jsonEscape s, t, ?_, dropped_jsonEscape s⟩
  rw [quoted_append, List.dropWhile_cons_of_neg (by decide)]

/-! ### Numbers -/

def natDigits (n : Nat) : Digits := ⟨natText n, fun _ h => isDigit_of_mem_natText h, natText_ne_nil n⟩

theorem length_natText_of_zero {n : Nat} (h : (natText n).head? = some (chr '0')) :
    (natText n).length = 1 := by
  by_cases hzero : n = 0
  · rw [natText, if_pos hzero]
    rfl
  · exfalso
    have hne : Nat.digits 10 n ≠ [] := Nat.digits_ne_nil_iff_ne_zero.mpr hzero
    have hlast := Nat.getLast_digit_ne_zero 10 hzero
    have hlt : (Nat.digits 10 n).getLast hne < 10 :=
      Nat.digits_lt_base (by norm_num) (List.getLast_mem hne)
    rw [natText, if_neg hzero, List.head?_map, List.head?_reverse,
      List.getLast?_eq_getLast_of_ne_nil hne, Option.map_some, Option.some_inj] at h
    have hvalue := congrArg UInt8.toNat h
    rw [digitByte_toNat hlt] at hvalue
    have hchr : (chr '0').toNat = 48 := by decide
    omega

def natNumber (n : Nat) : Value :=
  .literal (.number ⟨false, natDigits n, length_natText_of_zero, none, none⟩)

def hundredthsDigits (n : Nat) : Digits where
  text := [48 + UInt8.ofNat (n / 10 % 10), 48 + UInt8.ofNat (n % 10)]
  isDigit := by
    intro c hc
    rcases List.mem_pair.mp hc with rfl | rfl <;> exact isDigit_digitByte (Nat.mod_lt _ (by decide))
  ne_nil := List.cons_ne_nil _ _

def hundredthsNumber (n : Nat) : Value :=
  .literal (.number ⟨false, natDigits (n / 100), length_natText_of_zero, some (hundredthsDigits n),
    none⟩)

/-! ### A scalar outside of strings -/

theorem takeWhile_append_of_mem {p : UInt8 → Bool} {w : Bytes} (h : ∃ c ∈ w, p c = false) (t : Bytes) :
    (w ++ t).takeWhile p = w.takeWhile p := by
  induction w with
  | nil =>
      obtain ⟨c, hc, -⟩ := h
      cases hc
  | cons b w ih =>
      by_cases hb : p b = true
      · obtain ⟨c, hc, hno⟩ := h
        have hw : c ∈ w := by
          refine (List.mem_cons.mp hc).resolve_left ?_
          rintro rfl
          rw [hb] at hno
          cases hno
        rw [List.cons_append, List.takeWhile_cons_of_pos hb, List.takeWhile_cons_of_pos hb,
          ih ⟨c, hw, hno⟩]
      · rw [List.cons_append, List.takeWhile_cons_of_neg hb, List.takeWhile_cons_of_neg hb]

/-- Where an unquoted scalar goes on. -/
def inScalar (c : UInt8) : Bool := !(c = chr ',' || c = chr '\x7d' || c = chr ']')

theorem inScalar_literal (l : Literal) : ∀ c ∈ l.text, inScalar c = true := by
  intro c hc
  have hno := (isWord_literal l c hc).2
  have hne : ∀ e ∈ str ",\x7d]", c ≠ e := fun e he heq => hno
    (heq ▸ (by decide : ∀ e ∈ str ",\x7d]", e ∈ str "\"[]\x7b\x7d,") e he)
  simp [inScalar, hne (chr ',') (by decide), hne (chr '\x7d') (by decide), hne (chr ']') (by decide)]

theorem inScalar_blanks (w : Blanks) : ∀ c ∈ w.text, inScalar c = true := by
  intro c hc
  rcases isBlank_cases (w.isBlank c hc) with rfl | rfl | rfl | rfl <;> decide

theorem rdropWhile_literal (l : Literal) (w : Blanks) :
    (l.text ++ w.text).rdropWhile isBlank = l.text := by
  have hlast : ∀ c ∈ l.text, isBlank c = false := fun c hc => (isWord_literal l c hc).1
  rw [rdropWhile_append_of_pos w.isBlank, List.rdropWhile]
  have hself : l.text.reverse.dropWhile isBlank = l.text.reverse := by
    cases hrev : l.text.reverse with
    | nil => rfl
    | cons c s =>
        have hmem : c ∈ l.text := List.mem_reverse.mp (hrev ▸ List.mem_cons_self)
        exact List.dropWhile_cons_of_neg (by simp [hlast c hmem])
  rw [hself, List.reverse_reverse]

theorem rawScalarAt_literal (l : Literal) (w : Blanks) {t : Bytes}
    (ht : ∀ c ∈ t.head?, inScalar c = false) :
    rawScalarAt (l.text ++ (w.text ++ t)) = l.text := by
  obtain ⟨c, s, hl⟩ := List.exists_cons_of_ne_nil (literal_ne_nil l)
  have hquote : c ≠ chr '"' := fun h =>
    (isWord_literal l c (hl ▸ List.mem_cons_self)).2 (h ▸ by decide)
  have htake : (l.text ++ (w.text ++ t)).takeWhile inScalar = l.text ++ w.text := by
    rw [← List.append_assoc, List.takeWhile_append_of_pos fun c hc =>
      (List.mem_append.mp hc).elim (inScalar_literal l c) (inScalar_blanks w c)]
    cases t with
    | nil => simp
    | cons d t => rw [List.takeWhile_cons_of_neg (by simp [ht d rfl]), List.append_nil]
  calc rawScalarAt (l.text ++ (w.text ++ t))
      = ((l.text ++ (w.text ++ t)).takeWhile inScalar).rdropWhile isBlank := by
        rw [hl, List.cons_append, rawScalarAt, if_neg hquote, Queue.queueIsBlank_eq]
        rfl
    _ = l.text := by rw [htake, rdropWhile_literal]

theorem rawScalarAt_value (v : Value) (post : Blanks) {c : UInt8} (hc : c = chr ',' ∨ c = chr '\x7d')
    (t : Bytes) : rawScalarAt (v.render ++ (post.text ++ c :: t)) = rawScalarAt v.render := by
  have hbracket : ∀ (o e : UInt8) (w x : Bytes), o ≠ chr '"' → inScalar e = false →
      rawScalarAt (o :: (w ++ [e]) ++ x) = rawScalarAt (o :: (w ++ [e])) := by
    intro o e w x ho he
    have htake := takeWhile_append_of_mem (p := inScalar) (w := o :: (w ++ [e])) ⟨e, by simp, he⟩ x
    rw [List.cons_append, rawScalarAt, rawScalarAt, if_neg ho, if_neg ho, Queue.queueIsBlank_eq]
    exact congrArg (List.rdropWhile isBlank) htake
  cases v with
  | literal l =>
      have hself := rawScalarAt_literal l .empty (t := []) nofun
      rw [Blanks.text_empty, List.append_nil, List.append_nil] at hself
      rw [Value.render, hself]
      refine rawScalarAt_literal l post fun d hd => ?_
      obtain rfl : c = d := by simpa using hd
      rcases hc with rfl | rfl <;> decide
  | string s =>
      have hquoted : ∀ x, rawScalarAt (stringText s ++ x) = raw s := by
        intro x
        have htext : stringText s ++ x = chr '"' :: (raw s ++ chr '"' :: x) := by simp [stringText]
        rw [htext, rawScalarAt, if_pos rfl, Queue.scanString_raw]
      have hself := hquoted []
      rw [List.append_nil] at hself
      rw [Value.render, hself, hquoted]
  | array lead items =>
      rw [Value.render]
      exact hbracket _ _ _ _ (by decide) (by decide)
  | object lead members =>
      rw [Value.render]
      exact hbracket _ _ _ _ (by decide) (by decide)

/-- In a JSON text `json_raw_scalar` takes the first member that is spelled so. -/
theorem jsonRawScalar_render {k : Bytes} (hk : chr '"' ∉ k ∧ chr '\\' ∉ k) (q : Text) :
    jsonRawScalar q.render k =
      ((q.v.first fun name => raw name = k).map fun v => rawScalarAt v.render).getD [] := by
  have hsearch : searchFrom (valueBehind fun s => some (rawScalarAt s)) k false false q.render =
      q.v.search (fun name => raw name = k) fun v _ => some (rawScalarAt v.render) :=
    searchFrom_render hk (fun t ht => valueBehind_of_not_colonNext ht)
      (fun mid gap v post c t hc => by rw [valueBehind_value, rawScalarAt_value v post hc]) q
  have hmap := q.v.search_map (p := fun name => raw name = k) (fun v _ => some v)
    fun v => rawScalarAt v.render
  rw [jsonRawScalar, memberFrom_eq, hsearch, Value.first, ← hmap]
  rfl

/-! ### The object -/

/-- A JSON array of role names. -/
def IsRoles (role : Bytes) : Prop :=
  ∃ lead items, role = (Value.array lead items).render ∧
    ∀ v ∈ items.values, ∃ s, v = .string s ∧ ∃ r : Role, decode s = r.name

/-- What a row is allowed to have in its columns. -/
structure Package.Valid (p : Package) : Prop where
  key : p.key ≠ []
  maxExams : 0 ≤ p.maxExams.toInt
  maxPdfSize : 0 ≤ p.maxPdfSize.toInt
  maxConcurrentExams : 0 ≤ p.maxConcurrentExams.toInt
  maxStorageSize : 0 ≤ p.maxStorageSize.toInt
  maxUsers : 0 ≤ p.maxUsers.toInt
  role : p.role = [] ∨ IsRoles p.role

def roleText (p : Package) : Bytes := if p.role = [] then str "[]" else p.role

/-- The hundredths of a megabyte that the list shows. -/
def hundredths (size : Int) : Nat := (roundEven (nearest size / 1048576 * 100)).toNat

/-- The bytes that are read of so many hundredths of a megabyte. -/
def ofHundredths (k : Nat) : Int := ⌊nearest (k / 100) * 1024 * 1024⌋

def packageFields (p : Package) (lead : Blanks) (items : Items) : List (List Piece × Value) :=
  [(escapedPieces (str "key"), .string (escapedPieces p.key)),
    (escapedPieces (str "label"), .string (escapedPieces p.label)),
    (escapedPieces (str "max_exams"), natNumber p.maxExams.toInt.natAbs),
    (escapedPieces (str "max_pdf_size_mb"), hundredthsNumber (hundredths p.maxPdfSize.toInt)),
    (escapedPieces (str "max_concurrent_exams"), natNumber p.maxConcurrentExams.toInt.natAbs),
    (escapedPieces (str "max_storage_mb"), hundredthsNumber (hundredths p.maxStorageSize.toInt)),
    (escapedPieces (str "max_users"), natNumber p.maxUsers.toInt.natAbs),
    (escapedPieces (str "role"), .array lead items)]

theorem render_natNumber {n : Int} (h : 0 ≤ n) : (natNumber n.natAbs).render = intText n := by
  rw [intText, if_neg (not_lt.mpr h)]
  simp [natNumber, Value.render, Literal.text, Number.text, natDigits]

theorem nearest_megabytes_nonneg {n : Int} (h : 0 ≤ n) : 0 ≤ nearest (n : ℚ) / 1048576 := by
  have hn := nearest_nonneg (x := (n : ℚ)) (by exact_mod_cast h)
  positivity

theorem render_hundredths {size : Int64} (h : 0 ≤ size.toInt) :
    (hundredthsNumber (hundredths size.toInt)).render = megabytes size := by
  have hx := nearest_megabytes_nonneg h
  rw [megabytes, fixedTwo, if_neg (not_lt.mpr hx), abs_of_nonneg hx, ← hundredths]
  simp [hundredthsNumber, Value.render, Literal.text, Number.text, natDigits, hundredthsDigits]

theorem packageObject_eq {p : Package} (hp : p.Valid) {lead : Blanks} {items : Items}
    (hrole : roleText p = (Value.array lead items).render) :
    packageObject p = (Value.object .empty (.compact (packageFields p lead items))).render := by
  have hstring : ∀ s : Bytes, stringText (escapedPieces s) = quoted s := Queue.stringText_escapedPieces
  have hname : ∀ m ∈ ["key", "label", "max_exams", "max_pdf_size_mb", "max_concurrent_exams",
      "max_storage_mb", "max_users", "role"], quoted (str m) = chr '"' :: (str m ++ [chr '"']) := by
    decide +kernel
  simp only [List.forall_mem_cons] at hname
  obtain ⟨h₁, h₂, h₃, h₄, h₅, h₆, h₇, h₈, -⟩ := hname
  rw [Value.render] at hrole
  simp only [Value.render, packageFields, Members.compact, Members.render, hstring,
    render_natNumber hp.maxExams, render_natNumber hp.maxConcurrentExams, render_natNumber hp.maxUsers,
    render_hundredths hp.maxPdfSize, render_hundredths hp.maxStorageSize, Blanks.text_empty, comma,
    ← hrole, h₁, h₂, h₃, h₄, h₅, h₆, h₇, h₈]
  rw [packageObject, ← roleText, quoted, quoted]
  simp [str, chr]

/-! ### The numbers -/

theorem exists_roleText {p : Package} (hp : p.Valid) :
    ∃ lead items, roleText p = (Value.array lead items).render ∧
      ∀ v ∈ items.values, ∃ s, v = .string s ∧ ∃ r : Role, decode s = r.name := by
  by_cases hempty : p.role = []
  · exact ⟨.empty, .nil, by rw [roleText, if_pos hempty]; rfl, nofun⟩
  · obtain ⟨lead, items, hrole, hitems⟩ := hp.role.resolve_left hempty
    exact ⟨lead, items, by rw [roleText, if_neg hempty, hrole], hitems⟩

theorem search_of_names {v : Value} (h : v.names = []) (p : List Piece → Bool) :
    v.search p (fun w _ => some w) = none :=
  (v.search_eq_none_iff fun w _ => w).mpr (h ▸ List.forall_mem_nil _)

/-- In an object without objects in it the first member of a name is the first in order. -/
theorem first_compact {l : List (List Piece × Value)} (hleaf : ∀ m ∈ l, m.2.names = [])
    (p : List Piece → Bool) :
    (Members.compact l).search p (fun w _ => some w) = (l.find? fun m => p m.1).map Prod.snd := by
  induction l with
  | nil => rfl
  | cons m l ih =>
      obtain ⟨hm, hl⟩ := List.forall_mem_cons.mp hleaf
      rw [Members.compact, Members.search, search_of_names hm, ih hl, Option.none_or]
      by_cases hp : p m.1 = true
      · simp [hp]
      · simp [hp]

theorem names_of_strings : ∀ {items : Items}, (∀ v ∈ items.values, ∃ s, v = .string s) →
    items.names = []
  | .nil, _ => rfl
  | .cons _ v _ rest, h => by
      obtain ⟨⟨s, rfl⟩, hrest⟩ := List.forall_mem_cons.mp h
      rw [Items.names, names_of_strings hrest]
      rfl

theorem rawScalarAt_number (n : Number) : rawScalarAt (Value.literal (.number n)).render = n.text := by
  have hread := rawScalarAt_literal (.number n) .empty (t := []) nofun
  rwa [Blanks.text_empty, List.append_nil, List.append_nil] at hread

theorem names_of_field {p : Package} {lead : Blanks} {items : Items}
    (hitems : ∀ v ∈ items.values, ∃ s, v = .string s) :
    ∀ m ∈ packageFields p lead items, m.2.names = [] := by
  have harray : (Value.array lead items).names = [] := names_of_strings hitems
  simp only [packageFields, List.forall_mem_cons]
  exact ⟨rfl, rfl, rfl, rfl, rfl, rfl, rfl, harray, nofun⟩

theorem jsonRawScalar_field {p : Package} (hp : p.Valid) {lead : Blanks} {items : Items}
    (hrole : roleText p = (Value.array lead items).render)
    (hitems : ∀ v ∈ items.values, ∃ s, v = .string s) {k : Bytes} (hk : chr '"' ∉ k ∧ chr '\\' ∉ k) :
    jsonRawScalar (packageObject p) k =
      (((packageFields p lead items).find? fun m => raw m.1 = k).map
        fun m => rawScalarAt m.2.render).getD [] := by
  have hrender : packageObject p =
      (Text.mk .empty (.object .empty (.compact (packageFields p lead items))) .empty).render := by
    rw [packageObject_eq hp hrole]
    simp [Text.render]
  rw [hrender, jsonRawScalar_render hk]
  change (((Members.compact (packageFields p lead items)).search (fun name => raw name = k)
    fun v _ => some v).map fun v => rawScalarAt v.render).getD [] = _
  rw [first_compact (names_of_field hitems), Option.map_map]
  rfl

/-- Each number of the list is read as it was written. -/
theorem jsonRawScalar_package {p : Package} (hp : p.Valid) :
    jsonRawScalar (packageObject p) (str "max_exams") = intText p.maxExams.toInt ∧
      jsonRawScalar (packageObject p) (str "max_pdf_size_mb") = megabytes p.maxPdfSize ∧
      jsonRawScalar (packageObject p) (str "max_concurrent_exams") =
        intText p.maxConcurrentExams.toInt ∧
      jsonRawScalar (packageObject p) (str "max_storage_mb") = megabytes p.maxStorageSize ∧
      jsonRawScalar (packageObject p) (str "max_users") = intText p.maxUsers.toInt := by
  obtain ⟨lead, items, hrole, hroles⟩ := exists_roleText hp
  have hitems : ∀ v ∈ items.values, ∃ s, v = .string s := fun v hv => (hroles v hv).imp fun _ h => h.1
  have hnat : ∀ n : Nat, rawScalarAt (natNumber n).render = (natNumber n).render :=
    fun n => rawScalarAt_number _
  have hhundredths : ∀ n : Nat, rawScalarAt (hundredthsNumber n).render = (hundredthsNumber n).render :=
    fun n => rawScalarAt_number _
  have hraw : ∀ m ∈ ["key", "label", "max_exams", "max_pdf_size_mb", "max_concurrent_exams",
      "max_storage_mb", "max_users"], raw (escapedPieces (str m)) = str m := by
    decide +kernel
  have hne : ∀ m ∈ ["max_exams", "max_pdf_size_mb", "max_concurrent_exams", "max_storage_mb",
      "max_users"], (chr '"' ∉ str m ∧ chr '\\' ∉ str m) := by
    decide +kernel
  simp only [List.forall_mem_cons] at hraw hne
  obtain ⟨h₁, h₂, h₃, h₄, h₅, h₆, h₇, -⟩ := hraw
  obtain ⟨k₁, k₂, k₃, k₄, k₅, -⟩ := hne
  rw [← render_natNumber hp.maxExams, ← render_natNumber hp.maxConcurrentExams,
    ← render_natNumber hp.maxUsers, ← render_hundredths hp.maxPdfSize,
    ← render_hundredths hp.maxStorageSize, jsonRawScalar_field hp hrole hitems k₁,
    jsonRawScalar_field hp hrole hitems k₂, jsonRawScalar_field hp hrole hitems k₃,
    jsonRawScalar_field hp hrole hitems k₄, jsonRawScalar_field hp hrole hitems k₅]
  simp only [packageFields, List.find?_cons, h₁, h₂, h₃, h₄, h₅, h₆, h₇]
  simp [hnat, hhundredths, str, chr]

/-! ### The strings -/

def numbersText (p : Package) : Bytes :=
  quoted (str "max_exams") ++ chr ':' :: (intText p.maxExams.toInt ++ chr ',' ::
    (quoted (str "max_pdf_size_mb") ++ chr ':' :: (megabytes p.maxPdfSize ++ chr ',' ::
      (quoted (str "max_concurrent_exams") ++ chr ':' :: (intText p.maxConcurrentExams.toInt ++ chr ',' ::
        (quoted (str "max_storage_mb") ++ chr ':' :: (megabytes p.maxStorageSize ++ chr ',' ::
          (quoted (str "max_users") ++ chr ':' :: (intText p.maxUsers.toInt ++ [chr ','])))))))))

theorem packageObject_eq_strings (p : Package) :
    packageObject p = chr '\x7b' :: (quoted (str "key") ++ chr ':' :: (quoted p.key ++ chr ',' ::
      (quoted (str "label") ++ chr ':' :: (quoted p.label ++ chr ',' :: (numbersText p ++
        (quoted (str "role") ++ chr ':' :: (roleText p ++ [chr '\x7d']))))))) := by
  have hname : ∀ m ∈ ["key", "label", "max_exams", "max_pdf_size_mb", "max_concurrent_exams",
      "max_storage_mb", "max_users", "role"], quoted (str m) = chr '"' :: (str m ++ [chr '"']) := by
    decide +kernel
  simp only [List.forall_mem_cons] at hname
  obtain ⟨h₁, h₂, h₃, h₄, h₅, h₆, h₇, h₈, -⟩ := hname
  simp only [numbersText, h₁, h₂, h₃, h₄, h₅, h₆, h₇, h₈]
  rw [packageObject, ← roleText, quoted, quoted]
  simp [str, chr]

theorem quote_notMem_literal (l : Literal) : chr '"' ∉ l.text := fun h =>
  (isWord_literal l _ h).2 (by decide)

theorem quote_notMem_intText (n : Int) : chr '"' ∉ intText n := fun h =>
  (Queue.ne_of_mem_intText h).1 rfl

theorem quote_notMem_megabytes {size : Int64} (h : 0 ≤ size.toInt) : chr '"' ∉ megabytes size := by
  rw [← render_hundredths h]
  exact quote_notMem_literal (.number _)

theorem findSub_name_cons {n u : Bytes} {c : UInt8} (h : chr '"' ≠ c) :
    findSub (needle n) (c :: u) = findSub (needle n) u :=
  findSub_cons_of_ne h

theorem findSub_name_quoted {n s u : Bytes} {c : UInt8} (hn : PlainName n) (hs : ¬ Hits n s)
    (hc : Queue.isNameByte c = false) (hquote : chr '"' ≠ c) :
    findSub (needle n) (quoted s ++ c :: u) = findSub (needle n) u := by
  rw [findSub_quoted hn (noNameHead_cons hc), if_neg hs, findSub_name_cons hquote]

theorem findSub_name_hit {n s u : Bytes} {c : UInt8} (hn : PlainName n) (hs : Hits n s)
    (hc : Queue.isNameByte c = false) : findSub (needle n) (quoted s ++ c :: u) =
      some (needle n ++ c :: u) := by
  rw [findSub_quoted hn (noNameHead_cons hc), if_pos hs]

/-- No name in the numbers is taken for the role. -/
theorem findSub_numbersText {p : Package} (hp : p.Valid) (t : Bytes) :
    findSub (needle (str "role")) (numbersText p ++ t) = findSub (needle (str "role")) t := by
  have hplain : PlainName (str "role") := by decide
  have hnumber : ∀ {n w u : Bytes}, ¬ Hits (str "role") n → chr '"' ∉ w →
      findSub (needle (str "role")) (quoted n ++ chr ':' :: (w ++ chr ',' :: u)) =
        findSub (needle (str "role")) u := by
    intro n w u hn hw
    rw [findSub_name_quoted hplain hn (by decide) (by decide), needle, findSub_append_of_notMem hw,
      ← needle, findSub_name_cons (by decide)]
  simp only [numbersText, List.append_assoc, List.cons_append, List.nil_append]
  rw [hnumber (by decide) (quote_notMem_intText _),
    hnumber (by decide) (quote_notMem_megabytes hp.maxPdfSize),
    hnumber (by decide) (quote_notMem_intText _),
    hnumber (by decide) (quote_notMem_megabytes hp.maxStorageSize),
    hnumber (by decide) (quote_notMem_intText _)]

theorem jsonStringField_key (p : Package) :
    jsonStringField (packageObject p) (str "key") = spelledOut p.key := by
  have hbehind : Behind (packageObject p) (str "key") (quoted p.key ++ chr ',' ::
      (quoted (str "label") ++ chr ':' :: (quoted p.label ++ chr ',' :: (numbersText p ++
        (quoted (str "role") ++ chr ':' :: (roleText p ++ [chr '\x7d'])))))) := by
    refine ⟨[], ?_, List.not_mem_nil⟩
    rw [packageObject_eq_strings, findSub_name_cons (by decide),
      findSub_name_hit (by decide) (by decide) (by decide), List.nil_append]
  rw [jsonStringField_of_behind hbehind]
  exact stringBehind_of_next (stringNext_quoted _ _)

theorem jsonStringField_label (p : Package) :
    jsonStringField (packageObject p) (str "label") = spelledOut p.label := by
  have hplain : PlainName (str "label") := by decide
  have hbehind : Behind (packageObject p) (str "label") (quoted p.label ++ chr ',' :: (numbersText p ++
      (quoted (str "role") ++ chr ':' :: (roleText p ++ [chr '\x7d'])))) := by
    unfold Behind
    rw [packageObject_eq_strings, findSub_name_cons (by decide),
      findSub_name_quoted hplain (by decide) (by decide) (by decide)]
    by_cases hkey : Hits (str "label") p.key
    · -- the end of the key is taken for the name; the next colon is the same
      rw [findSub_name_hit hplain hkey (by decide)]
      exact ⟨chr ',' :: quoted (str "label"), by simp, by decide⟩
    · rw [findSub_name_quoted hplain hkey (by decide) (by decide),
        findSub_name_hit hplain (by decide) (by decide)]
      exact ⟨[], by simp, List.not_mem_nil⟩
  rw [jsonStringField_of_behind hbehind]
  exact stringBehind_of_next (stringNext_quoted _ _)

/-! ### The role -/

/-- What is cut out of the text behind the colon where no string is read. -/
def arrayBehind (u : Bytes) : Bytes :=
  match u.dropWhile isBlank with
  | [] => []
  | c :: v => if c = chr '[' ∧ chr ']' ∈ v then (c :: v).takeWhile (· ≠ chr ']') ++ [chr ']'] else []

theorem roleField_of_behind {o u : Bytes} (h : Behind o (str "role") u) :
    roleField o = if stringBehind u ≠ [] then stringBehind u else arrayBehind u := by
  have hstring := jsonStringField_of_behind h
  obtain ⟨between, hfind, hbetween⟩ := h
  unfold roleField
  simp only [hstring, hfind, List.drop_left, findByte_eq_append hbetween, List.tail_cons,
    Queue.queueIsBlank_eq]
  rfl

/-- A bracket in a string literal is a bracket in what it denotes. -/
theorem bracket_mem_decodeFrom {s : List Piece} (h : chr ']' ∈ raw s) (high : Option Nat) :
    chr ']' ∈ decodeFrom high s := by
  induction s generalizing high with
  | nil => cases h
  | cons p s ih =>
      rw [raw_cons, List.mem_append] at h
      cases p with
      | plain c hc =>
          rw [decodeFrom, List.mem_append, List.mem_cons]
          rcases h with h | h
          · exact .inr (.inl (List.mem_singleton.mp h))
          · exact .inr (.inr (ih h none))
      | short c hc =>
          have hs : chr ']' ∈ raw s := by
            refine h.resolve_left fun hmem => ?_
            rcases List.mem_pair.mp hmem with hc' | rfl
            · exact absurd hc' (by decide)
            · exact absurd hc (by decide)
          rw [decodeFrom, List.mem_append, List.mem_cons]
          exact .inr (.inr (ih hs none))
      | unicode h₁ h₂ h₃ h₄ hhex =>
          have hs : chr ']' ∈ raw s := by
            refine h.resolve_left fun hmem => ?_
            have hno : isHexDigit (chr ']') = false := by decide
            simp only [Piece.text, List.mem_cons, List.not_mem_nil, or_false] at hmem
            rcases hmem with h' | h' | rfl | rfl | rfl | rfl
            · exact absurd h' (by decide)
            · exact absurd h' (by decide)
            all_goals simp [hno] at hhex
          cases high with
          | none =>
              simp only [decodeFrom]
              split_ifs <;> simp [ih hs]
          | some u =>
              simp only [decodeFrom]
              split_ifs <;> simp [ih hs]

theorem bracket_notMem_name (r : Role) : chr ']' ∉ r.name := by
  cases r <;> decide

theorem bracket_notMem_items : ∀ {items : Items} (first : Bool),
    (∀ v ∈ items.values, ∃ s, v = .string s ∧ ∃ r : Role, decode s = r.name) →
      chr ']' ∉ items.render first
  | .nil, _, _ => List.not_mem_nil
  | .cons pre v post rest, first, h => by
      obtain ⟨⟨s, rfl, r, hr⟩, hrest⟩ := List.forall_mem_cons.mp h
      have hblank : ∀ w : Blanks, chr ']' ∉ w.text := fun w hw => absurd (w.isBlank _ hw) (by decide)
      have hraw : chr ']' ∉ raw s := fun hs => bracket_notMem_name r (hr ▸ bracket_mem_decodeFrom hs none)
      have hstring : chr ']' ∉ (Value.string s).render := by
        simpa [Value.render, stringText, chr] using hraw
      have hcomma : chr ']' ∉ comma first := by cases first <;> decide
      simp only [Items.render, List.mem_append, not_or]
      exact ⟨⟨⟨⟨hcomma, hblank pre⟩, hstring⟩, hblank post⟩, bracket_notMem_items false hrest⟩

/-- An array of role names is cut out as it is. -/
theorem arrayBehind_array {lead : Blanks} {items : Items}
    (hitems : ∀ v ∈ items.values, ∃ s, v = .string s ∧ ∃ r : Role, decode s = r.name) (t : Bytes) :
    arrayBehind ((Value.array lead items).render ++ t) = (Value.array lead items).render := by
  have hno : ∀ c ∈ lead.text ++ items.render true, decide (c ≠ chr ']') = true := by
    intro c hc
    refine decide_eq_true ?_
    rintro rfl
    rcases List.mem_append.mp hc with h | h
    · exact absurd (lead.isBlank _ h) (by decide)
    · exact bracket_notMem_items true hitems h
  have htext : (Value.array lead items).render ++ t =
      chr '[' :: (lead.text ++ items.render true ++ chr ']' :: t) := by simp [Value.render]
  have htake : (lead.text ++ items.render true ++ chr ']' :: t).takeWhile (· ≠ chr ']') =
      lead.text ++ items.render true := by
    rw [List.takeWhile_append_of_pos hno, List.takeWhile_cons_of_neg (by simp), List.append_nil]
  rw [htext, arrayBehind, List.dropWhile_cons_of_neg (by decide)]
  dsimp only
  rw [if_pos ⟨rfl, by simp⟩, List.takeWhile_cons_of_pos (by decide), htake, Value.render]
  simp

/-- Behind the colon of a number there is neither a string nor an array. -/
theorem behind_digit {c : UInt8} (hc : isDigit c = true) (u : Bytes) :
    stringBehind (c :: u) = [] ∧ arrayBehind (c :: u) = [] := by
  have hblank : ¬ isBlank c = true := fun h => by
    rcases isBlank_cases h with rfl | rfl | rfl | rfl <;> exact absurd hc (by decide)
  have hquote : c ≠ chr '"' := by
    rintro rfl
    exact absurd hc (by decide)
  have hbracket : c ≠ chr '[' := by
    rintro rfl
    exact absurd hc (by decide)
  rw [stringBehind, arrayBehind, List.dropWhile_cons_of_neg hblank]
  exact ⟨if_neg hquote, if_neg fun h => hbracket h.1⟩

/-- The key or the label may end like the name of the role; only then is another role read. -/
theorem roleField_package {p : Package} (hp : p.Valid) :
    roleField (packageObject p) =
      if Hits (str "role") p.key then spelledOut p.label
      else if Hits (str "role") p.label then []
      else roleText p := by
  have hplain : PlainName (str "role") := by decide
  split_ifs with hkey hlabel
  · have hbehind : Behind (packageObject p) (str "role") (quoted p.label ++ chr ',' :: (numbersText p ++
        (quoted (str "role") ++ chr ':' :: (roleText p ++ [chr '\x7d'])))) := by
      unfold Behind
      rw [packageObject_eq_strings, findSub_name_cons (by decide),
        findSub_name_quoted hplain (by decide) (by decide) (by decide),
        findSub_name_hit hplain hkey (by decide)]
      exact ⟨chr ',' :: quoted (str "label"), by simp, by decide⟩
    have hstring := stringBehind_of_next (stringNext_quoted p.label (chr ',' :: (numbersText p ++
      (quoted (str "role") ++ chr ':' :: (roleText p ++ [chr '\x7d'])))))
    have harray : arrayBehind (quoted p.label ++ chr ',' :: (numbersText p ++
        (quoted (str "role") ++ chr ':' :: (roleText p ++ [chr '\x7d'])))) = [] := by
      rw [quoted_append, arrayBehind, List.dropWhile_cons_of_neg (by decide)]
      exact if_neg fun h => absurd h.1 (by decide)
    rw [roleField_of_behind hbehind, hstring, harray]
    by_cases hempty : spelledOut p.label = []
    · rw [if_neg (not_not.mpr hempty), hempty]
    · rw [if_pos hempty]
  · have hbehind : Behind (packageObject p) (str "role") (intText p.maxExams.toInt ++ chr ',' ::
        (quoted (str "max_pdf_size_mb") ++ chr ':' :: (megabytes p.maxPdfSize ++ chr ',' ::
          (quoted (str "max_concurrent_exams") ++ chr ':' :: (intText p.maxConcurrentExams.toInt ++
            chr ',' :: (quoted (str "max_storage_mb") ++ chr ':' :: (megabytes p.maxStorageSize ++
              chr ',' :: (quoted (str "max_users") ++ chr ':' :: (intText p.maxUsers.toInt ++ chr ',' ::
                (quoted (str "role") ++ chr ':' :: (roleText p ++ [chr '\x7d']))))))))))) := by
      unfold Behind
      rw [packageObject_eq_strings, findSub_name_cons (by decide),
        findSub_name_quoted hplain (by decide) (by decide) (by decide),
        findSub_name_quoted hplain hkey (by decide) (by decide),
        findSub_name_quoted hplain (by decide) (by decide) (by decide),
        findSub_name_hit hplain hlabel (by decide)]
      exact ⟨chr ',' :: quoted (str "max_exams"), by simp [numbersText], by decide⟩
    obtain ⟨c, w, hw⟩ := List.exists_cons_of_ne_nil (natText_ne_nil p.maxExams.toInt.natAbs)
    have hdigit : isDigit c = true := isDigit_of_mem_natText (hw ▸ List.mem_cons_self)
    rw [roleField_of_behind hbehind, intText, if_neg (not_lt.mpr hp.maxExams), hw, List.cons_append,
      (behind_digit hdigit _).1, (behind_digit hdigit _).2, ite_self]
  · have hbehind : Behind (packageObject p) (str "role") (roleText p ++ [chr '\x7d']) := by
      unfold Behind
      rw [packageObject_eq_strings, findSub_name_cons (by decide),
        findSub_name_quoted hplain (by decide) (by decide) (by decide),
        findSub_name_quoted hplain hkey (by decide) (by decide),
        findSub_name_quoted hplain (by decide) (by decide) (by decide),
        findSub_name_quoted hplain hlabel (by decide) (by decide), findSub_numbersText hp,
        findSub_name_hit hplain (by decide) (by decide)]
      exact ⟨[], by simp, List.not_mem_nil⟩
    obtain ⟨lead, items, hrole, hitems⟩ := exists_roleText hp
    have hstring : stringBehind (roleText p ++ [chr '\x7d']) = [] := by
      rw [hrole, Value.render, List.cons_append, stringBehind, List.dropWhile_cons_of_neg (by decide)]
      exact if_neg (by decide)
    rw [roleField_of_behind hbehind, hstring, hrole, arrayBehind_array hitems, if_neg (not_not.mpr rfl)]

example : arrayBehind (str " [\"guru\"], 1") = str "[\"guru\"]" := by decide +kernel

end ExamVan.Admin
