import ExamVan.Helpers.IsoUtc
import ExamVan.Queue.Job

/-!
# What the queue codec reads back

Escaping is undone, a string literal is scanned to its own closing quote, and an encoded map is
read back entry by entry. What remains is where `from_json` starts to read: the first occurrence
of the quoted name need not be the member of that name.
-/

namespace ExamVan.Queue

open ByteString

/-! ### Escaping -/

theorem escapeByte_quote : escapeByte (chr '"') = [chr '\\', chr '"'] := by decide

/-- A byte is written as itself, or as a backslash, a letter and letters or digits. -/
theorem escapeByte_cases (c : UInt8) :
    (escapeByte c = [c] ∧ c ≠ chr '"' ∧ c ≠ chr '\\') ∨
      ∃ d w, escapeByte c = chr '\\' :: d :: w ∧ chr '"' ∉ w ∧ chr '\\' ∉ w ∧
        (c ≠ chr '"' → d ≠ chr '"') := by
  have hcontrol : ∀ n < 32, chr '"' ∉ [hexDigit (n / 16), hexDigit (n % 16)] ∧
      chr '\\' ∉ [hexDigit (n / 16), hexDigit (n % 16)] := by decide
  unfold escapeByte
  split_ifs with h1 h2 h3 h4 h5 h6 h7 h8
  · exact Or.inr ⟨chr '"', [], by decide, by simp, by simp, fun h => absurd h1 h⟩
  · exact Or.inr ⟨chr '\\', [], by decide, by simp, by simp, fun _ => by decide⟩
  · exact Or.inr ⟨chr 'b', [], by decide, by simp, by simp, fun _ => by decide⟩
  · exact Or.inr ⟨chr 'f', [], by decide, by simp, by simp, fun _ => by decide⟩
  · exact Or.inr ⟨chr 'n', [], by decide, by simp, by simp, fun _ => by decide⟩
  · exact Or.inr ⟨chr 'r', [], by decide, by simp, by simp, fun _ => by decide⟩
  · exact Or.inr ⟨chr 't', [], by decide, by simp, by simp, fun _ => by decide⟩
  · obtain ⟨hquote, hback⟩ := hcontrol c.toNat (UInt8.lt_iff_toNat_lt.mp h8)
    refine Or.inr ⟨chr 'u', chr '0' :: chr '0' :: [hexDigit (c.toNat / 16), hexDigit (c.toNat % 16)],
      rfl, ?_, ?_, fun _ => by decide⟩
    · simpa [chr] using hquote
    · simpa [chr] using hback
  · exact Or.inl ⟨rfl, h1, h2⟩

theorem jsonEscape_cons (c : UInt8) (s : Bytes) : jsonEscape (c :: s) = escapeByte c ++ jsonEscape s :=
  List.flatMap_cons

theorem jsonUnescape_cons {c : UInt8} (h : c ≠ chr '\\') (t : Bytes) :
    jsonUnescape (c :: t) = c :: jsonUnescape t := by
  rcases t with _ | ⟨n, _ | ⟨h₁, _ | ⟨h₂, _ | ⟨h₃, _ | ⟨h₄, t⟩⟩⟩⟩⟩ <;> simp [jsonUnescape, h]

theorem jsonUnescape_backslash {n : UInt8} (h : n ≠ chr 'u') (t : Bytes) :
    jsonUnescape (chr '\\' :: n :: t) = unescapeByte n :: jsonUnescape t := by
  rcases t with _ | ⟨h₁, _ | ⟨h₂, _ | ⟨h₃, _ | ⟨h₄, t⟩⟩⟩⟩ <;> simp [jsonUnescape, h]

theorem jsonUnescape_codeUnit {h₁ h₂ h₃ h₄ : UInt8} {v : Nat} (h : codeUnit h₁ h₂ h₃ h₄ = some v)
    (t : Bytes) : jsonUnescape (chr '\\' :: chr 'u' :: h₁ :: h₂ :: h₃ :: h₄ :: t) =
      utf8Bytes v ++ jsonUnescape t := by
  simp [jsonUnescape, h]

theorem jsonUnescape_escapeByte (c : UInt8) (t : Bytes) :
    jsonUnescape (escapeByte c ++ t) = c :: jsonUnescape t := by
  have hcontrol : ∀ n < 32, codeUnit (chr '0') (chr '0') (hexDigit (n / 16)) (hexDigit (n % 16)) =
      some n ∧ utf8Bytes n = [UInt8.ofNat n] := by decide
  unfold escapeByte
  split_ifs with h1 h2 h3 h4 h5 h6 h7 h8
  · exact h1 ▸ jsonUnescape_backslash (by decide) t
  · exact h2 ▸ jsonUnescape_backslash (by decide) t
  · exact h3 ▸ jsonUnescape_backslash (by decide) t
  · exact h4 ▸ jsonUnescape_backslash (by decide) t
  · exact h5 ▸ jsonUnescape_backslash (by decide) t
  · exact h6 ▸ jsonUnescape_backslash (by decide) t
  · exact h7 ▸ jsonUnescape_backslash (by decide) t
  · obtain ⟨hunit, hbytes⟩ := hcontrol c.toNat (UInt8.lt_iff_toNat_lt.mp h8)
    have hread := jsonUnescape_codeUnit hunit t
    rw [hbytes, UInt8.ofNat_toNat] at hread
    exact hread
  · exact jsonUnescape_cons h2 t

/-- `json_unescape(json_escape(s)) = s`, with any text behind. -/
theorem jsonUnescape_jsonEscape_append (s t : Bytes) :
    jsonUnescape (jsonEscape s ++ t) = s ++ jsonUnescape t := by
  induction s with
  | nil => rfl
  | cons c s ih =>
      rw [jsonEscape_cons, List.append_assoc, jsonUnescape_escapeByte, ih, List.cons_append]

@[simp]
theorem jsonUnescape_jsonEscape (s : Bytes) : jsonUnescape (jsonEscape s) = s := by
  simpa [jsonUnescape] using jsonUnescape_jsonEscape_append s []

theorem jsonEscape_injective : Function.Injective jsonEscape :=
  Function.LeftInverse.injective jsonUnescape_jsonEscape

/-- No byte of the text needs an escape. -/
def Unescaped (s : Bytes) : Prop := ∀ c ∈ s, c ≠ chr '"' ∧ c ≠ chr '\\' ∧ 0x20 ≤ c

instance (s : Bytes) : Decidable (Unescaped s) := List.decidableBAll _ s

theorem Unescaped.append {s t : Bytes} (hs : Unescaped s) (ht : Unescaped t) : Unescaped (s ++ t) :=
  List.forall_mem_append.mpr ⟨hs, ht⟩

theorem Unescaped.cons {c : UInt8} {s : Bytes} (hc : c ≠ chr '"' ∧ c ≠ chr '\\' ∧ 0x20 ≤ c)
    (hs : Unescaped s) : Unescaped (c :: s) :=
  List.forall_mem_cons.mpr ⟨hc, hs⟩

theorem escapeByte_of_unescaped {c : UInt8} (hquote : c ≠ chr '"') (hback : c ≠ chr '\\')
    (hcontrol : 0x20 ≤ c) : escapeByte c = [c] := by
  have hne : ∀ d : UInt8, d < 0x20 → c ≠ d := fun d hd h => absurd hd (not_lt.mpr (h ▸ hcontrol))
  unfold escapeByte
  rw [if_neg hquote, if_neg hback, if_neg (hne 8 (by decide)), if_neg (hne 12 (by decide)),
    if_neg (hne 10 (by decide)), if_neg (hne 13 (by decide)), if_neg (hne 9 (by decide)),
    if_neg (not_lt.mpr hcontrol)]

theorem jsonEscape_of_unescaped {s : Bytes} (h : Unescaped s) : jsonEscape s = s := by
  induction s with
  | nil => rfl
  | cons c s ih =>
      obtain ⟨⟨hquote, hback, hcontrol⟩, hs⟩ := List.forall_mem_cons.mp h
      rw [jsonEscape_cons, escapeByte_of_unescaped hquote hback hcontrol, ih hs]
      rfl

theorem escapeByte_eq_self_iff {c : UInt8} :
    escapeByte c = [c] ↔ c ≠ chr '"' ∧ c ≠ chr '\\' ∧ 0x20 ≤ c := by
  constructor
  · intro h
    rcases escapeByte_cases c with ⟨-, hquote, hback⟩ | ⟨d, w, hesc, -⟩
    · refine ⟨hquote, hback, not_lt.mp fun hlow => ?_⟩
      have hlength := congrArg List.length h
      unfold escapeByte at hlength
      split_ifs at hlength <;> simp [str] at hlength
    · rw [hesc] at h
      cases h
  · exact fun h => escapeByte_of_unescaped h.1 h.2.1 h.2.2

theorem length_escapeByte_pos (c : UInt8) : 0 < (escapeByte c).length := by
  rcases escapeByte_cases c with ⟨hself, -⟩ | ⟨d, w, hesc, -⟩
  · rw [hself]
    exact Nat.one_pos
  · rw [hesc]
    exact Nat.succ_pos _

theorem length_le_jsonEscape (s : Bytes) : s.length ≤ (jsonEscape s).length := by
  induction s with
  | nil => exact le_rfl
  | cons c s ih =>
      have hpos := length_escapeByte_pos c
      rw [jsonEscape_cons, List.length_append, List.length_cons]
      omega

/-- Escaping that does not make a text longer leaves it alone. -/
theorem unescaped_of_length_le {s : Bytes} (h : (jsonEscape s).length ≤ s.length) : Unescaped s := by
  induction s with
  | nil => exact fun c hc => absurd hc List.not_mem_nil
  | cons c s ih =>
      have hpos := length_escapeByte_pos c
      have hle := length_le_jsonEscape s
      rw [jsonEscape_cons, List.length_append, List.length_cons] at h
      refine List.forall_mem_cons.mpr ⟨escapeByte_eq_self_iff.mp ?_, ih (by omega)⟩
      rcases escapeByte_cases c with ⟨hself, -⟩ | ⟨d, w, hesc, -⟩
      · exact hself
      · rw [hesc, List.length_cons, List.length_cons] at h
        omega

/-! ### The inside of a literal -/

def isShortEscape (c : UInt8) : Bool := (str "\"\\/bfnrt").contains c

/-- Behind each backslash there is an escape, and outside of escapes neither a quote nor a byte below
0x20. -/
def isStringBody : Bytes → Bool
  | [] => true
  | [c] => c ≠ chr '"' && c ≠ chr '\\' && 0x20 ≤ c
  | c :: d :: s =>
      if c = chr '\\' then
        (if d = chr 'u' then 4 ≤ s.length && (s.take 4).all fun h => (hexValue h).isSome
          else isShortEscape d) && isStringBody s
      else c ≠ chr '"' && 0x20 ≤ c && isStringBody (d :: s)

theorem isStringBody_cons {c : UInt8} (hquote : c ≠ chr '"') (hback : c ≠ chr '\\') (hcontrol : 0x20 ≤ c)
    (t : Bytes) : isStringBody (c :: t) = isStringBody t := by
  cases t with
  | nil => simp [isStringBody, hquote, hback, hcontrol]
  | cons d t => simp [isStringBody, hquote, hback, hcontrol]

theorem isStringBody_short {d : UInt8} (hd : d ≠ chr 'u' ∧ isShortEscape d = true) (t : Bytes) :
    isStringBody (chr '\\' :: d :: t) = isStringBody t := by
  rw [isStringBody, if_pos rfl, if_neg hd.1, hd.2, Bool.true_and]

theorem hexDigit_spec {n : Nat} (hn : n < 16) : (hexValue (hexDigit n)).isSome = true ∧
    hexDigit n ≠ chr '"' ∧ hexDigit n ≠ chr '\\' ∧ 0x20 ≤ hexDigit n := by
  have hall : ∀ n < 16, (hexValue (hexDigit n)).isSome = true ∧
      hexDigit n ≠ chr '"' ∧ hexDigit n ≠ chr '\\' ∧ 0x20 ≤ hexDigit n := by decide
  exact hall n hn

theorem isStringBody_unicode {m n : Nat} (hm : m < 16) (hn : n < 16) (t : Bytes) :
    isStringBody (chr '\\' :: chr 'u' :: chr '0' :: chr '0' :: hexDigit m :: hexDigit n :: t) =
      isStringBody t := by
  have hzero : hexDigit 0 = chr '0' := by decide
  have hfour : (4 ≤ (chr '0' :: chr '0' :: hexDigit m :: hexDigit n :: t).length &&
      ((chr '0' :: chr '0' :: hexDigit m :: hexDigit n :: t).take 4).all fun h => (hexValue h).isSome) =
        true := by
    simp [(hexDigit_spec hm).1, (hexDigit_spec hn).1, ← hzero, (hexDigit_spec (n := 0) (by decide)).1]
  have hplain : ∀ {k : Nat} (u : Bytes), k < 16 → isStringBody (hexDigit k :: u) = isStringBody u :=
    fun u hk => isStringBody_cons (hexDigit_spec hk).2.1 (hexDigit_spec hk).2.2.1 (hexDigit_spec hk).2.2.2 u
  rw [isStringBody, if_pos rfl, if_pos rfl, hfour, Bool.true_and, ← hzero, hplain _ (by decide),
    hplain _ (by decide), hplain _ hm, hplain _ hn]

theorem isStringBody_escapeByte (c : UInt8) (t : Bytes) :
    isStringBody (escapeByte c ++ t) = isStringBody t := by
  unfold escapeByte
  split_ifs with h1 h2 h3 h4 h5 h6 h7 h8
  · exact isStringBody_short (by decide) t
  · exact isStringBody_short (by decide) t
  · exact isStringBody_short (by decide) t
  · exact isStringBody_short (by decide) t
  · exact isStringBody_short (by decide) t
  · exact isStringBody_short (by decide) t
  · exact isStringBody_short (by decide) t
  · have hsmall : c.toNat < 32 := UInt8.lt_iff_toNat_lt.mp h8
    exact isStringBody_unicode (by omega) (by omega) t
  · exact isStringBody_cons h1 h2 (not_lt.mp h8) t

theorem le_of_mem_escapeByte {b c : UInt8} (h : b ∈ escapeByte c) : 0x20 ≤ b :=
  forall_byte (p := fun c => ∀ b ∈ escapeByte c, 0x20 ≤ b) (by decide) c b h

/-- `json_escape` writes the inside of a string literal, and `json_unescape` takes it back. -/
theorem jsonEscape_inverted (s : Bytes) : isStringBody (jsonEscape s) = true ∧
    (∀ c ∈ jsonEscape s, 0x20 ≤ c) ∧ jsonUnescape (jsonEscape s) = s := by
  refine ⟨?_, fun b hb => ?_, jsonUnescape_jsonEscape s⟩
  · induction s with
    | nil => rfl
    | cons c s ih => rw [jsonEscape_cons, isStringBody_escapeByte, ih]
  · obtain ⟨c, -, hc⟩ := List.mem_flatMap.mp hb
    exact le_of_mem_escapeByte hc

/-! ### Scanning a literal -/

theorem scanString_plain_append {w : Bytes} (hquote : chr '"' ∉ w) (hback : chr '\\' ∉ w)
    (t : Bytes) : scanString (w ++ t) = (scanString t).map fun r => (w ++ r.1, r.2) := by
  induction w with
  | nil => simp
  | cons c w ih =>
      rw [List.mem_cons, not_or] at hquote hback
      rw [List.cons_append, scanString_cons (Ne.symm hback.1) (Ne.symm hquote.1), ih hquote.2 hback.2,
        Option.map_map]
      rfl

theorem scanString_escapeByte (c : UInt8) (t : Bytes) :
    scanString (escapeByte c ++ t) = (scanString t).map fun r => (escapeByte c ++ r.1, r.2) := by
  rcases escapeByte_cases c with ⟨hself, hquote, hback⟩ | ⟨d, w, hesc, hquote, hback, -⟩
  · rw [hself]
    exact scanString_cons hback hquote t
  · rw [hesc, List.cons_append, List.cons_append, scanString_backslash,
      scanString_plain_append hquote hback, Option.map_map]
    rfl

theorem scanString_jsonEscape (s t : Bytes) :
    scanString (jsonEscape s ++ chr '"' :: t) = some (jsonEscape s, t) := by
  induction s with
  | nil => exact scanString_quote t
  | cons c s ih =>
      rw [jsonEscape_cons, List.append_assoc, scanString_escapeByte, ih]
      rfl

/-! ### Reading a scalar back -/

theorem quoted_append (s t : Bytes) : quoted s ++ t = chr '"' :: (jsonEscape s ++ chr '"' :: t) := by
  simp [quoted]

theorem scalarAt_quoted (s t : Bytes) : scalarAt (quoted s ++ t) = s := by
  rw [quoted_append, scalarAt, List.dropWhile_cons_of_neg (by decide)]
  simp only [if_true, scanString_jsonEscape, jsonUnescape_jsonEscape]

theorem ne_of_mem_intText {n : Int} {c : UInt8} (h : c ∈ intText n) :
    c ≠ chr '"' ∧ c ≠ chr ' ' ∧ c ≠ chr '\t' ∧ c ≠ chr ',' ∧ c ≠ chr '}' ∧ c ≠ chr ':' ∧
      c ≠ chr '{' := by
  rcases mem_intText h with rfl | hdigit
  · decide
  · refine ⟨?_, ?_, ?_, ?_, ?_, ?_, ?_⟩ <;> (rintro rfl; exact absurd hdigit (by decide))

theorem unescaped_digit {c : UInt8} (h : isDigit c = true) :
    c ≠ chr '"' ∧ c ≠ chr '\\' ∧ 0x20 ≤ c := by
  refine ⟨?_, ?_, ?_⟩
  · rintro rfl
    exact absurd h (by decide)
  · rintro rfl
    exact absurd h (by decide)
  · simp only [isDigit, Bool.and_eq_true, decide_eq_true_eq] at h
    exact le_trans (by decide) h.1

theorem unescaped_intText (n : Int) : Unescaped (intText n) := by
  intro c hc
  rcases mem_intText hc with rfl | hdigit
  · decide
  · exact unescaped_digit hdigit

theorem unescaped_twoDigits {n : Int} (h : 0 ≤ n ∧ n < 100) : Unescaped (Helpers.twoDigits n) := by
  have hten : n.toNat / 10 < 10 := by omega
  have hone : n.toNat % 10 < 10 := Nat.mod_lt _ (by decide)
  intro c hc
  rcases List.mem_pair.mp hc with rfl | rfl
  · exact unescaped_digit (isDigit_digitByte hten)
  · exact unescaped_digit (isDigit_digitByte hone)

theorem unescaped_formatIsoUtc (now : Int) : Unescaped (Helpers.formatIsoUtc now) := by
  have hvalid := Calendar.valid_civil (now.tdiv 1000000000)
  unfold Helpers.formatIsoUtc Helpers.strftime
  generalize Calendar.civil (now.tdiv 1000000000) = t at hvalid
  have hmonth := hvalid.month
  have hday := hvalid.day
  have hhour := hvalid.hour
  have hminute := hvalid.minute
  have hsecond := hvalid.second
  refine .append (unescaped_intText _) (.cons (by decide) ?_)
  refine .append (unescaped_twoDigits (by omega)) (.cons (by decide) ?_)
  refine .append (unescaped_twoDigits (by omega)) (.cons (by decide) ?_)
  refine .append (unescaped_twoDigits (by omega)) (.cons (by decide) ?_)
  refine .append (unescaped_twoDigits (by omega)) (.cons (by decide) ?_)
  exact .append (unescaped_twoDigits (by omega)) (by decide)

theorem scalarAt_intText (n : Int) {d : UInt8} (t : Bytes) (hd : d = chr ',' ∨ d = chr '}') :
    scalarAt (intText n ++ d :: t) = intText n := by
  obtain ⟨c, u, hcu⟩ := List.exists_cons_of_ne_nil (intText_ne_nil n)
  have hc := ne_of_mem_intText (hcu ▸ List.mem_cons_self : c ∈ intText n)
  have hstop : (fun c : UInt8 => decide (c = chr ',') || decide (c = chr '}')) d = true := by
    rcases hd with rfl | rfl <;> decide
  have hskip : ∀ b ∈ intText n, (fun c : UInt8 => decide (c = chr ',') || decide (c = chr '}')) b =
      false := by
    intro b hb
    have := ne_of_mem_intText hb
    simp [this]
  have hdrop : (intText n ++ d :: t).dropWhile (fun c => c = chr ' ' || c = chr '\t') =
      c :: (u ++ d :: t) := by
    rw [hcu, List.cons_append, List.dropWhile_cons_of_neg (by simp [hc])]
  have htake : (intText n ++ d :: t).takeWhile (fun c => !(c = chr ',' || c = chr '}')) =
      intText n := by
    rw [List.takeWhile_append_of_pos (fun b hb => by simpa using hskip b hb),
      List.takeWhile_cons_of_neg (by rcases hd with rfl | rfl <;> decide), List.append_nil]
  have hfind : findByte (fun c => c = chr ',' || c = chr '}') (intText n ++ d :: t) =
      some (d :: t) := by
    rw [findByte_append hskip]
    exact findByte_cons_pos hstop
  have hfilter : (intText n).filter (· ≠ chr ' ') = intText n :=
    List.filter_eq_self.mpr fun b hb => by simpa using (ne_of_mem_intText hb).2.1
  rw [scalarAt, hdrop]
  simp only [hc, if_false]
  rw [← List.cons_append, ← hcu, hfind, htake]
  exact hfilter

/-! ### Reading a map back -/

theorem objectText_skip {depth : Int} {ch : UInt8} {t : Bytes} (hquote : ch ≠ chr '"')
    (hopen : ch ≠ chr '{') (hclose : ch ≠ chr '}') :
    objectText depth false false (ch :: t) = (objectText depth false false t).map (ch :: ·) := by
  simp [objectText, hquote, hopen, hclose]

theorem objectText_plain_append {depth : Int} {w : Bytes} (hquote : chr '"' ∉ w)
    (hback : chr '\\' ∉ w) (t : Bytes) :
    objectText depth true false (w ++ t) = (objectText depth true false t).map (w ++ ·) := by
  induction w with
  | nil => simp
  | cons c w ih =>
      rw [List.mem_cons, not_or] at hquote hback
      simp only [List.cons_append, objectText, Bool.false_eq_true, if_false, Ne.symm hback.1,
        Ne.symm hquote.1, false_and, if_true, ih hquote.2 hback.2, Option.map_map]
      rfl

theorem objectText_escapeByte (depth : Int) (c : UInt8) (t : Bytes) :
    objectText depth true false (escapeByte c ++ t) =
      (objectText depth true false t).map (escapeByte c ++ ·) := by
  rcases escapeByte_cases c with ⟨hself, hquote, hback⟩ | ⟨d, w, hesc, hquote, hback, -⟩
  · rw [hself]
    simp [objectText, hquote, hback]
  · rw [hesc, List.cons_append, List.cons_append]
    simp only [objectText, Bool.false_eq_true, if_false, true_and, if_true,
      objectText_plain_append hquote hback, Option.map_map]
    rfl

theorem objectText_jsonEscape (depth : Int) (s t : Bytes) :
    objectText depth true false (jsonEscape s ++ chr '"' :: t) =
      (objectText depth false false t).map (jsonEscape s ++ chr '"' :: ·) := by
  induction s with
  | nil => simp [jsonEscape, objectText, chr]
  | cons c s ih =>
      rw [jsonEscape_cons, List.append_assoc, objectText_escapeByte, ih, Option.map_map]
      simp [Function.comp_def]

/-- A whole string literal is passed over, braces and quotes in it included. -/
theorem objectText_quoted (depth : Int) (s t : Bytes) :
    objectText depth false false (quoted s ++ t) =
      (objectText depth false false t).map (quoted s ++ ·) := by
  have hopen : objectText depth false false (chr '"' :: (jsonEscape s ++ chr '"' :: t)) =
      (objectText depth true false (jsonEscape s ++ chr '"' :: t)).map (chr '"' :: ·) := by
    simp [objectText, chr]
  rw [quoted_append, hopen, objectText_jsonEscape, Option.map_map]
  simp [Function.comp_def, quoted_append]

/-- The separator before a member is the comma of a member that is not the first. -/
def separator (first : Bool) : Bytes := if first then [] else [chr ',']

theorem mapMembers_cons (first : Bool) (kv : Bytes × Bytes) (rest : List (Bytes × Bytes)) :
    mapMembers first (kv :: rest) = separator first ++ (quoted kv.1 ++ chr ':' :: (quoted kv.2 ++
      mapMembers false rest)) := by
  simp [mapMembers, separator]

theorem objectText_mapMembers (first : Bool) (entries : List (Bytes × Bytes)) (t : Bytes) :
    objectText 1 false false (mapMembers first entries ++ chr '}' :: t) =
      some (mapMembers first entries ++ [chr '}']) := by
  induction entries generalizing first with
  | nil => simp [mapMembers, objectText, chr]
  | cons kv rest ih =>
      have hmember : ∀ u, objectText 1 false false (quoted kv.1 ++ chr ':' :: (quoted kv.2 ++ u)) =
          (objectText 1 false false u).map
            (fun r => quoted kv.1 ++ chr ':' :: (quoted kv.2 ++ r)) := by
        intro u
        rw [objectText_quoted, objectText_skip (by decide) (by decide) (by decide),
          objectText_quoted, Option.map_map, Option.map_map]
        rfl
      rw [mapMembers_cons]
      cases first with
      | true => simp [separator, hmember, ih]
      | false =>
          simp only [separator, Bool.false_eq_true, if_false, List.append_assoc, List.cons_append,
            List.nil_append]
          rw [objectText_skip (by decide) (by decide) (by decide), hmember, ih]
          simp

theorem objectText_mapToJson (m : StringMap) (t : Bytes) :
    objectText 0 false false (mapToJson m ++ t) = some (mapToJson m) := by
  have hopen : ∀ u, objectText 0 false false (chr '{' :: u) =
      (objectText 1 false false u).map (chr '{' :: ·) := by
    intro u
    simp [objectText, chr]
  rw [mapToJson, List.cons_append, hopen, List.append_assoc, List.cons_append,
    objectText_mapMembers]
  rfl

theorem dropWhile_separator (first : Bool) (t : Bytes) :
    (separator first ++ chr '"' :: t).dropWhile (fun c => isBlank c || c = chr ',') =
      chr '"' :: t := by
  cases first with
  | true => exact List.dropWhile_cons_of_neg (by decide)
  | false =>
      rw [separator, if_neg Bool.false_ne_true, List.cons_append, List.nil_append,
        List.dropWhile_cons_of_pos (by decide)]
      exact List.dropWhile_cons_of_neg (by decide)

/-- One round of the loop reads one member. -/
theorem parsePairs_member (fuel : Nat) (first : Bool) (k v t : Bytes) (out : StringMap) :
    parsePairs (fuel + 1) (separator first ++ (quoted k ++ chr ':' :: (quoted v ++ t))) out =
      parsePairs fuel t (out.insert k v) := by
  have hcolon : (chr ':' :: (quoted v ++ t)).dropWhile (fun c => isBlank c || c = chr ':') =
      chr '"' :: (jsonEscape v ++ chr '"' :: t) := by
    rw [List.dropWhile_cons_of_pos (by decide), quoted_append]
    exact List.dropWhile_cons_of_neg (by decide)
  rw [quoted_append, parsePairs, dropWhile_separator]
  simp only [show chr '"' ≠ chr '}' by decide, if_false, ne_eq, not_true_eq_false,
    scanString_jsonEscape, hcolon, jsonUnescape_jsonEscape]

theorem parsePairs_mapMembers {entries : List (Bytes × Bytes)} {fuel : Nat} (first : Bool)
    (hfuel : entries.length < fuel) (out : StringMap) (t : Bytes) :
    parsePairs fuel (mapMembers first entries ++ chr '}' :: t) out = out.insertAll entries := by
  induction entries generalizing first fuel out with
  | nil =>
      obtain ⟨fuel, rfl⟩ := Nat.exists_eq_succ_of_ne_zero (Nat.ne_of_gt hfuel)
      have hclose : (chr '}' :: t).dropWhile (fun c => isBlank c || c = chr ',') = chr '}' :: t :=
        List.dropWhile_cons_of_neg (by decide)
      rw [parsePairs, mapMembers, List.nil_append, hclose]
      simp
  | cons kv rest ih =>
      obtain ⟨fuel, rfl⟩ := Nat.exists_eq_succ_of_ne_zero (Nat.ne_of_gt (Nat.zero_lt_of_lt hfuel))
      rw [mapMembers_cons]
      simp only [List.append_assoc, List.cons_append]
      rw [parsePairs_member, ih false (by simpa using hfuel), OrderedMap.insertAll_cons]

theorem length_le_mapMembers (first : Bool) (entries : List (Bytes × Bytes)) :
    entries.length ≤ (mapMembers first entries).length := by
  induction entries generalizing first with
  | nil => simp
  | cons kv rest ih =>
      have := ih false
      rw [mapMembers_cons]
      simp only [List.length_append, List.length_cons]
      omega

/-- An encoded map that stands where the search for a brace lands is read back. -/
theorem mapAfterColon_mapToJson (m : StringMap) (t : Bytes) :
    mapAfterColon (chr ':' :: (mapToJson m ++ t)) = m := by
  have hcolon : findByte (· = chr ':') (chr ':' :: (mapToJson m ++ t)) =
      some (chr ':' :: (mapToJson m ++ t)) := findByte_cons_pos (by decide)
  have hbrace : findByte (· = chr '{') (chr ':' :: (mapToJson m ++ t)) =
      some (mapToJson m ++ t) := by
    simp [findByte, mapToJson, chr]
  have hlength := length_le_mapMembers true m.entries
  rw [mapAfterColon, hcolon]
  simp only [hbrace, objectText_mapToJson]
  rw [mapToJson, List.tail_cons, parsePairs_mapMembers true (by simp; omega)]
  exact OrderedMap.insertAll_entries m

end ExamVan.Queue
