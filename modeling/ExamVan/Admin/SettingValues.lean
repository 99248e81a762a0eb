import ExamVan.Admin.Settings
import ExamVan.Lib.JsonNames
import ExamVan.Queue.Job
import ExamVan.Utils.StripLoop

/-!
# Which value a setting is given

The value is looked for behind the first colon after the first place where the quoted key stands,
whatever the key and the colon are part of. A string there loses its backslashes; anything else
reaches to the next comma, closing brace or line end.
-/

/-!
## Which settings a body names

On a JSON text, `json_has_key` finds a key if a member at any depth is spelled with the key's own
letters.
-/

namespace ExamVan.Admin.Settings

open ByteString JsonText Queue
open Utils (Plain)

section

variable {key tail : Bytes}

/-! ### One token -/

theorem isSome_afterMember_needle :
    (Api.afterMember key (needle key ++ tail)).isSome = decide (ColonNext tail) := by
  unfold Api.afterMember
  rw [if_pos (List.prefix_append _ _), List.drop_left, queueIsBlank_eq, Bool.eq_iff_iff,
    decide_eq_true_iff]
  unfold ColonNext
  generalize tail.dropWhile JsonText.isBlank = rest
  cases rest with
  | nil => simp
  | cons c t => by_cases hc : c = chr ':' <;> simp [hc]

theorem afterMember_of_not_prefix {s : Bytes} (h : ¬ needle key <+: s) :
    Api.afterMember key s = none := if_neg h

/-- Outside string literals, a byte that is no quote is passed over. -/
theorem hasKeyFrom_cons {c : UInt8} (hc : c ≠ chr '"') :
    hasKeyFrom key false false (c :: tail) = hasKeyFrom key false false tail := by
  have hprefix : ¬ needle key <+: c :: tail := fun h => hc (List.cons_prefix_cons.mp h).1.symm
  rw [hasKeyFrom, afterMember_of_not_prefix hprefix]
  simp [hc]

theorem hasKeyFrom_append {w : Bytes} (hw : chr '"' ∉ w) :
    hasKeyFrom key false false (w ++ tail) = hasKeyFrom key false false tail := by
  induction w with
  | nil => rfl
  | cons c w ih =>
      rw [List.mem_cons, not_or] at hw
      rw [List.cons_append, hasKeyFrom_cons (Ne.symm hw.1), ih hw.2]

theorem hasKeyFrom_blanks (w : Blanks) :
    hasKeyFrom key false false (w.text ++ tail) = hasKeyFrom key false false tail :=
  hasKeyFrom_append (Utils.quote_notMem_of_isBlank w.isBlank)

/-- Inside a string literal, nothing is found. -/
theorem hasKeyFrom_inside {c : UInt8} (hquote : c ≠ chr '"') (hback : c ≠ chr '\\') :
    hasKeyFrom key true false (c :: tail) = hasKeyFrom key true false tail := by
  rw [hasKeyFrom]
  simp [hquote, hback]

theorem hasKeyFrom_escape {c : UInt8} :
    hasKeyFrom key true false (chr '\\' :: c :: tail) = hasKeyFrom key true false tail := by
  have hskip : hasKeyFrom key true true (c :: tail) = hasKeyFrom key true false tail := by
    rw [hasKeyFrom]
    simp
  rw [hasKeyFrom, ← hskip]
  simp

theorem hasKeyFrom_raw (s : List Piece) :
    hasKeyFrom key true false (raw s ++ chr '"' :: tail) = hasKeyFrom key false false tail := by
  induction s with
  | nil =>
      rw [raw_nil, List.nil_append, hasKeyFrom]
      simp [show chr '"' ≠ chr '\\' by decide]
  | cons p s ih =>
      cases p with
      | plain c h =>
          exact (hasKeyFrom_inside h.2.1 h.2.2).trans ih
      | short c h => exact hasKeyFrom_escape.trans ih
      | unicode h₁ h₂ h₃ h₄ h =>
          have hin : ∀ {c : UInt8} {t : Bytes}, isHexDigit c = true →
              hasKeyFrom key true false (c :: t) = hasKeyFrom key true false t := fun hc =>
            hasKeyFrom_inside (JsonText.ne_of_isHexDigit hc).1 (JsonText.ne_of_isHexDigit hc).2
          exact hasKeyFrom_escape.trans
            ((hin h.1).trans ((hin h.2.1).trans ((hin h.2.2.1).trans ((hin h.2.2.2).trans ih))))

theorem raw_eq_of_needle {s : List Piece} (hkey : Plain key)
    (h : needle key <+: chr '"' :: (raw s ++ chr '"' :: tail)) : raw s = key := by
  have hrest : key ++ chr '"' :: [] <+: raw s ++ chr '"' :: tail := (List.cons_prefix_cons.mp h).2
  exact (JsonText.raw_eq_of_head hkey hrest).1

/-- A string literal is a hit if it is spelled so and a colon comes next. -/
theorem hasKeyFrom_string (hkey : Plain key) (s : List Piece) :
    hasKeyFrom key false false (stringText s ++ tail) =
      (decide (raw s = key ∧ ColonNext tail) || hasKeyFrom key false false tail) := by
  have htext : stringText s ++ tail = chr '"' :: (raw s ++ chr '"' :: tail) := by
    simp [stringText]
  rw [htext]
  by_cases hraw : raw s = key
  · subst hraw
    have hneedle : chr '"' :: (raw s ++ chr '"' :: tail) = needle (raw s) ++ tail := by
      simp [needle]
    rw [hasKeyFrom, hneedle, isSome_afterMember_needle]
    by_cases hcolon : ColonNext tail <;>
      simp [hcolon, hasKeyFrom_raw, show chr '"' ≠ chr '\\' by decide]
  · have hprefix : ¬ needle key <+: chr '"' :: (raw s ++ chr '"' :: tail) := fun h =>
      hraw (raw_eq_of_needle hkey h)
    rw [hasKeyFrom, afterMember_of_not_prefix hprefix]
    simp [hraw, hasKeyFrom_raw, show chr '"' ≠ chr '\\' by decide]

/-! ### A text -/

/-- Some name is spelled so. -/
def Among (key : Bytes) (names : List (List Piece)) : Prop := ∃ name ∈ names, raw name = key

instance (key : Bytes) (names : List (List Piece)) : Decidable (Among key names) :=
  inferInstanceAs (Decidable (∃ name ∈ names, _))

theorem among_append {names more : List (List Piece)} :
    Among key (names ++ more) ↔ Among key names ∨ Among key more := by
  simp [Among, or_and_right, exists_or]

theorem among_cons {name : List Piece} {names : List (List Piece)} :
    Among key (name :: names) ↔ raw name = key ∨ Among key names := by
  simp [Among]

theorem hasKeyFrom_comma (first : Bool) :
    hasKeyFrom key false false (comma first ++ tail) = hasKeyFrom key false false tail := by
  refine hasKeyFrom_append ?_
  cases first <;> decide

theorem quote_notMem_literal (l : Literal) : chr '"' ∉ l.text := fun hmem =>
  (isWord_literal l _ hmem).2 (by decide)

mutual

theorem hasKeyFrom_value (hkey : Plain key) : ∀ (v : Value) {tail : Bytes}, ¬ ColonNext tail →
    hasKeyFrom key false false (v.render ++ tail) =
      (decide (Among key v.names) || hasKeyFrom key false false tail)
  | .literal l, tail, _ => by
      rw [Value.render, hasKeyFrom_append (quote_notMem_literal l)]
      simp [Value.names, Among]
  | .string s, tail, htail => by
      rw [Value.render, hasKeyFrom_string hkey]
      simp [Value.names, Among, htail]
  | .array lead items, tail, htail => by
      have hitems := hasKeyFrom_items hkey items true tail
      rw [Value.render, List.cons_append, hasKeyFrom_cons (by decide), List.append_assoc,
        List.append_assoc, hasKeyFrom_blanks]
      exact hitems
  | .object lead members, tail, htail => by
      have hmembers := hasKeyFrom_members hkey members true tail
      rw [Value.render, List.cons_append, hasKeyFrom_cons (by decide), List.append_assoc,
        List.append_assoc, hasKeyFrom_blanks]
      exact hmembers

theorem hasKeyFrom_items (hkey : Plain key) : ∀ (items : Items) (first : Bool) (tail : Bytes),
    hasKeyFrom key false false (items.render first ++ chr ']' :: tail) =
      (decide (Among key items.names) || hasKeyFrom key false false tail)
  | .nil, first, tail => by
      rw [Items.render, List.nil_append, hasKeyFrom_cons (by decide)]
      simp [Items.names, Among]
  | .cons pre v post rest, first, tail => by
      have hnext : ¬ ColonNext (post.text ++ (rest.render false ++ chr ']' :: tail)) := fun h =>
        not_colonNext_items rest tail (colonNext_blanks.mp h)
      simp only [Items.render, List.append_assoc]
      rw [hasKeyFrom_comma, hasKeyFrom_blanks, hasKeyFrom_value hkey v hnext, hasKeyFrom_blanks,
        hasKeyFrom_items hkey rest false tail]
      simp [Items.names, among_append, Bool.or_assoc]

theorem hasKeyFrom_members (hkey : Plain key) : ∀ (members : Members) (first : Bool) (tail : Bytes),
    hasKeyFrom key false false (members.render first ++ chr '}' :: tail) =
      (decide (Among key members.names) || hasKeyFrom key false false tail)
  | .nil, first, tail => by
      rw [Members.render, List.nil_append, hasKeyFrom_cons (by decide)]
      simp [Members.names, Among]
  | .cons pre name mid gap v post rest, first, tail => by
      have hnext : ¬ ColonNext (post.text ++ (rest.render false ++ chr '}' :: tail)) := fun h =>
        not_colonNext_members rest tail (colonNext_blanks.mp h)
      simp only [Members.render, List.append_assoc, List.cons_append]
      rw [hasKeyFrom_comma, hasKeyFrom_blanks, hasKeyFrom_string hkey, hasKeyFrom_blanks,
        hasKeyFrom_cons (by decide), hasKeyFrom_blanks, hasKeyFrom_value hkey v hnext,
        hasKeyFrom_blanks, hasKeyFrom_members hkey rest false tail]
      simp [Members.names, among_append, among_cons, Bool.or_assoc, colonNext_colon]

end

/-- `json_has_key` on a JSON text. -/
theorem jsonHasKey_render (hkey : Plain key) (q : Text) :
    jsonHasKey q.render key = decide (Among key q.v.names) := by
  have htail : ¬ ColonNext (q.trail.text ++ []) := fun h =>
    not_colonNext_nil (colonNext_blanks.mp h)
  have hend : hasKeyFrom key false false (q.trail.text ++ []) = false := by
    rw [hasKeyFrom_blanks]
    rfl
  unfold jsonHasKey Text.render
  rw [List.append_assoc, hasKeyFrom_blanks, ← List.append_nil q.trail.text,
    hasKeyFrom_value hkey q.v htail, hend, Bool.or_false]

end

end ExamVan.Admin.Settings

namespace ExamVan.Admin.Settings

open ByteString Queue
open JsonText (Blanks Solid Text)

/-- The text of a string literal, and what it is read as. -/
inductive Unslashed : Bytes → Bytes → Prop
  | nil : Unslashed [] []
  | escaped (c : UInt8) {s t : Bytes} (h : Unslashed s t) : Unslashed (chr '\\' :: c :: s) (c :: t)
  | plain {c : UInt8} {s t : Bytes} (hc : c ≠ chr '"' ∧ c ≠ chr '\\') (h : Unslashed s t) :
      Unslashed (c :: s) (c :: t)

/-- What the text after a colon is read as. -/
inductive ReadsAs : Bytes → Bytes → Prop
  | string (w : Blanks) {s t : Bytes} (tail : Bytes) (h : Unslashed s t) :
      ReadsAs (w.text ++ chr '"' :: (s ++ chr '"' :: tail)) t
  | unclosed (w : Blanks) {u : Bytes}
      (h : ∀ s t tail, Unslashed s t → u ≠ s ++ chr '"' :: tail) :
      ReadsAs (w.text ++ chr '"' :: u) []
  | word (w : Blanks) {u : Bytes} (hsolid : Solid u) (hquote : chr '"' ∉ u.head?) :
      ReadsAs (w.text ++ u) ((u.takeWhile fun b => !isValueEnd b).rdropWhile JsonText.isBlank)

/-- The value text that stands for a key. -/
def Stands (body key t : Bytes) : Prop :=
  ∃ between after, findSub (needle key) body = some (needle key ++ (between ++ chr ':' :: after)) ∧
    chr ':' ∉ between ∧ ReadsAs after t

section

variable {body key s t u tail : Bytes}

/-! ### Strings -/

theorem readQuoted_append (h : Unslashed s t) : Api.readQuoted (s ++ chr '"' :: tail) = some t := by
  induction h with
  | nil =>
      rw [List.nil_append, Api.readQuoted.eq_def]
      simp [show chr '"' ≠ chr '\\' by decide]
  | escaped c h ih =>
      rw [List.cons_append, List.cons_append, Api.readQuoted.eq_def]
      simp [ih]
  | plain hc h ih =>
      rw [List.cons_append, Api.readQuoted.eq_def]
      simp [hc.1, hc.2, ih]

theorem exists_of_readQuoted (h : Api.readQuoted u = some t) :
    ∃ s tail, Unslashed s t ∧ u = s ++ chr '"' :: tail := by
  induction u using Api.readQuoted.induct generalizing t with
  | case1 => cases h
  | case2 => cases h
  | case3 d u ih =>
      rw [Api.readQuoted.eq_def] at h
      obtain ⟨t, ht, rfl⟩ : ∃ t', Api.readQuoted u = some t' ∧ d :: t' = t := by simpa using h
      obtain ⟨s, tail, hs, rfl⟩ := ih ht
      exact ⟨chr '\\' :: d :: s, tail, .escaped d hs, rfl⟩
  | case4 rest hne =>
      rw [Api.readQuoted.eq_def] at h
      obtain rfl : [] = t := by simpa [hne] using h
      exact ⟨[], rest, .nil, rfl⟩
  | case5 c rest hback hquote ih =>
      rw [Api.readQuoted.eq_def] at h
      obtain ⟨t, ht, rfl⟩ : ∃ t', Api.readQuoted rest = some t' ∧ c :: t' = t := by
        simpa [hback, hquote] using h
      obtain ⟨s, tail, hs, rfl⟩ := ih ht
      exact ⟨c :: s, tail, .plain ⟨hquote, hback⟩ hs, rfl⟩

theorem readQuoted_eq_none (h : ∀ s t tail, Unslashed s t → u ≠ s ++ chr '"' :: tail) :
    Api.readQuoted u = none := by
  refine Option.eq_none_iff_forall_ne_some.mpr fun t ht => ?_
  obtain ⟨s, tail, hs, hu⟩ := exists_of_readQuoted ht
  exact h s t tail hs hu

/-! ### The value behind a colon -/

/-- Every text is read as something. -/
theorem exists_readsAs (after : Bytes) : ∃ t, ReadsAs after t := by
  have hsplit : after = after.takeWhile JsonText.isBlank ++ after.dropWhile JsonText.isBlank :=
    List.takeWhile_append_dropWhile.symm
  let w : Blanks := ⟨after.takeWhile JsonText.isBlank, fun c hc => List.mem_takeWhile_imp hc⟩
  have hsolid : Solid (after.dropWhile JsonText.isBlank) := List.dropWhile_idempotent _ _
  generalize after.dropWhile JsonText.isBlank = u at hsplit hsolid
  have hafter : after = w.text ++ u := hsplit
  rw [hafter]
  by_cases hquote : chr '"' ∈ u.head?
  · obtain ⟨u, rfl⟩ := List.head?_eq_some_iff.mp hquote
    by_cases hclosed : ∃ s t tail, Unslashed s t ∧ u = s ++ chr '"' :: tail
    · obtain ⟨s, t, tail, hs, rfl⟩ := hclosed
      exact ⟨t, .string w tail hs⟩
    · exact ⟨[], .unclosed w fun s t tail hs hu => hclosed ⟨s, t, tail, hs, hu⟩⟩
  · exact ⟨_, .word w hsolid hquote⟩

/-- `json_has_key` has seen the key and a colon. -/
theorem exists_of_hasKeyFrom {inStr esc : Bool} (h : hasKeyFrom key inStr esc body = true) :
    ∃ before after, body = before ++ (needle key ++ after) ∧ chr ':' ∈ after := by
  induction body generalizing inStr esc with
  | nil => cases h
  | cons c body ih =>
      have hlater : ∀ {inStr esc : Bool}, hasKeyFrom key inStr esc body = true →
          ∃ before after, c :: body = before ++ (needle key ++ after) ∧ chr ':' ∈ after := by
        intro inStr esc hbody
        obtain ⟨before, after, rfl, hcolon⟩ := ih hbody
        exact ⟨c :: before, after, rfl, hcolon⟩
      rw [hasKeyFrom] at h
      split at h
      next hhit =>
        have hmember : (Api.afterMember key (c :: body)).isSome = true := by
          simp only [Bool.and_eq_true] at hhit
          exact hhit.2
        unfold Api.afterMember at hmember
        split at hmember
        next hprefix =>
          obtain ⟨after, hafter⟩ := hprefix
          refine ⟨[], after, hafter.symm, ?_⟩
          rw [← hafter, List.drop_left] at hmember
          split at hmember
          next => cases hmember
          next d rest hrest =>
            split at hmember
            next hd =>
              have hmem : d ∈ after.dropWhile Queue.isBlank := by
                rw [hrest]
                exact List.mem_cons_self
              rw [← hd]
              exact (List.dropWhile_sublist _).mem hmem
            next => cases hmember
        next => cases hmember
      next =>
        split at h
        · exact hlater h
        · split at h
          · exact hlater h
          · split at h <;> exact hlater h

/-- The first place is no later than any other one. -/
theorem findSub_append_suffix {needle before rest : Bytes} (h : needle <+: rest) :
    ∃ t, findSub needle (before ++ rest) = some t ∧ rest <:+ t := by
  induction before with
  | nil => exact ⟨rest, findSub_of_head h, List.suffix_rfl⟩
  | cons c before ih =>
      rw [List.cons_append, findSub]
      split
      · exact ⟨_, rfl, (List.suffix_append before rest).trans (List.suffix_cons c _)⟩
      · exact ih

/-- Behind the first place of the key, there is the colon of the place where it was seen. -/
theorem exists_stands (h : jsonHasKey body key = true) : ∃ t, Stands body key t := by
  obtain ⟨before, after, rfl, hcolon⟩ := exists_of_hasKeyFrom h
  have hprefix : needle key <+: needle key ++ after := List.prefix_append _ _
  obtain ⟨t, hfind, hsuffix⟩ := findSub_append_suffix hprefix
  obtain ⟨-, -, x, rfl⟩ := exists_of_findSub hfind
  have hafter : after <:+ x := by
    refine List.suffix_of_suffix_length_le ((List.suffix_append _ _).trans hsuffix)
      (List.suffix_append _ _) ?_
    simpa using hsuffix.length_le
  obtain ⟨between, rest, rfl, hbetween⟩ := List.eq_append_cons_of_mem (hafter.mem hcolon)
  obtain ⟨t, ht⟩ := exists_readsAs rest
  exact ⟨t, between, rest, hfind, hbetween, ht⟩

theorem trim_solid {s : Bytes} (hs : ∀ c ∈ s.head?, JsonText.isBlank c = false) :
    ExamToken.trim s = s.rdropWhile JsonText.isBlank := by
  have hsame : ExamToken.isTrimmed = JsonText.isBlank := rfl
  unfold ExamToken.trim
  rw [hsame]
  congr 1
  cases s with
  | nil => rfl
  | cons c s => exact List.dropWhile_cons_of_neg (by simpa using hs c rfl)

theorem dropWhile_quote (w : Blanks) (u : Bytes) :
    (w.text ++ chr '"' :: u).dropWhile JsonText.isBlank = chr '"' :: u := by
  rw [JsonText.dropWhile_blanks, List.dropWhile_cons_of_neg (by decide)]

section

variable {between after : Bytes} {w : Blanks}
  (hfind : findSub (needle key) body = some (needle key ++ (between ++ chr ':' :: after)))
  (hbetween : chr ':' ∉ between)

include hfind hbetween

theorem jsonStringField_eq (hafter : after = w.text ++ chr '"' :: u) :
    Api.jsonStringField body key = (Api.readQuoted u).getD [] := by
  unfold Api.jsonStringField
  simp only [hfind, List.drop_left, findByte_eq_append hbetween, List.tail_cons]
  rw [queueIsBlank_eq, hafter, dropWhile_quote]
  simp

theorem rawVal_string (hafter : after = w.text ++ chr '"' :: u) :
    rawVal body key = (Api.readQuoted u).getD [] := by
  unfold rawVal
  simp only [hfind, List.drop_left, findByte_eq_append hbetween, List.tail_cons]
  rw [jsonStringField_eq hfind hbetween hafter, queueIsBlank_eq, hafter, dropWhile_quote]
  simp

theorem rawVal_word (hsolid : Solid u) (hquote : chr '"' ∉ u.head?) (hafter : after = w.text ++ u) :
    rawVal body key = (u.takeWhile fun b => !isValueEnd b).rdropWhile JsonText.isBlank := by
  unfold rawVal
  simp only [hfind, List.drop_left, findByte_eq_append hbetween, List.tail_cons]
  rw [queueIsBlank_eq, hafter, JsonText.dropWhile_blanks, hsolid]
  cases u with
  | nil => rfl
  | cons c u =>
      have hc : c ≠ chr '"' := fun heq => hquote (by rw [heq]; rfl)
      have hblank : JsonText.isBlank c = false := by
        refine Bool.eq_false_iff.mpr fun htrue => ?_
        have hdrop : u.dropWhile JsonText.isBlank = c :: u :=
          (List.dropWhile_cons_of_pos htrue).symm.trans hsolid
        have hlength := hdrop ▸ List.length_dropWhile_le JsonText.isBlank u
        simp at hlength
      have hhead : ∀ b ∈ ((c :: u).takeWhile fun b => !isValueEnd b).head?,
          JsonText.isBlank b = false := by
        intro b hb
        rw [List.takeWhile_cons] at hb
        split at hb
        · obtain rfl : c = b := by simpa using hb
          exact hblank
        · cases hb
      simp only [hc, if_false]
      rw [trim_solid hhead]

end

theorem rawVal_of_stands (h : Stands body key t) : rawVal body key = t := by
  obtain ⟨between, after, hfind, hbetween, hreads⟩ := h
  cases hreads with
  | string w tail hs =>
      rw [rawVal_string hfind hbetween rfl, readQuoted_append hs]
      rfl
  | unclosed w hnone =>
      rw [rawVal_string hfind hbetween rfl, readQuoted_eq_none hnone]
      rfl
  | word w hsolid hquote => exact rawVal_word hfind hbetween hsolid hquote rfl

theorem rawVal_eq_iff (h : jsonHasKey body key = true) : rawVal body key = t ↔ Stands body key t := by
  constructor
  · obtain ⟨t', ht'⟩ := exists_stands h
    rintro rfl
    rwa [rawVal_of_stands ht']
  · exact rawVal_of_stands

end

end ExamVan.Admin.Settings
