import ExamVan.Middleware.Grade
import ExamVan.Middleware.Notations

/-!
# How an answer is written

Whatever notation an answer is written in, and in whatever order, case and spacing, the same tokens or
pairs are graded, provided that nothing in it is escaped. The key comes first: its tokens are read
again for every answer, and the loop over them need not end.
-/

namespace ExamVan.Middleware

open ByteString ExamToken JsonText
open Queue (escapedPieces)

/-! ### Answers -/

inductive Answer
  | tokens (ts : List Bytes)
  | pairs (kvs : List KV)

namespace Answer

def Valid : Answer → Prop
  | .tokens ts => ts ≠ [] ∧ ∀ t ∈ ts, IsEntry t
  | .pairs kvs => kvs ≠ [] ∧ ∀ kv ∈ kvs, IsEntry kv.1 ∧ IsEntry kv.2 ∧ chr ':' ∉ kv.1

def AllHarmless : Answer → Prop
  | .tokens ts => ∀ t ∈ ts, Harmless t
  | .pairs kvs => ∀ kv ∈ kvs, Harmless kv.1 ∧ Harmless kv.2

/-- The type of the question takes such answers. -/
def Suits (type : Bytes) : Answer → Prop
  | .tokens _ => type = str "multiple_choice" ∨ type = str "multiple_answer"
  | .pairs _ => type = str "matching"

/-- The same answer up to order, case and runs of spaces. -/
inductive Same : Answer → Answer → Prop
  | tokens {ts us vs : List Bytes} (hperm : ts.Perm us) (halike : List.Forall₂ Alike us vs) :
      Same (.tokens ts) (.tokens vs)
  | pairs {kvs us vs : List KV} (hperm : kvs.Perm us)
      (halike : List.Forall₂ (fun a b => Alike a.1 b.1 ∧ Alike a.2 b.2) us vs) :
      Same (.pairs kvs) (.pairs vs)

/-- The texts of an answer. -/
inductive Writes : Answer → Bytes → Prop
  | array {ts : List Bytes} (lead inner : Blanks) (items : Items) (trail : Blanks)
      (h : items.values = ts.map fun t => .string (escapedPieces t)) :
      Writes (.tokens ts) (Text.render ⟨lead, .array inner items, trail⟩)
  | list {ts : List Bytes} {sep : UInt8} (h : sep = chr ',' ∨ sep = chr ';') :
      Writes (.tokens ts) ([sep].intercalate ts)
  | object {kvs : List KV} (lead inner : Blanks) (members : Members) (trail : Blanks)
      (h : members.own = kvs.map fun kv => (escapedPieces kv.1, .string (escapedPieces kv.2))) :
      Writes (.pairs kvs) (Text.render ⟨lead, .object inner members, trail⟩)
  | pairs {kvs : List KV} :
      Writes (.pairs kvs) ([chr ','].intercalate (kvs.map fun kv => kv.1 ++ chr ':' :: kv.2))

end Answer

/-- Every text of an answer gets the same detail. -/
def SameDetail (q : Question) (a : Answer) : Prop :=
  ∃ d, ∀ b w, a.Same b → b.Writes w → evaluateQuestionDetail q w = some d

/-- Separators, quoted strings and words, none of which a closing bracket ends. -/
inductive TokenText : Bytes → Prop
  | nil : TokenText []
  | gap {c : UInt8} {s : Bytes} (hc : isTokenGap c = true) (h : TokenText s) : TokenText (c :: s)
  | quoted {s : Bytes} (h : TokenText (readQuoted s).2) : TokenText (chr '"' :: s)
  | word {c : UInt8} {w s : Bytes} (hquote : c ≠ chr '"') (hgap : isTokenGap c = false)
      (hw : ∀ b ∈ c :: w, endsToken b = false) (hs : ∀ b ∈ s.head?, endsToken b = true)
      (h : TokenText s) : TokenText (c :: (w ++ s))

/-- The key of a question with a set of answers has no loose closing bracket. -/
def KeyReadable (q : Question) : Prop :=
  isSetType q.type = true → TokenText (between (chr '[') (chr ']') q.keyRaw)

/-! ### When the tokens are read -/

section

variable {s w r t : Bytes}

theorem tokenRound_gap {c : UInt8} (hc : isTokenGap c = true) (s : Bytes) :
    tokenRound (c :: s) = tokenRound s := by
  have hdrop : (c :: s).dropWhile isTokenGap = s.dropWhile isTokenGap := List.dropWhile_cons_of_pos hc
  cases h : s.dropWhile isTokenGap with
  | nil => rw [tokenRound_of_nil h, tokenRound_of_nil (hdrop.trans h)]
  | cons d t => rw [tokenRound_of_cons h, tokenRound_of_cons (hdrop.trans h)]

theorem isSome_scan_gap {c : UInt8} (hc : isTokenGap c = true) (s : Bytes) (n : Nat) :
    scan tokenRound n (c :: s) = scan tokenRound n s := by
  cases n with
  | zero => rfl
  | succ n =>
      cases h : tokenRound s with
      | none => rw [Scan.of_none h, Scan.of_none ((tokenRound_gap hc s).trans h)]
      | some r => rw [Scan.of_some h, Scan.of_some ((tokenRound_gap hc s).trans h)]

theorem tokenRound_quote (s : Bytes) : tokenRound (chr '"' :: s) = some (readQuoted s) := by
  rw [tokenRound_of_cons (List.dropWhile_cons_of_neg (by decide)), readText_quote]

theorem tokenRound_word {c : UInt8} (hquote : c ≠ chr '"') (hgap : isTokenGap c = false)
    (hw : ∀ b ∈ c :: w, endsToken b = false) (hs : ∀ b ∈ s.head?, endsToken b = true) :
    tokenRound (c :: (w ++ s)) = some (c :: w, s) := by
  have htake : (c :: w ++ s).takeWhile (fun b => !endsToken b) = c :: w := by
    rw [List.takeWhile_append_of_pos fun b hb => by simp [hw b hb]]
    cases s with
    | nil => rw [List.takeWhile_nil, List.append_nil]
    | cons b s => rw [List.takeWhile_cons_of_neg (by simp [hs b rfl]), List.append_nil]
  have hdrop : (c :: w ++ s).dropWhile (fun b => !endsToken b) = s := by
    rw [List.dropWhile_append_of_pos fun b hb => by simp [hw b hb]]
    cases s with
    | nil => rfl
    | cons b s => rw [List.dropWhile_cons_of_neg (by simp [hs b rfl])]
  rw [tokenRound_of_cons (List.dropWhile_cons_of_neg (by simp [hgap])), readText_of_ne _ hquote,
    ← List.cons_append, htake, hdrop]

/-- The loop over the tokens ends exactly on such a text. -/
theorem exists_scan_iff : (∃ n items, scan tokenRound n s = some items) ↔ TokenText s := by
  constructor
  · rintro ⟨n, items, h⟩
    induction hlength : s.length using Nat.strong_induction_on generalizing s n items with
    | _ length ih =>
      cases s with
      | nil => exact .nil
      | cons c s =>
          cases hgap : isTokenGap c with
          | true =>
              rw [isSome_scan_gap hgap] at h
              exact .gap hgap (ih s.length (by rw [← hlength]; simp) n items h rfl)
          | false =>
              cases n with
              | zero => cases h
              | succ n =>
                  by_cases hquote : c = chr '"'
                  · rw [hquote] at h ⊢
                    rw [Scan.of_some (tokenRound_quote s)] at h
                    obtain ⟨rest, hrest, -⟩ := Option.map_eq_some_iff.mp h
                    have hshort := readQuoted_length s
                    exact .quoted (ih _ (by rw [← hlength, List.length_cons]; omega) n rest hrest rfl)
                  · have hround : tokenRound (c :: s) = some ((c :: s).takeWhile fun b => !endsToken b,
                        (c :: s).dropWhile fun b => !endsToken b) := by
                      rw [tokenRound_of_cons (List.dropWhile_cons_of_neg (by simp [hgap])),
                        readText_of_ne _ hquote]
                    cases hends : endsToken c with
                    | true =>
                        rw [List.takeWhile_cons_of_neg (by simp [hends]),
                          List.dropWhile_cons_of_neg (by simp [hends])] at hround
                        rw [Scan.eq_none_of_loop hround] at h
                        cases h
                    | false =>
                        rw [Scan.of_some hround] at h
                        obtain ⟨rest, hrest, -⟩ := Option.map_eq_some_iff.mp h
                        rw [List.dropWhile_cons_of_pos (by simp [hends])] at hrest
                        have hshort := List.length_dropWhile_le (fun b => !endsToken b) s
                        have htail := ih _ (by rw [← hlength, List.length_cons]; omega) n rest hrest rfl
                        have hsplit : c :: s = c :: (s.takeWhile (fun b => !endsToken b) ++
                            s.dropWhile fun b => !endsToken b) := by
                          rw [List.takeWhile_append_dropWhile]
                        rw [hsplit]
                        refine .word hquote hgap ?_ ?_ htail
                        · intro b hb
                          rcases List.mem_cons.mp hb with rfl | hb
                          · exact hends
                          · simpa using List.mem_takeWhile_imp hb
                        · intro b hb
                          have hhead := List.head?_dropWhile_not (fun b => !endsToken b) s
                          rw [Option.mem_def.mp hb] at hhead
                          simpa using hhead
  · intro h
    induction h with
    | nil => exact ⟨1, [], rfl⟩
    | @gap c s hc _ ih =>
        obtain ⟨n, items, h⟩ := ih
        exact ⟨n, items, by rw [isSome_scan_gap hc, h]⟩
    | @quoted s _ ih =>
        obtain ⟨n, items, h⟩ := ih
        exact ⟨n + 1, _, by rw [Scan.of_some (tokenRound_quote s), h]; rfl⟩
    | word hquote hgap hw hs _ ih =>
        obtain ⟨n, items, h⟩ := ih
        exact ⟨n + 1, _, by rw [Scan.of_some (tokenRound_word hquote hgap hw hs), h]; rfl⟩

theorem isSome_parseSetTokens_iff (raw : Bytes) :
    (parseSetTokens raw).isSome = true ↔ TokenText (between (chr '[') (chr ']') raw) := by
  rw [← exists_scan_iff, Option.isSome_iff_exists]
  constructor
  · rintro ⟨tokens, h⟩
    obtain ⟨n, hn⟩ := parseSetTokens_eq_some.mp h
    obtain ⟨items, hitems, -⟩ := Option.map_eq_some_iff.mp hn
    exact ⟨n, items, hitems⟩
  · rintro ⟨n, items, h⟩
    exact ⟨tokensOf items, parseSetTokens_eq_some.mpr ⟨n, by rw [setTokensIn, h]; rfl⟩⟩

/-! ### Entries -/

theorem IsEntry.not_gap (ht : IsEntry t) {p : UInt8 → Bool}
    (hp : ∀ c, p c = true → isSpace c = true ∨ isSpecial c = true) : ∃ c ∈ t, p c = false := by
  obtain ⟨c, hc, hspace⟩ := ht.ink
  refine ⟨c, hc, Bool.eq_false_iff.mpr fun htrue => ?_⟩
  rcases hp c htrue with h | h
  · rw [hspace] at h
    cases h
  · rw [ht.plain c hc] at h
    cases h

theorem dropWhile_ne_nil {p : UInt8 → Bool} (h : ∃ c ∈ t, p c = false) : t.dropWhile p ≠ [] := by
  obtain ⟨c, hc, hp⟩ := h
  intro hnil
  have hall := List.dropWhile_eq_nil_iff.mp hnil c hc
  rw [hp] at hall
  cases hall

theorem dropWhile_append_ink {p : UInt8 → Bool} (h : ∃ c ∈ t, p c = false) (r : Bytes) :
    (t ++ r).dropWhile p = t.dropWhile p ++ r := by
  rw [List.dropWhile_append, if_neg (by simpa using dropWhile_ne_nil h)]

/-- A part of a token that has lost its leading spaces is the same token. -/
theorem normAns_dropWhile {p : UInt8 → Bool} (hp : ∀ c ∈ t, p c = true → isSpace c = true) :
    normAns (t.dropWhile p) = normAns t := by
  induction t with
  | nil => rfl
  | cons c t ih =>
      rw [List.dropWhile_cons]
      split
      next hc =>
        have hspace := hp c List.mem_cons_self hc
        have hskip : normAns (c :: t) = normFrom false true t := by simp [normAns, normFrom, hspace]
        rw [ih fun d hd => hp d (List.mem_cons_of_mem _ hd), hskip, normFrom_false]
        rfl
      next => rfl

theorem queueIsBlank_or (c : UInt8) (h : Queue.isBlank c = true) :
    isSpace c = true ∨ isSpecial c = true := by
  simp only [Queue.isBlank, Bool.or_eq_true, decide_eq_true_eq] at h
  rcases h with ((rfl | rfl) | rfl) | rfl <;> exact .inl rfl

theorem isTokenGap_or (c : UInt8) (h : isTokenGap c = true) : isSpace c = true ∨ isSpecial c = true := by
  simp only [isTokenGap, Bool.or_eq_true, decide_eq_true_eq] at h
  rcases h with (h | rfl) | rfl
  · exact queueIsBlank_or c h
  · exact .inr rfl
  · exact .inr rfl

theorem isPairGap_or (c : UInt8) (h : isPairGap c = true) : isSpace c = true ∨ isSpecial c = true := by
  simp only [isPairGap, Bool.or_eq_true, decide_eq_true_eq] at h
  rcases h with h | rfl
  · exact queueIsBlank_or c h
  · exact .inr rfl

theorem isSpecial_of_endsToken (c : UInt8) (h : endsToken c = true) : isSpecial c = true := by
  simp only [endsToken, Bool.or_eq_true, decide_eq_true_eq] at h
  rcases h with ((((rfl | rfl) | rfl) | rfl) | rfl) | rfl <;> rfl

theorem isTokenGap_blanks (b : Blanks) : ∀ c ∈ b.text, isTokenGap c = true := by
  intro c hc
  rw [isTokenGap, Queue.queueIsBlank_eq, b.isBlank c hc]
  rfl

theorem isPairGap_blanks (b : Blanks) : ∀ c ∈ b.text, isPairGap c = true := by
  intro c hc
  rw [isPairGap, Queue.queueIsBlank_eq, b.isBlank c hc]
  rfl

theorem IsEntry.space_of {p : UInt8 → Bool} (ht : IsEntry t)
    (hp : ∀ c, p c = true → isSpace c = true ∨ isSpecial c = true) :
    ∀ c ∈ t, p c = true → isSpace c = true := by
  intro c hc htrue
  refine (hp c htrue).resolve_right fun h => ?_
  rw [ht.plain c hc] at h
  cases h

theorem normAns_dropGap {p : UInt8 → Bool} (ht : IsEntry t)
    (hp : ∀ c, p c = true → isSpace c = true ∨ isSpecial c = true) :
    normAns (t.dropWhile p) = normAns t := normAns_dropWhile (ht.space_of hp)

theorem IsEntry.ne_of_special (ht : IsEntry t) {c d : UInt8} (hc : c ∈ t) (hd : isSpecial d = true) :
    c ≠ d := by
  rintro rfl
  rw [ht.plain c hc] at hd
  cases hd

/-- What is read up to a byte that ends it. -/
theorem readText_entry {ends : UInt8 → Bool} (ht : ∀ c ∈ t, ends c = false)
    (hquote : ∀ c ∈ t.head?, c ≠ chr '"') (hr : ∀ c ∈ r.head?, ends c = true) (hne : t ≠ []) :
    readText ends (t ++ r) = (t, r) := by
  obtain ⟨c, t, rfl⟩ := List.exists_cons_of_ne_nil hne
  have htake : (c :: t ++ r).takeWhile (fun b => !ends b) = c :: t := by
    rw [List.takeWhile_append_of_pos fun b hb => by simp [ht b hb]]
    cases r with
    | nil => rw [List.takeWhile_nil, List.append_nil]
    | cons b r => rw [List.takeWhile_cons_of_neg (by simp [hr b rfl]), List.append_nil]
  have hdrop : (c :: t ++ r).dropWhile (fun b => !ends b) = r := by
    rw [List.dropWhile_append_of_pos fun b hb => by simp [ht b hb]]
    cases r with
    | nil => rfl
    | cons b r => rw [List.dropWhile_cons_of_neg (by simp [hr b rfl])]
  rw [List.cons_append, readText_of_ne _ (hquote c rfl), ← List.cons_append, htake, hdrop]

/-- An entry that stands behind separators, without its leading spaces. -/
theorem tokenRound_entry (ht : IsEntry t) (hw : ∀ c ∈ w, isTokenGap c = true)
    (hr : ∀ c ∈ r.head?, endsToken c = true) :
    tokenRound (w ++ (t ++ r)) = some (t.dropWhile isTokenGap, r) := by
  have hgap := ht.not_gap isTokenGap_or
  have hsub : ∀ c ∈ t.dropWhile isTokenGap, c ∈ t := fun c hc => (List.dropWhile_sublist _).mem hc
  have hread : readText endsToken (t.dropWhile isTokenGap ++ r) = (t.dropWhile isTokenGap, r) := by
    refine readText_entry (fun c hc => Bool.eq_false_iff.mpr fun h => ?_) (fun c hc => ?_) hr
      (dropWhile_ne_nil hgap)
    · exact ht.ne_of_special (hsub c hc) (isSpecial_of_endsToken c h) rfl
    · exact ht.ne_of_special (hsub c (List.mem_of_mem_head? hc)) (by decide)
  obtain ⟨c, u, hcu⟩ := List.exists_cons_of_ne_nil (dropWhile_ne_nil hgap)
  have hdrop : (w ++ (t ++ r)).dropWhile isTokenGap = c :: (u ++ r) := by
    rw [List.dropWhile_append_of_pos hw, dropWhile_append_ink hgap, hcu]
    rfl
  rw [tokenRound_of_cons hdrop]
  rw [hcu] at hread ⊢
  exact congrArg some hread

/-! ### Lists -/

theorem mem_intercalate {sep c : UInt8} {ts : List Bytes} (h : c ∈ [sep].intercalate ts) :
    c = sep ∨ ∃ t ∈ ts, c ∈ t := by
  induction ts with
  | nil => simp at h
  | cons t ts ih =>
      cases ts with
      | nil =>
          rw [List.intercalate_singleton] at h
          exact .inr ⟨t, List.mem_cons_self, h⟩
      | cons u ts =>
          rw [List.intercalate_cons_cons] at h
          simp only [List.mem_append, List.mem_singleton] at h
          rcases h with (h | h) | h
          · exact .inr ⟨t, List.mem_cons_self, h⟩
          · exact .inl h
          · exact (ih h).imp_right fun ⟨v, hv, hmem⟩ => ⟨v, List.mem_cons_of_mem _ hv, hmem⟩

/-- A list is read entry by entry, whatever separators stand before it. -/
theorem scan_list {sep : UInt8} (hgap : isTokenGap sep = true) (hends : endsToken sep = true)
    {ts : List Bytes} (hts : ∀ t ∈ ts, IsEntry t) (hw : ∀ c ∈ w, isTokenGap c = true) :
    ∃ n, scan tokenRound n (w ++ [sep].intercalate ts) = some (ts.map (·.dropWhile isTokenGap)) := by
  induction ts generalizing w with
  | nil =>
      have hnone : tokenRound (w ++ [sep].intercalate []) = none := by
        rw [List.intercalate_nil, List.append_nil]
        exact tokenRound_of_nil (List.dropWhile_eq_nil_iff.mpr hw)
      exact ⟨1, Scan.of_none hnone⟩
  | cons t ts ih =>
      have ht := hts t List.mem_cons_self
      cases ts with
      | nil =>
          have hround : tokenRound (w ++ [sep].intercalate [t]) =
              some (t.dropWhile isTokenGap, []) := by
            rw [List.intercalate_singleton, ← List.append_nil t]
            have hlast := tokenRound_entry (r := []) ht hw nofun
            rwa [List.append_nil] at hlast ⊢
          exact ⟨2, by rw [Scan.of_some hround, Scan.of_none rfl]; rfl⟩
      | cons u ts =>
          have hsep : ∀ c ∈ [sep], isTokenGap c = true := fun c hc => by
            rw [List.mem_singleton.mp hc, hgap]
          obtain ⟨n, hn⟩ := ih (fun v hv => hts v (List.mem_cons_of_mem _ hv)) hsep
          have hround : tokenRound (w ++ [sep].intercalate (t :: u :: ts)) =
              some (t.dropWhile isTokenGap, [sep] ++ [sep].intercalate (u :: ts)) := by
            rw [List.intercalate_cons_cons, List.append_assoc]
            refine tokenRound_entry ht hw fun c hc => ?_
            obtain rfl : sep = c := by simpa using hc
            exact hends
          exact ⟨n + 1, by rw [Scan.of_some hround, hn]; rfl⟩

theorem tokensOf_entries {ts : List Bytes} (hts : ∀ t ∈ ts, IsEntry t) :
    tokensOf (ts.map (·.dropWhile isTokenGap)) = ts.map normAns := by
  have hne : ∀ u ∈ ts.map (·.dropWhile isTokenGap), decide (u ≠ []) = true := by
    intro u hu
    obtain ⟨t, ht, rfl⟩ := List.mem_map.mp hu
    simpa using dropWhile_ne_nil ((hts t ht).not_gap isTokenGap_or)
  rw [tokensOf, List.filter_eq_self.mpr hne, List.map_map]
  exact List.map_congr_left fun t ht => normAns_dropGap (hts t ht) isTokenGap_or

/-- A list with commas or semicolons is read as its entries. -/
theorem parseSetTokens_list {sep : UInt8} (hsep : sep = chr ',' ∨ sep = chr ';') {ts : List Bytes}
    (hts : ∀ t ∈ ts, IsEntry t) : parseSetTokens ([sep].intercalate ts) = some (ts.map normAns) := by
  have hgap : isTokenGap sep = true := by rcases hsep with rfl | rfl <;> decide
  have hends : endsToken sep = true := by rcases hsep with rfl | rfl <;> decide
  have hbracket : chr '[' ∉ [sep].intercalate ts := by
    intro h
    rcases mem_intercalate h with h | ⟨t, ht, hmem⟩
    · rcases hsep with rfl | rfl <;> exact absurd h (by decide)
    · exact (hts t ht).ne_of_special hmem (by decide) rfl
  have hbetween : between (chr '[') (chr ']') ([sep].intercalate ts) = [sep].intercalate ts := by
    refine between_of_not_enclosed ?_
    rintro y ⟨x, z, heq, -, -⟩
    exact hbracket (heq ▸ List.mem_append_right _ List.mem_cons_self)
  obtain ⟨n, hn⟩ := scan_list hgap hends hts (w := []) (List.forall_mem_nil _)
  refine parseSetTokens_eq_some.mpr ⟨n, ?_⟩
  rw [List.nil_append] at hn
  rw [setTokensIn, hbetween, hn, Option.map_some, tokensOf_entries hts]

/-! ### Arrays -/

theorem scan_items {items : Items} {ss : List (List Piece)} (h : items.values = ss.map .string)
    (first : Bool) (hw : ∀ c ∈ w, isTokenGap c = true) :
    ∃ n, scan tokenRound n (w ++ items.render first) = some (ss.map dropEscapes) := by
  induction ss generalizing items first w with
  | nil =>
      cases items with
      | cons => cases h
      | nil =>
          have hnone : tokenRound (w ++ Items.nil.render first) = none := by
            refine tokenRound_of_nil (List.dropWhile_eq_nil_iff.mpr ?_)
            rwa [show Items.nil.render first = [] from rfl, List.append_nil]
          exact ⟨1, Scan.of_none hnone⟩
  | cons s ss ih =>
      cases items with
      | nil => cases h
      | cons pre v post rest =>
          obtain ⟨rfl, hrest⟩ := List.cons.inj h
          obtain ⟨n, hn⟩ := ih hrest false (isTokenGap_blanks post)
          have hcomma : ∀ c ∈ comma first, isTokenGap c = true := by cases first <;> decide
          have hround : tokenRound (w ++ Items.render first (.cons pre (.string s) post rest)) =
              some (dropEscapes s, post.text ++ rest.render false) := by
            have htext : w ++ Items.render first (.cons pre (.string s) post rest) =
                w ++ (comma first ++ (pre.text ++
                  (chr '"' :: (raw s ++ chr '"' :: (post.text ++ rest.render false))))) := by
              simp [Items.render, Value.render, stringText]
            have hdrop : (w ++ Items.render first (.cons pre (.string s) post rest)).dropWhile isTokenGap =
                chr '"' :: (raw s ++ chr '"' :: (post.text ++ rest.render false)) := by
              rw [htext, List.dropWhile_append_of_pos hw, List.dropWhile_append_of_pos hcomma,
                List.dropWhile_append_of_pos (isTokenGap_blanks pre),
                List.dropWhile_cons_of_neg (by decide)]
            rw [tokenRound_of_cons hdrop, readText_quote, readQuoted_raw]
          exact ⟨n + 1, by rw [Scan.of_some hround, hn]; rfl⟩

/-- Behind the blanks of a text, an array is read as its strings without their escapes. -/
theorem parseSetTokens_array (inner : Blanks) {items : Items} (trail : Blanks)
    {ss : List (List Piece)} (h : items.values = ss.map .string) :
    parseSetTokens ((Value.array inner items).render ++ trail.text) =
      some (tokensOf (ss.map dropEscapes)) := by
  have henclosed : Enclosed (chr '[') (chr ']') ((Value.array inner items).render ++ trail.text)
      (inner.text ++ items.render true) := by
    refine ⟨[], trail.text, by simp [Value.render], List.not_mem_nil, fun hmem => ?_⟩
    exact absurd (trail.isBlank _ hmem) (by decide)
  obtain ⟨n, hn⟩ := scan_items h true (isTokenGap_blanks inner)
  refine parseSetTokens_eq_some.mpr ⟨n, ?_⟩
  rw [setTokensIn, between_of_enclosed henclosed, hn]
  rfl

/-! ### Pairs -/

/-- Rounds enough for the pairs of a text give what `parse_object_pairs` returns. -/
theorem parseObjectPairs_of_scan {raw : Bytes} {n : Nat} {kvs : List KV}
    (h : scan pairRound n (between (chr '{') (chr '}') raw) = some kvs) :
    parseObjectPairs raw = some (pairsOf kvs) := by
  rw [parseObjectPairs, objectPairsIn,
    Scan.eq_some_of_length (fun hround => .inl (pairRound_length hround)) h]
  rfl

/-- A pair of entries that stands behind separators. -/
theorem pairRound_entry {k v : Bytes} (hk : IsEntry k) (hcolon : chr ':' ∉ k) (hv : IsEntry v)
    (hw : ∀ c ∈ w, isPairGap c = true) (hr : ∀ c ∈ r.head?, c = chr ',' ∨ c = chr '}') :
    pairRound (w ++ (k ++ chr ':' :: (v ++ r))) =
      some ((k.dropWhile isPairGap, v.dropWhile Queue.isBlank), r) := by
  have hkgap := hk.not_gap isPairGap_or
  have hvgap := hv.not_gap queueIsBlank_or
  have hksub : ∀ c ∈ k.dropWhile isPairGap, c ∈ k := fun c hc => (List.dropWhile_sublist _).mem hc
  have hvsub : ∀ c ∈ v.dropWhile Queue.isBlank, c ∈ v := fun c hc => (List.dropWhile_sublist _).mem hc
  have hkey : readText (fun c => c = chr ':' || c = chr ',')
      (k.dropWhile isPairGap ++ chr ':' :: (v ++ r)) =
        (k.dropWhile isPairGap, chr ':' :: (v ++ r)) := by
    refine readText_entry (fun c hc => ?_) (fun c hc => ?_) (fun c hc => ?_) (dropWhile_ne_nil hkgap)
    · have hne : c ≠ chr ':' := fun heq => hcolon (heq ▸ hksub c hc)
      simp [hne, hk.ne_of_special (hksub c hc) (by decide : isSpecial (chr ',') = true)]
    · exact hk.ne_of_special (hksub c (List.mem_of_mem_head? hc)) (by decide)
    · obtain rfl : chr ':' = c := by simpa using hc
      decide
  have hvalue : readText (fun c => c = chr ',' || c = chr '}') (v.dropWhile Queue.isBlank ++ r) =
      (v.dropWhile Queue.isBlank, r) := by
    refine readText_entry (fun c hc => ?_) (fun c hc => ?_) (fun c hc => ?_) (dropWhile_ne_nil hvgap)
    · simp [hv.ne_of_special (hvsub c hc) (by decide : isSpecial (chr ',') = true),
        hv.ne_of_special (hvsub c hc) (by decide : isSpecial (chr '}') = true)]
    · exact hv.ne_of_special (hvsub c (List.mem_of_mem_head? hc)) (by decide)
    · simpa using hr c hc
  obtain ⟨c, u, hcu⟩ := List.exists_cons_of_ne_nil (dropWhile_ne_nil hkgap)
  have hbehind : behindColon (chr ':' :: (v ++ r)) = v.dropWhile Queue.isBlank ++ r := by
    rw [behindColon, List.dropWhile_cons_of_neg (by simp), List.tail_cons, dropWhile_append_ink hvgap]
  have hdrop : (w ++ (k ++ chr ':' :: (v ++ r))).dropWhile isPairGap =
      c :: (u ++ chr ':' :: (v ++ r)) := by
    rw [List.dropWhile_append_of_pos hw, dropWhile_append_ink hkgap, hcu]
    rfl
  rw [hcu] at hkey ⊢
  exact pairRound_of_cons hdrop hkey (hbehind ▸ hvalue)

def pairText (kv : KV) : Bytes := kv.1 ++ chr ':' :: kv.2

theorem scan_pairList {kvs : List KV}
    (hkvs : ∀ kv ∈ kvs, IsEntry kv.1 ∧ IsEntry kv.2 ∧ chr ':' ∉ kv.1)
    (hw : ∀ c ∈ w, isPairGap c = true) :
    ∃ n, scan pairRound n (w ++ [chr ','].intercalate (kvs.map pairText)) =
      some (kvs.map fun kv => (kv.1.dropWhile isPairGap, kv.2.dropWhile Queue.isBlank)) := by
  induction kvs generalizing w with
  | nil =>
      have hnone : pairRound (w ++ [chr ','].intercalate (([] : List KV).map pairText)) = none := by
        rw [List.map_nil, List.intercalate_nil, List.append_nil]
        exact pairRound_of_nil (List.dropWhile_eq_nil_iff.mpr hw)
      exact ⟨1, Scan.of_none hnone⟩
  | cons kv kvs ih =>
      obtain ⟨hk, hv, hcolon⟩ := hkvs kv List.mem_cons_self
      cases kvs with
      | nil =>
          have hround := pairRound_entry (r := []) hk hcolon hv hw nofun
          rw [List.append_nil] at hround
          have hrest : pairRound [] = none := rfl
          refine ⟨2, ?_⟩
          rw [List.map_singleton, List.intercalate_singleton, pairText, Scan.of_some hround,
            Scan.of_none hrest]
          rfl
      | cons kv' kvs =>
          obtain ⟨n, hn⟩ := ih (fun kv hkv => hkvs kv (List.mem_cons_of_mem _ hkv))
            (w := [chr ',']) (by decide)
          have hround := pairRound_entry (w := w) (r := [chr ','] ++
            [chr ','].intercalate ((kv' :: kvs).map pairText)) hk hcolon hv hw (by simp)
          refine ⟨n + 1, ?_⟩
          have htext : w ++ [chr ','].intercalate ((kv :: kv' :: kvs).map pairText) =
              w ++ (kv.1 ++ chr ':' :: (kv.2 ++
                ([chr ','] ++ [chr ','].intercalate ((kv' :: kvs).map pairText)))) := by
            rw [List.map_cons, List.map_cons, List.intercalate_cons_cons, pairText]
            simp
          rw [htext, Scan.of_some hround, hn]
          rfl

/-- A list of pairs is read as its pairs. -/
theorem parseObjectPairs_list {kvs : List KV}
    (hkvs : ∀ kv ∈ kvs, IsEntry kv.1 ∧ IsEntry kv.2 ∧ chr ':' ∉ kv.1) :
    parseObjectPairs ([chr ','].intercalate (kvs.map pairText)) =
      some (kvs.map fun kv => (normAns kv.1, normAns kv.2)) := by
  have hbrace : chr '{' ∉ [chr ','].intercalate (kvs.map pairText) := by
    intro h
    rcases mem_intercalate h with h | ⟨t, ht, hmem⟩
    · exact absurd h (by decide)
    · obtain ⟨kv, hkv, rfl⟩ := List.mem_map.mp ht
      obtain ⟨hk, hv, -⟩ := hkvs kv hkv
      rcases List.mem_append.mp hmem with hmem | hmem
      · exact hk.ne_of_special hmem (by decide) rfl
      · rcases List.mem_cons.mp hmem with h | hmem
        · exact absurd h (by decide)
        · exact hv.ne_of_special hmem (by decide) rfl
  have hbetween : between (chr '{') (chr '}') ([chr ','].intercalate (kvs.map pairText)) =
      [chr ','].intercalate (kvs.map pairText) := by
    refine between_of_not_enclosed ?_
    rintro y ⟨x, z, heq, -, -⟩
    exact hbrace (heq ▸ List.mem_append_right _ List.mem_cons_self)
  obtain ⟨n, hn⟩ := scan_pairList hkvs (w := []) (List.forall_mem_nil _)
  rw [List.nil_append] at hn
  rw [parseObjectPairs_of_scan (hbetween.symm ▸ hn)]
  refine congrArg some ?_
  have hne : ∀ kv ∈ kvs.map (fun kv => (kv.1.dropWhile isPairGap, kv.2.dropWhile Queue.isBlank)),
      decide (kv.1 ≠ []) = true := by
    intro u hu
    obtain ⟨kv, hkv, rfl⟩ := List.mem_map.mp hu
    simpa using dropWhile_ne_nil ((hkvs kv hkv).1.not_gap isPairGap_or)
  rw [pairsOf, List.filter_eq_self.mpr hne, List.map_map]
  refine List.map_congr_left fun kv hkv => ?_
  obtain ⟨hk, hv, -⟩ := hkvs kv hkv
  exact Prod.ext (normAns_dropGap hk isPairGap_or) (normAns_dropGap hv queueIsBlank_or)

theorem scan_members {members : Members} {ss : List (List Piece × List Piece)}
    (h : members.own = ss.map fun kv => (kv.1, .string kv.2)) (first : Bool)
    (hw : ∀ c ∈ w, isPairGap c = true) :
    ∃ n, scan pairRound n (w ++ members.render first) =
      some (ss.map fun kv => (dropEscapes kv.1, dropEscapes kv.2)) := by
  induction ss generalizing members first w with
  | nil =>
      cases members with
      | cons => cases h
      | nil =>
          have hnone : pairRound (w ++ Members.nil.render first) = none := by
            refine pairRound_of_nil (List.dropWhile_eq_nil_iff.mpr ?_)
            rwa [show Members.nil.render first = [] from rfl, List.append_nil]
          exact ⟨1, Scan.of_none hnone⟩
  | cons kv ss ih =>
      cases members with
      | nil => cases h
      | cons pre name mid gap v post rest =>
          obtain ⟨hhead, hrest⟩ := List.cons.inj h
          obtain ⟨rfl, rfl⟩ := Prod.mk.inj hhead
          obtain ⟨n, hn⟩ := ih hrest false (isPairGap_blanks post)
          have hcomma : ∀ c ∈ comma first, isPairGap c = true := by cases first <;> decide
          have hcolon : ∀ c ∈ mid.text, decide (c ≠ chr ':') = true := by
            refine fun c hc => decide_eq_true fun hcolon => ?_
            exact absurd (hcolon ▸ mid.isBlank c hc) (by decide)
          have hround : pairRound (w ++ Members.render first
              (.cons pre kv.1 mid gap (.string kv.2) post rest)) =
              some ((dropEscapes kv.1, dropEscapes kv.2), post.text ++ rest.render false) := by
            have htext : w ++ Members.render first (.cons pre kv.1 mid gap (.string kv.2) post rest) =
                w ++ (comma first ++ (pre.text ++ (chr '"' :: (raw kv.1 ++ chr '"' :: (mid.text ++
                  chr ':' :: (gap.text ++
                    (chr '"' :: (raw kv.2 ++ chr '"' :: (post.text ++ rest.render false))))))))) := by
              simp [Members.render, Value.render, stringText]
            have hdrop : (w ++ Members.render first
                (.cons pre kv.1 mid gap (.string kv.2) post rest)).dropWhile isPairGap =
                chr '"' :: (raw kv.1 ++ chr '"' :: (mid.text ++ chr ':' :: (gap.text ++
                  (chr '"' :: (raw kv.2 ++ chr '"' :: (post.text ++ rest.render false)))))) := by
              rw [htext, List.dropWhile_append_of_pos hw, List.dropWhile_append_of_pos hcomma,
                List.dropWhile_append_of_pos (isPairGap_blanks pre),
                List.dropWhile_cons_of_neg (by decide)]
            refine pairRound_of_cons hdrop ((readText_quote _ _).trans (readQuoted_raw _ _)) ?_
            rw [behindColon, List.dropWhile_append_of_pos hcolon, List.dropWhile_cons_of_neg (by simp),
              List.tail_cons, Queue.queueIsBlank_eq, dropWhile_blanks,
              List.dropWhile_cons_of_neg (by decide), readText_quote, readQuoted_raw]
          exact ⟨n + 1, by rw [Scan.of_some hround, hn]; rfl⟩

/-- An object is read as its strings without their escapes. -/
theorem parseObjectPairs_object (inner : Blanks) {members : Members} (trail : Blanks)
    {ss : List (List Piece × List Piece)}
    (h : members.own = ss.map fun kv => (kv.1, .string kv.2)) :
    parseObjectPairs ((Value.object inner members).render ++ trail.text) =
      some (pairsOf (ss.map fun kv => (dropEscapes kv.1, dropEscapes kv.2))) := by
  have henclosed : Enclosed (chr '{') (chr '}') ((Value.object inner members).render ++ trail.text)
      (inner.text ++ members.render true) := by
    refine ⟨[], trail.text, by simp [Value.render], List.not_mem_nil, fun hmem => ?_⟩
    exact absurd (trail.isBlank _ hmem) (by decide)
  obtain ⟨n, hn⟩ := scan_members h true (isPairGap_blanks inner)
  exact parseObjectPairs_of_scan (by rw [between_of_enclosed henclosed, hn])

/-! ### Any text of an answer -/

theorem IsEntry.dropWhile {p : UInt8 → Bool} (ht : IsEntry t)
    (hp : ∀ c, p c = true → isSpace c = true ∨ isSpecial c = true) : IsEntry (t.dropWhile p) where
  ink := by
    rw [ink_iff, normAns_dropGap ht hp]
    exact ink_iff.mp ht.ink
  plain c hc := ht.plain c ((List.dropWhile_sublist _).mem hc)

theorem answered_of_mem {c : UInt8} (hc : c ∈ t) (hbracket : c ∉ str "[]\x7b\x7d") :
    isUnanswered t = false := by
  have hne : t ≠ [] := List.ne_nil_of_mem hc
  have hsub : ∀ c ∈ str "[]" ++ str "\x7b\x7d", c ∈ str "[]\x7b\x7d" := by decide
  have hsquare : t ≠ str "[]" := by
    rintro rfl
    exact hbracket (hsub c (List.mem_append_left _ hc))
  have hcurly : t ≠ str "\x7b\x7d" := by
    rintro rfl
    exact hbracket (hsub c (List.mem_append_right _ hc))
  simp [isUnanswered, hne, hsquare, hcurly]

theorem IsEntry.exists_ink (ht : IsEntry t) : ∃ c ∈ t, c ∉ str "[]\x7b\x7d" := by
  obtain ⟨c, hc, -⟩ := ht.ink
  refine ⟨c, hc, fun h => ?_⟩
  have hall : ∀ c ∈ str "[]\x7b\x7d", isSpecial c = true := by decide
  exact ht.ne_of_special hc (hall c h) rfl

/-- A token that is read from JSON is not empty. -/
theorem tokensOf_unescaped {ts : List Bytes} (hts : ∀ t ∈ ts, IsEntry t)
    (hsame : ∀ t ∈ ts, normAns (unescaped t) = normAns t) :
    tokensOf (ts.map unescaped) = ts.map normAns := by
  have hne : ∀ u ∈ ts.map unescaped, decide (u ≠ []) = true := by
    intro u hu
    obtain ⟨t, ht, rfl⟩ := List.mem_map.mp hu
    refine decide_eq_true fun hnil => ink_iff.mp (hts t ht).ink ?_
    rw [← hsame t ht, hnil]
    rfl
  rw [tokensOf, List.filter_eq_self.mpr hne, List.map_map]
  exact List.map_congr_left hsame

theorem pairsOf_unescaped {kvs : List KV} (hkvs : ∀ kv ∈ kvs, IsEntry kv.1)
    (hsame : ∀ kv ∈ kvs, normAns (unescaped kv.1) = normAns kv.1 ∧
      normAns (unescaped kv.2) = normAns kv.2) :
    pairsOf (kvs.map fun kv => (unescaped kv.1, unescaped kv.2)) =
      kvs.map fun kv => (normAns kv.1, normAns kv.2) := by
  have hne : ∀ u ∈ kvs.map (fun kv => (unescaped kv.1, unescaped kv.2)),
      decide (u.1 ≠ []) = true := by
    intro u hu
    obtain ⟨kv, hkv, rfl⟩ := List.mem_map.mp hu
    refine decide_eq_true fun hnil => ink_iff.mp (hkvs kv hkv).ink ?_
    dsimp only at hnil
    rw [← (hsame kv hkv).1, hnil]
    rfl
  rw [pairsOf, List.filter_eq_self.mpr hne, List.map_map]
  exact List.map_congr_left fun kv hkv => Prod.ext (hsame kv hkv).1 (hsame kv hkv).2

theorem answerText_value (lead : Blanks) (v : Value) (trail : Blanks) :
    answerText (Text.render ⟨lead, v, trail⟩) = v.render ++ trail.text := by
  have hsolid : Solid (v.render ++ trail.text) := solid_value v
  rw [answerText, Queue.queueIsBlank_eq, Text.render, List.append_assoc, dropWhile_blanks]
  exact hsolid

theorem answerText_list {sep : UInt8} {ts : List Bytes} (ht : IsEntry t) :
    answerText ([sep].intercalate (t :: ts)) =
      [sep].intercalate (t.dropWhile Queue.isBlank :: ts) := by
  have hblank := ht.not_gap queueIsBlank_or
  cases ts with
  | nil =>
      rw [List.intercalate_singleton, List.intercalate_singleton]
      rfl
  | cons u ts =>
      rw [List.intercalate_cons_cons, List.intercalate_cons_cons, List.append_assoc, List.append_assoc]
      exact dropWhile_append_ink hblank _

/-- However it is written, a list of tokens is answered and read as its tokens. -/
theorem tokens_of_writes {ts : List Bytes} (hne : ts ≠ []) (hts : ∀ t ∈ ts, IsEntry t)
    (hsame : ∀ t ∈ ts, normAns (unescaped t) = normAns t) (h : (Answer.tokens ts).Writes w) :
    isUnanswered (answerText w) = false ∧ parseSetTokens (answerText w) = some (ts.map normAns) := by
  cases h with
  | array lead inner items trail hitems =>
      rw [answerText_value]
      constructor
      · obtain ⟨t, ts, rfl⟩ := List.exists_cons_of_ne_nil hne
        cases items with
        | nil => cases hitems
        | cons pre v post rest =>
            obtain ⟨rfl, -⟩ := List.cons.inj hitems
            have hquote : chr '"' ∈ (Value.array inner (.cons pre
                (.string (escapedPieces t)) post rest)).render ++ trail.text := by
              simp [Value.render, Items.render, stringText]
            exact answered_of_mem hquote (by decide)
      · have hvalues : items.values = (ts.map escapedPieces).map .string := by
          rw [hitems, List.map_map]
          rfl
        rw [parseSetTokens_array inner trail hvalues, List.map_map, ← tokensOf_unescaped hts hsame]
        rfl
  | list hsep =>
      obtain ⟨t, ts, rfl⟩ := List.exists_cons_of_ne_nil hne
      have ht := hts t List.mem_cons_self
      have hdrop := ht.dropWhile queueIsBlank_or
      have hall : ∀ u ∈ t.dropWhile Queue.isBlank :: ts, IsEntry u := by
        rw [List.forall_mem_cons]
        exact ⟨hdrop, fun u hu => hts u (List.mem_cons_of_mem _ hu)⟩
      rw [answerText_list ht]
      constructor
      · obtain ⟨c, hc, hbracket⟩ := hdrop.exists_ink
        refine answered_of_mem (?_ : c ∈ _) hbracket
        cases ts with
        | nil => rwa [List.intercalate_singleton]
        | cons u ts =>
            rw [List.intercalate_cons_cons, List.append_assoc]
            exact List.mem_append_left _ hc
      · rw [parseSetTokens_list hsep hall, List.map_cons, normAns_dropGap ht queueIsBlank_or]
        rfl

theorem pairs_of_writes {kvs : List KV} (hne : kvs ≠ [])
    (hkvs : ∀ kv ∈ kvs, IsEntry kv.1 ∧ IsEntry kv.2 ∧ chr ':' ∉ kv.1)
    (hsame : ∀ kv ∈ kvs, normAns (unescaped kv.1) = normAns kv.1 ∧
      normAns (unescaped kv.2) = normAns kv.2) (h : (Answer.pairs kvs).Writes w) :
    isUnanswered (answerText w) = false ∧
      parseObjectPairs (answerText w) = some (kvs.map fun kv => (normAns kv.1, normAns kv.2)) := by
  cases h with
  | object lead inner members trail hmembers =>
      rw [answerText_value]
      constructor
      · obtain ⟨kv, kvs, rfl⟩ := List.exists_cons_of_ne_nil hne
        cases members with
        | nil => cases hmembers
        | cons pre name mid gap v post rest =>
            have hquote : chr '"' ∈ (Value.object inner (.cons pre name mid gap v post rest)).render ++
                trail.text := by
              simp [Value.render, Members.render, stringText]
            exact answered_of_mem hquote (by decide)
      · have hown : members.own =
            (kvs.map fun kv => (escapedPieces kv.1, escapedPieces kv.2)).map
              fun kv => (kv.1, .string kv.2) := by
          rw [hmembers, List.map_map]
          rfl
        rw [parseObjectPairs_object inner trail hown, List.map_map,
          ← pairsOf_unescaped (fun kv hkv => (hkvs kv hkv).1) hsame]
        rfl
  | pairs =>
      obtain ⟨kv, kvs, rfl⟩ := List.exists_cons_of_ne_nil hne
      obtain ⟨hk, hv, hcolon⟩ := hkvs kv List.mem_cons_self
      have hdrop := hk.dropWhile queueIsBlank_or
      have hkcolon : chr ':' ∉ kv.1.dropWhile Queue.isBlank := fun hmem =>
        hcolon ((List.dropWhile_sublist _).mem hmem)
      -- the blanks in front belong to the first key
      have htext : answerText ([chr ','].intercalate ((kv :: kvs).map pairText)) =
          [chr ','].intercalate (((kv.1.dropWhile Queue.isBlank, kv.2) :: kvs).map pairText) := by
        have hblank := hk.not_gap queueIsBlank_or
        have hstep : ∀ r : Bytes, answerText (pairText kv ++ r) =
            pairText (kv.1.dropWhile Queue.isBlank, kv.2) ++ r := by
          intro r
          rw [answerText, pairText, List.append_assoc, dropWhile_append_ink hblank, pairText,
            List.append_assoc]
        cases kvs with
        | nil =>
            have hlast := hstep []
            rw [List.append_nil, List.append_nil] at hlast
            rwa [List.map_singleton, List.map_singleton, List.intercalate_singleton,
              List.intercalate_singleton]
        | cons kv' kvs =>
            rw [List.map_cons, List.map_cons, List.map_cons, List.map_cons, List.intercalate_cons_cons,
              List.intercalate_cons_cons, List.append_assoc, List.append_assoc]
            exact hstep _
      have hall : ∀ p ∈ (kv.1.dropWhile Queue.isBlank, kv.2) :: kvs,
          IsEntry p.1 ∧ IsEntry p.2 ∧ chr ':' ∉ p.1 := by
        rw [List.forall_mem_cons]
        exact ⟨⟨hdrop, hv, hkcolon⟩, fun p hp => hkvs p (List.mem_cons_of_mem _ hp)⟩
      change isUnanswered (answerText ([chr ','].intercalate ((kv :: kvs).map pairText))) = false ∧
        parseObjectPairs (answerText ([chr ','].intercalate ((kv :: kvs).map pairText))) = _
      rw [htext]
      constructor
      · have hcolon : chr ':' ∈ [chr ','].intercalate
            (((kv.1.dropWhile Queue.isBlank, kv.2) :: kvs).map pairText) := by
          cases kvs with
          | nil => simp [pairText]
          | cons kv' kvs =>
              rw [List.map_cons, List.map_cons, List.intercalate_cons_cons]
              simp [pairText]
        exact answered_of_mem hcolon (by decide)
      · rw [parseObjectPairs_list hall, List.map_cons, normAns_dropGap hk queueIsBlank_or]
        rfl

end

/-! ### The grade -/

section

variable {q : Question}

theorem gradePairs_perm {key ps ps' : List KV} (h : ps.Perm ps') :
    gradePairs q key ps = gradePairs q key ps' := by
  have hcount : key.countP (· ∈ ps) = key.countP (· ∈ ps') :=
    List.countP_congr fun kv _ => by simp [h.mem_iff]
  have hall : setsEqualObj key ps = setsEqualObj key ps' := by
    rw [Bool.eq_iff_iff, setsEqualObj_iff, setsEqualObj_iff, h.length_eq]
    simp only [h.mem_iff]
  unfold gradePairs
  rw [hcount, hall]

theorem forall_of_alike {us vs : List Bytes} (h : List.Forall₂ Alike us vs)
    (hus : ∀ u ∈ us, IsEntry u ∧ Harmless u) :
    (∀ v ∈ vs, IsEntry v) ∧ (∀ v ∈ vs, normAns (unescaped v) = normAns v) ∧
      vs.map normAns = us.map normAns := by
  induction h with
  | nil => exact ⟨nofun, nofun, rfl⟩
  | @cons u v us vs huv _ ih =>
      obtain ⟨⟨hentry, hharmless⟩, hrest⟩ := List.forall_mem_cons.mp hus
      obtain ⟨hentries, hsame, hmap⟩ := ih hrest
      refine ⟨List.forall_mem_cons.mpr ⟨hentry.of_alike huv, hentries⟩,
        List.forall_mem_cons.mpr ⟨normAns_unescaped_of_alike hentry hharmless huv, hsame⟩, ?_⟩
      rw [List.map_cons, List.map_cons, hmap, normAns_of_alike huv]

theorem forall_of_alike_pairs {us vs : List KV}
    (h : List.Forall₂ (fun a b => Alike a.1 b.1 ∧ Alike a.2 b.2) us vs)
    (hus : ∀ u ∈ us, (IsEntry u.1 ∧ IsEntry u.2 ∧ chr ':' ∉ u.1) ∧ Harmless u.1 ∧ Harmless u.2) :
    (∀ v ∈ vs, IsEntry v.1 ∧ IsEntry v.2 ∧ chr ':' ∉ v.1) ∧
      (∀ v ∈ vs, normAns (unescaped v.1) = normAns v.1 ∧ normAns (unescaped v.2) = normAns v.2) ∧
      vs.map (fun kv => (normAns kv.1, normAns kv.2)) =
        us.map fun kv => (normAns kv.1, normAns kv.2) := by
  induction h with
  | nil => exact ⟨nofun, nofun, rfl⟩
  | @cons u v us vs huv _ ih =>
      obtain ⟨⟨⟨hk, hv, hcolon⟩, hkey, hvalue⟩, hrest⟩ := List.forall_mem_cons.mp hus
      obtain ⟨hentries, hsame, hmap⟩ := ih hrest
      have hletter : ∀ d, tolower d = tolower (chr ':') → d = chr ':' :=
        forall_byte (by decide)
      have hcolon' : chr ':' ∉ v.1 := fun hmem =>
        hcolon ((mem_iff_of_alike huv.1 (by decide) hletter).mpr hmem)
      refine ⟨List.forall_mem_cons.mpr ⟨⟨hk.of_alike huv.1, hv.of_alike huv.2, hcolon'⟩, hentries⟩,
        List.forall_mem_cons.mpr ⟨⟨normAns_unescaped_of_alike hk hkey huv.1,
          normAns_unescaped_of_alike hv hvalue huv.2⟩, hsame⟩, ?_⟩
      rw [List.map_cons, List.map_cons, hmap, normAns_of_alike huv.1, normAns_of_alike huv.2]

theorem isSetType_of_suits {ts : List Bytes} (h : (Answer.tokens ts).Suits q.type) :
    isSetType q.type = true := by
  rcases h with h | h <;>
    · rw [h]
      decide

/-- The detail of a list of tokens depends on what the tokens are. -/
theorem evaluate_tokens {ts : List Bytes} {b : Answer} {w : Bytes}
    (hsuits : (Answer.tokens ts).Suits q.type) (hvalid : (Answer.tokens ts).Valid)
    (hharmless : (Answer.tokens ts).AllHarmless) (hb : (Answer.tokens ts).Same b) (hw : b.Writes w) :
    evaluateQuestionDetail q w =
      (parseSetTokens q.keyRaw).map fun key => gradeSet q key (ts.map normAns) := by
  cases hb with
  | @tokens _ us vs hperm halike =>
      obtain ⟨hne, hts⟩ := hvalid
      obtain ⟨hentries, hsame, hmap⟩ := forall_of_alike halike fun u hu =>
        ⟨hts u (hperm.mem_iff.mpr hu), hharmless u (hperm.mem_iff.mpr hu)⟩
      have hvs : vs ≠ [] := by
        rintro rfl
        cases halike
        exact hne hperm.eq_nil
      obtain ⟨hanswered, hparse⟩ := tokens_of_writes hvs hentries hsame hw
      rw [evaluate_set hanswered (isSetType_of_suits hsuits), hparse, hmap]
      cases parseSetTokens q.keyRaw with
      | none => rfl
      | some key => exact congrArg some (gradeSet_perm (hperm.symm.map normAns))

theorem evaluate_pairs {kvs : List KV} {b : Answer} {w : Bytes}
    (hsuits : (Answer.pairs kvs).Suits q.type) (hvalid : (Answer.pairs kvs).Valid)
    (hharmless : (Answer.pairs kvs).AllHarmless) (hb : (Answer.pairs kvs).Same b) (hw : b.Writes w) :
    evaluateQuestionDetail q w = (parseObjectPairs q.keyRaw).map fun key =>
      gradePairs q key (kvs.map fun kv => (normAns kv.1, normAns kv.2)) := by
  cases hb with
  | @pairs _ us vs hperm halike =>
      obtain ⟨hne, hkvs⟩ := hvalid
      obtain ⟨hentries, hsame, hmap⟩ := forall_of_alike_pairs halike fun u hu =>
        ⟨hkvs u (hperm.mem_iff.mpr hu), hharmless u (hperm.mem_iff.mpr hu)⟩
      have hvs : vs ≠ [] := by
        rintro rfl
        cases halike
        exact hne hperm.eq_nil
      obtain ⟨hanswered, hparse⟩ := pairs_of_writes hvs hentries hsame hw
      rw [evaluate_matching hanswered hsuits, hparse, hmap]
      cases parseObjectPairs q.keyRaw with
      | none => rfl
      | some key => exact congrArg some (gradePairs_perm (hperm.symm.map _))

theorem alike_refl (t : Bytes) : Alike t t := .refl t

end

/-- An answer without escapes is graded alike in every writing exactly if the key can be read. -/
theorem sameDetail_iff (q : Question) (a : Answer) (hsuits : a.Suits q.type) (hvalid : a.Valid)
    (hharmless : a.AllHarmless) : SameDetail q a ↔ KeyReadable q := by
  cases a with
  | tokens ts =>
      have hwrites : (Answer.tokens ts).Writes ([chr ','].intercalate ts) := .list (.inl rfl)
      have hself : (Answer.tokens ts).Same (.tokens ts) :=
        .tokens (.refl ts) (List.forall₂_same.mpr fun t _ => alike_refl t)
      have hkey : KeyReadable q ↔ (parseSetTokens q.keyRaw).isSome = true := by
        rw [KeyReadable, isSome_parseSetTokens_iff]
        exact ⟨fun h => h (isSetType_of_suits hsuits), fun h _ => h⟩
      rw [hkey]
      constructor
      · rintro ⟨d, hd⟩
        have hdetail := hd _ _ hself hwrites
        rw [evaluate_tokens hsuits hvalid hharmless hself hwrites] at hdetail
        obtain ⟨key, hread, -⟩ := Option.map_eq_some_iff.mp hdetail
        rw [hread]
        rfl
      · intro h
        obtain ⟨key, hread⟩ := Option.isSome_iff_exists.mp h
        refine ⟨gradeSet q key (ts.map normAns), fun b w hb hw => ?_⟩
        rw [evaluate_tokens hsuits hvalid hharmless hb hw, hread]
        rfl
  | pairs kvs =>
      have hkey : KeyReadable q := by
        intro hset
        have hmatching : q.type = str "matching" := hsuits
        exact absurd hmatching (not_matching_of_isSetType hset)
      refine iff_of_true ?_ hkey
      obtain ⟨key, hread⟩ := Option.isSome_iff_exists.mp (isSome_parseObjectPairs q.keyRaw)
      refine ⟨gradePairs q key (kvs.map fun kv => (normAns kv.1, normAns kv.2)), fun b w hb hw => ?_⟩
      rw [evaluate_pairs hsuits hvalid hharmless hb hw, hread]
      rfl

def listQuestion (keyRaw : Bytes) : Question where
  type := str "multiple_choice"
  keyRaw := keyRaw

theorem isEntry_letter {c : UInt8} (hspace : isSpace c = false) (hspecial : isSpecial c = false) :
    IsEntry [c] :=
  ⟨⟨c, List.mem_singleton_self c, hspace⟩, fun _ hd => List.mem_singleton.mp hd ▸ hspecial⟩

theorem sameDetail_two :
    SameDetail (listQuestion (str "[\"A\",\"C\"]")) (.tokens [str "C", str "A"]) ↔
      KeyReadable (listQuestion (str "[\"A\",\"C\"]")) :=
  sameDetail_iff _ _ (.inl rfl)
    ⟨List.cons_ne_nil _ _, List.forall_mem_cons.mpr ⟨isEntry_letter (by decide) (by decide),
      List.forall_mem_cons.mpr ⟨isEntry_letter (by decide) (by decide), nofun⟩⟩⟩
    (List.forall_mem_cons.mpr ⟨by decide +kernel, List.forall_mem_cons.mpr ⟨by decide +kernel, nofun⟩⟩)

/-- The tokenizer does not get over a closing bracket that is not the last one. -/
theorem not_sameDetail :
    ¬ ∀ (q : Question) (a : Answer), a.Suits q.type → a.Valid → SameDetail q a := by
  intro h
  obtain ⟨d, hd⟩ := h (listQuestion (str "\"A[]]\"")) (.tokens [str "A"]) (.inl rfl)
    ⟨List.cons_ne_nil _ _, List.forall_mem_cons.mpr ⟨isEntry_letter (by decide) (by decide), nofun⟩⟩
  have hdetail := hd _ _ (.tokens (.refl _) (List.forall₂_same.mpr fun t _ => alike_refl t))
    (.list (.inl rfl))
  have hnever : evaluateQuestionDetail (listQuestion (str "\"A[]]\"")) (str "A") = none := by
    decide +kernel
  rw [List.intercalate_singleton, hnever] at hdetail
  cases hdetail

end ExamVan.Middleware
