import ExamVan.Lib.Scan
import ExamVan.Queue.Job
import ExamVan.Services.ExamToken

/-!
# Reading answers

A set of tokens is an array in JSON or a list with commas and semicolons, and pairs are an object or a
list of `key:value`. Both are read between the first opening and the last closing bracket, if there
are such, in rounds of one token or pair. A round that starts at a `]` reads nothing and leaves the
text as it is, so `parse_set_tokens` does not return from there.
-/

namespace ExamVan.Middleware

open ByteString ExamToken

/-- The loop of `norm_ans`: upper case, and one space for the blanks between two words. -/
def normFrom (started space : Bool) : Bytes → Bytes
  | [] => []
  | c :: s =>
      if isSpace c then normFrom started true s
      else if space && started then chr ' ' :: toUpper c :: normFrom true false s
      else toUpper c :: normFrom true false s

def normAns (s : Bytes) : Bytes := normFrom false false s

/-- The text between the first opening bracket and the last closing one behind it, or all of it. -/
def between (opening closing : UInt8) (raw : Bytes) : Bytes :=
  match findByte (· = opening) raw with
  | none => raw
  | some s =>
      if s.tail.any (· = closing) then (s.tail.rdropWhile (· ≠ closing)).dropLast else raw

/-- A string behind its opening quote and the text behind the closing one. Escapes are dropped. -/
def readQuoted : Bytes → Bytes × Bytes
  | [] => ([], [])
  | [c] => if c = chr '\\' ∨ c = chr '"' then ([], []) else ([c], [])
  | c :: d :: s =>
      if c = chr '\\' then readQuoted s
      else if c = chr '"' then ([], d :: s)
      else
        let (text, rest) := readQuoted (d :: s)
        (c :: text, rest)

/-- A string, or the text up to a byte that ends it. -/
def readText (ends : UInt8 → Bool) : Bytes → Bytes × Bytes
  | [] => ([], [])
  | c :: s =>
      if c = chr '"' then readQuoted s
      else ((c :: s).takeWhile fun b => !ends b, (c :: s).dropWhile fun b => !ends b)

/-! ### Sets of tokens -/

def isTokenGap (c : UInt8) : Bool := Queue.isBlank c || c = chr ',' || c = chr ';'

def endsToken (c : UInt8) : Bool :=
  c = chr ',' || c = chr ';' || c = chr ']' || c = chr '\t' || c = chr '\n' || c = chr '\r'

def tokenRound (s : Bytes) : Option (Bytes × Bytes) :=
  match s.dropWhile isTokenGap with
  | [] => none
  | t => some (readText endsToken t)

def tokensOf (texts : List Bytes) : List Bytes := (texts.filter (· ≠ [])).map normAns

/-- `parse_set_tokens` with so many rounds. -/
def setTokensIn (rounds : Nat) (raw : Bytes) : Option (List Bytes) :=
  (scan tokenRound rounds (between (chr '[') (chr ']') raw)).map tokensOf

/-- `parse_set_tokens`; `none` if it does not return. -/
def parseSetTokens (raw : Bytes) : Option (List Bytes) :=
  setTokensIn ((between (chr '[') (chr ']') raw).length + 1) raw

/-! ### Pairs -/

/-- A key with its value. -/
abbrev KV := Bytes × Bytes

instance (priority := high) lawfulKV : LawfulBEq KV := inferInstance

def isPairGap (c : UInt8) : Bool := Queue.isBlank c || c = chr ','

def pairRound (s : Bytes) : Option (KV × Bytes) :=
  match s.dropWhile isPairGap with
  | [] => none
  | t =>
      let key := readText (fun c => c = chr ':' || c = chr ',') t
      let behind := (key.2.dropWhile (· ≠ chr ':')).tail.dropWhile Queue.isBlank
      let value := readText (fun c => c = chr ',' || c = chr '}') behind
      some ((key.1, value.1), value.2)

def pairsOf (texts : List KV) : List KV :=
  (texts.filter fun kv => kv.1 ≠ []).map fun kv => (normAns kv.1, normAns kv.2)

/-- `parse_object_pairs` with so many rounds. -/
def objectPairsIn (rounds : Nat) (raw : Bytes) : Option (List KV) :=
  (scan pairRound rounds (between (chr '\x7b') (chr '\x7d') raw)).map pairsOf

/-- `parse_object_pairs`. -/
def parseObjectPairs (raw : Bytes) : Option (List KV) :=
  objectPairsIn ((between (chr '\x7b') (chr '\x7d') raw).length + 1) raw

/-! ### Rounds -/

section

variable {s rest : Bytes}

theorem readText_quote (ends : UInt8 → Bool) (s : Bytes) : readText ends (chr '"' :: s) = readQuoted s := rfl

theorem readText_of_ne (ends : UInt8 → Bool) {c : UInt8} (h : c ≠ chr '"') (s : Bytes) :
    readText ends (c :: s) =
      ((c :: s).takeWhile fun b => !ends b, (c :: s).dropWhile fun b => !ends b) := if_neg h

theorem tokenRound_of_nil (h : s.dropWhile isTokenGap = []) : tokenRound s = none := by
  unfold tokenRound
  rw [h]

theorem tokenRound_of_cons {c : UInt8} {t : Bytes} (h : s.dropWhile isTokenGap = c :: t) :
    tokenRound s = some (readText endsToken (c :: t)) := by
  unfold tokenRound
  rw [h]

theorem pairRound_of_nil (h : s.dropWhile isPairGap = []) : pairRound s = none := by
  unfold pairRound
  rw [h]

/-- The text behind the colon of a pair whose key is read. -/
def behindColon (s : Bytes) : Bytes := (s.dropWhile (· ≠ chr ':')).tail.dropWhile Queue.isBlank

theorem pairRound_of_cons {c : UInt8} {t key rest' value : Bytes} (h : s.dropWhile isPairGap = c :: t)
    (hkey : readText (fun c => c = chr ':' || c = chr ',') (c :: t) = (key, rest'))
    (hvalue : readText (fun c => c = chr ',' || c = chr '}') (behindColon rest') = (value, rest)) :
    pairRound s = some ((key, value), rest) := by
  unfold pairRound
  rw [h]
  dsimp only
  rw [hkey]
  exact congrArg (fun r => some ((key, r.1), r.2)) hvalue

theorem readQuoted_length (s : Bytes) : (readQuoted s).2.length ≤ s.length := by
  fun_induction readQuoted s with
  | case1 => exact le_rfl
  | case2 => exact Nat.zero_le _
  | case3 => exact Nat.zero_le _
  | case4 d s ih => exact ih.trans (Nat.le_add_right _ 2)
  | case5 => exact Nat.le_succ _
  | case6 c d s _ _ text rest hrest ih =>
      rw [hrest] at ih
      exact ih.trans (Nat.le_succ _)

/-- A text that begins with what ends it stays as it is, and any other one gets shorter. -/
theorem readText_cons (ends : UInt8 → Bool) (c : UInt8) (s : Bytes) :
    (ends c = true ∧ c ≠ chr '"' ∧ readText ends (c :: s) = ([], c :: s)) ∨
      (readText ends (c :: s)).2.length < (c :: s).length := by
  by_cases hquote : c = chr '"'
  · rw [hquote, readText_quote]
    exact Or.inr (Nat.lt_succ_of_le (readQuoted_length s))
  · rw [readText_of_ne ends hquote]
    cases hends : ends c with
    | true => exact Or.inl ⟨rfl, hquote, by simp [hends]⟩
    | false =>
        right
        rw [List.dropWhile_cons_of_pos (by simp [hends])]
        exact Nat.lt_succ_of_le (List.length_dropWhile_le _ _)

/-- A round that reads nothing leaves a text on which the loop goes on for ever. -/
theorem tokenRound_length {item : Bytes} (h : tokenRound s = some (item, rest)) :
    rest.length < s.length ∨ ∀ n, scan tokenRound n rest = none := by
  have hle := List.length_dropWhile_le isTokenGap s
  cases ht : s.dropWhile isTokenGap with
  | nil =>
      rw [tokenRound_of_nil ht] at h
      cases h
  | cons c u =>
      rw [tokenRound_of_cons ht] at h
      rw [ht] at hle
      rcases readText_cons endsToken c u with ⟨-, -, hread⟩ | hshorter
      · right
        rw [hread] at h
        cases h
        refine Scan.eq_none_of_loop (?_ : _ = some ([], _))
        have hgap : (c :: u).dropWhile isTokenGap = c :: u := by
          rw [← ht, List.dropWhile_idempotent]
        rw [tokenRound_of_cons hgap, hread]
      · left
        rw [Option.some.inj h] at hshorter
        exact hshorter.trans_le hle

theorem readText_length (ends : UInt8 → Bool) (s : Bytes) :
    (readText ends s).2.length ≤ s.length := by
  cases s with
  | nil => exact le_rfl
  | cons c s =>
      rcases readText_cons ends c s with ⟨-, -, hread⟩ | hshorter
      · rw [hread]
      · exact hshorter.le

theorem pairRound_length {item : KV} (h : pairRound s = some (item, rest)) :
    rest.length < s.length := by
  unfold pairRound at h
  have hle := List.length_dropWhile_le isPairGap s
  cases ht : s.dropWhile isPairGap with
  | nil =>
      rw [ht] at h
      cases h
  | cons c u =>
      rw [ht] at h hle
      cases h
      refine (readText_length _ _).trans_lt (lt_of_lt_of_le ?_ hle)
      refine (List.length_dropWhile_le _ _).trans_lt ?_
      rw [List.length_tail]
      rcases readText_cons (fun c => c = chr ':' || c = chr ',') c u with
        ⟨hends, -, hread⟩ | hshorter
      · -- a pair without a key begins with its colon
        have hgap := List.head?_dropWhile_not isPairGap s
        rw [ht] at hgap
        have hcolon : c = chr ':' := by
          have hcomma : c ≠ chr ',' := fun h => by simp [isPairGap, h] at hgap
          simpa [hcomma] using hends
        rw [hread, List.dropWhile_cons_of_neg (by simp [hcolon])]
        exact Nat.lt_succ_self _
      · have := List.length_dropWhile_le (· ≠ chr ':')
          (readText (fun c => c = chr ':' || c = chr ',') (c :: u)).2
        omega

end

/-! ### Between the brackets -/

/-- A text from the first opening bracket to the last closing one behind it. -/
def Enclosed (opening closing : UInt8) (raw y : Bytes) : Prop :=
  ∃ x z, raw = x ++ opening :: (y ++ closing :: z) ∧ opening ∉ x ∧ closing ∉ z

section

variable {opening closing : UInt8} {raw y : Bytes}

theorem findByte_mark {x : Bytes} (h : opening ∉ x) (t : Bytes) :
    findByte (· = opening) (x ++ opening :: t) = some (opening :: t) := by
  have hskip : ∀ c ∈ x, decide (c = opening) = false := fun c hc =>
    decide_eq_false fun heq => h (heq ▸ hc)
  rw [findByte_append hskip]
  exact findByte_cons_pos (by simp)

theorem between_of_enclosed (h : Enclosed opening closing raw y) : between opening closing raw = y := by
  obtain ⟨x, z, rfl, hx, hz⟩ := h
  have hno : ∀ c ∈ z, decide (c ≠ closing) = true := fun c hc =>
    decide_eq_true fun heq => hz (heq ▸ hc)
  have hlast : (y ++ closing :: z).rdropWhile (fun c => decide (c ≠ closing)) = y ++ [closing] := by
    have hreverse : (y ++ closing :: z).reverse = z.reverse ++ closing :: y.reverse := by simp
    rw [List.rdropWhile, hreverse,
      List.dropWhile_append_of_pos fun c hc => hno c (List.mem_reverse.mp hc),
      List.dropWhile_cons_of_neg (by simp)]
    simp
  unfold between
  rw [findByte_mark hx]
  dsimp only
  rw [List.tail_cons, if_pos (by simp), hlast, List.dropLast_concat]

theorem exists_enclosed {x t : Bytes} (hraw : raw = x ++ opening :: t) (hx : opening ∉ x)
    (ht : closing ∈ t) : ∃ y, Enclosed opening closing raw y := by
  obtain ⟨z, y, hsplit, hz⟩ := List.eq_append_cons_of_mem (List.mem_reverse.mpr ht)
  refine ⟨y.reverse, x, z.reverse, ?_, hx, fun hmem => hz (List.mem_reverse.mp hmem)⟩
  rw [hraw, ← List.reverse_reverse t, hsplit]
  simp

theorem between_of_not_enclosed (h : ∀ y, ¬ Enclosed opening closing raw y) :
    between opening closing raw = raw := by
  unfold between
  cases hfind : findByte (· = opening) raw with
  | none => rfl
  | some s =>
      dsimp only
      refine if_neg fun hany => ?_
      obtain ⟨c, hc, hclosing⟩ := List.any_eq_true.mp hany
      obtain rfl : c = closing := by simpa using hclosing
      have hmem : opening ∈ raw := by
        by_contra hnot
        have hskip : ∀ c ∈ raw, decide (c = opening) = false := fun c hc =>
          decide_eq_false fun heq => hnot (heq ▸ hc)
        have hnone : findByte (· = opening) (raw ++ []) = none := by
          rw [findByte_append hskip]
          rfl
        rw [List.append_nil, hfind] at hnone
        cases hnone
      obtain ⟨x, t, hraw, hx⟩ := List.eq_append_cons_of_mem hmem
      rw [hraw, findByte_mark hx] at hfind
      obtain rfl := Option.some.inj hfind
      obtain ⟨y, hy⟩ := exists_enclosed hraw hx hc
      exact h y hy

end

/-! ### Results -/

/-- `parse_set_tokens` returns these tokens, after however many rounds. -/
theorem parseSetTokens_eq_some {raw : Bytes} {tokens : List Bytes} :
    parseSetTokens raw = some tokens ↔ ∃ rounds, setTokensIn rounds raw = some tokens := by
  constructor
  · exact fun h => ⟨_, h⟩
  · rintro ⟨rounds, h⟩
    obtain ⟨texts, htexts, rfl⟩ := Option.map_eq_some_iff.mp h
    exact Option.map_eq_some_iff.mpr ⟨texts, Scan.eq_some_of_length tokenRound_length htexts, rfl⟩

/-- `parse_object_pairs` always returns. -/
theorem isSome_parseObjectPairs (raw : Bytes) : (parseObjectPairs raw).isSome = true := by
  rw [parseObjectPairs, objectPairsIn, Option.isSome_map]
  exact Scan.isSome_of_length pairRound_length (Nat.lt_succ_self _)

end ExamVan.Middleware
