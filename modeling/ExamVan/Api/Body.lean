import ExamVan.Queue.Job

/-!
# Reading request bodies

The API handlers take fields out of a body without parsing it as a whole: `json_string_field` looks
for the first occurrence of the quoted name, `json_raw_value` for the first one outside a string
literal that a colon follows. A form body is split at `&` and `=`.
-/

namespace ExamVan.Api

open ByteString Queue

/-! ### JSON -/

/-- The rest of a string literal: a backslash is dropped and the byte after it taken as it is. -/
def readQuoted : Bytes → Option Bytes
  | [] => none
  | c :: rest =>
      if c = chr '\\' then
        match rest with
        | [] => none
        | d :: t => (readQuoted t).map (d :: ·)
      else if c = chr '"' then some []
      else (readQuoted rest).map (c :: ·)

/-- `json_string_field`. -/
def jsonStringField (body key : Bytes) : Bytes :=
  match findSub (needle key) body with
  | none => []
  | some t =>
      match findByte (· = chr ':') (t.drop (needle key).length) with
      | none => []
      | some u =>
          match u.tail.dropWhile isBlank with
          | [] => []
          | c :: v => if c = chr '"' then (readQuoted v).getD [] else []

/-- The text of an object or array from its opening bracket to the one that closes it. -/
def bracketText (opening closing : UInt8) : Int → Bool → Bool → Bytes → Option Bytes
  | _, _, _, [] => none
  | depth, inStr, esc, c :: t =>
      if esc then (bracketText opening closing depth inStr false t).map (c :: ·)
      else if c = chr '\\' ∧ inStr then
        (bracketText opening closing depth inStr true t).map (c :: ·)
      else if c = chr '"' then (bracketText opening closing depth (!inStr) false t).map (c :: ·)
      else if inStr then (bracketText opening closing depth inStr false t).map (c :: ·)
      else if c = opening then
        (bracketText opening closing (depth + 1) inStr false t).map (c :: ·)
      else if c = closing then
        if depth - 1 = 0 then some [c]
        else (bracketText opening closing (depth - 1) inStr false t).map (c :: ·)
      else (bracketText opening closing depth inStr false t).map (c :: ·)

/-- The value after a colon, as it is written. -/
def rawValueAt : Bytes → Bytes
  | [] => []
  | c :: t =>
      if c = chr '"' then
        match scanString t with
        | none => []
        | some r => chr '"' :: (r.1 ++ [chr '"'])
      else if c = chr '{' then (bracketText (chr '{') (chr '}') 0 false false (c :: t)).getD []
      else if c = chr '[' then (bracketText (chr '[') (chr ']') 0 false false (c :: t)).getD []
      else (c :: t).takeWhile fun c => !(c = chr ',' || c = chr '}' || c = chr ']')

/-- What follows the quoted name and the colon after it, if the text begins so. -/
def afterMember (key s : Bytes) : Option Bytes :=
  if needle key <+: s then
    match (s.drop (needle key).length).dropWhile isBlank with
    | [] => none
    | c :: t => if c = chr ':' then some (t.dropWhile isBlank) else none
  else none

/-- The loop of `json_raw_value`, with its two flags. -/
def rawValueFrom (key : Bytes) : Bool → Bool → Bytes → Bytes
  | _, _, [] => []
  | inStr, esc, c :: t =>
      match if !inStr && !esc then afterMember key (c :: t) else none with
      | some value => rawValueAt value
      | none =>
          if esc then rawValueFrom key inStr false t
          else if c = chr '\\' ∧ inStr then rawValueFrom key inStr true t
          else if c = chr '"' then rawValueFrom key (!inStr) false t
          else rawValueFrom key inStr false t

/-- `json_raw_value`. -/
def jsonRawValue (body key : Bytes) : Bytes := rawValueFrom key false false body

/-- The loops of `json_field` and `json_field_w`, with their two flags: the first member of this name
whose value can be read. -/
def memberFrom (read : Bytes → Option Bytes) (key : Bytes) : Bool → Bool → Bytes → Bytes
  | _, _, [] => []
  | inStr, esc, c :: t =>
      match if !inStr && !esc then (afterMember key (c :: t)).bind read else none with
      | some value => value
      | none =>
          if esc then memberFrom read key inStr false t
          else if c = chr '\\' ∧ inStr then memberFrom read key inStr true t
          else if c = chr '"' then memberFrom read key (!inStr) false t
          else memberFrom read key inStr false t

/-- A member that is not read here is looked for behind the byte. -/
theorem memberFrom_cons (read : Bytes → Option Bytes) (key : Bytes) (inStr esc : Bool) (c : UInt8)
    (t : Bytes) : memberFrom read key inStr esc (c :: t) =
      (if !inStr && !esc then (afterMember key (c :: t)).bind read else none).getD
        (if esc then memberFrom read key inStr false t
        else if c = chr '\\' ∧ inStr then memberFrom read key inStr true t
        else if c = chr '"' then memberFrom read key (!inStr) false t
        else memberFrom read key inStr false t) := by
  rw [memberFrom]
  generalize (if !inStr && !esc then (afterMember key (c :: t)).bind read else none) = found
  cases found <;> rfl

/-- The loop of `parse_string_map`, which leaves escapes as they are. Every round consumes a byte,
so the length of the text is fuel enough. -/
def stringPairs : Nat → Bytes → StringMap → StringMap
  | 0, _, out => out
  | fuel + 1, s, out =>
      match s.dropWhile fun c => isBlank c || c = chr ',' with
      | [] => out
      | c :: t =>
          if c = chr '}' then out
          else if c ≠ chr '"' then stringPairs fuel t out
          else
            match scanString t with
            | none => out
            | some key =>
                match key.2.dropWhile fun c => isBlank c || c = chr ':' with
                | [] => out
                | d :: u =>
                    if d ≠ chr '"' then stringPairs fuel u out
                    else
                      match scanString u with
                      | none => out
                      | some value => stringPairs fuel value.2 (out.insert key.1 value.1)

def parseStringMap (raw : Bytes) : StringMap :=
  match raw with
  | [] => OrderedMap.empty
  | c :: t => if c = chr '{' then stringPairs raw.length t OrderedMap.empty else OrderedMap.empty

/-! ### Forms -/

/-- `url_decode`. -/
def urlDecode : Bytes → Bytes
  | [] => []
  | c :: h :: l :: t =>
      if c = chr '+' then chr ' ' :: urlDecode (h :: l :: t)
      else if c = chr '%' then
        match hexValue h, hexValue l with
        | some a, some b => UInt8.ofNat (a * 16 + b) :: urlDecode t
        | _, _ => c :: urlDecode (h :: l :: t)
      else c :: urlDecode (h :: l :: t)
  -- fewer than two bytes after it: `i+2<s.size()` fails and `%` stands for itself
  | c :: t => (if c = chr '+' then chr ' ' else c) :: urlDecode t

/-- One pair of a form: the text before the first `=` and the text after it. -/
def formPair (pair : Bytes) : Bytes × Bytes :=
  (urlDecode (pair.takeWhile (· ≠ chr '=')), urlDecode (pair.dropWhile (· ≠ chr '=')).tail)

/-- `parse_form`. -/
def parseForm (body : Bytes) : StringMap :=
  OrderedMap.empty.insertAll
    (((body.splitOn (chr '&')).filter (· ≠ [])).map formPair)

/-! ### Devices and identities -/

def isMacByte (c : UInt8) : Bool :=
  (chr 'A' ≤ c && c ≤ chr 'Z') || (chr 'a' ≤ c && c ≤ chr 'z') || (chr '0' ≤ c && c ≤ chr '9') ||
    c = chr ':' || c = chr '.' || c = chr '-' || c = chr '_'

/-- `sanitize_mac_like_go`. -/
def sanitizeMacLikeGo (raw : Bytes) : Bytes :=
  let s := (raw.filter isMacByte).take 100
  if s = [] then str "unknown" else s

/-- The loop of `required_identity_keys`; every round consumes a byte. -/
def requiredKeys : Nat → Bytes → List Bytes
  | 0, _ => []
  | fuel + 1, s =>
      match findSub (str "\"key\"") s with
      | none => []
      | some t =>
          match findByte (· = chr ':') (t.drop 5) with
          | none => []
          | some u =>
              match findByte (· = chr '"') u.tail with
              | none => []
              | some v =>
                  match scanString v.tail with
                  | none => []
                  | some key =>
                      match findByte (· = chr '}') key.2 with
                      | none => []
                      | some w =>
                          let obj := (t.take (t.length - w.length)).map fun c =>
                            if isBlank c then chr ' ' else c
                          if findSub (str "\"required\":true") obj = none then
                            requiredKeys fuel w.tail
                          else key.1 :: requiredKeys fuel w.tail

/-- `required_identity_keys`. -/
def requiredIdentityKeys (identityFields : Bytes) : List Bytes :=
  requiredKeys identityFields.length identityFields

end ExamVan.Api

/-!
## Percent-decoding

Bytes other than plus and percent signs are read as they are, and a percent sign with two hexadecimal
digits as the byte that they spell.
-/

namespace ExamVan.Api

open ByteString Queue

theorem urlDecode_cons {c : UInt8} (hplus : c ≠ chr '+') (hpercent : c ≠ chr '%') (t : Bytes) :
    urlDecode (c :: t) = c :: urlDecode t := by
  rcases t with - | ⟨h, - | ⟨l, t⟩⟩
  · simp [urlDecode, hplus]
  · simp [urlDecode, hplus]
  · rw [urlDecode, if_neg hplus, if_neg hpercent]

theorem urlDecode_eq_self {s : Bytes} (h : ∀ c ∈ s, c ≠ chr '+' ∧ c ≠ chr '%') : urlDecode s = s := by
  induction s with
  | nil => rfl
  | cons c s ih =>
      rw [List.forall_mem_cons] at h
      rw [urlDecode_cons h.1.1 h.1.2, ih h.2]

theorem urlDecode_percent {h l : UInt8} {a b : Nat} (hh : hexValue h = some a) (hl : hexValue l = some b)
    (t : Bytes) : urlDecode (chr '%' :: h :: l :: t) = UInt8.ofNat (a * 16 + b) :: urlDecode t := by
  rw [urlDecode, if_neg (by decide), if_pos rfl, hh, hl]

theorem urlDecode_plus (s : Bytes) : urlDecode (chr '+' :: s) = chr ' ' :: urlDecode s := by
  rcases s with - | ⟨h, - | ⟨l, t⟩⟩
  · rfl
  · rfl
  · rw [urlDecode, if_pos rfl]

/-- A percent sign that two hexadecimal digits do not follow stands for itself. -/
theorem urlDecode_percent_of_not {s : Bytes}
    (h : ∀ a b t, s = a :: b :: t → hexValue a = none ∨ hexValue b = none) :
    urlDecode (chr '%' :: s) = chr '%' :: urlDecode s := by
  rcases s with - | ⟨a, - | ⟨b, t⟩⟩
  · rfl
  · rfl
  · rw [urlDecode, if_neg (by decide), if_pos rfl]
    rcases h a b t rfl with ha | hb
    · rw [ha]
    · rw [hb]
      cases hexValue a <;> rfl

/-- A byte that is no sign of the encoding and no hexadecimal digit splits a text where it stands. -/
theorem urlDecode_append_cons {c : UInt8} (hplus : c ≠ chr '+') (hpercent : c ≠ chr '%')
    (hhex : hexValue c = none) (s t : Bytes) :
    urlDecode (s ++ c :: t) = urlDecode s ++ c :: urlDecode t := by
  induction s using urlDecode.induct with
  | case1 => exact urlDecode_cons hplus hpercent t
  | case2 a b s ih => rw [List.cons_append, urlDecode_plus, urlDecode_plus, ih, List.cons_append]
  | case3 a b s m n hb ha _ ih =>
      rw [urlDecode_percent ha hb, List.cons_append, List.cons_append, List.cons_append,
        urlDecode_percent ha hb, ih, List.cons_append]
  | case4 a b s hnot _ ih =>
      have hdigits : hexValue a = none ∨ hexValue b = none := by
        cases ha : hexValue a with
        | none => exact .inl rfl
        | some m =>
            cases hb : hexValue b with
            | none => exact .inr rfl
            | some n => exact (hnot m n ha hb).elim
      rw [List.cons_append, urlDecode_percent_of_not, urlDecode_percent_of_not, ih,
        List.cons_append]
      · rintro _ _ _ ⟨⟩
        exact hdigits
      · rintro _ _ _ ⟨⟩
        exact hdigits
  | case5 d a b s hdplus hdpercent ih =>
      rw [List.cons_append, urlDecode_cons hdplus hdpercent, urlDecode_cons hdplus hdpercent, ih,
        List.cons_append]
  | case6 d s hshort ih =>
      rw [List.cons_append]
      by_cases hdplus : d = chr '+'
      · rw [hdplus, urlDecode_plus, urlDecode_plus, ih, List.cons_append]
      by_cases hdpercent : d = chr '%'
      · -- the byte stands where a digit of `d` would
        rw [hdpercent, urlDecode_percent_of_not, urlDecode_percent_of_not, ih, List.cons_append]
        · intro a b u hs
          exact (hshort a b u hs).elim
        · rcases s with - | ⟨a, - | ⟨b, u⟩⟩
          · rintro _ _ _ ⟨⟩
            exact .inl hhex
          · rintro _ _ _ ⟨⟩
            exact .inr hhex
          · exact (hshort a b u rfl).elim
      · rw [urlDecode_cons hdplus hdpercent, urlDecode_cons hdplus hdpercent, ih, List.cons_append]

end ExamVan.Api
