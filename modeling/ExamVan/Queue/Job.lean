import ExamVan.Lib.Decimal
import ExamVan.Lib.JsonReading
import ExamVan.Lib.OrderedMap

/-!
# The submission job and its JSON codec

`SubmissionJob::to_json` writes one object with eleven members. `SubmissionJob::from_json` does not
parse that object: it searches the whole text for the first occurrence of each quoted member name,
then for the next colon, and reads what follows. The definitions keep that shape.
-/

namespace ExamVan.Queue

open ByteString

/-- `std::map<std::string,std::string>`. -/
abbrev StringMap := OrderedMap Bytes Bytes

/-- One submitted answer sheet, as it travels through the queue. -/
@[ext]
structure SubmissionJob where
  jobId : Bytes := []
  examId : Int32 := 0
  studentName : Bytes := []
  examNumber : Bytes := []
  studentClass : Bytes := []
  startTime : Bytes := []
  macAddress : Bytes := []
  answers : StringMap := OrderedMap.empty
  identityData : StringMap := OrderedMap.empty
  retries : Int32 := 0
  enqueuedAt : Bytes := []
  deriving DecidableEq, Inhabited

def kMaxRetries : Int32 := 3

def kWorkerCount : Nat := 8

/-! ### String escaping -/

/-- A hexadecimal digit, lower case, as `%x` prints it. -/
def hexDigit (n : Nat) : UInt8 := if n < 10 then 48 + UInt8.ofNat n else 87 + UInt8.ofNat n

/-- What `json_escape` appends for one byte. -/
def escapeByte (c : UInt8) : Bytes :=
  if c = chr '"' then str "\\\""
  else if c = chr '\\' then str "\\\\"
  else if c = 8 then str "\\b"
  else if c = 12 then str "\\f"
  else if c = 10 then str "\\n"
  else if c = 13 then str "\\r"
  else if c = 9 then str "\\t"
  else if c < 0x20 then str "\\u00" ++ [hexDigit (c.toNat / 16), hexDigit (c.toNat % 16)]
  else [c]

def jsonEscape (s : Bytes) : Bytes := s.flatMap escapeByte

/-- The value of one hexadecimal digit of either case. -/
def hexValue (c : UInt8) : Option Nat :=
  if chr '0' ≤ c ∧ c ≤ chr '9' then some (c.toNat - 48)
  else if chr 'a' ≤ c ∧ c ≤ chr 'f' then some (c.toNat - 87)
  else if chr 'A' ≤ c ∧ c ≤ chr 'F' then some (c.toNat - 55)
  else none

/-- The code unit that four hexadecimal digits spell. -/
def codeUnit (h₁ h₂ h₃ h₄ : UInt8) : Option Nat := do
  let a ← hexValue h₁
  let b ← hexValue h₂
  let c ← hexValue h₃
  let d ← hexValue h₄
  return ((a * 16 + b) * 16 + c) * 16 + d

/-- The bytes that `json_unescape` writes for a code unit. -/
def utf8Bytes (v : Nat) : Bytes :=
  if v ≤ 0x7F then [UInt8.ofNat v]
  else if v ≤ 0x7FF then [UInt8.ofNat (0xC0 ||| v >>> 6), UInt8.ofNat (0x80 ||| v &&& 0x3F)]
  else [UInt8.ofNat (0xE0 ||| v >>> 12), UInt8.ofNat (0x80 ||| (v >>> 6) &&& 0x3F),
    UInt8.ofNat (0x80 ||| v &&& 0x3F)]

/-- The byte after a backslash stands for this one, `u` aside; an unknown letter for itself. -/
def unescapeByte (n : UInt8) : UInt8 :=
  if n = chr 'n' then 10
  else if n = chr 'r' then 13
  else if n = chr 't' then 9
  else if n = chr 'b' then 8
  else if n = chr 'f' then 12
  else n

def jsonUnescape : Bytes → Bytes
  | [] => []
  | [c] => [c]
  | c :: n :: h₁ :: h₂ :: h₃ :: h₄ :: t =>
      if c = chr '\\' then
        if n = chr 'u' then
          match codeUnit h₁ h₂ h₃ h₄ with
          | some v => utf8Bytes v ++ jsonUnescape t
          | none => n :: jsonUnescape (h₁ :: h₂ :: h₃ :: h₄ :: t)
        else unescapeByte n :: jsonUnescape (h₁ :: h₂ :: h₃ :: h₄ :: t)
      else c :: jsonUnescape (n :: h₁ :: h₂ :: h₃ :: h₄ :: t)
  -- fewer than four bytes after the letter: `i+5<s.size()` fails and `u` stands for itself
  | c :: n :: t =>
      if c = chr '\\' then unescapeByte n :: jsonUnescape t else c :: jsonUnescape (n :: t)

/-! ### Encoding -/

/-- A string literal: the escaped bytes between quotes. -/
def quoted (s : Bytes) : Bytes := chr '"' :: (jsonEscape s ++ [chr '"'])

/-- The loop of `map_to_json`, with its `first` flag. -/
def mapMembers (first : Bool) : List (Bytes × Bytes) → Bytes
  | [] => []
  | kv :: rest =>
      (if first then [] else [chr ',']) ++ quoted kv.1 ++ chr ':' :: quoted kv.2 ++
        mapMembers false rest

def mapToJson (m : StringMap) : Bytes := chr '{' :: (mapMembers true m.entries ++ [chr '}'])

/-- A name between quotes, as it is written and as it is searched for. -/
def needle (key : Bytes) : Bytes := chr '"' :: (key ++ [chr '"'])

def member (name value : Bytes) : Bytes := needle name ++ chr ':' :: value

/-- `SubmissionJob::to_json`. -/
def toJson (j : SubmissionJob) : Bytes :=
  chr '{' :: (member (str "job_id") (quoted j.jobId) ++
    chr ',' :: (member (str "exam_id") (intText j.examId.toInt) ++
    chr ',' :: (member (str "student_name") (quoted j.studentName) ++
    chr ',' :: (member (str "exam_number") (quoted j.examNumber) ++
    chr ',' :: (member (str "student_class") (quoted j.studentClass) ++
    chr ',' :: (member (str "mac_address") (quoted j.macAddress) ++
    chr ',' :: (member (str "start_time") (quoted j.startTime) ++
    chr ',' :: (member (str "retries") (intText j.retries.toInt) ++
    chr ',' :: (member (str "enqueued_at") (quoted j.enqueuedAt) ++
    chr ',' :: (member (str "answers") (mapToJson j.answers) ++
    chr ',' :: (member (str "identity_data") (mapToJson j.identityData) ++
    [chr '}'])))))))))))

/-! ### Decoding -/

/-- The rest of a string literal after its opening quote: the raw text up to the closing quote, and
what follows it. A backslash takes the next byte with it. -/
def scanString : Bytes → Option (Bytes × Bytes)
  | [] => none
  | c :: rest =>
      if c = chr '\\' then
        match rest with
        | [] => none
        | d :: t => (scanString t).map fun r => (c :: d :: r.1, r.2)
      else if c = chr '"' then some ([], rest)
      else (scanString rest).map fun r => (c :: r.1, r.2)

theorem scanString_cons {c : UInt8} (hback : c ≠ chr '\\') (hquote : c ≠ chr '"') (t : Bytes) :
    scanString (c :: t) = (scanString t).map fun r => (c :: r.1, r.2) := by
  rw [scanString.eq_def]
  simp [hback, hquote]

theorem scanString_backslash (d : UInt8) (t : Bytes) :
    scanString (chr '\\' :: d :: t) = (scanString t).map fun r => (chr '\\' :: d :: r.1, r.2) := by
  rw [scanString.eq_def]
  simp

theorem scanString_quote (t : Bytes) : scanString (chr '"' :: t) = some ([], t) := by
  rw [scanString.eq_def]
  simp [show chr '"' ≠ chr '\\' by decide]

/-- The value after a colon, as `from_json` reads it: a string literal, or the bytes up to the next
comma or closing brace without their blanks. -/
def scalarAt (s : Bytes) : Bytes :=
  match s.dropWhile fun c => c = chr ' ' || c = chr '\t' with
  | [] => []
  | c :: t =>
      if c = chr '"' then
        match scanString t with
        | none => []
        | some r => jsonUnescape r.1
      else
        match findByte (fun c => c = chr ',' || c = chr '}') (c :: t) with
        | none => []
        | some _ =>
            ((c :: t).takeWhile fun c => !(c = chr ',' || c = chr '}')).filter (· ≠ chr ' ')

/-- The scalar after the next colon. -/
def scalarAfterColon (s : Bytes) : Bytes :=
  match findByte (· = chr ':') s with
  | none => []
  | some t => scalarAt t.tail

/-- `extract(key)` of `from_json`. -/
def extract (s key : Bytes) : Bytes :=
  match findSub (needle key) s with
  | none => []
  | some t => scalarAfterColon t

/-- The text of an object from its opening brace to the brace that closes it, braces in string
literals not counted. -/
def objectText : Int → Bool → Bool → Bytes → Option Bytes
  | _, _, _, [] => none
  | depth, inStr, esc, ch :: t =>
      if esc then (objectText depth inStr false t).map (ch :: ·)
      else if ch = chr '\\' ∧ inStr then (objectText depth inStr true t).map (ch :: ·)
      else if ch = chr '"' then (objectText depth (!inStr) false t).map (ch :: ·)
      else if inStr then (objectText depth inStr false t).map (ch :: ·)
      else if ch = chr '{' then (objectText (depth + 1) inStr false t).map (ch :: ·)
      else if ch = chr '}' then
        if depth - 1 = 0 then some [ch] else (objectText (depth - 1) inStr false t).map (ch :: ·)
      else (objectText depth inStr false t).map (ch :: ·)

/-- A blank of the source's `while` loops. -/
def isBlank (c : UInt8) : Bool := c = chr ' ' || c = chr '\t' || c = chr '\n' || c = chr '\r'

/-- The loop of `parse_map_from_json` over the object's text. Every round consumes a byte, so the
length of the text is fuel enough. -/
def parsePairs : Nat → Bytes → StringMap → StringMap
  | 0, _, out => out
  | fuel + 1, s, out =>
      match s.dropWhile fun c => isBlank c || c = chr ',' with
      | [] => out
      | c :: t =>
          if c = chr '}' then out
          else if c ≠ chr '"' then parsePairs fuel t out
          else
            match scanString t with
            | none => out
            | some key =>
                match key.2.dropWhile fun c => isBlank c || c = chr ':' with
                | [] => out
                | d :: u =>
                    if d ≠ chr '"' then parsePairs fuel u out
                    else
                      match scanString u with
                      | none => out
                      | some value =>
                          parsePairs fuel value.2
                            (out.insert (jsonUnescape key.1) (jsonUnescape value.1))

/-- The map in the object that starts at the first brace after the next colon. -/
def mapAfterColon (s : Bytes) : StringMap :=
  match findByte (· = chr ':') s with
  | none => OrderedMap.empty
  | some t =>
      match findByte (· = chr '{') t with
      | none => OrderedMap.empty
      | some u =>
          match objectText 0 false false u with
          | none => OrderedMap.empty
          | some obj => parsePairs obj.length obj.tail OrderedMap.empty

def parseMapFromJson (s key : Bytes) : StringMap :=
  match findSub (needle key) s with
  | none => OrderedMap.empty
  | some t => mapAfterColon t

/-- `try{ x=std::stoi(s); }catch(...){}` on a member that holds 0. -/
def stoiOrZero (s : Bytes) : Int32 := (stoi s).getD 0

/-- `SubmissionJob::from_json`. -/
def fromJson (s : Bytes) : Option SubmissionJob :=
  if extract s (str "job_id") = [] then none
  else some
    { jobId := extract s (str "job_id")
      examId := stoiOrZero (extract s (str "exam_id"))
      studentName := extract s (str "student_name")
      examNumber := extract s (str "exam_number")
      studentClass := extract s (str "student_class")
      startTime := extract s (str "start_time")
      macAddress := extract s (str "mac_address")
      enqueuedAt := extract s (str "enqueued_at")
      retries := stoiOrZero (extract s (str "retries"))
      answers := parseMapFromJson s (str "answers")
      identityData := parseMapFromJson s (str "identity_data") }

end ExamVan.Queue

/-!
## Escaped strings as JSON

What `json_escape` writes between quotes is a string literal, and it denotes the bytes that were
escaped. The text of any string literal ends where the scan for its closing quote does.
-/

namespace ExamVan.Queue

open ByteString JsonText

theorem queueIsBlank_eq : Queue.isBlank = JsonText.isBlank := by
  funext c
  unfold Queue.isBlank JsonText.isBlank
  rw [Bool.or_right_comm]

theorem isHexDigit_hexDigit {c : UInt8} (h : c < 0x20) :
    JsonText.isHexDigit (hexDigit (c.toNat / 16)) = true ∧
      JsonText.isHexDigit (hexDigit (c.toNat % 16)) = true := by
  have hall : ∀ n < 32, JsonText.isHexDigit (hexDigit (n / 16)) = true ∧
      JsonText.isHexDigit (hexDigit (n % 16)) = true := by decide
  exact hall c.toNat (UInt8.lt_iff_toNat_lt.mp h)

/-- The piece that `json_escape` writes for a byte. -/
def escapedPiece (c : UInt8) : Piece :=
  if c = chr '"' then .short (chr '"') (by decide)
  else if c = chr '\\' then .short (chr '\\') (by decide)
  else if c = 8 then .short (chr 'b') (by decide)
  else if c = 12 then .short (chr 'f') (by decide)
  else if c = 10 then .short (chr 'n') (by decide)
  else if c = 13 then .short (chr 'r') (by decide)
  else if c = 9 then .short (chr 't') (by decide)
  else if h : c < 0x20 then
    .unicode (chr '0') (chr '0') (hexDigit (c.toNat / 16)) (hexDigit (c.toNat % 16))
      ⟨by decide, by decide, isHexDigit_hexDigit h⟩
  else if h : c ≠ chr '"' ∧ c ≠ chr '\\' then .plain c ⟨not_lt.mp ‹_›, h⟩
  else .plain (chr ' ') (by decide)

def escapedPieces (s : Bytes) : List Piece := s.map escapedPiece

theorem text_escapedPiece (c : UInt8) : (escapedPiece c).text = escapeByte c := by
  unfold escapedPiece escapeByte
  split_ifs <;> first | rfl | simp_all

theorem codeUnit_control {c : UInt8} (h : c < 0x20) :
    JsonText.codeUnit (chr '0') (chr '0') (hexDigit (c.toNat / 16)) (hexDigit (c.toNat % 16)) =
      c.toNat := by
  have hall : ∀ n < 32, JsonText.codeUnit (chr '0') (chr '0') (hexDigit (n / 16))
      (hexDigit (n % 16)) = n := by decide
  exact hall c.toNat (UInt8.lt_iff_toNat_lt.mp h)

theorem decodeFrom_escapedPiece (c : UInt8) (rest : List Piece) :
    decodeFrom none (escapedPiece c :: rest) = c :: decodeFrom none rest := by
  unfold escapedPiece
  split_ifs with hquote hback h8 h12 h10 h13 h9 hcontrol hplain
  all_goals simp only [decodeFrom, Option.map_none, Option.getD_none, List.nil_append]
  · rw [hquote]
    rfl
  · rw [hback]
    rfl
  · rw [h8]
    rfl
  · rw [h12]
    rfl
  · rw [h10]
    rfl
  · rw [h13]
    rfl
  · rw [h9]
    rfl
  · have hsmall : c.toNat < 32 := UInt8.lt_iff_toNat_lt.mp hcontrol
    rw [codeUnit_control hcontrol, if_neg (by omega)]
    have hutf8 : utf8 c.toNat = [c] := by
      unfold utf8
      rw [if_pos (by omega), UInt8.ofNat_toNat]
    rw [hutf8, List.singleton_append]
  · exact absurd ⟨hquote, hback⟩ hplain

/-- An escaped string between quotes. -/
theorem stringText_escapedPieces (s : Bytes) : stringText (escapedPieces s) = quoted s := by
  have hraw : raw (escapedPieces s) = jsonEscape s := by
    unfold raw escapedPieces jsonEscape
    rw [List.flatMap_map]
    exact congrArg (List.flatMap · s) (funext text_escapedPiece)
  rw [stringText, hraw, quoted]

theorem decode_escapedPieces (s : Bytes) : decode (escapedPieces s) = s := by
  induction s with
  | nil => rfl
  | cons c s ih =>
      have hcons : decode (escapedPieces (c :: s)) = c :: decode (escapedPieces s) :=
        decodeFrom_escapedPiece c (escapedPieces s)
      rw [hcons, ih]

theorem scanString_piece (p : Piece) (t : Bytes) :
    scanString (p.text ++ t) = (scanString t).map fun r => (p.text ++ r.1, r.2) := by
  cases p with
  | plain c hc => exact scanString_cons hc.2.2 hc.2.1 t
  | short c hc => exact scanString_backslash c t
  | unicode h₁ h₂ h₃ h₄ hhex =>
      have hplain : ∀ c u, isHexDigit c = true →
          scanString (c :: u) = (scanString u).map fun r => (c :: r.1, r.2) := fun c u hc =>
        scanString_cons (ne_of_isHexDigit hc).2 (ne_of_isHexDigit hc).1 u
      simp only [Piece.text, List.cons_append, List.nil_append]
      rw [scanString_backslash, hplain _ _ hhex.1, hplain _ _ hhex.2.1, hplain _ _ hhex.2.2.1,
        hplain _ _ hhex.2.2.2]
      simp [Function.comp_def]

theorem scanString_raw (s : List Piece) (t : Bytes) :
    scanString (raw s ++ chr '"' :: t) = some (raw s, t) := by
  induction s with
  | nil =>
      exact scanString_quote t
  | cons p s ih =>
      rw [raw_cons, List.append_assoc, scanString_piece, ih]
      rfl

end ExamVan.Queue
