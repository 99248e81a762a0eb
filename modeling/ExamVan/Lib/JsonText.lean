import ExamVan.Lib.Decimal

/-!
# JSON texts

The derivations of the JSON grammar, with the blanks and the spelling of every token, so that a text
is well formed if it is what a derivation renders. What a text denotes forgets blanks and spelling:
numbers keep their digits, strings are decoded to UTF-8.

A lead is the blanks after an opening bracket. Those before the first element may be divided in any
way between the lead and the element.
-/

namespace JsonText

open ByteString

/-! ### Tokens -/

def isBlank (c : UInt8) : Bool := c = chr ' ' || c = chr '\t' || c = chr '\r' || c = chr '\n'

structure Blanks where
  text : Bytes
  isBlank : ∀ c ∈ text, isBlank c

namespace Blanks

def empty : Blanks := ⟨[], nofun⟩

def append (a b : Blanks) : Blanks :=
  ⟨a.text ++ b.text, fun c hc => (List.mem_append.mp hc).elim (a.isBlank c) (b.isBlank c)⟩

/-- The last `n` blanks. -/
def last (a : Blanks) (n : Nat) : Blanks :=
  ⟨a.text.drop (a.text.length - n), fun c hc => a.isBlank c (List.mem_of_mem_drop hc)⟩

instance : Append Blanks := ⟨append⟩

@[simp]
theorem text_empty : empty.text = [] := rfl

@[simp]
theorem text_append (a b : Blanks) : (a ++ b).text = a.text ++ b.text := rfl

@[ext]
theorem ext {a b : Blanks} (h : a.text = b.text) : a = b := by
  cases a
  cases b
  cases h
  rfl

theorem append_assoc (a b c : Blanks) : a ++ b ++ c = a ++ (b ++ c) :=
  ext (List.append_assoc _ _ _)

@[simp]
theorem append_empty (a : Blanks) : a ++ empty = a := ext (List.append_nil _)

end Blanks

structure Digits where
  text : Bytes
  isDigit : ∀ c ∈ text, isDigit c
  ne_nil : text ≠ []

/-- A number: a sign, digits without a leading zero, a fraction and an exponent. -/
structure Number where
  minus : Bool := false
  whole : Digits
  no_leading_zero : whole.text.head? = some (chr '0') → whole.text.length = 1
  fraction : Option Digits := none
  /-- whether the mark is upper case, the sign, and the digits -/
  exponent : Option (Bool × Option Bool × Digits) := none

def signText : Option Bool → Bytes
  | none => []
  | some true => [chr '-']
  | some false => [chr '+']

def Number.text (n : Number) : Bytes :=
  (if n.minus then [chr '-'] else []) ++ n.whole.text ++
    (match n.fraction with
      | none => []
      | some d => chr '.' :: d.text) ++
    match n.exponent with
      | none => []
      | some (upper, sign, d) => (if upper then chr 'E' else chr 'e') :: (signText sign ++ d.text)

inductive Literal
  | null
  | true
  | false
  | number (n : Number)

def Literal.text : Literal → Bytes
  | .null => str "null"
  | .true => str "true"
  | .false => str "false"
  | .number n => n.text

def isHexDigit (c : UInt8) : Bool :=
  isDigit c || (chr 'a' ≤ c && c ≤ chr 'f') || (chr 'A' ≤ c && c ≤ chr 'F')

/-- A character of a string, as it is spelled. -/
inductive Piece
  | plain (c : UInt8) (h : 0x20 ≤ c ∧ c ≠ chr '"' ∧ c ≠ chr '\\')
  | short (c : UInt8) (h : c ∈ str "\"\\/bfnrt")
  | unicode (h₁ h₂ h₃ h₄ : UInt8)
      (h : isHexDigit h₁ ∧ isHexDigit h₂ ∧ isHexDigit h₃ ∧ isHexDigit h₄)

def Piece.text : Piece → Bytes
  | .plain c _ => [c]
  | .short c _ => [chr '\\', c]
  | .unicode h₁ h₂ h₃ h₄ _ => [chr '\\', chr 'u', h₁, h₂, h₃, h₄]

def raw (s : List Piece) : Bytes := s.flatMap Piece.text

@[simp]
theorem raw_nil : raw [] = [] := rfl

@[simp]
theorem raw_cons (p : Piece) (s : List Piece) : raw (p :: s) = p.text ++ raw s := rfl

/-! ### Derivations -/

mutual

inductive Value
  | literal (l : Literal)
  | string (s : List Piece)
  | array (lead : Blanks) (items : Items)
  | object (lead : Blanks) (members : Members)

inductive Items
  | nil
  | cons (pre : Blanks) (v : Value) (post : Blanks) (rest : Items)

inductive Members
  | nil
  | cons (pre : Blanks) (name : List Piece) (mid gap : Blanks) (v : Value) (post : Blanks)
      (rest : Members)

end

/-- A JSON text: a value between blanks. -/
structure Text where
  lead : Blanks := .empty
  v : Value
  trail : Blanks := .empty

/-- The comma before an element that is not the first. -/
def comma (first : Bool) : Bytes := if first then [] else [chr ',']

def stringText (s : List Piece) : Bytes := chr '"' :: (raw s ++ [chr '"'])

mutual

def Value.render : Value → Bytes
  | .literal l => l.text
  | .string s => stringText s
  | .array lead items => chr '[' :: (lead.text ++ items.render true ++ [chr ']'])
  | .object lead members => chr '{' :: (lead.text ++ members.render true ++ [chr '}'])

def Items.render (first : Bool) : Items → Bytes
  | .nil => []
  | .cons pre v post rest => comma first ++ pre.text ++ v.render ++ post.text ++ rest.render false

def Members.render (first : Bool) : Members → Bytes
  | .nil => []
  | .cons pre name mid gap v post rest =>
      comma first ++ pre.text ++ stringText name ++ mid.text ++ chr ':' :: gap.text ++ v.render ++
        post.text ++ rest.render false

end

def Text.render (t : Text) : Bytes := t.lead.text ++ t.v.render ++ t.trail.text

/-! ### What a text denotes -/

def hexDigitValue (c : UInt8) : Nat :=
  if isDigit c then c.toNat - 48 else if chr 'a' ≤ c then c.toNat - 87 else c.toNat - 55

def codeUnit (h₁ h₂ h₃ h₄ : UInt8) : Nat :=
  ((hexDigitValue h₁ * 16 + hexDigitValue h₂) * 16 + hexDigitValue h₃) * 16 + hexDigitValue h₄

def utf8 (n : Nat) : Bytes :=
  let continuation (k : Nat) : UInt8 := UInt8.ofNat (0x80 + n / 64 ^ k % 64)
  if n < 0x80 then [UInt8.ofNat n]
  else if n < 0x800 then [UInt8.ofNat (0xC0 + n / 64), continuation 0]
  else if n < 0x10000 then [UInt8.ofNat (0xE0 + n / 64 ^ 2), continuation 1, continuation 0]
  else [UInt8.ofNat (0xF0 + n / 64 ^ 3), continuation 2, continuation 1, continuation 0]

def shortEscape (c : UInt8) : UInt8 :=
  if c = chr 'b' then 8
  else if c = chr 'f' then 12
  else if c = chr 'n' then 10
  else if c = chr 'r' then 13
  else if c = chr 't' then 9
  else c

/-- The high surrogate still waits for its low one. A surrogate without a partner is encoded like
any other code unit. -/
def decodeFrom : Option Nat → List Piece → Bytes
  | high, [] => (high.map utf8).getD []
  | high, .plain c _ :: rest => (high.map utf8).getD [] ++ c :: decodeFrom none rest
  | high, .short c _ :: rest => (high.map utf8).getD [] ++ shortEscape c :: decodeFrom none rest
  | high, .unicode h₁ h₂ h₃ h₄ _ :: rest =>
      let unit := codeUnit h₁ h₂ h₃ h₄
      match high with
      | some h =>
          if 0xDC00 ≤ unit ∧ unit < 0xE000 then
            utf8 (0x10000 + (h - 0xD800) * 0x400 + (unit - 0xDC00)) ++ decodeFrom none rest
          else if 0xD800 ≤ unit ∧ unit < 0xDC00 then utf8 h ++ decodeFrom (some unit) rest
          else utf8 h ++ utf8 unit ++ decodeFrom none rest
      | none =>
          if 0xD800 ≤ unit ∧ unit < 0xDC00 then decodeFrom (some unit) rest
          else utf8 unit ++ decodeFrom none rest

def decode (s : List Piece) : Bytes := decodeFrom none s

inductive Data
  | literal (text : Bytes)
  | string (s : Bytes)
  | array (items : List Data)
  | object (members : List (Bytes × Data))

mutual

def Value.data : Value → Data
  | .literal l => .literal l.text
  | .string s => .string (decode s)
  | .array _ items => .array items.data
  | .object _ members => .object members.data

def Items.data : Items → List Data
  | .nil => []
  | .cons _ v _ rest => v.data :: rest.data

def Members.data : Members → List (Bytes × Data)
  | .nil => []
  | .cons _ name _ _ v _ rest => (decode name, v.data) :: rest.data

end

def Text.data (t : Text) : Data := t.v.data

mutual

/-- The data without the members of some names, at every depth. -/
def Data.remove (names : Bytes → Bool) : Data → Data
  | .literal text => .literal text
  | .string s => .string s
  | .array items => .array (removeItems names items)
  | .object members => .object (removeMembers names members)

def removeItems (names : Bytes → Bool) : List Data → List Data
  | [] => []
  | d :: rest => d.remove names :: removeItems names rest

def removeMembers (names : Bytes → Bool) : List (Bytes × Data) → List (Bytes × Data)
  | [] => []
  | (name, d) :: rest =>
      if names name then removeMembers names rest
      else (name, d.remove names) :: removeMembers names rest

end

end JsonText
