import ExamVan.Lib.Decimal
import Mathlib.Data.List.DropRight

/-!
# The origin of a resolved reference

How a browser finds the origin of a reference on a page with an `http` or `https` URL: the input is
cleaned, a scheme or two slashes lead to an authority, and everything else stays on the site. Without a
page there is a URL only behind a scheme, and what its host is depends on the scheme. The host parsers
are parameters.
-/

namespace WebUrl

open ByteString

variable {η : Type*}

/-- A port that is the default of its scheme is none. -/
structure Origin (η : Type*) where
  scheme : Bytes
  host : η
  port : Option Nat
  deriving DecidableEq

def isControlOrSpace (c : UInt8) : Bool := c ≤ 0x20

def isTabOrNewline (c : UInt8) : Bool := c = 9 || c = 10 || c = 13

/-- Behind its first byte. -/
def cleanRest (s : Bytes) : Bytes := (s.rdropWhile isControlOrSpace).filter fun c => !isTabOrNewline c

def clean (s : Bytes) : Bytes := cleanRest (s.dropWhile isControlOrSpace)

/-- A backslash counts as a slash. -/
def isSlash (c : UInt8) : Bool := c = chr '/' || c = chr '\\'

/-! ### Schemes -/

def defaultPort (scheme : Bytes) : Option Nat :=
  if scheme = str "http" ∨ scheme = str "ws" then some 80
  else if scheme = str "https" ∨ scheme = str "wss" then some 443
  else if scheme = str "ftp" then some 21
  else none

def isAlpha (c : UInt8) : Bool :=
  (chr 'A' ≤ c && c ≤ chr 'Z') || (chr 'a' ≤ c && c ≤ chr 'z')

def isSchemeByte (c : UInt8) : Bool :=
  isAlpha c || isDigit c || c = chr '+' || c = chr '-' || c = chr '.'

def schemeOf (s : Bytes) : Option (Bytes × Bytes) :=
  if s.head?.any isAlpha then
    match s.dropWhile isSchemeByte with
    | [] => none
    | c :: rest => if c = chr ':' then some ((s.takeWhile isSchemeByte).map tolower, rest) else none
  else none

/-! ### Authorities -/

/-- The host up to a colon outside of brackets, and the port behind it. -/
def splitPort (inside : Bool) : Bytes → Bytes × Option Bytes
  | [] => ([], none)
  | c :: t =>
      if c = chr ':' ∧ !inside then ([], some t)
      else
        let (host, port) := splitPort (if c = chr '[' then true else if c = chr ']' then false else inside) t
        (c :: host, port)

def parsePort (scheme : Bytes) : Option Bytes → Option (Option Nat)
  | none => some none
  | some digits =>
      if digits = [] then some none
      else if digits.all isDigit ∧ digitsValue digits ≤ 65535 then
        some (if defaultPort scheme = some (digitsValue digits) then none else some (digitsValue digits))
      else none

/-- The host and the port of an authority; user information ends at the last `@`. -/
def authority (parseHost : Bytes → Option η) (scheme s : Bytes) : Option (η × Option Nat) :=
  let text := s.takeWhile fun c => !(isSlash c || c = chr '?' || c = chr '#')
  let (host, port) := splitPort false (text.rtakeWhile (· ≠ chr '@'))
  if host = [] then none
  else (parseHost host).bind fun h => (parsePort scheme port).map fun p => (h, p)

/-! ### Resolving -/

/-- The origin behind the slashes of an authority. -/
def origin (parseHost : Bytes → Option η) (scheme s : Bytes) : Option (Origin η) :=
  (authority parseHost scheme (s.dropWhile isSlash)).map fun a => ⟨scheme, a.1, a.2⟩

/-- A reference without a scheme, or with that of the page. -/
def relative (parseHost : Bytes → Option η) (base : Origin η) : Bytes → Option (Origin η)
  | c :: d :: s =>
      if isSlash c && isSlash d then origin parseHost base.scheme (c :: d :: s) else some base
  | _ => some base

/-- The origin of a reference on a page; none if it is opaque or the reference is not valid. -/
def resolve (parseHost : Bytes → Option η) (base : Origin η) (s : Bytes) : Option (Origin η) :=
  match schemeOf (clean s) with
  | none => relative parseHost base (clean s)
  | some (scheme, rest) =>
      if defaultPort scheme = none then none
      else if scheme = base.scheme ∧ ¬ str "//" <+: rest then relative parseHost base rest
      else origin parseHost scheme rest

/-! ### URLs without a page -/

/-- The host of a URL with a scheme that is not special. It may be empty, but not with user information
or a port. -/
def opaqueAuthority (parseOpaque : Bytes → Option Bytes) (s : Bytes) : Option Bytes :=
  let text := s.takeWhile fun c => !(c = chr '/' || c = chr '?' || c = chr '#')
  let (host, port) := splitPort false (text.rtakeWhile (· ≠ chr '@'))
  if host = [] ∧ (chr '@' ∈ text ∨ port ≠ none) then none
  else (parseOpaque host).bind fun h => (parsePort [] port).map fun _ => h

def isDriveLetter (s : Bytes) : Bool :=
  match s with
  | [c, d] => isAlpha c && (d = chr ':' || d = chr '|')
  | _ => false

/-- The host of a `file` URL: it has neither user information nor a port, and the own one is empty. -/
def fileHost (parseHost : Bytes → Option Bytes) : Bytes → Option Bytes
  | c :: d :: s =>
      let text := s.takeWhile fun c => !(isSlash c || c = chr '?' || c = chr '#')
      if !(isSlash c && isSlash d) || isDriveLetter text || text = [] then some []
      else (parseHost text).map fun h => if h = str "localhost" then [] else h
  | _ => some []

/-- The host of a URL; none if the text is no URL, or one that has no host. -/
def hostOf (parseHost parseOpaque : Bytes → Option Bytes) (s : Bytes) : Option Bytes :=
  match schemeOf (clean s) with
  | none => none
  | some (scheme, rest) =>
      if scheme = str "file" then fileHost parseHost rest
      else if defaultPort scheme ≠ none then
        (authority parseHost scheme (rest.dropWhile isSlash)).map fun a => a.1
      else if str "//" <+: rest then opaqueAuthority parseOpaque (rest.drop 2)
      else none

variable {parseHost : Bytes → Option η} {base : Origin η} {s t u : Bytes} {c : UInt8}

theorem rdropWhile_append {p : UInt8 → Bool} (h : s.rdropWhile p ≠ []) (t : Bytes) :
    (t ++ s).rdropWhile p = t ++ s.rdropWhile p := by
  have hne : s.reverse.dropWhile p ≠ [] := fun hnil => h (by rw [List.rdropWhile, hnil]; rfl)
  rw [List.rdropWhile, List.reverse_append, List.dropWhile_append, if_neg (by simpa using hne),
    List.reverse_append, List.reverse_reverse]
  rfl

theorem rdropWhile_cons {p : UInt8 → Bool} {c : UInt8} (hc : p c = false) (s : Bytes) :
    (c :: s).rdropWhile p = c :: s.rdropWhile p := by
  by_cases hnil : s.rdropWhile p = []
  · have hall : ∀ d ∈ s, p d = true := List.rdropWhile_eq_nil_iff.mp hnil
    rw [hnil, show c :: s = [c] ++ s from rfl, rdropWhile_append_of_pos hall]
    exact List.rdropWhile_concat_neg p [] c (by simp [hc])
  · exact rdropWhile_append hnil [c]

theorem clean_slash (s : Bytes) : clean (chr '/' :: s) = chr '/' :: cleanRest s := by
  rw [clean, List.dropWhile_cons_of_neg (by decide), cleanRest, rdropWhile_cons (by decide),
    List.filter_cons_of_pos (by decide)]
  rfl

theorem cleanRest_append_slash (ht : ∀ c ∈ t, isTabOrNewline c = true) (s : Bytes) :
    cleanRest (t ++ chr '/' :: s) = chr '/' :: cleanRest s := by
  have hslash : (chr '/' :: s).rdropWhile isControlOrSpace = chr '/' :: s.rdropWhile isControlOrSpace :=
    rdropWhile_cons (by decide) s
  have hkeep : (t ++ chr '/' :: s).rdropWhile isControlOrSpace =
      t ++ chr '/' :: s.rdropWhile isControlOrSpace := by
    rw [rdropWhile_append (by rw [hslash]; exact List.cons_ne_nil _ _), hslash]
  have hgone : t.filter (fun c => !isTabOrNewline c) = [] := by
    rw [List.filter_eq_nil_iff]
    intro c hc
    simp [ht c hc]
  rw [cleanRest, hkeep, List.filter_append, hgone, List.nil_append, List.filter_cons_of_pos (by decide),
    cleanRest]

/-- The first byte that is no tab or newline comes first, or none does. -/
theorem head?_cleanRest (ht : ∀ c ∈ t, isTabOrNewline c = true) (hu : ∀ d ∈ u.head?, d = c) :
    ∀ d ∈ (cleanRest (t ++ u)).head?, d = c ∨ isTabOrNewline c = true := by
  intro d hd
  by_cases hc : isTabOrNewline c = true
  · exact .inr hc
  · left
    have hgone : t.filter (fun c => !isTabOrNewline c) = [] := by
      rw [List.filter_eq_nil_iff]
      intro c hc
      simp [ht c hc]
    have hprefix : cleanRest (t ++ u) <+: u.filter fun c => !isTabOrNewline c := by
      have hfilter : (t ++ u).filter (fun c => !isTabOrNewline c) = u.filter fun c => !isTabOrNewline c := by
        rw [List.filter_append, hgone, List.nil_append]
      rw [← hfilter]
      exact (List.rdropWhile_prefix _ _).filter _
    obtain ⟨w, hw⟩ := hprefix
    obtain ⟨x, hx⟩ := List.head?_eq_some_iff.mp hd
    cases u with
    | nil =>
        rw [hx] at hw
        cases hw
    | cons e u =>
        obtain rfl := hu e rfl
        rw [hx, List.filter_cons_of_pos (by simpa using hc), List.cons_append] at hw
        exact (List.cons.inj hw).1

theorem relative_cons_cons (c d : UInt8) (s : Bytes) : relative parseHost base (c :: d :: s) =
    if isSlash c && isSlash d then origin parseHost base.scheme (c :: d :: s) else some base := rfl

theorem schemeOf_slash (s : Bytes) : schemeOf (chr '/' :: s) = none := by
  rw [schemeOf, List.head?_cons, Option.any_some, if_neg (by decide)]

/-- A path keeps the origin of the page unless a second slash comes first. -/
theorem resolve_slash (hs : clean s = chr '/' :: t) (ht : ∀ c ∈ t.head?, isSlash c = false) :
    resolve parseHost base s = some base := by
  rw [resolve, hs, schemeOf_slash]
  cases t with
  | nil => rfl
  | cons c t =>
      have hc : ¬ (isSlash (chr '/') && isSlash c) = true := by simp [ht c rfl]
      exact (relative_cons_cons _ _ _).trans (if_neg hc)

theorem resolve_two_slashes (hs : clean s = chr '/' :: chr '/' :: t) :
    resolve parseHost base s = origin parseHost base.scheme (clean s) := by
  have hslashes : (isSlash (chr '/') && isSlash (chr '/')) = true := by decide
  rw [resolve, hs, schemeOf_slash]
  exact (relative_cons_cons _ _ _).trans (if_pos hslashes)

theorem origin_eq_iff {scheme : Bytes} (h : base.scheme = scheme) : origin parseHost scheme s = some base ↔
    authority parseHost scheme (s.dropWhile isSlash) = some (base.host, base.port) := by
  subst h
  rw [origin, Option.map_eq_some_iff]
  constructor
  · rintro ⟨⟨host, port⟩, hauth, heq⟩
    rw [hauth, ← heq]
  · intro hauth
    exact ⟨_, hauth, rfl⟩

end WebUrl
