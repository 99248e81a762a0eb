import ExamVan.Auth.Forms
import ExamVan.Lib.Conninfo

/-!
# Database URLs

`pg_conninfo_from_url` takes a `postgresql://` URL apart and writes its parts as a connection string,
without quotes.
-/

namespace ExamVan.Db

open ByteString Conninfo

/-! ### The URL -/

/-- `url_decode_simple`, and the loop that decodes a parameter. -/
def urlDecodeSimple (s : Bytes) : Bytes := Api.urlDecode s

/-- The texts in front of the first `://` and behind it. -/
def splitProto (u : Bytes) : Option (Bytes × Bytes) :=
  (findSub (str "://") u).map fun t => (u.take (u.length - t.length), t.drop 3)

def isScheme (scheme : Bytes) : Bool := scheme = str "postgresql" || scheme = str "postgres"

/-- `userinfo` and `hostpart`. -/
def splitUserinfo (rest : Bytes) : Bytes × Bytes :=
  if chr '@' ∈ rest then (rest.takeWhile (· ≠ chr '@'), (rest.dropWhile (· ≠ chr '@')).tail)
  else ([], rest)

/-- `user` and `pass`, not decoded. -/
def splitUser (userinfo : Bytes) : Bytes × Bytes :=
  (userinfo.takeWhile (· ≠ chr ':'), (userinfo.dropWhile (· ≠ chr ':')).tail)

def hostport (hostpart : Bytes) : Bytes := hostpart.takeWhile fun c => c ≠ chr '/' && c ≠ chr '?'

/-- `dbname`, not decoded. Behind a question mark the length wraps around, and all of the rest is taken. -/
def rawDbname (hostpart : Bytes) : Bytes :=
  let behind := (hostpart.dropWhile (· ≠ chr '/')).tail
  if chr '?' ∈ hostpart.takeWhile (· ≠ chr '/') then behind else behind.takeWhile (· ≠ chr '?')

def splitPort (hostport : Bytes) : Bytes × Bytes :=
  if chr ':' ∈ hostport ∧ chr ']' ∉ hostport then
    ((hostport.rdropWhile (· ≠ chr ':')).dropLast, hostport.rtakeWhile (· ≠ chr ':'))
  else (hostport, [])

/-- A parameter with its value as it is written; one without a name or an equals sign is skipped. -/
def rawParameter (pair : Bytes) : Option (Bytes × Bytes) :=
  let key := pair.takeWhile (· ≠ chr '=')
  if chr '=' ∈ pair ∧ key ≠ [] then some (key, (pair.dropWhile (· ≠ chr '=')).tail) else none

def rawParameters (u : Bytes) : List (Bytes × Bytes) :=
  ((u.dropWhile (· ≠ chr '?')).tail.splitOn (chr '&')).filterMap rawParameter

def pgConninfoFromUrl (u : Bytes) : Bytes :=
  match splitProto u with
  | none => []
  | some (scheme, rest) =>
      if !isScheme scheme then []
      else
        let (userinfo, hostpart) := splitUserinfo rest
        let user := urlDecodeSimple (splitUser userinfo).1
        let pass := urlDecodeSimple (splitUser userinfo).2
        let dbname := urlDecodeSimple (rawDbname hostpart)
        let (host, port) := splitPort (hostport hostpart)
        let host := if host = [] then str "db" else host
        let dbname := if dbname = [] then str "examvan" else dbname
        let ci := str "host=" ++ host
        let ci := if port ≠ [] then ci ++ str " port=" ++ port else ci
        let ci := if user ≠ [] then ci ++ str " user=" ++ user else ci
        let ci := if pass ≠ [] then ci ++ str " password=" ++ pass else ci
        let ci := ci ++ str " dbname=" ++ dbname
        let params := rawParameters u
        let ci := ci ++ params.flatMap fun p => str " " ++ p.1 ++ str "=" ++ urlDecodeSimple p.2
        if params.any fun p => p.1 = str "sslmode" then ci else ci ++ str " sslmode=prefer"

/-! ### A database and its URL -/

structure Database where
  user : Bytes
  password : Bytes
  host : Bytes
  port : Nat
  dbname : Bytes
  params : List Setting
  /-- A name or an IPv4 address. -/
  isHost : host ≠ [] ∧ ∀ c ∈ host, Auth.isUnreserved c = true

namespace Database

variable (d : Database)

/-- The part of the URL from the host on. -/
def hostText : Bytes :=
  d.host ++ chr ':' :: (natText d.port ++ chr '/' :: (Auth.urlEncode d.dbname ++
    if d.params = [] then [] else chr '?' :: Auth.formText d.params))

def url : Bytes :=
  str "postgresql://" ++ (Auth.urlEncode d.user ++ chr ':' :: (Auth.urlEncode d.password ++ chr '@' :: d.hostText))

/-- No user and no password is written for an empty one. -/
def optional (name value : Bytes) : List Setting := if value = [] then [] else [(name, value)]

def sslmode : List Setting :=
  if d.params.any fun p => p.1 = str "sslmode" then [] else [(str "sslmode", str "prefer")]

/-- What the connection string has to say. -/
def settings : List Setting :=
  (str "host", d.host) :: (str "port", natText d.port) :: (optional (str "user") d.user ++
    (optional (str "password") d.password ++ (str "dbname", d.dbname) :: (d.params ++ d.sslmode)))

/-- What it says: a name is not decoded, and a setting without a name is left out. -/
def written : List Setting :=
  (str "host", d.host) :: (str "port", natText d.port) :: (optional (str "user") d.user ++
    (optional (str "password") d.password ++
      (str "dbname", if d.dbname = [] then str "examvan" else d.dbname) ::
        ((d.params.filter (·.1 ≠ [])).map (fun p => (Auth.urlEncode p.1, p.2)) ++ d.sslmode)))

end Database

/-! ### Taking the URL apart -/

variable {c : UInt8} {s t : Bytes}

theorem splitProto_append {scheme : Bytes} (h : chr ':' ∉ scheme) (rest : Bytes) :
    splitProto (scheme ++ (str "://" ++ rest)) = some (scheme, rest) := by
  have hfound : findSub (str "://") (scheme ++ (str "://" ++ rest)) = some (str "://" ++ rest) := by
    rw [show str "://" = chr ':' :: str "//" from rfl, findSub_append_of_notMem h]
    exact findSub_of_head (List.prefix_append _ _)
  rw [splitProto, hfound, Option.map_some, List.length_append, Nat.add_sub_cancel, List.take_left]
  rfl

theorem splitUserinfo_append (h : chr '@' ∉ s) (t : Bytes) :
    splitUserinfo (s ++ chr '@' :: t) = (s, t) := by
  obtain ⟨htake, hdrop⟩ := takeWhile_ne_append h t
  rw [splitUserinfo, if_pos (by simp), htake, hdrop, List.tail_cons]

theorem splitUser_append (h : chr ':' ∉ s) (t : Bytes) : splitUser (s ++ chr ':' :: t) = (s, t) := by
  obtain ⟨htake, hdrop⟩ := takeWhile_ne_append h t
  rw [splitUser, htake, hdrop, List.tail_cons]

/-- What no host, no number and no encoded text contains. -/
def isDelimiter (c : UInt8) : Bool := (str ":/?#[]@&=").contains c

theorem delimiter_notMem_urlEncode (hc : isDelimiter c = true) (s : Bytes) : c ∉ Auth.urlEncode s := by
  have hbyte : ∀ c : UInt8, isDelimiter c = true → Auth.isUnreserved c = false ∧ c ≠ chr '%' :=
    forall_byte (by decide)
  exact Auth.notMem_urlEncode (hbyte c hc).1 (hbyte c hc).2 s

theorem delimiter_notMem_natText (hc : isDelimiter c = true) (n : Nat) : c ∉ natText n := by
  intro hmem
  have hbyte : ∀ c : UInt8, isDigit c = true → isDelimiter c = false := forall_byte (by decide)
  rw [hbyte c (isDigit_of_mem_natText hmem)] at hc
  cases hc

namespace Database

variable (d : Database)

theorem delimiter_notMem_host (hc : isDelimiter c = true) : c ∉ d.host := by
  intro hmem
  have hbyte : ∀ c : UInt8, Auth.isUnreserved c = true → isDelimiter c = false :=
    forall_byte (by decide)
  rw [hbyte c (d.isHost.2 c hmem)] at hc
  cases hc

/-- The query of the URL, or nothing. -/
def queryText : Bytes := if d.params = [] then [] else chr '?' :: Auth.formText d.params

theorem hostText_eq : d.hostText =
    (d.host ++ chr ':' :: natText d.port) ++ chr '/' :: (Auth.urlEncode d.dbname ++ d.queryText) := by
  rw [hostText, queryText, List.append_assoc]
  rfl

theorem delimiter_notMem_authority (hc : isDelimiter c = true) (hcolon : c ≠ chr ':') :
    c ∉ d.host ++ chr ':' :: natText d.port := by
  rw [List.mem_append, List.mem_cons, not_or, not_or]
  exact ⟨d.delimiter_notMem_host hc, hcolon, delimiter_notMem_natText hc d.port⟩

theorem hostport_hostText : hostport d.hostText = d.host ++ chr ':' :: natText d.port := by
  have hkept : ∀ c ∈ d.host ++ chr ':' :: natText d.port, (decide (c ≠ chr '/') && decide (c ≠ chr '?')) = true := by
    intro c hc
    rw [Bool.and_eq_true, decide_eq_true_eq, decide_eq_true_eq]
    exact ⟨fun h => d.delimiter_notMem_authority (by decide) (by decide) (h ▸ hc),
      fun h => d.delimiter_notMem_authority (by decide) (by decide) (h ▸ hc)⟩
  rw [hostport, hostText_eq, List.takeWhile_append_of_pos hkept, List.takeWhile_cons_of_neg (by decide),
    List.append_nil]

theorem splitPort_authority : splitPort (d.host ++ chr ':' :: natText d.port) = (d.host, natText d.port) := by
  have hport : ∀ c ∈ (natText d.port).reverse, decide (c ≠ chr ':') = true := fun c hc =>
    decide_eq_true fun heq => delimiter_notMem_natText (by decide) d.port (heq ▸ List.mem_reverse.mp hc)
  have hbracket := d.delimiter_notMem_authority (c := chr ']') (by decide) (by decide)
  have htext : d.host ++ chr ':' :: natText d.port = (d.host ++ [chr ':']) ++ natText d.port := by
    rw [List.append_assoc]
    rfl
  rw [splitPort, if_pos ⟨by simp, hbracket⟩, htext, List.rdropWhile, List.rtakeWhile, List.reverse_append,
    List.dropWhile_append_of_pos hport, List.takeWhile_append_of_pos hport]
  simp

theorem rawDbname_hostText : rawDbname d.hostText = Auth.urlEncode d.dbname := by
  obtain ⟨htake, hdrop⟩ := takeWhile_ne_append
    (d.delimiter_notMem_authority (c := chr '/') (by decide) (by decide))
    (Auth.urlEncode d.dbname ++ d.queryText)
  have hquestion := d.delimiter_notMem_authority (c := chr '?') (by decide) (by decide)
  have hkept : ∀ c ∈ Auth.urlEncode d.dbname, decide (c ≠ chr '?') = true := fun c hc =>
    decide_eq_true fun heq => delimiter_notMem_urlEncode (by decide) d.dbname (heq ▸ hc)
  rw [rawDbname, hostText_eq, htake, hdrop, if_neg hquestion, List.tail_cons,
    List.takeWhile_append_of_pos hkept, queryText]
  split
  · exact List.append_nil _
  · rw [List.takeWhile_cons_of_neg (by decide), List.append_nil]

theorem rawParameter_encodePair (p : Bytes × Bytes) : rawParameter (Auth.encodePair p) =
    if p.1 = [] then none else some (Auth.urlEncode p.1, Auth.urlEncode p.2) := by
  obtain ⟨htake, hdrop⟩ := takeWhile_ne_append
    (delimiter_notMem_urlEncode (c := chr '=') (by decide) p.1) (Auth.urlEncode p.2)
  have hnil : Auth.urlEncode p.1 = [] ↔ p.1 = [] := by
    constructor
    · intro h
      have hdecode := Auth.urlDecode_urlEncode p.1
      rw [h] at hdecode
      exact hdecode.symm
    · intro h
      rw [h]
      rfl
  rw [rawParameter, Auth.encodePair, htake, hdrop]
  by_cases hp : p.1 = []
  · rw [if_pos hp, if_neg fun h => h.2 (hnil.mpr hp)]
  · rw [if_neg hp, if_pos ⟨by simp, mt hnil.mp hp⟩, List.tail_cons]

/-- The URL up to its query. -/
def frontText : Bytes :=
  str "postgresql://" ++ (Auth.urlEncode d.user ++ chr ':' :: (Auth.urlEncode d.password ++ chr '@' ::
    ((d.host ++ chr ':' :: natText d.port) ++ chr '/' :: Auth.urlEncode d.dbname)))

theorem url_eq : d.url = d.frontText ++ d.queryText := by
  rw [url, hostText_eq, frontText]
  simp only [List.append_assoc, List.cons_append]

theorem question_notMem_frontText : chr '?' ∉ d.frontText := by
  have hauthority := d.delimiter_notMem_authority (c := chr '?') (by decide) (by decide)
  have hencoded := delimiter_notMem_urlEncode (c := chr '?') (by decide)
  simp only [frontText, List.mem_append, List.mem_cons, not_or] at hauthority ⊢
  exact ⟨by decide, hencoded _, by decide, hencoded _, by decide, hauthority, by decide, hencoded _⟩

/-- The parameters of the URL as they are written. -/
theorem rawParameters_url : rawParameters d.url = (d.params.filter (·.1 ≠ [])).map fun p =>
    (Auth.urlEncode p.1, Auth.urlEncode p.2) := by
  have hread : ∀ params : List (Bytes × Bytes), (params.map Auth.encodePair).filterMap rawParameter =
      (params.filter (·.1 ≠ [])).map fun p => (Auth.urlEncode p.1, Auth.urlEncode p.2) := by
    intro params
    induction params with
    | nil => rfl
    | cons p params ih =>
        rw [List.map_cons, List.filterMap_cons, rawParameter_encodePair, ih]
        by_cases hp : p.1 = []
        · rw [if_pos hp, List.filter_cons_of_neg (by simpa using hp)]
        · rw [if_neg hp, List.filter_cons_of_pos (by simpa using hp), List.map_cons]
  rw [rawParameters, url_eq, queryText]
  split
  · next hnone =>
    have hall : ∀ c ∈ d.frontText, decide (c ≠ chr '?') = true := fun c hc =>
      decide_eq_true fun heq => d.question_notMem_frontText (heq ▸ hc)
    rw [List.append_nil, List.dropWhile_eq_nil_iff.mpr hall, hnone]
    rfl
  · next hsome =>
    have hseparator : ∀ l ∈ d.params.map Auth.encodePair, chr '&' ∉ l := by
      intro l hl
      obtain ⟨p, -, rfl⟩ := List.mem_map.mp hl
      exact Auth.separator_notMem_encodePair p
    rw [(takeWhile_ne_append d.question_notMem_frontText _).2, List.tail_cons, Auth.formText,
      List.splitOn_intercalate _ hseparator (by simpa using hsome), hread]

/-! ### The connection string -/

theorem length_le_urlEncode (s : Bytes) : s.length ≤ (Auth.urlEncode s).length := by
  induction s with
  | nil => exact le_rfl
  | cons c s ih =>
      rw [Auth.urlEncode_cons, List.length_append, List.length_cons]
      split <;> simp only [List.length_cons, List.length_nil] <;> omega

theorem urlEncode_eq_self_iff {s : Bytes} :
    Auth.urlEncode s = s ↔ ∀ c ∈ s, Auth.isUnreserved c = true := by
  induction s with
  | nil => exact iff_of_true rfl (by simp)
  | cons c s ih =>
      rw [List.forall_mem_cons, Auth.urlEncode_cons]
      by_cases hc : Auth.isUnreserved c = true
      · rw [if_pos hc, List.singleton_append, List.cons.injEq, ih, and_iff_right rfl, and_iff_right hc]
      · refine iff_of_false (fun h => ?_) fun h => hc h.1
        have hlength := congrArg List.length h
        have hle := length_le_urlEncode s
        rw [if_neg hc] at hlength
        simp only [List.length_append, List.length_cons, List.length_nil] at hlength
        omega

theorem urlEncode_eq_iff {s t : Bytes} (ht : ∀ c ∈ t, Auth.isUnreserved c = true) :
    Auth.urlEncode s = t ↔ s = t := by
  constructor
  · intro h
    have hdecode := congrArg Api.urlDecode (h.trans (urlEncode_eq_self_iff.mpr ht).symm)
    rwa [Auth.urlDecode_urlEncode, Auth.urlDecode_urlEncode] at hdecode
  · rintro rfl
    exact urlEncode_eq_self_iff.mpr ht

theorem render_eq_flatMap (setting : Setting) (settings : List Setting) :
    render (setting :: settings) =
      settingText setting ++ settings.flatMap fun s => chr ' ' :: settingText s := by
  induction settings generalizing setting with
  | nil => simp [render]
  | cons next settings ih =>
      have hmore : render (setting :: next :: settings) = settingText setting ++ chr ' ' :: render (next :: settings) := by
        rw [render, List.map_cons, List.intercalate_cons_of_ne_nil (by simp), List.append_assoc]
        rfl
      rw [hmore, ih, List.flatMap_cons]
      rfl

theorem flatMap_optional (name value : Bytes) :
    (optional name value).flatMap (fun s => chr ' ' :: settingText s) =
      if value = [] then [] else chr ' ' :: (name ++ chr '=' :: value) := by
  rw [optional]
  split
  · rfl
  · simp [settingText]

theorem any_sslmode_rawParameters : (rawParameters d.url).any (fun p => p.1 = str "sslmode") =
    d.params.any fun p => p.1 = str "sslmode" := by
  rw [rawParameters_url, List.any_map, List.any_filter]
  congr 1
  funext p
  have hname : Auth.urlEncode p.1 = str "sslmode" ↔ p.1 = str "sslmode" := urlEncode_eq_iff (by decide)
  rw [Bool.eq_iff_iff, Bool.and_eq_true, Function.comp_apply, decide_eq_true_eq, decide_eq_true_eq,
    decide_eq_true_eq, hname]
  refine and_iff_right_of_imp fun h => ?_
  rw [h]
  decide

/-- The settings are written one behind the other. -/
theorem pgConninfoFromUrl_url : pgConninfoFromUrl d.url = render d.written := by
  have hproto : splitProto d.url = some (str "postgresql",
      (Auth.urlEncode d.user ++ chr ':' :: Auth.urlEncode d.password) ++ chr '@' :: d.hostText) := by
    have htext : d.url = str "postgresql" ++ (str "://" ++
        ((Auth.urlEncode d.user ++ chr ':' :: Auth.urlEncode d.password) ++ chr '@' :: d.hostText)) := by
      rw [url, List.append_assoc (Auth.urlEncode d.user)]
      rfl
    rw [htext]
    exact splitProto_append (by decide) _
  have huserinfo : chr '@' ∉ Auth.urlEncode d.user ++ chr ':' :: Auth.urlEncode d.password := by
    rw [List.mem_append, List.mem_cons, not_or, not_or]
    exact ⟨delimiter_notMem_urlEncode (by decide) _, by decide, delimiter_notMem_urlEncode (by decide) _⟩
  have hparams : (rawParameters d.url).flatMap (fun p => str " " ++ p.1 ++ str "=" ++ urlDecodeSimple p.2) =
      ((d.params.filter (·.1 ≠ [])).map fun p => (Auth.urlEncode p.1, p.2)).flatMap fun s =>
        chr ' ' :: settingText s := by
    rw [rawParameters_url, List.flatMap_map, List.flatMap_map]
    refine List.flatMap_congr fun p _ => ?_
    rw [urlDecodeSimple, Auth.urlDecode_urlEncode, settingText]
    simp [str]
  have hdecode : ∀ s, urlDecodeSimple (Auth.urlEncode s) = s := Auth.urlDecode_urlEncode
  rw [pgConninfoFromUrl, hproto]
  simp only [show isScheme (str "postgresql") = true from rfl, splitUserinfo_append huserinfo,
    splitUser_append (delimiter_notMem_urlEncode (c := chr ':') (by decide) d.user), hostport_hostText,
    splitPort_authority, rawDbname_hostText, hdecode, hparams, any_sslmode_rawParameters]
  have happend : ∀ ci text value : Bytes, (if value ≠ [] then ci ++ text ++ value else ci) =
      ci ++ if value = [] then [] else text ++ value := by
    intro ci text value
    by_cases hvalue : value = [] <;> simp [hvalue]
  have hprefer : ∀ (ci : Bytes) (given : Bool), (if given then ci else ci ++ str " sslmode=prefer") =
      ci ++ (if given then [] else [(str "sslmode", str "prefer")]).flatMap fun s =>
        chr ' ' :: settingText s := by
    intro ci given
    cases given with
    | true => exact (List.append_nil ci).symm
    | false => rfl
  rw [written, render_eq_flatMap, List.flatMap_cons, List.flatMap_append, List.flatMap_append,
    List.flatMap_cons, List.flatMap_append, flatMap_optional, flatMap_optional, sslmode]
  simp only [Bool.not_true, Bool.false_eq_true, if_false, happend, hprefer, if_neg d.isHost.1,
    if_neg (natText_ne_nil d.port)]
  simp only [List.append_assoc, settingText, List.cons_append]
  rfl

/-! ### What is read -/

/-- A name that is written as it is. -/
def IsParameterName (name : Bytes) : Prop := name ≠ [] ∧ ∀ c ∈ name, Auth.isUnreserved c = true

/-- No value needs quotes, no name is changed, and nothing empty stands in front of a blank. -/
structure Unquoted : Prop where
  user : Plain d.user
  password : Plain d.password
  dbname : Plain d.dbname ∧ d.dbname ≠ []
  params : ∀ p ∈ d.params, IsParameterName p.1 ∧ Plain p.2
  nonempty : ∀ p ∈ (d.params ++ d.sslmode).dropLast, p.2 ≠ []

theorem isName_urlEncode {name : Bytes} (hne : name ≠ []) : IsName (Auth.urlEncode name) := by
  have hbyte : ∀ c : UInt8, isSpecial c = true ∨ c = chr '=' → Auth.isUnreserved c = false ∧ c ≠ chr '%' :=
    forall_byte (by decide)
  refine ⟨fun hnil => hne ?_, fun c hc => ?_⟩
  · have hle := length_le_urlEncode name
    rw [hnil] at hle
    exact List.length_eq_zero_iff.mp (Nat.le_zero.mp hle)
  · by_contra hno
    have hbad : isSpecial c = true ∨ c = chr '=' := by
      cases hspecial : isSpecial c with
      | true => exact .inl rfl
      | false => exact .inr (by simpa [hspecial] using hno)
    exact Auth.notMem_urlEncode (hbyte c hbad).1 (hbyte c hbad).2 name hc

theorem plain_of_unreserved {value : Bytes} (h : ∀ c ∈ value, Auth.isUnreserved c = true) : Plain value := by
  have hbyte : ∀ c : UInt8, Auth.isUnreserved c = true → isSpace c = false ∧ c ≠ chr '\\' ∧ c ≠ chr '\'' :=
    forall_byte (by decide)
  refine ⟨fun c hc => ⟨(hbyte c (h c hc)).1, (hbyte c (h c hc)).2.1⟩, fun hhead => ?_⟩
  exact (hbyte _ (h _ (List.mem_of_mem_head? hhead))).2.2 rfl

variable {more expected : List Setting}

theorem isName_optional {name : Bytes} (hname : IsName name) (value : Bytes) (hmore : ∀ s ∈ more, IsName s.1) :
    ∀ s ∈ optional name value ++ more, IsName s.1 := by
  intro s hs
  rcases List.mem_append.mp hs with hs | hs
  · rw [optional] at hs
    split at hs
    · cases hs
    · rw [List.mem_singleton.mp hs]
      exact hname
  · exact hmore s hs

/-- A setting that is left out when it is empty. -/
theorem parse_optional_iff {name : Bytes} (hname : IsName name) (value : Bytes)
    (hmore : ∀ s ∈ more, IsName s.1) :
    parse (render (optional name value ++ more)) = some (optional name value ++ expected) ↔
      Plain value ∧ parse (render more) = some expected := by
  rw [optional]
  split
  · next hnil =>
    rw [List.nil_append, List.nil_append, hnil, and_iff_right plain_nil]
  · next hne =>
    rw [List.singleton_append, List.singleton_append, parse_cons_iff hname hmore, and_iff_right rfl,
      and_iff_left fun hnil => absurd hnil hne]

theorem isName_params (params : List Setting) (hmore : ∀ s ∈ more, IsName s.1) :
    ∀ s ∈ (params.filter (·.1 ≠ [])).map (fun p => (Auth.urlEncode p.1, p.2)) ++ more, IsName s.1 := by
  intro s hs
  rcases List.mem_append.mp hs with hs | hs
  · obtain ⟨p, hp, rfl⟩ := List.mem_map.mp hs
    exact isName_urlEncode (by simpa using (List.mem_filter.mp hp).2)
  · exact hmore s hs

theorem parse_params_iff (hmore : ∀ s ∈ more, IsName s.1) (hread : parse (render more) = some more)
    (hlast : more.dropLast = []) (params : List Setting) :
    parse (render ((params.filter (·.1 ≠ [])).map (fun p => (Auth.urlEncode p.1, p.2)) ++ more)) =
        some (params ++ more) ↔
      (∀ p ∈ params, IsParameterName p.1 ∧ Plain p.2) ∧ ∀ p ∈ (params ++ more).dropLast, p.2 ≠ [] := by
  induction params with
  | nil =>
      rw [List.nil_append, hlast]
      exact iff_of_true hread ⟨by simp, by simp⟩
  | cons p params ih =>
      obtain ⟨key, value⟩ := p
      rw [List.forall_mem_cons]
      by_cases hkey : key = []
      · refine iff_of_false (fun hparse => ?_) fun h => h.1.1.1.1 hkey
        rw [List.filter_cons_of_neg (by simpa using hkey)] at hparse
        exact ne_nil_of_parse (isName_params params hmore) hparse hkey
      · have hself : key = Auth.urlEncode key ↔ IsParameterName key := by
          rw [eq_comm, urlEncode_eq_self_iff]
          exact (and_iff_right hkey).symm
        rw [List.filter_cons_of_pos (by simpa using hkey), List.map_cons, List.cons_append, List.cons_append,
          parse_cons_iff (isName_urlEncode hkey) (isName_params params hmore), ih, hself]
        have hnil : (∀ p ∈ params, IsParameterName p.1 ∧ Plain p.2) →
            ((params.filter (·.1 ≠ [])).map (fun p => (Auth.urlEncode p.1, p.2)) ++ more = [] ↔
              params ++ more = []) := by
          intro hall
          have hkept : params.filter (·.1 ≠ []) = params :=
            List.filter_eq_self.mpr fun p hp => decide_eq_true (hall p hp).1.1
          rw [hkept, List.append_eq_nil_iff, List.append_eq_nil_iff, List.map_eq_nil_iff]
        by_cases hend : params ++ more = []
        · rw [hend, List.dropLast_singleton, List.dropLast_nil]
          constructor
          · rintro ⟨hname, ⟨hplain, -⟩, hall, -⟩
            exact ⟨⟨⟨hname, hplain⟩, hall⟩, by simp⟩
          · rintro ⟨⟨⟨hname, hplain⟩, hall⟩, -⟩
            exact ⟨hname, ⟨hplain, fun _ => (hnil hall).mpr hend⟩, hall, by simp⟩
        · rw [List.dropLast_cons_of_ne_nil hend, List.forall_mem_cons]
          constructor
          · rintro ⟨hname, ⟨hplain, hempty⟩, hall, hrest⟩
            exact ⟨⟨⟨hname, hplain⟩, hall⟩, fun h => hend ((hnil hall).mp (hempty h)), hrest⟩
          · rintro ⟨⟨⟨hname, hplain⟩, hall⟩, hvalue, hrest⟩
            exact ⟨hname, ⟨hplain, fun h => absurd h hvalue⟩, hall, hrest⟩

theorem sslmode_eq : d.sslmode = [] ∨ d.sslmode = [(str "sslmode", str "prefer")] := by
  rw [sslmode]
  split
  · exact .inl rfl
  · exact .inr rfl

/-- The connection string says what the URL says exactly if nothing in it needs quotes, and nothing
is empty but the user, the password and the last value. -/
theorem parse_pgConninfoFromUrl_iff (d : Database) :
    parse (pgConninfoFromUrl d.url) = some d.settings ↔ d.Unquoted := by
  have hssl : (∀ s ∈ d.sslmode, IsName s.1) ∧ parse (render d.sslmode) = some d.sslmode ∧
      d.sslmode.dropLast = [] := by
    rcases d.sslmode_eq with h | h <;> rw [h]
    · exact ⟨by simp, rfl, rfl⟩
    · exact ⟨by simp only [List.forall_mem_singleton]; exact ⟨by decide, by decide⟩, by decide +kernel, rfl⟩
  obtain ⟨hsslNames, hsslRead, hsslLast⟩ := hssl
  have hparams := isName_params d.params hsslNames
  have hname : ∀ name ∈ [str "host", str "port", str "user", str "password", str "dbname"], IsName name := by
    have hall : ∀ name ∈ [str "host", str "port", str "user", str "password", str "dbname"],
        name ≠ [] ∧ ∀ c ∈ name, isSpecial c = false ∧ c ≠ chr '=' := by decide +kernel
    exact hall
  simp only [List.forall_mem_cons] at hname
  obtain ⟨hhostName, hportName, huserName, hpasswordName, hdbnameName, -⟩ := hname
  have hdigit : ∀ c : UInt8, isDigit c = true → Auth.isUnreserved c = true := forall_byte (by decide)
  have hhost : Plain d.host := plain_of_unreserved d.isHost.2
  have hport : Plain (natText d.port) :=
    plain_of_unreserved fun c hc => hdigit c (isDigit_of_mem_natText hc)
  -- the part from the name of the database on
  have hdb : ∀ value, ∀ s ∈ (str "dbname", value) :: ((d.params.filter (·.1 ≠ [])).map
      (fun p => (Auth.urlEncode p.1, p.2)) ++ d.sslmode), IsName s.1 := fun value =>
    List.forall_mem_cons.mpr ⟨hdbnameName, hparams⟩
  have hrest := parse_params_iff hsslNames hsslRead hsslLast d.params
  have hdbname : parse (render ((str "dbname", if d.dbname = [] then str "examvan" else d.dbname) ::
      ((d.params.filter (·.1 ≠ [])).map (fun p => (Auth.urlEncode p.1, p.2)) ++ d.sslmode))) =
        some ((str "dbname", d.dbname) :: (d.params ++ d.sslmode)) ↔
      (Plain d.dbname ∧ d.dbname ≠ []) ∧ (∀ p ∈ d.params, IsParameterName p.1 ∧ Plain p.2) ∧
        ∀ p ∈ (d.params ++ d.sslmode).dropLast, p.2 ≠ [] := by
    by_cases hnil : d.dbname = []
    · -- a name of its own is written for an empty one
      refine iff_of_false (fun hparse => ?_) fun h => h.1.2 hnil
      have hdefault : Plain (str "examvan") := plain_of_unreserved (by decide)
      rw [if_pos hnil, hnil, parse_cons_of_plain hdbnameName hparams hdefault (fun h => absurd h (by decide)),
        Option.map_eq_some_iff] at hparse
      obtain ⟨read, -, hcons⟩ := hparse
      have hvalue := (Prod.mk.inj (List.cons.inj hcons).1).2
      revert hvalue
      decide
    · rw [if_neg hnil, parse_cons_iff hdbnameName hparams, and_iff_right rfl,
        and_iff_left fun h => absurd h hnil, hrest, and_iff_left hnil]
  have hpassword := isName_optional hpasswordName d.password (hdb (if d.dbname = [] then str "examvan" else d.dbname))
  have huser := isName_optional huserName d.user hpassword
  rw [pgConninfoFromUrl_url, written, settings,
    parse_cons_iff hhostName (List.forall_mem_cons.mpr ⟨hportName, huser⟩), and_iff_right rfl,
    and_iff_right ⟨hhost, fun h => absurd h d.isHost.1⟩, parse_cons_iff hportName huser, and_iff_right rfl,
    and_iff_right ⟨hport, fun h => absurd h (natText_ne_nil d.port)⟩, parse_optional_iff huserName _ hpassword,
    parse_optional_iff hpasswordName _ (hdb _), hdbname]
  constructor
  · rintro ⟨huser, hpassword, hdbname, hparams, hnonempty⟩
    exact ⟨huser, hpassword, hdbname, hparams, hnonempty⟩
  · intro h
    exact ⟨h.user, h.password, h.dbname, h.params, h.nonempty⟩

/-- A password with a blank. -/
def spacedPassword : Database :=
  { user := str "guru", password := str "a b", host := str "db", port := 5432, dbname := str "examvan"
    params := [], isHost := by decide }

theorem not_parse_spacedPassword :
    spacedPassword.url = str "postgresql://guru:a%20b@db:5432/examvan" ∧
      pgConninfoFromUrl spacedPassword.url =
        str "host=db port=5432 user=guru password=a b dbname=examvan sslmode=prefer" ∧
      parse (pgConninfoFromUrl spacedPassword.url) ≠ some spacedPassword.settings := by
  decide +kernel

end Database

end ExamVan.Db
