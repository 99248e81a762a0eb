import ExamVan.Lib.WebUrl
import Mathlib.Data.List.TakeWhile

/-!
# Where a socket is opened from

`check_origin` cuts the host out of an `Origin` header and compares it with that of the `Host` header. A
browser reads the same text as a URL. What the two have in common is decided by the origin alone.
-/

namespace ExamVan.Websocket

open ByteString WebUrl

/-! ### The check -/

def stripPort (s : Bytes) : Bytes :=
  if s = [] then s
  else if s.head? = some (chr '[') then
    if chr ']' ∈ s then s.takeWhile (· ≠ chr ']') ++ [chr ']'] else s
  else if chr ':' ∈ s then
    if chr '[' ∈ s then s
    else
      let after := s.rtakeWhile (· ≠ chr ':')
      if after ≠ [] ∧ after.all isDigit then (s.rdropWhile (· ≠ chr ':')).dropLast else s
  else s

/-- `h`: what stands between the first `://`, if there is one, and the next slash. -/
def originText (origin : Bytes) : Bytes :=
  let h := match findSub (str "://") origin with
    | none => origin
    | some found => found.drop 3
  h.takeWhile (· ≠ chr '/')

def isOwnName (name : Bytes) : Bool := name = str "localhost" || name = str "127.0.0.1"

def checkOrigin (origin host : Bytes) : Bool :=
  if origin = [] then false
  else if origin = str "null" then false
  else
    let h := originText origin
    if isOwnName (h.takeWhile (· ≠ chr ':')) then true
    else
      let hostNoPort := host.takeWhile (· ≠ chr '/')
      stripPort h = stripPort hostNoPort || h = host

/-! ### What it is for -/

/-- The name in front of the port: up to the bracket, or else up to the colon. -/
def bareName (s : Bytes) : Bytes :=
  if s.head? = some (chr '[') ∧ chr ']' ∈ s then s.takeWhile (· ≠ chr ']') ++ [chr ']']
  else s.takeWhile (· ≠ chr ':')

/-- The host name of a `Host` header. -/
def hostName (host : Bytes) : Bytes := bareName (host.takeWhile (· ≠ chr '/'))

variable {parseHost parseOpaque : Bytes → Option Bytes} {origin host name s : Bytes}

/-- The host of the origin is an own one or that of the header. -/
def Admits (parseHost parseOpaque : Bytes → Option Bytes) (origin host : Bytes) : Prop :=
  ∃ name, hostOf parseHost parseOpaque origin = some name ∧
    (isOwnName name = true ∨ (hostName host ≠ [] ∧ name = hostName host))

/-- A browser reads an own host in the origin, or the one that the code cuts out of it. -/
def ReadsAlike (parseHost parseOpaque : Bytes → Option Bytes) (origin : Bytes) : Prop :=
  ∃ name, hostOf parseHost parseOpaque origin = some name ∧
    (isOwnName name = true ∨ (bareName (originText origin) ≠ [] ∧ name = bareName (originText origin)))

/-! ### Ports -/

theorem bareName_of_bracket (hhead : s.head? = some (chr '[')) (hmem : chr ']' ∈ s) :
    bareName s = s.takeWhile (· ≠ chr ']') ++ [chr ']'] := if_pos ⟨hhead, hmem⟩

theorem bareName_of_head?_ne (h : s.head? ≠ some (chr '[')) : bareName s = s.takeWhile (· ≠ chr ':') :=
  if_neg fun hand => h hand.1

/-- Only what stands behind the first colon is cut away. -/
theorem takeWhile_append_colon (u t : Bytes) :
    (u ++ chr ':' :: t).takeWhile (· ≠ chr ':') = u.takeWhile (· ≠ chr ':') := by
  have hstop : (chr ':' :: t).takeWhile (· ≠ chr ':') = [] := List.takeWhile_cons_of_neg (by simp)
  rw [List.takeWhile_append, hstop, List.append_nil]
  split
  · next hall => exact ((List.takeWhile_prefix _).eq_of_length hall).symm
  · rfl

theorem stripPort_cases (s : Bytes) : stripPort s = s ∨
    (s.head? = some (chr '[') ∧ chr ']' ∈ s ∧ stripPort s = s.takeWhile (· ≠ chr ']') ++ [chr ']']) ∨
    (chr '[' ∉ s ∧ ∃ port, s = stripPort s ++ chr ':' :: port) := by
  unfold stripPort
  dsimp only
  split_ifs with hnil hhead hclosing hcolon hopening hport
  · exact .inl rfl
  · exact .inr (.inl ⟨hhead, hclosing, rfl⟩)
  · exact .inl rfl
  · exact .inl rfl
  · refine .inr (.inr ⟨hopening, s.rtakeWhile (· ≠ chr ':'), ?_⟩)
    have hne : s.rdropWhile (· ≠ chr ':') ≠ [] := fun hall =>
      absurd (List.rdropWhile_eq_nil_iff.mp hall _ hcolon) (by simp)
    have hlast := List.rdropWhile_last_not (· ≠ chr ':') s hne
    simp only [decide_eq_true_eq, not_not] at hlast
    have hbefore : (s.rdropWhile (· ≠ chr ':')).dropLast ++ [chr ':'] = s.rdropWhile (· ≠ chr ':') := by
      conv_rhs => rw [← List.dropLast_append_getLast hne, hlast]
    calc s = s.rdropWhile (· ≠ chr ':') ++ s.rtakeWhile (· ≠ chr ':') :=
          List.rdropWhile_append_rtakeWhile.symm
      _ = ((s.rdropWhile (· ≠ chr ':')).dropLast ++ [chr ':']) ++ s.rtakeWhile (· ≠ chr ':') := by
          rw [hbefore]
      _ = _ := List.append_assoc _ _ _
  · exact .inl rfl
  · exact .inl rfl

/-- To strip a port does not change the name. -/
theorem bareName_stripPort (s : Bytes) : bareName (stripPort s) = bareName s := by
  rcases stripPort_cases s with h | ⟨hhead, hclosing, h⟩ | ⟨hopening, port, h⟩
  · rw [h]
  · obtain ⟨t, rfl⟩ := List.head?_eq_some_iff.mp hhead
    have hne : chr ']' ∉ (chr '[' :: t).takeWhile (· ≠ chr ']') := fun hmem =>
      absurd (List.mem_takeWhile_imp hmem) (by simp)
    have hhead' : ((chr '[' :: t).takeWhile (· ≠ chr ']') ++ [chr ']']).head? = some (chr '[') := by
      rw [List.takeWhile_cons_of_pos (by decide)]
      rfl
    rw [h, bareName_of_bracket hhead' (by simp), (takeWhile_ne_append hne []).1,
      bareName_of_bracket hhead hclosing]
  · have hno : ∀ t, t <+: s → t.head? ≠ some (chr '[') := fun t ht hhead =>
      hopening (ht.subset (List.mem_of_mem_head? hhead))
    rw [bareName_of_head?_ne (hno s (List.prefix_refl s)),
      bareName_of_head?_ne (hno _ ⟨_, h.symm⟩)]
    nth_rewrite 2 [h]
    exact (takeWhile_append_colon _ _).symm

/-! ### What is admitted -/

theorem takeWhile_originText (origin : Bytes) :
    (originText origin).takeWhile (· ≠ chr '/') = originText origin := by
  rw [originText, List.takeWhile_idem]

theorem bareName_of_isOwnName (h : isOwnName (s.takeWhile (· ≠ chr ':')) = true) :
    isOwnName (bareName s) = true := by
  rwa [bareName_of_head?_ne]
  intro hhead
  obtain ⟨t, rfl⟩ := List.head?_eq_some_iff.mp hhead
  rw [List.takeWhile_cons_of_pos (by decide)] at h
  simp only [isOwnName, Bool.or_eq_true, decide_eq_true_eq] at h
  rcases h with h | h
  · exact absurd (List.cons.inj h).1 (by decide)
  · exact absurd (List.cons.inj h).1 (by decide)

theorem checkOrigin_of_ne (hnil : origin ≠ []) (hnull : origin ≠ str "null") (host : Bytes) :
    checkOrigin origin host = true ↔ isOwnName ((originText origin).takeWhile (· ≠ chr ':')) = true ∨
      stripPort (originText origin) = stripPort (host.takeWhile (· ≠ chr '/')) ∨
        originText origin = host := by
  unfold checkOrigin
  rw [if_neg hnil, if_neg hnull]
  dsimp only
  split
  · next hown => exact iff_of_true rfl (.inl hown)
  · next hown =>
    rw [or_iff_right hown]
    simp

theorem ne_of_checkOrigin (h : checkOrigin origin host = true) : origin ≠ [] ∧ origin ≠ str "null" := by
  constructor
  · rintro rfl
    cases h
  · rintro rfl
    cases h

/-- What is let in is an own name, or the name of the header. -/
theorem hostName_of_checkOrigin (h : checkOrigin origin host = true) :
    isOwnName (bareName (originText origin)) = true ∨ hostName host = bareName (originText origin) := by
  obtain ⟨hnil, hnull⟩ := ne_of_checkOrigin h
  rcases (checkOrigin_of_ne hnil hnull host).mp h with hown | hsame | rfl
  · exact .inl (bareName_of_isOwnName hown)
  · right
    rw [hostName, ← bareName_stripPort, ← hsame, bareName_stripPort]
  · right
    rw [hostName, takeWhile_originText]

/-- Only the site is admitted, whatever the `Host` header is, just if a browser reads the same host in
the origin as the code. -/
theorem checkOrigin_admits_iff (parseHost parseOpaque : Bytes → Option Bytes) (origin : Bytes) :
    (∀ host, checkOrigin origin host = true → Admits parseHost parseOpaque origin host) ↔
      origin = [] ∨ origin = str "null" ∨ ReadsAlike parseHost parseOpaque origin := by
  constructor
  · intro hadmits
    by_cases hnil : origin = []
    · exact .inl hnil
    by_cases hnull : origin = str "null"
    · exact .inr (.inl hnull)
    refine .inr (.inr ?_)
    -- the text that is compared is itself a header with which the origin is let in
    have hself : checkOrigin origin (originText origin) = true :=
      (checkOrigin_of_ne hnil hnull _).mpr (.inr (.inr rfl))
    obtain ⟨name, hread, hname⟩ := hadmits _ hself
    rw [hostName, takeWhile_originText] at hname
    exact ⟨name, hread, hname⟩
  · rintro hread host h
    obtain ⟨hnil, hnull⟩ := ne_of_checkOrigin h
    obtain ⟨name, hname, hown⟩ := (hread.resolve_left hnil).resolve_left hnull
    refine ⟨name, hname, ?_⟩
    rcases hown with hown | ⟨hne, rfl⟩
    · exact .inl hown
    · rcases hostName_of_checkOrigin h with hown | hhost
      · exact .inl hown
      · rw [hhost]
        exact .inr ⟨hne, rfl⟩

/-- A name of small letters and dots is its own host. -/
def nameHost (name : Bytes) : Option Bytes :=
  if name ≠ [] ∧ ∀ c ∈ name, (chr 'a' ≤ c ∧ c ≤ chr 'z') ∨ c = chr '.' then some name else none

/-- With user information in it, the origin of another site is taken for an own one. -/
theorem checkOrigin_admits_stranger :
    ¬ ∀ origin host, checkOrigin origin host = true → Admits nameHost nameHost origin host := by
  intro hadmits
  have hcheck : checkOrigin (str "http://localhost:x@evil.example") (str "ujian.example") = true := by
    decide +kernel
  have hread : hostOf nameHost nameHost (str "http://localhost:x@evil.example") =
      some (str "evil.example") := by decide +kernel
  obtain ⟨name, hname, hown⟩ := hadmits _ _ hcheck
  rw [hread] at hname
  obtain rfl := Option.some.inj hname
  rcases hown with hown | ⟨-, hsame⟩
  · exact absurd hown (by decide +kernel)
  · exact absurd hsame (by decide +kernel)

/-! ### Origins as browsers write them -/

/-- A byte of a host that is neither an address in brackets nor in need of an escape. -/
def isHostByte (c : UInt8) : Bool := 0x20 < c && !(str "/\\?#@:[]").contains c

/-- A port behind its colon, or none. -/
def IsPort (port : Bytes) : Prop :=
  port = [] ∨ ∃ digits, port = chr ':' :: digits ∧ digits.all isDigit = true ∧ digitsValue digits ≤ 65535

variable {port : Bytes}

theorem isHostByte_spec {c : UInt8} (h : isHostByte c = true) : isControlOrSpace c = false ∧
    isSlash c = false ∧ c ∉ str "?#@:[]" := by
  revert h
  exact forall_byte (p := fun c => isHostByte c = true → isControlOrSpace c = false ∧
    isSlash c = false ∧ c ∉ str "?#@:[]") (by decide) c

theorem IsPort.bytes (h : IsPort port) : ∀ c ∈ port, isControlOrSpace c = false ∧ isSlash c = false ∧
    c ∉ str "?#@[]" := by
  have hdigit : ∀ c, isDigit c = true → isControlOrSpace c = false ∧ isSlash c = false ∧
      c ∉ str "?#@[]" := forall_byte (by decide)
  intro c hc
  rcases h with rfl | ⟨digits, rfl, hdigits, -⟩
  · cases hc
  · rcases List.mem_cons.mp hc with rfl | hc
    · decide
    · exact hdigit c (List.all_eq_true.mp hdigits c hc)

theorem clean_of_solid (h : ∀ c ∈ s, isControlOrSpace c = false) : clean s = s := by
  have hblank : ∀ c, isControlOrSpace c = false → isTabOrNewline c = false :=
    forall_byte (by decide)
  have hhead : s.dropWhile isControlOrSpace = s := by
    cases s with
    | nil => rfl
    | cons c t => exact List.dropWhile_cons_of_neg (by simp [h c List.mem_cons_self])
  have hlast : s.rdropWhile isControlOrSpace = s :=
    List.rdropWhile_eq_self_iff.mpr fun hne => by simp [h _ (List.getLast_mem hne)]
  rw [clean, hhead, cleanRest, hlast]
  exact List.filter_eq_self.mpr fun c hc => by simp [hblank c (h c hc)]

theorem splitPort_of_isPort (hname : ∀ c ∈ name, isHostByte c = true) (hport : IsPort port) :
    splitPort false (name ++ port) = (name, port.head?.map fun _ => port.tail) := by
  induction name with
  | nil =>
      rcases hport with rfl | ⟨digits, rfl, -, -⟩
      · rfl
      · rfl
  | cons c t ih =>
      rw [List.forall_mem_cons] at hname
      have hc := (isHostByte_spec hname.1).2.2
      have hcolon : c ≠ chr ':' := fun heq => hc (heq ▸ by decide)
      have hopening : c ≠ chr '[' := fun heq => hc (heq ▸ by decide)
      have hclosing : c ≠ chr ']' := fun heq => hc (heq ▸ by decide)
      rw [List.cons_append, splitPort, if_neg fun h => hcolon h.1, if_neg hopening, if_neg hclosing,
        ih hname.2]

theorem parsePort_of_isPort (hport : IsPort port) (scheme : Bytes) :
    (parsePort scheme (port.head?.map fun _ => port.tail)).isSome = true := by
  rcases hport with rfl | ⟨digits, rfl, hdigits, hvalue⟩
  · rfl
  · rw [List.head?_cons, Option.map_some, List.tail_cons, parsePort]
    split
    · rfl
    · rw [if_pos ⟨hdigits, hvalue⟩]
      rfl

/-- Behind a scheme that has hosts with names, a browser and the code read the same name. -/
theorem readsAlike_of_serialized {scheme : Bytes} (hscheme : scheme = str "http" ∨ scheme = str "https")
    (hne : name ≠ []) (hname : ∀ c ∈ name, isHostByte c = true) (hparse : parseHost name = some name)
    (hport : IsPort port) : ReadsAlike parseHost parseOpaque (scheme ++ (str "://" ++ (name ++ port))) := by
  have hbytes : ∀ c ∈ name ++ port, isControlOrSpace c = false ∧ isSlash c = false ∧ c ∉ str "?#@[]" := by
    refine List.forall_mem_append.mpr ⟨fun c hc => ?_, hport.bytes⟩
    obtain ⟨hcontrol, hslash, hmem⟩ := isHostByte_spec (hname c hc)
    exact ⟨hcontrol, hslash, fun h => hmem ((by decide : ∀ c ∈ str "?#@[]", c ∈ str "?#@:[]") c h)⟩
  have hclean : clean (scheme ++ (str "://" ++ (name ++ port))) =
      scheme ++ (str "://" ++ (name ++ port)) := by
    refine clean_of_solid (List.forall_mem_append.mpr ⟨?_, List.forall_mem_append.mpr ⟨by decide, ?_⟩⟩)
    · rcases hscheme with rfl | rfl <;> decide
    · exact fun c hc => (hbytes c hc).1
  have hschemeOf : schemeOf (scheme ++ (str "://" ++ (name ++ port))) =
      some (scheme, str "//" ++ (name ++ port)) := by
    rcases hscheme with rfl | rfl <;> rfl
  have hspecial : scheme ≠ str "file" ∧ defaultPort scheme ≠ none := by
    rcases hscheme with rfl | rfl <;> decide
  have hslashes : (str "//" ++ (name ++ port)).dropWhile isSlash = name ++ port := by
    obtain ⟨c, t, rfl⟩ := List.exists_cons_of_ne_nil hne
    have hc : isSlash c = false := (hbytes c List.mem_cons_self).2.1
    rw [List.dropWhile_append_of_pos (by decide), List.cons_append,
      List.dropWhile_cons_of_neg (by simp [hc])]
  have htext : (name ++ port).takeWhile (fun c => !(isSlash c || c = chr '?' || c = chr '#')) =
      name ++ port := by
    refine List.takeWhile_eq_self_iff.mpr fun c hc => ?_
    obtain ⟨-, hslash, hmem⟩ := hbytes c hc
    have hquery : c ≠ chr '?' := fun heq => hmem (heq ▸ by decide)
    have hfragment : c ≠ chr '#' := fun heq => hmem (heq ▸ by decide)
    simp [hslash, hquery, hfragment]
  have huser : (name ++ port).rtakeWhile (· ≠ chr '@') = name ++ port :=
    List.rtakeWhile_eq_self_iff.mpr fun c hc =>
      decide_eq_true fun heq => (hbytes c hc).2.2 (heq ▸ by decide)
  have hauthority : (authority parseHost scheme (name ++ port)).map (fun a => a.1) = some name := by
    obtain ⟨p, hp⟩ := Option.isSome_iff_exists.mp (parsePort_of_isPort hport scheme)
    unfold authority
    simp only [htext, huser, splitPort_of_isPort hname hport, if_neg hne, hparse, hp, Option.bind_some,
      Option.map_some]
  refine ⟨name, ?_, .inr ?_⟩
  · unfold hostOf
    rw [hclean, hschemeOf]
    dsimp only
    rw [if_neg hspecial.1, if_pos hspecial.2, hslashes, hauthority]
  · have hcolon : chr ':' ∉ scheme := by rcases hscheme with rfl | rfl <;> decide
    have hfound : findSub (str "://") (scheme ++ (str "://" ++ (name ++ port))) =
        some (str "://" ++ (name ++ port)) := by
      refine (findSub_append_of_notMem hcolon).trans (findSub_of_head (List.prefix_append _ _))
    have horigin : originText (scheme ++ (str "://" ++ (name ++ port))) = name ++ port := by
      rw [originText, hfound]
      refine List.takeWhile_eq_self_iff.mpr fun c hc => decide_eq_true fun heq => ?_
      have hslash := (hbytes c hc).2.1
      rw [heq] at hslash
      cases hslash
    have hbare : bareName (name ++ port) = name := by
      have hhead : (name ++ port).head? ≠ some (chr '[') := fun hhead =>
        (hbytes _ (List.mem_of_mem_head? hhead)).2.2 (by decide)
      have hcolon' : ∀ c ∈ name, decide (c ≠ chr ':') = true := fun c hc =>
        decide_eq_true fun heq => (isHostByte_spec (hname c hc)).2.2 (heq ▸ by decide)
      rw [bareName_of_head?_ne hhead, List.takeWhile_append_of_pos hcolon']
      rcases hport with rfl | ⟨digits, rfl, -, -⟩
      · rw [List.takeWhile_nil, List.append_nil]
      · rw [List.takeWhile_cons_of_neg (by simp), List.append_nil]
    rw [horigin, hbare]
    exact ⟨hne, rfl⟩

end ExamVan.Websocket
