import ExamVan.Http.AdminApi

/-!
# Cookies in a header

`extract_cookie` looks for the name of a cookie behind a blank or a separator. Names and values of
cookies have neither, so between other cookies the one with the name is found.
-/

namespace ExamVan.Http

open ByteString

/-! ### Cookies -/

/-- A byte of a token. -/
def isTokenByte (c : UInt8) : Bool :=
  0x20 < c && c < 0x7f && !(str "()<>@,;:\\\"/[]?=\x7b\x7d").contains c

/-- A byte of an unquoted value. -/
def isCookieOctet (c : UInt8) : Bool :=
  0x20 < c && c < 0x7f && !(str "\",;\\").contains c

structure Cookie where
  name : Bytes
  value : Bytes
  isToken : name ≠ [] ∧ ∀ c ∈ name, isTokenByte c = true
  isValue : (∀ c ∈ value, isCookieOctet c = true) ∨
    ∃ inside, value = chr '"' :: (inside ++ [chr '"']) ∧ ∀ c ∈ inside, isCookieOctet c = true

namespace Cookie

def text (k : Cookie) : Bytes := k.name ++ chr '=' :: k.value

end Cookie

/-- The value of the `Cookie` header. -/
def cookieHeader (cookies : List Bytes) : Bytes := [chr ';', chr ' '].intercalate cookies

/-! ### Finding a cookie -/

def isBoundary (c : UInt8) : Bool := c = chr ';' || c = chr ' ' || c = chr ',' || c = chr '\t'

def startsCookie (before : Option UInt8) : Bool := before.all isBoundary

variable {name s t : Bytes} {before : Option UInt8} {b c : UInt8}

theorem extractCookieFrom_cons (name : Bytes) (before : Option UInt8) (c : UInt8) (t : Bytes) :
    extractCookieFrom name before (c :: t) =
      if name <+: c :: t ∧ startsCookie before then
        match ((c :: t).drop name.length).dropWhile isCookieBlank with
        | [] => extractCookieFrom name (some c) t
        | d :: rest =>
            if d = chr '=' then cookieValue rest else extractCookieFrom name (some c) t
      else extractCookieFrom name (some c) t := by
  cases before <;> rfl

theorem extractCookieFrom_of_not_boundary (hb : isBoundary b = false) (c : UInt8) (t : Bytes) :
    extractCookieFrom name (some b) (c :: t) = extractCookieFrom name (some c) t := by
  rw [extractCookieFrom_cons, if_neg]
  rintro ⟨-, hstarts⟩
  rw [startsCookie, Option.all_some, hb] at hstarts
  cases hstarts

/-- Behind a byte that is no boundary, bytes that are none are passed over. -/
theorem extractCookieFrom_append (name : Bytes) (hb : isBoundary b = false) (ht : ∀ c ∈ t, isBoundary c = false)
    (s : Bytes) : ∃ e, isBoundary e = false ∧
      extractCookieFrom name (some b) (t ++ s) = extractCookieFrom name (some e) s := by
  induction t generalizing b with
  | nil => exact ⟨b, hb, rfl⟩
  | cons c t ih =>
      rw [List.forall_mem_cons] at ht
      obtain ⟨e, he, hrest⟩ := ih ht.1 ht.2
      refine ⟨e, he, ?_⟩
      rw [List.cons_append, extractCookieFrom_of_not_boundary hb, hrest]

theorem not_boundary_token (h : isTokenByte c = true) : isBoundary c = false ∧ c ≠ chr '=' ∧
    isCookieBlank c = false := by
  revert h
  exact forall_byte (p := fun c => isTokenByte c = true → isBoundary c = false ∧ c ≠ chr '=' ∧
    isCookieBlank c = false) (by decide) c

theorem not_boundary_octet (h : isCookieOctet c = true) : isBoundary c = false := by
  revert h
  exact forall_byte (p := fun c => isCookieOctet c = true → isBoundary c = false)
    (by decide) c

theorem Cookie.not_boundary_value (k : Cookie) : ∀ c ∈ k.value, isBoundary c = false := by
  intro c hc
  rcases k.isValue with hplain | ⟨inside, hvalue, hinside⟩
  · exact not_boundary_octet (hplain c hc)
  · rw [hvalue, List.mem_cons, List.mem_append, List.mem_singleton] at hc
    rcases hc with rfl | hc | rfl
    · decide
    · exact not_boundary_octet (hinside c hc)
    · decide

/-- A token is not read as a cookie of another name. -/
theorem not_read_of_ne {token : Bytes} (hname : ∀ c ∈ name, isTokenByte c = true)
    (htoken : ∀ c ∈ token, isTokenByte c = true) (hne : token ≠ name) (s : Bytes)
    (hpre : name <+: token ++ chr '=' :: s) :
    ∃ d rest, ((token ++ chr '=' :: s).drop name.length).dropWhile isCookieBlank = d :: rest ∧
      d ≠ chr '=' := by
  have hle : name.length ≤ token.length := by
    by_contra hlong
    have hmem : chr '=' ∈ name := by
      have hlt : token.length < name.length := by omega
      have hget := hpre.getElem hlt
      rw [List.getElem_append_right le_rfl] at hget
      simp only [Nat.sub_self, List.getElem_cons_zero] at hget
      exact hget ▸ List.getElem_mem hlt
    exact (not_boundary_token (hname _ hmem)).2.1 rfl
  obtain ⟨more, rfl⟩ : name <+: token := List.prefix_of_prefix_length_le hpre (List.prefix_append _ _) hle
  cases more with
  | nil => exact absurd (List.append_nil name) hne
  | cons d more =>
      have hd := not_boundary_token (htoken d (by simp))
      refine ⟨d, more ++ chr '=' :: s, ?_, hd.2.1⟩
      rw [List.append_assoc, List.drop_left, List.cons_append, List.dropWhile_cons_of_neg (by simp [hd.2.2])]

theorem space_notMem_token {token : Bytes} (htoken : ∀ c ∈ token, isTokenByte c = true)
    (hne : token ≠ []) (s : Bytes) : ¬ token <+: chr ' ' :: s := by
  intro hpre
  cases token with
  | nil => exact hne rfl
  | cons c token =>
      have hspace : isTokenByte (chr ' ') = false := by decide
      rw [(List.cons_prefix_cons.mp hpre).1] at htoken
      rw [htoken _ List.mem_cons_self] at hspace
      cases hspace

/-- What follows a cookie of another name is reached behind a byte that is no boundary. -/
theorem extractCookieFrom_passed (hname : ∀ c ∈ name, isTokenByte c = true) (k : Cookie)
    (hne : k.name ≠ name) (before : Option UInt8) (s : Bytes) : ∃ e, isBoundary e = false ∧
      extractCookieFrom name before (k.text ++ s) = extractCookieFrom name (some e) s := by
  obtain ⟨hknil, htoken⟩ := k.isToken
  obtain ⟨c, token, hk⟩ := List.exists_cons_of_ne_nil hknil
  have hsplit : k.text ++ s = k.name ++ chr '=' :: (k.value ++ s) := by
    rw [Cookie.text, List.append_assoc, List.cons_append]
  have htext : k.text ++ s = c :: ((token ++ chr '=' :: k.value) ++ s) := by
    rw [Cookie.text, hk]
    rfl
  have hfirst : extractCookieFrom name before (k.text ++ s) =
      extractCookieFrom name (some c) ((token ++ chr '=' :: k.value) ++ s) := by
    rw [htext, extractCookieFrom_cons]
    split
    · next hfound =>
      rw [← htext, hsplit] at hfound
      obtain ⟨d, rest, hdrop, hd⟩ := not_read_of_ne hname htoken hne _ hfound.1
      rw [← htext, hsplit, hdrop]
      simp only [if_neg hd]
    · rfl
  rw [hk, List.forall_mem_cons] at htoken
  have hinside : ∀ d ∈ token ++ chr '=' :: k.value, isBoundary d = false := by
    intro d hd
    rcases List.mem_append.mp hd with hd | hd
    · exact (not_boundary_token (htoken.2 d hd)).1
    · rcases List.mem_cons.mp hd with rfl | hd
      · decide
      · exact k.not_boundary_value d hd
  rw [hfirst]
  exact extractCookieFrom_append name (not_boundary_token htoken.1).1 hinside s

/-- A cookie of another name is passed over. -/
theorem extractCookieFrom_cookie (hname : ∀ c ∈ name, isTokenByte c = true) (hnil : name ≠ [])
    (k : Cookie) (hne : k.name ≠ name) (before : Option UInt8) (s : Bytes) :
    extractCookieFrom name before (k.text ++ chr ';' :: chr ' ' :: s) =
      extractCookieFrom name (some (chr ' ')) s := by
  obtain ⟨e, he, hpassed⟩ := extractCookieFrom_passed hname k hne before (chr ';' :: chr ' ' :: s)
  have hspace : extractCookieFrom name (some (chr ';')) (chr ' ' :: s) =
      extractCookieFrom name (some (chr ' ')) s := by
    rw [extractCookieFrom_cons, if_neg fun h => space_notMem_token hname hnil s h.1]
  rw [hpassed, extractCookieFrom_of_not_boundary he, hspace]

/-- A cookie with the name is read where it may start. -/
theorem extractCookieFrom_found (hnil : name ≠ []) (hstarts : startsCookie before = true) (s : Bytes) :
    extractCookieFrom name before (name ++ chr '=' :: s) = cookieValue s := by
  obtain ⟨c, rest, rfl⟩ := List.exists_cons_of_ne_nil hnil
  have hdrop : ((c :: rest ++ chr '=' :: s).drop (c :: rest).length).dropWhile isCookieBlank =
      chr '=' :: s := by
    rw [List.drop_left, List.dropWhile_cons_of_neg (by decide)]
  have hstep := extractCookieFrom_cons (c :: rest) before c (rest ++ chr '=' :: s)
  rw [if_pos ⟨List.prefix_append _ _, hstarts⟩] at hstep
  refine hstep.trans ?_
  simp only [← List.cons_append]
  rw [hdrop]
  exact if_pos rfl

/-! ### Values -/

/-- A value that is not quoted. -/
theorem cookieValue_append {v : Bytes} (hv : ∀ c ∈ v, isCookieOctet c = true) (hs : ∀ c ∈ s.head?, c = chr ';') :
    cookieValue (v ++ s) = v := by
  have hbytes : ∀ c ∈ v, isCookieBlank c = false ∧ c ≠ chr ';' ∧ c ≠ chr '"' ∧ c ≠ chr '\r' ∧ c ≠ chr '\n' := by
    intro c hc
    have hoctet := hv c hc
    revert hoctet
    exact forall_byte (p := fun c => isCookieOctet c = true → isCookieBlank c = false ∧ c ≠ chr ';' ∧
      c ≠ chr '"' ∧ c ≠ chr '\r' ∧ c ≠ chr '\n') (by decide) c
  have hstart : (v ++ s).dropWhile isCookieBlank = v ++ s := by
    cases v with
    | nil =>
        cases s with
        | nil => rfl
        | cons c s =>
            rw [hs c rfl, List.nil_append, List.dropWhile_cons_of_neg (by decide)]
    | cons c v =>
        rw [List.cons_append, List.dropWhile_cons_of_neg (by simp [(hbytes c List.mem_cons_self).1])]
  have hend : (v ++ s).takeWhile (· ≠ chr ';') = v := by
    rw [List.takeWhile_append_of_pos fun c hc => by simpa using (hbytes c hc).2.1]
    cases s with
    | nil => simp
    | cons c s =>
        rw [hs c rfl, List.takeWhile_cons_of_neg (by decide), List.append_nil]
  have htrim : (v.rdropWhile fun c => isCookieBlank c || c = chr '\r' || c = chr '\n') = v := by
    rw [List.rdropWhile_eq_self_iff]
    intro hnil
    have hlast := hbytes _ (List.getLast_mem hnil)
    simp [hlast.1, hlast.2.2.2.1, hlast.2.2.2.2]
  have hquote : ¬ (v.head? = some (chr '"') ∧ v.getLast? = some (chr '"')) := by
    rintro ⟨hhead, -⟩
    exact (hbytes _ (List.mem_of_mem_head? hhead)).2.2.1 rfl
  rw [cookieValue, hstart, hend, htrim]
  exact if_neg hquote

/-- A value between quotes. -/
theorem cookieValue_quoted {v : Bytes} (hv : ∀ c ∈ v, isCookieOctet c = true)
    (hs : ∀ c ∈ s.head?, c = chr ';') : cookieValue (chr '"' :: (v ++ [chr '"']) ++ s) = v := by
  have hbytes : ∀ c ∈ chr '"' :: (v ++ [chr '"']), decide (c ≠ chr ';') = true := by
    have hoctet : ∀ c, isCookieOctet c = true → decide (c ≠ chr ';') = true :=
      forall_byte (by decide)
    rw [List.forall_mem_cons, List.forall_mem_append, List.forall_mem_singleton]
    exact ⟨by decide, fun c hc => hoctet c (hv c hc), by decide⟩
  have hend : (chr '"' :: (v ++ [chr '"']) ++ s).takeWhile (· ≠ chr ';') = chr '"' :: (v ++ [chr '"']) := by
    rw [List.takeWhile_append_of_pos hbytes]
    cases s with
    | nil => rw [List.takeWhile_nil, List.append_nil]
    | cons c s => rw [hs c rfl, List.takeWhile_cons_of_neg (by decide), List.append_nil]
  have htrim : (chr '"' :: (v ++ [chr '"'])).rdropWhile
      (fun c => isCookieBlank c || c = chr '\r' || c = chr '\n') = chr '"' :: (v ++ [chr '"']) := by
    rw [← List.cons_append]
    exact List.rdropWhile_concat_neg _ _ _ (by decide)
  have hquotes : (chr '"' :: (v ++ [chr '"'])).head? = some (chr '"') ∧
      (chr '"' :: (v ++ [chr '"'])).getLast? = some (chr '"') := by
    rw [← List.cons_append, List.getLast?_concat]
    exact ⟨rfl, rfl⟩
  rw [cookieValue, List.cons_append, List.dropWhile_cons_of_neg (by decide), ← List.cons_append, hend, htrim]
  refine (if_pos hquotes).trans ?_
  rw [List.drop_succ_cons, List.drop_zero, List.length_cons, List.length_append]
  exact List.take_left

/-- The value without the quotes around it. -/
def Cookie.content (k : Cookie) : Bytes :=
  if k.value.head? = some (chr '"') then k.value.tail.dropLast else k.value

theorem cookieValue_cookie (k : Cookie) (hs : ∀ c ∈ s.head?, c = chr ';') :
    cookieValue (k.value ++ s) = k.content := by
  rcases k.isValue with hplain | ⟨inside, hvalue, hinside⟩
  · have hquote : k.value.head? ≠ some (chr '"') := fun hhead =>
      absurd (hplain _ (List.mem_of_mem_head? hhead)) (by decide)
    rw [Cookie.content, if_neg hquote, cookieValue_append hplain hs]
  · have hcontent : k.content = inside := by
      rw [Cookie.content, hvalue, List.head?_cons, if_pos rfl, List.tail_cons, List.dropLast_concat]
    rw [hcontent, hvalue, cookieValue_quoted hinside hs]

/-! ### Headers -/

theorem cookieHeader_cons (k : Cookie) (cookies : List Cookie) : ∃ s, (∀ c ∈ s.head?, c = chr ';') ∧
    cookieHeader ((k :: cookies).map Cookie.text) = k.text ++ s := by
  cases cookies with
  | nil => exact ⟨[], nofun, by simp [cookieHeader]⟩
  | cons k' cookies =>
      refine ⟨chr ';' :: chr ' ' :: cookieHeader ((k' :: cookies).map Cookie.text), by simp, ?_⟩
      rw [cookieHeader, List.map_cons, List.intercalate_cons_of_ne_nil (by simp), List.append_assoc]
      rfl

theorem extractCookieFrom_cookieHeader (hname : ∀ c ∈ name, isTokenByte c = true) (hnil : name ≠ [])
    (cookies : List Cookie) (hstarts : startsCookie before = true) :
    extractCookieFrom name before (cookieHeader (cookies.map Cookie.text)) =
      ((cookies.find? fun k => k.name = name).map Cookie.content).getD [] := by
  induction cookies generalizing before with
  | nil => rfl
  | cons k cookies ih =>
      by_cases hk : k.name = name
      · obtain ⟨s, hs, htext⟩ := cookieHeader_cons k cookies
        rw [htext, List.find?_cons_of_pos (by simpa using hk), Cookie.text, List.append_assoc,
          List.cons_append, hk, extractCookieFrom_found hnil hstarts, cookieValue_cookie k hs]
        rfl
      · rw [List.find?_cons_of_neg (by simpa using hk)]
        cases cookies with
        | nil =>
            obtain ⟨e, -, hpassed⟩ := extractCookieFrom_passed hname k hk before []
            rw [List.append_nil] at hpassed
            rw [List.map_singleton, cookieHeader, List.intercalate_singleton, hpassed]
            rfl
        | cons k' cookies =>
            have hmore : cookieHeader ((k :: k' :: cookies).map Cookie.text) =
                k.text ++ chr ';' :: chr ' ' :: cookieHeader ((k' :: cookies).map Cookie.text) := by
              rw [cookieHeader, List.map_cons, List.intercalate_cons_of_ne_nil (by simp), List.append_assoc]
              rfl
            rw [hmore, extractCookieFrom_cookie hname hnil k hk]
            exact ih (by decide)

/-- Between cookies of other names, the cookie with the name is read. -/
theorem extractCookie_cookieHeader {v : Bytes} {befores afters : List Cookie}
    (hname : ∀ c ∈ name, isTokenByte c = true) (hnil : name ≠ []) (hv : ∀ c ∈ v, isCookieOctet c = true)
    (hothers : ∀ k ∈ befores, k.name ≠ name) :
    extractCookie (cookieHeader (befores.map Cookie.text ++ (name ++ chr '=' :: v) ::
      afters.map Cookie.text)) name = v := by
  let k : Cookie := ⟨name, v, ⟨hnil, hname⟩, .inl hv⟩
  have hcontent : k.content = v := by
    refine if_neg fun hhead => ?_
    exact absurd (hv _ (List.mem_of_mem_head? hhead)) (by decide)
  have hfind : (befores ++ k :: afters).find? (fun k => k.name = name) = some k := by
    have hnone : befores.find? (fun k => k.name = name) = none :=
      List.find?_eq_none.mpr fun k hk => by simpa using hothers k hk
    rw [List.find?_append, hnone, Option.none_or]
    exact List.find?_cons_of_pos (decide_eq_true rfl)
  have hread := extractCookieFrom_cookieHeader hname hnil (befores ++ k :: afters)
    (rfl : startsCookie none = true)
  rw [hfind, List.map_append, List.map_cons] at hread
  exact hread.trans hcontent

/-- What is extracted is the value of the first cookie that has the name. -/
theorem extractCookie_eq_find (hname : ∀ c ∈ name, isTokenByte c = true) (hnil : name ≠ [])
    (cookies : List Cookie) : extractCookie (cookieHeader (cookies.map Cookie.text)) name =
      ((cookies.find? fun k => k.name = name).map Cookie.content).getD [] :=
  extractCookieFrom_cookieHeader hname hnil cookies rfl

/-- Names that end or begin like the one that is looked for, and a value that spells it. -/
def csrfCookies : List Cookie :=
  [⟨str "csrf_token2", str "7", by decide, .inl (by decide)⟩,
    ⟨str "old_csrf_token", str "\"csrf_token=1\"", by decide,
      .inr ⟨str "csrf_token=1", by decide, by decide⟩⟩,
    ⟨str "csrf_token", str "\"k9\"", by decide, .inr ⟨str "k9", by decide, by decide⟩⟩]

theorem extractCookie_eq_find_csrf :
    extractCookie (cookieHeader (csrfCookies.map Cookie.text)) (str "csrf_token") =
      ((csrfCookies.find? fun k => k.name = str "csrf_token").map Cookie.content).getD [] :=
  extractCookie_eq_find (by decide) (by decide) csrfCookies

end ExamVan.Http
