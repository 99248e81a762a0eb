import ExamVan.Api.Body
import ExamVan.Auth.Login
import ExamVan.Auth.Otp
import ExamVan.Lib.WebUrl

/-!
# Where a login leads

`login_handler` redirects to the `next` of the request if that, decoded twice, looks like a path. A
browser takes the tabs out of it before it looks for a second slash.
-/

namespace ExamVan.Auth

open ByteString Http Queue WebUrl

/-! ### The end of the handler -/

def nextValue (req : Http.Request) : Bytes :=
  let next := Admin.getParam (loginForm req) (str "next")
  if next ≠ [] then next else jsonField req.body (str "next")

/-- `nx`: decoded twice, and cleared if that has brought a line break. -/
def decodedNext (req : Http.Request) : Bytes :=
  let nx := Api.urlDecode (Api.urlDecode (nextValue req))
  if nx.contains (chr '\r') || nx.contains (chr '\n') then [] else nx

def acceptsNext (nx : Bytes) : Bool :=
  nx.head? = some (chr '/') && (nx.length = 1 || nx[1]? ≠ some (chr '/')) &&
    !nx.contains (chr '\\') && findSub (str "%2f") nx = none && findSub (str "%2F") nx = none &&
    findSub (str "%5c") nx = none && findSub (str "%5C") nx = none && findSub (str "//") nx = none &&
    findSub (str "..") nx = none && !nx.contains (chr ':')

def loginTarget (req : Http.Request) : Bytes :=
  if acceptsNext (decodedNext req) then decodedNext req else str "/admin/dashboard"

/-- What `login_handler` answers. -/
def loginAnswer (req : Http.Request) : LoginReply → AuthReply
  | .refused response => .json response
  | .session username _ =>
      successResponse req (loginTarget req)
        (str "\x7b\"success\":true,\"username\":\"" ++ username ++ str "\"\x7d")

/-! ### The origin -/

/-- Behind the first slash there is another one, with nothing but tabs between them. -/
def tabbedSlash (nx : Bytes) : Bool := (nx.tail.dropWhile (· = chr '\t')).head? = some (chr '/')

variable {η : Type*} {parseHost : Bytes → Option η} {site : Origin η} {req : Http.Request} {nx : Bytes}

theorem head?_of_acceptsNext (h : acceptsNext nx = true) : nx.head? = some (chr '/') := by
  simp only [acceptsNext, Bool.and_eq_true, decide_eq_true_eq] at h
  exact h.1.1.1.1.1.1.1.1.1

theorem backslash_notMem_of_acceptsNext (h : acceptsNext nx = true) : chr '\\' ∉ nx := by
  simp only [acceptsNext, Bool.and_eq_true, Bool.not_eq_true', List.contains_eq_mem,
    decide_eq_false_iff_not] at h
  exact h.1.1.1.1.1.1.1.2

theorem no_lineBreak_decodedNext (req : Http.Request) :
    ∀ c ∈ decodedNext req, c ≠ chr '\r' ∧ c ≠ chr '\n' := by
  intro c hc
  rw [decodedNext] at hc
  split at hc
  · cases hc
  · next hno =>
    simp only [Bool.or_eq_true, List.contains_eq_mem, decide_eq_true_eq, not_or] at hno
    exact ⟨fun h => hno.1 (h ▸ hc), fun h => hno.2 (h ▸ hc)⟩

theorem isTabOrNewline_tab {t : Bytes} (c : UInt8) (hc : c ∈ t.takeWhile (· = chr '\t')) :
    isTabOrNewline c = true := by
  obtain rfl : c = chr '\t' := by simpa using List.mem_takeWhile_imp hc
  decide

/-- An accepted path leads to another authority only over a tabbed slash. -/
theorem resolve_of_acceptsNext (h : acceptsNext nx = true)
    (hbreak : ∀ c ∈ nx, c ≠ chr '\r' ∧ c ≠ chr '\n') :
    resolve parseHost site nx =
      if tabbedSlash nx then origin parseHost site.scheme (clean nx) else some site := by
  obtain ⟨rest, rfl⟩ := List.head?_eq_some_iff.mp (head?_of_acceptsNext h)
  have hback := backslash_notMem_of_acceptsNext h
  have hsplit := List.takeWhile_append_dropWhile (p := (· = chr '\t')) (l := rest)
  have htabs : ∀ c ∈ rest.takeWhile (· = chr '\t'), isTabOrNewline c = true := isTabOrNewline_tab
  by_cases hslash : tabbedSlash (chr '/' :: rest) = true
  · obtain ⟨v, hv⟩ := List.head?_eq_some_iff.mp (of_decide_eq_true hslash)
    rw [List.tail_cons] at hv
    have hclean : clean (chr '/' :: rest) = chr '/' :: chr '/' :: cleanRest v := by
      rw [clean_slash, ← hsplit, hv, cleanRest_append_slash htabs]
    rw [if_pos hslash]
    exact resolve_two_slashes hclean
  · rw [if_neg hslash]
    refine resolve_slash (clean_slash rest) ?_
    intro d hd
    -- the byte behind the tabs is the second one that the browser sees
    cases hu : rest.dropWhile (· = chr '\t') with
    | nil =>
        have hnone : ∀ e ∈ ([] : Bytes).head?, e = chr '\t' := by simp
        have hgone : cleanRest rest = [] := by
          have hall : ∀ c ∈ rest, isControlOrSpace c = true := by
            intro c hc
            obtain rfl : c = chr '\t' := by simpa using List.dropWhile_eq_nil_iff.mp hu c hc
            decide
          rw [cleanRest, List.rdropWhile_eq_nil_iff.mpr hall]
          rfl
        rw [hgone] at hd
        cases hd
    | cons c u =>
        have hc : c ≠ chr '\t' := by
          have := List.head?_dropWhile_not (· = chr '\t') rest
          rw [hu] at this
          simpa using this
        have hmem : c ∈ chr '/' :: rest := by
          refine List.mem_cons_of_mem _ ?_
          rw [← hsplit, hu]
          exact List.mem_append_right _ List.mem_cons_self
        have hblank : isTabOrNewline c = false := by
          have hr := (hbreak c hmem).1
          have hn := (hbreak c hmem).2
          revert hc hr hn
          exact forall_byte (p := fun c => c ≠ chr '\t' → c ≠ chr '\r' → c ≠ chr '\n' →
            isTabOrNewline c = false) (by decide) c
        have hd' : d = c := by
          rw [← hsplit, hu] at hd
          have hfirst := head?_cleanRest (c := c) htabs (by simp) d hd
          rw [hblank] at hfirst
          simpa using hfirst
        have hno : c ≠ chr '/' := by
          intro hc
          refine hslash ?_
          rw [tabbedSlash, List.tail_cons, hu, hc]
          rfl
        have hno' : c ≠ chr '\\' := fun hc => hback (hc ▸ hmem)
        rw [hd', isSlash]
        simp [hno, hno']

theorem resolve_dashboard : resolve parseHost site (str "/admin/dashboard") = some site :=
  resolve_slash (t := cleanRest (str "admin/dashboard")) rfl (by decide +kernel)

theorem no_lineBreak_loginTarget (req : Http.Request) :
    ∀ c ∈ loginTarget req, c ≠ chr '\r' ∧ c ≠ chr '\n' := by
  rw [loginTarget]
  split
  · exact no_lineBreak_decodedNext req
  · decide

/-- A login redirects to its own site, unless the path has a tabbed slash and what follows is not the
authority of the site. -/
theorem loginAnswer_on_site_iff {reply : LoginReply} {status : Nat} {location : Bytes}
    (h : loginAnswer req reply = .redirect status location) :
    (resolve parseHost site location = some site ∧ ∀ c ∈ location, c ≠ chr '\r' ∧ c ≠ chr '\n') ↔
      (acceptsNext (decodedNext req) = true → tabbedSlash (decodedNext req) = true →
        authority parseHost site.scheme ((clean (decodedNext req)).dropWhile isSlash) =
          some (site.host, site.port)) := by
  obtain rfl : location = loginTarget req := by
    cases reply with
    | refused response => cases h
    | session username session =>
        rw [loginAnswer, successResponse] at h
        split at h
        · cases h
        · exact (AuthReply.redirect.inj h).2.symm
  have hbreak := no_lineBreak_loginTarget req
  rw [and_iff_left hbreak, loginTarget]
  by_cases haccepts : acceptsNext (decodedNext req) = true
  · rw [if_pos haccepts, resolve_of_acceptsNext haccepts (no_lineBreak_decodedNext req)]
    by_cases htabbed : tabbedSlash (decodedNext req) = true
    · rw [if_pos htabbed, origin_eq_iff rfl]
      exact ⟨fun hsame _ _ => hsame, fun hsame => hsame haccepts htabbed⟩
    · rw [if_neg htabbed]
      exact iff_of_true rfl fun _ htabbed' => absurd htabbed' htabbed
  · rw [if_neg haccepts, resolve_dashboard]
    exact iff_of_true rfl fun haccepts' => absurd haccepts' haccepts

def nextRequest (next : Bytes) : Http.Request :=
  { method := str "POST", body := str "username=guru&password=rahasia&next=" ++ next }

def nameHost (name : Bytes) : Option Bytes := if name = [] then none else some name

def examSite : Origin Bytes := ⟨str "https", str "ujian.example", none⟩

/-- The path of a page of the site. -/
theorem loginAnswer_on_site_exams :
    loginAnswer (nextRequest (str "/admin/exams")) (.session (str "guru") {}) =
        .redirect 303 (str "/admin/exams") ∧
      ((resolve nameHost examSite (str "/admin/exams") = some examSite ∧
          ∀ c ∈ str "/admin/exams", c ≠ chr '\r' ∧ c ≠ chr '\n') ↔
        (acceptsNext (decodedNext (nextRequest (str "/admin/exams"))) = true →
          tabbedSlash (decodedNext (nextRequest (str "/admin/exams"))) = true →
            authority nameHost examSite.scheme
                ((clean (decodedNext (nextRequest (str "/admin/exams")))).dropWhile isSlash) =
              some (examSite.host, examSite.port))) :=
  have hanswer : loginAnswer (nextRequest (str "/admin/exams")) (.session (str "guru") {}) =
      .redirect 303 (str "/admin/exams") := by decide +kernel
  ⟨hanswer, loginAnswer_on_site_iff hanswer⟩

/-- An encoded tab between two slashes leads to another site. -/
theorem loginAnswer_leaves_site :
    loginAnswer (nextRequest (str "/%09/evil.example")) (.session (str "guru") {}) =
        .redirect 303 (str "/\t/evil.example") ∧
      resolve nameHost examSite (str "/\t/evil.example") =
        some ⟨str "https", str "evil.example", none⟩ ∧
      resolve nameHost examSite (str "/\t/evil.example") ≠ some examSite := by
  decide +kernel

end ExamVan.Auth
