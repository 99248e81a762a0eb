import ExamVan.Auth.TemplateBlocks
import ExamVan.Lib.Substitution

/-!
# Pages of registration and recovery

`render_auth_page` reads a template, decides its conditions, writes the messages, and then replaces one
placeholder after the other in the whole text, with what was put in before.
-/

namespace ExamVan.Auth

open ByteString Substitution

/-! ### The code -/

def htmlEscape (s : Bytes) : Bytes :=
  s.flatMap fun c =>
    if c = chr '&' then str "&amp;"
    else if c = chr '<' then str "&lt;"
    else if c = chr '>' then str "&gt;"
    else if c = chr '"' then str "&quot;"
    else if c = chr '\x27' then str "&#39;"
    else [c]

structure PublicAuthPage where
  name : Bytes := []
  error : Bytes := []
  flashes : List Bytes := []
  username : Bytes := []
  email : Bytes := []
  maskedEmail : Bytes := []
  formUsername : Bytes := []
  formEmail : Bytes := []
  emailEnabled : Bool := false
  turnstileEnabled : Bool := false
  turnstileSiteKey : Bytes := []
  footerText : Bytes := [0xC2, 0xA9] ++ str " 2026 EXAMVAN Team. All rights reserved."
  seoDescription : Bytes := str "EXAMVAN adalah aplikasi ujian online mandiri dengan sistem keamanan tinggi terhindar dari kecurangan."
  seoTitle : Bytes := str "EXAMVAN - Aplikasi Ujian Online Aman & Tertib"
  seoIndex : Bool := false
  csrfToken : Bytes := []

structure RenderedAuthPage where
  body : Bytes
  setCookie : Bytes

/-- What is read besides the page. -/
structure Site where
  file : Bytes → Option Bytes
  /-- What `generate_csrf_token` draws. -/
  generated : Bytes
  version : Bytes
  isDevelopment : Bool

def sharedPartial (site : Site) (name : Bytes) : Bytes :=
  match site.file (str "templates/public/shared.html") with
  | none => []
  | some shared =>
      let s := str "\x7b\x7b define \"" ++ name ++ str "\" \x7d\x7d"
      match findSub s shared with
      | none => []
      | some found =>
          match findSub (str "\x7b\x7b end \x7d\x7d") (found.drop s.length) with
          | none => []
          | some stop => (found.drop s.length).take ((found.drop s.length).length - stop.length)

/-- The loop that drops the comments. -/
def dropComments : Nat → Bytes → Bytes
  | 0, h => h
  | fuel + 1, h =>
      match findSub (str "\x7b\x7b/*") h with
      | none => h
      | some found =>
          match findSub (str "*/\x7d\x7d") found with
          | none => h
          | some stop => h.take (h.length - found.length) ++ dropComments fuel (stop.drop 4)

def resolveBlocks (page : PublicAuthPage) (h : Bytes) : Bytes :=
  [(str "error", decide (page.error ≠ [])), (str "flashes", decide (page.flashes ≠ [])),
    (str "username", decide (page.username ≠ [])), (str "email_enabled", page.emailEnabled),
    (str "turnstile_enabled", page.turnstileEnabled),
    (str "form_username", decide (page.formUsername ≠ [])),
    (str "form_email", decide (page.formEmail ≠ [])), (str "seo_index", page.seoIndex)].foldl
      (fun h block => resolveIfBlock h block.1 block.2) h

def rangeMarker : Bytes := str "\x7b\x7brange .flashes\x7d\x7d"

def dot : Bytes := str "\x7b\x7b.\x7d\x7d"

/-- The loop of `resolve_flashes`. -/
def resolveFlashes (flashes : List Bytes) : Nat → Bytes → Bytes
  | 0, h => h
  | fuel + 1, h =>
      match findSub rangeMarker h with
      | none => h
      | some found =>
          match findSub (str "\x7b\x7bend\x7d\x7d") (found.drop rangeMarker.length) with
          | none => h
          | some stop =>
              let tmpl := (found.drop rangeMarker.length).take
                ((found.drop rangeMarker.length).length - stop.length)
              h.take (h.length - found.length) ++
                flashes.flatMap (fun f => replaceAll dot (htmlEscape f) tmpl) ++
                resolveFlashes flashes fuel (stop.drop 7)

def partialNames : List (Bytes × Bytes) :=
  [(str "\x7b\x7b template \"public_auth_nav\" . \x7d\x7d", str "public_nav"),
    (str "\x7b\x7b template \"public_fonts\" . \x7d\x7d", str "public_fonts"),
    (str "\x7b\x7b template \"public_skip_link\" . \x7d\x7d", str "public_skip_link")]

def csrfFields (csrf : Bytes) : List (Bytes × Bytes) :=
  [(str "\x7b\x7b.csrf_token\x7d\x7d", csrf), (str "\x7b\x7b .csrf_token \x7d\x7d", csrf),
    (str "CSRF_PLACEHOLDER", csrf)]

def textFields (page : PublicAuthPage) : List (Bytes × Bytes) :=
  [(str "\x7b\x7b.error\x7d\x7d", page.error), (str "\x7b\x7b .error \x7d\x7d", page.error),
    (str "\x7b\x7b.username\x7d\x7d", page.username), (str "\x7b\x7b .username \x7d\x7d", page.username),
    (str "\x7b\x7b.email\x7d\x7d", page.email), (str "\x7b\x7b .email \x7d\x7d", page.email),
    (str "\x7b\x7b.masked_email\x7d\x7d", page.maskedEmail),
    (str "\x7b\x7b .masked_email \x7d\x7d", page.maskedEmail),
    (str "\x7b\x7b.form_username\x7d\x7d", page.formUsername),
    (str "\x7b\x7b.form_email\x7d\x7d", page.formEmail),
    (str "\x7b\x7b.turnstile_site_key\x7d\x7d", page.turnstileSiteKey),
    (str "\x7b\x7b .turnstile_site_key \x7d\x7d", page.turnstileSiteKey),
    (str "\x7b\x7b.footer_text\x7d\x7d", page.footerText),
    (str "\x7b\x7b .footer_text \x7d\x7d", page.footerText),
    (str "\x7b\x7b.seo_description\x7d\x7d", page.seoDescription),
    (str "\x7b\x7b.seo_title\x7d\x7d", page.seoTitle), (str "\x7b\x7b .seo_title \x7d\x7d", page.seoTitle)]

def versionFields (version : Bytes) : List (Bytes × Bytes) :=
  [(str "\x7b\x7b.version\x7d\x7d", version), (str "\x7b\x7b .version \x7d\x7d", version),
    (str "\x7b\x7b version \x7d\x7d", version)]

def escapeField (e : Bytes × Bytes) : Bytes × Bytes := (e.1, htmlEscape e.2)

/-- What is replaced, in this order. -/
def replacements (site : Site) (page : PublicAuthPage) (csrf : Bytes) : List (Bytes × Bytes) :=
  partialNames.map (fun e => (e.1, sharedPartial site e.2)) ++
    (csrfFields csrf ++ ((textFields page).map escapeField ++ versionFields site.version))

def metaNeedle : Bytes := str "csrf-token\" content=\""

/-- The loop over the `csrf-token` attributes, at `pos`. A round ends behind the place where the closing
quote was before the token was written. -/
def fillMeta (csrf : Bytes) : Nat → Nat → Bytes → Bytes
  | 0, _, h => h
  | fuel + 1, pos, h =>
      match findSub metaNeedle (h.drop pos) with
      | none => h
      | some found =>
          match findByte (· = chr '"') (found.drop (metaNeedle.length - 1)) with
          | none => h
          | some opens =>
              match findByte (· = chr '"') (opens.drop 1) with
              | none => h
              | some closes =>
                  fillMeta csrf fuel (h.length - closes.length + 1)
                    (h.take (h.length - opens.length + 1) ++ csrf ++
                      h.drop (h.length - closes.length))

def csrfOf (site : Site) (page : PublicAuthPage) : Bytes :=
  if page.csrfToken = [] then site.generated else page.csrfToken

/-- The file of the page, or its rendered one. -/
def sourceOf (site : Site) (page : PublicAuthPage) : Option Bytes :=
  let path := str "templates/public/" ++ page.name
  (site.file (path ++ str ".html")).or (site.file (path ++ str ".rendered.html"))

/-- The template with its conditions decided. -/
def decided (page : PublicAuthPage) (template : Bytes) : Bytes :=
  resolveBlocks page (dropComments (template.length + 1) template)

def renderBody (site : Site) (page : PublicAuthPage) (template : Bytes) : Bytes :=
  let h := decided page template
  let h := resolveFlashes page.flashes (h.length + 1) h
  let h := (replacements site page (csrfOf site page)).foldl (fun h e => replaceAll e.1 e.2 h) h
  fillMeta (csrfOf site page) (h.length + 1) 0 h

def renderAuthPage (site : Site) (page : PublicAuthPage) : RenderedAuthPage :=
  match sourceOf site page with
  | none =>
      { body := str "<html><body>template missing: " ++ page.name ++ str "</body></html>"
        setCookie := [] }
  | some template =>
      { body := renderBody site page template
        setCookie := str "csrf_token=" ++ csrfOf site page ++ str "; Path=/; SameSite=Lax" ++
          if site.isDevelopment then [] else str "; Secure" }

/-! ### All placeholders at once -/

def placeholders : List Bytes :=
  partialNames.map Prod.fst ++ (csrfFields [] ++ (textFields {} ++ versionFields [])).map Prod.fst

def parts (s : Bytes) : List Part := parse (holes placeholders) 0 s

/-- The parts of the template, with the messages in the place of their block. -/
def flashParts (flashes : List Bytes) : Nat → Bytes → List Part
  | 0, h => parts h
  | fuel + 1, h =>
      match findSub rangeMarker h with
      | none => parts h
      | some found =>
          match findSub (str "\x7b\x7bend\x7d\x7d") (found.drop rangeMarker.length) with
          | none => parts h
          | some stop =>
              let tmpl := (found.drop rangeMarker.length).take
                ((found.drop rangeMarker.length).length - stop.length)
              parts (h.take (h.length - found.length)) ++
                flashes.flatMap (fun f => parse ((dot, [.text (htmlEscape f)]) :: holes placeholders) 0 tmpl) ++
                flashParts flashes fuel (stop.drop 7)

def pageParts (page : PublicAuthPage) (template : Bytes) : List Part :=
  flashParts page.flashes ((decided page template).length + 1) (decided page template)

def partialSteps (site : Site) : List (Bytes × List Part) :=
  partialNames.map fun e => (e.1, parts (sharedPartial site e.2))

/-- Every placeholder of the page and its partials, and what it stands for. -/
def fields (site : Site) (page : PublicAuthPage) : List (Bytes × Bytes) :=
  csrfFields (csrfOf site page) ++ (textFields page ++ versionFields site.version)

/-- The template with all placeholders filled at once. -/
def simultaneous (site : Site) (page : PublicAuthPage) (template : Bytes) : Bytes :=
  render ((fields site page).map escapeField)
    ((partialSteps site).foldl (fun ps e => fill e.1 e.2 ps) (pageParts page template))

/-- The order in which the code fills them. -/
def steps (site : Site) (page : PublicAuthPage) : List (Bytes × List Part) :=
  partialSteps site ++ ((fields site page).map escapeField).map fun e => (e.1, [.text e.2])

/-- Every `csrf-token` attribute holds the token. -/
def AttributesHold (csrf h : Bytes) : Prop :=
  ∀ t ∈ h.tails, metaNeedle <+: t → chr '"' ∈ t.drop metaNeedle.length →
    (t.drop metaNeedle.length).takeWhile (· ≠ chr '"') = csrf

instance (csrf h : Bytes) : Decidable (AttributesHold csrf h) :=
  inferInstanceAs (Decidable (∀ t ∈ h.tails, metaNeedle <+: t → chr '"' ∈ t.drop metaNeedle.length →
    (t.drop metaNeedle.length).takeWhile (· ≠ chr '"') = csrf))

/-- No value spells, alone or with its neighbours, a placeholder that is replaced later. -/
structure Inert (site : Site) (page : PublicAuthPage) (template : Bytes) : Prop where
  clear : AllClear (steps site page) (pageParts page template)
  attributes : AttributesHold (csrfOf site page) (simultaneous site page template)
  token : htmlEscape (csrfOf site page) = csrfOf site page
  version : htmlEscape site.version = site.version

/-! ### The steps of the code -/

variable {site : Site} {page : PublicAuthPage} {template : Bytes}

theorem placeholders_apart : ∀ n ∈ placeholders, n ≠ [] ∧ Apart n n ∧ Apart n dot := by
  decide +kernel

theorem spelled_parts (s : Bytes) : spelled (parts s) = s :=
  spelled_parse (fun n hn => (placeholders_apart n hn).1) s

theorem spelled_flashParts (flashes : List Bytes) (fuel : Nat) (h : Bytes) :
    spelled (flashParts flashes fuel h) = resolveFlashes flashes fuel h := by
  have hline : ∀ f tmpl, spelled (parse ((dot, [.text (htmlEscape f)]) :: holes placeholders) 0 tmpl) =
      replaceAll dot (htmlEscape f) tmpl := fun f tmpl =>
    spelled_parse_cons (by decide) (fun n hn => ⟨(placeholders_apart n hn).1, (placeholders_apart n hn).2.2⟩)
      _ _
  have hlines : ∀ tmpl, spelled (flashes.flatMap fun f =>
      parse ((dot, [.text (htmlEscape f)]) :: holes placeholders) 0 tmpl) =
        flashes.flatMap fun f => replaceAll dot (htmlEscape f) tmpl := by
    intro tmpl
    rw [spelled, List.flatMap_assoc]
    exact List.flatMap_congr fun f _ => hline f tmpl
  induction fuel generalizing h with
  | zero => exact spelled_parts h
  | succ fuel ih =>
      rw [flashParts, resolveFlashes]
      split
      · exact spelled_parts h
      · split
        · exact spelled_parts h
        · rw [spelled_append, spelled_append, spelled_parts, hlines, ih]

/-- An attribute that holds the token stays as it is. -/
theorem fillMeta_of_attributesHold {csrf h : Bytes} (hold : AttributesHold csrf h) (fuel pos : Nat) :
    fillMeta csrf fuel pos h = h := by
  induction fuel generalizing pos with
  | zero => rfl
  | succ fuel ih =>
      rw [fillMeta]
      split
      · rfl
      · next found hfound =>
        obtain ⟨skip, hskip, rest, rfl⟩ := exists_of_findSub hfound
        have hopens : findByte (· = chr '"') ((metaNeedle ++ rest).drop (metaNeedle.length - 1)) =
            some (chr '"' :: rest) := findByte_cons_pos (by decide)
        rw [hopens]
        simp only [List.drop_one, List.tail_cons]
        split
        · rfl
        · next closes hcloses =>
          obtain ⟨content, c, after, rfl, rfl, hc, hcontent⟩ := exists_of_findByte hcloses
          obtain rfl : c = chr '"' := of_decide_eq_true hc
          have hno : chr '"' ∉ content := fun hmem => of_decide_eq_false (hcontent _ hmem) rfl
          have hcsrf : content = csrf := by
            have htail : metaNeedle ++ (content ++ chr '"' :: after) ∈ h.tails :=
              (List.mem_tails _ _).mpr (List.IsSuffix.trans ⟨skip, hskip.symm⟩ (List.drop_suffix pos h))
            have hheld := hold _ htail (List.prefix_append _ _)
            rw [List.drop_left, (takeWhile_ne_append hno after).1] at hheld
            exact hheld (List.mem_append_right _ List.mem_cons_self)
          have hsame : ∀ front : Bytes, 0 < front.length → h = front ++ (content ++ chr '"' :: after) →
              h.take (h.length - (chr '"' :: (content ++ chr '"' :: after)).length + 1) ++ csrf ++
                h.drop (h.length - (chr '"' :: after).length) = h := by
            intro front hpos htext
            have hopen : h.length - (chr '"' :: (content ++ chr '"' :: after)).length + 1 = front.length := by
              rw [htext]
              simp only [List.length_append, List.length_cons]
              omega
            have hclose : h.length - (chr '"' :: after).length = (front ++ content).length := by
              rw [htext]
              simp only [List.length_append, List.length_cons]
              omega
            rw [hopen, hclose, htext, List.take_left, ← List.append_assoc, List.drop_left, ← hcsrf]
          have hfront : 0 < (h.take pos ++ (skip ++ metaNeedle)).length := by
            rw [List.length_append, List.length_append]
            exact Nat.add_pos_right _ (Nat.add_pos_right _ (by decide))
          have htext : h = (h.take pos ++ (skip ++ metaNeedle)) ++ (content ++ chr '"' :: after) := by
            rw [List.append_assoc, List.append_assoc, ← hskip, List.take_append_drop]
          rw [hsame _ hfront htext]
          exact ih _

/-- The code replaces what the steps fill. -/
theorem replacements_eq (htoken : htmlEscape (csrfOf site page) = csrfOf site page)
    (hversion : htmlEscape site.version = site.version) :
    replacements site page (csrfOf site page) = (steps site page).map fun e => (e.1, spelled e.2) := by
  have hcsrf : (csrfFields (csrfOf site page)).map escapeField = csrfFields (csrfOf site page) := by
    simp only [csrfFields, List.map_cons, List.map_nil, escapeField, htoken]
  have hver : (versionFields site.version).map escapeField = versionFields site.version := by
    simp only [versionFields, List.map_cons, List.map_nil, escapeField, hversion]
  have hpartials : (partialSteps site).map (fun e => (e.1, spelled e.2)) =
      partialNames.map fun e => (e.1, sharedPartial site e.2) := by
    rw [partialSteps, List.map_map]
    exact List.map_congr_left fun e _ => congrArg (Prod.mk e.1) (spelled_parts _)
  have hfields : ((fields site page).map escapeField).map
      ((fun e => (e.1, spelled e.2)) ∘ fun e => (e.1, [Part.text e.2])) =
        (fields site page).map escapeField := by
    refine (List.map_congr_left fun e _ => ?_).trans (List.map_id _)
    exact congrArg (Prod.mk e.1) (List.append_nil e.2)
  rw [steps, List.map_append, hpartials, List.map_map, hfields, replacements, fields, List.map_append,
    List.map_append, hcsrf, hver]

theorem steps_apart (site : Site) (page : PublicAuthPage) :
    ∀ e ∈ steps site page, e.1 ≠ [] ∧ Apart e.1 e.1 := by
  have hnames : (steps site page).map Prod.fst = placeholders := by
    rw [steps, partialSteps, List.map_append, List.map_map, List.map_map, List.map_map]
    rfl
  intro e he
  have hmem : e.1 ∈ placeholders := hnames ▸ List.mem_map_of_mem he
  exact ⟨(placeholders_apart _ hmem).1, (placeholders_apart _ hmem).2.1⟩

/-- A part of the registration page, with the messages and the name from the form. -/
def registerTemplate : Bytes :=
  str "\x7b\x7brange .flashes\x7d\x7d\x7b\x7b.\x7d\x7d\x7b\x7bend\x7d\x7d" ++
    str "<b>\x7b\x7b.form_username\x7d\x7d</b>\x7b\x7b.footer_text\x7d\x7d"

def registerSite : Site where
  file path := if path = str "templates/public/register.html" then some registerTemplate else none
  generated := str "dG9rZW4="
  version := str "2.7.2"
  isDevelopment := false

def registerPage (formUsername : Bytes) : PublicAuthPage :=
  { name := str "register", flashes := [str "a<b"], formUsername }

end ExamVan.Auth
