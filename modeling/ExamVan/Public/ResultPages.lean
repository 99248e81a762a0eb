import ExamVan.Api.ExamList
import ExamVan.Api.Submit
import ExamVan.Lib.Pages
import ExamVan.Public.Hasil
import Mathlib.Order.WithBot

/-!
# The pages of the results

`cek_hasil_api` sorts the submissions of an exam by their score alone. Each page is a query of its own,
and the rows of one score come in any order, so the pages show everyone once only if no score goes over
the end of a page.
-/

namespace ExamVan.Public

open ByteString Queue Middleware Api

/-! ### The rows -/

/-- A row of `submissions`; the score `⊥` is NULL. -/
structure Submission (α : Type) where
  id : Int
  studentName : Option Bytes
  examNumber : Bytes := []
  studentClass : Bytes := []
  answersJson : Option Bytes
  score : WithBot α
  startTime : Bytes := []
  createdAt : Bytes := []
  identityData : Bytes := []

/-- The submissions of an exam. -/
structure Submissions (α : Type) where
  rows : List (Submission α)
  ids : (rows.map Submission.id).Nodup

/-- `escape_like` -/
def escapeLike (s : Bytes) : Bytes :=
  s.flatMap fun c => if c = chr '%' ∨ c = chr '_' ∨ c = chr '\\' then [chr '\\', c] else [c]

section

variable {α : Type} (ilike : Bytes → Bytes → Bool)

/-- `answers_json IS NOT NULL AND answers_json != ''` -/
def Submission.isAnswered (r : Submission α) : Bool :=
  match r.answersJson with
  | none => false
  | some answers => answers ≠ []

/-- `student_name ILIKE '%'||$2||'%' ESCAPE '\'` -/
def Submission.isNamed (search : Bytes) (r : Submission α) : Bool :=
  match r.studentName with
  | none => false
  | some name => ilike name (chr '%' :: (escapeLike search ++ [chr '%']))

/-- The filter of both queries. -/
def Submissions.matching (t : Submissions α) (search : Bytes) : List (Submission α) :=
  t.rows.filter fun r => r.isAnswered && (search = [] || r.isNamed ilike search)

/-! ### A page -/

def pageOf (q : StringMap) : Int :=
  let page := ((stoi (fieldOr q (str "page") [])).map Int32.toInt).getD 1
  if page < 1 then 1 else if page > 1000000 then 1000000 else page

def perPageOf (text : Bytes) : Int :=
  let perPage := ((stoi text).map Int32.toInt).getD 100
  if perPage < 1 then 1 else if perPage > 500 then 500 else perPage

/-- `evaluated_answers` of a row, if the grading returns. -/
def evaluation (qs : List Question) (r : Submission α) : Option (List EvalDetail) :=
  evaluatedAnswers (parseAnswers (r.answersJson.getD [])) qs

structure ResultsPage (α : Type) where
  submissions : List (Submission α × List EvalDetail)
  page : Int
  perPage : Int
  total : Int
  totalPages : Int

/-- `cek_hasil_api` from the form on, where the page's query has its rows in the order `arranged`. -/
def cekHasilApi (qs : List Question) (t : Submissions α) (arranged : List (Submission α))
    (q : StringMap) : Option (ResultsPage α) := do
  let page := pageOf q
  let perPage := perPageOf (fieldOr q (str "per_page") [])
  let count := natText (t.matching ilike (fieldOr q (str "search") [])).length
  let total := ((stoi count).map Int32.toInt).getD 0
  let sum ← checked32 (total + perPage)
  let sum ← checked32 (sum - 1)
  let totalPages := if sum.tdiv perPage < 1 then 1 else sum.tdiv perPage
  let before ← checked32 (page - 1)
  let offset ← checked32 (before * perPage)
  let rows := (arranged.drop offset.toNat).take perPage.toNat
  let submissions ← rows.mapM fun r => (evaluation qs r).map (r, ·)
  return { submissions, page, perPage, total, totalPages }

/-- The submissions that a page shows. -/
def shownRows (qs : List Question) (t : Submissions α) (arranged : List (Submission α))
    (q : StringMap) : List (Submission α) :=
  ((cekHasilApi ilike qs t arranged q).map fun a => a.submissions.map Prod.fst).getD []

end

section

variable {α : Type} {qs : List Question}

theorem mapM_evaluation {rows : List (Submission α)} {shown : List (Submission α × List EvalDetail)}
    (h : (rows.mapM fun r => (evaluation qs r).map (r, ·)) = some shown) :
    shown.map Prod.fst = rows ∧ ∀ r ∈ rows, (evaluation qs r).isSome = true := by
  induction rows generalizing shown with
  | nil =>
      rw [List.mapM_nil, Option.pure_def, Option.some.injEq] at h
      subst h
      exact ⟨rfl, nofun⟩
  | cons r rows ih =>
      simp only [List.mapM_cons, Option.bind_eq_bind, Option.bind_eq_some_iff, Option.pure_def,
        Option.map_eq_some_iff, Option.some.injEq] at h
      obtain ⟨_, ⟨eval, heval, rfl⟩, rest, hrest, rfl⟩ := h
      obtain ⟨hfst, hall⟩ := ih hrest
      exact ⟨by rw [List.map_cons, hfst], List.forall_mem_cons.mpr ⟨by rw [heval]; rfl, hall⟩⟩

theorem exists_mapM_evaluation {rows : List (Submission α)}
    (h : ∀ r ∈ rows, (evaluation qs r).isSome = true) :
    ∃ shown, (rows.mapM fun r => (evaluation qs r).map (r, ·)) = some shown := by
  induction rows with
  | nil => exact ⟨[], rfl⟩
  | cons r rows ih =>
      rw [List.forall_mem_cons] at h
      obtain ⟨eval, heval⟩ := Option.isSome_iff_exists.mp h.1
      obtain ⟨rest, hrest⟩ := ih h.2
      exact ⟨(r, eval) :: rest, by rw [List.mapM_cons, heval, hrest]; rfl⟩

theorem eq_of_checked32 {n m : Int} (h : checked32 n = some m) : n = m := by
  unfold checked32 at h
  split at h
  · exact Option.some.inj h
  · cases h

end

/-! ### Everyone once -/

/-- A form that asks for the page `p`. -/
structure Asks (search perPage : Bytes) (q : StringMap) (p : Nat) : Prop where
  page : (stoi (fieldOr q (str "page") [])).map Int32.toInt = some (p : Int)
  perPage : fieldOr q (str "per_page") [] = perPage
  search : fieldOr q (str "search") [] = search

/-- The number of pages, of which there is at least one. -/
def pagesOf {α : Type} (ilike : Bytes → Bytes → Bool) (t : Submissions α) (search perPage : Bytes) :
    Nat := max 1 (Pages.pageCount (perPageOf perPage).toNat (t.matching ilike search))

/-! ### One page -/

section

variable {α : Type} {ilike : Bytes → Bytes → Bool} {qs : List Question} {t : Submissions α}
  {search perPage : Bytes} {q : StringMap} {p : Nat} {arranged : List (Submission α)}

theorem pageOf_bounds (q : StringMap) : 1 ≤ pageOf q ∧ pageOf q ≤ 1000000 := by
  unfold pageOf
  dsimp only
  split_ifs <;> omega

theorem perPageOf_bounds (text : Bytes) : 1 ≤ perPageOf text ∧ perPageOf text ≤ 500 := by
  unfold perPageOf
  dsimp only
  split_ifs <;> omega

theorem Asks.pageOf_eq {search perPage : Bytes} {q : StringMap} {p : Nat}
    (h : Asks search perPage q p) (hp : 1 ≤ p) : pageOf q = min p 1000000 := by
  rw [pageOf, h.page]
  simp only [Option.getD_some]
  split_ifs <;> omega

/-- What an answer shows is its page of the rows, and all of it has been graded. -/
theorem submissions_of_cekHasilApi {a : ResultsPage α} (hasks : Asks search perPage q p)
    (h : cekHasilApi ilike qs t arranged q = some a) :
    a.submissions.map Prod.fst =
        Pages.page (perPageOf perPage).toNat ((pageOf q).toNat - 1) arranged ∧
      ∀ r ∈ Pages.page (perPageOf perPage).toNat ((pageOf q).toNat - 1) arranged,
        (evaluation qs r).isSome = true := by
  have hpage := pageOf_bounds q
  have hper := perPageOf_bounds perPage
  simp only [cekHasilApi, hasks.perPage, Option.bind_eq_bind, Option.bind_eq_some_iff, Option.pure_def,
    Option.some.injEq] at h
  obtain ⟨_, -, _, -, before, hbefore, offset, hoffset, shown, hshown, rfl⟩ := h
  obtain rfl := eq_of_checked32 hbefore
  obtain rfl := eq_of_checked32 hoffset
  have hindex : ((pageOf q - 1) * perPageOf perPage).toNat =
      ((pageOf q).toNat - 1) * (perPageOf perPage).toNat := by
    rw [Int.toNat_mul (by omega) (by omega)]
    congr 1
    omega
  rw [hindex] at hshown
  exact mapM_evaluation hshown

/-- With few submissions, nothing overflows. -/
theorem exists_cekHasilApi (hasks : Asks search perPage q p)
    (hfew : (t.matching ilike search).length ≤ 1000000 * (perPageOf perPage).toNat)
    (hgraded : ∀ r ∈ Pages.page (perPageOf perPage).toNat ((pageOf q).toNat - 1) arranged,
      (evaluation qs r).isSome = true) :
    ∃ a, cekHasilApi ilike qs t arranged q = some a ∧
      a.total = (t.matching ilike search).length ∧ a.totalPages = pagesOf ilike t search perPage := by
  have hpage := pageOf_bounds q
  obtain ⟨n, hn⟩ := Int.eq_ofNat_of_zero_le (show 0 ≤ perPageOf perPage by
    have hper := perPageOf_bounds perPage
    omega)
  obtain ⟨k, hk⟩ := Int.eq_ofNat_of_zero_le (show 0 ≤ pageOf q - 1 by omega)
  have hper : 1 ≤ n ∧ n ≤ 500 := by
    have hper := perPageOf_bounds perPage
    omega
  have hindex : (pageOf q).toNat - 1 = k := by omega
  rw [hn, Int.toNat_natCast] at hfew
  rw [hn, Int.toNat_natCast, hindex] at hgraded
  obtain ⟨shown, hshown⟩ := exists_mapM_evaluation hgraded
  have hmul : k * n ≤ 999999 * 500 := Nat.mul_le_mul (by omega) hper.2
  have hoffset : ((k : Int) * n) = ((k * n : Nat) : Int) := (Nat.cast_mul k n).symm
  have hbefore : checked32 (pageOf q - 1) = some (k : Int) := by
    rw [hk]
    exact if_pos (by omega)
  have hchecked : checked32 ((k : Int) * n) = some ((k * n : Nat) : Int) := by
    rw [hoffset]
    exact if_pos (by omega)
  generalize hrows : t.matching ilike search = rows at hfew
  have htotal : ((stoi (natText rows.length)).map Int32.toInt).getD 0 = rows.length := by
    rw [stoi_natText (by omega), Option.getD_some]
  have hsum : checked32 (rows.length + n) = some (rows.length + n : Int) := if_pos (by omega)
  have hless : checked32 (rows.length + n - 1) = some (rows.length + n - 1 : Int) := if_pos (by omega)
  have hpages : (if (rows.length + n - 1 : Int).tdiv n < 1 then 1
      else (rows.length + n - 1 : Int).tdiv n) = (max 1 (Pages.pageCount n rows) : Nat) := by
    have hcast : ((rows.length + n - 1 : Nat) : Int) = rows.length + n - 1 := by omega
    rw [Int.tdiv_eq_ediv_of_nonneg (by omega), ← hcast, ← Int.natCast_ediv, ← Pages.pageCount]
    split_ifs <;> omega
  refine ⟨⟨shown, pageOf q, n, rows.length, (max 1 (Pages.pageCount n rows) : Nat)⟩, ?_, rfl, ?_⟩
  · unfold cekHasilApi
    dsimp only
    rw [hasks.perPage, hasks.search, hrows, hn, htotal, hsum, Option.bind_eq_bind, Option.bind_some,
      hless, Option.bind_some, hbefore, Option.bind_some, hchecked, Option.bind_some, Int.toNat_natCast,
      Int.toNat_natCast, ← Pages.page, hshown, Option.bind_eq_bind, Option.bind_some, hpages,
      Option.pure_def]
  · rw [pagesOf, hrows, hn, Int.toNat_natCast]

theorem shownRows_eq {a : ResultsPage α} (hasks : Asks search perPage q p)
    (h : cekHasilApi ilike qs t arranged q = some a) :
    shownRows ilike qs t arranged q =
      Pages.page (perPageOf perPage).toNat ((pageOf q).toNat - 1) arranged := by
  rw [shownRows, h]
  exact (submissions_of_cekHasilApi hasks h).1

theorem pagesOf_le
    (hfew : (t.matching ilike search).length ≤ 1000000 * (perPageOf perPage).toNat) :
    pagesOf ilike t search perPage ≤ 1000000 := by
  have hper := perPageOf_bounds perPage
  have hcount : Pages.pageCount (perPageOf perPage).toNat (t.matching ilike search) ≤ 1000000 := by
    rw [Pages.pageCount, Nat.div_le_iff_le_mul (by omega)]
    omega
  rw [pagesOf]
  omega

theorem total_lt_of_cekHasilApi {a : ResultsPage α}
    (h : cekHasilApi ilike qs t arranged q = some a) : a.total < 2 ^ 31 := by
  simp only [cekHasilApi, Option.bind_eq_bind, Option.bind_eq_some_iff, Option.pure_def,
    Option.some.injEq] at h
  obtain ⟨_, -, _, -, _, -, _, -, _, -, rfl⟩ := h
  dsimp only
  cases stoi (natText (t.matching ilike (fieldOr q (str "search") [])).length) with
  | none => simp
  | some n => exact n.toInt_lt

/-- The form that asks for a page. -/
def pageForm (search perPage : Bytes) (p : Nat) : StringMap :=
  ((OrderedMap.empty.insert (str "page") (natText p)).insert (str "per_page") perPage).insert
    (str "search") search

theorem asks_pageForm (search perPage : Bytes) {p : Nat} (h : p < 2 ^ 31) :
    Asks search perPage (pageForm search perPage p) p := by
  have hpage : str "page" ≠ str "search" ∧ str "page" ≠ str "per_page" := by decide
  have hper : str "per_page" ≠ str "search" := by decide
  refine ⟨?_, ?_, ?_⟩
  · rw [fieldOr, pageForm, OrderedMap.find?_insert_of_ne hpage.1,
      OrderedMap.find?_insert_of_ne hpage.2, OrderedMap.find?_insert_self, Option.getD_some,
      stoi_natText h]
  · rw [fieldOr, pageForm, OrderedMap.find?_insert_of_ne hper, OrderedMap.find?_insert_self,
      Option.getD_some]
  · rw [fieldOr, pageForm, OrderedMap.find?_insert_self, Option.getD_some]

end

/-! ### All pages -/

section

variable {α : Type} [LinearOrder α] (ilike : Bytes → Bytes → Bool) (qs : List Question)
  (t : Submissions α) (search perPage : Bytes)

/-- For every order of the rows that a query leaves tied, the answers tell the number of submissions
and the pages together show each of them once. -/
structure ShowsOnce : Prop where
  answers : ∀ q p arranged, 1 ≤ p → p ≤ pagesOf ilike t search perPage → Asks search perPage q p →
    Pages.Arranged Submission.score (t.matching ilike search) arranged →
      ∃ a, cekHasilApi ilike qs t arranged q = some a ∧
        a.total = (t.matching ilike search).length ∧
        a.totalPages = pagesOf ilike t search perPage
  once : ∀ (queries : Nat → StringMap) (arranged : Nat → List (Submission α)),
    (∀ k < pagesOf ilike t search perPage, Asks search perPage (queries k) (k + 1)) →
    (∀ k, Pages.Arranged Submission.score (t.matching ilike search) (arranged k)) →
      ((List.range (pagesOf ilike t search perPage)).flatMap fun k =>
        shownRows ilike qs t (arranged k) (queries k)).Perm (t.matching ilike search)

/-- All answers can be graded, the last page can be asked for, and no score goes over the end of a
page. -/
structure OnWholePages : Prop where
  graded : ∀ r ∈ t.matching ilike search, (evaluation qs r).isSome = true
  few : (t.matching ilike search).length ≤ 1000000 * (perPageOf perPage).toNat
  whole : ∀ r ∈ t.matching ilike search,
    ¬ Pages.Straddles Submission.score (perPageOf perPage).toNat (t.matching ilike search) r

variable {ilike qs t search perPage}

theorem showsOnce_of_onWholePages (h : OnWholePages ilike qs t search perPage) :
    ShowsOnce ilike qs t search perPage := by
  have hper := perPageOf_bounds perPage
  have hgraded : ∀ {arranged : List (Submission α)} {k : Nat},
      Pages.Arranged Submission.score (t.matching ilike search) arranged →
        ∀ r ∈ Pages.page (perPageOf perPage).toNat k arranged, (evaluation qs r).isSome = true :=
    fun harranged r hr => h.graded r (harranged.perm.mem_iff.mp
      (List.mem_of_mem_drop (List.mem_of_mem_take hr)))
  have hanswers : ∀ q p arranged, Asks search perPage q p →
      Pages.Arranged Submission.score (t.matching ilike search) arranged →
        ∃ a, cekHasilApi ilike qs t arranged q = some a ∧
          a.total = (t.matching ilike search).length ∧
          a.totalPages = pagesOf ilike t search perPage :=
    fun q p arranged hasks harranged => exists_cekHasilApi hasks h.few (hgraded harranged)
  refine ⟨fun q p arranged _ _ => hanswers q p arranged, ?_⟩
  intro queries arranged hasks harranged
  have hpages := pagesOf_le h.few
  have hshown : ∀ k ∈ List.range (pagesOf ilike t search perPage),
      shownRows ilike qs t (arranged k) (queries k) =
        Pages.page (perPageOf perPage).toNat k (arranged k) := by
    intro k hk
    rw [List.mem_range] at hk
    obtain ⟨a, ha, -⟩ := hanswers _ _ _ (hasks k hk) (harranged k)
    have hindex : (pageOf (queries k)).toNat - 1 = k := by
      rw [(hasks k hk).pageOf_eq (by omega)]
      omega
    rw [shownRows_eq (hasks k hk) ha, hindex]
  rw [List.flatMap_congr hshown]
  have hpartition := Pages.perm_flatMap_page harranged h.whole (by omega)
  by_cases hnone : Pages.pageCount (perPageOf perPage).toNat (t.matching ilike search) = 0
  · -- the page of an exam without submissions is empty
    have hlength := Pages.length_le_pageCount_mul
      (show 0 < (perPageOf perPage).toNat by omega) (t.matching ilike search)
    rw [hnone, Nat.zero_mul, Nat.le_zero, List.length_eq_zero_iff] at hlength
    have hempty : arranged 0 = [] := List.perm_nil.mp (hlength ▸ (harranged 0).perm)
    have hone : pagesOf ilike t search perPage = 1 := by rw [pagesOf, hnone]; rfl
    rw [hone, hlength]
    simp [Pages.page, hempty]
  · have hcount : pagesOf ilike t search perPage =
        Pages.pageCount (perPageOf perPage).toNat (t.matching ilike search) := by
      rw [pagesOf]
      omega
    rwa [hcount]

namespace ShowsOnce

variable {arranged : List (Submission α)}

theorem pagesOf_lt (h : ShowsOnce ilike qs t search perPage) :
    pagesOf ilike t search perPage < 2 ^ 31 := by
  have hper := perPageOf_bounds perPage
  obtain ⟨L, hL⟩ := Pages.exists_arranged Submission.score (t.matching ilike search)
  obtain ⟨a, ha, htotal, -⟩ := h.answers _ 1 L le_rfl (le_max_left _ _)
    (asks_pageForm search perPage (by decide)) hL
  have hlt := total_lt_of_cekHasilApi ha
  have hcount := Pages.pageCount_le (show 0 < (perPageOf perPage).toNat by omega)
    (t.matching ilike search)
  rw [pagesOf]
  omega

/-- What the form for a page shows; the form for a page behind the millionth shows the millionth. -/
theorem page_shown (h : ShowsOnce ilike qs t search perPage) {k : Nat}
    (hk : k < pagesOf ilike t search perPage)
    (harranged : Pages.Arranged Submission.score (t.matching ilike search) arranged) :
    shownRows ilike qs t arranged (pageForm search perPage (k + 1)) =
        Pages.page (perPageOf perPage).toNat (min (k + 1) 1000000 - 1) arranged ∧
      ∀ r ∈ Pages.page (perPageOf perPage).toNat (min (k + 1) 1000000 - 1) arranged,
        (evaluation qs r).isSome = true := by
  have hlt := h.pagesOf_lt
  have hasks := asks_pageForm search perPage (show k + 1 < 2 ^ 31 by omega)
  obtain ⟨a, ha, -⟩ := h.answers _ (k + 1) arranged (by omega) (by omega) hasks harranged
  have hindex : (pageOf (pageForm search perPage (k + 1))).toNat - 1 = min (k + 1) 1000000 - 1 := by
    rw [hasks.pageOf_eq (by omega)]
    omega
  rw [shownRows_eq hasks ha, ← hindex]
  exact ⟨rfl, (submissions_of_cekHasilApi hasks ha).2⟩

/-- No row is on two of the pages that are shown. -/
theorem not_shown_twice (h : ShowsOnce ilike qs t search perPage)
    {arranged : Nat → List (Submission α)}
    (harranged : ∀ k, Pages.Arranged Submission.score (t.matching ilike search) (arranged k))
    {j k : Nat} {r : Submission α} (hjk : j < k) (hk : k < pagesOf ilike t search perPage)
    (hj : r ∈ Pages.page (perPageOf perPage).toNat (min (j + 1) 1000000 - 1) (arranged j)) :
    r ∉ Pages.page (perPageOf perPage).toNat (min (k + 1) 1000000 - 1) (arranged k) := by
  intro hr
  have hlt := h.pagesOf_lt
  have hperm := h.once (fun k => pageForm search perPage (k + 1)) arranged
    (fun k hk => asks_pageForm search perPage (by omega)) harranged
  have hrows : (t.matching ilike search).Nodup := t.ids.of_map.filter _
  refine Pages.not_nodup_flatMap (a := r) hjk hk ?_ ?_ (hperm.nodup_iff.mpr hrows)
  · rw [(h.page_shown (by omega) (harranged j)).1]
    exact hj
  · rw [(h.page_shown hk (harranged k)).1]
    exact hr

end ShowsOnce

theorem onWholePages_of_showsOnce (h : ShowsOnce ilike qs t search perPage) :
    OnWholePages ilike qs t search perPage := by
  have hper := perPageOf_bounds perPage
  have hn : 0 < (perPageOf perPage).toNat := by omega
  obtain ⟨L, hL⟩ := Pages.exists_arranged Submission.score (t.matching ilike search)
  have hcount : Pages.pageCount (perPageOf perPage).toNat (t.matching ilike search) ≤
      pagesOf ilike t search perPage := le_max_right _ _
  have hbound := Pages.length_le_pageCount_mul hn (t.matching ilike search)
  have hfew : (t.matching ilike search).length ≤ 1000000 * (perPageOf perPage).toNat := by
    by_contra hmany
    rw [not_le] at hmany
    have hpages : 1000000 < Pages.pageCount (perPageOf perPage).toNat (t.matching ilike search) :=
      Nat.lt_of_mul_lt_mul_right (hmany.trans_le hbound)
    -- the pages 1000000 and 1000001 are the same
    have hlast : 999999 * (perPageOf perPage).toNat < L.length := by
      rw [hL.perm.length_eq]
      omega
    have hmem : L[999999 * (perPageOf perPage).toNat] ∈
        Pages.page (perPageOf perPage).toNat 999999 L :=
      Pages.mem_page_iff.mpr ⟨0, hn, by rw [Nat.add_zero, List.getElem?_eq_getElem hlast]⟩
    exact h.not_shown_twice (fun _ => hL) (show 999999 < 1000000 by decide) (by omega) hmem hmem
  have hpages := pagesOf_le hfew
  refine ⟨?_, hfew, ?_⟩
  · intro r hr
    obtain ⟨i, hi⟩ := List.mem_iff_getElem?.mp (hL.perm.mem_iff.mpr hr)
    have hlt : i < (t.matching ilike search).length := by
      rw [← hL.perm.length_eq]
      exact (List.getElem?_eq_some_iff.mp hi).1
    have hplace : r ∈ Pages.page (perPageOf perPage).toNat (i / (perPageOf perPage).toNat) L :=
      Pages.mem_page_iff.mpr
        ⟨i % (perPageOf perPage).toNat, Nat.mod_lt i hn, by rw [Nat.div_add_mod' i, hi]⟩
    have hk : i / (perPageOf perPage).toNat <
        Pages.pageCount (perPageOf perPage).toNat (t.matching ilike search) :=
      (Nat.div_lt_iff_lt_mul hn).mpr (hlt.trans_le hbound)
    generalize i / (perPageOf perPage).toNat = k at hplace hk
    have hindex : min (k + 1) 1000000 - 1 = k := by omega
    refine (h.page_shown (show k < pagesOf ilike t search perPage by omega) hL).2 r ?_
    rwa [hindex]
  · intro r hr hover
    obtain ⟨arranged, harranged, k, b, hk, hfirst, hsecond⟩ := Pages.exists_shown_twice hover
    have hindex : ∀ j ≤ k + 1, min (j + 1) 1000000 - 1 = j := fun j hj => by omega
    refine h.not_shown_twice harranged (Nat.lt_succ_self k) (by omega) ?_ (r := b) ?_
    · rw [hindex k (by omega)]
      exact hfirst
    · rw [hindex (k + 1) le_rfl]
      exact hsecond

/-- The pages show everyone once exactly if all answers can be graded, there are at most a million
pages, and no score goes over the end of a page. -/
theorem showsOnce_iff (ilike : Bytes → Bytes → Bool) (qs : List Question) (t : Submissions α)
    (search perPage : Bytes) :
    ShowsOnce ilike qs t search perPage ↔ OnWholePages ilike qs t search perPage :=
  ⟨onWholePages_of_showsOnce, showsOnce_of_onWholePages⟩

end

/-- Two students with the same score. -/
def tiedRows : Submissions Int where
  rows :=
    [{ id := 1, studentName := some (str "Ana"), answersJson := some (str "\x7b\x7d"), score := (80 : Int) },
      { id := 2, studentName := some (str "Budi"), answersJson := some (str "\x7b\x7d"), score := (80 : Int) }]
  ids := by decide

/-- On pages of one row, one of the two may be on both. -/
theorem not_showsOnce : ¬ ShowsOnce (fun _ _ => true) [] tiedRows [] (str "1") := by
  intro h
  have hrows : tiedRows.matching (fun _ _ => true) [] = tiedRows.rows := by rfl
  have hper : (perPageOf (str "1")).toNat = 1 := by decide
  have hwhole := (onWholePages_of_showsOnce h).whole
  rw [hrows, hper] at hwhole
  exact hwhole _ List.mem_cons_self ⟨1, by decide, by decide⟩

end ExamVan.Public
