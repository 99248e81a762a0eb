import ExamVan.Api.Body
import ExamVan.Http.Router
import ExamVan.Lib.Double
import ExamVan.Lib.Pages
import ExamVan.Middleware.Version
import ExamVan.Models.Exam

/-!
# The list of exams

`list_exams` answers with one page of the exams. Whatever page and size a query asks for, the numbers
stay in the range of their types, and the pages are a partition of the list.
-/

namespace ExamVan.Api

open ByteString Queue Models Http

/-! ### Numbers of a query -/

/-- The handler's own `decode`, which is `url_decode`. -/
def decodeComponent (raw : Bytes) : Bytes := urlDecode raw

/-- What `std::stoi` does not read. -/
def stoiUnread (s : Bytes) : Bytes :=
  match s.dropWhile isSpace with
  | [] => []
  | c :: t => if c = chr '-' ∨ c = chr '+' then t.dropWhile isDigit else (c :: t).dropWhile isDigit

/-- `used` -/
def stoiUsed (s : Bytes) : Nat := s.length - (stoiUnread s).length

/-- `parse_positive` -/
def parsePositive (query key : Bytes) (fallback : Int) : Int :=
  match (query.splitOn (chr '&')).find? fun part =>
      chr '=' ∈ part && decodeComponent (part.takeWhile (· ≠ chr '=')) = key with
  | none => fallback
  | some part =>
      let valueText := decodeComponent (part.dropWhile (· ≠ chr '=')).tail
      match stoi valueText with
      | none => fallback
      | some value =>
          if stoiUsed valueText ≠ valueText.length ∨ value ≤ 0 then fallback else value.toInt

def pageParam (query : Bytes) : Int := parsePositive query (str "page") 1

def perPageParam (query : Bytes) : Int := min (parsePositive query (str "per_page") 50) 200

/-! ### The page -/

/-- An `int`; there is none where the arithmetic overflows. -/
def checked32 (n : Int) : Option Int := if -2 ^ 31 ≤ n ∧ n < 2 ^ 31 then some n else none

/-- An `int64_t`. -/
def checked64 (n : Int) : Option Int := if -2 ^ 63 ≤ n ∧ n < 2 ^ 63 then some n else none

/-- `static_cast<int>` -/
def castInt (n : Int) : Int := (Int32.ofInt n).toInt

structure Listing where
  data : List Exam
  page : Int
  perPage : Int
  total : Int
  totalPages : Int
  deriving DecidableEq

/-- The loop over the page, for `n` rounds from `i`; there is nothing outside of the list. -/
def rows (exams : List Exam) : Nat → Int → Option (List Exam)
  | 0, _ => some []
  | n + 1, i =>
      if i < 0 then none
      else match exams[i.toNat]? with
      | none => none
      | some e => (rows exams n (i + 1)).map (e :: ·)

def totalPages (total perPage : Int) : Option Int :=
  if total = 0 then some 0
  else do
    let sum ← checked32 (total + perPage)
    let sum ← checked32 (sum - 1)
    return sum.tdiv perPage

def listing (exams : List Exam) (query : Bytes) : Option Listing := do
  let page := pageParam query
  let perPage := perPageParam query
  let total := castInt exams.length
  let pages ← totalPages total perPage
  let before ← checked32 (page - 1)
  let offset ← checked64 (before * perPage)
  let start := castInt (min total offset)
  let stop ← checked32 (start + perPage)
  let data ← rows exams (min total stop - start).toNat start
  return { data, page, perPage, total, totalPages := pages }

/-- `size_mb` -/
def sizeMb (size : Int64) : Bytes := fixedTwo (nearest size.toInt / (1024 * 1024))

def examObject (e : Exam) : Bytes :=
  str "\x7b\"id\":" ++ intText e.id.toInt ++ str ",\"name\":" ++ quoted e.name ++
    str ",\"status\":" ++ quoted e.status ++ str ",\"size_mb\":" ++ sizeMb e.sizeBytes ++
    str ",\"created_at\":" ++ quoted e.createdAt ++ str "\x7d"

def Listing.text (l : Listing) : Bytes :=
  str "\x7b\"data\":[" ++ [chr ','].intercalate (l.data.map examObject) ++
    str "],\"pagination\":\x7b\"page\":" ++ intText l.page ++ str ",\"per_page\":" ++ intText l.perPage ++
    str ",\"total\":" ++ intText l.total ++ str ",\"total_pages\":" ++ intText l.totalPages ++
    str "\x7d,\"success\":true\x7d"

/-- `list_exams` with an answer in JSON. No version is required. -/
def listExams (exams : List Exam) (req : Request) : Option Response :=
  let cv := (req.headers.find? (str "X-App-Version")).getD []
  let required : Bytes := []
  if Middleware.shouldBlockVersion cv required then
    some ⟨426, str "\x7b\"success\":false,\"message\":\"Versi aplikasi Anda (" ++ cv ++
      str ") sudah tidak didukung. Silakan download versi terbaru (" ++ required ++
      str ") dari halaman Download.\"\x7d"⟩
  else (listing exams req.query).map fun l => ⟨200, l.text⟩

/-! ### One page -/

theorem parsePositive_bounds (query key : Bytes) {fallback : Int}
    (h : 1 ≤ fallback ∧ fallback < 2 ^ 31) :
    1 ≤ parsePositive query key fallback ∧ parsePositive query key fallback < 2 ^ 31 := by
  unfold parsePositive
  split
  next => exact h
  next =>
    dsimp only
    split
    next => exact h
    next value _ =>
      split
      next => exact h
      next hpos =>
        rw [not_or, Int32.le_iff_toInt_le, not_le] at hpos
        exact ⟨hpos.2, value.toInt_lt⟩

theorem pageParam_bounds (query : Bytes) : 1 ≤ pageParam query ∧ pageParam query < 2 ^ 31 :=
  parsePositive_bounds query _ (by decide)

theorem perPageParam_bounds (query : Bytes) : 1 ≤ perPageParam query ∧ perPageParam query ≤ 200 := by
  have hbounds := (@parsePositive_bounds query (str "per_page") 50 (by decide)).1
  unfold perPageParam
  omega

theorem castInt_eq {n : Int} (h : -2 ^ 31 ≤ n ∧ n < 2 ^ 31) : castInt n = n :=
  Int32.toInt_ofInt_of_le h.1 h.2

theorem rows_eq {exams : List Exam} {n start : Nat} (h : start + n ≤ exams.length) :
    rows exams n start = some ((exams.drop start).take n) := by
  induction n generalizing start with
  | zero => rw [rows, List.take_zero]
  | succ n ih =>
      have hlt : start < exams.length := by omega
      have hnext : rows exams n (start + 1 : Nat) = _ := ih (by omega)
      rw [rows, if_neg (by omega), Int.toNat_natCast, List.getElem?_eq_getElem hlt,
        List.drop_eq_getElem_cons hlt, List.take_succ_cons]
      rw [Nat.cast_add, Nat.cast_one] at hnext
      simp only [hnext, Option.map_some]

theorem totalPages_eq {exams : List Exam} (hsize : exams.length < 2 ^ 31 - 201) {n : Nat}
    (hn : 1 ≤ n ∧ n ≤ 200) :
    totalPages exams.length n = some (Pages.pageCount n exams : Int) := by
  unfold totalPages
  split
  next hnil =>
    have hlength : exams.length = 0 := by omega
    rw [Pages.pageCount, hlength, Nat.div_eq_of_lt (by omega)]
    rfl
  next hne =>
    have hsum : checked32 (exams.length + n) = some (exams.length + n : Int) :=
      if_pos (by omega)
    have hless : checked32 (exams.length + n - 1) = some (exams.length + n - 1 : Int) :=
      if_pos (by omega)
    rw [hsum, Option.bind_eq_bind, Option.bind_some, hless, Option.bind_some]
    have hdiv : ((exams.length + n - 1 : Nat) : Int) = exams.length + n - 1 := by omega
    rw [Int.tdiv_eq_ediv_of_nonneg (by omega), ← hdiv, Pages.pageCount, Int.natCast_ediv]
    rfl

theorem page_eq_take (exams : List Exam) (n k : Nat) :
    (exams.drop (min exams.length (k * n))).take
        (min exams.length (min exams.length (k * n) + n) - min exams.length (k * n)) =
      Pages.page n k exams := by
  rw [Pages.page]
  by_cases hend : exams.length ≤ k * n
  · rw [List.drop_of_length_le hend, min_eq_left hend, List.drop_length, List.take_nil, List.take_nil]
  · have hstart : min exams.length (k * n) = k * n := min_eq_right (by omega)
    rw [hstart, List.take_eq_take_iff, List.length_drop]
    omega

/-- What is shown for a query: its page, and no step overflows. -/
theorem listing_eq {exams : List Exam} (hsize : exams.length < 2 ^ 31 - 201) (query : Bytes) :
    listing exams query = some
      { data := Pages.page (perPageParam query).toNat ((pageParam query).toNat - 1) exams
        page := pageParam query
        perPage := perPageParam query
        total := exams.length
        totalPages := Pages.pageCount (perPageParam query).toNat exams } := by
  have hpage := pageParam_bounds query
  have hper := perPageParam_bounds query
  obtain ⟨k, hk⟩ := Int.eq_ofNat_of_zero_le (show 0 ≤ pageParam query - 1 by omega)
  obtain ⟨n, hn⟩ := Int.eq_ofNat_of_zero_le (show 0 ≤ perPageParam query by omega)
  have hindex : (pageParam query).toNat - 1 = k := by omega
  have hmul : k * n ≤ k * 200 := Nat.mul_le_mul_left k (by omega)
  have hoffset : ((k : Int) * n) = ((k * n : Nat) : Int) := (Nat.cast_mul k n).symm
  have hbefore : checked32 (pageParam query - 1) = some (k : Int) := by
    rw [hk]
    exact if_pos (by omega)
  have hchecked : checked64 ((k : Int) * n) = some ((k * n : Nat) : Int) := by
    rw [hoffset]
    exact if_pos (by omega)
  have htotal : castInt exams.length = exams.length := castInt_eq (by omega)
  have hstart : castInt (min (exams.length : Int) (k * n : Nat)) =
      ((min exams.length (k * n) : Nat) : Int) := by
    rw [← Nat.cast_min]
    exact castInt_eq (by omega)
  have hstop : checked32 (((min exams.length (k * n) : Nat) : Int) + n) =
      some ((min exams.length (k * n) + n : Nat) : Int) := by
    rw [← Nat.cast_add]
    exact if_pos (by omega)
  have hcount : (min (exams.length : Int) ((min exams.length (k * n) + n : Nat) : Int) -
      ((min exams.length (k * n) : Nat) : Int)).toNat =
      min exams.length (min exams.length (k * n) + n) - min exams.length (k * n) := by
    omega
  have hrows := @rows_eq exams
    (min exams.length (min exams.length (k * n) + n) - min exams.length (k * n))
    (min exams.length (k * n)) (by omega)
  unfold listing
  dsimp only
  rw [htotal, hn, totalPages_eq hsize (by omega), Option.bind_eq_bind, Option.bind_some, hbefore,
    Option.bind_some, hchecked, Option.bind_some, hstart, hstop, Option.bind_some, hcount, hrows,
    Option.bind_eq_bind, Option.bind_some, page_eq_take, hindex, Int.toNat_natCast,
    Option.pure_def]

/-- What is shown for a query. -/
def shown (exams : List Exam) (query : Bytes) : List Exam :=
  ((listing exams query).map Listing.data).getD []

theorem shown_eq {exams : List Exam} (hsize : exams.length < 2 ^ 31 - 201) (query : Bytes) :
    shown exams query =
      Pages.page (perPageParam query).toNat ((pageParam query).toNat - 1) exams := by
  rw [shown, listing_eq hsize]
  rfl

theorem listExams_eq {exams : List Exam} (hsize : exams.length < 2 ^ 31 - 201) (req : Request) :
    listExams exams req = some ⟨200, Listing.text
      { data := shown exams req.query
        page := pageParam req.query
        perPage := perPageParam req.query
        total := exams.length
        totalPages := Pages.pageCount (perPageParam req.query).toNat exams }⟩ := by
  unfold listExams Middleware.shouldBlockVersion
  rw [shown_eq hsize]
  simp only [if_true, ite_self, Bool.false_eq_true, if_false, listing_eq hsize, Option.map_some]

/-! ### Asking for a page -/

theorem stoiUsed_natText (n : Nat) : stoiUsed (natText n) = (natText n).length := by
  have hdigits : ∀ c ∈ natText n, isDigit c = true := fun c hc => isDigit_of_mem_natText hc
  have hunread : stoiUnread (natText n) = [] := by
    obtain ⟨c, t, htext⟩ := List.exists_cons_of_ne_nil (natText_ne_nil n)
    rw [htext] at hdigits ⊢
    have hc : isDigit c = true := hdigits c List.mem_cons_self
    have hsign : ¬ (c = chr '-' ∨ c = chr '+') := by
      rintro (rfl | rfl) <;> exact absurd hc (by decide)
    rw [stoiUnread, List.dropWhile_cons_of_neg (by simp [not_isSpace_of_isDigit hc])]
    dsimp only
    rw [if_neg hsign, List.dropWhile_eq_nil_iff]
    exact hdigits
  rw [stoiUsed, hunread, List.length_nil, Nat.sub_zero]

/-- A parameter that is a positive number is that number. -/
theorem parsePositive_natText {query key : Bytes} {n : Nat} (fallback : Int)
    (hpart : (query.splitOn (chr '&')).find? (fun part =>
      chr '=' ∈ part && decodeComponent (part.takeWhile (· ≠ chr '=')) = key) =
        some (key ++ chr '=' :: natText n))
    (hkey : chr '=' ∉ key) (hn : 1 ≤ n ∧ n < 2 ^ 31) : parsePositive query key fallback = n := by
  have hdigits : ∀ c ∈ natText n, isDigit c = true := fun c hc => isDigit_of_mem_natText hc
  have hvalue : ((key ++ chr '=' :: natText n).dropWhile (· ≠ chr '=')).tail = natText n := by
    have hbefore : ∀ c ∈ key, decide (c ≠ chr '=') = true := fun c hc =>
      decide_eq_true fun heq => hkey (heq ▸ hc)
    rw [List.dropWhile_append_of_pos hbefore, List.dropWhile_cons_of_neg (by simp), List.tail_cons]
  have hdecode : decodeComponent (natText n) = natText n := urlDecode_eq_self fun c hc =>
    ⟨fun heq => absurd (heq ▸ hdigits c hc) (by decide), fun heq => absurd (heq ▸ hdigits c hc) (by decide)⟩
  have hread : stoi (natText n) = some (Int32.ofInt n) := by
    rw [stoi_digits (natText_ne_nil n) hdigits, digitsValue_natText, if_pos hn.2]
  have hint : (Int32.ofInt n).toInt = n := Int32.toInt_ofInt_of_le (by omega) (by omega)
  rw [parsePositive, hpart]
  dsimp only
  rw [hvalue, hdecode, hread]
  dsimp only
  rw [stoiUsed_natText, if_neg, hint]
  rw [not_or, Int32.le_iff_toInt_le, hint, not_le]
  exact ⟨fun h => h rfl, lt_of_lt_of_le (by decide) (Int.ofNat_le.mpr hn.1)⟩

/-- The text that asks for a page of a size. -/
def pageQuery (k n : Nat) : Bytes :=
  (str "page=" ++ natText k) ++ chr '&' :: (str "per_page=" ++ natText n)

theorem params_pageQuery {k n : Nat} (hk : 1 ≤ k ∧ k < 2 ^ 31) (hn : 1 ≤ n ∧ n ≤ 200) :
    pageParam (pageQuery k n) = k ∧ perPageParam (pageQuery k n) = n := by
  have hnone : ∀ (m : Nat) (c : UInt8), isDigit c = false → c ∉ natText m := by
    intro m c hc hmem
    rw [isDigit_of_mem_natText hmem] at hc
    cases hc
  have hand : ∀ (name : Bytes) (m : Nat), chr '&' ∉ name → chr '&' ∉ name ++ natText m :=
    fun name m hname hmem =>
      (List.mem_append.mp hmem).elim hname (hnone m _ (by decide))
  have hsplit : (pageQuery k n).splitOn (chr '&') =
      [str "page" ++ chr '=' :: natText k, str "per_page" ++ chr '=' :: natText n] := by
    rw [pageQuery, List.splitOn_append_cons_self, List.splitOn_eq_singleton (hand _ k (by decide)),
      List.splitOn_eq_singleton (hand _ n (by decide))]
    rfl
  have hname : ∀ (name : Bytes) (m : Nat), chr '=' ∉ name →
      (name ++ chr '=' :: natText m).takeWhile (· ≠ chr '=') = name := by
    intro name m hname
    have hbefore : ∀ c ∈ name, decide (c ≠ chr '=') = true := fun c hc =>
      decide_eq_true fun heq => hname (heq ▸ hc)
    rw [List.takeWhile_append_of_pos hbefore, List.takeWhile_cons_of_neg (by simp), List.append_nil]
  constructor
  · refine parsePositive_natText 1 ?_ (by decide) hk
    rw [hsplit, List.find?_cons_of_pos]
    rw [hname _ k (by decide)]
    simp only [List.mem_append, List.mem_cons, true_or, or_true, decide_true, Bool.true_and]
    decide
  · have hper : parsePositive (pageQuery k n) (str "per_page") 50 = n := by
      refine parsePositive_natText 50 ?_ (by decide) ⟨hn.1, by omega⟩
      rw [hsplit, List.find?_cons_of_neg, List.find?_cons_of_pos]
      · rw [hname _ n (by decide)]
        simp only [List.mem_append, List.mem_cons, true_or, or_true, decide_true, Bool.true_and]
        decide
      · rw [hname _ k (by decide)]
        simp only [List.mem_append, List.mem_cons, true_or, or_true, decide_true, Bool.true_and]
        decide
    rw [perPageParam, hper]
    omega

example : shown [{ id := 1 }, { id := 2 }, { id := 3 }] (str "per_page=2&page=+2") = [{ id := 3 }] := by
  decide

end ExamVan.Api
