import Mathlib.Data.List.Basic
import Mathlib.Data.List.Nodup
import Mathlib.Data.List.Perm.Basic
import Mathlib.Data.List.Range
import Mathlib.Order.Defs.LinearOrder
import Mathlib.Order.Lattice

/-!
# Pages of a list

A list is cut into pages of one size, the last of which may be shorter.
-/

namespace Pages

variable {α : Type*}

/-- The page with the index `k`. -/
def page (n k : ℕ) (l : List α) : List α := (l.drop (k * n)).take n

def pageCount (n : ℕ) (l : List α) : ℕ := (l.length + n - 1) / n

theorem flatMap_page (n m : ℕ) (l : List α) :
    (List.range m).flatMap (fun k => page n k l) = l.take (m * n) := by
  induction m with
  | zero => simp
  | succ m ih =>
      rw [List.range_succ, List.flatMap_append, ih, List.flatMap_singleton, Nat.succ_mul, page,
        List.take_add]

theorem length_le_pageCount_mul {n : ℕ} (hn : 0 < n) (l : List α) :
    l.length ≤ pageCount n l * n := by
  have hdiv := Nat.div_add_mod (l.length + n - 1) n
  have hmod := Nat.mod_lt (l.length + n - 1) hn
  rw [pageCount, Nat.mul_comm]
  omega

theorem pageCount_le {n : ℕ} (hn : 0 < n) (l : List α) : pageCount n l ≤ l.length := by
  rw [pageCount, Nat.div_le_iff_le_mul hn]
  have hmul : l.length * 1 ≤ l.length * n := Nat.mul_le_mul_left l.length hn
  omega

/-- The pages one after the other are the whole list. -/
theorem flatMap_page_pageCount {n : ℕ} (hn : 0 < n) (l : List α) :
    (List.range (pageCount n l)).flatMap (fun k => page n k l) = l := by
  rw [flatMap_page, List.take_of_length_le (length_le_pageCount_mul hn l)]

theorem page_eq_nil {n k : ℕ} (hn : 0 < n) {l : List α} (hk : pageCount n l ≤ k) :
    page n k l = [] := by
  have hle : l.length ≤ k * n :=
    (length_le_pageCount_mul hn l).trans (Nat.mul_le_mul_right n hk)
  rw [page, List.drop_of_length_le hle, List.take_nil]

/-- A row that two pages show is shown twice. -/
theorem not_nodup_flatMap {f : ℕ → List α} {m j k : ℕ} {a : α} (hjk : j < k) (hk : k < m)
    (hj : a ∈ f j) (ha : a ∈ f k) : ¬ ((List.range m).flatMap f).Nodup := by
  intro hnodup
  have hpairs := List.pairwise_iff_getElem.mp (List.nodup_flatMap.mp hnodup).2 j k
    (by rw [List.length_range]; exact hjk.trans hk) (by rwa [List.length_range]) hjk
  rw [List.getElem_range, List.getElem_range] at hpairs
  exact hpairs hj ha

end Pages

/-!
## Pages of a list that is sorted again for each page

Rows are sorted by a rank, highest first, and every page is cut from an arrangement of its own, in
which rows of one rank stand in any order. The pages are a partition of the rows if no rank goes over
the end of a page, and otherwise some choice of arrangements shows a row twice.
-/

namespace Pages

variable {α β : Type*} [LinearOrder β] {rank : α → β} {rows L : List α} {a : α} {n m k i : ℕ}

/-- The rows in some order, those of a higher rank first. -/
structure Arranged (rank : α → β) (rows L : List α) : Prop where
  perm : L.Perm rows
  sorted : L.Pairwise fun a b => rank b ≤ rank a

/-- How many rows have a higher rank. -/
def ahead (rank : α → β) (rows : List α) (a : α) : ℕ := rows.countP fun b => rank a < rank b

/-- How many rows have this rank or a higher one. -/
def abreast (rank : α → β) (rows : List α) (a : α) : ℕ := rows.countP fun b => rank a ≤ rank b

/-- The rows of one rank end on another page than they begin. -/
def Straddles (rank : α → β) (n : ℕ) (rows : List α) (a : α) : Prop :=
  ∃ k, ahead rank rows a < k * n ∧ k * n < abreast rank rows a

theorem exists_arranged (rank : α → β) (rows : List α) : ∃ L, Arranged rank rows L := by
  refine ⟨rows.mergeSort fun a b => rank b ≤ rank a, List.mergeSort_perm _ _, ?_⟩
  have hsorted := @List.pairwise_mergeSort α (fun a b => decide (rank b ≤ rank a))
    (fun a b c hab hbc => by
      simp only [decide_eq_true_eq] at hab hbc ⊢
      exact hbc.trans hab)
    (fun a b => by simpa using le_total (rank b) (rank a)) rows
  simpa using hsorted

/-- A row stands behind those of a higher rank and before those of a lower one. -/
theorem Arranged.place (h : Arranged rank rows L) (hi : L[i]? = some a) :
    ahead rank rows a ≤ i ∧ i < abreast rank rows a := by
  obtain ⟨hlt, ha⟩ := List.getElem?_eq_some_iff.mp hi
  have hsplit : L = L.take i ++ a :: L.drop (i + 1) := by
    rw [← ha, List.getElem_cons_drop, List.take_append_drop]
  have hsorted := h.sorted
  rw [hsplit, List.pairwise_append, List.pairwise_cons] at hsorted
  obtain ⟨-, ⟨hafter, -⟩, hbefore⟩ := hsorted
  have hlength : (L.take i).length = i := List.length_take_of_le hlt.le
  constructor
  · have hrest : (a :: L.drop (i + 1)).countP (fun b => rank a < rank b) = 0 := by
      rw [List.countP_eq_zero]
      intro b hb
      rcases List.mem_cons.mp hb with rfl | hb
      · simp
      · simpa using hafter b hb
    calc ahead rank rows a
      _ = L.countP (fun b => rank a < rank b) := (h.perm.countP_eq _).symm
      _ = (L.take i).countP (fun b => rank a < rank b) := by
          conv_lhs => rw [hsplit]
          rw [List.countP_append, hrest, Nat.add_zero]
      _ ≤ (L.take i).length := List.countP_le_length
      _ = i := hlength
  · have hall : (L.take i).countP (fun b => rank a ≤ rank b) = (L.take i).length := by
      rw [List.countP_eq_length]
      intro b hb
      simpa using hbefore b hb a List.mem_cons_self
    calc i
      _ < (L.take i).countP (fun b => rank a ≤ rank b) + 1 := by omega
      _ ≤ (L.take i).countP (fun b => rank a ≤ rank b) +
            (a :: L.drop (i + 1)).countP (fun b => rank a ≤ rank b) := by
          rw [List.countP_cons_of_pos (by simp)]
          omega
      _ = L.countP (fun b => rank a ≤ rank b) := by
          conv_rhs => rw [hsplit]
          rw [List.countP_append]
      _ = abreast rank rows a := h.perm.countP_eq _

theorem ahead_lt_length (ha : a ∈ rows) : ahead rank rows a < rows.length := by
  refine lt_of_le_of_ne List.countP_le_length fun heq => ?_
  have hself := List.countP_eq_length.mp heq a ha
  simp at hself

theorem abreast_le_length (rank : α → β) (rows : List α) (a : α) :
    abreast rank rows a ≤ rows.length := List.countP_le_length

/-- The places between the two counts belong to the rows of the rank. -/
theorem Arranged.rank_eq (h : Arranged rank rows L) {b : α} (hb : L[i]? = some b)
    (hlow : ahead rank rows a ≤ i) (hhigh : i < abreast rank rows a) : rank b = rank a := by
  obtain ⟨hahead, habreast⟩ := h.place hb
  rcases lt_trichotomy (rank b) (rank a) with hlt | heq | hlt
  · have hle : abreast rank rows a ≤ ahead rank rows b :=
      List.countP_mono_left fun c _ hc => by
        simp only [decide_eq_true_eq] at hc ⊢
        exact hlt.trans_le hc
    omega
  · exact heq
  · have hle : abreast rank rows b ≤ ahead rank rows a :=
      List.countP_mono_left fun c _ hc => by
        simp only [decide_eq_true_eq] at hc ⊢
        exact hlt.trans_le hc
    omega

theorem mem_page_iff : a ∈ page n k L ↔ ∃ j < n, L[k * n + j]? = some a := by
  rw [page, List.mem_iff_getElem?]
  constructor
  · rintro ⟨j, hj⟩
    rw [List.getElem?_take] at hj
    split at hj
    next hlt => exact ⟨j, hlt, by rwa [List.getElem?_drop] at hj⟩
    next => cases hj
  · rintro ⟨j, hlt, hj⟩
    exact ⟨j, by rwa [List.getElem?_take, if_pos hlt, List.getElem?_drop]⟩

/-! ### Ranks that stay on a page -/

/-- If no rank goes over the end of a page, its rows are on the page where they begin. -/
theorem Arranged.ahead_div (h : Arranged rank rows L) (hwhole : ∀ a ∈ rows, ¬ Straddles rank n rows a)
    (hn : 0 < n) (hi : L[i]? = some a) : ahead rank rows a / n = i / n := by
  obtain ⟨hlow, hhigh⟩ := h.place hi
  have ha : a ∈ rows := h.perm.mem_iff.mp (List.mem_of_getElem? hi)
  refine le_antisymm (Nat.div_le_div_right hlow) (not_lt.mp fun hlt => hwhole a ha ⟨i / n, ?_, ?_⟩)
  · exact (Nat.div_lt_iff_lt_mul hn).mp hlt
  · exact (Nat.div_mul_le_self i n).trans_lt hhigh

theorem page_eq_filter (h : Arranged rank rows L) (hwhole : ∀ a ∈ rows, ¬ Straddles rank n rows a)
    (hn : 0 < n) (k : ℕ) : page n k L = L.filter fun a => ahead rank rows a / n = k := by
  have hsplit : L = L.take (k * n) ++ (page n k L ++ L.drop (k * n + n)) := by
    rw [page, ← List.drop_drop, List.take_append_drop, List.take_append_drop]
  have hbefore : (L.take (k * n)).filter (fun a => ahead rank rows a / n = k) = [] := by
    rw [List.filter_eq_nil_iff]
    intro a ha
    obtain ⟨i, hi⟩ := List.mem_iff_getElem?.mp ha
    rw [List.getElem?_take] at hi
    split at hi
    next hlt =>
      rw [h.ahead_div hwhole hn hi, decide_eq_true_eq]
      exact (Nat.div_lt_of_lt_mul (by rwa [Nat.mul_comm])).ne
    next => cases hi
  have hwithin : (page n k L).filter (fun a => ahead rank rows a / n = k) = page n k L := by
    rw [List.filter_eq_self]
    intro a ha
    obtain ⟨j, hj, hi⟩ := mem_page_iff.mp ha
    rw [h.ahead_div hwhole hn hi, decide_eq_true_eq, Nat.add_comm,
      Nat.add_mul_div_right _ _ hn, Nat.div_eq_of_lt hj, Nat.zero_add]
  have hafter : (L.drop (k * n + n)).filter (fun a => ahead rank rows a / n = k) = [] := by
    rw [List.filter_eq_nil_iff]
    intro a ha
    obtain ⟨i, hi⟩ := List.mem_iff_getElem?.mp ha
    rw [List.getElem?_drop] at hi
    rw [h.ahead_div hwhole hn hi, decide_eq_true_eq]
    have hle : k + 1 ≤ (k * n + n + i) / n := by
      rw [Nat.le_div_iff_mul_le hn, Nat.succ_mul]
      omega
    omega
  conv_rhs => rw [hsplit]
  rw [List.filter_append, List.filter_append, hbefore, hwithin, hafter, List.append_nil,
    List.nil_append]

theorem perm_flatMap_filter (f : α → ℕ) (m : ℕ) (rows : List α) :
    ((List.range m).flatMap fun k => rows.filter fun a => f a = k).Perm
      (rows.filter fun a => f a < m) := by
  induction m with
  | zero => simp
  | succ m ih =>
      have hsplit := List.filter_append_perm (fun a => f a < m) (rows.filter fun a => f a < m + 1)
      rw [List.filter_filter, List.filter_filter] at hsplit
      have hlow : (fun a => decide (f a < m) && decide (f a < m + 1)) = fun a => decide (f a < m) := by
        funext a
        rw [← Bool.decide_and, decide_eq_decide]
        omega
      have hlast : (fun a => !decide (f a < m) && decide (f a < m + 1)) =
          fun a => decide (f a = m) := by
        funext a
        rw [← decide_not, ← Bool.decide_and, decide_eq_decide]
        omega
      rw [hlow, hlast] at hsplit
      rw [List.range_succ, List.flatMap_append, List.flatMap_singleton]
      exact (ih.append_right _).trans hsplit

/-- The pages of any arrangements are a partition of the rows. -/
theorem perm_flatMap_page {arranged : ℕ → List α} (h : ∀ k, Arranged rank rows (arranged k))
    (hwhole : ∀ a ∈ rows, ¬ Straddles rank n rows a) (hn : 0 < n) :
    ((List.range (pageCount n rows)).flatMap fun k => page n k (arranged k)).Perm rows := by
  have hpages : ((List.range (pageCount n rows)).flatMap fun k => page n k (arranged k)).Perm
      ((List.range (pageCount n rows)).flatMap fun k =>
        rows.filter fun a => ahead rank rows a / n = k) := by
    refine List.Perm.flatMap_left _ fun k _ => ?_
    rw [page_eq_filter (h k) hwhole hn]
    exact (h k).perm.filter _
  have hall : rows.filter (fun a => ahead rank rows a / n < pageCount n rows) = rows := by
    rw [List.filter_eq_self]
    intro a ha
    rw [decide_eq_true_eq, Nat.div_lt_iff_lt_mul hn]
    exact (ahead_lt_length ha).trans_le (length_le_pageCount_mul hn rows)
  have hfilter := perm_flatMap_filter (fun a => ahead rank rows a / n) (pageCount n rows) rows
  rw [hall] at hfilter
  exact hpages.trans hfilter

/-! ### A rank that goes over the end of a page -/

/-- Two neighbours of one rank may change places. -/
theorem Arranged.swap {s t : List α} {b c : α} (h : Arranged rank rows (s ++ b :: c :: t))
    (heq : rank b = rank c) : Arranged rank rows (s ++ c :: b :: t) where
  perm := ((List.Perm.swap b c t).append_left s).trans h.perm
  sorted := by
    have hranks : (s ++ c :: b :: t).map rank = (s ++ b :: c :: t).map rank := by
      simp [heq]
    have hsorted : ((s ++ b :: c :: t).map rank).Pairwise fun x y => y ≤ x :=
      List.pairwise_map.mpr h.sorted
    exact List.pairwise_map.mp (hranks ▸ hsorted)

/-- Rows that change places at the end of a page are shown twice. -/
theorem exists_shown_twice (hover : Straddles rank n rows a) :
    ∃ arranged : ℕ → List α, (∀ k, Arranged rank rows (arranged k)) ∧
      ∃ k b, k + 1 < pageCount n rows ∧ b ∈ page n k (arranged k) ∧
        b ∈ page n (k + 1) (arranged (k + 1)) := by
  obtain ⟨q, hlow, hhigh⟩ := hover
  have hpos : 0 < q * n := by omega
  have hn : 0 < n := Nat.pos_of_mul_pos_left hpos
  have hq : 0 < q := Nat.pos_of_mul_pos_right hpos
  obtain ⟨k, rfl⟩ : ∃ k, q = k + 1 := ⟨q - 1, by omega⟩
  obtain ⟨L, hL⟩ := exists_arranged rank rows
  -- `i` is the last place of the page `k`
  obtain ⟨i, hi⟩ : ∃ i, (k + 1) * n = i + 1 := ⟨(k + 1) * n - 1, by omega⟩
  have hlength : i + 1 < L.length := by
    rw [hL.perm.length_eq, ← hi]
    exact hhigh.trans_le (abreast_le_length rank rows a)
  obtain ⟨b, c, hsplit, hb, hc⟩ : ∃ b c, L = L.take i ++ b :: c :: L.drop (i + 2) ∧
      L[i]? = some b ∧ L[i + 1]? = some c := by
    refine ⟨L[i], L[i + 1], ?_, List.getElem?_eq_getElem (by omega), List.getElem?_eq_getElem hlength⟩
    rw [List.getElem_cons_drop, List.getElem_cons_drop, List.take_append_drop]
  have htake : (L.take i).length = i := List.length_take_of_le (by omega)
  have hfirst : rank b = rank a := hL.rank_eq hb (by omega) (by omega)
  have hsecond : rank c = rank a := hL.rank_eq hc (by omega) (by omega)
  have hswapped : Arranged rank rows (L.take i ++ c :: b :: L.drop (i + 2)) :=
    Arranged.swap (hsplit ▸ hL) (hfirst.trans hsecond.symm)
  refine ⟨fun m => if m = k + 1 then L.take i ++ c :: b :: L.drop (i + 2) else L, ?_,
    k, b, ?_, ?_, ?_⟩
  · intro m
    dsimp only
    split
    · exact hswapped
    · exact hL
  · have hlt : (k + 1) * n < pageCount n rows * n :=
      (hhigh.trans_le (abreast_le_length rank rows a)).trans_le (length_le_pageCount_mul hn rows)
    exact Nat.lt_of_mul_lt_mul_right hlt
  · dsimp only
    rw [if_neg (by omega), mem_page_iff]
    have hplace : k * n + (n - 1) = i := by
      rw [Nat.succ_mul] at hi
      omega
    exact ⟨n - 1, by omega, by rw [hplace, hb]⟩
  · dsimp only
    rw [if_pos rfl, mem_page_iff]
    refine ⟨0, hn, ?_⟩
    have hindex : (k + 1) * n + 0 - (L.take i).length = 1 := by omega
    rw [List.getElem?_append_right (by omega), hindex]
    rfl

end Pages
