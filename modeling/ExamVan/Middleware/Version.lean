import ExamVan.Lib.Decimal
import ExamVan.Lib.PaddedLex
import Mathlib.Data.Int.ConditionallyCompleteOrder
import Mathlib.Data.List.DropRight

/-!
# Versions of the app

`compare_versions` compares as text if one of the two has a blank, and by the numbers otherwise. Each
of the two is an order, but they differ, so versions with and without blanks are not in one order. A
number that `std::stoi` does not read is less than every other.
-/

namespace ExamVan.Middleware

open ByteString

/-! ### The comparison -/

/-- `std::getline` until it fails: nothing stands behind the last delimiter. -/
def getlines (delimiter : UInt8) (s : Bytes) : List Bytes :=
  let pieces := s.splitOn delimiter
  if pieces.getLast? = some [] then pieces.dropLast else pieces

def isPadBlank (c : UInt8) : Bool := c = chr ' ' || c = chr '\t'

/-- `trim` -/
def trimBlanks (s : Bytes) : Bytes := (s.dropWhile isPadBlank).rdropWhile isPadBlank

/-- One component, with -9999 for what is no number or too large for an `int`. -/
def partValue (t : Bytes) : Int :=
  let t := trimBlanks t
  if t = [] ∨ ¬ ∀ c ∈ t, isDigit c = true then -9999
  else match stoi t with
  | some n => n.toInt
  | none => -9999

/-- `parts` -/
def parts (s : Bytes) : List Int := (getlines (chr '.') s).map partValue

/-- The loop over the components; a missing one is zero. -/
def compareFrom (pa pb : List Int) : Nat → Nat → Int
  | 0, _ => 0
  | n + 1, i =>
      let av := pa.getD i 0
      let bv := pb.getD i 0
      if av < bv then -1 else if av > bv then 1 else compareFrom pa pb n (i + 1)

/-- `compare_versions`. -/
def compareVersions (a b : Bytes) : Int :=
  if chr ' ' ∈ a ∨ chr ' ' ∈ b then
    if a = b then 0 else if a < b then -1 else 1
  else
    let pa := parts a
    let pb := parts b
    compareFrom pa pb (max pa.length pb.length) 0

/-- `is_version_allowed`. -/
def isVersionAllowed (client required : Bytes) : Bool :=
  if required = [] then true
  else if client = [] then false
  else 0 ≤ compareVersions client required

/-- `should_block_version`. -/
def shouldBlockVersion (client required : Bytes) : Bool :=
  if client = [] then false
  else if required = [] then false
  else !isVersionAllowed client required

/-! ### Two orders -/

/-- The components of a text, and then zeros. -/
def number (s : Bytes) : Lex (ℕ → Int) := padded 0 (parts s)

theorem compareFrom_eq (pa pb : List Int) (n i : Nat)
    (hbefore : ∀ j < i, pa.getD j 0 = pb.getD j 0)
    (hafter : ∀ j, i + n ≤ j → pa.getD j 0 = pb.getD j 0) :
    compareFrom pa pb n i = cmpSign (padded 0 pa) (padded 0 pb) := by
  induction n generalizing i with
  | zero =>
      have heq : padded 0 pa = padded 0 pb := by
        funext j
        by_cases hj : j < i
        · exact hbefore j hj
        · exact hafter j (by omega)
      rw [compareFrom, heq, cmpSign_self]
  | succ n ih =>
      rw [compareFrom]
      by_cases heq : pa.getD i 0 = pb.getD i 0
      · rw [if_neg (by omega), if_neg (by omega)]
        refine ih (i + 1) (fun j hj => ?_) (fun j hj => hafter j (by omega))
        rcases Nat.lt_succ_iff_lt_or_eq.mp hj with hj | rfl
        · exact hbefore j hj
        · exact heq
      · rw [cmpSign_of_first (x := padded 0 pa) (y := padded 0 pb) hbefore heq,
          padded_apply, padded_apply]
        rcases lt_or_gt_of_ne heq with h | h
        · rw [if_pos h, cmpSign_of_lt h]
        · rw [if_neg h.not_gt, if_pos h, cmpSign_of_gt h]

theorem compareVersions_eq (a b : Bytes) :
    compareVersions a b =
      if chr ' ' ∈ a ∨ chr ' ' ∈ b then cmpSign a b else cmpSign (number a) (number b) := by
  unfold compareVersions
  split
  next =>
    rcases lt_trichotomy a b with h | rfl | h
    · rw [if_neg h.ne, if_pos h, cmpSign_of_lt h]
    · rw [if_pos rfl, cmpSign_self]
    · rw [if_neg h.ne', if_neg h.not_gt, cmpSign_of_gt h]
  next =>
    refine compareFrom_eq _ _ _ _ (fun j hj => absurd hj (Nat.not_lt_zero j)) fun j hj => ?_
    rw [Nat.zero_add, max_le_iff] at hj
    rw [List.getD_eq_default _ _ hj.1, List.getD_eq_default _ _ hj.2]

theorem compareVersions_swap (a b : Bytes) : compareVersions a b = -compareVersions b a := by
  rw [compareVersions_eq, compareVersions_eq, cmpSign_swap a b, cmpSign_swap (number a), apply_ite Neg.neg]
  simp only [or_comm]

theorem compareVersions_nonpos_iff (a b : Bytes) :
    compareVersions a b ≤ 0 ↔ if chr ' ' ∈ a ∨ chr ' ' ∈ b then a ≤ b else number a ≤ number b := by
  rw [compareVersions_eq]
  split
  · exact cmpSign_nonpos_iff
  · exact cmpSign_nonpos_iff

/-- One of three versions has a blank, and the text order puts it between the other two, against the
order of their numbers. -/
def Crossed (a b c : Bytes) : Prop :=
  (chr ' ' ∉ a ∧ chr ' ' ∈ b ∧ chr ' ' ∉ c ∧ a ≤ b ∧ b ≤ c ∧ number c < number a) ∨
  (chr ' ' ∈ a ∧ chr ' ' ∉ b ∧ chr ' ' ∉ c ∧ a ≤ b ∧ number b ≤ number c ∧ c < a) ∨
  (chr ' ' ∉ a ∧ chr ' ' ∉ b ∧ chr ' ' ∈ c ∧ number a ≤ number b ∧ b ≤ c ∧ c < a)

theorem imp_le_iff {α : Type*} [LinearOrder α] {p q : Prop} {x y : α} :
    (p → q → x ≤ y) ↔ ¬ (p ∧ q ∧ y < x) := by
  rw [not_and, forall_congr']
  intro
  rw [not_and, not_lt]

theorem compareVersions_trans_iff (a b c : Bytes) :
    (compareVersions a b ≤ 0 → compareVersions b c ≤ 0 → compareVersions a c ≤ 0) ↔
      ¬ Crossed a b c := by
  simp only [compareVersions_nonpos_iff]
  unfold Crossed
  -- with two blanks, or without any, the three comparisons are in one order
  by_cases ha : chr ' ' ∈ a <;> by_cases hb : chr ' ' ∈ b <;> by_cases hc : chr ' ' ∈ c <;>
    simp only [ha, hb, hc, or_true, or_self, if_true, if_false, not_true, not_false_eq_true,
      true_and, false_and, or_false, false_or, and_false, iff_true]
  · exact le_trans
  · exact le_trans
  · exact le_trans
  · exact imp_le_iff
  · exact le_trans
  · exact imp_le_iff
  · exact imp_le_iff
  · exact le_trans

/-- Without blanks, no version is blocked where an older one is let in. -/
theorem shouldBlockVersion_of_le {older newer required : Bytes} (holder : chr ' ' ∉ older)
    (hnewer : chr ' ' ∉ newer) (hrequired : chr ' ' ∉ required) (hle : number older ≤ number newer)
    (hne : older ≠ []) (h : shouldBlockVersion newer required = true) :
    shouldBlockVersion older required = true := by
  have hallowed : ∀ client : Bytes, chr ' ' ∉ client → client ≠ [] → required ≠ [] →
      (shouldBlockVersion client required = true ↔ number client < number required) := by
    intro client hclient hclientNe hrequiredNe
    rw [shouldBlockVersion, if_neg hclientNe, if_neg hrequiredNe, isVersionAllowed,
      if_neg hrequiredNe, if_neg hclientNe, compareVersions_swap, Bool.not_eq_true',
      decide_eq_false_iff_not, Int.neg_nonneg, compareVersions_nonpos_iff,
      if_neg (not_or.mpr ⟨hrequired, hclient⟩)]
    exact not_le
  by_cases hrequiredNe : required = []
  · rw [hrequiredNe, shouldBlockVersion, if_pos rfl, ite_self] at h
    cases h
  by_cases hnewerNe : newer = []
  · rw [hnewerNe, shouldBlockVersion, if_pos rfl] at h
    cases h
  rw [hallowed older holder hne hrequiredNe]
  exact hle.trans_lt ((hallowed newer hnewer hnewerNe hrequiredNe).mp h)

/-! ### Versions made of numbers -/

/-- Numbers with dots between them. -/
structure Version where
  components : List Bytes
  nonempty : ∀ t ∈ components, t ≠ []
  digits : ∀ t ∈ components, ∀ c ∈ t, isDigit c = true

namespace Version

def text (v : Version) : Bytes := [chr '.'].intercalate v.components

/-- The number at a place, and zero where there is none. -/
def value (v : Version) (i : Nat) : Nat := (v.components.map digitsValue).getD i 0

/-- Which of two versions is the newer one. -/
noncomputable def compare (v w : Version) : Int := cmpSign (toLex v.value) (toLex w.value)

end Version

/-- A number as the loop sees it. -/
def reading (n : Nat) : Int := if n < 2 ^ 31 then n else -9999

theorem not_isPadBlank_of_isDigit {c : UInt8} (h : isDigit c = true) : ¬ isPadBlank c = true := by
  intro hblank
  rw [isPadBlank, Bool.or_eq_true, decide_eq_true_eq, decide_eq_true_eq] at hblank
  rcases hblank with rfl | rfl <;> exact absurd h (by decide)

theorem partValue_digits {t : Bytes} (hne : t ≠ []) (ht : ∀ c ∈ t, isDigit c = true) :
    partValue t = reading (digitsValue t) := by
  have htrim : trimBlanks t = t := by
    have hfront : t.dropWhile isPadBlank = t := by
      obtain ⟨c, t, rfl⟩ := List.exists_cons_of_ne_nil hne
      exact List.dropWhile_cons_of_neg (not_isPadBlank_of_isDigit (ht c List.mem_cons_self))
    rw [trimBlanks, hfront, List.rdropWhile_eq_self_iff]
    exact fun _ => not_isPadBlank_of_isDigit (ht _ (List.getLast_mem _))
  unfold partValue
  simp only [htrim]
  rw [if_neg (by simp [hne]; exact ht), stoi_digits hne ht, reading]
  by_cases h : digitsValue t < 2 ^ 31
  · rw [if_pos h, if_pos h]
    exact Int32.toInt_ofInt_of_le (by omega) (by omega)
  · rw [if_neg h, if_neg h]

theorem parts_text (v : Version) :
    parts v.text = v.components.map fun t => reading (digitsValue t) := by
  have hdot : ∀ t ∈ v.components, chr '.' ∉ t := fun t ht hmem =>
    absurd (v.digits t ht _ hmem) (by decide)
  have hlines : getlines (chr '.') v.text = v.components := by
    unfold getlines Version.text
    by_cases hnil : v.components = []
    · rw [hnil]
      rfl
    · rw [List.splitOn_intercalate (chr '.') hdot hnil]
      dsimp only
      rw [if_neg]
      exact fun hlast => v.nonempty _ (List.mem_of_getLast? hlast) rfl
  rw [parts, hlines]
  exact List.map_congr_left fun t ht => partValue_digits (v.nonempty t ht) (v.digits t ht)

theorem number_text (v : Version) (i : Nat) : number v.text i = reading (v.value i) := by
  rw [number, padded_apply, parts_text, Version.value, List.getD_eq_getElem?_getD,
    List.getD_eq_getElem?_getD, List.getElem?_map, List.getElem?_map]
  cases v.components[i]? with
  | none => rfl
  | some t => rfl

theorem blank_notMem_text (v : Version) : chr ' ' ∉ v.text := by
  have hpieces : ∀ pieces : List Bytes, (∀ t ∈ pieces, chr ' ' ∉ t) →
      chr ' ' ∉ [chr '.'].intercalate pieces := by
    intro pieces
    induction pieces with
    | nil => exact fun _ => List.not_mem_nil
    | cons t pieces ih =>
        intro h
        rw [List.forall_mem_cons] at h
        by_cases hnil : pieces = []
        · rw [hnil, List.intercalate_singleton]
          exact h.1
        · rw [List.intercalate_cons_of_ne_nil hnil]
          have hdot : chr ' ' ∉ [chr '.'] := by decide
          simp only [List.mem_append, not_or]
          exact ⟨⟨h.1, hdot⟩, ih h.2⟩
  exact hpieces _ fun t ht hmem => absurd (v.digits t ht _ hmem) (by decide)

/-- The first number in which two versions differ decides: both are below 2³¹, or both are not and the
first later numbers that the loop sees as different differ the same way. -/
def Decided (v w : Version) : Prop :=
  v.value = w.value ∨
  ∃ i, (∀ j < i, v.value j = w.value j) ∧ v.value i ≠ w.value i ∧
    (v.value i < 2 ^ 31 ∧ w.value i < 2 ^ 31 ∨
      2 ^ 31 ≤ v.value i ∧ 2 ^ 31 ≤ w.value i ∧
        ∃ k > i, (∀ j < k, reading (v.value j) = reading (w.value j)) ∧
          (v.value i < w.value i ∧ reading (v.value k) < reading (w.value k) ∨
            w.value i < v.value i ∧ reading (w.value k) < reading (v.value k)))

theorem compareVersions_text (v w : Version) :
    compareVersions v.text w.text = cmpSign (number v.text) (number w.text) := by
  rw [compareVersions_eq, if_neg (not_or.mpr ⟨blank_notMem_text v, blank_notMem_text w⟩)]

theorem reading_eq_iff {m n : Nat} :
    reading m = reading n ↔ m = n ∨ 2 ^ 31 ≤ m ∧ 2 ^ 31 ≤ n := by
  unfold reading
  constructor
  · intro h
    split_ifs at h <;> omega
  · intro h
    split_ifs <;> omega

/-- A smaller number is seen as smaller exactly if the larger one fits. -/
theorem reading_lt_iff {m n : Nat} (h : m < n) : reading m < reading n ↔ n < 2 ^ 31 := by
  unfold reading
  constructor
  · intro hlt
    split_ifs at hlt <;> omega
  · intro hn
    split_ifs <;> omega

theorem cmpSign_number {v w : Version} {k : Nat}
    (hbefore : ∀ j < k, reading (v.value j) = reading (w.value j))
    (hne : reading (v.value k) ≠ reading (w.value k)) :
    cmpSign (number v.text) (number w.text) =
      cmpSign (reading (v.value k)) (reading (w.value k)) := by
  rw [cmpSign_of_first (x := number v.text) (y := number w.text) (i := k)]
  · rw [number_text, number_text]
  · intro j hj
    rw [number_text, number_text, hbefore j hj]
  · rwa [number_text, number_text]

theorem compareVersions_text_iff (v w : Version) :
    compareVersions v.text w.text = v.compare w ↔ Decided v w := by
  rw [compareVersions_text, Version.compare]
  by_cases heq : v.value = w.value
  · have hnumber : number v.text = number w.text := by
      funext i
      rw [number_text, number_text, heq]
    exact iff_of_true (by rw [hnumber, heq, cmpSign_self, cmpSign_self]) (Or.inl heq)
  constructor
  · intro h
    obtain ⟨i, hbefore, hne⟩ := exists_first (x := toLex v.value) (y := toLex w.value) heq
    rw [cmpSign_of_first hbefore hne] at h
    refine Or.inr ⟨i, hbefore, hne, ?_⟩
    have hnumber : number v.text ≠ number w.text := by
      intro hnumber
      rw [hnumber, cmpSign_self, eq_comm, cmpSign_eq_zero_iff] at h
      exact hne h
    obtain ⟨k, hkbefore, hkne⟩ := exists_first hnumber
    simp only [number_text] at hkbefore hkne
    rw [cmpSign_number hkbefore hkne, cmpSign_eq_cmpSign_iff hne] at h
    simp only [Pi.toLex_apply] at hbefore hne h
    rcases lt_trichotomy k i with hki | rfl | hki
    · exact absurd (congrArg reading (hbefore k hki)) hkne
    · left
      rcases h with ⟨hlt, hread⟩ | ⟨hlt, hread⟩
      · have hfits := (reading_lt_iff hlt).mp hread
        exact ⟨hlt.trans hfits, hfits⟩
      · have hfits := (reading_lt_iff hlt).mp hread
        exact ⟨hfits, hlt.trans hfits⟩
    · obtain ⟨hv, hw⟩ := (reading_eq_iff.mp (hkbefore i hki)).resolve_left hne
      exact Or.inr ⟨hv, hw, k, hki, hkbefore, h⟩
  · rintro (heq' | ⟨i, hbefore, hne, hcase⟩)
    · exact absurd heq' heq
    rw [cmpSign_of_first (x := toLex v.value) (y := toLex w.value) hbefore hne]
    rcases hcase with ⟨hv, hw⟩ | ⟨-, -, k, -, hkbefore, hdir⟩
    · have hread : reading (v.value i) ≠ reading (w.value i) := fun h =>
        (reading_eq_iff.mp h).elim hne fun hbig => absurd hbig.1 hv.not_ge
      rw [cmpSign_number (fun j hj => by rw [hbefore j hj]) hread]
      refine (cmpSign_eq_cmpSign_iff (x := toLex v.value i) hne).mpr ?_
      rcases lt_or_gt_of_ne hne with hlt | hlt
      · exact Or.inl ⟨hlt, (reading_lt_iff hlt).mpr hw⟩
      · exact Or.inr ⟨hlt, (reading_lt_iff hlt).mpr hv⟩
    · have hread : reading (v.value k) ≠ reading (w.value k) :=
        hdir.elim (fun h => h.2.ne) fun h => h.2.ne'
      rw [cmpSign_number hkbefore hread]
      exact (cmpSign_eq_cmpSign_iff (x := toLex v.value i) hne).mpr hdir

/-- The comparison is antisymmetric; it is transitive on versions that are not crossed by one with a
blank, and right on numbers that are decided before one is too large. -/
theorem compareVersions_iff (a b c : Bytes) (v w : Version) :
    compareVersions a b = -compareVersions b a ∧
      ((compareVersions a b ≤ 0 → compareVersions b c ≤ 0 → compareVersions a c ≤ 0) ↔
        ¬ Crossed a b c) ∧
      (compareVersions v.text w.text = v.compare w ↔ Decided v w) :=
  ⟨compareVersions_swap a b, compareVersions_trans_iff a b c, compareVersions_text_iff v w⟩

/-- `10`, `10` with a blank and `9` are in text order; 2³¹ is less than `0`. -/
theorem not_compareVersions :
    (compareVersions (str "10") (str "10 ") ≤ 0 ∧ compareVersions (str "10 ") (str "9") ≤ 0 ∧
      ¬ compareVersions (str "10") (str "9") ≤ 0) ∧
    ∃ v w : Version, v.text = str "2147483648" ∧ w.text = str "0" ∧
      compareVersions v.text w.text = -1 ∧ v.compare w = 1 := by
  refine ⟨⟨by decide, by decide, by decide⟩, ⟨[str "2147483648"], by decide, by decide⟩,
    ⟨[str "0"], by decide, by decide⟩, rfl, rfl, by decide, ?_⟩
  rw [Version.compare, cmpSign_of_first (i := 0) (fun j hj => absurd hj (Nat.not_lt_zero j))]
  · decide
  · decide

end ExamVan.Middleware
