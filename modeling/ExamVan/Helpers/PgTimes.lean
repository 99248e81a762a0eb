import ExamVan.Admin.Vouchers
import ExamVan.Helpers.WibTimes

/-!
# Times of the database

The texts that `parse_pg_or_iso_utc` accepts and what it takes them for. Its comment describes the
`timestamptz` of PostgreSQL and ISO times in UTC. It asks for the seconds of both, lets their parts be
mixed and the second be 60, and `system_clock` holds the years from 1677 to 2262 only.
-/

namespace ExamVan.Helpers

open ByteString Calendar Indexed Admin

/-! ### Times as text -/

/-- An offset from UTC; its minutes may follow a colon. -/
structure Offset where
  west : Bool
  hours : Int
  minutes : Option (Bool × Int)

def minutesText : Option (Bool × Int) → Bytes
  | none => []
  | some (true, m) => chr ':' :: twoDigits m
  | some (false, m) => twoDigits m

def Offset.text (o : Offset) : Bytes :=
  (if o.west then chr '-' else chr '+') :: (twoDigits o.hours ++ minutesText o.minutes)

structure Offset.Valid (o : Offset) : Prop where
  hours : 0 ≤ o.hours ∧ o.hours ≤ 23
  minutes : ∀ m ∈ o.minutes, 0 ≤ m.2 ∧ m.2 ≤ 59

/-- The minutes that local time is ahead. -/
def Offset.ahead (o : Offset) : Int :=
  (if o.west then -1 else 1) * (o.hours * 60 + (o.minutes.elim 0 Prod.snd))

/-- The ends of the texts that are accepted. -/
inductive Zone
  | unsaid
  | utc
  | offset (o : Offset)

def Zone.text : Zone → Bytes
  | unsaid => []
  | utc => [chr 'Z']
  | offset o => o.text

def Zone.Valid : Zone → Prop
  | offset o => o.Valid
  | _ => True

def Zone.ahead : Zone → Int
  | offset o => o.ahead
  | _ => 0

def clockText (t : Civil) : Bytes :=
  twoDigits t.hour ++ chr ':' :: (twoDigits t.minute ++ chr ':' :: twoDigits t.second)

/-- A fraction of a second: a point and digits. -/
def fractionText (fraction : Option Bytes) : Bytes := fraction.elim [] (chr '.' :: ·)

def IsFraction (d : Bytes) : Prop := d ≠ [] ∧ ∀ c ∈ d, isDigit c = true

/-- The milliseconds of a fraction. -/
def millis (fraction : Option Bytes) : Int :=
  fraction.elim 0 fun d => digitsValue ((d ++ str "000").take 3)

def timeText (t : Civil) (sep : UInt8) (fraction : Option Bytes) (zone : Zone) : Bytes :=
  dateText t ++ sep :: (clockText t ++ (fractionText fraction ++ zone.text))

/-- The nanoseconds from 1970, to the millisecond. -/
def ticks (t : Civil) (fraction : Option Bytes) (zone : Zone) : Int :=
  (seconds t - zone.ahead * 60) * 1000000000 + millis fraction * 1000000

/-- A date of the calendar and a time of the day whose last second is not above a limit. -/
structure DayTime (lastSecond : Int) (t : Civil) : Prop where
  year : 0 ≤ t.year ∧ t.year ≤ 9999
  month : 1 ≤ t.month ∧ t.month ≤ 12
  day : 1 ≤ t.day ∧ t.day ≤ daysInMonth t.year t.month
  hour : 0 ≤ t.hour ∧ t.hour ≤ 23
  minute : 0 ≤ t.minute ∧ t.minute ≤ 59
  second : 0 ≤ t.second ∧ t.second ≤ lastSecond

/-- What a text of the documented grammar denotes: `YYYY-MM-DD HH:MM:SS` with an optional fraction and
an optional offset, `YYYY-MM-DDTHH:MM:SSZ` or `YYYY-MM-DDTHH:MMZ`. -/
inductive Denotes (s : Bytes) : Int → Prop
  | pg {t : Civil} {fraction : Option Bytes} {zone : Zone} (ht : DayTime 59 t)
      (hfraction : ∀ d ∈ fraction, IsFraction d) (hzone : zone.Valid) (hsaid : zone ≠ .utc)
      (hs : s = timeText t (chr ' ') fraction zone) : Denotes s (ticks t fraction zone)
  | iso {t : Civil} (ht : DayTime 59 t) (hs : s = timeText t (chr 'T') none .utc) :
      Denotes s (ticks t none .utc)
  | minute {t : Civil} (ht : DayTime 59 t) (hsecond : t.second = 0)
      (hs : s = dateText t ++ chr 'T' :: (twoDigits t.hour ++ chr ':' :: (twoDigits t.minute ++
        [chr 'Z']))) : Denotes s (ticks t none .utc)

/-- A text with the parts of a time in their places. -/
structure Stands (s : Bytes) (t : Civil) (c : UInt8) (f : Option Bytes) (z : Zone) : Prop where
  time : DayTime 60 t
  sep : c = chr ' ' ∨ c = chr 'T'
  fraction : ∀ d ∈ f, IsFraction d
  zone : z.Valid
  text : s = timeText t c f z

/-- The text has its parts as the grammar has them, and the clock holds the instant. -/
structure Regular (s : Bytes) : Prop where
  /-- no `Z` behind a blank, and neither a fraction nor another end behind a `T` -/
  form : ∀ t sep fraction zone, Stands s t sep fraction zone →
    (sep = chr ' ' ∧ zone ≠ .utc) ∨ (sep = chr 'T' ∧ fraction = none ∧ zone = .utc)
  second : ∀ t sep fraction zone, Stands s t sep fraction zone → t.second ≠ 60
  range : ∀ t sep fraction zone, Stands s t sep fraction zone →
    -2 ^ 63 ≤ ticks t fraction zone ∧ ticks t fraction zone < 2 ^ 63
  /-- no `YYYY-MM-DDTHH:MMZ` -/
  long : ∀ t, DayTime 59 t → s ≠ dateText t ++ chr 'T' :: (twoDigits t.hour ++ chr ':' ::
    (twoDigits t.minute ++ [chr 'Z']))

section

variable {s pre rest z : Bytes} {t : Civil} {sep : UInt8} {fraction : Option Bytes} {zone : Zone}
  {n off : Int}

/-! ### The fraction -/

theorem get_append (i : Nat) : (pre ++ rest)[pre.length + i]? = rest[i]? := by
  rw [List.getElem?_append_right (by omega), Nat.add_sub_cancel_left]

theorem value_readFraction {fuel nd : Nat} {frac : Int} (hfuel : rest.length ≤ fuel) :
    (readFraction (pre ++ rest) fuel pre.length nd frac).value =
      (pre.length + (rest.takeWhile isDigit).length, nd + (rest.takeWhile isDigit).length,
        ((rest.takeWhile isDigit).take (3 - nd)).foldl (fun acc c => acc * 10 + digit c) frac) := by
  induction rest generalizing pre fuel nd frac with
  | nil =>
      cases fuel with
      | zero => simp [readFraction]
      | succ fuel => simp [readFraction]
  | cons c rest ih =>
      obtain ⟨fuel, rfl⟩ := Nat.exists_eq_add_of_le' (Nat.one_le_of_lt hfuel)
      have hshort : ¬ (pre ++ c :: rest).length ≤ pre.length := by simp
      have hdig : (dig (pre ++ c :: rest) pre.length).value = digit c := by
        have hget := @get_append pre (c :: rest) 0
        rw [Nat.add_zero] at hget
        rw [value_dig, hget]
        rfl
      have hnext := @ih (pre ++ [c]) fuel (nd + 1) (if nd < 3 then frac * 10 + digit c else frac)
        (by simpa using hfuel)
      rw [List.append_assoc, List.singleton_append, List.length_append, List.length_singleton] at hnext
      simp only [readFraction, if_neg hshort, value_bind, value_ite, value_pure, hdig]
      by_cases hc : isDigit c = true
      · rw [if_neg (not_lt.mpr (digit_nonneg_iff.mpr hc)), hnext, List.takeWhile_cons_of_pos hc,
          List.length_cons]
        refine Prod.ext (by dsimp only; omega) (Prod.ext (by dsimp only; omega) ?_)
        dsimp only
        by_cases hnd : nd < 3
        · obtain ⟨k, hk⟩ := Nat.exists_eq_add_of_lt hnd
          have h3 : 3 - nd = k + 1 := by omega
          have h2 : 3 - (nd + 1) = k := by omega
          rw [if_pos hnd, h3, h2, List.take_succ_cons, List.foldl_cons]
        · have h3 : 3 - nd = 0 := by omega
          have h2 : 3 - (nd + 1) = 0 := by omega
          rw [if_neg hnd, h3, h2, List.take_zero, List.take_zero]
      · have hneg : digit c < 0 := not_le.mp fun hle => hc (digit_nonneg_iff.mp hle)
        rw [if_pos hneg, List.takeWhile_cons_of_neg hc]
        simp

/-- The milliseconds are the first three digits, with zeros for those that are not there. -/
theorem millis_eq {d : Bytes} (hd : ∀ c ∈ d, isDigit c = true) :
    (d.take 3).foldl (fun acc c => acc * 10 + digit c) 0 * 10 ^ (3 - d.length) = millis (some d) := by
  have hzero : digit 48 = 0 := rfl
  have hvalue : ∀ l : Bytes, (∀ c ∈ l, isDigit c = true) → ∀ acc : Nat,
      l.foldl (fun acc c => acc * 10 + digit c) (acc : Int) =
        ((l.foldl (fun acc c => 10 * acc + (c.toNat - 48)) acc : Nat) : Int) := by
    intro l hl acc
    induction l generalizing acc with
    | nil => rfl
    | cons c l ih =>
        obtain ⟨hc, hrest⟩ := List.forall_mem_cons.mp hl
        have hdigit : digit c = ((c.toNat - 48 : Nat) : Int) := by
          rw [digit, if_pos hc]
          simp only [isDigit, Bool.and_eq_true, decide_eq_true_eq, UInt8.le_iff_toNat_le,
            UInt8.reduceToNat] at hc
          omega
        rw [List.foldl_cons, List.foldl_cons, ← ih hrest, hdigit]
        congr 1
        push_cast
        omega
  have hall : ∀ c ∈ (d ++ str "000").take 3, isDigit c = true := by
    intro c hc
    rcases List.mem_append.mp (List.mem_of_mem_take hc) with h | h
    · exact hd c h
    · rcases List.mem_cons.mp h with rfl | h
      · rfl
      · rcases List.mem_cons.mp h with rfl | h
        · rfl
        · rw [List.mem_singleton.mp h]
          rfl
  have hmillis : millis (some d) =
      ((d ++ str "000").take 3).foldl (fun acc c => acc * 10 + digit c) 0 := (hvalue _ hall 0).symm
  rw [hmillis]
  rcases d with _ | ⟨a, _ | ⟨b, _ | ⟨c, d⟩⟩⟩
  · rfl
  · simp [str, chr, hzero, mul_assoc]
  · simp [str, chr, hzero]
  · simp

/-- A fraction at the beginning of a text, and what is behind it. -/
def splitFraction : Bytes → Option (Option Bytes × Bytes)
  | [] => some (none, [])
  | c :: rest =>
      if c ≠ chr '.' then some (none, c :: rest)
      else if rest.takeWhile isDigit = [] then none
      else some (some (rest.takeWhile isDigit), rest.dropWhile isDigit)

theorem splitFraction_spec {f : Option Bytes} (h : splitFraction rest = some (f, z)) :
    rest = fractionText f ++ z ∧ ∀ d ∈ f, IsFraction d := by
  cases rest with
  | nil =>
      cases h
      exact ⟨rfl, nofun⟩
  | cons c rest =>
      rw [splitFraction] at h
      split_ifs at h with hpoint hnil
      · cases h
        exact ⟨rfl, nofun⟩
      · cases h
        obtain rfl := not_not.mp hpoint
        refine ⟨congrArg (chr '.' :: ·) List.takeWhile_append_dropWhile.symm, fun d hd => ?_⟩
        cases hd
        exact ⟨hnil, fun c hc => List.mem_takeWhile_imp hc⟩

theorem splitFraction_append {f : Option Bytes} (hf : ∀ d ∈ f, IsFraction d)
    (hz : ∀ c ∈ z.head?, isDigit c = false ∧ c ≠ chr '.') :
    splitFraction (fractionText f ++ z) = some (f, z) := by
  cases f with
  | none =>
      cases z with
      | nil => rfl
      | cons c z => exact if_pos (hz c rfl).2
  | some d =>
      obtain ⟨hne, hdigits⟩ := hf d rfl
      have htake : (d ++ z).takeWhile isDigit = d := by
        rw [List.takeWhile_append_of_pos hdigits]
        cases z with
        | nil => simp
        | cons c z => rw [List.takeWhile_cons_of_neg (by simp [(hz c rfl).1]), List.append_nil]
      have hdrop : (d ++ z).dropWhile isDigit = z := by
        have hsplit := List.takeWhile_append_dropWhile (p := isDigit) (l := d ++ z)
        rw [htake] at hsplit
        exact List.append_cancel_left hsplit
      have htext : fractionText (some d) ++ z = chr '.' :: (d ++ z) := rfl
      rw [htext, splitFraction, if_neg (not_not.mpr rfl), htake, hdrop, if_neg hne]

/-- The milliseconds are read up to what is no fraction. -/
theorem value_readMillis : (readMillis (pre ++ rest) pre.length).value =
    (splitFraction rest).map fun x => (pre.length + (fractionText x.1).length, millis x.1) := by
  have hget := @get_append pre rest 0
  rw [Nat.add_zero] at hget
  have hread : (Indexed.read (pre ++ rest) pre.length).value = rest[0]?.getD 0 := by
    rw [value_read, hget]
    rfl
  simp only [readMillis, value_ite, value_bind, value_pure, hread]
  cases rest with
  | nil => simp [splitFraction, fractionText, millis]
  | cons c rest =>
      have hshort : ¬ (pre ++ c :: rest).length ≤ pre.length := by simp
      rw [if_neg hshort]
      by_cases hc : c = chr '.'
      · have hfraction := @value_readFraction (pre ++ [c]) rest (pre ++ c :: rest).length 0 0 (by
          rw [List.length_append, List.length_cons]
          omega)
        have hone : (pre ++ [c]).length = pre.length + 1 := List.length_append
        rw [List.append_assoc, List.singleton_append, hone] at hfraction
        have hdigits : ∀ b ∈ rest.takeWhile isDigit, isDigit b = true := fun b hb =>
          List.mem_takeWhile_imp hb
        have hmillis := millis_eq hdigits
        have hpoint : ¬ (c :: rest)[0]?.getD 0 ≠ chr '.' := not_not.mpr hc
        rw [if_neg hpoint, splitFraction, if_neg (not_not.mpr hc)]
        simp only [hfraction, Nat.zero_add, Nat.sub_zero, hmillis, List.length_eq_zero_iff]
        split_ifs
        · rfl
        · simp only [Option.map_some, fractionText, Option.elim_some, List.length_cons, Nat.add_assoc,
            Nat.add_comm 1]
      · have hno : (c :: rest)[0]?.getD 0 ≠ chr '.' := hc
        rw [if_pos hno, splitFraction, if_pos hc]
        rfl

/-! ### The zone -/

/-- What the digits behind a sign are taken for. -/
def offsetOf : Bytes → Option (Int × Int)
  | [a, b] => some (pair a b, 0)
  | [a, b, d, e] => some (if 0 ≤ pair a b ∧ 0 ≤ pair d e then (pair a b, pair d e) else (-1, 0))
  | [a, b, c, d, e] => if c = chr ':' then some (pair a b, pair d e) else none
  | _ => none

theorem pair_nonneg_iff {a b : UInt8} : 0 ≤ pair a b ↔ 0 ≤ digit a ∧ 0 ≤ digit b := by
  unfold pair
  split_ifs <;> omega

theorem pair_eq_of_nonneg {a b : UInt8} (ha : 0 ≤ digit a) (hb : 0 ≤ digit b) :
    pair a b = digit a * 10 + digit b := if_neg (by omega)

theorem value_readOffset (c : UInt8) (o : Bytes) :
    (readOffset (pre ++ c :: o) pre.length).value = offsetOf o := by
  have hlength : (pre ++ c :: o).length - (pre.length + 1) = o.length := by
    rw [List.length_append, List.length_cons]
    omega
  have hget : ∀ i, (pre ++ c :: o)[pre.length + (i + 1)]?.getD 0 = o[i]?.getD 0 := fun i =>
    congrArg (·.getD 0) (get_append (i + 1))
  have hdig : ∀ i, (dig (pre ++ c :: o) (pre.length + (i + 1))).value = digit (o[i]?.getD 0) := fun i =>
    congrArg digit (hget i)
  have htwo : ∀ i, (two (pre ++ c :: o) (pre.length + (i + 1))).value =
      pair (o[i]?.getD 0) (o[i + 1]?.getD 0) := fun i => congrArg₂ pair (hget i) (hget (i + 1))
  have hread : (Indexed.read (pre ++ c :: o) (pre.length + 3)).value = o[2]?.getD 0 := hget 2
  have h1 := htwo 0
  have h4 := htwo 3
  have hd1 := hdig 0
  have hd2 := hdig 1
  have hd3 := hdig 2
  have hd4 := hdig 3
  simp only [readOffset, value_ite, value_bind, value_pure, hlength]
  have hthree : (Indexed.read (pre ++ c :: o) (pre.length + 3)).value = chr ':' ↔
    o[2]?.getD 0 = chr ':' := by rw [hread]
  rcases o with _ | ⟨a, _ | ⟨b, _ | ⟨d, _ | ⟨e, _ | ⟨f, _ | ⟨g, o⟩⟩⟩⟩⟩⟩
  · rfl
  · rfl
  · exact congrArg some (congrArg (·, 0) h1)
  · rfl
  · have hpairs : (0 ≤ pair a b ∧ 0 ≤ pair d e) ↔
        0 ≤ digit a ∧ 0 ≤ digit b ∧ 0 ≤ digit d ∧ 0 ≤ digit e := by
      rw [pair_nonneg_iff, pair_nonneg_iff, and_assoc]
    have hif : (if 0 ≤ digit a ∧ 0 ≤ digit b ∧ 0 ≤ digit d ∧ 0 ≤ digit e then
        (digit a * 10 + digit b, digit d * 10 + digit e) else (-1, 0)) =
        if 0 ≤ pair a b ∧ 0 ≤ pair d e then (pair a b, pair d e) else (-1, 0) := by
      by_cases h : 0 ≤ digit a ∧ 0 ≤ digit b ∧ 0 ≤ digit d ∧ 0 ≤ digit e
      · rw [if_pos h, if_pos (hpairs.mpr h), pair_eq_of_nonneg h.1 h.2.1,
          pair_eq_of_nonneg h.2.2.1 h.2.2.2]
      · rw [if_neg h, if_neg fun hp => h (hpairs.mp hp)]
    rw [offsetOf, ← hif]
    simp only [Nat.zero_add, Nat.reduceAdd] at hd1 hd2 hd3 hd4
    simp [hd1, hd2, hd3, hd4]
  · by_cases hd : d = chr ':'
    · subst hd
      simp only [Nat.zero_add, Nat.reduceAdd] at h1 h4
      simp [offsetOf, h1, h4]
    · simp [offsetOf, hd]
  · simp [offsetOf]

theorem offsetOf_iff {o : Bytes} {h m : Int} (hh : 0 ≤ h ∧ h ≤ 23) (hm : 0 ≤ m ∧ m ≤ 59) :
    offsetOf o = some (h, m) ↔ ∃ minutes : Option (Bool × Int), minutes.elim 0 Prod.snd = m ∧
      (∀ x ∈ minutes, 0 ≤ x.2 ∧ x.2 ≤ 59) ∧ o = twoDigits h ++ minutesText minutes := by
  have hdigits : ∀ {a b : UInt8} {n : Int}, 0 ≤ n → pair a b = n → [a, b] = twoDigits n :=
    fun hn heq => ((pair_eq_iff hn).mp heq).2
  constructor
  · intro hsome
    unfold offsetOf at hsome
    split at hsome
    · obtain ⟨hhours, hzero⟩ := Prod.mk.inj (Option.some.inj hsome)
      exact ⟨none, hzero, nofun, hdigits hh.1 hhours⟩
    · split_ifs at hsome with hpairs
      · obtain ⟨hhours, hvalue⟩ := Prod.mk.inj (Option.some.inj hsome)
        refine ⟨some (false, m), rfl, fun x hx => ?_, ?_⟩
        · cases hx
          exact hm
        · rw [minutesText, ← hdigits hh.1 hhours, ← hdigits hm.1 hvalue]
          rfl
      · obtain ⟨hhours, -⟩ := Prod.mk.inj (Option.some.inj hsome)
        omega
    · split_ifs at hsome with hcolon
      obtain ⟨hhours, hvalue⟩ := Prod.mk.inj (Option.some.inj hsome)
      refine ⟨some (true, m), rfl, fun x hx => ?_, ?_⟩
      · cases hx
        exact hm
      · rw [minutesText, ← hdigits hh.1 hhours, ← hdigits hm.1 hvalue, hcolon]
        rfl
    · cases hsome
  · rintro ⟨minutes, rfl, hminutes, rfl⟩
    have hvalue : ∀ {k : Int}, 0 ≤ k ∧ k ≤ 59 → pairOf (twoDigits k) = k := fun hk =>
      pairOf_twoDigits (by omega)
    have hhours : pairOf (twoDigits h) = h := hvalue (by omega)
    match minutes with
    | none => exact congrArg some (congrArg (·, 0) hhours)
    | some (true, m) => exact congrArg some (congrArg₂ Prod.mk hhours (hvalue hm))
    | some (false, m) =>
        have hboth : offsetOf (twoDigits h ++ minutesText (some (false, m))) =
            some (if 0 ≤ pairOf (twoDigits h) ∧ 0 ≤ pairOf (twoDigits m) then
              (pairOf (twoDigits h), pairOf (twoDigits m)) else (-1, 0)) := rfl
        have hm' : 0 ≤ m ∧ m ≤ 59 := hm
        rw [hboth, hhours, hvalue hm', if_pos ⟨hh.1, hm'.1⟩]
        rfl

theorem value_readZone : (readZone (pre ++ z) pre.length).value = some ((pre ++ z).length, off) ↔
    ∃ zone : Zone, zone.Valid ∧ z = zone.text ∧ off = zone.ahead := by
  cases z with
  | nil =>
      have hend : (pre ++ []).length ≤ pre.length := by simp
      simp only [readZone, value_pure, if_pos hend]
      constructor
      · intro h
        exact ⟨.unsaid, trivial, rfl, (Prod.mk.inj (Option.some.inj h)).2.symm⟩
      · rintro ⟨zone, -, htext, rfl⟩
        cases zone with
        | unsaid => simp [Zone.ahead]
        | utc => cases htext
        | offset o => cases htext
  | cons c o =>
      have hshort : ¬ (pre ++ c :: o).length ≤ pre.length := by simp
      have hread : (Indexed.read (pre ++ c :: o) pre.length).value = c := by
        rw [value_read, List.getElem?_append_right (le_refl _), Nat.sub_self]
        rfl
      have hsign : ∀ west : Bool, (if west then chr '-' else chr '+') ≠ chr 'Z' := by decide
      simp only [readZone, value_ite, value_bind, value_pure, if_neg hshort, value_readOffset]
      rw [hread]
      by_cases hutc : c = chr 'Z'
      · rw [if_pos hutc]
        constructor
        · intro h
          obtain ⟨hlength, rfl⟩ := Prod.mk.inj (Option.some.inj h)
          rw [List.length_append, List.length_cons] at hlength
          obtain rfl : o = [] := List.length_eq_zero_iff.mp (by omega)
          exact ⟨.utc, trivial, by rw [hutc]; rfl, rfl⟩
        · rintro ⟨zone, -, htext, rfl⟩
          cases zone with
          | unsaid => cases htext
          | utc =>
              rw [(List.cons.inj htext).2, List.length_append]
              rfl
          | offset z => exact absurd ((List.cons.inj htext).1.symm.trans hutc) (hsign z.west)
      · rw [if_neg hutc]
        have hvalue : ∀ {h m : Int}, (0 ≤ h ∧ h ≤ 23) → (0 ≤ m ∧ m ≤ 59) →
            (offsetOf o = some (h, m) ↔ ∃ minutes : Option (Bool × Int),
              minutes.elim 0 Prod.snd = m ∧ (∀ x ∈ minutes, 0 ≤ x.2 ∧ x.2 ≤ 59) ∧
                o = twoDigits h ++ minutesText minutes) := fun hh hm => offsetOf_iff hh hm
        constructor
        · intro h
          by_cases hplus : c = chr '+' ∨ c = chr '-'
          case neg =>
            rw [if_neg hplus] at h
            cases h
          rw [if_pos hplus] at h
          revert h
          cases hoffset : offsetOf o with
          | none =>
              intro h
              cases h
          | some x =>
              intro h
              simp only [value_ite, value_pure] at h
              by_cases hrange : x.1 < 0 ∨ 23 < x.1 ∨ x.2 < 0 ∨ 59 < x.2
              case pos =>
                rw [if_pos hrange] at h
                cases h
              rw [if_neg hrange] at h
              obtain ⟨-, rfl⟩ := Prod.mk.inj (Option.some.inj h)
              obtain ⟨minutes, hminutes, hvalid, htext⟩ := (hvalue (by omega) (by omega)).mp hoffset
              refine ⟨.offset ⟨c = chr '-', x.1, minutes⟩, ⟨by dsimp only; omega, hvalid⟩, ?_, ?_⟩
              · have hc : c = if decide (c = chr '-') = true then chr '-' else chr '+' := by
                  rcases hplus with rfl | rfl <;> rfl
                rw [Zone.text, Offset.text, ← hc, htext]
              · simp only [Zone.ahead, Offset.ahead, hminutes, decide_eq_true_eq]
        · rintro ⟨zone, hvalid, htext, rfl⟩
          cases zone with
          | unsaid => cases htext
          | utc => exact absurd (List.cons.inj htext).1 hutc
          | offset z =>
              obtain ⟨rfl, hdigits⟩ := List.cons.inj htext
              obtain ⟨hh, hm⟩ := hvalid
              have hmin : 0 ≤ z.minutes.elim 0 Prod.snd ∧ z.minutes.elim 0 Prod.snd ≤ 59 := by
                cases hz : z.minutes with
                | none => decide
                | some m => exact hm m hz
              have hoffset := (hvalue hh hmin).mpr ⟨z.minutes, rfl, hm, hdigits⟩
              have hplus : (if z.west then chr '-' else chr '+') = chr '+' ∨
                  (if z.west then chr '-' else chr '+') = chr '-' := by
                cases z.west <;> decide
              have hwest : (if z.west then chr '-' else chr '+') = chr '-' ↔ z.west = true := by
                cases z.west <;> decide
              rw [if_pos hplus, hoffset]
              simp only [value_ite, value_pure, hwest]
              rw [if_neg (by omega)]
              rfl

/-! ### The whole text -/

theorem exists_cells_time (h : 19 ≤ s.length) :
    ∃ c0 c1 c2 c3 c4 c5 c6 c7 c8 c9 c10 c11 c12 c13 c14 c15 c16 c17 c18 rest,
      s = [c0, c1, c2, c3, c4, c5, c6, c7, c8, c9, c10, c11, c12, c13, c14, c15, c16, c17, c18] ++
        rest := by
  obtain ⟨cells, rest, hlength, rfl⟩ : ∃ cells rest : Bytes, cells.length = 19 ∧ s = cells ++ rest :=
    ⟨s.take 19, s.drop 19, by simpa using h, (List.take_append_drop 19 s).symm⟩
  match cells, hlength with
  | [c0, c1, c2, c3, c4, c5, c6, c7, c8, c9, c10, c11, c12, c13, c14, c15, c16, c17, c18], _ =>
      exact ⟨c0, c1, c2, c3, c4, c5, c6, c7, c8, c9, c10, c11, c12, c13, c14, c15, c16, c17, c18, rest,
        rfl⟩

theorem timeText_eq_iff
    {c0 c1 c2 c3 c4 c5 c6 c7 c8 c9 c10 c11 c12 c13 c14 c15 c16 c17 c18 : UInt8} :
    [c0, c1, c2, c3, c4, c5, c6, c7, c8, c9, c10, c11, c12, c13, c14, c15, c16, c17, c18] ++ rest =
        timeText t sep fraction zone ↔
      [c0, c1, c2, c3] = fourDigits t.year ∧ c4 = chr '-' ∧ [c5, c6] = twoDigits t.month ∧
        c7 = chr '-' ∧ [c8, c9] = twoDigits t.day ∧ c10 = sep ∧ [c11, c12] = twoDigits t.hour ∧
        c13 = chr ':' ∧ [c14, c15] = twoDigits t.minute ∧ c16 = chr ':' ∧
        [c17, c18] = twoDigits t.second ∧ rest = fractionText fraction ++ zone.text := by
  simp [timeText, dateText, clockText, fourDigits, twoDigits, and_assoc]

theorem Zone.head_text (zone : Zone) : ∀ c ∈ zone.text.head?, isDigit c = false ∧ c ≠ chr '.' := by
  have hsign : ∀ west : Bool, isDigit (if west then chr '-' else chr '+') = false ∧
      (if west then chr '-' else chr '+') ≠ chr '.' := by decide
  intro c hc
  cases zone with
  | unsaid => cases hc
  | utc =>
      cases hc
      decide
  | offset o =>
      cases hc
      exact hsign o.west

/-- What is read behind the seconds. -/
theorem tail_iff {ms : Int} :
    (∃ x, (readMillis (pre ++ rest) pre.length).value = some x ∧ x.2 = ms ∧
      (readZone (pre ++ rest) x.1).value = some ((pre ++ rest).length, off)) ↔
    ∃ fraction, ∃ zone : Zone, (∀ d ∈ fraction, IsFraction d) ∧ zone.Valid ∧
      rest = fractionText fraction ++ zone.text ∧ ms = millis fraction ∧ off = zone.ahead := by
  have hzone : ∀ (fraction : Option Bytes) (z : Bytes),
      (readZone (pre ++ (fractionText fraction ++ z)) (pre.length + (fractionText fraction).length)).value =
          some ((pre ++ (fractionText fraction ++ z)).length, off) ↔
        ∃ zone : Zone, zone.Valid ∧ z = zone.text ∧ off = zone.ahead := by
    intro fraction z
    rw [← List.append_assoc, ← List.length_append]
    exact value_readZone
  rw [value_readMillis]
  constructor
  · rintro ⟨x, hx, rfl, hread⟩
    obtain ⟨⟨fraction, z⟩, hsplit, rfl⟩ := Option.map_eq_some_iff.mp hx
    obtain ⟨rfl, hfraction⟩ := splitFraction_spec hsplit
    obtain ⟨zone, hvalid, rfl, rfl⟩ := (hzone fraction z).mp hread
    exact ⟨fraction, zone, hfraction, hvalid, rfl, rfl, rfl⟩
  · rintro ⟨fraction, zone, hfraction, hvalid, rfl, rfl, rfl⟩
    rw [splitFraction_append hfraction zone.head_text]
    exact ⟨_, rfl, rfl, (hzone fraction zone.text).mpr ⟨zone, hvalid, rfl, rfl⟩⟩

theorem length_of_stands (h : Stands s t sep fraction zone) : 19 ≤ s.length := by
  rw [h.text]
  simp only [timeText, dateText, clockText, List.length_append, List.length_cons, length_fourDigits,
    twoDigits, List.length_nil]
  omega

/-- The steps of the clock add up to one that is wrapped once. -/
theorem wrapTicks_ticks (t : Civil) (fraction : Option Bytes) (zone : Zone) :
    (let n := wrapTicks (seconds t * 1000000000)
     let n := if zone.ahead ≠ 0 then wrapTicks (n - zone.ahead * 60 * 1000000000) else n
     if millis fraction ≠ 0 then wrapTicks (n + millis fraction * 1000000) else n) =
      wrapTicks (ticks t fraction zone) := by
  have hadd : ∀ a b, wrapTicks (wrapTicks a + b) = wrapTicks (a + b) := fun a b => Int.bmod_add_bmod
  have hsub : ∀ a b, wrapTicks (wrapTicks a - b) = wrapTicks (a - b) := fun a b => Int.bmod_sub_bmod
  have hticks : ticks t fraction zone =
      seconds t * 1000000000 - zone.ahead * 60 * 1000000000 + millis fraction * 1000000 := by
    unfold ticks
    ring
  rw [hticks]
  dsimp only
  have hzone : (if zone.ahead ≠ 0 then wrapTicks (wrapTicks (seconds t * 1000000000) -
      zone.ahead * 60 * 1000000000) else wrapTicks (seconds t * 1000000000)) =
      wrapTicks (seconds t * 1000000000 - zone.ahead * 60 * 1000000000) := by
    split_ifs with h
    · exact hsub _ _
    · rw [not_not.mp h, zero_mul, zero_mul, sub_zero]
  rw [hzone]
  split_ifs with h
  · exact hadd _ _
  · rw [not_not.mp h, zero_mul, add_zero]

theorem value_readTail (hpre : pre.length = 19) : (readTail (pre ++ rest) t).value = some n ↔
    t.day ≤ maxDay t.year t.month ∧ ∃ fraction, ∃ zone : Zone, (∀ d ∈ fraction, IsFraction d) ∧
      zone.Valid ∧ rest = fractionText fraction ++ zone.text ∧ n = wrapTicks (ticks t fraction zone) := by
  have htail := @tail_iff pre rest
  rw [hpre] at htail
  simp only [readTail, value_bind]
  constructor
  · intro h
    cases hmillis : (readMillis (pre ++ rest) 19).value with
    | none =>
        rw [hmillis] at h
        cases h
    | some x =>
        simp only [hmillis, value_bind] at h
        cases hzone : (readZone (pre ++ rest) x.1).value with
        | none =>
            rw [hzone] at h
            cases h
        | some y =>
            simp only [hzone, value_ite, value_pure, Option.ite_none_left_eq_some] at h
            obtain ⟨hend, hday, hn⟩ := h
            have hy : y = ((pre ++ rest).length, y.2) := Prod.ext (not_not.mp hend) rfl
            obtain ⟨fraction, zone, hfraction, hvalid, htext, hms, hoff⟩ :=
              htail.mp ⟨x, hmillis, rfl, hzone.trans (congrArg some hy)⟩
            refine ⟨not_lt.mp hday, fraction, zone, hfraction, hvalid, htext, ?_⟩
            rw [← wrapTicks_ticks, ← hms, ← hoff]
            exact (Option.some.inj hn).symm
  · rintro ⟨hday, fraction, zone, hfraction, hvalid, htext, rfl⟩
    obtain ⟨x, hmillis, hms, hzone⟩ := htail.mpr ⟨fraction, zone, hfraction, hvalid, htext, rfl, rfl⟩
    simp only [hmillis, value_bind, hzone, value_ite, value_pure]
    rw [if_neg (not_not.mpr rfl), if_neg (not_lt.mpr hday), hms]
    exact congrArg some (wrapTicks_ticks t fraction zone)

section

variable {c0 c1 c2 c3 c4 c5 c6 c7 c8 c9 c10 c11 c12 c13 c14 c15 c16 c17 c18 : UInt8}

/-- The time that nineteen bytes are read as. -/
def readAs (c0 c1 c2 c3 c5 c6 c8 c9 c11 c12 c14 c15 c17 c18 : UInt8) : Civil :=
  ⟨digit c0 * 1000 + digit c1 * 100 + digit c2 * 10 + digit c3, pair c5 c6, pair c8 c9, pair c11 c12,
    pair c14 c15, pair c17 c18⟩

theorem value_cells (h : s = [c0, c1, c2, c3, c4, c5, c6, c7, c8, c9, c10, c11, c12, c13, c14, c15, c16,
    c17, c18] ++ rest) : (parsePgOrIsoUtc s).value = some n ↔
    (0 ≤ digit c0 ∧ 0 ≤ digit c1 ∧ 0 ≤ digit c2 ∧ 0 ≤ digit c3) ∧ c4 = chr '-' ∧ c7 = chr '-' ∧
      (1 ≤ pair c5 c6 ∧ pair c5 c6 ≤ 12 ∧ 1 ≤ pair c8 c9 ∧ pair c8 c9 ≤ 31) ∧
      (c10 = chr ' ' ∨ c10 = chr 'T') ∧
      (0 ≤ pair c11 c12 ∧ pair c11 c12 ≤ 23 ∧ 0 ≤ pair c14 c15 ∧ pair c14 c15 ≤ 59 ∧
        0 ≤ pair c17 c18 ∧ pair c17 c18 ≤ 60) ∧ c13 = chr ':' ∧ c16 = chr ':' ∧
      (readTail s (readAs c0 c1 c2 c3 c5 c6 c8 c9 c11 c12 c14 c15 c17 c18)).value = some n := by
  have hlength : 19 ≤ s.length := by
    rw [h, List.length_append]
    exact Nat.le_add_right _ _
  have hget : ∀ i : Nat, s[i]?.getD 0 = ([c0, c1, c2, c3, c4, c5, c6, c7, c8, c9, c10, c11, c12, c13, c14, c15,
    c16, c17, c18] ++ rest)[i]?.getD 0 := fun i => by rw [h]
  have hread : ∀ i : Nat, (Indexed.read s i).value = s[i]?.getD 0 := fun i => rfl
  simp only [parsePgOrIsoUtc, value_bind, value_pure, value_ite, Option.ite_none_left_eq_some, not_lt,
    hlength, true_and]
  simp only [value_dig, value_two, hread, hget, List.cons_append, List.nil_append,
    List.getElem?_cons_succ, List.getElem?_cons_zero, Option.getD_some, ne_eq, not_not, not_or, not_lt,
    not_and, and_assoc]
  have hsep : (¬ c10 = chr 'T' → c10 = chr ' ') ↔ (c10 = chr ' ' ∨ c10 = chr 'T') := by
    rw [or_comm, or_iff_not_imp_left]
  rw [hsep]
  rfl

theorem text_of_cells (hdigits : 0 ≤ digit c0 ∧ 0 ≤ digit c1 ∧ 0 ≤ digit c2 ∧ 0 ≤ digit c3)
    (ht : DayTime 60 (readAs c0 c1 c2 c3 c5 c6 c8 c9 c11 c12 c14 c15 c17 c18))
    (htail : rest = fractionText fraction ++ zone.text) :
    [c0, c1, c2, c3, chr '-', c5, c6, chr '-', c8, c9, sep, c11, c12, chr ':', c14, c15, chr ':', c17,
        c18] ++ rest =
      timeText (readAs c0 c1 c2 c3 c5 c6 c8 c9 c11 c12 c14 c15 c17 c18) sep fraction zone := by
  have hpair : ∀ {a b : UInt8} {k : Int}, pair a b = k → 0 ≤ k → [a, b] = twoDigits k := fun h hk =>
    ((pair_eq_iff hk).mp h).2
  have hmonth := ht.month
  have hday := ht.day
  exact timeText_eq_iff.mpr ⟨(fourDigits_eq_iff ht.year).mpr ⟨hdigits, rfl⟩, rfl,
    hpair rfl (by omega), rfl, hpair rfl (by omega), rfl, hpair rfl ht.hour.1, rfl,
    hpair rfl ht.minute.1, rfl, hpair rfl ht.second.1, htail⟩

theorem readAs_of_text (ht : DayTime 60 t)
    (h : [c0, c1, c2, c3, c4, c5, c6, c7, c8, c9, c10, c11, c12, c13, c14, c15, c16, c17, c18] ++ rest =
      timeText t sep fraction zone) :
    (0 ≤ digit c0 ∧ 0 ≤ digit c1 ∧ 0 ≤ digit c2 ∧ 0 ≤ digit c3) ∧
      readAs c0 c1 c2 c3 c5 c6 c8 c9 c11 c12 c14 c15 c17 c18 = t := by
  obtain ⟨hy, -, hmo, -, hd, -, hh, -, hmi, -, hsec, -⟩ := timeText_eq_iff.mp h
  obtain ⟨hyear, hmonth, hday, hhour, hminute, hsecond⟩ := ht
  have hmonthDays := daysInMonth_le t.year t.month
  obtain ⟨hdigits, hyearEq⟩ := (fourDigits_eq_iff (by omega)).mp hy
  have hpair : ∀ {a b : UInt8} {k : Int}, [a, b] = twoDigits k → 0 ≤ k ∧ k ≤ 99 → pair a b = k :=
    fun h hk => (pair_eq_iff hk.1).mpr ⟨hk.2, h⟩
  refine ⟨hdigits, ?_⟩
  rw [readAs, hyearEq, hpair hmo (by omega), hpair hd (by omega), hpair hh (by omega),
    hpair hmi (by omega), hpair hsec (by omega)]

end

/-- `parse_pg_or_iso_utc` accepts what has the parts of a time in their places. -/
theorem value_parsePgOrIsoUtc : (parsePgOrIsoUtc s).value = some n ↔
    ∃ t sep fraction zone, Stands s t sep fraction zone ∧ n = wrapTicks (ticks t fraction zone) := by
  by_cases hlength : 19 ≤ s.length
  · obtain ⟨c0, c1, c2, c3, c4, c5, c6, c7, c8, c9, c10, c11, c12, c13, c14, c15, c16, c17, c18, rest,
      hs⟩ := exists_cells_time hlength
    rw [value_cells hs]
    obtain ⟨t, ht⟩ : ∃ t, t = readAs c0 c1 c2 c3 c5 c6 c8 c9 c11 c12 c14 c15 c17 c18 := ⟨_, rfl⟩
    rw [← ht, hs, value_readTail rfl]
    constructor
    · rintro ⟨hdigits, rfl, rfl, hdate, hsep, hclock, rfl, rfl, hday, fraction, zone, hfraction, hvalid,
        hrest, rfl⟩
      have hmonth : 1 ≤ t.month ∧ t.month ≤ 12 := by rw [ht]; exact ⟨hdate.1, hdate.2.1⟩
      have h0 := digit_bounds c0
      have h1 := digit_bounds c1
      have h2 := digit_bounds c2
      have h3 := digit_bounds c3
      rw [maxDay_eq hmonth] at hday
      have htime : DayTime 60 t :=
        { year := by rw [ht, readAs]; dsimp only; omega
          month := hmonth
          day := ⟨by rw [ht]; exact hdate.2.2.1, hday⟩
          hour := by rw [ht]; exact ⟨hclock.1, hclock.2.1⟩
          minute := by rw [ht]; exact ⟨hclock.2.2.1, hclock.2.2.2.1⟩
          second := by rw [ht]; exact hclock.2.2.2.2 }
      exact ⟨t, c10, fraction, zone, ⟨htime, hsep, hfraction, hvalid, ht ▸
        text_of_cells hdigits (ht ▸ htime) hrest⟩, rfl⟩
    · rintro ⟨t', sep, fraction, zone, hstands, rfl⟩
      obtain ⟨hdigits, hread⟩ := readAs_of_text hstands.time hstands.text
      obtain rfl : t = t' := ht.trans hread
      have htext := timeText_eq_iff.mp hstands.text
      have hmonthDays := daysInMonth_le t.year t.month
      obtain ⟨-, hmonth, hday, hhour, hminute, hsecond⟩ := hstands.time
      have hsep : c10 = chr ' ' ∨ c10 = chr 'T' := htext.2.2.2.2.2.1 ▸ hstands.sep
      have hclock := hhour.1
      refine ⟨hdigits, htext.2.1, htext.2.2.2.1, ?_, hsep, ?_, htext.2.2.2.2.2.2.2.1,
        htext.2.2.2.2.2.2.2.2.2.1, ?_, fraction, zone, hstands.fraction, hstands.zone,
        htext.2.2.2.2.2.2.2.2.2.2.2, rfl⟩
      · rw [ht] at hmonth hday
        exact ⟨hmonth.1, hmonth.2, hday.1, by rw [ht] at hmonthDays; exact hday.2.trans hmonthDays⟩
      · rw [ht] at hhour hminute hsecond
        exact ⟨hhour.1, hhour.2, hminute.1, hminute.2, hsecond⟩
      · rw [maxDay_eq hmonth]
        exact hday.2
  · refine iff_of_false ?_ ?_
    · simp [parsePgOrIsoUtc, not_le.mp hlength]
    · rintro ⟨t, sep, fraction, zone, hs, -⟩
      exact hlength (length_of_stands hs)

/-! ### One text, one reading -/

theorem Zone.text_eq_utc_iff : zone.text = [chr 'Z'] ↔ zone = .utc := by
  have hsign : ∀ west : Bool, (if west then chr '-' else chr '+') ≠ chr 'Z' := by decide
  cases zone with
  | unsaid => exact iff_of_false nofun nofun
  | utc => exact iff_of_true rfl rfl
  | offset o => exact iff_of_false (fun h => hsign o.west (List.cons.inj h).1) nofun

theorem Zone.ahead_eq {zone' : Zone} (hvalid : zone.Valid) (hvalid' : zone'.Valid)
    (h : zone.text = zone'.text) : zone.ahead = zone'.ahead := by
  have hread := (@value_readZone [] zone.text zone.ahead).mpr ⟨zone, hvalid, rfl, rfl⟩
  have hread' := (@value_readZone [] zone.text zone'.ahead).mpr ⟨zone', hvalid', h, rfl⟩
  exact (Prod.mk.inj (Option.some.inj (hread.symm.trans hread'))).2

theorem stands_unique {t' : Civil} {sep' : UInt8} {fraction' : Option Bytes} {zone' : Zone}
    (h : Stands s t sep fraction zone) (h' : Stands s t' sep' fraction' zone') :
    t = t' ∧ sep = sep' ∧ fraction = fraction' ∧ zone.text = zone'.text := by
  obtain ⟨c0, c1, c2, c3, c4, c5, c6, c7, c8, c9, c10, c11, c12, c13, c14, c15, c16, c17, c18, rest,
    rfl⟩ := exists_cells_time (length_of_stands h)
  have hread := (readAs_of_text h.time h.text).2
  have hread' := (readAs_of_text h'.time h'.text).2
  obtain ⟨-, -, -, -, -, hsep, -, -, -, -, -, hrest⟩ := timeText_eq_iff.mp h.text
  obtain ⟨-, -, -, -, -, hsep', -, -, -, -, -, hrest'⟩ := timeText_eq_iff.mp h'.text
  have hsplit := splitFraction_append h.fraction zone.head_text
  have hsplit' := splitFraction_append h'.fraction zone'.head_text
  rw [← hrest] at hsplit
  rw [← hrest'] at hsplit'
  obtain ⟨hfraction, hzone⟩ := Prod.mk.inj (Option.some.inj (hsplit.symm.trans hsplit'))
  exact ⟨hread.symm.trans hread', hsep.symm.trans hsep', hfraction, hzone⟩

/-! ### Accepted as documented -/

theorem wrapTicks_eq_self_iff : wrapTicks n = n ↔ -2 ^ 63 ≤ n ∧ n < 2 ^ 63 := by
  constructor
  · intro h
    have hlow : -2 ^ 63 ≤ wrapTicks n := Int.le_bmod (by decide)
    have hhigh : wrapTicks n < 2 ^ 63 := Int.bmod_lt (by decide)
    rw [h] at hlow hhigh
    exact ⟨hlow, hhigh⟩
  · rintro ⟨hlow, hhigh⟩
    exact Int.bmod_eq_of_le hlow hhigh

theorem length_minuteText (t : Civil) : (dateText t ++ chr 'T' :: (twoDigits t.hour ++
    chr ':' :: (twoDigits t.minute ++ [chr 'Z']))).length = 17 := rfl

theorem stands_pg (ht : DayTime 59 t) (hfraction : ∀ d ∈ fraction, IsFraction d) (hzone : zone.Valid)
    (hs : s = timeText t (chr ' ') fraction zone) : Stands s t (chr ' ') fraction zone :=
  ⟨⟨ht.year, ht.month, ht.day, ht.hour, ht.minute, ht.second.1, ht.second.2.trans (by decide)⟩, .inl rfl,
    hfraction, hzone, hs⟩

theorem stands_iso (ht : DayTime 59 t) (hs : s = timeText t (chr 'T') none .utc) :
    Stands s t (chr 'T') none .utc :=
  ⟨⟨ht.year, ht.month, ht.day, ht.hour, ht.minute, ht.second.1, ht.second.2.trans (by decide)⟩, .inr rfl,
    nofun, trivial, hs⟩

/-- A documented text stands in the places that are read, unless it has no seconds. -/
theorem stands_of_denotes (h : Denotes s n) (hlength : s.length ≠ 17) :
    ∃ t sep fraction zone, Stands s t sep fraction zone ∧ n = ticks t fraction zone ∧ t.second ≤ 59 ∧
      ((sep = chr ' ' ∧ zone ≠ .utc) ∨ (sep = chr 'T' ∧ fraction = none ∧ zone = .utc)) := by
  cases h with
  | pg ht hfraction hzone hsaid hs =>
      exact ⟨_, _, _, _, stands_pg ht hfraction hzone hs, rfl, ht.second.2, .inl ⟨rfl, hsaid⟩⟩
  | iso ht hs => exact ⟨_, _, _, _, stands_iso ht hs, rfl, ht.second.2, .inr ⟨rfl, rfl, rfl⟩⟩
  | minute ht hsecond hs => exact absurd (hs ▸ length_minuteText _) hlength

/-- Exactly the regular texts are read as documented, and a voucher is usable by its text only while
it is active and, if it expires, not after the instant. -/
theorem denotes_iff (s : Bytes) :
    ((∀ n, (parsePgOrIsoUtc s).value = some n ↔ Denotes s n) ∧
      ∀ (now : Int) (v : Voucher), v.expiresAt = s →
        voucherUsable (fun s => (parsePgOrIsoUtc s).value) now v = true →
          v.isActive = true ∧ (s = [] ∨ ∃ n, Denotes s n ∧ now ≤ n)) ↔ Regular s := by
  constructor
  · rintro ⟨hall, -⟩
    have hdenoted : ∀ t sep fraction zone, Stands s t sep fraction zone →
        wrapTicks (ticks t fraction zone) = ticks t fraction zone ∧ t.second ≤ 59 ∧
          ((sep = chr ' ' ∧ zone ≠ .utc) ∨ (sep = chr 'T' ∧ fraction = none ∧ zone = .utc)) := by
      intro t sep fraction zone hs
      have hread := (hall _).mp (value_parsePgOrIsoUtc.mpr ⟨t, sep, fraction, zone, hs, rfl⟩)
      have hlength := length_of_stands hs
      obtain ⟨t', sep', fraction', zone', hs', hn, hsecond, hform⟩ :=
        stands_of_denotes hread (by omega)
      obtain ⟨rfl, rfl, rfl, hzone⟩ := stands_unique hs hs'
      have hutc : zone = .utc ↔ zone' = .utc := by
        rw [← Zone.text_eq_utc_iff, hzone, Zone.text_eq_utc_iff]
      rw [hn, ticks, ticks, Zone.ahead_eq hs.zone hs'.zone hzone, ne_eq, hutc]
      exact ⟨rfl, hsecond, hform⟩
    refine ⟨fun t sep fraction zone hs => (hdenoted t sep fraction zone hs).2.2, ?_, ?_, ?_⟩
    · intro t sep fraction zone hs
      have hsecond := (hdenoted t sep fraction zone hs).2.1
      omega
    · intro t sep fraction zone hs
      exact wrapTicks_eq_self_iff.mp (hdenoted t sep fraction zone hs).1
    · intro t ht hs
      have hminute : Denotes s (ticks { t with second := 0 } none .utc) :=
        .minute ⟨ht.year, ht.month, ht.day, ht.hour, ht.minute, le_refl _, by dsimp only; decide⟩ rfl hs
      obtain ⟨t', sep, fraction, zone, hstands, -⟩ := value_parsePgOrIsoUtc.mp ((hall _).mpr hminute)
      have hlength := length_of_stands hstands
      have hshort := length_minuteText t
      rw [← hs] at hshort
      omega
  · intro hregular
    have hread : ∀ n, (parsePgOrIsoUtc s).value = some n ↔ Denotes s n := by
      intro n
      rw [value_parsePgOrIsoUtc]
      constructor
      · rintro ⟨t, sep, fraction, zone, hs, rfl⟩
        rw [wrapTicks_eq_self_iff.mpr (hregular.range t sep fraction zone hs)]
        have hsecond := hregular.second t sep fraction zone hs
        have hlast := hs.time.second
        have ht : DayTime 59 t := ⟨hs.time.year, hs.time.month, hs.time.day, hs.time.hour,
          hs.time.minute, hlast.1, by omega⟩
        rcases hregular.form t sep fraction zone hs with ⟨rfl, hsaid⟩ | ⟨rfl, rfl, rfl⟩
        · exact .pg ht hs.fraction hs.zone hsaid hs.text
        · exact .iso ht hs.text
      · intro hdenotes
        have hlength : s.length ≠ 17 := by
          intro hshort
          cases hdenotes with
          | pg ht hfraction hzone hsaid hs =>
              have hlong := length_of_stands (stands_pg ht hfraction hzone hs)
              omega
          | iso ht hs =>
              have hlong := length_of_stands (stands_iso ht hs)
              omega
          | minute ht hsecond hs => exact hregular.long _ ht hs
        obtain ⟨t, sep, fraction, zone, hs, rfl, -⟩ := stands_of_denotes hdenotes hlength
        exact ⟨t, sep, fraction, zone, hs,
          (wrapTicks_eq_self_iff.mpr (hregular.range t sep fraction zone hs)).symm⟩
    refine ⟨hread, ?_⟩
    rintro now v rfl husable
    unfold voucherUsable at husable
    by_cases hactive : v.isActive = true
    · rw [hactive, if_neg (by decide)] at husable
      by_cases hempty : v.expiresAt = []
      · exact ⟨hactive, .inl hempty⟩
      · rw [if_neg hempty] at husable
        dsimp only at husable
        cases hvalue : (parsePgOrIsoUtc v.expiresAt).value with
        | none =>
            rw [hvalue] at husable
            cases husable
        | some n =>
            rw [hvalue] at husable
            have hlate : now ≤ n := by simpa using husable
            exact ⟨hactive, .inr ⟨n, (hread n).mp hvalue, hlate⟩⟩
    · rw [Bool.not_eq_true] at hactive
      rw [hactive] at husable
      cases husable

/-- An ISO time without seconds is refused. -/
theorem not_denotes : ¬ ∀ s : Bytes,
    (∀ n, (parsePgOrIsoUtc s).value = some n ↔ Denotes s n) ∧
      ∀ (now : Int) (v : Voucher), v.expiresAt = s →
        voucherUsable (fun s => (parsePgOrIsoUtc s).value) now v = true →
          v.isActive = true ∧ (s = [] ∨ ∃ n, Denotes s n ∧ now ≤ n) := by
  intro hall
  have hdenotes : Denotes (str "2026-09-09T12:34Z") (ticks ⟨2026, 9, 9, 12, 34, 0⟩ none .utc) :=
    .minute ⟨by decide, by decide, by decide, by decide, by decide, by decide⟩ rfl (by decide)
  have hrefused : (parsePgOrIsoUtc (str "2026-09-09T12:34Z")).value = none := by decide
  rw [← (hall _).1, hrefused] at hdenotes
  cases hdenotes

end

end ExamVan.Helpers
