import ExamVan.Helpers.PgTimes

/-!
# Times on result pages

`iso_utc_from_pg` cuts a time of the database to its first nineteen bytes and puts `T` and `Z` in,
and `wib_display` reads the result back and writes it seven hours later. An offset is cut off with the
rest, and a time that ends in `Z` there loses it.
-/

namespace ExamVan.Public

open ByteString Calendar Helpers

/-! ### The code -/

/-- `iso_utc_from_pg` -/
def isoUtcFromPg (raw : Bytes) : Bytes :=
  let sp := raw.findIdx (· = chr ' ')
  let s := if sp < raw.length ∧ sp < 12 then raw.set sp (chr 'T') else raw
  if 19 ≤ s.length ∧ s[10]? = some (chr 'T') then
    if 19 < s.length ∧ s[19]? ≠ some (chr 'Z') then s.take 19 ++ [chr 'Z'] else s.take 19
  else if s ≠ [] ∧ s.getLast? ≠ some (chr 'Z') then s ++ [chr 'Z']
  else s

/-- `strftime` with `%Y-%m-%d %H:%M` -/
def strftimeMinute (t : Civil) : Bytes :=
  intText t.year ++ chr '-' :: (twoDigits t.month ++ chr '-' :: (twoDigits t.day ++ chr ' ' ::
    (twoDigits t.hour ++ chr ':' :: twoDigits t.minute)))

/-- `wib_display` -/
def wibDisplay (raw : Bytes) : Bytes :=
  match parseIsoUtc (isoUtcFromPg raw) with
  | none => []
  | some t => strftimeMinute (civil ((addMinutes t 420).tdiv 1000000000))

/-! ### The texts of an instant -/

/-- The years are written with four digits at least. -/
def yearText (year : Int) : Bytes := if year < 10000 then fourDigits year else intText year

/-- An offset in seconds as PostgreSQL writes it; minutes and seconds only if there are some. -/
def offsetText (offset : Int) : Bytes :=
  let a := |offset|
  let hours := if a / 3600 < 100 then twoDigits (a / 3600) else intText (a / 3600)
  let secs := if a % 60 = 0 then [] else chr ':' :: twoDigits (a % 60)
  (if offset < 0 then chr '-' else chr '+') :: (hours ++
    if a % 3600 = 0 then [] else chr ':' :: (twoDigits (a % 3600 / 60) ++ secs))

/-- A `timestamptz` in a session with an offset. -/
def pgText (n offset : Int) (fraction : Option Bytes) : Bytes :=
  let t := civil (n + offset)
  yearText t.year ++ chr '-' :: (twoDigits t.month ++ chr '-' :: (twoDigits t.day ++ chr ' ' ::
    (clockText t ++ (fractionText fraction ++ offsetText offset))))

/-- The forms in which an instant can be given. -/
inductive TimeForm
  | pg (offset : Int) (fraction : Option Bytes)
  | iso (fraction : Option Bytes)
  | isoMinute

/-- The text of a number of seconds from 1970. -/
def TimeForm.text (n : Int) : TimeForm → Bytes
  | pg offset fraction => pgText n offset fraction
  | iso fraction => timeText (civil n) (chr 'T') fraction .utc
  | isoMinute => dateText (civil n) ++ chr 'T' :: (twoDigits (civil n).hour ++ chr ':' ::
      (twoDigits (civil n).minute ++ [chr 'Z']))

/-- Offsets are less than a week, fractions have digits, and what has no seconds begins a minute. -/
def TimeForm.Valid (n : Int) : TimeForm → Prop
  | pg offset fraction => (-604800 < offset ∧ offset < 604800) ∧ ∀ d ∈ fraction, IsFraction d
  | iso fraction => ∀ d ∈ fraction, IsFraction d
  | isoMinute => n % 60 = 0

def isoText (n : Int) : Bytes := strftime (civil n)

/-- The local time at UTC+7. -/
def displayText (n : Int) : Bytes := strftimeMinute (civil (n + 7 * 3600))

/-- The forms that are read: a `timestamptz` of a session in UTC, and an ISO time with a fraction. -/
def TimeForm.Shown : TimeForm → Prop
  | pg offset _ => offset = 0
  | iso fraction => fraction ≠ none
  | isoMinute => False

/-- The clock holds the local time. -/
def InRange (n : Int) : Prop :=
  -2 ^ 63 ≤ (n + 7 * 3600) * 1000000000 ∧ (n + 7 * 3600) * 1000000000 < 2 ^ 63

section

variable {n offset : Int} {fraction : Option Bytes} {form : TimeForm} {t t' : Civil} {d c rest : Bytes}
  {sep : UInt8}

/-! ### Cutting -/

/-- A blank behind the date, or a `T` and no blank at all, becomes a `T`. -/
theorem set_separator (hd : d.length = 10) (hblank : chr ' ' ∉ d)
    (hsep : sep = chr ' ' ∨ (sep = chr 'T' ∧ chr ' ' ∉ rest)) :
    (let raw := d ++ sep :: rest
     let sp := raw.findIdx (· = chr ' ')
     if sp < raw.length ∧ sp < 12 then raw.set sp (chr 'T') else raw) = d ++ chr 'T' :: rest := by
  have hplain : ∀ c ∈ d, decide (c = chr ' ') = false := fun c hc =>
    decide_eq_false fun h => hblank (h ▸ hc)
  dsimp only
  rcases hsep with rfl | ⟨rfl, hrest⟩
  · have hfind : (d ++ chr ' ' :: rest).findIdx (· = chr ' ') = 10 := by
      have hnone : d.findIdx (· = chr ' ') = d.length := List.findIdx_eq_length.mpr hplain
      rw [List.findIdx_append, hnone, if_neg (lt_irrefl _), hd, List.findIdx_cons]
      rfl
    have hlong : 10 < (d ++ chr ' ' :: rest).length := by simp [hd]
    rw [hfind, if_pos ⟨hlong, by decide⟩, List.set_append_right _ _ hd.le, hd]
    rfl
  · have hnone : ∀ c ∈ d ++ chr 'T' :: rest, decide (c = chr ' ') = false := by
      intro c hc
      refine decide_eq_false fun h => ?_
      rcases List.mem_append.mp hc with hmem | hmem
      · exact hblank (h ▸ hmem)
      · rcases List.mem_cons.mp hmem with rfl | hmem
        · exact absurd h (by decide)
        · exact hrest (h ▸ hmem)
    rw [List.findIdx_eq_length.mpr hnone, if_neg fun h => lt_irrefl _ h.1]

/-- What stands behind nineteen bytes is replaced by a `Z`, and only cut off if it begins with one. -/
theorem isoUtcFromPg_cut (hd : d.length = 10) (hblank : chr ' ' ∉ d) (hc : c.length = 8)
    (hsep : sep = chr ' ' ∨ (sep = chr 'T' ∧ chr ' ' ∉ c ++ rest)) (hrest : rest ≠ []) :
    isoUtcFromPg (d ++ sep :: (c ++ rest)) =
      if rest.head? = some (chr 'Z') then d ++ chr 'T' :: c else d ++ chr 'T' :: (c ++ [chr 'Z']) := by
  obtain ⟨e, rest', rfl⟩ := List.exists_cons_of_ne_nil hrest
  have hset := set_separator hd hblank hsep
  have hregroup : d ++ chr 'T' :: (c ++ e :: rest') = (d ++ chr 'T' :: c) ++ e :: rest' := by simp
  have hfront : (d ++ chr 'T' :: c).length = 19 := by simp [hd, hc]
  have hten : (d ++ chr 'T' :: (c ++ e :: rest'))[10]? = some (chr 'T') := by
    rw [List.getElem?_append_right hd.le, hd]
    rfl
  have hnext : ((d ++ chr 'T' :: c) ++ e :: rest')[19]? = some e := by
    rw [List.getElem?_append_right hfront.le, hfront]
    rfl
  have htake : ((d ++ chr 'T' :: c) ++ e :: rest').take 19 = d ++ chr 'T' :: c :=
    List.take_left' hfront
  have hlong : 19 < ((d ++ chr 'T' :: c) ++ e :: rest').length := by
    rw [List.length_append, hfront, List.length_cons]
    omega
  unfold isoUtcFromPg
  dsimp only at hset ⊢
  rw [hset, hten, hregroup, if_pos ⟨hlong.le, rfl⟩, hnext, htake, List.head?_cons]
  by_cases he : e = chr 'Z'
  · rw [if_neg fun h => h.2 (congrArg some he), if_pos (congrArg some he)]
  · rw [if_pos ⟨hlong, fun h => he (Option.some.inj h)⟩, if_neg fun h => he (Option.some.inj h)]
    simp

/-! ### Writing and reading back -/

theorem isoText_eq (hyear : 1000 ≤ (civil n).year ∧ (civil n).year ≤ 9999) :
    isoText n = dateText (civil n) ++ chr 'T' :: (clockText (civil n) ++ [chr 'Z']) := by
  rw [isoText, strftime, ← fourDigits_eq_intText hyear]
  simp [dateText, clockText]

/-- The local time is displayed where the clock holds it. -/
theorem wibDisplay_eq {raw : Bytes} (hyear : 1000 ≤ (civil n).year ∧ (civil n).year ≤ 9999)
    (h : isoUtcFromPg raw = isoText n) : wibDisplay raw =
      strftimeMinute (civil ((wrapTicks ((n + 7 * 3600) * 1000000000)).tdiv 1000000000)) := by
  have hread : parseIsoUtc (isoText n) = some (wrapTicks (n * 1000000000)) := by
    rw [parseIsoUtc, isoText, readIsoUtc_strftime (valid_civil n) hyear, seconds_civil]
    rfl
  have hadd : addMinutes (wrapTicks (n * 1000000000)) 420 =
      wrapTicks ((n + 7 * 3600) * 1000000000) := by
    have hminutes : (420 : Int32).toInt = 420 := rfl
    have hsum : (n + 7 * 3600) * 1000000000 = n * 1000000000 + 420 * 60 * 1000000000 := by ring
    rw [addMinutes, hminutes, hsum]
    exact Int.bmod_add_bmod
  rw [wibDisplay, h, hread]
  dsimp only
  rw [hadd]

/-! ### Digits -/

theorem isDigit_of_mem_twoDigits {k : Int} {b : UInt8} (hk : 0 ≤ k ∧ k ≤ 99) (h : b ∈ twoDigits k) :
    isDigit b = true := by
  rw [twoDigits_eq hk.1, List.mem_cons, List.mem_singleton] at h
  rcases h with rfl | rfl
  · exact isDigit_digitByte (by omega)
  · exact isDigit_digitByte (by omega)

theorem twoDigits_inj {k l : Int} (hk : 0 ≤ k ∧ k ≤ 99) (hl : 0 ≤ l ∧ l ≤ 99)
    (h : twoDigits k = twoDigits l) : k = l := by
  rw [← pairOf_twoDigits hk, h, pairOf_twoDigits hl]

theorem fourDigits_inj {k l : Int} (hk : 0 ≤ k ∧ k ≤ 9999) (hl : 0 ≤ l ∧ l ≤ 9999)
    (h : fourDigits k = fourDigits l) : k = l := by
  obtain ⟨hhigh, hlow⟩ := List.append_inj h rfl
  have hhundreds := twoDigits_inj (by omega) (by omega) hhigh
  have hrest := twoDigits_inj (by omega) (by omega) hlow
  omega

theorem not_blank_of_isDigit {b : UInt8} (h : isDigit b = true) : b ≠ chr ' ' := by
  rintro rfl
  cases h

theorem blank_notMem_dateText (ht : t.Valid) (hyear : 0 ≤ t.year ∧ t.year ≤ 9999) :
    chr ' ' ∉ dateText t := by
  have htwo : ∀ {k : Int}, 0 ≤ k ∧ k ≤ 99 → chr ' ' ∉ twoDigits k := fun hk hmem =>
    not_blank_of_isDigit (isDigit_of_mem_twoDigits hk hmem) rfl
  have hmonth := ht.month
  have hday := ht.day
  simp only [dateText, fourDigits, List.mem_append, List.mem_cons, not_or]
  exact ⟨⟨htwo (by omega), htwo (by omega)⟩, by decide, htwo (by omega), by decide, htwo (by omega)⟩

theorem blank_notMem_clockText (ht : t.Valid) : chr ' ' ∉ clockText t := by
  have htwo : ∀ {k : Int}, 0 ≤ k ∧ k ≤ 99 → chr ' ' ∉ twoDigits k := fun hk hmem =>
    not_blank_of_isDigit (isDigit_of_mem_twoDigits hk hmem) rfl
  have hhour := ht.hour
  have hminute := ht.minute
  have hsecond := ht.second
  simp only [clockText, List.mem_append, List.mem_cons, not_or]
  exact ⟨htwo (by omega), by decide, htwo (by omega), by decide, htwo (by omega)⟩

/-- The text of a date and a time is of no other. -/
theorem dateText_inj (ht : t.Valid) (ht' : t'.Valid) (hyear : 0 ≤ t.year ∧ t.year ≤ 9999)
    (hyear' : 0 ≤ t'.year ∧ t'.year ≤ 9999)
    (h : dateText t ++ sep :: (clockText t ++ rest) = dateText t' ++ sep :: (clockText t' ++ rest)) :
    t = t' := by
  have hlength : (dateText t).length = (dateText t').length := rfl
  obtain ⟨hdate, hrest⟩ := List.append_inj h hlength
  obtain ⟨hclock, -⟩ := List.append_inj (List.cons.inj hrest).2 rfl
  obtain ⟨hy, hmonthday⟩ := List.append_inj hdate rfl
  obtain ⟨hmo, hday⟩ := List.append_inj (List.cons.inj hmonthday).2 rfl
  obtain ⟨hh, hmisec⟩ := List.append_inj hclock rfl
  obtain ⟨hmi, hsec⟩ := List.append_inj (List.cons.inj hmisec).2 rfl
  have hv := ht
  have hv' := ht'
  obtain ⟨⟨_, _⟩, ⟨_, _⟩, ⟨_, _⟩, ⟨_, _⟩, ⟨_, _⟩⟩ := ht
  obtain ⟨⟨_, _⟩, ⟨_, _⟩, ⟨_, _⟩, ⟨_, _⟩, ⟨_, _⟩⟩ := ht'
  have h1 := fourDigits_inj hyear hyear' hy
  have h2 := twoDigits_inj (by omega) (by omega) hmo
  have h3 := twoDigits_inj (by omega) (by omega) (List.cons.inj hday).2
  have h4 := twoDigits_inj (by omega) (by omega) hh
  have h5 := twoDigits_inj (by omega) (by omega) hmi
  have h6 := twoDigits_inj (by omega) (by omega) (List.cons.inj hsec).2
  cases t
  cases t'
  simp only [Civil.mk.injEq]
  exact ⟨h1, h2, h3, h4, h5, h6⟩

/-! ### The display -/

/-- A display tells the minute. -/
theorem strftimeMinute_inj {m k : Int} (hm : 0 ≤ (civil m).year) (hk : 0 ≤ (civil k).year)
    (h : strftimeMinute (civil m) = strftimeMinute (civil k)) : |m - k| < 60 := by
  have hdigits : ∀ {y : Int} (r : Bytes), 0 ≤ y →
      (intText y ++ chr '-' :: r).takeWhile isDigit = natText y.natAbs := by
    intro y r hy
    rw [intText, if_neg (by omega),
      List.takeWhile_append_of_pos fun c hc => isDigit_of_mem_natText hc,
      List.takeWhile_cons_of_neg (by decide), List.append_nil]
  have hyears : (civil m).year = (civil k).year := by
    have htext := congrArg (List.takeWhile isDigit) h
    rw [strftimeMinute, strftimeMinute, hdigits _ hm, hdigits _ hk] at htext
    have hvalue := congrArg digitsValue htext
    rw [digitsValue_natText, digitsValue_natText] at hvalue
    omega
  rw [strftimeMinute, strftimeMinute, hyears] at h
  have hrest := (List.cons.inj (List.append_cancel_left h)).2
  obtain ⟨hmo, hrest⟩ := List.append_inj hrest rfl
  obtain ⟨hd, hrest⟩ := List.append_inj (List.cons.inj hrest).2 rfl
  obtain ⟨hh, hrest⟩ := List.append_inj (List.cons.inj hrest).2 rfl
  have hmi := (List.cons.inj hrest).2
  have hm' := valid_civil m
  have hk' := valid_civil k
  obtain ⟨⟨_, _⟩, ⟨_, _⟩, ⟨_, _⟩, ⟨_, _⟩, ⟨_, _⟩⟩ := hm'
  obtain ⟨⟨_, _⟩, ⟨_, _⟩, ⟨_, _⟩, ⟨_, _⟩, ⟨_, _⟩⟩ := hk'
  have h2 := twoDigits_inj (by omega) (by omega) hmo
  have h3 := twoDigits_inj (by omega) (by omega) hd
  have h4 := twoDigits_inj (by omega) (by omega) hh
  have h5 := twoDigits_inj (by omega) (by omega) hmi
  have hsame : seconds (civil m) - (civil m).second = seconds (civil k) - (civil k).second := by
    unfold seconds
    rw [hyears, h2, h3, h4, h5]
    dsimp only
    omega
  rw [seconds_civil, seconds_civil] at hsame
  rw [abs_lt]
  omega

/-- The years near an instant of a year with four digits. -/
theorem year_near (hyear : 1000 ≤ (civil n).year ∧ (civil n).year ≤ 9999)
    (hoffset : -604800 ≤ offset ∧ offset ≤ 604800) :
    0 ≤ (civil (n + offset)).year ∧ (civil (n + offset)).year ≤ 10000 := by
  have hbounds : -62135596800 ≤ n ∧ n ≤ 253402300799 := by
    have hseconds := seconds_civil n
    have ht := valid_civil n
    obtain ⟨⟨_, _⟩, ⟨_, _⟩, ⟨_, _⟩, ⟨_, _⟩, ⟨_, _⟩⟩ := ht
    unfold seconds daysBeforeYear daysBeforeMonth at hseconds
    dsimp only at hseconds
    split_ifs at hseconds <;> omega
  have hera : 0 ≤ ((n + offset) / 86400 + 719468) % 146097 ∧
      ((n + offset) / 86400 + 719468) % 146097 < 146097 := by omega
  have hinner := yearOf_bounds hera
  have hdef : (civil (n + offset)).year = yearOf (((n + offset) / 86400 + 719468) % 146097) +
      400 * (((n + offset) / 86400 + 719468) / 146097) +
        if (5 * (((n + offset) / 86400 + 719468) % 146097 -
          daysBeforeYear (yearOf (((n + offset) / 86400 + 719468) % 146097))) + 2) / 153 < 10
        then 0 else 1 := rfl
  rw [hdef]
  split_ifs <;> omega

/-- The display is right exactly where the clock holds the local time. -/
theorem display_iff (hyear : 1000 ≤ (civil n).year ∧ (civil n).year ≤ 9999) :
    strftimeMinute (civil ((wrapTicks ((n + 7 * 3600) * 1000000000)).tdiv 1000000000)) =
      displayText n ↔ InRange n := by
  constructor
  · intro h
    obtain ⟨w, hw⟩ : ∃ w, w = wrapTicks ((n + 7 * 3600) * 1000000000) := ⟨_, rfl⟩
    rw [← hw] at h
    have hlow : -2 ^ 63 ≤ w := hw ▸ Int.le_bmod (by decide)
    have hhigh : w < 2 ^ 63 := hw ▸ Int.bmod_lt (by decide)
    have htrunc : -1000000000 < w - w.tdiv 1000000000 * 1000000000 ∧
        w - w.tdiv 1000000000 * 1000000000 < 1000000000 := by
      have hsum := Int.tmod_add_mul_tdiv w 1000000000
      have hmod := Int.tmod_lt_of_pos w (by decide : (0 : Int) < 1000000000)
      have hmod' := Int.lt_tmod_of_pos w (by decide : (0 : Int) < 1000000000)
      omega
    have hnear := @year_near n (7 * 3600) hyear (by decide)
    have hinside := @year_bounds (w.tdiv 1000000000) (by omega)
    have hminute := strftimeMinute_inj (by omega) hnear.1 h
    have hdvd : ((2 ^ 64 : Nat) : Int) ∣ (n + 7 * 3600) * 1000000000 - w := by
      rw [hw]
      exact Int.dvd_self_sub_bmod
    rw [abs_lt] at hminute
    obtain ⟨k, hk⟩ := hdvd
    have hzero : k = 0 := by
      push_cast at hk
      omega
    rw [hzero, mul_zero, sub_eq_zero] at hk
    exact ⟨hk ▸ hlow, hk ▸ hhigh⟩
  · intro h
    rw [wrapTicks_eq_self_iff.mpr h, Int.mul_tdiv_cancel _ (by decide)]
    rfl

/-! ### The forms -/

theorem length_isoText (hyear : 1000 ≤ (civil n).year ∧ (civil n).year ≤ 9999) :
    (isoText n).length = 20 := by
  rw [isoText_eq hyear]
  rfl

/-- A time is cut to a text of the local time. -/
theorem isoUtcFromPg_time (ht : t.Valid) (hyear : 0 ≤ t.year ∧ t.year ≤ 9999)
    (hsep : sep = chr ' ' ∨ (sep = chr 'T' ∧ chr ' ' ∉ rest)) (hrest : rest ≠ [])
    (hz : rest.head? ≠ some (chr 'Z')) : isoUtcFromPg (dateText t ++ sep :: (clockText t ++ rest)) =
      dateText t ++ chr 'T' :: (clockText t ++ [chr 'Z']) := by
  have hsep' : sep = chr ' ' ∨ (sep = chr 'T' ∧ chr ' ' ∉ clockText t ++ rest) :=
    hsep.imp_right fun h => ⟨h.1, fun hmem =>
      (List.mem_append.mp hmem).elim (blank_notMem_clockText ht) h.2⟩
  rw [isoUtcFromPg_cut rfl (blank_notMem_dateText ht hyear) rfl hsep' hrest, if_neg hz]

theorem length_isoUtcFromPg_le (raw : Bytes) : (isoUtcFromPg raw).length ≤ raw.length + 1 := by
  unfold isoUtcFromPg
  dsimp only
  have hset : (if raw.findIdx (· = chr ' ') < raw.length ∧ raw.findIdx (· = chr ' ') < 12 then
      raw.set (raw.findIdx (· = chr ' ')) (chr 'T') else raw).length = raw.length := by
    split_ifs
    · exact List.length_set
    · rfl
  obtain ⟨s, hs⟩ : ∃ s, s = if raw.findIdx (· = chr ' ') < raw.length ∧
    raw.findIdx (· = chr ' ') < 12 then raw.set (raw.findIdx (· = chr ' ')) (chr 'T') else raw := ⟨_, rfl⟩
  rw [← hs] at hset ⊢
  have htake : (s.take 19).length ≤ s.length := List.length_take_le' _ _
  split_ifs
  · rw [List.length_append, List.length_singleton]
    omega
  · omega
  · rw [List.length_append, List.length_singleton]
    omega
  · omega

/-- A text without a separator in its place is not cut. -/
theorem length_le_isoUtcFromPg {raw : Bytes} {b : UInt8} (h : raw[10]? = some b)
    (hb : isDigit b = true) : raw.length ≤ (isoUtcFromPg raw).length := by
  have hT : b ≠ chr 'T' := by
    rintro rfl
    cases hb
  have hnot : raw.findIdx (· = chr ' ') < raw.length →
      (raw.set (raw.findIdx (· = chr ' ')) (chr 'T'))[10]? ≠ some (chr 'T') := by
    intro hfound hset
    have hblank := List.findIdx_getElem (w := hfound)
    by_cases hten : raw.findIdx (· = chr ' ') = 10
    · have hget := List.getElem?_eq_getElem hfound
      simp only [hten] at hget hblank
      rw [h] at hget
      rw [← Option.some.inj hget] at hblank
      exact not_blank_of_isDigit hb (of_decide_eq_true hblank)
    · rw [List.getElem?_set_ne hten, h] at hset
      exact hT (Option.some.inj hset)
  have hraw : raw[10]? ≠ some (chr 'T') := by
    rw [h]
    exact fun heq => hT (Option.some.inj heq)
  unfold isoUtcFromPg
  dsimp only
  by_cases hfound : raw.findIdx (· = chr ' ') < raw.length ∧ raw.findIdx (· = chr ' ') < 12
  · rw [if_pos hfound, if_neg fun hcut => hnot hfound.1 hcut.2]
    split_ifs
    · rw [List.length_append, List.length_set]
      omega
    · rw [List.length_set]
  · rw [if_neg hfound, if_neg fun hcut => hraw hcut.2]
    split_ifs
    · rw [List.length_append]
      omega
    · exact le_rfl

/-- The text of another local time is not the one of the instant. -/
theorem isoUtcFromPg_pg (hyear : 1000 ≤ (civil n).year ∧ (civil n).year ≤ 9999)
    (hoffset : -604800 < offset ∧ offset < 604800) :
    isoUtcFromPg (pgText n offset fraction) = isoText n ↔ offset = 0 := by
  have hnear := @year_near n offset hyear (by omega)
  have hv := valid_civil (n + offset)
  have hend : fractionText fraction ++ offsetText offset ≠ [] ∧
      (fractionText fraction ++ offsetText offset).head? ≠ some (chr 'Z') := by
    have hsign : (if offset < 0 then chr '-' else chr '+') ≠ chr 'Z' := by
      split_ifs <;> decide
    cases fraction with
    | none => exact ⟨nofun, fun h => hsign (Option.some.inj h)⟩
    | some d => exact ⟨nofun, fun h => absurd (Option.some.inj h) (by decide)⟩
  by_cases hlocal : (civil (n + offset)).year < 10000
  · have htext : pgText n offset fraction = dateText (civil (n + offset)) ++ chr ' ' ::
        (clockText (civil (n + offset)) ++ (fractionText fraction ++ offsetText offset)) := by
      rw [pgText, yearText, if_pos hlocal]
      simp [dateText]
    rw [htext, isoUtcFromPg_time hv (by omega) (.inl rfl) hend.1 hend.2, isoText_eq hyear]
    constructor
    · intro h
      have hsame := congrArg seconds (dateText_inj hv (valid_civil n) (by omega) (by omega) h)
      rw [seconds_civil, seconds_civil] at hsame
      omega
    · rintro rfl
      rw [add_zero]
  · have hlate : (civil (n + offset)).year = 10000 := by omega
    have hyearText : yearText 10000 = str "10000" := by
      rw [yearText, if_neg (by decide), intText, if_neg (by decide), natText, if_neg (by decide)]
      norm_num
      rfl
    refine iff_of_false (fun h => ?_) ?_
    · have hday := hv.day
      have hdigit : isDigit (48 + UInt8.ofNat ((civil (n + offset)).day.toNat % 10)) = true :=
        isDigit_digitByte (Nat.mod_lt _ (by decide))
      have htext : pgText n offset fraction = str "10000" ++ chr '-' ::
          (twoDigits (civil (n + offset)).month ++ chr '-' :: (twoDigits (civil (n + offset)).day ++
            chr ' ' :: (clockText (civil (n + offset)) ++
              (fractionText fraction ++ offsetText offset)))) := by
        rw [pgText, hlate, hyearText]
      have hten : (pgText n offset fraction)[10]? =
          some (48 + UInt8.ofNat ((civil (n + offset)).day.toNat % 10)) := by
        rw [htext]
        rfl
      have hlong := length_le_isoUtcFromPg hten hdigit
      rw [h, length_isoText hyear, htext] at hlong
      have hmany : 20 < (str "10000" ++ chr '-' ::
          (twoDigits (civil (n + offset)).month ++ chr '-' :: (twoDigits (civil (n + offset)).day ++
            chr ' ' :: (clockText (civil (n + offset)) ++
              (fractionText fraction ++ offsetText offset))))).length := by
        have hsome := List.length_pos_iff.mpr hend.1
        simp only [List.length_append, List.length_cons, clockText, twoDigits, List.length_nil] at hsome ⊢
        have hyearLength : (str "10000").length = 5 := rfl
        omega
      omega
    · rintro rfl
      rw [add_zero] at hlate
      omega

end

end ExamVan.Public
