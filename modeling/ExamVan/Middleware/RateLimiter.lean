import ExamVan.Api.Body
import ExamVan.Lib.Bytes
import ExamVan.Lib.OrderedMap

/-!
# The rate limiter

A limiter counts the grants of a key from the first one of a window. Buckets whose window is over are
swept out now and then. A call would start such a bucket anew, so no answer depends on the sweeping.
-/

namespace ExamVan.Middleware

open ByteString

/-! ### The limiter -/

/-- The grants of a window and its start, by the key. -/
abbrev Buckets := OrderedMap Bytes (Int × Int)

/-- `max_` and `window_`. -/
structure RateLimiter where
  max : Int
  window : Int

/-- One call at the time `now`, with what is done to the map after a key is inserted. -/
def allowWith (evict : Int → Buckets → Buckets) (l : RateLimiter) (buckets : Buckets)
    (key : Bytes) (now : Int) : Bool × Buckets :=
  let started := (true, evict now (buckets.insert key (1, now)))
  match buckets.find? key with
  | none => started
  | some (count, start) =>
      if now - start ≥ l.window then started
      else if count < l.max then (true, buckets.insert key (count + 1, start))
      else (false, buckets)

/-- The loop over the map. -/
def sweep (l : RateLimiter) (now : Int) (buckets : Buckets) : Buckets :=
  ⟨buckets.entries.filter fun entry => ¬ now - entry.2.2 ≥ l.window, buckets.sorted.filter _⟩

def sweepLarge (l : RateLimiter) (now : Int) (buckets : Buckets) : Buckets :=
  let size := buckets.entries.length
  if size > 1024 ∧ size &&& 63 = 0 then sweep l now buckets else buckets

/-- `RateLimiter::allow`. -/
def allow (l : RateLimiter) : Buckets → Bytes → Int → Bool × Buckets := allowWith (sweepLarge l) l

/-- The limiter that keeps every bucket. -/
def allowKeeping (l : RateLimiter) : Buckets → Bytes → Int → Bool × Buckets :=
  allowWith (fun _ buckets => buckets) l

/-- The answers to calls at their times. -/
def answers (step : Buckets → Bytes → Int → Bool × Buckets) : Buckets → List (Bytes × Int) → List Bool
  | _, [] => []
  | buckets, (key, now) :: calls =>
      (step buckets key now).1 :: answers step (step buckets key now).2 calls

/-! ### Buckets that are over -/

section

variable {l : RateLimiter} {now now' : Int} {b b' : Buckets}

/-- `b` has the buckets of `b'`, but for some whose window is over. -/
def Thinned (l : RateLimiter) (now : Int) (b b' : Buckets) : Prop :=
  ∀ key, b.find? key = b'.find? key ∨
    b.find? key = none ∧ ∃ count start, b'.find? key = some (count, start) ∧ now - start ≥ l.window

theorem Thinned.refl (l : RateLimiter) (now : Int) (b : Buckets) : Thinned l now b b :=
  fun _ => Or.inl rfl

theorem Thinned.later (h : Thinned l now b b') (hle : now ≤ now') : Thinned l now' b b' := by
  intro key
  rcases h key with heq | ⟨hnone, count, start, hsome, hover⟩
  · exact Or.inl heq
  · exact Or.inr ⟨hnone, count, start, hsome, by omega⟩

theorem Thinned.trans {b'' : Buckets} (h : Thinned l now b b') (h' : Thinned l now b' b'') :
    Thinned l now b b'' := by
  intro key
  rcases h key with heq | ⟨hnone, count, start, hsome, hover⟩
  · rw [heq]
    exact h' key
  · rcases h' key with heq' | ⟨hnone', -⟩
    · exact Or.inr ⟨hnone, count, start, heq' ▸ hsome, hover⟩
    · rw [hnone'] at hsome
      cases hsome

theorem Thinned.insert (h : Thinned l now b b') (key : Bytes) (value : Int × Int) :
    Thinned l now (b.insert key value) (b'.insert key value) := by
  intro key'
  by_cases hkey : key' = key
  · subst hkey
    exact Or.inl (by rw [OrderedMap.find?_insert_self, OrderedMap.find?_insert_self])
  · rw [OrderedMap.find?_insert_of_ne hkey, OrderedMap.find?_insert_of_ne hkey]
    exact h key'

theorem thinned_sweep (l : RateLimiter) (now : Int) (b : Buckets) :
    Thinned l now (sweep l now b) b := by
  intro key
  have hmem : ∀ value, (sweep l now b).find? key = some value ↔
      b.find? key = some value ∧ ¬ now - value.2 ≥ l.window := by
    intro value
    simp [OrderedMap.find?_eq_some_iff, sweep]
  cases hfound : b.find? key with
  | none =>
      left
      rw [Option.eq_none_iff_forall_ne_some]
      intro value hvalue
      rw [((hmem value).mp hvalue).1] at hfound
      cases hfound
  | some value =>
      by_cases hover : now - value.2 ≥ l.window
      · refine Or.inr ⟨?_, value.1, value.2, rfl, hover⟩
        rw [Option.eq_none_iff_forall_ne_some]
        intro other hother
        obtain ⟨hsame, hlive⟩ := (hmem other).mp hother
        rw [hfound, Option.some.injEq] at hsame
        exact hlive (hsame ▸ hover)
      · exact Or.inl ((hmem value).mpr ⟨hfound, hover⟩)

theorem thinned_sweepLarge (l : RateLimiter) (now : Int) (b : Buckets) :
    Thinned l now (sweepLarge l now b) b := by
  unfold sweepLarge
  dsimp only
  split
  · exact thinned_sweep l now b
  · exact Thinned.refl l now b

end

/-! ### The same answers -/

section

variable {l : RateLimiter} {now : Int} {b b' : Buckets}

/-- A key that is swept out and one that is over are started anew alike. -/
theorem allow_simulates (h : Thinned l now b b') (key : Bytes) :
    (allow l b key now).1 = (allowKeeping l b' key now).1 ∧
      Thinned l now (allow l b key now).2 (allowKeeping l b' key now).2 := by
  have hstarted : Thinned l now (sweepLarge l now (b.insert key (1, now)))
      (b'.insert key (1, now)) :=
    (thinned_sweepLarge l now _).trans (h.insert key _)
  unfold allow allowKeeping allowWith
  dsimp only
  rcases h key with heq | ⟨hnone, count, start, hsome, hover⟩
  · rw [heq]
    cases b'.find? key with
    | none => exact ⟨rfl, hstarted⟩
    | some value =>
        obtain ⟨count, start⟩ := value
        dsimp only
        split
        · exact ⟨rfl, hstarted⟩
        · split
          · exact ⟨rfl, h.insert key _⟩
          · exact ⟨rfl, h⟩
  · rw [hnone, hsome]
    dsimp only
    rw [if_pos hover]
    exact ⟨rfl, hstarted⟩

theorem answers_allow {calls : List (Bytes × Int)} (h : Thinned l now b b')
    (hclock : (now :: calls.map Prod.snd).Pairwise (· ≤ ·)) :
    answers (allow l) b calls = answers (allowKeeping l) b' calls := by
  induction calls generalizing now b b' with
  | nil => rfl
  | cons call calls ih =>
      obtain ⟨key, time⟩ := call
      rw [List.map_cons, List.pairwise_cons] at hclock
      obtain ⟨hanswer, hnext⟩ :=
        allow_simulates (h.later (hclock.1 time List.mem_cons_self)) key
      rw [answers, answers, hanswer, ih hnext hclock.2]

end

/-! ### The grants of a window -/

/-- When a key was granted. -/
def grants (key : Bytes) : List (Bytes × Int) → List Bool → List Int
  | call :: calls, answer :: answers =>
      if call.1 = key ∧ answer = true then call.2 :: grants key calls answers
      else grants key calls answers
  | _, _ => []

/-- The grants of each window: a window begins with the first grant after the one before has ended. -/
def windows (window : Int) : List Int → List (List Int)
  | [] => []
  | start :: times =>
      (start :: times.takeWhile (· < start + window)) ::
        windows window (times.dropWhile (· < start + window))
termination_by times => times.length
decreasing_by exact Nat.lt_succ_of_le (List.dropWhile_suffix _).length_le

/-- What a bucket leaves for the grants to come. -/
def Allowance (l : RateLimiter) (times : List Int) : Option (Int × Int) → Prop
  | none => ∀ w ∈ windows l.window times, (w.length : Int) ≤ l.max
  | some (count, start) =>
      (times.takeWhile (· < start + l.window)).length ≤ l.max - count ∧
        ∀ w ∈ windows l.window (times.dropWhile (· < start + l.window)), (w.length : Int) ≤ l.max

section

variable {l : RateLimiter} {now count start : Int} {times : List Int}

theorem Allowance.started (h : Allowance l times (some (1, now))) :
    ∀ w ∈ windows l.window (now :: times), (w.length : Int) ≤ l.max := by
  rw [windows, List.forall_mem_cons, List.length_cons]
  refine ⟨?_, h.2⟩
  have hfirst := h.1
  omega

theorem Allowance.over (h : Allowance l times (some (1, now))) (hcount : count ≤ l.max)
    (hover : now - start ≥ l.window) : Allowance l (now :: times) (some (count, start)) := by
  have hbehind : ¬ (decide (now < start + l.window)) = true := by simpa using by omega
  rw [Allowance, List.takeWhile_cons_of_neg (p := fun t => decide (t < start + l.window)) hbehind,
    List.dropWhile_cons_of_neg (p := fun t => decide (t < start + l.window)) hbehind]
  refine ⟨?_, h.started⟩
  rw [List.length_nil]
  omega

theorem Allowance.counted (h : Allowance l times (some (count + 1, start)))
    (hlive : ¬ now - start ≥ l.window) : Allowance l (now :: times) (some (count, start)) := by
  have hwithin : decide (now < start + l.window) = true := decide_eq_true (by omega)
  rw [Allowance, List.takeWhile_cons_of_pos (p := fun t => decide (t < start + l.window)) hwithin,
    List.dropWhile_cons_of_pos (p := fun t => decide (t < start + l.window)) hwithin]
  refine ⟨?_, h.2⟩
  have hfirst := h.1
  rw [List.length_cons]
  omega

end

theorem find?_allowKeeping_of_ne {l : RateLimiter} {b : Buckets} {key key' : Bytes} (now : Int)
    (h : key ≠ key') : (allowKeeping l b key' now).2.find? key = b.find? key := by
  unfold allowKeeping allowWith
  dsimp only
  split
  · exact OrderedMap.find?_insert_of_ne h
  · split_ifs
    · exact OrderedMap.find?_insert_of_ne h
    · exact OrderedMap.find?_insert_of_ne h
    · rfl

/-- No window of a key has more grants than its bucket leaves. -/
theorem allowance_answers {l : RateLimiter} (hmax : 1 ≤ l.max) (key : Bytes)
    (calls : List (Bytes × Int)) (b : Buckets)
    (hcount : ∀ value, b.find? key = some value → value.1 ≤ l.max) :
    Allowance l (grants key calls (answers (allowKeeping l) b calls)) (b.find? key) := by
  induction calls generalizing b with
  | nil =>
      cases hfound : b.find? key with
      | none => simp [Allowance, grants, windows]
      | some value =>
          have hle := hcount value hfound
          simp [Allowance, grants, windows, hle]
  | cons call calls ih =>
      obtain ⟨key', now⟩ := call
      rw [answers]
      by_cases hkey : key' = key
      swap
      · -- the bucket of another key
        have hother := find?_allowKeeping_of_ne (l := l) (b := b) now (Ne.symm hkey)
        rw [grants, if_neg (fun h => hkey h.1), ← hother]
        exact ih _ (by rwa [hother])
      subst hkey
      have hself : ∀ value, (b.insert key' value).find? key' = some value :=
        OrderedMap.find?_insert_self b key'
      have hrest : ∀ value, value.1 ≤ l.max → Allowance l
          (grants key' calls (answers (allowKeeping l) (b.insert key' value) calls)) (some value) := by
        intro value hvalue
        have hnext := ih (b.insert key' value) (by simpa [hself] using hvalue)
        rwa [hself] at hnext
      cases hfound : b.find? key' with
      | none =>
          have hstep : allowKeeping l b key' now = (true, b.insert key' (1, now)) := by
            simp [allowKeeping, allowWith, hfound]
          rw [hstep, grants, if_pos ⟨rfl, rfl⟩]
          exact (hrest (1, now) hmax).started
      | some value =>
          obtain ⟨count, start⟩ := value
          have hle : count ≤ l.max := hcount _ hfound
          by_cases hover : now - start ≥ l.window
          · have hstep : allowKeeping l b key' now = (true, b.insert key' (1, now)) := by
              simp only [allowKeeping, allowWith, hfound, if_pos hover]
            rw [hstep, grants, if_pos ⟨rfl, rfl⟩]
            exact (hrest (1, now) hmax).over hle hover
          by_cases hmore : count < l.max
          · have hstep : allowKeeping l b key' now = (true, b.insert key' (count + 1, start)) := by
              simp only [allowKeeping, allowWith, hfound, if_neg hover, if_pos hmore]
            rw [hstep, grants, if_pos ⟨rfl, rfl⟩]
            exact (hrest (count + 1, start) hmore).counted hover
          · have hstep : allowKeeping l b key' now = (false, b) := by
              simp only [allowKeeping, allowWith, hfound, if_neg hover, if_neg hmore]
            rw [hstep, grants, if_neg (by simp), ← hfound]
            exact ih b hcount

/-- Sweeping changes no answer, and no window of a key has more than `max_` grants. -/
theorem allow_refines (l : RateLimiter) (hmax : 1 ≤ l.max) {calls : List (Bytes × Int)}
    (hclock : (calls.map Prod.snd).Pairwise (· ≤ ·)) :
    answers (allow l) .empty calls = answers (allowKeeping l) .empty calls ∧
      ∀ key, ∀ w ∈ windows l.window (grants key calls (answers (allow l) .empty calls)),
        (w.length : Int) ≤ l.max := by
  have hsame : answers (allow l) .empty calls = answers (allowKeeping l) .empty calls := by
    cases calls with
    | nil => rfl
    | cons call calls =>
        refine answers_allow (Thinned.refl l call.2 .empty) ?_
        rw [List.map_cons, List.pairwise_cons]
        refine ⟨?_, hclock⟩
        rw [List.forall_mem_cons]
        exact ⟨le_rfl, (List.pairwise_cons.mp hclock).1⟩
  refine ⟨hsame, fun key => ?_⟩
  rw [hsame]
  exact allowance_answers hmax key calls .empty (by simp [OrderedMap.find?, OrderedMap.empty])

theorem allow_refines_twice :
    let l : RateLimiter := { max := 1, window := 60 }
    let calls := [(str "a", 0), (str "b", 10), (str "a", 59), (str "a", 60)]
    answers (allow l) .empty calls = answers (allowKeeping l) .empty calls ∧
      ∀ key, ∀ w ∈ windows l.window (grants key calls (answers (allow l) .empty calls)),
        (w.length : Int) ≤ l.max :=
  allow_refines { max := 1, window := 60 } (by decide) (by decide)

example : answers (allow { max := 1, window := 60 }) .empty
    [(str "a", 0), (str "b", 10), (str "a", 59), (str "a", 60)] = [true, true, false, true] := by
  decide

end ExamVan.Middleware

/-!
## The buckets of the rate limits

A bucket is named by the exam and the device, or by the exam and the address where the device is
unknown. The mark of an address, `ip:`, is made of bytes that a device may have too.
-/

namespace ExamVan.Api

open ByteString

/-- `presence_rate_key`. -/
def presenceRateKey (pre : Bytes) (examId : Int32) (mac ip : Bytes) : Bytes :=
  if mac = [] ∨ mac = str "unknown" then pre ++ (intText examId.toInt ++ (str ":ip:" ++ ip))
  else pre ++ (intText examId.toInt ++ (str ":" ++ mac))

/-- What a request says of its sender. -/
structure Sender where
  examId : Int32
  /-- the device as it is sent -/
  raw : Bytes
  ip : Bytes
  deriving DecidableEq

namespace Sender

def mac (a : Sender) : Bytes := sanitizeMacLikeGo a.raw

def Known (a : Sender) : Prop := a.mac ≠ str "unknown"

def key (pre : Bytes) (a : Sender) : Bytes := presenceRateKey pre a.examId a.mac a.ip

/-- Two requests that have to share a bucket. -/
def SameDevice (a b : Sender) : Prop :=
  a.examId = b.examId ∧ (a.Known ∧ a.mac = b.mac ∨ ¬ a.Known ∧ ¬ b.Known ∧ a.ip = b.ip)

/-- A device that is named like the address of an unknown device in the same exam. -/
def Poses (a b : Sender) : Prop :=
  a.examId = b.examId ∧ a.Known ∧ ¬ b.Known ∧ a.mac = str "ip:" ++ b.ip

end Sender

theorem sanitizeMacLikeGo_ne_nil (raw : Bytes) : sanitizeMacLikeGo raw ≠ [] := by
  unfold sanitizeMacLikeGo
  dsimp only
  split
  next => decide
  next h => exact h

/-- The part of a key after the exam. -/
def Sender.bucket (a : Sender) : Bytes :=
  if a.mac = str "unknown" then str "ip:" ++ a.ip else a.mac

theorem Sender.key_eq (pre : Bytes) (a : Sender) :
    a.key pre = pre ++ (intText a.examId.toInt ++ chr ':' :: a.bucket) := by
  have hne : a.mac ≠ [] := sanitizeMacLikeGo_ne_nil a.raw
  unfold Sender.key presenceRateKey Sender.bucket
  by_cases h : a.mac = str "unknown"
  · rw [if_pos (Or.inr h), if_pos h]
    rfl
  · rw [if_neg (not_or.mpr ⟨hne, h⟩), if_neg h]
    rfl

/-- The digits of an exam end at the first colon, so different exams have different keys. -/
theorem Sender.key_eq_key_iff {pre : Bytes} {a b : Sender} :
    a.key pre = b.key pre ↔ a.examId = b.examId ∧ a.bucket = b.bucket := by
  rw [a.key_eq, b.key_eq, List.append_cancel_left_eq,
    intText_append_inj (by decide) (by decide)]

/-- Devices have buckets of their own unless one is named like the address of another. -/
theorem key_eq_key_iff_sameDevice (pre : Bytes) (a b : Sender) :
    (a.key pre = b.key pre ↔ a.SameDevice b) ↔ ¬ a.Poses b ∧ ¬ b.Poses a := by
  rw [Sender.key_eq_key_iff]
  unfold Sender.SameDevice Sender.Poses Sender.Known Sender.bucket
  by_cases hexam : a.examId = b.examId
  swap
  · have hexam' : b.examId ≠ a.examId := Ne.symm hexam
    simp only [hexam, hexam', false_and, not_false_eq_true, and_self]
  -- two unknown devices and two known ones compare the same texts on both sides
  by_cases ha : a.mac = str "unknown" <;> by_cases hb : b.mac = str "unknown"
  · simp [hexam, ha, hb]
  · simp [hexam, ha, hb, eq_comm]
  · simp [hexam, ha, hb]
  · simp [hexam, ha, hb]

/-- The devices that can take from an unknown one are those that begin like an address. -/
theorem shares_unknown_iff (pre : Bytes) {a : Sender} (ha : a.Known) :
    (∃ b : Sender, ¬ b.Known ∧ a.key pre = b.key pre) ↔ str "ip:" <+: a.mac := by
  have hbucket : a.bucket = a.mac := if_neg ha
  constructor
  · rintro ⟨b, hb, hkey⟩
    have hunknown : b.bucket = str "ip:" ++ b.ip := if_pos (not_not.mp hb)
    have heq := (Sender.key_eq_key_iff.mp hkey).2
    rw [hbucket, hunknown] at heq
    exact ⟨b.ip, heq.symm⟩
  · rintro ⟨ip, hip⟩
    have hnone : sanitizeMacLikeGo [] = str "unknown" := by decide
    have hunknown : Sender.mac { a with raw := [], ip := ip } = str "unknown" := hnone
    refine ⟨{ a with raw := [], ip := ip }, not_not.mpr hunknown, Sender.key_eq_key_iff.mpr ⟨rfl, ?_⟩⟩
    rw [hbucket, ← hip]
    exact (if_pos hunknown).symm

/-- A device that is named like an address takes from whoever is there. -/
theorem not_key_eq_key_iff_sameDevice :
    let a : Sender := { examId := 7, raw := str "ip:10.0.0.5", ip := str "10.0.0.9" }
    let b : Sender := { examId := 7, raw := [], ip := str "10.0.0.5" }
    ¬ (a.key (str "ratelimit:presence:") = b.key (str "ratelimit:presence:") ↔ a.SameDevice b) := by
  intro a b h
  have ha : a.mac = str "ip:10.0.0.5" := by decide
  have hb : b.mac = str "unknown" := by decide
  have hsame : a.SameDevice b := h.mp (Sender.key_eq_key_iff.mpr ⟨rfl, by decide⟩)
  rcases hsame.2 with ⟨-, hmac⟩ | ⟨hunknown, -⟩
  · rw [ha, hb] at hmac
    exact absurd hmac (by decide)
  · exact hunknown (by unfold Sender.Known; rw [ha]; decide)

end ExamVan.Api
