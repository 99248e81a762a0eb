import ExamVan.Admin.Handlers
import ExamVan.Lib.Protocol

/-!
# Rotating a token

`exam_by_token` looks at a copy of the exam, reads the clock, and tests the interval once more when
it holds the store's lock, with the reading that it has. Between two of these steps other joins run
and time goes on. Beside the store, the model keeps the rotations that have taken effect.
-/

namespace ExamVan.Api

open ByteString Models ExamToken Store Helpers Admin

/-- A rotation: the exam as it was found under the lock, and the time that was written. -/
structure Rotation where
  before : Exam
  recordedAt : Bytes
  deriving DecidableEq

structure JoinWorld where
  store : MemoryStore
  /-- `system_clock::now()` -/
  now : Int64
  rotations : List Rotation := []

inductive JoinOp
  /-- `list_all`, and the exam that matches -/
  | lookUp (token : Bytes)
  | readClock
  | rotate (id : Int32) (token : Bytes) (now : Int64)
  /-- time goes on -/
  | tick (time : Int64)

abbrev JoinAns : JoinOp → Type
  | .lookUp _ | .rotate _ _ _ => Option Exam
  | .readClock => Int64
  | .tick _ => Unit

abbrev JoinProg := Prog JoinOp JoinAns

abbrev JoinOp.ask (o : JoinOp) : JoinProg (JoinAns o) := Prog.op o

def isoClock : Clock := ⟨parseIsoUtc, formatIsoUtc⟩

/-- The test under the lock. -/
def stillDue (now : Int64) (e : Exam) : Bool := rotationStillDue isoClock now.toInt e

/-- The mutator of the rotation. -/
def rotateIfDue (token : Bytes) (now : Int64) (e : Exam) : Exam :=
  if stillDue now e then Admin.rotate token (formatIsoUtc now.toInt) e else e

def JoinOp.perform : (o : JoinOp) → JoinWorld → JoinAns o × JoinWorld
  | .lookUp token, w => (lookup w.store.exams token, w)
  | .readClock, w => (w.now, w)
  | .rotate id token now, w =>
      let found := (w.store.getById id).toList.filter (stillDue now)
      ((w.store.update id (rotateIfDue token now)).1,
        { w with
          store := (w.store.update id (rotateIfDue token now)).2
          rotations := w.rotations ++ found.map fun e => ⟨e, formatIsoUtc now.toInt⟩ })
  | .tick time, w => ((), if w.now ≤ time then { w with now := time } else w)

/-! ### The handler -/

/-- The rotation of `exam_by_token`: the exam that it goes on with. -/
def maybeRotate (random : Fin 8 → UInt8) (now : Int64) (e : Exam) : JoinProg Exam := do
  if !rotationDue isoClock now.toInt e then return e
  let token := (drawToken random).text
  let found : Option Exam ← JoinOp.ask (.rotate e.id token now)
  return if found.any (stillDue now) then Admin.rotate token (formatIsoUtc now.toInt) e else e

def examByToken (random : Fin 8 → UInt8) (token : Bytes) : JoinProg Progress := do
  if !isValidExamToken token then return .respond tokenNotFound
  let matched : Option Exam ← JoinOp.ask (.lookUp token)
  match matched with
  | none => return .respond tokenNotFound
  | some e => do
      let now : Int64 ← JoinOp.ask .readClock
      let exam ← maybeRotate random now e
      let later : Int64 ← JoinOp.ask .readClock
      return joinReply isoClock later.toInt exam

inductive JoinCall
  | join (random : Fin 8 → UInt8) (token : Bytes)
  | tick (time : Int64)

def JoinCall.program : JoinCall → JoinProg (Option Progress)
  | .join random token => do return some (← examByToken random token)
  | .tick time => do
      let _ : Unit ← JoinOp.ask (.tick time)
      return none

abbrev JoinJob := Job JoinCall JoinOp JoinAns (Option Progress)

/-- Any number of joins from some store and time on. -/
def joins (store : MemoryStore) (now : Int64) :
    System (Threads JoinJob JoinWorld) (Threads.Action JoinCall) :=
  Job.system JoinCall.program JoinOp.perform { store, now }

/-! ### Intervals -/

/-- The text that the interval is counted from. -/
def reference (e : Exam) : Bytes := e.tokenLastResetAt.getD (e.examStartedAt.getD [])

/-- The time that is written is an interval after the reference that was stored. -/
def Rotation.Timely (r : Rotation) : Prop :=
  ∃ interval since recorded, r.before.tokenResetInterval = some interval ∧
    readIsoUtc (reference r.before) = some since ∧ readIsoUtc r.recordedAt = some recorded ∧
      since + interval.toInt * 60 ≤ recorded

/-- Of the same exam, the second rotation is an interval after the first one. -/
def Rotation.Before (r r' : Rotation) : Prop :=
  r.before.id = r'.before.id →
    ∃ interval recorded recorded', r'.before.tokenResetInterval = some interval ∧
      readIsoUtc r.recordedAt = some recorded ∧ readIsoUtc r'.recordedAt = some recorded' ∧
        recorded + interval.toInt * 60 ≤ recorded'

/-- Every rotation is in time, and no two of an exam are closer than an interval. -/
def JoinWorld.Punctual (w : JoinWorld) : Prop :=
  (∀ r ∈ w.rotations, r.Timely) ∧ w.rotations.Pairwise Rotation.Before

/-- When the interval is over, in nanoseconds. -/
def deadline (since : Int) (interval : Int32) : Int := (since + interval.toInt * 60) * 1000000000

/-- The end of the interval fits into 64 bits, or what is left of it is still to come. -/
def DeadlineFits (now : Int64) (e : Exam) : Prop :=
  e.getTokenMode = str "dynamic" → e.examStartedAt.isSome = true →
    ∀ interval ∈ e.tokenResetInterval, 0 < interval → ∀ since ∈ readIsoUtc (reference e),
      deadline since interval < 2 ^ 63 ∨ now.toInt < wrapTicks (deadline since interval)

def JoinOp.InRange : JoinOp → JoinWorld → Prop
  | .rotate id _ now, w => ∀ e ∈ w.store.getById id, DeadlineFits now e
  | _, _ => True

/-! ### The test under the lock -/

variable {now : Int64} {e : Exam} {w : JoinWorld} {o : JoinOp}

theorem addMinutes_wrapTicks (since : Int) (interval : Int32) :
    addMinutes (wrapTicks (since * 1000000000)) interval = wrapTicks (deadline since interval) := by
  unfold addMinutes wrapTicks deadline
  rw [Int.bmod_add_bmod]
  congr 1
  ring

theorem stillDue_iff :
    stillDue now e = true ↔
      e.getTokenMode = str "dynamic" ∧ e.examStartedAt.isSome = true ∧
        ∃ interval since, e.tokenResetInterval = some interval ∧ 0 < interval ∧
          readIsoUtc (reference e) = some since ∧
            wrapTicks (deadline since interval) ≤ now.toInt := by
  unfold stillDue rotationStillDue intervalOver
  cases hinterval : e.tokenResetInterval with
  | none => simp
  | some interval =>
      have hread : isoClock.parse (reference e) =
          (readIsoUtc (reference e)).map fun seconds => wrapTicks (seconds * 1000000000) := rfl
      rw [show e.tokenLastResetAt.getD (e.examStartedAt.getD []) = reference e from rfl, hread]
      cases hsince : readIsoUtc (reference e) with
      | none => simp
      | some since =>
          simp only [Option.map_some, addMinutes_wrapTicks, decide_eq_true_eq, Option.some.injEq,
            exists_and_left, exists_eq_left']
          tauto

/-- A rotation that takes effect is in time exactly if the end of its interval fits. -/
theorem timely_iff_fits (hdue : stillDue now e = true) :
    (⟨e, formatIsoUtc now.toInt⟩ : Rotation).Timely ↔ DeadlineFits now e := by
  obtain ⟨hmode, hstarted, interval, since, hinterval, hpositive, hsince, hover⟩ :=
    stillDue_iff.mp hdue
  have hnow : -2 ^ 63 ≤ now.toInt ∧ now.toInt < 2 ^ 63 := ⟨now.le_toInt, now.toInt_lt⟩
  have hseconds := tdiv_bounds now.toInt
  have hmul := tdiv_mul_le now.toInt
  have htimely : (⟨e, formatIsoUtc now.toInt⟩ : Rotation).Timely ↔
      since + interval.toInt * 60 ≤ now.toInt.tdiv 1000000000 := by
    constructor
    · rintro ⟨interval', since', recorded, hinterval', hsince', hrecorded, hle⟩
      obtain rfl := Option.some.inj (hinterval.symm.trans hinterval')
      obtain rfl := Option.some.inj (hsince.symm.trans hsince')
      obtain rfl := Option.some.inj ((readIsoUtc_formatIsoUtc now).symm.trans hrecorded)
      exact hle
    · exact fun hle => ⟨interval, since, _, hinterval, hsince, readIsoUtc_formatIsoUtc now, hle⟩
  have hfits : DeadlineFits now e ↔ deadline since interval < 2 ^ 63 := by
    constructor
    · intro h
      rcases h hmode hstarted interval hinterval hpositive since hsince with h | h
      · exact h
      · exact absurd hover (Int.not_le.mpr h)
    · intro h _ _ interval' hinterval' _ since' hsince'
      obtain rfl := Option.some.inj (hinterval.symm.trans hinterval')
      obtain rfl := Option.some.inj (hsince.symm.trans hsince')
      exact Or.inl h
  rw [htimely, hfits]
  constructor
  · intro hle
    have hmax : max now.toInt 0 < 2 ^ 63 := max_lt hnow.2 (by decide)
    have hscaled : deadline since interval ≤ now.toInt.tdiv 1000000000 * 1000000000 :=
      Int.mul_le_mul_of_nonneg_right hle (by decide)
    exact (hscaled.trans hmul).trans_lt hmax
  · intro hlt
    -- what fits is left as it is, and what lies too far in the past is over in any case
    have hle : deadline since interval ≤ now.toInt := by
      by_cases hpast : -2 ^ 63 ≤ deadline since interval
      · rw [wrapTicks, Int.bmod_eq_of_le (by omega) (by omega)] at hover
        exact hover
      · omega
    unfold deadline at hle
    omega

theorem fits_of_not_due (hdue : ¬ stillDue now e = true) : DeadlineFits now e := by
  intro hmode hstarted interval hinterval hpositive since hsince
  refine Or.inr (Int.not_le.mp fun hover => hdue (stillDue_iff.mpr ?_))
  exact ⟨hmode, hstarted, interval, since, hinterval, hpositive, hsince, hover⟩

/-! ### One step -/

theorem id_rotateIfDue (token : Bytes) (now : Int64) (e : Exam) :
    (rotateIfDue token now e).id = e.id := by
  unfold rotateIfDue
  split <;> rfl

/-- A rotation that is not due changes nothing. -/
theorem update_of_not_due {store : MemoryStore} {id : Int32} (token : Bytes)
    (hdue : ∀ e ∈ store.getById id, ¬ stillDue now e = true) :
    (store.update id (rotateIfDue token now)).2 = store := by
  cases hfind : store.getById id with
  | none => rw [MemoryStore.update_of_getById_eq_none hfind]
  | some e =>
      obtain ⟨before, after, -, hsplit, -, hupdate⟩ := MemoryStore.split_of_getById hfind
      have hsame : rotateIfDue token now e = e := if_neg (hdue e hfind)
      have hexams : (store.update id (rotateIfDue token now)).2.exams = store.exams := by
        rw [hupdate, hsame, hsplit]
      change { store with exams := (store.update id (rotateIfDue token now)).2.exams } = store
      rw [hexams]

theorem id_of_getById {store : MemoryStore} {id : Int32} (hfind : store.getById id = some e) :
    e.id = id := by
  obtain ⟨-, -, hid, -⟩ := MemoryStore.split_of_getById hfind
  exact hid

/-- The world after a rotation that takes effect. -/
def JoinWorld.rotated (w : JoinWorld) (e : Exam) (token : Bytes) (now : Int64) : JoinWorld :=
  { w with
    store := (w.store.update e.id (rotateIfDue token now)).2
    rotations := w.rotations ++ [⟨e, formatIsoUtc now.toInt⟩] }

/-- A rotation takes effect on the exam that it finds, or it leaves the world as it is. -/
theorem rotate_cases (id : Int32) (token : Bytes) (now : Int64) (w : JoinWorld) :
    (((JoinOp.rotate id token now).perform w).2 = w ∧
        ∀ e ∈ w.store.getById id, ¬ stillDue now e = true) ∨
      ∃ e, e.id = id ∧ w.store.getById id = some e ∧ stillDue now e = true ∧
        ((JoinOp.rotate id token now).perform w).2 = w.rotated e token now := by
  by_cases hdue : ∃ e, w.store.getById id = some e ∧ stillDue now e = true
  · obtain ⟨e, hfind, hdue⟩ := hdue
    refine Or.inr ⟨e, id_of_getById hfind, hfind, hdue, ?_⟩
    simp [JoinOp.perform, JoinWorld.rotated, hfind, hdue, id_of_getById hfind]
  · have hnone : ∀ e ∈ w.store.getById id, ¬ stillDue now e = true := fun e he h => hdue ⟨e, he, h⟩
    have hempty : (w.store.getById id).toList.filter (stillDue now) = [] := by
      refine List.filter_eq_nil_iff.mpr fun e he => hnone e (Option.mem_toList.mp he)
    refine Or.inl ⟨?_, hnone⟩
    simp [JoinOp.perform, hempty, update_of_not_due token hnone]

/-- The time that the interval of an exam is counted from. -/
def JoinWorld.since? (w : JoinWorld) (id : Int32) : Option Int :=
  (w.store.getById id).bind fun e => readIsoUtc (reference e)

theorem since?_rotated_self (token : Bytes) (hfind : w.store.getById e.id = some e)
    (hdue : stillDue now e = true) :
    (w.rotated e token now).since? e.id = some (now.toInt.tdiv 1000000000) := by
  have hstored : (w.rotated e token now).store.getById e.id =
      some (Admin.rotate token (formatIsoUtc now.toInt) e) := by
    rw [JoinWorld.rotated, MemoryStore.getById_update_self (id_rotateIfDue token now), hfind,
      Option.map_some, rotateIfDue, if_pos hdue]
  rw [JoinWorld.since?, hstored, Option.bind_some]
  exact readIsoUtc_formatIsoUtc now

theorem since?_rotated_of_ne {id : Int32} (token : Bytes) (hne : id ≠ e.id) :
    (w.rotated e token now).since? id = w.since? id := by
  unfold JoinWorld.since? JoinWorld.rotated
  rw [MemoryStore.getById_update_of_ne hne (id_rotateIfDue token now)]

/-! ### Runs -/

/-- No rotation of an exam is recorded after the time that its interval is counted from by now. -/
def JoinWorld.Recorded (w : JoinWorld) : Prop :=
  ∀ r ∈ w.rotations, ∃ recorded since, readIsoUtc r.recordedAt = some recorded ∧
    w.since? r.before.id = some since ∧ recorded ≤ since

/-- A rotation in time keeps the exam's clock from going back. -/
theorem JoinWorld.Recorded.rotated (hw : w.Recorded) (token : Bytes)
    (hfind : w.store.getById e.id = some e) (hdue : stillDue now e = true)
    (htimely : (⟨e, formatIsoUtc now.toInt⟩ : Rotation).Timely) :
    (w.rotated e token now).Recorded := by
  have hself := since?_rotated_self token hfind hdue
  intro r hr
  rcases List.mem_append.mp hr with hr | hr
  · obtain ⟨recorded, since, hrecorded, hsince, hle⟩ := hw r hr
    by_cases hid : r.before.id = e.id
    · rw [hid, JoinWorld.since?, hfind, Option.bind_some] at hsince
      obtain ⟨-, -, interval, -, hinterval, hpositive, -⟩ := stillDue_iff.mp hdue
      obtain ⟨interval', since', at', hinterval', hsince', hat, hover⟩ := htimely
      obtain rfl := Option.some.inj (hinterval.symm.trans hinterval')
      obtain rfl := Option.some.inj (hsince.symm.trans hsince')
      obtain rfl := Option.some.inj ((readIsoUtc_formatIsoUtc now).symm.trans hat)
      have hminutes : 0 < interval.toInt := Int32.lt_iff_toInt_lt.mp hpositive
      exact ⟨recorded, _, hrecorded, hid ▸ hself, by omega⟩
    · exact ⟨recorded, since, hrecorded, (since?_rotated_of_ne token hid).trans hsince, hle⟩
  · obtain rfl := List.mem_singleton.mp hr
    exact ⟨_, _, readIsoUtc_formatIsoUtc now, hself, le_rfl⟩

/-- What is in time comes an interval after every earlier rotation of the exam. -/
theorem Rotation.Timely.before {r r' : Rotation} (hw : w.Recorded) (hr : r ∈ w.rotations)
    (hfind : w.store.getById r'.before.id = some r'.before) (htimely : r'.Timely) :
    r.Before r' := by
  intro hid
  obtain ⟨interval, since, recorded', hinterval, hsince, hrecorded', hover⟩ := htimely
  obtain ⟨recorded, since', hrecorded, hsince', hle⟩ := hw r hr
  rw [hid, JoinWorld.since?, hfind, Option.bind_some] at hsince'
  obtain rfl := Option.some.inj (hsince.symm.trans hsince')
  exact ⟨interval, recorded, recorded', hinterval, hrecorded, hrecorded', by omega⟩

theorem punctual_rotated_iff (hw : w.Recorded) (hpunctual : w.Punctual) (token : Bytes)
    (hfind : w.store.getById e.id = some e) :
    (w.rotated e token now).Punctual ↔ (⟨e, formatIsoUtc now.toInt⟩ : Rotation).Timely := by
  constructor
  · exact fun h => h.1 _ (List.mem_append_right _ (List.mem_singleton_self _))
  · intro htimely
    refine ⟨fun r hr => ?_, List.pairwise_append.mpr ⟨hpunctual.2, List.pairwise_singleton _ _, ?_⟩⟩
    · rcases List.mem_append.mp hr with hr | hr
      · exact hpunctual.1 r hr
      · rw [List.mem_singleton.mp hr]
        exact htimely
    · intro r hr r' hr'
      rw [List.mem_singleton.mp hr']
      exact htimely.before hw hr hfind

/-- Time that goes on changes nothing else. -/
theorem perform_tick (time : Int64) (w : JoinWorld) :
    ∃ now, ((JoinOp.tick time).perform w).2 = { w with now := now } := by
  by_cases hle : w.now ≤ time
  · exact ⟨time, if_pos hle⟩
  · exact ⟨w.now, if_neg hle⟩

/-- An operation of a join keeps every rotation punctual exactly if the end of its interval fits. -/
theorem inRange_iff_punctual (hw : w.Recorded) (hpunctual : w.Punctual) :
    o.InRange w ↔ (o.perform w).2.Punctual := by
  cases o with
  | lookUp token => exact iff_of_true trivial hpunctual
  | readClock => exact iff_of_true trivial hpunctual
  | tick time =>
      obtain ⟨now, hnow⟩ := perform_tick time w
      rw [hnow]
      exact iff_of_true trivial hpunctual
  | rotate id token now =>
      rcases rotate_cases id token now w with ⟨hsame, hdue⟩ | ⟨e, rfl, hfind, hdue, hrotated⟩
      · rw [hsame]
        exact iff_of_true (fun e he => fits_of_not_due (hdue e he)) hpunctual
      · rw [hrotated, punctual_rotated_iff hw hpunctual token hfind, timely_iff_fits hdue]
        change (∀ found ∈ w.store.getById e.id, DeadlineFits now found) ↔ DeadlineFits now e
        rw [hfind]
        exact ⟨fun h => h e rfl, fun h found hfound => Option.some.inj hfound ▸ h⟩

theorem recorded_perform (hw : w.Recorded) (hrange : o.InRange w) : (o.perform w).2.Recorded := by
  cases o with
  | lookUp token => exact hw
  | readClock => exact hw
  | tick time =>
      obtain ⟨now, hnow⟩ := perform_tick time w
      rw [hnow]
      exact hw
  | rotate id token now =>
      rcases rotate_cases id token now w with ⟨hsame, -⟩ | ⟨e, rfl, hfind, hdue, hrotated⟩
      · rw [hsame]
        exact hw
      · rw [hrotated]
        exact hw.rotated token hfind hdue ((timely_iff_fits hdue).mpr (hrange e hfind))

/-- An operation that rotates nothing leaves the store as it is. -/
theorem store_perform (h : (o.perform w).2.rotations = w.rotations) :
    (o.perform w).2.store = w.store := by
  cases o with
  | lookUp token => rfl
  | readClock => rfl
  | tick time =>
      obtain ⟨now, hnow⟩ := perform_tick time w
      rw [hnow]
  | rotate id token now =>
      rcases rotate_cases id token now w with ⟨hsame, -⟩ | ⟨e, rfl, -, -, hrotated⟩
      · rw [hsame]
      · rw [hrotated] at h
        exact absurd (List.append_right_eq_self.mp h) (List.cons_ne_nil _ _)

/-- However joins are interleaved, a token rotates at most once in an interval exactly as long as
the intervals end within 64 bits, and a join that does not rotate changes nothing. -/
theorem rotates_once_iff (store : MemoryStore) (now : Int64)
    (actions : List (Threads.Action JoinCall)) :
    ((joins store now).Along (fun s => s.world.Punctual) (joins store now).initial actions ↔
        (joins store now).Guarded (Job.Performs JoinOp.InRange) (joins store now).initial actions) ∧
      ∀ s a s', (joins store now).step? s a = some s' →
        s'.world.rotations = s.world.rotations → s'.world.store = s.world.store := by
  constructor
  · have hrecorded : JoinWorld.Recorded { store, now } := fun r hr => absurd hr List.not_mem_nil
    have hpunctual : JoinWorld.Punctual { store, now } :=
      ⟨fun r hr => absurd hr List.not_mem_nil, List.Pairwise.nil⟩
    refine Job.along_iff_guarded hrecorded hpunctual (fun o w hw hrange => ?_)
      (fun o w hw hpunctual => ?_) actions
    · exact recorded_perform hw hrange
    · exact inRange_iff_punctual hw hpunctual
  · intro s a s' hstep hsame
    cases a with
    | arrive call =>
        cases hstep
        rfl
    | step i =>
        obtain ⟨t, o, next, -, -, rfl⟩ := Job.step?_step hstep
        exact store_perform hsame

/-! ### An interval of four thousand years -/

/-- What `token-mode` stores with the largest interval that it accepts. -/
def patientExam : Exam :=
  { id := 1
    token := str "ABCDEFGH"
    activeToken := str "ABCDEFGH"
    status := str "active"
    tokenResetInterval := some 2147483647
    examStartedAt := some (str "1970-01-01T00:00:00Z") }

def patientStore : MemoryStore := ⟨[patientExam], 2, ∅⟩

/-- The first join rotates at the moment of the start. -/
theorem not_rotates_once : ¬ ∀ (store : MemoryStore) (now : Int64)
    (actions : List (Threads.Action JoinCall)),
    (joins store now).Along (fun s => s.world.Punctual) (joins store now).initial actions := by
  intro h
  have hrun := h patientStore 0
    (.arrive (.join (fun _ => 0) patientExam.token) :: List.replicate 3 (.step 0))
  have hlast := (hrun.after (by decide +kernel)).1 ⟨patientExam, str "1970-01-01T00:00:00Z"⟩
    (by decide +kernel)
  obtain ⟨interval, since, recorded, hinterval, hsince, hrecorded, hle⟩ := hlast
  have hread : readIsoUtc (str "1970-01-01T00:00:00Z") = some 0 := by decide +kernel
  obtain rfl := Option.some.inj hinterval
  obtain rfl := Option.some.inj (hread.symm.trans hsince)
  obtain rfl := Option.some.inj (hread.symm.trans hrecorded)
  exact absurd hle (by decide)

end ExamVan.Api
