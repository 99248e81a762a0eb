import ExamVan.Lib.Consumers
import ExamVan.Server.FrontEnd

/-!
# The workers of the server

An acceptor puts connections into a queue, and workers take them out and answer them. `Server::stop`
lowers `g_running`, closes the listener, wakes the workers and joins all threads. It does not hold the
mutex of the queue when it lowers the flag.
-/

namespace ExamVan.Server

/-- A connection, with the chunks that are received from it. -/
structure Conn where
  cfd : Nat
  chunks : List Chunk

/-- Where a worker is in `posix_worker_loop`. -/
inductive Worker
  | locking
  /-- the predicate of the wait is false; the mutex is held -/
  | tested
  | waiting
  | handling (conn : Conn)
  | returned

inductive Acceptor
  | testing
  | accepting
  | pushing (conn : Conn)
  | notifying
  | returned

/-- Where `Server::stop` is. -/
inductive Stopping
  | notCalled
  | lowered
  | shut
  | notified
  | joined
  deriving DecidableEq

structure Posix where
  gRunning : Bool := true
  queue : List Conn := []
  workers : List Worker
  acceptor : Acceptor := .testing
  stopping : Stopping := .notCalled
  /-- the connections in the order of `accept` -/
  accepted : List Conn := []
  /-- the connections in the order in which workers have taken them -/
  taken : List Conn := []
  /-- what has become of the connections that are closed -/
  answered : List (Conn × Outcome) := []
  /-- the workers that were between their test and their wait at `notify_all` -/
  missed : Nat := 0

/-- `hardware_concurrency`, but at least 4 and at most 16. -/
def workerCount (hardware : Nat) : Nat :=
  let workers := if hardware < 4 then 4 else hardware
  if workers > 16 then 16 else workers

/-- What happens next: a thread moves, `wait` returns without a cause, or `accept` returns. -/
inductive PosixAction
  | worker (i : Nat)
  | spurious (i : Nat)
  | acceptor
  | accept (conn : Conn)
  | acceptFails
  | notifyOne (target : Option Nat)
  | stop

variable (serves : ByteString.Bytes → Bool)

def Worker.isTested : Worker → Bool
  | .tested => true
  | _ => false

def Worker.isWaiting : Worker → Bool
  | .waiting => true
  | _ => false

def Worker.isReturned : Worker → Bool
  | .returned => true
  | _ => false

def Worker.notified : Worker → Worker
  | .waiting => .locking
  | w => w

/-- `g_posix_qmu` is held between two steps. -/
def Posix.mutexHeld (s : Posix) : Bool := s.workers.any Worker.isTested

/-- `g_fd` is open. -/
def Posix.listening (s : Posix) : Bool := s.stopping = .notCalled ∨ s.stopping = .lowered

/-- `posix_worker_loop` -/
def workerStep (s : Posix) (i : Nat) : Option Posix :=
  match s.workers[i]? with
  | some .locking =>
      if s.mutexHeld then none
      else
        match s.queue with
        | conn :: rest =>
            some { s with
              queue := rest
              taken := s.taken ++ [conn]
              workers := s.workers.set i (.handling conn) }
        | [] => some { s with workers := s.workers.set i (if s.gRunning then .tested else .returned) }
  | some .tested => some { s with workers := s.workers.set i .waiting }
  | some (.handling conn) =>
      some { s with
        answered := s.answered ++ [(conn, handleClient serves conn.chunks)]
        workers := s.workers.set i .locking }
  | _ => none

/-- The acceptor's loop, up to what `accept` returns. -/
def acceptorStep (s : Posix) : Option Posix :=
  match s.acceptor with
  | .testing => some { s with acceptor := if s.gRunning then .accepting else .returned }
  | .pushing conn =>
      if s.mutexHeld then none
      else some { s with queue := s.queue ++ [conn], acceptor := .notifying }
  | _ => none

/-- `notify_one`, with the worker that it wakes if one waits. -/
def notifyStep (s : Posix) (target : Option Nat) : Option Posix :=
  match s.acceptor, target with
  | .notifying, none =>
      if s.workers.any Worker.isWaiting then none else some { s with acceptor := .testing }
  | .notifying, some i =>
      match s.workers[i]? with
      | some .waiting => some { s with workers := s.workers.set i .locking, acceptor := .testing }
      | _ => none
  | _, _ => none

/-- `Server::stop` -/
def stopStep (s : Posix) : Option Posix :=
  match s.stopping with
  | .notCalled => some { s with gRunning := false, stopping := .lowered }
  | .lowered => some { s with stopping := .shut }
  | .shut =>
      some { s with
        workers := s.workers.map Worker.notified
        stopping := .notified
        missed := s.workers.countP Worker.isTested }
  | .notified =>
      match s.acceptor with
      | .returned =>
          if s.workers.all Worker.isReturned then some { s with stopping := .joined } else none
      | _ => none
  | .joined => none

/-- The server from `listen` on. -/
def posixServer (hardware : Nat) : System Posix PosixAction where
  initial := { workers := List.replicate (workerCount hardware) .locking }
  step? s
    | .worker i => workerStep serves s i
    | .spurious i =>
        match s.workers[i]? with
        | some .waiting => some { s with workers := s.workers.set i .locking }
        | _ => none
    | .acceptor => acceptorStep s
    | .accept conn =>
        match s.acceptor with
        | .accepting =>
            if s.listening then
              some { s with acceptor := .pushing conn, accepted := s.accepted ++ [conn] }
            else none
        | _ => none
    | .acceptFails =>
        match s.acceptor with
        | .accepting => some { s with acceptor := if s.gRunning then .testing else .returned }
        | _ => none
    | .notifyOne target => notifyStep s target
    | .stop => stopStep s

/-! ### The workers as consumers of the queue -/

open Consumers (Phase Producer Stopper)

def Worker.phase : Worker → Phase Conn
  | .locking => .ready
  | .tested => .idle
  | .waiting => .asleep
  | .handling conn => .working conn
  | .returned => .gone

def Acceptor.phase : Acceptor → Producer Conn
  | .testing => .checking
  | .accepting => .accepting
  | .pushing conn => .holding conn
  | .notifying => .notifying
  | .returned => .gone

def Stopping.phase : Stopping → Stopper
  | .notCalled => .away
  | .lowered => .lowered
  | .shut => .closed
  | .notified => .woken
  | .joined => .returned

def PosixAction.move : PosixAction → Consumers.Action Conn
  | .worker i => .consumer i
  | .spurious i => .wake i
  | .acceptor => .producer
  | .accept conn => .arrive conn
  | .acceptFails => .fail
  | .notifyOne target => .notify target
  | .stop => .stopper

def Posix.pool (s : Posix) : Consumers.State Conn where
  running := s.gRunning
  queue := s.queue
  consumers := s.workers.map Worker.phase
  producer := s.acceptor.phase
  stopper := s.stopping.phase
  arrived := s.accepted
  begun := s.taken
  finished := s.answered.map Prod.fst
  missed := s.missed

variable {serves} {s s' : Posix} {a : PosixAction} {hardware : Nat}

theorem locked_pool (s : Posix) : s.pool.locked = s.mutexHeld := by
  unfold Consumers.State.locked Posix.mutexHeld
  change (s.workers.map Worker.phase).any _ = _
  rw [List.any_map]
  congr 1
  funext w
  cases w <;> rfl

theorem isOpen_pool (s : Posix) : s.pool.isOpen = s.listening := by
  unfold Consumers.State.isOpen Posix.listening
  cases h : s.stopping <;> simp [Posix.pool, Stopping.phase, h]

theorem getElem?_pool (s : Posix) (i : Nat) :
    s.pool.consumers[i]? = s.workers[i]?.map Worker.phase := List.getElem?_map

theorem workerStep_pool (serves : ByteString.Bytes → Bool) (s : Posix) (i : Nat) :
    Consumers.consume s.pool i = (workerStep serves s i).map Posix.pool := by
  unfold Consumers.consume workerStep
  rw [getElem?_pool]
  cases hi : s.workers[i]? with
  | none => rfl
  | some w =>
      cases w with
      | locking =>
          simp only [Option.map_some, Worker.phase, locked_pool]
          cases s.mutexHeld with
          | true => rfl
          | false =>
              cases hqueue : s.queue with
              | nil =>
                  cases hrunning : s.gRunning <;>
                    simp [Posix.pool, Consumers.State.setConsumer, Worker.phase, hqueue, hrunning]
              | cons conn rest =>
                  simp [Posix.pool, Consumers.State.setConsumer, Worker.phase, hqueue]
      | tested => simp [Posix.pool, Consumers.State.setConsumer, Worker.phase]
      | waiting => rfl
      | handling conn => simp [Posix.pool, Consumers.State.setConsumer, Worker.phase]
      | returned => rfl

theorem acceptorStep_pool (s : Posix) :
    Consumers.produce s.pool = (acceptorStep s).map Posix.pool := by
  unfold Consumers.produce acceptorStep
  have hproducer : s.pool.producer = s.acceptor.phase := rfl
  rw [hproducer]
  cases hacceptor : s.acceptor with
  | testing => cases hrunning : s.gRunning <;> simp [Posix.pool, Acceptor.phase, hrunning]
  | accepting => rfl
  | pushing conn =>
      simp only [Acceptor.phase, locked_pool]
      cases s.mutexHeld <;> rfl
  | notifying => rfl
  | returned => rfl

theorem notifyStep_pool (s : Posix) (target : Option Nat) :
    Consumers.notifyOne s.pool target = (notifyStep s target).map Posix.pool := by
  have hproducer : s.pool.producer = s.acceptor.phase := rfl
  have hasleep : s.pool.consumers.any Phase.isAsleep = s.workers.any Worker.isWaiting := by
    change (s.workers.map Worker.phase).any _ = _
    rw [List.any_map]
    congr 1
    funext w
    cases w <;> rfl
  unfold Consumers.notifyOne notifyStep
  rw [hproducer, hasleep]
  cases hacceptor : s.acceptor with
  | notifying =>
      cases target with
      | none => cases h : s.workers.any Worker.isWaiting <;> simp [Posix.pool, Acceptor.phase]
      | some i =>
          simp only [Acceptor.phase, getElem?_pool]
          cases hi : s.workers[i]? with
          | none => rfl
          | some w =>
              cases w <;> simp [Posix.pool, Consumers.State.setConsumer, Worker.phase, Acceptor.phase]
  | _ => rfl

theorem stopStep_pool (s : Posix) : Consumers.stop s.pool = (stopStep s).map Posix.pool := by
  have hproducer : s.pool.producer = s.acceptor.phase := rfl
  have hstopper : s.pool.stopper = s.stopping.phase := rfl
  have hgone : s.pool.consumers.all Phase.isGone = s.workers.all Worker.isReturned := by
    change (s.workers.map Worker.phase).all _ = _
    rw [List.all_map]
    congr 1
    funext w
    cases w <;> rfl
  have hwoken : s.pool.consumers.map Phase.wakeUp = (s.workers.map Worker.notified).map Worker.phase := by
    change (s.workers.map Worker.phase).map _ = _
    rw [List.map_map, List.map_map]
    congr 1
    funext w
    cases w <;> rfl
  have hmissed : s.pool.consumers.countP Phase.isIdle = s.workers.countP Worker.isTested := by
    change (s.workers.map Worker.phase).countP _ = _
    rw [List.countP_map]
    congr 1
    funext w
    cases w <;> rfl
  unfold Consumers.stop stopStep
  rw [hstopper, hproducer]
  cases hstopping : s.stopping with
  | notCalled => rfl
  | lowered => rfl
  | shut =>
      simp only [Stopping.phase, hwoken, hmissed]
      rfl
  | notified =>
      cases hacceptor : s.acceptor <;> simp only [Stopping.phase, Acceptor.phase] <;> try rfl
      rw [hgone]
      cases s.workers.all Worker.isReturned <;> simp [Posix.pool, Stopping.phase, Acceptor.phase, hacceptor]
  | joined => rfl

/-- The server and the pool make the same steps. -/
theorem step?_pool (serves : ByteString.Bytes → Bool) (hardware : Nat) (s : Posix) (a : PosixAction) :
    (Consumers.system Conn (workerCount hardware)).step? s.pool a.move =
      ((posixServer serves hardware).step? s a).map Posix.pool := by
  have hproducer : s.pool.producer = s.acceptor.phase := rfl
  cases a with
  | worker i => exact workerStep_pool serves s i
  | spurious i =>
      simp only [PosixAction.move, Consumers.system, posixServer, getElem?_pool]
      cases hi : s.workers[i]? with
      | none => rfl
      | some w => cases w <;> simp [Posix.pool, Consumers.State.setConsumer, Worker.phase]
  | acceptor => exact acceptorStep_pool s
  | accept conn =>
      simp only [PosixAction.move, Consumers.system, posixServer, hproducer, isOpen_pool]
      cases hacceptor : s.acceptor with
      | accepting => cases h : s.listening <;> rfl
      | _ => rfl
  | acceptFails =>
      simp only [PosixAction.move, Consumers.system, posixServer, hproducer]
      cases hacceptor : s.acceptor with
      | accepting => cases hrunning : s.gRunning <;> simp [Posix.pool, Acceptor.phase, hrunning]
      | _ => rfl
  | notifyOne target => exact notifyStep_pool s target
  | stop => exact stopStep_pool s

theorem reachable_pool (hreach : (posixServer serves hardware).Reachable System.anyStep s) :
    (Consumers.system Conn (workerCount hardware)).Reachable System.anyStep s.pool := by
  induction hreach with
  | initial =>
      have hinitial : (posixServer serves hardware).initial.pool =
          (Consumers.system Conn (workerCount hardware)).initial := by
        simp [posixServer, Consumers.system, Posix.pool, Worker.phase, Acceptor.phase, Stopping.phase]
      rw [hinitial]
      exact .initial
  | @step s s' a _ _ hstep ih =>
      have hpool := step?_pool serves hardware s a
      rw [hstep, Option.map_some] at hpool
      exact .step ih trivial hpool

theorem run?_pool (serves : ByteString.Bytes → Bool) (hardware : Nat) (actions : List PosixAction)
    (s : Posix) :
    (Consumers.system Conn (workerCount hardware)).run? s.pool (actions.map PosixAction.move) =
      ((posixServer serves hardware).run? s actions).map Posix.pool := by
  induction actions generalizing s with
  | nil => rfl
  | cons a rest ih =>
      simp only [List.map_cons, System.run?, step?_pool serves hardware s a]
      cases (posixServer serves hardware).step? s a with
      | none => rfl
      | some s' => exact ih s'

/-! ### What becomes of the connections -/

/-- Every answer is the one to its connection. -/
def Answers (serves : ByteString.Bytes → Bool) (s : Posix) : Prop :=
  s.answered = (s.answered.map Prod.fst).map fun conn => (conn, handleClient serves conn.chunks)

theorem answered_of_step? (hstep : (posixServer serves hardware).step? s a = some s') :
    s'.answered = s.answered ∨
      ∃ conn, s'.answered = s.answered ++ [(conn, handleClient serves conn.chunks)] := by
  cases a with
  | worker i =>
      change workerStep serves s i = some s' at hstep
      unfold workerStep at hstep
      repeat' split at hstep
      all_goals first
        | (cases hstep; done)
        | (cases hstep; exact .inl rfl)
        | (cases hstep; exact .inr ⟨_, rfl⟩)
  | acceptor =>
      change acceptorStep s = some s' at hstep
      unfold acceptorStep at hstep
      repeat' split at hstep
      all_goals cases hstep <;> exact .inl rfl
  | notifyOne target =>
      change notifyStep s target = some s' at hstep
      unfold notifyStep at hstep
      repeat' split at hstep
      all_goals cases hstep <;> exact .inl rfl
  | stop =>
      change stopStep s = some s' at hstep
      unfold stopStep at hstep
      repeat' split at hstep
      all_goals cases hstep <;> exact .inl rfl
  | _ =>
      simp only [posixServer] at hstep
      repeat' split at hstep
      all_goals cases hstep <;> exact .inl rfl

theorem answers_invariant (serves : ByteString.Bytes → Bool) (hardware : Nat) :
    (posixServer serves hardware).Invariant System.anyStep (Answers serves) where
  initial := rfl
  step := by
    intro s s' a hs _ hstep
    unfold Answers at hs ⊢
    obtain hsame | ⟨conn, hone⟩ := answered_of_step? hstep
    · rw [hsame]
      exact hs
    · rw [hone, List.map_append, List.map_append, ← hs]
      rfl

theorem workerCount_pos (hardware : Nat) : 0 < workerCount hardware := by
  unfold workerCount
  dsimp only
  split_ifs <;> omega

/-- When `Server::stop` has joined its threads, every connection that a worker has taken is answered
once, in the order of `accept`, and at most one that came in meanwhile is left without an answer. -/
theorem joined_answers (hreach : (posixServer serves hardware).Reachable System.anyStep s)
    (hjoined : s.stopping = .joined) :
    (∃ left, s.accepted = s.taken ++ left ∧ left.length ≤ 1) ∧
      s.answered.Perm (s.taken.map fun conn => (conn, handleClient serves conn.chunks)) := by
  have hreturned : s.pool.stopper = .returned := congrArg Stopping.phase hjoined
  obtain ⟨horder, htaken, hleft⟩ :=
    Consumers.drained (workerCount_pos hardware) (reachable_pool hreach) hreturned
  have hanswers : Answers serves s := hreach.holds (answers_invariant serves hardware)
  refine ⟨⟨s.queue, horder, hleft⟩, ?_⟩
  rw [hanswers]
  exact (htaken.map _).symm

/-- One connection is answered, and the server is stopped meanwhile. -/
def oneConnection : List PosixAction :=
  [.acceptor, .accept ⟨7, []⟩, .acceptor, .notifyOne none, .worker 0, .stop, .worker 0, .stop, .acceptor,
    .worker 0, .worker 1, .worker 2, .worker 3, .stop, .stop]

theorem joined_answers_one :
    let s := (posixServer (fun _ => false) 1).after oneConnection
    (∃ left, s.accepted = s.taken ++ left ∧ left.length ≤ 1) ∧
      s.answered.Perm (s.taken.map fun conn => (conn, handleClient (fun _ => false) conn.chunks)) :=
  joined_answers (System.reachable_after (by decide) (System.guarded_anyStep _ _)) (by decide)

/-! ### Whether `Server::stop` returns -/

/-- No thread can go on, unless a wait returns without a cause. -/
def Halted (serves : ByteString.Bytes → Bool) (hardware : Nat) (s : Posix) : Prop :=
  ∀ a, (∀ i, a ≠ .spurious i) → (posixServer serves hardware).step? s a = none

/-- All threads have returned but some workers that wait. -/
structure Hung (s : Posix) : Prop where
  acceptor : s.acceptor = .returned
  workers : ∀ w ∈ s.workers, w = .returned ∨ w = .waiting
  waits : ∃ w ∈ s.workers, w = .waiting

theorem stuck_pool_iff : Consumers.Stuck (workerCount hardware) s.pool ↔ Halted serves hardware s := by
  have hstep : ∀ a, (Consumers.system Conn (workerCount hardware)).step? s.pool a.move = none ↔
      (posixServer serves hardware).step? s a = none := by
    intro a
    rw [step?_pool serves hardware s a, Option.map_eq_none_iff]
  constructor
  · intro h a ha
    refine (hstep a).mp (h a.move fun i hi => ?_)
    cases a <;> cases hi
    exact ha i rfl
  · intro h a ha
    cases a with
    | consumer i => exact (hstep (.worker i)).mpr (h _ (by simp))
    | wake i => exact absurd rfl (ha i)
    | producer => exact (hstep .acceptor).mpr (h _ (by simp))
    | arrive conn => exact (hstep (.accept conn)).mpr (h _ (by simp))
    | fail => exact (hstep .acceptFails).mpr (h _ (by simp))
    | notify target => exact (hstep (.notifyOne target)).mpr (h _ (by simp))
    | stopper => exact (hstep .stop).mpr (h _ (by simp))

theorem asleep_pool_iff : Consumers.Asleep s.pool ↔ Hung s := by
  have hacceptor : s.pool.producer = .gone ↔ s.acceptor = .returned := by
    change s.acceptor.phase = .gone ↔ _
    cases s.acceptor <;> simp [Acceptor.phase]
  have hgone : ∀ w : Worker, w.phase = .gone ↔ w = .returned := fun w => by
    cases w <;> simp [Worker.phase]
  have hasleep : ∀ w : Worker, w.phase = .asleep ↔ w = .waiting := fun w => by
    cases w <;> simp [Worker.phase]
  constructor
  · intro h
    refine ⟨hacceptor.mp h.producer, fun w hw => ?_, ?_⟩
    · exact (h.consumers _ (List.mem_map_of_mem hw)).imp (hgone w).mp (hasleep w).mp
    · obtain ⟨c, hc, hcasleep⟩ := h.sleeper
      obtain ⟨w, hw, rfl⟩ := List.mem_map.mp hc
      exact ⟨w, hw, (hasleep w).mp hcasleep⟩
  · intro h
    refine ⟨hacceptor.mpr h.acceptor, fun c hc => ?_, ?_⟩
    · obtain ⟨w, hw, rfl⟩ := List.mem_map.mp hc
      exact (h.workers w hw).imp (hgone w).mpr (hasleep w).mpr
    · obtain ⟨w, hw, hwaits⟩ := h.waits
      exact ⟨_, List.mem_map_of_mem hw, (hasleep w).mpr hwaits⟩

/-- After its `notify_all`, `Server::stop` joins all threads after a bounded number of steps, or it
waits for a worker that had found the queue empty before and went to sleep after it. -/
theorem stop_ends (hreach : (posixServer serves hardware).Reachable System.anyStep s)
    (hnotified : s.stopping = .notified) {actions : List PosixAction}
    (hcause : ∀ i, .spurious i ∉ actions)
    (hrun : (posixServer serves hardware).run? s actions = some s') :
    actions.length ≤ 4 * s.queue.length + 2 * s.workers.length + 8 ∧
      (Halted serves hardware s' ↔ s'.stopping = .joined ∨ Hung s') ∧ (Hung s' → 0 < s.missed) := by
  have hpool := run?_pool serves hardware actions s
  rw [hrun, Option.map_some] at hpool
  have hnone : ∀ i, .wake i ∉ actions.map PosixAction.move := by
    intro i hmem
    obtain ⟨a, ha, hmove⟩ := List.mem_map.mp hmem
    cases a <;> cases hmove
    exact hcause i ha
  obtain ⟨hbound, hstuck, hsleeps⟩ := Consumers.run_ends (reachable_pool hreach)
    (.inl (congrArg Stopping.phase hnotified)) hnone hpool
  have hjoined : s'.pool.stopper = .returned ↔ s'.stopping = .joined := by
    change s'.stopping.phase = .returned ↔ _
    cases s'.stopping <;> simp [Stopping.phase]
  have hrank := Consumers.rank_le s.pool
  rw [List.length_map] at hbound
  have hworkers : s.pool.consumers.length = s.workers.length := List.length_map _
  have hqueue : s.pool.queue = s.queue := rfl
  rw [hworkers, hqueue] at hrank
  refine ⟨by omega, ?_, fun hhung => hsleeps (asleep_pool_iff.mpr hhung)⟩
  rw [← stuck_pool_iff, hstuck, hjoined, asleep_pool_iff]

/-- The first worker tests its predicate, and waits after the server has been stopped. -/
def lostWakeUp : List PosixAction := [.worker 0, .stop, .stop, .stop]

def lastSteps : List PosixAction := [.worker 0, .worker 1, .worker 2, .worker 3, .acceptor]

theorem stop_ends_lostWakeUp :
    let s := (posixServer (fun _ => false) 1).after lostWakeUp
    let s' := (posixServer (fun _ => false) 1).after (lostWakeUp ++ lastSteps)
    lastSteps.length ≤ 4 * s.queue.length + 2 * s.workers.length + 8 ∧
      (Halted (fun _ => false) 1 s' ↔ s'.stopping = .joined ∨ Hung s') ∧ (Hung s' → 0 < s.missed) :=
  stop_ends (System.reachable_after (by decide) (System.guarded_anyStep _ _)) (by decide)
    (by simp [lastSteps]) rfl

/-- The wake-up can be lost. -/
example : Hung ((posixServer (fun _ => false) 1).after (lostWakeUp ++ lastSteps)) where
  acceptor := rfl
  workers := by
    change ∀ w ∈ [Worker.waiting, .returned, .returned, .returned], w = .returned ∨ w = .waiting
    simp
  waits := ⟨.waiting, List.mem_cons_self, rfl⟩

end ExamVan.Server
