import ExamVan.Lib.Threads
import Mathlib.Algebra.Ring.Nat

/-!
# Consumers of a queue

Consumers take the items that one producer puts into a queue, and sleep on a condition variable while
it is empty. A stopper lowers a flag, closes the source, wakes every sleeper and waits for all of them.
The flag is not guarded by the lock of the queue: a consumer that has found nothing to do before the
flag is lowered may fall asleep after it could have been woken.
-/

namespace Consumers

inductive Phase (α : Type*)
  | ready
  /-- has found nothing to do, and still holds the lock -/
  | idle
  | asleep
  | working (x : α)
  | gone
  deriving DecidableEq

inductive Producer (α : Type*)
  | checking
  | accepting
  | holding (x : α)
  | notifying
  | gone
  deriving DecidableEq

inductive Stopper
  | away
  | lowered
  | closed
  | woken
  | returned
  deriving DecidableEq

structure State (α : Type*) where
  running : Bool := true
  queue : List α := []
  consumers : List (Phase α)
  producer : Producer α := .checking
  stopper : Stopper := .away
  /-- the items in the order they came in -/
  arrived : List α := []
  /-- the items in the order they were taken -/
  begun : List α := []
  finished : List α := []
  /-- how many consumers were about to sleep when all were woken -/
  missed : Nat := 0

inductive Action (α : Type*)
  | consumer (i : Nat)
  /-- a wake-up without a cause -/
  | wake (i : Nat)
  | producer
  | arrive (x : α)
  | fail
  | notify (target : Option Nat)
  | stopper

variable {α : Type*}

def Phase.isIdle : Phase α → Bool
  | .idle => true
  | _ => false

def Phase.isAsleep : Phase α → Bool
  | .asleep => true
  | _ => false

def Phase.isGone : Phase α → Bool
  | .gone => true
  | _ => false

def Phase.wakeUp : Phase α → Phase α
  | .asleep => .ready
  | c => c

/-- Some consumer holds the lock between two of its steps. -/
def State.locked (s : State α) : Bool := s.consumers.any Phase.isIdle

def State.setConsumer (s : State α) (i : Nat) (c : Phase α) : State α :=
  { s with consumers := s.consumers.set i c }

def State.isOpen (s : State α) : Bool := s.stopper = .away ∨ s.stopper = .lowered

/-- The next step of a consumer. -/
def consume (s : State α) (i : Nat) : Option (State α) :=
  match s.consumers[i]? with
  | some .ready =>
      if s.locked then none
      else
        match s.queue with
        | x :: rest => some { s.setConsumer i (.working x) with queue := rest, begun := s.begun ++ [x] }
        | [] => some (s.setConsumer i (if s.running then .idle else .gone))
  | some .idle => some (s.setConsumer i .asleep)
  | some (.working x) => some { s.setConsumer i .ready with finished := s.finished ++ [x] }
  | _ => none

/-- The next step of the producer that is up to itself. -/
def produce (s : State α) : Option (State α) :=
  match s.producer with
  | .checking => some { s with producer := if s.running then .accepting else .gone }
  | .holding x =>
      if s.locked then none else some { s with queue := s.queue ++ [x], producer := .notifying }
  | _ => none

/-- `notify_one` wakes a sleeper if there is one. -/
def notifyOne (s : State α) (target : Option Nat) : Option (State α) :=
  match s.producer, target with
  | .notifying, none =>
      if s.consumers.any Phase.isAsleep then none else some { s with producer := .checking }
  | .notifying, some i =>
      match s.consumers[i]? with
      | some .asleep => some { s.setConsumer i .ready with producer := .checking }
      | _ => none
  | _, _ => none

/-- The next step of the stopper. -/
def stop (s : State α) : Option (State α) :=
  match s.stopper with
  | .away => some { s with running := false, stopper := .lowered }
  | .lowered => some { s with stopper := .closed }
  | .closed =>
      some { s with
        consumers := s.consumers.map Phase.wakeUp
        stopper := .woken
        missed := s.consumers.countP Phase.isIdle }
  | .woken =>
      match s.producer with
      | .gone => if s.consumers.all Phase.isGone then some { s with stopper := .returned } else none
      | _ => none
  | .returned => none

/-- The consumers, the producer and the stopper, with nothing in the queue. -/
def system (α : Type*) (consumers : Nat) : System (State α) (Action α) where
  initial := { consumers := List.replicate consumers .ready }
  step? s
    | .consumer i => consume s i
    | .wake i =>
        match s.consumers[i]? with
        | some .asleep => some (s.setConsumer i .ready)
        | _ => none
    | .producer => produce s
    | .arrive x =>
        match s.producer with
        | .accepting =>
            if s.isOpen then some { s with producer := .holding x, arrived := s.arrived ++ [x] }
            else none
        | _ => none
    | .fail =>
        match s.producer with
        | .accepting => some { s with producer := if s.running then .checking else .gone }
        | _ => none
    | .notify target => notifyOne s target
    | .stopper => stop s

/-! ### What a step can do -/

/-- The steps, each with what allows it. -/
inductive Move (s : State α) : Action α → State α → Prop
  | take (i : Nat) (x : α) (rest : List α) (hi : s.consumers[i]? = some .ready)
      (hqueue : s.queue = x :: rest) :
      Move s (.consumer i) { s.setConsumer i (.working x) with queue := rest, begun := s.begun ++ [x] }
  | pause (i : Nat) (hi : s.consumers[i]? = some .ready) (hqueue : s.queue = [])
      (hrunning : s.running = true) : Move s (.consumer i) (s.setConsumer i .idle)
  | leave (i : Nat) (hi : s.consumers[i]? = some .ready) (hqueue : s.queue = [])
      (hrunning : s.running = false) : Move s (.consumer i) (s.setConsumer i .gone)
  | sleep (i : Nat) (hi : s.consumers[i]? = some .idle) : Move s (.consumer i) (s.setConsumer i .asleep)
  | finish (i : Nat) (x : α) (hi : s.consumers[i]? = some (.working x)) :
      Move s (.consumer i) { s.setConsumer i .ready with finished := s.finished ++ [x] }
  | wake (i : Nat) (hi : s.consumers[i]? = some .asleep) : Move s (.wake i) (s.setConsumer i .ready)
  | check (hproducer : s.producer = .checking) :
      Move s .producer { s with producer := if s.running then .accepting else .gone }
  | arrive (x : α) (hproducer : s.producer = .accepting) (hopen : s.isOpen = true) :
      Move s (.arrive x) { s with producer := .holding x, arrived := s.arrived ++ [x] }
  | fail (hproducer : s.producer = .accepting) :
      Move s .fail { s with producer := if s.running then .checking else .gone }
  | push (x : α) (hproducer : s.producer = .holding x) :
      Move s .producer { s with queue := s.queue ++ [x], producer := .notifying }
  | notifyNone (hproducer : s.producer = .notifying) : Move s (.notify none) { s with producer := .checking }
  | notify (i : Nat) (hproducer : s.producer = .notifying) (hi : s.consumers[i]? = some .asleep) :
      Move s (.notify (some i)) { s.setConsumer i .ready with producer := .checking }
  | lower (hstopper : s.stopper = .away) : Move s .stopper { s with running := false, stopper := .lowered }
  | close (hstopper : s.stopper = .lowered) : Move s .stopper { s with stopper := .closed }
  | wakeAll (hstopper : s.stopper = .closed) :
      Move s .stopper { s with
        consumers := s.consumers.map Phase.wakeUp
        stopper := .woken
        missed := s.consumers.countP Phase.isIdle }
  | return (hstopper : s.stopper = .woken) (hconsumers : ∀ c ∈ s.consumers, c = .gone)
      (hproducer : s.producer = .gone) : Move s .stopper { s with stopper := .returned }

variable {s s' : State α} {a : Action α} {n : Nat}

theorem eq_gone_of_isGone {c : Phase α} (h : c.isGone = true) : c = .gone := by
  cases c <;> first | rfl | cases h

theorem move_of_step? (h : (system α n).step? s a = some s') : Move s a s' := by
  cases a with
  | consumer i =>
      change consume s i = some s' at h
      unfold consume at h
      split at h
      next hi =>
        split at h
        · cases h
        split at h
        next x rest hqueue =>
          cases h
          exact .take i x rest hi hqueue
        next hqueue =>
          cases hrunning : s.running <;> rw [hrunning] at h <;> cases h
          · exact .leave i hi hqueue hrunning
          · exact .pause i hi hqueue hrunning
      next hi =>
        cases h
        exact .sleep i hi
      next x hi =>
        cases h
        exact .finish i x hi
      next => cases h
  | wake i =>
      simp only [system] at h
      split at h
      next hi =>
        cases h
        exact .wake i hi
      next => cases h
  | producer =>
      change produce s = some s' at h
      unfold produce at h
      split at h
      next hproducer =>
        cases h
        exact .check hproducer
      next x hproducer =>
        split at h
        · cases h
        cases h
        exact .push x hproducer
      next => cases h
  | arrive x =>
      simp only [system] at h
      split at h
      next hproducer =>
        split at h
        next hopen =>
          cases h
          exact .arrive x hproducer hopen
        next => cases h
      next => cases h
  | fail =>
      simp only [system] at h
      split at h
      next hproducer =>
        cases h
        exact .fail hproducer
      next => cases h
  | notify target =>
      change notifyOne s target = some s' at h
      unfold notifyOne at h
      split at h
      next hproducer =>
        split at h
        · cases h
        · cases h
          exact .notifyNone hproducer
      next i hproducer =>
        split at h
        next hi =>
          cases h
          exact .notify i hproducer hi
        next => cases h
      next => cases h
  | stopper =>
      change stop s = some s' at h
      unfold stop at h
      split at h
      next hstopper =>
        cases h
        exact .lower hstopper
      next hstopper =>
        cases h
        exact .close hstopper
      next hstopper =>
        cases h
        exact .wakeAll hstopper
      next hstopper =>
        split at h
        next hproducer =>
          split at h
          next hall =>
            cases h
            exact .return hstopper
              (fun c hc => eq_gone_of_isGone (List.all_eq_true.mp hall c hc)) hproducer
          next => cases h
        next => cases h
      next => cases h

/-! ### Every item is taken once, in its turn -/

def Phase.items : Phase α → List α
  | .working x => [x]
  | _ => []

def Producer.items : Producer α → List α
  | .holding x => [x]
  | _ => []

/-- Where the items are that have arrived. -/
structure Conserved (s : State α) : Prop where
  order : s.arrived = s.begun ++ (s.queue ++ s.producer.items)
  taken : s.begun.Perm (s.finished ++ s.consumers.flatMap Phase.items)

/-- A consumer moves with what it has. -/
theorem Conserved.setConsumer (hs : Conserved s) {i : Nat} {c : Phase α} (c' : Phase α)
    (hi : s.consumers[i]? = some c) (hitems : c'.items = c.items) : Conserved (s.setConsumer i c') := by
  obtain ⟨rest, hbefore, hafter⟩ := Threads.flatMap_perm_of_getElem? Phase.items hi
  have hsame : (s.consumers.flatMap Phase.items).Perm ((s.consumers.set i c').flatMap Phase.items) :=
    hbefore.trans (hitems ▸ (hafter c').symm)
  exact ⟨hs.order, hs.taken.trans (hsame.append_left s.finished)⟩

theorem flatMap_wakeUp (consumers : List (Phase α)) :
    (consumers.map Phase.wakeUp).flatMap Phase.items = consumers.flatMap Phase.items := by
  rw [List.flatMap_map]
  congr 1
  funext c
  cases c <;> rfl

theorem Conserved.move (hs : Conserved s) (h : Move s a s') : Conserved s' := by
  have horder := hs.order
  have htaken := hs.taken
  cases h with
  | take i x rest hi hqueue =>
      obtain ⟨others, hbefore, hafter⟩ := Threads.flatMap_perm_of_getElem? Phase.items hi
      constructor
      · change s.arrived = s.begun ++ [x] ++ (rest ++ s.producer.items)
        rw [horder, hqueue]
        simp
      · change (s.begun ++ [x]).Perm (s.finished ++ (s.consumers.set i (.working x)).flatMap Phase.items)
        have hmoved : ((s.consumers.set i (.working x)).flatMap Phase.items).Perm
            (s.consumers.flatMap Phase.items ++ [x]) :=
          (hafter _).trans ((hbefore.append_right [x]).trans List.perm_append_comm).symm
        refine (htaken.append_right [x]).trans ?_
        rw [List.append_assoc]
        exact (hmoved.symm).append_left s.finished
  | pause i hi => exact hs.setConsumer .idle hi rfl
  | leave i hi => exact hs.setConsumer .gone hi rfl
  | sleep i hi => exact hs.setConsumer .asleep hi rfl
  | finish i x hi =>
      obtain ⟨others, hbefore, hafter⟩ := Threads.flatMap_perm_of_getElem? Phase.items hi
      refine ⟨horder, htaken.trans ?_⟩
      change (s.finished ++ s.consumers.flatMap Phase.items).Perm
        (s.finished ++ [x] ++ (s.consumers.set i .ready).flatMap Phase.items)
      rw [List.append_assoc]
      exact (hbefore.trans ((hafter .ready).symm.append_left [x])).append_left _
  | wake i hi => exact hs.setConsumer .ready hi rfl
  | check hproducer =>
      refine ⟨horder.trans ?_, htaken⟩
      rw [hproducer]
      cases s.running <;> rfl
  | arrive x hproducer =>
      refine ⟨?_, htaken⟩
      change s.arrived ++ [x] = s.begun ++ (s.queue ++ [x])
      rw [horder, hproducer]
      simp [Producer.items]
  | fail hproducer =>
      refine ⟨horder.trans ?_, htaken⟩
      rw [hproducer]
      cases s.running <;> rfl
  | push x hproducer =>
      refine ⟨horder.trans ?_, htaken⟩
      rw [hproducer]
      simp [Producer.items]
  | notifyNone hproducer => exact ⟨horder.trans (by rw [hproducer]; rfl), htaken⟩
  | notify i hproducer hi =>
      exact ⟨horder.trans (by rw [hproducer]; rfl), (hs.setConsumer .ready hi rfl).taken⟩
  | lower => exact ⟨horder, htaken⟩
  | close => exact ⟨horder, htaken⟩
  | wakeAll => exact ⟨horder, by rw [flatMap_wakeUp]; exact htaken⟩
  | «return» => exact ⟨horder, htaken⟩

theorem conserved_invariant (n : Nat) : (system α n).Invariant System.anyStep Conserved where
  initial := by
    refine ⟨rfl, ?_⟩
    have hnone : (List.replicate n (Phase.ready : Phase α)).flatMap Phase.items = [] := by
      simp [List.flatMap_eq_nil_iff, Phase.items]
    change List.Perm [] ([] ++ (List.replicate n .ready).flatMap Phase.items)
    rw [hnone]
    exact List.Perm.refl _
  step := fun hs _ hstep => hs.move (move_of_step? hstep)

/-! ### After the last consumer -/

/-- How many items the producer may still bring once the flag is lowered. -/
def State.due (s : State α) : Nat :=
  match s.producer with
  | .accepting => if s.isOpen then 1 else 0
  | .holding _ => 1
  | _ => 0

def AllGone (s : State α) : Prop := ∀ c ∈ s.consumers, c = .gone

/-- What holds of the flag, and of the queue after the last consumer. -/
structure Ending (s : State α) : Prop where
  lowered : s.stopper ≠ .away → s.running = false
  leftOver : s.consumers ≠ [] → AllGone s → s.running = false ∧ s.queue.length + s.due ≤ 1
  returned : s.stopper = .returned → AllGone s ∧ s.producer = .gone

theorem not_allGone_set {i : Nat} {c c' : Phase α} (hi : s.consumers[i]? = some c) (hc' : c' ≠ .gone) :
    ¬ ∀ d ∈ s.consumers.set i c', d = .gone := fun hall =>
  hc' (hall c' (Threads.mem_set_self hi))

theorem due_le_one (s : State α) : s.due ≤ 1 := by
  unfold State.due
  split
  · split <;> omega
  · omega
  · omega

/-- Nothing more is due from a source that is closed. -/
theorem leftOver_of_closed (hqueue : s'.queue = s.queue) (hproducer : s'.producer = s.producer)
    (hclosed : s'.isOpen = false) (hleft : s.queue.length + s.due ≤ 1) :
    s'.queue.length + s'.due ≤ 1 := by
  have hdue : s'.due ≤ s.due := by
    unfold State.due
    rw [hproducer, hclosed]
    cases s.producer <;> simp
  rw [hqueue]
  omega

/-- A consumer that stays says nothing about the end. -/
theorem Ending.setConsumer (hs : Ending s) {i : Nat} {c c' : Phase α} (hi : s.consumers[i]? = some c)
    (hc : c ≠ .gone) (hc' : c' ≠ .gone) : Ending (s.setConsumer i c') where
  lowered := hs.lowered
  leftOver _ hall := absurd hall (not_allGone_set hi hc')
  returned hreturned := absurd ((hs.returned hreturned).1 c (List.mem_of_getElem? hi)) hc

/-- A step of the producer brings no more than was due. -/
theorem Ending.setProducer (hs : Ending s) (hproducer : s.producer ≠ .gone) {queue arrived : List α}
    {p : Producer α} (hle : s.running = false →
      queue.length + { s with queue, arrived, producer := p : State α }.due ≤ s.queue.length + s.due) :
    Ending { s with queue, arrived, producer := p } where
  lowered := hs.lowered
  leftOver hne hall := by
    obtain ⟨hrunning, hleft⟩ := hs.leftOver hne hall
    exact ⟨hrunning, Nat.le_trans (hle hrunning) hleft⟩
  returned heq := absurd (hs.returned heq).2 hproducer

theorem Ending.move (hs : Ending s) (h : Move s a s') : Ending s' := by
  have hreturned : ∀ {i} {c : Phase α}, s.consumers[i]? = some c → c ≠ .gone → s.stopper ≠ .returned :=
    fun hi hc hreturned => hc ((hs.returned hreturned).1 _ (List.mem_of_getElem? hi))
  cases h with
  | take i x rest hi =>
      exact ⟨hs.lowered, fun _ hall => absurd hall (not_allGone_set hi (by simp)),
        fun heq => absurd heq (hreturned hi (by simp))⟩
  | pause i hi => exact hs.setConsumer hi (by simp) (by simp)
  | leave i hi hqueue hrunning =>
      refine ⟨hs.lowered, fun _ _ => ⟨hrunning, ?_⟩, fun heq => absurd heq (hreturned hi (by simp))⟩
      change s.queue.length + s.due ≤ 1
      rw [hqueue, List.length_nil, Nat.zero_add]
      exact due_le_one s
  | sleep i hi => exact hs.setConsumer hi (by simp) (by simp)
  | finish i x hi =>
      exact ⟨hs.lowered, fun _ hall => absurd hall (not_allGone_set hi (by simp)),
        fun heq => absurd heq (hreturned hi (by simp))⟩
  | wake i hi => exact hs.setConsumer hi (by simp) (by simp)
  | check hproducer =>
      refine hs.setProducer (by simp [hproducer]) fun hrunning => ?_
      simp [State.due, hrunning]
  | arrive x hproducer hopen =>
      refine hs.setProducer (by simp [hproducer]) fun _ => ?_
      simp [State.due, hproducer, hopen]
  | fail hproducer =>
      refine hs.setProducer (by simp [hproducer]) fun hrunning => ?_
      simp [State.due, hrunning]
  | push x hproducer =>
      refine hs.setProducer (by simp [hproducer]) fun _ => ?_
      simp [State.due, hproducer]
  | notifyNone hproducer =>
      refine hs.setProducer (by simp [hproducer]) fun _ => ?_
      simp [State.due]
  | notify i hproducer hi =>
      exact ⟨hs.lowered, fun _ hall => absurd hall (not_allGone_set hi (by simp)),
        fun heq => absurd heq (hreturned hi (by simp))⟩
  | lower hstopper =>
      refine ⟨fun _ => rfl, fun hne hall => ⟨rfl, ?_⟩, fun heq => ?_⟩
      · have hleft := (hs.leftOver hne hall).2
        simp only [State.due, State.isOpen, hstopper] at hleft
        simpa [State.due, State.isOpen] using hleft
      · cases heq
  | close hstopper =>
      refine ⟨fun _ => hs.lowered (by simp [hstopper]), fun hne hall => ?_, fun heq => by cases heq⟩
      obtain ⟨hrunning, hleft⟩ := hs.leftOver hne hall
      exact ⟨hrunning, leftOver_of_closed (s := s) rfl rfl rfl hleft⟩
  | wakeAll hstopper =>
      have hgone : ∀ c : Phase α, c.wakeUp = .gone → c = .gone := by
        intro c hc
        cases c <;> first | rfl | cases hc
      refine ⟨fun _ => hs.lowered (by simp [hstopper]), fun hne hall => ?_, fun heq => by cases heq⟩
      have hall' : AllGone s := fun c hc => hgone c (hall _ (List.mem_map_of_mem hc))
      obtain ⟨hrunning, hleft⟩ := hs.leftOver (by simpa using hne) hall'
      exact ⟨hrunning, leftOver_of_closed (s := s) rfl rfl rfl hleft⟩
  | «return» hstopper hconsumers hproducer =>
      refine ⟨fun _ => hs.lowered (by simp [hstopper]), fun hne hall => ?_, fun _ => ⟨hconsumers, hproducer⟩⟩
      obtain ⟨hrunning, hleft⟩ := hs.leftOver hne hall
      exact ⟨hrunning, leftOver_of_closed (s := s) rfl rfl rfl hleft⟩

theorem ending_invariant (n : Nat) : (system α n).Invariant System.anyStep Ending where
  initial := by
    refine ⟨fun hne => absurd rfl hne, fun hne hall => ?_, fun heq => ?_⟩
    · obtain ⟨c, hc⟩ := List.exists_mem_of_ne_nil _ hne
      have hready : c = .ready := (List.mem_replicate.mp hc).2
      have hgone := hall c hc
      rw [hready] at hgone
      cases hgone
    · cases heq
  step := fun hs _ hstep => hs.move (move_of_step? hstep)

/-! ### Whether the stopper returns -/

def Phase.rests (c : Phase α) : Bool := c.isIdle || c.isAsleep

/-- After the wake-up no consumer sleeps, or is about to, but those that have missed it. -/
def Missed (s : State α) : Prop :=
  s.stopper = .woken ∨ s.stopper = .returned →
    s.consumers.countP Phase.rests ≤ s.missed

theorem countP_set_le {i : Nat} {c c' : Phase α} (p : Phase α → Bool) (hi : s.consumers[i]? = some c)
    (himp : p c' = true → p c = true) : (s.consumers.set i c').countP p ≤ s.consumers.countP p := by
  have hcount := Threads.countP_set_add c' p hi
  cases hc' : p c' with
  | false =>
      rw [hc', Bool.toNat_false] at hcount
      omega
  | true =>
      rw [hc', himp hc', Bool.toNat_true] at hcount
      omega

theorem countP_wakeUp (consumers : List (Phase α)) :
    (consumers.map Phase.wakeUp).countP Phase.rests = consumers.countP Phase.isIdle := by
  have hwoken : Phase.rests ∘ Phase.wakeUp = (Phase.isIdle : Phase α → Bool) := by
    funext c
    cases c <;> rfl
  rw [List.countP_map, hwoken]

theorem Missed.move (hend : Ending s) (hs : Missed s) (h : Move s a s') : Missed s' := by
  have hset : ∀ {i} {c c' : Phase α}, s.consumers[i]? = some c →
      (c'.rests = true → c.rests = true) → s.stopper = .woken ∨ s.stopper = .returned →
        (s.consumers.set i c').countP Phase.rests ≤ s.missed :=
    fun hi himp hstopper => Nat.le_trans (countP_set_le _ hi himp) (hs hstopper)
  cases h with
  | take i x rest hi => exact hset hi (by simp [Phase.rests, Phase.isIdle, Phase.isAsleep])
  | pause i hi hqueue hrunning =>
      intro hstopper
      have hlowered := hend.lowered (fun haway : s.stopper = .away => by
        rcases hstopper with h | h <;> cases haway.symm.trans h)
      rw [hrunning] at hlowered
      cases hlowered
  | leave i hi => exact hset hi (by simp [Phase.rests, Phase.isIdle, Phase.isAsleep])
  | sleep i hi => exact hset hi (by simp [Phase.rests, Phase.isIdle, Phase.isAsleep])
  | finish i x hi => exact hset hi (by simp [Phase.rests, Phase.isIdle, Phase.isAsleep])
  | wake i hi => exact hset hi (by simp [Phase.rests, Phase.isIdle, Phase.isAsleep])
  | check => exact hs
  | arrive => exact hs
  | fail => exact hs
  | push => exact hs
  | notifyNone => exact hs
  | notify i hproducer hi => exact hset hi (by simp [Phase.rests, Phase.isIdle, Phase.isAsleep])
  | lower => rintro (h | h) <;> cases h
  | close => rintro (h | h) <;> cases h
  | wakeAll =>
      intro _
      exact Nat.le_of_eq (countP_wakeUp s.consumers)
  | «return» hstopper => exact fun _ => hs (.inl hstopper)

theorem missed_invariant (n : Nat) :
    (system α n).Invariant System.anyStep fun s => Ending s ∧ Missed s :=
  (ending_invariant n).using (fun hstopper => by rcases hstopper with h | h <;> cases h)
    fun hend hs _ hstep => hs.move hend (move_of_step? hstep)

/-- No thread can go on, unless one wakes up without a cause. -/
def Stuck (n : Nat) (s : State α) : Prop :=
  ∀ a, (∀ i, a ≠ .wake i) → (system α n).step? s a = none

/-- All have left but some that sleep. -/
structure Asleep (s : State α) : Prop where
  producer : s.producer = .gone
  consumers : ∀ c ∈ s.consumers, c = .gone ∨ c = .asleep
  sleeper : ∃ c ∈ s.consumers, c = .asleep

theorem exists_getElem?_of_any {p : Phase α → Bool} (h : s.consumers.any p = true) :
    ∃ (i : Nat) (c : Phase α), s.consumers[i]? = some c ∧ p c = true := by
  obtain ⟨c, hc, hp⟩ := List.any_eq_true.mp h
  obtain ⟨i, hi⟩ := List.mem_iff_getElem?.mp hc
  exact ⟨i, c, hi, hp⟩

/-- While a consumer holds the lock, it can go on. -/
theorem not_locked_of_stuck (h : Stuck n s) : s.locked = false := by
  rw [Bool.eq_false_iff]
  intro hlocked
  obtain ⟨i, c, hi, hidle⟩ := exists_getElem?_of_any hlocked
  have hstep := h (.consumer i) (by simp)
  cases c <;> cases hidle
  change consume s i = none at hstep
  simp [consume, hi] at hstep

theorem gone_or_asleep_of_stuck (h : Stuck n s) {c : Phase α} (hc : c ∈ s.consumers) :
    c = .gone ∨ c = .asleep := by
  obtain ⟨i, hi⟩ := List.mem_iff_getElem?.mp hc
  have hstep : consume s i = none := h (.consumer i) (by simp)
  cases c with
  | ready =>
      cases hqueue : s.queue <;> simp [consume, hi, not_locked_of_stuck h, hqueue] at hstep
  | idle => simp [consume, hi] at hstep
  | asleep => exact .inr rfl
  | working x => simp [consume, hi] at hstep
  | gone => exact .inl rfl

theorem producer_gone_of_stuck (h : Stuck n s) : s.producer = .gone := by
  have hproduce : produce s = none := h .producer (by simp)
  cases hproducer : s.producer with
  | checking => simp [produce, hproducer] at hproduce
  | accepting =>
      have hfail := h .fail (by simp)
      simp [system, hproducer] at hfail
  | holding x => simp [produce, hproducer, not_locked_of_stuck h] at hproduce
  | notifying =>
      cases hany : s.consumers.any Phase.isAsleep with
      | false =>
          have hnotify : notifyOne s none = none := h (.notify none) (by simp)
          simp [notifyOne, hproducer, hany] at hnotify
      | true =>
          obtain ⟨i, c, hi, hasleep⟩ := exists_getElem?_of_any hany
          have hnotify : notifyOne s (some i) = none := h (.notify (some i)) (by simp)
          cases c <;> cases hasleep
          simp [notifyOne, hproducer, hi] at hnotify
  | gone => rfl

/-- Once all have been woken, nothing can go on exactly if the stopper has returned, or waits for a
consumer that sleeps. -/
theorem stuck_iff (hend : Ending s) (hwoken : s.stopper = .woken ∨ s.stopper = .returned) :
    Stuck n s ↔ s.stopper = .returned ∨ Asleep s := by
  constructor
  · intro h
    have hproducer := producer_gone_of_stuck h
    rcases hwoken with hwoken | hreturned
    · refine .inr ⟨hproducer, fun c hc => gone_or_asleep_of_stuck h hc, ?_⟩
      by_contra hnone
      have hall : s.consumers.all Phase.isGone = true := by
        rw [List.all_eq_true]
        intro c hc
        rcases gone_or_asleep_of_stuck h hc with rfl | rfl
        · rfl
        · exact absurd ⟨_, hc, rfl⟩ hnone
      have hstop : stop s = none := h .stopper (by simp)
      simp only [stop, hwoken, hproducer, hall, if_true] at hstop
      cases hstop
    · exact .inl hreturned
  · intro h a ha
    have hproducer : s.producer = .gone := h.elim (fun hr => (hend.returned hr).2) Asleep.producer
    have hconsumers : ∀ c ∈ s.consumers, c = .gone ∨ c = .asleep :=
      h.elim (fun hr c hc => .inl ((hend.returned hr).1 c hc)) Asleep.consumers
    cases a with
    | consumer i =>
        change consume s i = none
        unfold consume
        cases hi : s.consumers[i]? with
        | none => rfl
        | some c => rcases hconsumers c (List.mem_of_getElem? hi) with rfl | rfl <;> rfl
    | wake i => exact absurd rfl (ha i)
    | producer => simp [system, produce, hproducer]
    | arrive x => simp [system, hproducer]
    | fail => simp [system, hproducer]
    | notify target => simp [system, notifyOne, hproducer]
    | stopper =>
        change stop s = none
        unfold stop
        rcases h with hr | hasleep
        · rw [hr]
        · rcases hwoken with hwoken | hreturned
          · have hall : s.consumers.all Phase.isGone = false := by
              obtain ⟨c, hc, rfl⟩ := hasleep.sleeper
              exact List.all_eq_false.mpr ⟨_, hc, by simp [Phase.isGone]⟩
            simp [hwoken, hproducer, hall]
          · rw [hreturned]

/-! ### How long it takes -/

def Phase.rank : Phase α → Nat
  | .working _ | .idle => 2
  | .ready | .asleep => 1
  | .gone => 0

def Producer.rank : Producer α → Nat
  | .holding _ => 7
  | .notifying => 2
  | .checking | .accepting => 1
  | .gone => 0

def Stopper.rank : Stopper → Nat
  | .returned => 0
  | _ => 1

/-- A bound on the steps that are left after the wake-up. -/
def State.rank (s : State α) : Nat :=
  4 * s.queue.length + (s.consumers.map Phase.rank).sum + s.producer.rank + s.stopper.rank

theorem sum_map_rank_le (consumers : List (Phase α)) :
    (consumers.map Phase.rank).sum ≤ 2 * consumers.length := by
  induction consumers with
  | nil => simp
  | cons c consumers ih =>
      have hc : c.rank ≤ 2 := by cases c <;> simp [Phase.rank]
      simp only [List.map_cons, List.sum_cons, List.length_cons]
      omega

theorem rank_le (s : State α) :
    s.rank ≤ 4 * s.queue.length + 2 * s.consumers.length + 8 := by
  have hsum := sum_map_rank_le s.consumers
  have hproducer : s.producer.rank ≤ 7 := by
    cases s.producer <;> simp [Producer.rank]
  have hstopper : s.stopper.rank ≤ 1 := by
    cases s.stopper <;> simp [Stopper.rank]
  unfold State.rank
  omega

theorem sum_map_set {i : Nat} {c : Phase α} {consumers : List (Phase α)} (c' : Phase α)
    (hi : consumers[i]? = some c) :
    ((consumers.set i c').map Phase.rank).sum + c.rank = (consumers.map Phase.rank).sum + c'.rank := by
  induction consumers generalizing i with
  | nil => cases hi
  | cons d consumers ih =>
      cases i with
      | zero =>
          cases hi
          simp only [List.set_cons_zero, List.map_cons, List.sum_cons]
          omega
      | succ i =>
          have hrest := ih hi
          simp only [List.set_cons_succ, List.map_cons, List.sum_cons]
          omega

theorem woken_of_move (h : Move s a s') (hwoken : s.stopper = .woken ∨ s.stopper = .returned) :
    s'.stopper = .woken ∨ s'.stopper = .returned := by
  cases h with
  | lower haway => rcases hwoken with h | h <;> cases haway.symm.trans h
  | close hlowered => rcases hwoken with h | h <;> cases hlowered.symm.trans h
  | wakeAll => exact .inl rfl
  | «return» => exact .inr rfl
  | _ => exact hwoken

theorem rank_setConsumer {i : Nat} {c : Phase α} (c' : Phase α) (hi : s.consumers[i]? = some c) :
    (s.setConsumer i c').rank + c.rank = s.rank + c'.rank := by
  have hsum := sum_map_set c' hi
  simp only [State.rank, State.setConsumer]
  omega

/-- After the wake-up every step that has a cause brings the end closer. -/
theorem rank_lt (hend : Ending s) (hwoken : s.stopper = .woken ∨ s.stopper = .returned)
    (hcause : ∀ i, a ≠ .wake i) (h : Move s a s') : s'.rank < s.rank := by
  have hrunning : s.running = false := hend.lowered fun haway => by
    rcases hwoken with h | h <;> cases haway.symm.trans h
  have hclosed : s.isOpen = false := by
    rcases hwoken with h | h <;> simp [State.isOpen, h]
  cases h with
  | take i x rest hi hqueue =>
      have hsum := sum_map_set (.working x) hi
      simp only [State.rank, State.setConsumer, hqueue, List.length_cons]
      simp only [Phase.rank] at hsum
      omega
  | pause i hi hqueue hup => cases hup.symm.trans hrunning
  | leave i hi =>
      have hrank := rank_setConsumer .gone hi
      simp only [Phase.rank] at hrank
      omega
  | sleep i hi =>
      have hrank := rank_setConsumer .asleep hi
      simp only [Phase.rank] at hrank
      omega
  | finish i x hi =>
      have hrank := rank_setConsumer .ready hi
      simp only [Phase.rank] at hrank
      change (s.setConsumer i .ready).rank < s.rank
      omega
  | wake i => exact absurd rfl (hcause i)
  | check hproducer => simp [State.rank, hproducer, hrunning, Producer.rank]
  | arrive x hproducer hopen => cases hopen.symm.trans hclosed
  | fail hproducer => simp [State.rank, hproducer, hrunning, Producer.rank]
  | push x hproducer =>
      simp only [State.rank, hproducer, Producer.rank, List.length_append, List.length_singleton]
      omega
  | notifyNone hproducer => simp [State.rank, hproducer, Producer.rank]
  | notify i hproducer hi =>
      have hsum := sum_map_set .ready hi
      simp only [Phase.rank] at hsum
      simp only [State.rank, State.setConsumer, hproducer, Producer.rank]
      omega
  | lower haway => rcases hwoken with h | h <;> cases haway.symm.trans h
  | close hlowered => rcases hwoken with h | h <;> cases hlowered.symm.trans h
  | wakeAll hc => rcases hwoken with h | h <;> cases hc.symm.trans h
  | «return» hstopper => simp [State.rank, hstopper, Stopper.rank]

/-! ### What a consumer pool keeps -/

theorem length_of_move (h : Move s a s') : s'.consumers.length = s.consumers.length := by
  cases h with
  | wakeAll => exact List.length_map _
  | take i => exact List.length_set
  | pause i => exact List.length_set
  | leave i => exact List.length_set
  | sleep i => exact List.length_set
  | finish i => exact List.length_set
  | wake i => exact List.length_set
  | notify i => exact List.length_set
  | _ => rfl

theorem length_invariant (n : Nat) :
    (system α n).Invariant System.anyStep fun s => s.consumers.length = n where
  initial := List.length_replicate
  step := fun hs _ hstep => (length_of_move (move_of_step? hstep)).trans hs

/-- When the stopper has returned, every item that was taken has been finished, and at most one that
came in while it was stopping is left in the queue. -/
theorem drained (hpos : 0 < n) (hreach : (system α n).Reachable System.anyStep s)
    (hreturned : s.stopper = .returned) :
    s.arrived = s.begun ++ s.queue ∧ s.begun.Perm s.finished ∧ s.queue.length ≤ 1 := by
  have hconserved := hreach.holds (conserved_invariant n)
  have hend := hreach.holds (ending_invariant n)
  have hlength := hreach.holds (length_invariant n)
  obtain ⟨hgone, hproducer⟩ := hend.returned hreturned
  have hitems : s.consumers.flatMap Phase.items = [] := by
    rw [List.flatMap_eq_nil_iff]
    intro c hc
    rw [hgone c hc]
    rfl
  have hne : s.consumers ≠ [] := by
    rintro hnil
    rw [hnil, List.length_nil] at hlength
    omega
  have horder := hconserved.order
  have htaken := hconserved.taken
  have hleft := (hend.leftOver hne hgone).2
  have hnone : (Producer.gone : Producer α).items = [] := rfl
  rw [hproducer, hnone, List.append_nil] at horder
  rw [hitems, List.append_nil] at htaken
  exact ⟨horder, htaken, by omega⟩

theorem missed_eq_of_move (hwoken : s.stopper = .woken ∨ s.stopper = .returned) (h : Move s a s') :
    s'.missed = s.missed := by
  cases h with
  | wakeAll hclosed => rcases hwoken with h | h <;> cases hclosed.symm.trans h
  | _ => rfl

/-- A run after the wake-up that has no causeless wake-ups comes to an end, where the stopper has
returned, or all have left but consumers that sleep because they have missed the wake-up. -/
theorem run_ends (hreach : (system α n).Reachable System.anyStep s)
    (hwoken : s.stopper = .woken ∨ s.stopper = .returned) {actions : List (Action α)}
    (hcause : ∀ i, .wake i ∉ actions) (hrun : (system α n).run? s actions = some s') :
    actions.length + s'.rank ≤ s.rank ∧ (Stuck n s' ↔ s'.stopper = .returned ∨ Asleep s') ∧
      (Asleep s' → 0 < s.missed) := by
  induction actions generalizing s with
  | nil =>
      cases hrun
      obtain ⟨hend, hmissed⟩ := hreach.holds (missed_invariant n)
      refine ⟨by simp, stuck_iff hend hwoken, fun hasleep => ?_⟩
      obtain ⟨c, hc, rfl⟩ := hasleep.sleeper
      exact Nat.lt_of_lt_of_le (List.countP_pos_iff.mpr ⟨_, hc, rfl⟩) (hmissed hwoken)
  | cons a rest ih =>
      obtain ⟨mid, hstep, hrest⟩ := Option.bind_eq_some_iff.mp hrun
      have hmove := move_of_step? hstep
      have ha : ∀ i, a ≠ .wake i := fun i heq => hcause i (heq ▸ List.mem_cons_self)
      have hlt := rank_lt (hreach.holds (ending_invariant n)) hwoken ha hmove
      obtain ⟨hbound, hstuck, hsleeps⟩ := ih (.step hreach trivial hstep) (woken_of_move hmove hwoken)
        (fun i hmem => hcause i (List.mem_cons_of_mem a hmem)) hrest
      rw [missed_eq_of_move hwoken hmove] at hsleeps
      refine ⟨?_, hstuck, hsleeps⟩
      rw [List.length_cons]
      omega

end Consumers
