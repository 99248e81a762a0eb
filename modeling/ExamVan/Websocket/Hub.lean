import ExamVan.Lib.Protocol
import ExamVan.Websocket.Flush
import ExamVan.Websocket.Rooms
import Mathlib.Data.Finset.Sort

/-!
# The hub

Two kinds of locks: `mu_` for the rooms, and one of each client for its queue. What a thread does
under one lock is one step, but for the end of a broadcast, which holds `mu_` while it closes one
client after the other. Beside what the hub reads, the model keeps which clients have been added and
what each has ever received, with the number of the broadcast that it came from.
-/

namespace ExamVan.Websocket

open ByteString

/-- Clients in the order that they were made in. -/
abbrev ClientId := Nat

def maxQueue : Nat := 256

/-- A message that a client has received, and the broadcast that it came from. -/
structure Receipt where
  serial : Option Nat
  msg : Queued
  deriving DecidableEq

structure HubWorld where
  created : Nat := 0
  roomOf : ClientId → Room := fun _ => []
  rooms : Rooms ClientId := Rooms.empty
  closed : ClientId → Bool := fun _ => false
  queue : ClientId → List Queued := fun _ => []
  /-- the room at whose clients a thread works that holds `mu_` for more than one step -/
  cleaning : Option Room := none
  /-- the clients that have been added -/
  added : ClientId → Bool := fun _ => false
  received : ClientId → List Receipt := fun _ => []
  /-- how many broadcasts have taken a snapshot -/
  broadcasts : Nat := 0

/-- `Client::close` -/
def HubWorld.shut (w : HubWorld) (c : ClientId) : HubWorld :=
  if w.closed c then w
  else
    { w with
      closed := Function.update w.closed c true
      queue := Function.update w.queue c [] }

inductive HubOp
  /-- `make_shared<Client>` and its room -/
  | create (room : Room)
  | addClient (c : ClientId)
  | removeClient (c : ClientId)
  /-- the first region of a broadcast; `order` is the order that the set is read in -/
  | snapshot (room : Room) (order : List ClientId)
  | trySend (c : ClientId) (m : Queued) (serial : Option Nat)
  /-- the second region: `mu_` is taken, and kept if the room is found -/
  | enterCleanup (room : Room)
  | eraseClose (room : Room) (c : ClientId)
  | leaveCleanup (room : Room)
  | close (c : ClientId)
  /-- one turn of `flush_queue` -/
  | pop (c : ClientId)
  deriving DecidableEq

abbrev HubAns : HubOp → Type
  | .create _ => ClientId
  | .snapshot _ _ => Option (Nat × List ClientId)
  | .trySend _ _ _ | .enterCleanup _ => Bool
  | .pop _ => Option Queued
  | .addClient _ | .removeClient _ | .eraseClose _ _ | .leaveCleanup _ | .close _ => Unit

abbrev HubProg := Prog HubOp HubAns

abbrev HubOp.ask (o : HubOp) : HubProg (HubAns o) := Prog.op o

/-- A step that needs `mu_` waits for it. -/
def HubOp.Ready : HubOp → HubWorld → Prop
  | .addClient _, w | .removeClient _, w | .snapshot _ _, w | .enterCleanup _, w => w.cleaning = none
  | _, _ => True

instance HubOp.decidableReady (o : HubOp) (w : HubWorld) : Decidable (o.Ready w) :=
  match o with
  | .addClient _ | .removeClient _ | .snapshot _ _ | .enterCleanup _ =>
      inferInstanceAs (Decidable (w.cleaning = none))
  | .create _ | .trySend _ _ _ | .eraseClose _ _ | .leaveCleanup _ | .close _ | .pop _ =>
      inferInstanceAs (Decidable True)

def HubOp.perform : (o : HubOp) → HubWorld → HubAns o × HubWorld
  | .create room, w =>
      (w.created, { w with
        created := w.created + 1
        roomOf := Function.update w.roomOf w.created room })
  | .addClient c, w =>
      ((), { w with
        rooms := w.rooms.insert (w.roomOf c) c
        added := Function.update w.added c true })
  | .removeClient c, w =>
      if w.rooms (w.roomOf c) = none then ((), w)
      else
        ((), { w.shut c with
          rooms := (w.rooms.erase (w.roomOf c) c).prune (w.roomOf c) })
  | .snapshot room order, w =>
      match w.rooms room with
      | none => (none, w)
      | some members =>
          let listed := members.sort (· ≤ ·)
          (some (w.broadcasts, if order.Perm listed then order else listed),
            { w with broadcasts := w.broadcasts + 1 })
  | .trySend c m serial, w =>
      if w.closed c then (false, w)
      else if maxQueue ≤ (w.queue c).length then (false, w)
      else
        (true, { w with
          queue := Function.update w.queue c (w.queue c ++ [m])
          received := Function.update w.received c (w.received c ++ [⟨serial, m⟩]) })
  | .enterCleanup room, w =>
      if w.rooms room = none then (false, w) else (true, { w with cleaning := some room })
  | .eraseClose room c, w => ((), { w.shut c with rooms := w.rooms.erase room c })
  | .leaveCleanup room, w =>
      ((), { w with
        rooms := w.rooms.prune room
        cleaning := none })
  | .close c, w => ((), w.shut c)
  | .pop c, w => ((w.queue c).head?, { w with queue := Function.update w.queue c (w.queue c).tail })

/-! ### The functions -/

/-- `try_send` for every client of the snapshot: those that it failed for. -/
def sendEach (serial : Nat) (msg : Bytes) : List ClientId → HubProg (List ClientId)
  | [] => pure []
  | c :: rest => do
      let ok : Bool ← HubOp.ask (.trySend c (msg, false) (some serial))
      let failed ← sendEach serial msg rest
      return if ok then failed else c :: failed

def eraseEach (room : Room) : List ClientId → HubProg Unit
  | [] => pure ()
  | c :: rest => do
      let _ : Unit ← HubOp.ask (.eraseClose room c)
      eraseEach room rest

/-- `broadcast_to_room`, with the message as `marshal_socketio` has built it. -/
def broadcastToRoom (room : Room) (msg : Bytes) (order : List ClientId) : HubProg Unit := do
  let snapshot : Option (Nat × List ClientId) ← HubOp.ask (.snapshot room order)
  match snapshot with
  | none => return ()
  | some (serial, clients) => do
      let failed ← sendEach serial msg clients
      if failed = [] then return ()
      let found : Bool ← HubOp.ask (.enterCleanup room)
      if !found then return ()
      eraseEach room failed
      HubOp.ask (.leaveCleanup room)

/-- What a connection does to the rooms. Its client is made for it, so it is added once, before it is
removed. -/
def serveClient (room : Room) : HubProg Unit := do
  let c : ClientId ← HubOp.ask (.create room)
  let _ : Unit ← HubOp.ask (.addClient c)
  HubOp.ask (.removeClient c)

inductive HubCall
  | serveClient (room : Room)
  | broadcastToRoom (room : Room) (msg : Bytes) (order : List ClientId)
  /-- an answer to the client itself -/
  | trySend (c : ClientId) (m : Queued)
  | pop (c : ClientId)
  | close (c : ClientId)

def HubCall.program : HubCall → HubProg Unit
  | .serveClient room => Websocket.serveClient room
  | .broadcastToRoom room msg order => Websocket.broadcastToRoom room msg order
  | .trySend c m => do
      let _ : Bool ← HubOp.ask (.trySend c m none)
      return ()
  | .pop c => do
      let _ : Option Queued ← HubOp.ask (.pop c)
      return ()
  | .close c => HubOp.ask (.close c)

abbrev HubJob := Job HubCall HubOp HubAns Unit

abbrev HubState := Threads HubJob HubWorld

/-- Any number of threads; a run keeps to the locks if all its steps are `Ready`. -/
def hub : System HubState (Threads.Action HubCall) :=
  Job.system HubCall.program HubOp.perform {}

/-- The steps that the locks let through. -/
abbrev Locked : HubState → Threads.Action HubCall → Prop := Job.Performs HubOp.Ready

/-! ### One step -/

variable {w : HubWorld} {c d : ClientId} {room : Room} {o : HubOp}

@[simp]
theorem rooms_shut : (w.shut c).rooms = w.rooms := by
  unfold HubWorld.shut
  split <;> rfl

@[simp]
theorem roomOf_shut : (w.shut c).roomOf = w.roomOf := by
  unfold HubWorld.shut
  split <;> rfl

@[simp]
theorem created_shut : (w.shut c).created = w.created := by
  unfold HubWorld.shut
  split <;> rfl

@[simp]
theorem cleaning_shut : (w.shut c).cleaning = w.cleaning := by
  unfold HubWorld.shut
  split <;> rfl

@[simp]
theorem added_shut : (w.shut c).added = w.added := by
  unfold HubWorld.shut
  split <;> rfl

@[simp]
theorem received_shut : (w.shut c).received = w.received := by
  unfold HubWorld.shut
  split <;> rfl

@[simp]
theorem broadcasts_shut : (w.shut c).broadcasts = w.broadcasts := by
  unfold HubWorld.shut
  split <;> rfl

theorem closed_shut : (w.shut c).closed d = true ↔ w.closed d = true ∨ d = c := by
  unfold HubWorld.shut
  split
  next hc => exact ⟨Or.inl, fun h => h.elim id fun hd => hd ▸ hc⟩
  next hc =>
    by_cases hd : d = c
    · subst hd
      simp
    · simp [hd]

theorem queue_shut (hempty : w.closed c = true → w.queue c = []) :
    (w.shut c).queue d = if d = c then [] else w.queue d := by
  unfold HubWorld.shut
  by_cases hd : d = c
  · subst hd
    rw [if_pos rfl]
    split
    next hc => exact hempty hc
    · exact Function.update_self ..
  · rw [if_neg hd]
    split
    · rfl
    · exact Function.update_of_ne hd ..

/-- A client that is open and not full takes the message, and no other one does. -/
theorem trySend_perform (m : Queued) (serial : Option Nat) :
    (((HubOp.trySend c m serial).perform w).1 = true ↔
        w.closed c = false ∧ (w.queue c).length < maxQueue) ∧
      (((HubOp.trySend c m serial).perform w).1 = true →
        ((HubOp.trySend c m serial).perform w).2 = { w with
          queue := Function.update w.queue c (w.queue c ++ [m])
          received := Function.update w.received c (w.received c ++ [⟨serial, m⟩]) }) ∧
      (((HubOp.trySend c m serial).perform w).1 = false →
        ((HubOp.trySend c m serial).perform w).2 = w) := by
  unfold HubOp.perform
  dsimp only
  cases hclosed : w.closed c with
  | true => simp
  | false =>
      by_cases hfull : maxQueue ≤ (w.queue c).length
      · simp [hfull]
      · simp [hfull, Nat.lt_of_not_le hfull]

theorem added_perform (ho : ∀ c, o ≠ .addClient c) : (o.perform w).2.added = w.added := by
  cases o with
  | addClient c => exact absurd rfl (ho c)
  | removeClient c =>
      unfold HubOp.perform
      dsimp only
      split
      · rfl
      · exact added_shut
  | snapshot room order =>
      unfold HubOp.perform
      dsimp only
      split <;> rfl
  | trySend c m serial =>
      unfold HubOp.perform
      dsimp only
      split
      · rfl
      · split <;> rfl
  | enterCleanup room =>
      unfold HubOp.perform
      dsimp only
      split <;> rfl
  | eraseClose room c => exact added_shut
  | close c => exact added_shut
  | _ => rfl

theorem cleaning_perform (henter : ∀ room, o ≠ .enterCleanup room)
    (hleave : ∀ room, o ≠ .leaveCleanup room) : (o.perform w).2.cleaning = w.cleaning := by
  cases o with
  | enterCleanup room => exact absurd rfl (henter room)
  | leaveCleanup room => exact absurd rfl (hleave room)
  | removeClient c =>
      unfold HubOp.perform
      dsimp only
      split
      · rfl
      · exact cleaning_shut
  | snapshot room order =>
      unfold HubOp.perform
      dsimp only
      split <;> rfl
  | trySend c m serial =>
      unfold HubOp.perform
      dsimp only
      split
      · rfl
      · split <;> rfl
  | eraseClose room c => exact cleaning_shut
  | close c => exact cleaning_shut
  | _ => rfl

/-- Nothing is received but by a `try_send`. -/
theorem received_perform (ho : ∀ c m serial, o ≠ .trySend c m serial) :
    (o.perform w).2.received = w.received := by
  cases o with
  | trySend c m serial => exact absurd rfl (ho c m serial)
  | removeClient c =>
      unfold HubOp.perform
      dsimp only
      split
      · rfl
      · exact received_shut
  | snapshot room order =>
      unfold HubOp.perform
      dsimp only
      split <;> rfl
  | enterCleanup room =>
      unfold HubOp.perform
      dsimp only
      split <;> rfl
  | eraseClose room c => exact received_shut
  | close c => exact received_shut
  | _ => rfl

end ExamVan.Websocket
