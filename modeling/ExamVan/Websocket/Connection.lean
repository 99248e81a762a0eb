import ExamVan.Websocket.Flush
import ExamVan.Websocket.Rooms

/-!
# `handle_ws`

The function runs from the upgrade of a connection to its end. What it meets on the way is given with
the connection: the chunks that `recv` returns until it fails, the results of `send`, the messages
that each `flush_queue` finds, and what other threads do to the rooms meanwhile.
-/

namespace ExamVan.Websocket

open ByteString

/-- The client of this connection, or another one. -/
inductive Member
  | self
  | other (n : Nat)
  deriving DecidableEq

/-- What other threads do to the rooms. Only this connection adds or removes its own client; a
broadcast may take it out of its room. -/
inductive RoomStep
  | add (n : Nat) (room : Room)
  | remove (n : Nat) (room : Room)
  /-- the end of a broadcast for a client that it could not send to -/
  | cleanup (room : Room) (failed : Member)

def RoomStep.apply (rooms : Rooms Member) : RoomStep → Rooms Member
  | .add n room => rooms.insert room (.other n)
  | .remove n room => (rooms.erase room (.other n)).prune room
  | .cleanup room failed => (rooms.erase room failed).prune room

/-- One `recv`: up to `sizeof(tmp)` bytes. -/
abbrev Chunk := { bytes : Bytes // bytes ≠ [] ∧ bytes.length ≤ 4096 }

structure Ws where
  room : Room
  rooms : Rooms Member
  frag : Bytes := []
  fragIn : Bool := false
  /-- the calls of `handle_message` -/
  messages : List Bytes := []
  /-- the bytes sent on the connection -/
  wire : Bytes := []
  /-- the frames that have been handled -/
  handled : Nat := 0
  sends : List Int := []
  queued : List (List Queued) := []
  others : List (List RoomStep) := []

/-- The `return`s and `break`s inside of the loop. -/
inductive Exit
  | tooLong
  | closeFrame
  | sendFailed
  | fragmentsTooLong
  deriving DecidableEq

/-- `add_client` -/
def Ws.join (ws : Ws) : Ws := { ws with rooms := ws.rooms.insert ws.room .self }

/-- `remove_client` -/
def Ws.leave (ws : Ws) : Ws :=
  { ws with rooms := (ws.rooms.erase ws.room .self).prune ws.room }

/-- Other threads have their turn. -/
def Ws.meanwhile (ws : Ws) : Ws :=
  { ws with rooms := (ws.others.headD []).foldl RoomStep.apply ws.rooms, others := ws.others.tail }

def Ws.sent (ws : Ws) (s : Sending) : Ws :=
  { ws with wire := ws.wire ++ s.written, sends := s.sends }

/-- A complete message goes to the hub, and then what is queued goes out. -/
def Ws.deliver (ws : Ws) (msg : Bytes) : Except (Exit × Ws) Ws :=
  let ws := { ws with messages := ws.messages ++ [msg] }.meanwhile
  let s := flushQueue (ws.queued.headD []) ws.sends
  let ws := { ws.sent s with queued := ws.queued.tail }
  if !s.ok then .error (.sendFailed, ws.leave) else .ok ws

/-- The body of the frame loop. A length or a sum of fragments over the limit closes the socket and
returns. -/
def Ws.handle (ws : Ws) (item : Item) : Except (Exit × Ws) Ws :=
  let ws := { ws.meanwhile with handled := ws.handled + 1 }
  match item with
  | .tooLong => .error (.tooLong, ws)
  | .frame f =>
      if f.opcode = 0x8 then .error (.closeFrame, ws.leave)
      else if f.opcode = 0x9 then
        let s := sendAll (pongFrame f.payload) ws.sends
        let ws := ws.sent s
        if !s.ok then .error (.sendFailed, ws.leave) else .ok ws
      else if f.opcode = 0x0 then
        if !ws.fragIn then .ok ws
        else if maxPayload < ws.frag.length + f.payload.length then .error (.fragmentsTooLong, ws)
        else
          let frag := ws.frag ++ f.payload
          if f.fin then { ws with frag := [], fragIn := false }.deliver frag
          else .ok { ws with frag }
      else if f.opcode = 0x1 ∨ f.opcode = 0x2 then
        if !f.fin then
          let ws := { ws with frag := f.payload, fragIn := true }
          if maxPayload < ws.frag.length then .error (.fragmentsTooLong, ws) else .ok ws
        else ws.deliver f.payload
      else .ok ws

/-- The receive loop: `acc` keeps what follows the last whole frame. -/
def Ws.loop (ws : Ws) (chunks : List Chunk) : Fed Ws (Exit × Ws) :=
  frames.feed Ws.handle maxPayload ws [] (chunks.map Subtype.val)

/-- `path.substr(4)` without its query. -/
def roomOf (path : Bytes) : Room :=
  let room := if str "/ws/" <+: path then path.drop 4 else path
  room.takeWhile (· ≠ chr '?')

structure Connection where
  path : Bytes
  /-- `check_origin` -/
  originAllowed : Bool := true
  /-- `Sec-WebSocket-Key` -/
  key : Bytes
  /-- what happened to the rooms before -/
  before : List RoomStep := []
  chunks : List Chunk := []
  sends : List Int := []
  queued : List (List Queued) := []
  others : List (List RoomStep) := []

/-- The state after the handshake. -/
def Connection.start (conn : Connection) : Ws where
  room := roomOf conn.path
  rooms := conn.before.foldl RoomStep.apply Rooms.empty
  sends := conn.sends
  queued := conn.queued
  others := conn.others

/-- The connection is upgraded. -/
def Connection.Upgraded (conn : Connection) : Prop := conn.originAllowed = true ∧ conn.key ≠ []

instance (conn : Connection) : Decidable conn.Upgraded := inferInstanceAs (Decidable (_ ∧ _))

/-- After the loop the client is removed; a `return` in it has done so before, or not at all. -/
def returned : Fed Ws (Exit × Ws) → Ws
  | .stopped (_, ws) => ws
  | .full ws | .ended ws => ws.meanwhile.leave

/-- What `handle_ws` leaves behind when it returns. -/
def handleWs (conn : Connection) : Ws :=
  if !conn.originAllowed then conn.start
  else if conn.key = [] then conn.start
  else returned (conn.start.join.loop conn.chunks)

end ExamVan.Websocket

/-!
## Leaving the hub

A connection's client can only be in the connection's own room, and `remove_client` takes it out of
there. All ways out of the loop go through it but the two that find something too large.
-/

namespace ExamVan.Websocket

open ByteString

variable {ws ws' : Ws} {item : Item} {rooms : Rooms Member} {room : Room}

/-- The client is in no room but its own. -/
def Ws.OwnRoom (ws : Ws) : Prop := ∀ room, ws.rooms.Holds room .self → room = ws.room

def Ws.Registered (ws : Ws) : Prop := ws.rooms.Holds ws.room .self

/-- The client is in no room. -/
def Ws.Gone (ws : Ws) : Prop := ∀ room, ¬ ws.rooms.Holds room .self

/-- A 64 bit length over the limit, or a fragment that takes the message over it. -/
def Oversize (ws : Ws) : Item → Prop
  | .tooLong => True
  | .frame f =>
      f.opcode = 0x0 ∧ ws.fragIn = true ∧ maxPayload < ws.frag.length + f.payload.length

/-! ### The rooms -/

/-- Other threads do not add this client. -/
theorem holds_of_apply {step : RoomStep} (h : (step.apply rooms).Holds room .self) :
    rooms.Holds room .self := by
  cases step with
  | add n room' =>
      rcases Rooms.holds_insert.mp h with h | ⟨-, h⟩
      · exact h
      · cases h
  | remove n room' => exact (Rooms.holds_erase.mp (Rooms.holds_prune.mp h)).1
  | cleanup room' failed => exact (Rooms.holds_erase.mp (Rooms.holds_prune.mp h)).1

theorem holds_of_foldl {steps : List RoomStep}
    (h : (steps.foldl RoomStep.apply rooms).Holds room .self) : rooms.Holds room .self := by
  induction steps generalizing rooms with
  | nil => exact h
  | cons step steps ih => exact holds_of_apply (ih h)

theorem Ws.OwnRoom.meanwhile (h : ws.OwnRoom) : ws.meanwhile.OwnRoom :=
  fun room hroom => h room (holds_of_foldl hroom)

theorem Ws.OwnRoom.gone_leave (h : ws.OwnRoom) : ws.leave.Gone := by
  intro room hroom
  obtain ⟨hbefore, hne⟩ := Rooms.holds_erase.mp (Rooms.holds_prune.mp hroom)
  exact hne ⟨h room hbefore, rfl⟩

theorem Ws.OwnRoom.gone_iff (h : ws.OwnRoom) : ws.Gone ↔ ¬ ws.Registered :=
  ⟨fun hgone => hgone ws.room, fun hnot room hroom => by
    have hown := h room hroom
    subst hown
    exact hnot hroom⟩

theorem ownRoom_join (conn : Connection) : conn.start.join.OwnRoom := by
  intro room hroom
  rcases Rooms.holds_insert.mp hroom with hroom | ⟨hroom, -⟩
  · exact absurd (holds_of_foldl hroom) Rooms.not_holds_empty
  · exact hroom

theorem gone_start (conn : Connection) : conn.start.Gone :=
  fun _ hroom => Rooms.not_holds_empty (holds_of_foldl hroom)

/-! ### One frame -/

/-- How the handling of an item ends: it goes on in its own room, or the client is gone, or it
returns from something too large with the rooms as they are. -/
inductive Handled (ws : Ws) (item : Item) : Except (Exit × Ws) Ws → Prop
  | continues {ws' : Ws} (hsize : ¬ Oversize ws item) (hown : ws'.OwnRoom) :
      Handled ws item (.ok ws')
  | left {exit : Exit} {ws' : Ws} (hsize : ¬ Oversize ws item) (hgone : ws'.Gone) :
      Handled ws item (.error (exit, ws'))
  | stays {exit : Exit} {ws' : Ws} (hsize : Oversize ws item)
      (hrooms : ws'.rooms = ws.meanwhile.rooms) : Handled ws item (.error (exit, ws'))

theorem handled_deliver (hsize : ¬ Oversize ws item) (hown : ws'.OwnRoom) (msg : Bytes) :
    Handled ws item (ws'.deliver msg) := by
  have hafter : ∀ (messages : List Bytes) (s : Sending) (queued : List (List Queued)),
      ({ ({ ws' with messages } : Ws).meanwhile.sent s with queued } : Ws).OwnRoom :=
    fun messages s queued => hown.meanwhile
  unfold Ws.deliver
  dsimp only
  split
  · exact .left hsize (hafter _ _ _).gone_leave
  · exact .continues hsize (hafter _ _ _)

/-- No frame has more than the limit. -/
theorem payload_le_of_readBody {b0 : UInt8} {masked : Bool} {len : Nat} {buf rest : Bytes}
    {f : Frame} (h : readBody b0 masked len buf = some (.frame f, rest)) :
    f.payload.length ≤ len := by
  unfold readBody at h
  dsimp only at h
  generalize (if masked then 4 else 0) = maskSize at h
  split at h
  · cases h
  · split at h
    · cases h
    · obtain ⟨hitem, -⟩ := Prod.mk.inj (Option.some.inj h)
      rw [← Item.frame.inj hitem]
      simp [unmask]

theorem payload_le_of_nextFrame {buf rest : Bytes} {f : Frame}
    (h : nextFrame buf = some (.frame f, rest)) : f.payload.length ≤ maxPayload := by
  unfold nextFrame at h
  split at h
  next b0 b1 buf =>
    dsimp only at h
    split at h
    · split at h
      · cases h
      next hlength =>
        have htwo : (buf.take 2).length = 2 := by
          rw [List.length_take]
          omega
        have hbytes := bigEndian_lt (buf.take 2)
        rw [htwo] at hbytes
        refine (payload_le_of_readBody h).trans (hbytes.le.trans ?_)
        decide
    · split at h
      · split at h
        · cases h
        · split at h
          · cases h
          next hlen => exact (payload_le_of_readBody h).trans (Nat.not_lt.mp hlen)
      · have hbyte : (b1 &&& 0x7F).toNat < 256 := UInt8.toNat_lt _
        refine (payload_le_of_readBody h).trans (hbyte.le.trans ?_)
        decide
  · cases h

theorem handled_handle (hown : ws.OwnRoom)
    (hitem : ∀ f, item = .frame f → f.payload.length ≤ maxPayload) :
    Handled ws item (ws.handle item) := by
  have hsame : ∀ {ws' : Ws}, ws'.room = ws.room → ws'.rooms = ws.meanwhile.rooms → ws'.OwnRoom := by
    intro ws' hroom hrooms room h
    rw [hrooms] at h
    rw [hroom]
    exact hown.meanwhile room h
  cases item with
  | tooLong => exact .stays trivial rfl
  | frame f =>
      have hpayload := hitem f rfl
      have hsmall : f.opcode ≠ 0x0 → ¬ Oversize ws (.frame f) := fun hne h => hne h.1
      unfold Ws.handle
      dsimp only
      split
      next h8 => exact .left (hsmall (by rw [h8]; decide)) (Ws.OwnRoom.gone_leave (hsame rfl rfl))
      · split
        next h9 =>
          have hsize := hsmall (by rw [h9]; decide)
          split
          · exact .left hsize (Ws.OwnRoom.gone_leave (hsame rfl rfl))
          · exact .continues hsize (hsame rfl rfl)
        · split
          next h0 =>
            split
            next hfrag =>
              refine .continues (fun h => ?_) (hsame rfl rfl)
              have hfragIn : ws.fragIn = true := h.2.1
              rw [show ws.meanwhile.fragIn = ws.fragIn from rfl, hfragIn] at hfrag
              cases hfrag
            next hfrag =>
              have hfragIn : ws.fragIn = true := by simpa [Ws.meanwhile] using hfrag
              split
              next hlong => exact .stays ⟨h0, hfragIn, hlong⟩ rfl
              next hlong =>
                have hsize : ¬ Oversize ws (.frame f) := fun h => hlong h.2.2
                split
                · refine handled_deliver hsize ?_ _
                  exact hsame rfl rfl
                · exact .continues hsize (hsame rfl rfl)
          next h0 =>
            have hsize := hsmall h0
            split
            · split
              · rw [if_neg (Nat.not_lt.mpr hpayload)]
                exact .continues hsize (hsame rfl rfl)
              · refine handled_deliver hsize ?_ _
                exact hsame rfl rfl
            · exact .continues hsize (hsame rfl rfl)

/-! ### The whole connection -/

theorem handled_of_found (hown : ws.OwnRoom) (hitem : frames.Found item) :
    Handled ws item (ws.handle item) := by
  obtain ⟨buf, rest, hnext⟩ := hitem
  refine handled_handle hown fun f hf => ?_
  subst hf
  exact payload_le_of_nextFrame hnext

theorem ownRoom_of_handle (ws : Ws) (item : Item) (ws' : Ws) (hown : ws.OwnRoom)
    (hitem : frames.Found item) (h : ws.handle item = .ok ws') : ws'.OwnRoom := by
  have hhandled := handled_of_found hown hitem
  rw [h] at hhandled
  cases hhandled with
  | continues _ hown' => exact hown'

/-- After the handshake, the client is gone in the end exactly if it was not registered at any item
over the limit that the loop has handled. -/
theorem gone_loop_iff (hown : ws.OwnRoom) (chunks : List Chunk) :
    (returned (ws.loop chunks)).Gone ↔
      ∀ ws' item, frames.FeedHandles Ws.handle maxPayload ws [] (chunks.map Subtype.val) ws' item →
        Oversize ws' item → ¬ ws'.meanwhile.Registered := by
  have hkept := ownRoom_of_handle
  -- Whatever is handled and stops the loop is where the loop ends.
  have hstopped : ∀ {ws' item e}, frames.FeedHandles Ws.handle maxPayload ws []
      (chunks.map Subtype.val) ws' item → ws'.handle item = .error e →
        ws.loop chunks = .stopped e :=
    fun hfeed herror => Incremental.feed_eq_stopped_iff.mpr ⟨_, _, hfeed, herror⟩
  have hover : ∀ {ws' item}, frames.FeedHandles Ws.handle maxPayload ws []
      (chunks.map Subtype.val) ws' item → Oversize ws' item → ∃ exit ws'',
        ws.loop chunks = .stopped (exit, ws'') ∧ (ws''.Gone ↔ ¬ ws'.meanwhile.Registered) := by
    intro ws' item hfeed hsize
    obtain ⟨hown', hitem⟩ := hfeed.invariant hkept hown
    have hhandled := handled_of_found hown' hitem
    cases hresult : ws'.handle item with
    | ok ws'' =>
        rw [hresult] at hhandled
        cases hhandled with
        | continues hnot _ => exact absurd hsize hnot
    | error e =>
        obtain ⟨exit, ws''⟩ := e
        rw [hresult] at hhandled
        refine ⟨exit, ws'', hstopped hfeed hresult, ?_⟩
        cases hhandled with
        | left hnot _ => exact absurd hsize hnot
        | stays _ hrooms =>
            rw [← hown'.meanwhile.gone_iff, Ws.Gone, Ws.Gone, hrooms]
  have hend : ∀ ws', ws.loop chunks = .full ws' ∨ ws.loop chunks = .ended ws' → ws'.OwnRoom :=
    fun ws' hloop => Incremental.feed_inv hkept hown hloop
  constructor
  · intro hgone ws' item hfeed hsize
    obtain ⟨exit, ws'', hloop, hiff⟩ := hover hfeed hsize
    rw [hloop] at hgone
    exact hiff.mp hgone
  · intro hall
    cases hloop : ws.loop chunks with
    | stopped e =>
        obtain ⟨exit, ws''⟩ := e
        obtain ⟨ws', item, hfeed, herror⟩ := Incremental.feed_eq_stopped_iff.mp hloop
        obtain ⟨hown', hitem⟩ := hfeed.invariant hkept hown
        have hhandled := handled_of_found hown' hitem
        rw [herror] at hhandled
        cases hhandled with
        | left _ hgone => exact hgone
        | stays hsize _ =>
            obtain ⟨exit', ws₁, hloop', hiff⟩ := hover hfeed hsize
            cases hloop.symm.trans hloop'
            exact hiff.mpr (hall ws' item hfeed hsize)
    | full ws' => exact (hend ws' (Or.inl hloop)).meanwhile.gone_leave
    | ended ws' => exact (hend ws' (Or.inr hloop)).meanwhile.gone_leave

/-- When `handle_ws` returns, its client is in no room exactly if no frame over a limit was handled
while the client was registered. -/
theorem handleWs_gone_iff (conn : Connection) :
    (handleWs conn).Gone ↔
      (conn.Upgraded → ∀ ws item, frames.FeedHandles Ws.handle maxPayload conn.start.join []
        (conn.chunks.map Subtype.val) ws item → Oversize ws item → ¬ ws.meanwhile.Registered) := by
  unfold handleWs
  by_cases horigin : conn.originAllowed = true
  · by_cases hkey : conn.key = []
    · rw [if_neg (by simpa using horigin), if_pos hkey]
      exact iff_of_true (gone_start conn) fun hup => absurd hkey hup.2
    · rw [if_neg (by simpa using horigin), if_neg hkey, gone_loop_iff (ownRoom_join conn)]
      exact ⟨fun h _ => h, fun h => h ⟨horigin, hkey⟩⟩
  · rw [if_pos (by simpa using horigin)]
    exact iff_of_true (gone_start conn) fun hup => absurd hup.1 horigin

/-- A header that announces one byte too many. -/
def announcesTooMuch : Chunk :=
  ⟨[0x81, 0x7F, 0, 0, 0, 0, 0, 0x50, 0, 1], by decide, by decide⟩

theorem handleWs_not_gone : ¬ ∀ conn, (handleWs conn).Gone := by
  intro h
  have hgone := h { path := str "/ws/7", key := str "k", chunks := [announcesTooMuch] }
  have hheld : (handleWs { path := str "/ws/7", key := str "k", chunks := [announcesTooMuch] }).rooms
      (str "7") = some {.self} := by decide +kernel
  exact hgone (str "7") ⟨{.self}, hheld, Finset.mem_singleton_self _⟩

end ExamVan.Websocket
