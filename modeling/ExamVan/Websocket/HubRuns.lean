import ExamVan.Websocket.Hub

/-!
# Deliveries and rooms

A broadcast knows its snapshot, whom it has tried, and whom it has cleaned up; these are facts about
the clients that no other thread can undo, since a client is added once. A client that was once added
is in its room, or closed by whoever has taken it out.
-/

namespace ExamVan.Websocket

open ByteString

variable {w w' : HubWorld} {c d : ClientId} {room : Room} {o : HubOp}

/-- The client is closed and in no room, for good. -/
structure HubWorld.Out (w : HubWorld) (c : ClientId) : Prop where
  added : w.added c = true
  closed : w.closed c = true
  nowhere : ∀ room, ¬ w.rooms.Holds room c

structure HubWorld.Ok (w : HubWorld) : Prop where
  /-- only the room that is being cleaned can be empty -/
  noneEmpty : ∀ room, w.rooms room = some ∅ → w.cleaning = some room
  ownRoom : ∀ room c, w.rooms.Holds room c → w.roomOf c = room ∧ w.added c = true
  created : ∀ c, w.added c = true → c < w.created
  inRoomOrClosed : ∀ c, w.added c = true → w.rooms.Holds (w.roomOf c) c ∨ w.closed c = true
  closedEmpty : ∀ c, w.closed c = true → w.queue c = []
  queueBound : ∀ c, (w.queue c).length ≤ maxQueue
  queued : ∀ c, w.queue c <:+ (w.received c).map Receipt.msg
  serials : ∀ c, ∀ r ∈ w.received c, ∀ n, r.serial = some n → n < w.broadcasts

/-- What a step of the hub may never take back. -/
structure HubWorld.Later (w w' : HubWorld) : Prop where
  created : w.created ≤ w'.created
  broadcasts : w.broadcasts ≤ w'.broadcasts
  roomOf : ∀ c, c < w.created → w'.roomOf c = w.roomOf c
  added : ∀ c, w.added c = true → w'.added c = true
  closed : ∀ c, w.closed c = true → w'.closed c = true
  holds : ∀ room c, w.added c = true → w'.rooms.Holds room c → w.rooms.Holds room c
  received : ∀ c, w.received c <+: w'.received c

theorem HubWorld.Later.out (h : w.Later w') (hc : w.Out c) : w'.Out c where
  added := h.added c hc.added
  closed := h.closed c hc.closed
  nowhere room hroom := hc.nowhere room (h.holds room c hc.added hroom)

/-! ### The steps of the world -/

/-- What a step needs from the thread that takes it. -/
def HubOp.Due : HubOp → HubWorld → Prop
  | .addClient c, w => c < w.created ∧ w.added c = false
  | .eraseClose room _, w | .leaveCleanup room, w => w.cleaning = some room
  | .trySend _ _ (some serial), w => serial < w.broadcasts
  | _, _ => True

section

variable (hok : w.Ok)
include hok

theorem noneEmpty_of_free (hfree : w.cleaning = none) : w.rooms.NoneEmpty := by
  intro room hroom
  rw [hok.noneEmpty room hroom] at hfree
  cases hfree

theorem ok_create (room : Room) : ((HubOp.create room).perform w).2.Ok := by
  have hroomOf : ∀ c, w.added c = true →
      Function.update w.roomOf w.created room c = w.roomOf c := fun c hc =>
    Function.update_of_ne (Nat.ne_of_lt (hok.created c hc)) ..
  refine { hok with ownRoom := fun room' c hc => ?_, created := fun c hc => ?_,
                    inRoomOrClosed := fun c hc => ?_ }
  · obtain ⟨hown, hadded⟩ := hok.ownRoom room' c hc
    exact ⟨(hroomOf c hadded).trans hown, hadded⟩
  · exact Nat.lt_succ_of_lt (hok.created c hc)
  · refine (hok.inRoomOrClosed c hc).imp (fun h => ?_) id
    change w.rooms.Holds (Function.update w.roomOf w.created room c) c
    rw [hroomOf c hc]
    exact h

theorem ok_addClient (hready : w.cleaning = none) (hcreated : c < w.created) :
    ((HubOp.addClient c).perform w).2.Ok := by
  have hadded : ∀ d, Function.update w.added c true d = true ↔ d = c ∨ w.added d = true := by
    intro d
    by_cases hd : d = c
    · subst hd
      simp
    · simp [hd]
  refine { hok with noneEmpty := fun room hroom => ?_, ownRoom := fun room d hd => ?_,
                    created := fun d hd => ?_, inRoomOrClosed := fun d hd => ?_ }
  · exact absurd hroom ((noneEmpty_of_free hok hready).insert room)
  · rcases Rooms.holds_insert.mp hd with hd | ⟨rfl, rfl⟩
    · obtain ⟨hown, hold⟩ := hok.ownRoom room d hd
      exact ⟨hown, (hadded d).mpr (Or.inr hold)⟩
    · exact ⟨rfl, (hadded d).mpr (Or.inl rfl)⟩
  · rcases (hadded d).mp hd with rfl | hd
    · exact hcreated
    · exact hok.created d hd
  · rcases (hadded d).mp hd with rfl | hd
    · exact Or.inl (Rooms.holds_insert.mpr (Or.inr ⟨rfl, rfl⟩))
    · exact (hok.inRoomOrClosed d hd).imp (fun h => Rooms.holds_insert.mpr (Or.inl h)) id

/-- Closing a client and taking some out of their rooms keeps the rest, if those that are taken out
are closed. -/
theorem ok_shut (rooms : Rooms ClientId) (cleaning : Option Room)
    (hempty : ∀ room, rooms room = some ∅ → cleaning = some room)
    (hless : ∀ room d, rooms.Holds room d → w.rooms.Holds room d)
    (hkept : ∀ room d, d ≠ c → w.rooms.Holds room d → rooms.Holds room d) :
    ({ w.shut c with rooms, cleaning } : HubWorld).Ok where
  noneEmpty := hempty
  ownRoom room d hd := by
    obtain ⟨hown, hadded⟩ := hok.ownRoom room d (hless room d hd)
    exact ⟨by rw [roomOf_shut]; exact hown, by rw [added_shut]; exact hadded⟩
  created d hd := by
    rw [added_shut] at hd
    rw [created_shut]
    exact hok.created d hd
  inRoomOrClosed d hd := by
    rw [added_shut] at hd
    by_cases hdc : d = c
    · exact Or.inr (closed_shut.mpr (Or.inr hdc))
    · rw [roomOf_shut]
      exact (hok.inRoomOrClosed d hd).imp (hkept _ d hdc) fun h => closed_shut.mpr (Or.inl h)
  closedEmpty d hd := by
    refine (queue_shut (hok.closedEmpty c)).trans ?_
    split
    · rfl
    next hne => exact hok.closedEmpty d ((closed_shut.mp hd).resolve_right hne)
  queueBound d := by
    refine (congrArg List.length (queue_shut (hok.closedEmpty c))).trans_le ?_
    split
    · exact Nat.zero_le _
    · exact hok.queueBound d
  queued d := by
    change (w.shut c).queue d <:+ ((w.shut c).received d).map Receipt.msg
    rw [received_shut, queue_shut (hok.closedEmpty c)]
    split
    · exact List.nil_suffix
    · exact hok.queued d
  serials d r hr n hn := by
    rw [received_shut] at hr
    rw [broadcasts_shut]
    exact hok.serials d r hr n hn

theorem ok_removeClient (hready : w.cleaning = none) : ((HubOp.removeClient c).perform w).2.Ok := by
  unfold HubOp.perform
  dsimp only
  split
  · exact hok
  · have hfree := noneEmpty_of_free hok hready
    have hpruned : ((w.rooms.erase (w.roomOf c) c).prune (w.roomOf c)).NoneEmpty := by
      refine Rooms.noneEmpty_prune fun room hne => ?_
      rw [Rooms.erase_of_ne hne]
      exact hfree room
    refine ok_shut hok _ (w.shut c).cleaning (fun room hroom => absurd hroom (hpruned room)) ?_ ?_
    · exact fun room d hd => (Rooms.holds_erase.mp (Rooms.holds_prune.mp hd)).1
    · exact fun room d hne hd =>
        Rooms.holds_prune.mpr (Rooms.holds_erase.mpr ⟨hd, fun h => hne h.2⟩)

theorem ok_eraseClose (hdue : w.cleaning = some room) :
    ((HubOp.eraseClose room c).perform w).2.Ok := by
  refine ok_shut hok _ (w.shut c).cleaning (fun room' hroom => ?_) ?_ ?_
  · rw [cleaning_shut]
    by_cases hne : room' = room
    · rw [hne]
      exact hdue
    · rw [Rooms.erase_of_ne hne] at hroom
      exact hok.noneEmpty room' hroom
  · exact fun room d hd => (Rooms.holds_erase.mp hd).1
  · exact fun room d hne hd => Rooms.holds_erase.mpr ⟨hd, fun h => hne h.2⟩

theorem ok_leaveCleanup (hdue : w.cleaning = some room) :
    ((HubOp.leaveCleanup room).perform w).2.Ok := by
  have hpruned : (w.rooms.prune room).NoneEmpty := by
    refine Rooms.noneEmpty_prune fun room' hne hroom => hne ?_
    exact (Option.some.inj (hdue.symm.trans (hok.noneEmpty room' hroom))).symm
  refine { hok with noneEmpty := fun room' hroom => absurd hroom (hpruned room'),
                    ownRoom := fun room' d hd => hok.ownRoom room' d (Rooms.holds_prune.mp hd),
                    inRoomOrClosed := fun d hd => ?_ }
  exact (hok.inRoomOrClosed d hd).imp Rooms.holds_prune.mpr id

theorem ok_close : ((HubOp.close c).perform w).2.Ok := by
  have hsame : w.shut c = { w.shut c with rooms := w.rooms, cleaning := w.cleaning } := by
    unfold HubWorld.shut
    split <;> rfl
  have hok' := ok_shut (c := c) hok w.rooms w.cleaning hok.noneEmpty (fun _ _ => id)
    fun _ _ _ => id
  rw [← hsame] at hok'
  exact hok'

theorem ok_trySend {m : Queued} {serial : Option Nat}
    (hdue : ∀ n, serial = some n → n < w.broadcasts) :
    ((HubOp.trySend c m serial).perform w).2.Ok := by
  obtain ⟨haccept, hsent, hrefused⟩ := @trySend_perform w c m serial
  cases hanswer : ((HubOp.trySend c m serial).perform w).1 with
  | false =>
      rw [hrefused hanswer]
      exact hok
  | true =>
      obtain ⟨hopen, hroom⟩ := haccept.mp hanswer
      rw [hsent hanswer]
      refine { hok with closedEmpty := fun d hd => ?_, queueBound := fun d => ?_,
                        queued := fun d => ?_, serials := fun d r hr n hn => ?_ }
      · have hne : d ≠ c := fun h => by
          subst h
          rw [hopen] at hd
          cases hd
        exact (Function.update_of_ne hne ..).trans (hok.closedEmpty d hd)
      · by_cases hd : d = c
        · subst hd
          simp only [Function.update_self, List.length_append, List.length_singleton]
          omega
        · simp only [Function.update_of_ne hd]
          exact hok.queueBound d
      · by_cases hd : d = c
        · subst hd
          simp only [Function.update_self, List.map_append, List.map_cons, List.map_nil]
          exact List.suffix_append_self_iff.mpr (hok.queued d)
        · simp only [Function.update_of_ne hd]
          exact hok.queued d
      · by_cases hd : d = c
        · subst hd
          simp only [Function.update_self, List.mem_append, List.mem_singleton] at hr
          rcases hr with hr | rfl
          · exact hok.serials d r hr n hn
          · exact hdue n hn
        · simp only [Function.update_of_ne hd] at hr
          exact hok.serials d r hr n hn

theorem ok_pop : ((HubOp.pop c).perform w).2.Ok := by
  have hsuffix : ∀ d, Function.update w.queue c (w.queue c).tail d <:+ w.queue d := by
    intro d
    by_cases hd : d = c
    · subst hd
      rw [Function.update_self]
      exact List.tail_suffix _
    · rw [Function.update_of_ne hd]
  refine { hok with closedEmpty := fun d hd => ?_, queueBound := fun d => ?_,
                    queued := fun d => (hsuffix d).trans (hok.queued d) }
  · exact List.suffix_nil.mp (hok.closedEmpty d hd ▸ hsuffix d)
  · exact (hsuffix d).length_le.trans (hok.queueBound d)

theorem ok_perform (hready : o.Ready w) (hdue : o.Due w) : (o.perform w).2.Ok := by
  cases o with
  | create room => exact ok_create hok room
  | addClient c => exact ok_addClient hok hready hdue.1
  | removeClient c => exact ok_removeClient hok hready
  | snapshot room order =>
      unfold HubOp.perform
      dsimp only
      split
      · exact hok
      · exact { hok with serials := fun c r hr n hn => Nat.lt_succ_of_lt (hok.serials c r hr n hn) }
  | trySend c m serial =>
      refine ok_trySend hok fun n hn => ?_
      subst hn
      exact hdue
  | enterCleanup room =>
      have hfree := noneEmpty_of_free hok hready
      unfold HubOp.perform
      dsimp only
      split
      · exact hok
      · exact { hok with noneEmpty := fun room' hroom => absurd hroom (hfree room') }
  | eraseClose room c => exact ok_eraseClose hok hdue
  | leaveCleanup room => exact ok_leaveCleanup hok hdue
  | close c => exact ok_close hok
  | pop c => exact ok_pop hok

end

theorem HubWorld.Later.refl (w : HubWorld) : w.Later w where
  created := Nat.le_refl _
  broadcasts := Nat.le_refl _
  roomOf _ _ := rfl
  added _ h := h
  closed _ h := h
  holds _ _ _ h := h
  received _ := List.prefix_refl _

theorem later_shut (rooms : Rooms ClientId) (cleaning : Option Room)
    (hless : ∀ room d, rooms.Holds room d → w.rooms.Holds room d) :
    w.Later { w.shut c with rooms, cleaning } where
  created := (created_shut (w := w) (c := c)).ge
  broadcasts := (broadcasts_shut (w := w) (c := c)).ge
  roomOf d _ := congrFun roomOf_shut d
  added d hd := (congrFun added_shut d).trans hd
  closed _ hd := closed_shut.mpr (Or.inl hd)
  holds room d _ hd := hless room d hd
  received d := (congrFun received_shut d).symm ▸ List.prefix_refl _

theorem later_perform (hdue : o.Due w) : w.Later (o.perform w).2 := by
  cases o with
  | create room =>
      refine { HubWorld.Later.refl w with created := Nat.le_succ _, roomOf := fun c hc => ?_ }
      exact Function.update_of_ne (Nat.ne_of_lt hc) ..
  | addClient c =>
      refine { HubWorld.Later.refl w with added := fun d hd => ?_, holds := fun room d hd h => ?_ }
      · by_cases hdc : d = c
        · subst hdc
          exact Function.update_self ..
        · exact (Function.update_of_ne hdc ..).trans hd
      · rcases Rooms.holds_insert.mp h with h | ⟨-, rfl⟩
        · exact h
        · rw [hdue.2] at hd
          cases hd
  | removeClient c =>
      unfold HubOp.perform
      dsimp only
      split
      · exact .refl w
      · exact later_shut _ (w.shut c).cleaning fun room d hd =>
          (Rooms.holds_erase.mp (Rooms.holds_prune.mp hd)).1
  | snapshot room order =>
      unfold HubOp.perform
      dsimp only
      split
      · exact .refl w
      · exact { HubWorld.Later.refl w with broadcasts := Nat.le_succ _ }
  | trySend c m serial =>
      obtain ⟨-, hsent, hrefused⟩ := @trySend_perform w c m serial
      cases hanswer : ((HubOp.trySend c m serial).perform w).1 with
      | false =>
          rw [hrefused hanswer]
          exact .refl w
      | true =>
          rw [hsent hanswer]
          refine { HubWorld.Later.refl w with received := fun d => ?_ }
          by_cases hd : d = c
          · subst hd
            simp only [Function.update_self]
            exact List.prefix_append _ _
          · simp only [Function.update_of_ne hd]
            exact List.prefix_refl _
  | enterCleanup room =>
      unfold HubOp.perform
      dsimp only
      split
      · exact .refl w
      · exact { HubWorld.Later.refl w with }
  | eraseClose room c =>
      exact later_shut _ (w.shut c).cleaning fun room d hd => (Rooms.holds_erase.mp hd).1
  | leaveCleanup room =>
      exact { HubWorld.Later.refl w with holds := fun _ _ _ h => Rooms.holds_prune.mp h }
  | close c =>
      have hsame : w.shut c = { w.shut c with rooms := w.rooms, cleaning := w.cleaning } := by
        unfold HubWorld.shut
        split <;> rfl
      have hlater := later_shut (w := w) (c := c) w.rooms w.cleaning fun _ _ => id
      rw [← hsame] at hlater
      exact hlater
  | pop c => exact { HubWorld.Later.refl w with }

/-! ### What a thread knows -/

structure Known where
  /-- the client that the thread has made, and whether it has added it -/
  mine : Option (ClientId × Bool) := none
  snapshot : Option (Nat × List ClientId) := none
  tried : List (ClientId × Bool) := []
  cleaning : Option Room := none
  gone : List ClientId := []

def HubCall.target : HubCall → Room
  | .broadcastToRoom room _ _ => room
  | _ => []

def HubCall.message : HubCall → Queued
  | .broadcastToRoom _ msg _ => (msg, false)
  | _ => ([], false)

/-- A thread adds the client that it has made, tries every client of its snapshot in turn, and closes
clients of its snapshot while it holds `mu_`. -/
def threadOf (call : HubCall) : Protocol HubOp HubAns Known where
  start := {}
  learn
    | k, .create _, c => { k with mine := some (c, false) }
    | k, .addClient c, () => { k with mine := some (c, true) }
    | k, .snapshot _ _, answer => { k with snapshot := answer }
    | k, .trySend c _ (some _), ok => { k with tried := k.tried ++ [(c, ok)] }
    | k, .enterCleanup room, true => { k with cleaning := some room }
    | k, .enterCleanup _, false => { k with gone := (k.snapshot.map Prod.snd).getD [] }
    | k, .eraseClose _ c, () => { k with gone := c :: k.gone }
    | k, .leaveCleanup _, () => { k with cleaning := none }
    | k, _, _ => k
  allowed
    | k, .create _ => k.mine = none
    | k, .addClient c => k.mine = some (c, false)
    | k, .snapshot room _ => k.snapshot = none ∧ k.tried = [] ∧ room = call.target
    | k, .trySend c m (some serial) =>
        m = call.message ∧
          ∃ clients, k.snapshot = some (serial, clients) ∧ k.tried.map Prod.fst ++ [c] <+: clients
    | k, .enterCleanup room => k.gone = [] ∧ k.cleaning = none ∧ room = call.target
    | k, .eraseClose room c =>
        room = call.target ∧ k.cleaning = some room ∧
          ∃ serial clients, k.snapshot = some (serial, clients) ∧ c ∈ clients
    | k, .leaveCleanup room => k.cleaning = some room
    | _, _ => True

/-- The thread has tried every client of its snapshot, and those that it could not send to are gone. -/
def Known.Finished (k : Known) : Prop :=
  match k.snapshot with
  | none => k.tried = []
  | some (_, clients) =>
      k.tried.map Prod.fst = clients ∧ ∀ c, (c, false) ∈ k.tried → c ∈ k.gone

theorem follows_sendEach (call : HubCall) (k : Known) {serial : Nat} {clients rest : List ClientId} {msg : Bytes}
    (hmsg : (msg, false) = call.message) (hsnapshot : k.snapshot = some (serial, clients))
    (hrest : k.tried.map Prod.fst ++ rest = clients) :
    (threadOf call).Follows
      (fun k' failed => ∃ new, k' = { k with tried := k.tried ++ new } ∧ new.map Prod.fst = rest ∧
        ∀ c, c ∈ failed ↔ (c, false) ∈ new) k (sendEach serial msg rest) := by
  induction rest generalizing k with
  | nil => exact ⟨[], by simp, rfl, fun c => by simp⟩
  | cons c rest ih =>
      refine ⟨⟨hmsg, clients, hsnapshot, ?_⟩, fun ok => ?_⟩
      · rw [← hrest]
        exact (List.prefix_append_right_inj _).mpr ⟨rest, rfl⟩
      · have hlearned : (threadOf call).learn k (.trySend c (msg, false) (some serial)) ok =
            { k with tried := k.tried ++ [(c, ok)] } := rfl
        rw [hlearned]
        refine (ih { k with tried := k.tried ++ [(c, ok)] } hsnapshot ?_).bind ?_
        · rw [← hrest]
          simp
        · rintro _ failed ⟨new, rfl, hnew, hfailed⟩
          refine ⟨(c, ok) :: new, by simp, by rw [List.map_cons, hnew], fun d => ?_⟩
          cases ok with
          | true =>
              change d ∈ failed ↔ _
              rw [hfailed]
              simp
          | false =>
              change d ∈ c :: failed ↔ _
              rw [List.mem_cons, hfailed]
              simp

theorem follows_eraseEach (call : HubCall) (k : Known) {serial : Nat} {clients failed : List ClientId}
    (hcleaning : k.cleaning = some call.target) (hsnapshot : k.snapshot = some (serial, clients))
    (hfailed : ∀ c ∈ failed, c ∈ clients) :
    (threadOf call).Follows
      (fun k' _ => k' = { k with gone := k'.gone } ∧ (∀ c ∈ k.gone, c ∈ k'.gone) ∧
        ∀ c ∈ failed, c ∈ k'.gone) k (eraseEach call.target failed) := by
  induction failed generalizing k with
  | nil => exact ⟨rfl, fun _ => id, fun c hc => absurd hc List.not_mem_nil⟩
  | cons c failed ih =>
      refine ⟨⟨rfl, hcleaning, serial, clients, hsnapshot, hfailed c List.mem_cons_self⟩, fun _ => ?_⟩
      have hlearned : (threadOf call).learn k (.eraseClose call.target c) () =
          { k with gone := c :: k.gone } := rfl
      rw [hlearned]
      refine (ih { k with gone := c :: k.gone } hcleaning hsnapshot
        fun d hd => hfailed d (List.mem_cons_of_mem c hd)).mono ?_
      rintro k' _ ⟨hk', hgone, hall⟩
      refine ⟨hk', fun d hd => hgone d (List.mem_cons_of_mem c hd), fun d hd => ?_⟩
      rcases List.mem_cons.mp hd with rfl | hd
      · exact hgone d List.mem_cons_self
      · exact hall d hd

theorem follows_broadcastToRoom (room : Room) (msg : Bytes) (order : List ClientId) :
    (threadOf (.broadcastToRoom room msg order)).Follows (fun k _ => k.Finished) {}
      (broadcastToRoom room msg order) := by
  refine ⟨⟨rfl, rfl, rfl⟩, fun snapshot => ?_⟩
  cases snapshot with
  | none => rfl
  | some taken =>
      obtain ⟨serial, clients⟩ := taken
      refine (follows_sendEach (.broadcastToRoom room msg order)
        { snapshot := some (serial, clients) } rfl rfl rfl).bind ?_
      rintro _ failed ⟨new, rfl, hnew, hfailed⟩
      dsimp only
      split
      next hnone =>
        refine ⟨hnew, fun c hc => ?_⟩
        have hc' := (hfailed c).mpr hc
        rw [hnone] at hc'
        exact absurd hc' List.not_mem_nil
      next hsome =>
        have hclients : ∀ c ∈ failed, c ∈ clients := fun c hc =>
          hnew ▸ List.mem_map_of_mem (f := Prod.fst) ((hfailed c).mp hc)
        refine ⟨⟨rfl, rfl, rfl⟩, fun found => ?_⟩
        cases found with
        | false => exact ⟨hnew, fun c hc => hclients c ((hfailed c).mpr hc)⟩
        | true =>
            refine (follows_eraseEach (.broadcastToRoom room msg order)
              { snapshot := some (serial, clients), tried := new, cleaning := some room }
              rfl rfl hclients).bind ?_
            rintro k' _ ⟨hk', -, hall⟩
            rw [hk']
            exact ⟨rfl, fun _ => ⟨hnew, fun c hc => hall c ((hfailed c).mpr hc)⟩⟩

theorem follows_hubCall (call : HubCall) :
    (threadOf call).Follows (fun k _ => k.Finished) (threadOf call).start call.program := by
  cases call with
  | serveClient room => exact ⟨rfl, fun c => ⟨rfl, fun _ => ⟨trivial, fun _ => rfl⟩⟩⟩
  | broadcastToRoom room msg order => exact follows_broadcastToRoom room msg order
  | trySend c m => exact ⟨trivial, fun _ => rfl⟩
  | pop c => exact ⟨trivial, fun _ => rfl⟩
  | close c => exact ⟨trivial, fun _ => rfl⟩

end ExamVan.Websocket
