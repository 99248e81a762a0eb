import ExamVan.Websocket.HubRuns

/-!
# Exactly once

What a thread knows is true of the world and stays so: its own steps make it true, and no other
thread adds its client, sends with its number, or lets go of `mu_` for it.
-/

namespace ExamVan.Websocket

variable {w : HubWorld} {call call' : HubCall} {k k' : Known} {c : ClientId} {room : Room} {o : HubOp}
  {serial : Nat} {clients : List ClientId}

/-- The messages of one broadcast that a client has received. -/
def HubWorld.deliveries (w : HubWorld) (serial : Nat) (c : ClientId) : List Receipt :=
  (w.received c).filter fun r => decide (r.serial = some serial)

/-- What a thread knows is so. -/
structure Backed (call : HubCall) (k : Known) (w : HubWorld) : Prop where
  mine : ∀ c b, k.mine = some (c, b) → c < w.created ∧ w.added c = b
  snapshot : ∀ serial clients, k.snapshot = some (serial, clients) →
    serial < w.broadcasts ∧ clients.Nodup ∧
      ∀ c ∈ clients, w.roomOf c = call.target ∧ w.added c = true
  tried : ∀ serial clients, k.snapshot = some (serial, clients) →
    k.tried.map Prod.fst <+: clients
  sent : ∀ serial clients, k.snapshot = some (serial, clients) → ∀ c,
    w.deliveries serial c = if (c, true) ∈ k.tried then [⟨some serial, call.message⟩] else []
  cleaning : ∀ room, k.cleaning = some room → w.cleaning = some room
  gone : ∀ c ∈ k.gone, w.Out c

/-- What two threads know does not overlap. -/
structure Known.Apart (k k' : Known) : Prop where
  mine : ∀ c b b', k.mine = some (c, b) → k'.mine ≠ some (c, b')
  snapshot : ∀ serial clients clients', k.snapshot = some (serial, clients) →
    k'.snapshot ≠ some (serial, clients')
  cleaning : k.cleaning = none ∨ k'.cleaning = none

theorem Known.Apart.symm (h : k.Apart k') : k'.Apart k where
  mine c b b' hc hc' := h.mine c b' b hc' hc
  snapshot serial clients clients' hs hs' := h.snapshot serial clients' clients hs' hs
  cleaning := h.cleaning.symm

theorem Known.apart_start (k : Known) : Known.Apart {} k where
  mine _ _ _ h := by cases h
  snapshot _ _ _ h := by cases h
  cleaning := Or.inl rfl

theorem backed_start (call : HubCall) (w : HubWorld) : Backed call {} w where
  mine _ _ h := by cases h
  snapshot _ _ h := by cases h
  tried _ _ h := by cases h
  sent _ _ h := by cases h
  cleaning _ h := by cases h
  gone _ h := absurd h List.not_mem_nil

/-! ### The steps of others -/

/-- The step is not one of those that change what the thread knows. -/
structure HubOp.Spares (o : HubOp) (k : Known) : Prop where
  mine : ∀ c b, k.mine = some (c, b) → o ≠ .addClient c
  snapshot : ∀ serial clients, k.snapshot = some (serial, clients) →
    ∀ c m, o ≠ .trySend c m (some serial)
  cleaning : ∀ room room', k.cleaning = some room → o ≠ .leaveCleanup room'

/-- Only a step with the number of the broadcast delivers for it. -/
theorem deliveries_perform (ho : ∀ c m, o ≠ .trySend c m (some serial)) (c : ClientId) :
    (o.perform w).2.deliveries serial c = w.deliveries serial c := by
  unfold HubWorld.deliveries
  by_cases hsend : ∃ d m number, o = .trySend d m number
  · obtain ⟨d, m, number, rfl⟩ := hsend
    have hnumber : number ≠ some serial := fun h => ho d m (h ▸ rfl)
    obtain ⟨-, hsent, hrefused⟩ := @trySend_perform w d m number
    cases hanswer : ((HubOp.trySend d m number).perform w).1 with
    | false => rw [hrefused hanswer]
    | true =>
        rw [hsent hanswer]
        by_cases hc : c = d
        · subst hc
          simp [hnumber]
        · simp [hc]
  · rw [received_perform fun d m number h => hsend ⟨d, m, number, h⟩]

theorem Backed.perform (h : Backed call k w) (hok : w.Ok) (hready : o.Ready w) (hdue : o.Due w)
    (hspares : o.Spares k) : Backed call k (o.perform w).2 := by
  have hlater := later_perform hdue
  refine ⟨fun c b hc => ?_, fun serial clients hs => ?_, h.tried, fun serial clients hs c => ?_,
    fun room hroom => ?_, fun c hc => hlater.out (h.gone c hc)⟩
  · obtain ⟨hcreated, hadded⟩ := h.mine c b hc
    refine ⟨Nat.lt_of_lt_of_le hcreated hlater.created, ?_⟩
    by_cases hadd : ∃ d, o = .addClient d
    · obtain ⟨d, rfl⟩ := hadd
      have hne : c ≠ d := fun hcd => hspares.mine c b hc (hcd ▸ rfl)
      exact (Function.update_of_ne hne ..).trans hadded
    · rw [added_perform fun d hd => hadd ⟨d, hd⟩]
      exact hadded
  · obtain ⟨hserial, hnodup, hall⟩ := h.snapshot serial clients hs
    refine ⟨Nat.lt_of_lt_of_le hserial hlater.broadcasts, hnodup, fun c hc => ?_⟩
    obtain ⟨hroom, hadded⟩ := hall c hc
    exact ⟨(hlater.roomOf c (hok.created c hadded)).trans hroom, hlater.added c hadded⟩
  · rw [deliveries_perform (hspares.snapshot serial clients hs)]
    exact h.sent serial clients hs c
  · have hheld := h.cleaning room hroom
    by_cases henter : ∃ room', o = .enterCleanup room'
    · obtain ⟨room', rfl⟩ := henter
      have hfree : w.cleaning = none := hready
      rw [hfree] at hheld
      cases hheld
    · rw [cleaning_perform (fun room' h => henter ⟨room', h⟩)
        fun room' => hspares.cleaning room room' hroom]
      exact hheld

/-- A step that the protocol of a thread allows spares what other threads know. -/
theorem spares_of_allowed (hallowed : (threadOf call).allowed k o) (hapart : k.Apart k') :
    o.Spares k' where
  mine c b hc ho := by
    subst ho
    exact hapart.mine c false b hallowed hc
  snapshot serial clients hs c m ho := by
    subst ho
    obtain ⟨-, clients', hs', -⟩ := hallowed
    exact hapart.snapshot serial clients' clients hs' hs
  cleaning room room' hroom ho := by
    subst ho
    have hmine : k.cleaning = some room' := hallowed
    rcases hapart.cleaning with hnone | hnone
    · rw [hmine] at hnone
      cases hnone
    · rw [hroom] at hnone
      cases hnone

theorem due_of_allowed (hallowed : (threadOf call).allowed k o) (h : Backed call k w) : o.Due w := by
  cases o with
  | addClient c => exact h.mine c false hallowed
  | eraseClose room c => exact h.cleaning room hallowed.2.1
  | leaveCleanup room => exact h.cleaning room hallowed
  | trySend c m serial =>
      cases serial with
      | none => trivial
      | some serial =>
          obtain ⟨-, clients, hs, -⟩ := hallowed
          exact (h.snapshot serial clients hs).1
  | _ => trivial

/-! ### A step of its own -/

/-- A broadcast's snapshot is the room's clients, each once, and has a number of its own. -/
theorem snapshot_perform (w : HubWorld) (room : Room) (order : List ClientId) :
    (w.rooms room = none ∧ (HubOp.snapshot room order).perform w = (none, w)) ∨
      ∃ members clients, w.rooms room = some members ∧ clients.Nodup ∧
        (∀ c, c ∈ clients ↔ c ∈ members) ∧
        (HubOp.snapshot room order).perform w =
          (some (w.broadcasts, clients), { w with broadcasts := w.broadcasts + 1 }) := by
  cases hroom : w.rooms room with
  | none => exact Or.inl ⟨rfl, by simp only [HubOp.perform, hroom]⟩
  | some members =>
      refine Or.inr ⟨members, if order.Perm (members.sort (· ≤ ·)) then order else members.sort (· ≤ ·),
        rfl, ?_, ?_, by simp only [HubOp.perform, hroom]⟩
      · split
        next horder => exact horder.nodup_iff.mpr (Finset.sort_nodup members (· ≤ ·))
        · exact Finset.sort_nodup members (· ≤ ·)
      · intro c
        split
        next horder => exact horder.mem_iff.trans (Finset.mem_sort (· ≤ ·))
        · exact Finset.mem_sort (· ≤ ·)

/-- A `try_send` delivers to its client exactly if it is accepted. -/
theorem deliveries_trySend (m : Queued) (c d : ClientId) :
    ((HubOp.trySend c m (some serial)).perform w).2.deliveries serial d =
      w.deliveries serial d ++
        if d = c ∧ ((HubOp.trySend c m (some serial)).perform w).1 = true then [⟨some serial, m⟩]
        else [] := by
  obtain ⟨-, hsent, hrefused⟩ := @trySend_perform w c m (some serial)
  unfold HubWorld.deliveries
  cases hanswer : ((HubOp.trySend c m (some serial)).perform w).1 with
  | false =>
      rw [hrefused hanswer]
      simp
  | true =>
      rw [hsent hanswer]
      by_cases hd : d = c
      · subst hd
        simp
      · simp [hd]

section

variable (hok : w.Ok)
include hok

theorem backed_create (h : Backed call k w) :
    Backed call { k with mine := some (w.created, false) } ((HubOp.create room).perform w).2 := by
  have hkept := h.perform (o := .create room) hok trivial trivial
    ⟨fun _ _ _ => nofun, fun _ _ _ _ _ => nofun, fun _ _ _ => nofun⟩
  refine { hkept with mine := fun c b hc => ?_ }
  obtain ⟨rfl, rfl⟩ := Prod.mk.inj (Option.some.inj hc)
  refine ⟨Nat.lt_succ_self _, Bool.eq_false_iff.mpr fun hadded => ?_⟩
  exact Nat.lt_irrefl _ (hok.created _ hadded)

theorem backed_addClient (h : Backed call k w) (hfree : w.cleaning = none)
    (hmine : k.mine = some (c, false)) :
    Backed call { k with mine := some (c, true) } ((HubOp.addClient c).perform w).2 := by
  have hforgot : Backed call { k with mine := none } w := { h with mine := nofun }
  have hkept := hforgot.perform (o := .addClient c) hok hfree (h.mine c false hmine)
    ⟨nofun, fun _ _ _ _ _ => nofun, fun _ _ _ => nofun⟩
  refine { hkept with mine := fun d b hd => ?_ }
  obtain ⟨rfl, rfl⟩ := Prod.mk.inj (Option.some.inj hd)
  exact ⟨(h.mine c false hmine).1, Function.update_self ..⟩

theorem backed_snapshot (h : Backed call k w) (hfree : w.cleaning = none) (htried : k.tried = [])
    (order : List ClientId) :
    Backed call { k with snapshot := ((HubOp.snapshot call.target order).perform w).1 }
      ((HubOp.snapshot call.target order).perform w).2 := by
  have hkept := h.perform (o := .snapshot call.target order) hok hfree trivial
    ⟨fun _ _ _ => nofun, fun _ _ _ _ _ => nofun, fun _ _ _ => nofun⟩
  obtain ⟨-, hanswer⟩ | ⟨members, clients, hroom, hnodup, hmem, hanswer⟩ :=
    snapshot_perform w call.target order
  · rw [hanswer] at hkept ⊢
    exact { hkept with snapshot := nofun, tried := nofun, sent := nofun }
  · rw [hanswer] at hkept ⊢
    refine { hkept with snapshot := fun serial clients' hs => ?_,
                        tried := fun _ _ _ => by rw [htried]; exact List.nil_prefix,
                        sent := fun serial clients' hs c => ?_ }
    · obtain ⟨rfl, rfl⟩ := Prod.mk.inj (Option.some.inj hs)
      refine ⟨Nat.lt_succ_self _, hnodup, fun c hc => ?_⟩
      exact hok.ownRoom call.target c ⟨members, hroom, (hmem c).mp hc⟩
    · obtain ⟨rfl, rfl⟩ := Prod.mk.inj (Option.some.inj hs)
      -- the number is new, so nothing has been received with it
      have hnothing : w.deliveries w.broadcasts c = [] := by
        refine List.filter_eq_nil_iff.mpr fun r hr hserial => ?_
        exact Nat.lt_irrefl _ (hok.serials c r hr _ (of_decide_eq_true hserial))
      change w.deliveries w.broadcasts c = if (c, true) ∈ k.tried then _ else []
      rw [hnothing, htried, if_neg List.not_mem_nil]

theorem backed_trySend (h : Backed call k w) (hs : k.snapshot = some (serial, clients))
    (hnew : k.tried.map Prod.fst ++ [c] <+: clients) :
    Backed call
      { k with
        tried := k.tried ++
          [(c, ((HubOp.trySend c call.message (some serial)).perform w).1)] }
      ((HubOp.trySend c call.message (some serial)).perform w).2 := by
  have hforgot : Backed call { k with snapshot := none } w :=
    { h with snapshot := nofun, tried := nofun, sent := nofun }
  obtain ⟨hserial, hnodup, hall⟩ := h.snapshot serial clients hs
  have hkept := hforgot.perform (o := .trySend c call.message (some serial)) hok trivial hserial
    ⟨fun _ _ _ => nofun, nofun, fun _ _ _ => nofun⟩
  have hlater := later_perform (w := w) (o := .trySend c call.message (some serial)) hserial
  refine { hkept with snapshot := fun serial' clients' hs' => ?_, tried := fun serial' clients' hs' => ?_,
                      sent := fun serial' clients' hs' d => ?_ }
  · obtain ⟨hserial', hnodup', hall'⟩ := h.snapshot serial' clients' hs'
    refine ⟨Nat.lt_of_lt_of_le hserial' hlater.broadcasts, hnodup', fun d hd => ?_⟩
    obtain ⟨hroom, hadded⟩ := hall' d hd
    exact ⟨(hlater.roomOf d (hok.created d hadded)).trans hroom, hlater.added d hadded⟩
  · obtain ⟨rfl, rfl⟩ := Prod.mk.inj (Option.some.inj (hs.symm.trans hs'))
    rw [List.map_append]
    exact hnew
  · obtain ⟨rfl, rfl⟩ := Prod.mk.inj (Option.some.inj (hs.symm.trans hs'))
    have hfresh : ∀ b, (c, b) ∉ k.tried := fun b hb => by
      have hdistinct := hnodup.sublist hnew.sublist
      exact (List.nodup_append.mp hdistinct).2.2 c (List.mem_map_of_mem hb) c
        (List.mem_singleton_self c) rfl
    rw [deliveries_trySend, h.sent serial clients hs d]
    by_cases hd : d = c
    · subst hd
      simp [hfresh]
    · simp [hd]

theorem backed_enterCleanup (h : Backed call k w) (hfree : w.cleaning = none) :
    Backed call
      ((threadOf call).learn k (.enterCleanup call.target)
        ((HubOp.enterCleanup call.target).perform w).1)
      ((HubOp.enterCleanup call.target).perform w).2 := by
  have hkept := h.perform (o := .enterCleanup call.target) hok hfree trivial
    ⟨fun _ _ _ => nofun, fun _ _ _ _ _ => nofun, fun _ _ _ => nofun⟩
  by_cases hroom : w.rooms call.target = none
  · have hanswer : (HubOp.enterCleanup call.target).perform w = (false, w) := if_pos hroom
    rw [hanswer] at hkept ⊢
    refine { hkept with gone := fun c hc => ?_ }
    obtain ⟨serial, clients, hs, hc⟩ : ∃ serial clients, k.snapshot = some (serial, clients) ∧ c ∈ clients := by
      change c ∈ (k.snapshot.map Prod.snd).getD [] at hc
      cases hs : k.snapshot with
      | none =>
          rw [hs] at hc
          exact absurd hc List.not_mem_nil
      | some taken =>
          rw [hs] at hc
          exact ⟨taken.1, taken.2, rfl, hc⟩
    obtain ⟨hown, hadded⟩ := (h.snapshot serial clients hs).2.2 c hc
    have hnowhere : ∀ room, ¬ w.rooms.Holds room c := fun room hholds => by
      have hroom' := (hok.ownRoom room c hholds).1
      obtain ⟨members, hmembers, -⟩ := hholds
      rw [← hroom', hown, hroom] at hmembers
      cases hmembers
    exact ⟨hadded, (hok.inRoomOrClosed c hadded).resolve_left (hnowhere _), hnowhere⟩
  · have hanswer : (HubOp.enterCleanup call.target).perform w =
        (true, { w with cleaning := some call.target }) := if_neg hroom
    rw [hanswer] at hkept ⊢
    exact { hkept with cleaning := fun room h => h }

theorem backed_eraseClose (h : Backed call k w) (hcleaning : k.cleaning = some call.target)
    (hs : k.snapshot = some (serial, clients)) (hc : c ∈ clients) :
    Backed call { k with gone := c :: k.gone } ((HubOp.eraseClose call.target c).perform w).2 := by
  have hdue := h.cleaning call.target hcleaning
  have hkept := h.perform (o := .eraseClose call.target c) hok trivial hdue
    ⟨fun _ _ _ => nofun, fun _ _ _ _ _ => nofun, fun _ _ _ => nofun⟩
  obtain ⟨hown, hadded⟩ := (h.snapshot serial clients hs).2.2 c hc
  refine { hkept with gone := fun d hd => ?_ }
  rcases List.mem_cons.mp hd with rfl | hd
  · refine ⟨(congrFun added_shut d).trans hadded, closed_shut.mpr (Or.inr rfl), fun room hroom => ?_⟩
    obtain ⟨hbefore, hne⟩ := Rooms.holds_erase.mp hroom
    exact hne ⟨(hok.ownRoom room d hbefore).1.symm.trans hown, rfl⟩
  · exact hkept.gone d hd

theorem backed_leaveCleanup (h : Backed call k w) (hcleaning : k.cleaning = some room) :
    Backed call { k with cleaning := none } ((HubOp.leaveCleanup room).perform w).2 := by
  have hforgot : Backed call { k with cleaning := none } w := { h with cleaning := nofun }
  exact hforgot.perform (o := .leaveCleanup room) hok trivial (h.cleaning room hcleaning)
    ⟨fun _ _ _ => nofun, fun _ _ _ _ _ => nofun, nofun⟩

/-- A step that the protocol of a thread allows makes true what the thread learns from it. -/
theorem backed_learn (h : Backed call k w) (hallowed : (threadOf call).allowed k o)
    (hready : o.Ready w) :
    Backed call ((threadOf call).learn k o (o.perform w).1) (o.perform w).2 := by
  cases o with
  | create room => exact backed_create hok h
  | addClient c => exact backed_addClient hok h hready hallowed
  | snapshot room order =>
      obtain ⟨-, htried, rfl⟩ := hallowed
      exact backed_snapshot hok h hready htried order
  | trySend c m serial =>
      cases serial with
      | none =>
          exact h.perform hok trivial trivial
            ⟨fun _ _ _ => nofun, fun _ _ _ _ _ => nofun, fun _ _ _ => nofun⟩
      | some serial =>
          obtain ⟨rfl, clients, hs, hnew⟩ := hallowed
          exact backed_trySend hok h hs hnew
  | enterCleanup room =>
      obtain ⟨-, -, rfl⟩ := hallowed
      exact backed_enterCleanup hok h hready
  | eraseClose room c =>
      obtain ⟨rfl, hcleaning, serial, clients, hs, hc⟩ := hallowed
      exact backed_eraseClose hok h hcleaning hs hc
  | leaveCleanup room => exact backed_leaveCleanup hok h hallowed
  | removeClient c =>
      exact h.perform hok hready trivial
        ⟨fun _ _ _ => nofun, fun _ _ _ _ _ => nofun, fun _ _ _ => nofun⟩
  | close c =>
      exact h.perform hok trivial trivial
        ⟨fun _ _ _ => nofun, fun _ _ _ _ _ => nofun, fun _ _ _ => nofun⟩
  | pop c =>
      exact h.perform hok trivial trivial
        ⟨fun _ _ _ => nofun, fun _ _ _ _ _ => nofun, fun _ _ _ => nofun⟩

end

/-- What a thread learns stays apart from what the others know. -/
theorem apart_learn (hapart : k.Apart k') (h' : Backed call' k' w)
    (hallowed : (threadOf call).allowed k o) (hready : o.Ready w) :
    ((threadOf call).learn k o (o.perform w).1).Apart k' := by
  cases o with
  | create room =>
      refine { hapart with mine := fun c b b' hc hc' => ?_ }
      obtain ⟨rfl, -⟩ := Prod.mk.inj (Option.some.inj hc)
      exact Nat.lt_irrefl _ (h'.mine _ b' hc').1
  | addClient c =>
      refine { hapart with mine := fun d b b' hd => ?_ }
      obtain ⟨rfl, -⟩ := Prod.mk.inj (Option.some.inj hd)
      exact hapart.mine c false b' hallowed
  | snapshot room order =>
      refine { hapart with snapshot := fun serial clients clients' hs hs' => ?_ }
      obtain ⟨-, hanswer⟩ | ⟨members, listed, -, -, -, hanswer⟩ := snapshot_perform w room order
      · change ((HubOp.snapshot room order).perform w).1 = _ at hs
        rw [hanswer] at hs
        cases hs
      · change ((HubOp.snapshot room order).perform w).1 = _ at hs
        rw [hanswer] at hs
        obtain ⟨rfl, -⟩ := Prod.mk.inj (Option.some.inj hs)
        exact Nat.lt_irrefl _ (h'.snapshot _ clients' hs').1
  | trySend c m serial =>
      cases serial with
      | none => exact hapart
      | some serial => exact { hapart with }
  | enterCleanup room =>
      have hfree : k'.cleaning = none := by
        refine Option.eq_none_iff_forall_not_mem.mpr fun room' hroom' => ?_
        have hnone : w.cleaning = none := hready
        rw [h'.cleaning room' hroom'] at hnone
        cases hnone
      cases ((HubOp.enterCleanup room).perform w).1 with
      | false => exact { hapart with }
      | true => exact { hapart with cleaning := Or.inr hfree }
  | eraseClose room c => exact { hapart with }
  | leaveCleanup room => exact { hapart with cleaning := Or.inl rfl }
  | _ => exact hapart

/-! ### Every run -/

/-- What a thread has learned from what it has performed. -/
def known (t : HubJob) : Known := (threadOf t.input).knows t.history

/-- The protocol of every thread, and that what it knows is so. -/
def Informed (t : HubJob) (w : HubWorld) : Prop :=
  t.Follows threadOf (fun _ k _ => k.Finished) ∧ Backed t.input (known t) w

theorem ok_initial : HubWorld.Ok {} where
  noneEmpty _ h := by cases h
  ownRoom _ _ h := absurd h Rooms.not_holds_empty
  created _ h := by cases h
  inRoomOrClosed _ h := by cases h
  closedEmpty _ _ := rfl
  queueBound _ := Nat.zero_le _
  queued _ := List.suffix_refl _
  serials _ _ h := absurd h List.not_mem_nil

theorem informed_invariant : hub.Invariant Locked fun s =>
    s.world.Ok ∧ (∀ t ∈ s.threads, Informed t s.world) ∧
      Threads.Compatible (fun t u => (known t).Apart (known u)) s.threads := by
  refine @Threads.invariant_of_compatible _ _ _ _ _ _ _ _ _
    (fun (t : HubJob) w => ∀ o ∈ t.program.op?, o.Ready w) _ (fun h => h.symm)
    (fun {s i t} hguard ht o ho => hguard o ?_) ok_initial
    (fun call w => ⟨follows_hubCall call, backed_start call w⟩)
    (fun call u => Known.apart_start (known u)) fun {t w t' w'} hok ht hready hnext => ?_
  · rw [Job.nextOp, ht]
    exact ho
  · obtain ⟨o, next, hprogram, rfl, rfl⟩ := Job.next?_eq_some hnext
    obtain ⟨hfollows, hbacked⟩ := ht
    rw [Job.Follows, hprogram] at hfollows
    have hop : o.Ready w := hready o (by rw [hprogram]; rfl)
    have hdue := due_of_allowed hfollows.1 hbacked
    have hlearned : known ⟨t.input, next (o.perform w).1, t.history ++ [⟨o, (o.perform w).1⟩]⟩ =
        (threadOf t.input).learn (known t) o (o.perform w).1 := Protocol.knows_append
    refine ⟨ok_perform hok hop hdue, ⟨?_, ?_⟩, fun u hu hapart => ⟨⟨hu.1, ?_⟩, ?_⟩⟩
    · have hthen := hfollows.2 (o.perform w).1
      rw [← Protocol.knows_append] at hthen
      exact hthen
    · rw [hlearned]
      exact backed_learn hok hbacked hfollows.1 hop
    · exact hu.2.perform hok hop hdue (spares_of_allowed hfollows.1 hapart)
    · rw [hlearned]
      exact apart_learn hapart hu.2 hfollows.1 hop

end ExamVan.Websocket
