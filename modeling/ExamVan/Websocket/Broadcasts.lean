import ExamVan.Websocket.Deliveries

/-!
# Broadcasts

What a broadcast has done by the time it returns, and what comes after it. A broadcast that has
returned sends nothing more, and one that begins later has a number that nobody has received yet.
-/

namespace ExamVan.Websocket

variable {w : HubWorld} {c : ClientId} {o : HubOp} {s s' : HubState} {i : Nat}

/-- The rooms, the clients and their queues. -/
structure HubWorld.Clean (w : HubWorld) : Prop where
  noneEmpty : w.cleaning = none → w.rooms.NoneEmpty
  ownRoom : ∀ room c, w.rooms.Holds room c → room = w.roomOf c
  closedEmpty : ∀ c, w.closed c = true → w.queue c = []
  queueBound : ∀ c, (w.queue c).length ≤ maxQueue
  /-- what has not been popped is the end of what has been received -/
  queued : ∀ c, w.queue c <:+ (w.received c).map Receipt.msg

/-- A thread tries the clients of its snapshot in turn and delivers to those that accept. When it
returns, it has tried all of them, and those that did not accept are closed and in no room. -/
structure Delivered (t : HubJob) (w : HubWorld) : Prop where
  distinct : ∀ serial clients, (known t).snapshot = some (serial, clients) → clients.Nodup
  inTurn : ∀ serial clients, (known t).snapshot = some (serial, clients) →
    (known t).tried.map Prod.fst <+: clients
  once : ∀ serial clients, (known t).snapshot = some (serial, clients) → ∀ c,
    w.deliveries serial c =
      if (c, true) ∈ (known t).tried then [⟨some serial, t.input.message⟩] else []
  returned : t.program = .done () → ∀ serial clients,
    (known t).snapshot = some (serial, clients) →
      (known t).tried.map Prod.fst = clients ∧
        ∀ c, (c, false) ∈ (known t).tried → w.Out c

/-- What a step that sends, or that reads a room, does and is answered. -/
structure Answered (s s' : HubState) (i : Nat) : Prop where
  trySend : ∀ c m serial, Job.nextOp s i = some (.trySend c m serial) → ∃ (t : HubJob) (ok : Bool),
    s'.threads[i]? = some t ∧ t.history.getLast? = some ⟨.trySend c m serial, ok⟩ ∧
      (ok = true ↔ s.world.closed c = false ∧ (s.world.queue c).length < maxQueue) ∧
      s'.world.queue =
        Function.update s.world.queue c (s.world.queue c ++ if ok then [m] else []) ∧
      s'.world.received =
        Function.update s.world.received c (s.world.received c ++ if ok then [⟨serial, m⟩] else [])
  snapshot : ∀ room order, Job.nextOp s i = some (.snapshot room order) →
    ∃ (t : HubJob) (answer : Option (Nat × List ClientId)),
      s'.threads[i]? = some t ∧ t.history.getLast? = some ⟨.snapshot room order, answer⟩ ∧
        answer.map (fun taken => taken.2.toFinset) = s.world.rooms room

/-- What holds of a later state. -/
structure Ordered (s s' : HubState) : Prop where
  closed : ∀ c, s.world.closed c = true →
    s'.world.closed c = true ∧ s'.world.received c = s.world.received c
  /-- a broadcast that has returned comes before one that has not taken its snapshot yet -/
  order : ∀ (i j : Nat) (t u : HubJob) serial serial' clients clients', s.threads[i]? = some t →
    t.program = .done () → (known t).snapshot = some (serial, clients) →
    (∀ u₀, s.threads[j]? = some u₀ → (known u₀).snapshot = none) →
    s'.threads[j]? = some u → (known u).snapshot = some (serial', clients') →
      ∀ c, ∃ before after, s'.world.received c = before ++ after ∧
        (∀ r ∈ before, r.serial ≠ some serial') ∧ ∀ r ∈ after, r.serial ≠ some serial

theorem HubWorld.Ok.clean (hok : w.Ok) : w.Clean where
  noneEmpty := noneEmpty_of_free hok
  ownRoom room c hc := (hok.ownRoom room c hc).1.symm
  closedEmpty := hok.closedEmpty
  queueBound := hok.queueBound
  queued := hok.queued

theorem Informed.delivered {t : HubJob} (h : Informed t w) : Delivered t w where
  distinct serial clients hs := (h.2.snapshot serial clients hs).2.1
  inTurn := h.2.tried
  once := h.2.sent
  returned hdone serial clients hs := by
    have hfinished := h.1
    rw [Job.Follows, hdone] at hfinished
    have hboth : (known t).Finished := hfinished
    rw [Known.Finished, hs] at hboth
    exact ⟨hboth.1, fun c hc => h.2.gone c (hboth.2 c hc)⟩

/-! ### One step -/

theorem trySend_appends (w : HubWorld) (c : ClientId) (m : Queued) (serial : Option Nat) :
    ((HubOp.trySend c m serial).perform w).2.queue =
        Function.update w.queue c
          (w.queue c ++ if ((HubOp.trySend c m serial).perform w).1 = true then [m] else []) ∧
      ((HubOp.trySend c m serial).perform w).2.received =
        Function.update w.received c
          (w.received c ++
            if ((HubOp.trySend c m serial).perform w).1 = true then [⟨serial, m⟩] else []) := by
  obtain ⟨-, hsent, hrefused⟩ := @trySend_perform w c m serial
  cases hanswer : ((HubOp.trySend c m serial).perform w).1 with
  | false =>
      rw [hrefused hanswer]
      simp
  | true =>
      rw [hsent hanswer]
      simp

theorem answered_of_step (hstep : hub.step? s (.step i) = some s') : Answered s s' i := by
  obtain ⟨t, o, next, ht, hprogram, rfl⟩ := Job.step?_step hstep
  have hop : Job.nextOp s i = some o := Job.nextOp_of_call ht hprogram
  have hmoved := List.getElem?_set_self (List.getElem?_eq_some_iff.mp ht).1
    (a := t.answered o next (o.perform s.world).1)
  have hlast := List.getLast?_concat (a := (⟨o, (o.perform s.world).1⟩ : Event HubOp HubAns))
    (l := t.history)
  refine ⟨fun c m serial ho => ?_, fun room order ho => ?_⟩
  · obtain rfl := Option.some.inj (hop.symm.trans ho)
    obtain ⟨hqueue, hreceived⟩ := trySend_appends s.world c m serial
    exact ⟨_, _, hmoved, hlast, (trySend_perform m serial).1, hqueue, hreceived⟩
  · obtain rfl := Option.some.inj (hop.symm.trans ho)
    refine ⟨_, _, hmoved, hlast, ?_⟩
    obtain ⟨hroom, hanswer⟩ | ⟨members, clients, hroom, -, hmem, hanswer⟩ :=
      snapshot_perform s.world room order
    · rw [hanswer, hroom]
      rfl
    · rw [hanswer, hroom]
      refine congrArg some (Finset.ext fun c => ?_)
      rw [List.mem_toFinset, hmem]

theorem received_of_closed (hclosed : w.closed c = true) :
    (o.perform w).2.received c = w.received c := by
  by_cases hsend : ∃ d m serial, o = .trySend d m serial
  · obtain ⟨d, m, serial, rfl⟩ := hsend
    rw [(trySend_appends w d m serial).2]
    by_cases hc : c = d
    · subst hc
      have hrefused : ((HubOp.trySend c m serial).perform w).1 ≠ true := fun hok => by
        rw [((trySend_perform m serial).1.mp hok).1] at hclosed
        cases hclosed
      rw [if_neg hrefused, List.append_nil, Function.update_self]
    · exact Function.update_of_ne hc ..
  · rw [received_perform fun d m serial h => hsend ⟨d, m, serial, h⟩]

theorem snapshot_learn {call : HubCall} {k : Known} (ho : ∀ room order, o ≠ .snapshot room order)
    (a : HubAns o) : ((threadOf call).learn k o a).snapshot = k.snapshot := by
  cases o with
  | snapshot room order => exact absurd rfl (ho room order)
  | trySend c m serial => cases serial <;> rfl
  | enterCleanup room =>
      have hanswer : ∀ found : Bool,
          ((threadOf call).learn k (.enterCleanup room) found).snapshot = k.snapshot := fun found => by
        cases found <;> rfl
      exact hanswer a
  | _ => rfl

/-! ### Later states -/

/-- What a state keeps of an earlier one. -/
structure Since (s s' : HubState) : Prop where
  later : s.world.Later s'.world
  closed : ∀ c, s.world.closed c = true → s'.world.received c = s.world.received c
  done : ∀ (i : Nat) (t : HubJob), s.threads[i]? = some t → t.program = .done () → s'.threads[i]? = some t
  numbers : ∀ (j : Nat) (u : HubJob), s'.threads[j]? = some u → ∀ serial clients,
    (known u).snapshot = some (serial, clients) →
      s.world.broadcasts ≤ serial ∨
        ∃ u₀, s.threads[j]? = some u₀ ∧ (known u₀).snapshot = some (serial, clients)

theorem HubWorld.Later.trans {w w' w'' : HubWorld} (h : w.Later w') (h' : w'.Later w'') :
    w.Later w'' where
  created := h.created.trans h'.created
  broadcasts := h.broadcasts.trans h'.broadcasts
  roomOf c hc := (h'.roomOf c (Nat.lt_of_lt_of_le hc h.created)).trans (h.roomOf c hc)
  added c hc := h'.added c (h.added c hc)
  closed c hc := h'.closed c (h.closed c hc)
  holds room c hc hroom := h.holds room c hc (h'.holds room c (h.added c hc) hroom)
  received c := (h.received c).trans (h'.received c)

theorem Since.refl (s : HubState) : Since s s where
  later := .refl s.world
  closed _ _ := rfl
  done _ _ ht _ := ht
  numbers _ u hu _ _ hs := Or.inr ⟨u, hu, hs⟩

theorem Since.arrive (h : Since s s') (call : HubCall) :
    Since s { s' with threads := s'.threads ++ [Job.start HubCall.program call] } where
  later := h.later
  closed := h.closed
  done i t ht hdone := by
    have hold := h.done i t ht hdone
    exact (List.getElem?_append_left (List.getElem?_eq_some_iff.mp hold).1).trans hold
  numbers j u hu serial clients hs := by
    rw [List.getElem?_append] at hu
    split at hu
    · exact h.numbers j u hu serial clients hs
    · rw [List.mem_singleton.mp (List.mem_of_getElem? hu)] at hs
      cases hs

theorem Since.step {s'' : HubState} (h : Since s s') (hinformed : ∀ t ∈ s'.threads, Informed t s'.world)
    (hstep : hub.step? s' (.step i) = some s'') : Since s s'' := by
  obtain ⟨t, o, next, ht, hprogram, rfl⟩ := Job.step?_step hstep
  obtain ⟨hfollows, hbacked⟩ := hinformed t (List.mem_of_getElem? ht)
  rw [Job.Follows, hprogram] at hfollows
  have hlater := later_perform (due_of_allowed hfollows.1 hbacked)
  refine ⟨h.later.trans hlater, fun c hc => ?_, fun j u hu hdone => ?_, fun j u hu serial clients hs => ?_⟩
  · rw [received_of_closed (h.later.closed c hc)]
    exact h.closed c hc
  · have hold := h.done j u hu hdone
    have hne : i ≠ j := fun hij => by
      subst hij
      rw [Option.some.inj (ht.symm.trans hold), hdone] at hprogram
      cases hprogram
    exact (List.getElem?_set_ne hne).trans hold
  · by_cases hij : i = j
    · subst hij
      rw [List.getElem?_set_self (List.getElem?_eq_some_iff.mp ht).1] at hu
      obtain rfl := Option.some.inj hu
      rw [show known (t.answered o next (o.perform s'.world).1) = _ from Protocol.knows_append] at hs
      by_cases hsnap : ∃ room order, o = .snapshot room order
      · obtain ⟨room, order, rfl⟩ := hsnap
        obtain ⟨-, hanswer⟩ | ⟨members, listed, -, -, -, hanswer⟩ :=
          snapshot_perform s'.world room order
        · change ((HubOp.snapshot room order).perform s'.world).1 = _ at hs
          rw [hanswer] at hs
          cases hs
        · change ((HubOp.snapshot room order).perform s'.world).1 = _ at hs
          rw [hanswer] at hs
          obtain ⟨rfl, -⟩ := Prod.mk.inj (Option.some.inj hs)
          exact Or.inl h.later.broadcasts
      · rw [snapshot_learn fun room order ho => hsnap ⟨room, order, ho⟩] at hs
        exact h.numbers i t ht serial clients hs
    · exact h.numbers j u ((List.getElem?_set_ne hij).symm.trans hu) serial clients hs

theorem since_of_reachable (hs : hub.Reachable Locked s)
    (hs' : (hub.startingAt s).Reachable Locked s') : Since s s' := by
  induction hs' with
  | initial => exact .refl s
  | @step s' s'' a hs' _ hstep ih =>
      cases a with
      | arrive call =>
          cases hstep
          exact ih.arrive call
      | step i => exact ih.step ((hs.trans hs').holds informed_invariant).2.1 hstep

theorem ordered_of_reachable (hs : hub.Reachable Locked s)
    (hs' : (hub.startingAt s).Reachable Locked s') : Ordered s s' := by
  have hsince := since_of_reachable hs hs'
  obtain ⟨hok, hinformed, -⟩ := hs.holds informed_invariant
  have hinformed' := ((hs.trans hs').holds informed_invariant).2.1
  refine ⟨fun c hc => ⟨hsince.later.closed c hc, hsince.closed c hc⟩, ?_⟩
  intro i j t u serial serial' clients clients' ht hdone htaken hnone hu hutaken c
  obtain ⟨after, hafter⟩ := hsince.later.received c
  refine ⟨s.world.received c, after, hafter.symm, fun r hr hserial => ?_, fun r hr hserial => ?_⟩
  · -- what has been received by then has a smaller number
    have hnew : s.world.broadcasts ≤ serial' := by
      rcases hsince.numbers j u hu serial' clients' hutaken with h | ⟨u₀, hu₀, htaken₀⟩
      · exact h
      · rw [hnone u₀ hu₀] at htaken₀
        cases htaken₀
    exact Nat.lt_irrefl _ (Nat.lt_of_lt_of_le (hok.serials c r hr serial' hserial) hnew)
  · -- the broadcast that has returned has delivered all that it ever will
    have hbefore := (hinformed t (List.mem_of_getElem? ht)).2.sent serial clients htaken c
    have hthen := hsince.done i t ht hdone
    have hnow := (hinformed' t (List.mem_of_getElem? hthen)).2.sent serial clients htaken c
    have hsame : s'.world.deliveries serial c = s.world.deliveries serial c := hnow.trans hbefore.symm
    have hmem : r ∈ after.filter fun r => decide (r.serial = some serial) :=
      List.mem_filter.mpr ⟨hr, decide_eq_true hserial⟩
    rw [HubWorld.deliveries, ← hafter, List.filter_append] at hsame
    rw [List.append_right_eq_self.mp hsame] at hmem
    exact List.not_mem_nil hmem

/-- Two clients join a room, one of them is closed by its connection, and messages are sent. -/
def joinedRun : List (Threads.Action HubCall) :=
  [.arrive (.serveClient [65]), .step 0, .step 0, .arrive (.serveClient [65]), .step 1, .step 1,
    .arrive (.trySend 0 ([1], false)), .step 2, .step 0, .arrive (.broadcastToRoom [66] [2] [1]),
    .step 3, .arrive (.trySend 0 ([3], false)), .step 4, .arrive (.trySend 1 ([4], false)), .step 5]

end ExamVan.Websocket
