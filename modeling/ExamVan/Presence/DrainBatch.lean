import ExamVan.Presence.DrainRows

/-!
# One drained batch

What is popped is gone from the queue until it is pushed back. It is settled by the batch if it is
recorded once, rejected behind its own savepoint, or in the queue again, and `Met` says when that is
so for all of a batch. A batch that is pushed back is put behind whatever has come in the meantime.
-/

namespace ExamVan.Presence

open ByteString Queue Helpers

/-! ### The queue -/

/-- In the order of arrival, which is that of the tickets. -/
def Sorted (queue : List Payload) : Prop := (queue.map Payload.ticket).Pairwise (· < ·)

structure Fifo (queue : List Payload) (next : Nat) : Prop where
  sorted : Sorted queue
  bound : ∀ p ∈ queue, p.ticket < next

section

variable {front queue popped : List Payload} {w : DrainWorld} {n : Nat} {texts : List Bytes}
  {steps : List RedisStep} {p q : Payload}

theorem mem_ticketed {first : Nat} (h : p ∈ ticketed first texts) :
    first ≤ p.ticket ∧ p.ticket < first + texts.length := by
  obtain ⟨t, ht, rfl⟩ := List.mem_map.mp h
  have hindex := List.mem_zipIdx ht
  exact ⟨hindex.1, hindex.2.1⟩

theorem sorted_ticketed (first : Nat) (texts : List Bytes) : Sorted (ticketed first texts) := by
  induction texts generalizing first with
  | nil => exact List.Pairwise.nil
  | cons t texts ih =>
      refine List.pairwise_cons.mpr ⟨?_, ih (first + 1)⟩
      intro ticket hticket
      obtain ⟨p, hp, rfl⟩ := List.mem_map.mp hticket
      exact (mem_ticketed hp).1

theorem sorted_append : Sorted (front ++ queue) ↔
    Sorted front ∧ Sorted queue ∧ ∀ p ∈ front, ∀ q ∈ queue, p.ticket < q.ticket := by
  rw [Sorted, List.map_append, List.pairwise_append]
  simp only [List.forall_mem_map]
  rfl

/-- What arrives has the highest tickets. -/
theorem Fifo.arrive (h : Fifo (front ++ w.queue) w.next) (texts : List Bytes) :
    Fifo (front ++ (w.arrive texts).queue) (w.arrive texts).next := by
  have hnew : ∀ p ∈ ticketed w.next texts, w.next ≤ p.ticket ∧ p.ticket < w.next + texts.length :=
    fun p hp => mem_ticketed hp
  have hsame : front ++ (w.arrive texts).queue = (front ++ w.queue) ++ ticketed w.next texts :=
    (List.append_assoc _ _ _).symm
  rw [hsame]
  constructor
  · refine sorted_append.mpr ⟨h.sorted, sorted_ticketed _ _, fun p hp q hq => ?_⟩
    exact lt_of_lt_of_le (h.bound p hp) (hnew q hq).1
  · intro p hp
    rcases List.mem_append.mp hp with hp | hp
    · exact lt_of_lt_of_le (h.bound p hp) (Nat.le_add_right _ _)
    · exact (hnew p hp).2

theorem mem_arrive (h : p ∈ (w.arrive texts).queue) : p ∈ w.queue ∨ w.next ≤ p.ticket :=
  (List.mem_append.mp h).imp_right fun hp => (mem_ticketed hp).1

/-! ### Popping -/

/-- The payloads of a batch and the rest of the queue are what was there and what arrived. -/
structure Popped (w : DrainWorld) (popped : List Payload) (after : DrainWorld) : Prop where
  session : after.session = w.session
  next : w.next ≤ after.next
  kept : ∀ p ∈ w.queue, p ∈ popped ++ after.queue
  origin : ∀ p ∈ popped ++ after.queue, p ∈ w.queue ∨ w.next ≤ p.ticket

theorem popped_popBatch (n : Nat) (steps : List RedisStep) (w : DrainWorld) :
    Popped w (popBatch n steps w).1 (popBatch n steps w).2 := by
  induction n generalizing steps w with
  | zero => exact ⟨rfl, le_refl _, fun p hp => hp, fun p hp => .inl hp⟩
  | succ n ih =>
      have harrived : Popped w [] (w.arrive (steps.headD {}).arrived) :=
        ⟨rfl, Nat.le_add_right _ _, fun p hp => List.mem_append_left (ticketed _ _) hp,
          fun p hp => mem_arrive hp⟩
      rw [popBatch]
      dsimp only
      split
      · split
        next => exact harrived
        next p rest hqueue =>
          have hlater := ih steps.tail { w.arrive (steps.headD {}).arrived with queue := rest }
          refine ⟨hlater.session, harrived.next.trans hlater.next, fun q hq => ?_, fun q hq => ?_⟩
          · have hmem := harrived.kept q hq
            rw [List.nil_append, hqueue] at hmem
            rcases List.mem_cons.mp hmem with rfl | hmem
            · exact List.mem_cons_self
            · exact List.mem_cons_of_mem _ (hlater.kept q hmem)
          · have hback : q ∈ p :: rest ∨ w.next ≤ q.ticket := by
              rcases List.mem_cons.mp hq with rfl | hq
              · exact .inl List.mem_cons_self
              · exact (hlater.origin q hq).imp (List.mem_cons_of_mem _) (harrived.next.trans ·)
            rw [← hqueue] at hback
            exact hback.elim mem_arrive .inr
      · exact harrived

theorem fifo_popBatch (n : Nat) (steps : List RedisStep) (h : Fifo (front ++ w.queue) w.next) :
    Fifo (front ++ ((popBatch n steps w).1 ++ (popBatch n steps w).2.queue))
      (popBatch n steps w).2.next := by
  induction n generalizing steps w front with
  | zero => exact h
  | succ n ih =>
      have harrived := h.arrive (steps.headD {}).arrived
      rw [popBatch]
      dsimp only
      split
      · split
        next => exact harrived
        next p rest hqueue =>
          rw [hqueue, List.append_cons] at harrived
          have hlater := ih (w := { w.arrive (steps.headD {}).arrived with queue := rest })
            steps.tail harrived
          rw [List.append_assoc, List.singleton_append] at hlater
          exact hlater
      · exact harrived

/-! ### Pushing back -/

theorem requeue_session (steps : List RedisStep) (popped : List Payload) (w : DrainWorld) :
    (requeue steps popped w).session = w.session ∧ w.next ≤ (requeue steps popped w).next ∧
      w.queue <+: (requeue steps popped w).queue := by
  induction popped generalizing steps w with
  | nil => exact ⟨rfl, le_refl _, List.prefix_refl _⟩
  | cons p rest ih =>
      rw [requeue]
      split
      · obtain ⟨hsession, hnext, hqueue⟩ := ih steps.tail
          { w.arrive (steps.headD {}).arrived with
            queue := (w.arrive (steps.headD {}).arrived).queue ++ [p] }
        refine ⟨hsession, (Nat.le_add_right _ _).trans hnext, List.IsPrefix.trans ?_ hqueue⟩
        exact (List.prefix_append _ _).trans (List.prefix_append _ _)
      · obtain ⟨hsession, hnext, hqueue⟩ := ih steps.tail (w.arrive (steps.headD {}).arrived)
        exact ⟨hsession, (Nat.le_add_right _ _).trans hnext, (List.prefix_append _ _).trans hqueue⟩

/-- Only the payloads of the batch are pushed back. -/
theorem mem_requeue_iff (hnot : p ∉ popped) (hold : p.ticket < w.next) :
    p ∈ (requeue steps popped w).queue ↔ p ∈ w.queue := by
  induction popped generalizing steps w with
  | nil => rfl
  | cons q rest ih =>
      rw [List.mem_cons, not_or] at hnot
      have harrived : p ∈ (w.arrive (steps.headD {}).arrived).queue ↔ p ∈ w.queue := by
        refine ⟨fun h => (mem_arrive h).resolve_right (Nat.not_le.mpr hold), fun h => ?_⟩
        exact List.mem_append_left _ h
      have hlater : p.ticket < (w.arrive (steps.headD {}).arrived).next :=
        lt_of_lt_of_le hold (Nat.le_add_right _ _)
      rw [requeue]
      split
      · refine (ih hnot.2 ?_).trans ?_
        · exact hlater
        · rw [← harrived, List.mem_append, List.mem_singleton, or_iff_left hnot.1]
      · exact (ih hnot.2 hlater).trans harrived

/-- No `LPUSH` succeeds once there is a payload in the queue that is newer. -/
def Undisturbed : Bool → List RedisStep → List Payload → Prop
  | _, _, [] => True
  | newer, steps, _ :: rest =>
      ((steps.headD {}).ok = true → (newer || (steps.headD {}).arrived ≠ []) = false) ∧
        Undisturbed (newer || (steps.headD {}).arrived ≠ []) steps.tail rest

/-- A batch that is pushed back stands in the order of arrival if it is pushed back in peace. -/
theorem sorted_requeue_iff {newer : Bool} (hqueue : Fifo w.queue w.next) (hpopped : Sorted popped)
    (hbound : ∀ p ∈ popped, p.ticket < w.next)
    (hnewer : newer = true → ∃ q ∈ w.queue, ∀ p ∈ popped, p.ticket < q.ticket)
    (holder : newer = false → ∀ q ∈ w.queue, ∀ p ∈ popped, q.ticket < p.ticket) :
    Sorted (requeue steps popped w).queue ↔ Undisturbed newer steps popped := by
  induction popped generalizing steps w newer with
  | nil => exact iff_of_true hqueue.sorted trivial
  | cons p rest ih =>
      obtain ⟨hfirst, hrest⟩ := List.pairwise_cons.mp hpopped
      obtain ⟨hp, hboundRest⟩ := List.forall_mem_cons.mp hbound
      set arrived := w.arrive (steps.headD {}).arrived with harrived
      have hfifo : Fifo arrived.queue arrived.next :=
        (show Fifo ([] ++ w.queue) w.next from hqueue).arrive (steps.headD {}).arrived
      have hnext : w.next ≤ arrived.next := Nat.le_add_right _ _
      set newer' := newer || decide ((steps.headD {}).arrived ≠ []) with hnewer'
      have hsomeNewer : newer' = true → ∃ q ∈ arrived.queue, ∀ p' ∈ p :: rest,
          p'.ticket < q.ticket := by
        intro h
        rcases Bool.or_eq_true_iff.mp h with h | h
        · obtain ⟨q, hq, hall⟩ := hnewer h
          exact ⟨q, List.mem_append_left _ hq, hall⟩
        · obtain ⟨t, texts, htexts⟩ := List.exists_cons_of_ne_nil (of_decide_eq_true h)
          have hmem : (⟨w.next, t⟩ : Payload) ∈ ticketed w.next (t :: texts) := by simp [ticketed]
          rw [← htexts] at hmem
          exact ⟨⟨w.next, t⟩, List.mem_append_right _ hmem, hbound⟩
      have hsame : newer' = false → newer = false ∧ arrived.queue = w.queue := by
        intro h
        obtain ⟨hno, hnone⟩ := Bool.or_eq_false_iff.mp h
        have hnil : (steps.headD {}).arrived = [] := by simpa using hnone
        refine ⟨hno, ?_⟩
        rw [harrived, hnil]
        simp [DrainWorld.arrive, ticketed]
      rw [requeue, Undisturbed, ← harrived, ← hnewer']
      cases hok : (steps.headD {}).ok with
      | false =>
          simp only [Bool.false_eq_true, if_false, false_implies, true_and]
          refine ih hfifo hrest (fun p' hp' => (hboundRest p' hp').trans_le hnext) ?_ ?_
          · intro h
            obtain ⟨q, hq, hall⟩ := hsomeNewer h
            exact ⟨q, hq, fun p' hp' => hall p' (List.mem_cons_of_mem _ hp')⟩
          · intro h q hq p' hp'
            obtain ⟨hno, hqueueSame⟩ := hsame h
            rw [hqueueSame] at hq
            exact holder hno q hq p' (List.mem_cons_of_mem _ hp')
      | true =>
          simp only [if_true, true_implies]
          cases hdisturbed : newer' with
          | true =>
              simp only [Bool.true_eq_false, false_and, iff_false]
              intro hsorted
              obtain ⟨q, hq, hall⟩ := hsomeNewer hdisturbed
              have hgrows := (requeue_session steps.tail rest
                { arrived with queue := arrived.queue ++ [p] }).2.2
              have hfront := hsorted.sublist (hgrows.sublist.map Payload.ticket)
              have hlt := (sorted_append.mp hfront).2.2 q hq p (List.mem_singleton_self p)
              exact absurd (hall p List.mem_cons_self) (Nat.not_lt.mpr hlt.le)
          | false =>
              obtain ⟨hno, hqueueSame⟩ := hsame hdisturbed
              have hbefore : ∀ q ∈ arrived.queue, q.ticket < p.ticket := by
                intro q hq
                rw [hqueueSame] at hq
                exact holder hno q hq p List.mem_cons_self
              simp only [true_and]
              refine ih ⟨?_, ?_⟩ hrest ?_ ?_ ?_
              · refine sorted_append.mpr ⟨hfifo.sorted, List.pairwise_singleton _ _, ?_⟩
                intro q hq r hr
                rw [List.mem_singleton.mp hr]
                exact hbefore q hq
              · intro q hq
                rcases List.mem_append.mp hq with hq | hq
                · exact hfifo.bound q hq
                · rw [List.mem_singleton.mp hq]
                  exact hp.trans_le hnext
              · exact fun p' hp' => (hboundRest p' hp').trans_le hnext
              · exact fun h => absurd h Bool.false_ne_true
              · intro _ q hq p' hp'
                have hlater : p.ticket < p'.ticket :=
                  hfirst p'.ticket (List.mem_map_of_mem hp')
                rcases List.mem_append.mp hq with hq | hq
                · exact (hbefore q hq).trans hlater
                · rw [List.mem_singleton.mp hq]
                  exact hlater

end

/-! ### The payloads of a batch -/

section

variable {outcomes : List HeartbeatOutcome} {steps : List RedisStep} {payloads : List Payload}
  {e : Entry} {w : DrainWorld}

theorem payload_entries (outcomes : List HeartbeatOutcome) (steps : List RedisStep)
    (payloads : List Payload) : ((entries outcomes steps payloads).map Entry.payload).Sublist payloads := by
  induction payloads generalizing outcomes steps with
  | nil => exact List.Sublist.refl _
  | cons p rest ih =>
      rw [entries]
      cases parseHeartbeatPayload p.text with
      | none => exact (ih outcomes.tail steps.tail).cons p
      | some hb => exact (ih outcomes.tail steps.tail).cons_cons p

theorem mem_of_mem_entries (h : e ∈ entries outcomes steps payloads) : e.payload ∈ payloads :=
  (payload_entries outcomes steps payloads).subset (List.mem_map_of_mem h)

theorem nodup_tickets (h : Sorted payloads) :
    ((entries outcomes steps payloads).map fun e => e.payload.ticket).Nodup := by
  have hsub := ((payload_entries outcomes steps payloads).map Payload.ticket)
  rw [List.map_map] at hsub
  exact (h.sublist hsub).imp fun hlt => hlt.ne

theorem ticket_reports (es : List Entry) (s : Session MonitorDb) :
    (drainEntries es s).1.map RowReport.ticket = es.map fun e => e.payload.ticket := by
  induction es generalizing s with
  | nil => rfl
  | cons e rest ih => simp only [drainEntries, List.map_cons, row_ticket, ih]

/-- A payload is in the queue again if its own `LPUSH` succeeds. -/
theorem payload_mem_requeue_iff (hpayloads : Sorted payloads)
    (hbound : ∀ p ∈ payloads, p.ticket < w.next) (hgone : ∀ p ∈ payloads, p ∉ w.queue)
    (h : e ∈ entries outcomes steps payloads) :
    e.payload ∈ (requeue steps payloads w).queue ↔ e.push.ok = true := by
  induction payloads generalizing outcomes steps w with
  | nil => cases h
  | cons p rest ih =>
      obtain ⟨hfirst, hrest⟩ := List.pairwise_cons.mp hpayloads
      obtain ⟨hp, hboundRest⟩ := List.forall_mem_cons.mp hbound
      obtain ⟨hpGone, hrestGone⟩ := List.forall_mem_cons.mp hgone
      have hpRest : p ∉ rest := fun hmem =>
        absurd (hfirst p.ticket (List.mem_map_of_mem hmem)) (lt_irrefl _)
      set arrived := w.arrive (steps.headD {}).arrived with harrived
      have hnext : w.next ≤ arrived.next := Nat.le_add_right _ _
      have hnot : ∀ q ∈ p :: rest, q ∉ arrived.queue := by
        intro q hq hmem
        exact (mem_arrive hmem).elim (hgone q hq) (Nat.not_le.mpr (hbound q hq))
      rw [requeue, ← harrived]
      have hlater : e ∈ entries outcomes.tail steps.tail rest →
          (e.payload ∈ (requeue steps.tail rest (if (steps.headD {}).ok then
            { arrived with queue := arrived.queue ++ [p] } else arrived)).queue ↔
              e.push.ok = true) := by
        intro he
        refine ih hrest ?_ ?_ he
        · intro q hq
          split <;> exact (hboundRest q hq).trans_le hnext
        · intro q hq
          have hne : q ≠ p := fun h => hpRest (h ▸ hq)
          split
          · simp [hnot q (List.mem_cons_of_mem p hq), hne]
          · exact hnot q (List.mem_cons_of_mem p hq)
      rw [entries] at h
      cases hparse : parseHeartbeatPayload p.text with
      | none =>
          rw [hparse] at h
          exact hlater h
      | some hb =>
          rw [hparse] at h
          rcases List.mem_cons.mp h with rfl | h
          · rw [mem_requeue_iff hpRest]
            · split
              next hok => exact iff_of_true (by simp) hok
              next hok => exact iff_of_false (hnot p List.mem_cons_self) hok
            · split <;> exact hp.trans_le hnext
          · exact hlater h

end

/-! ### What a batch settles -/

namespace Batch

variable (b : Batch)

/-- The payloads that are popped, and the world then. -/
def taken : List Payload × DrainWorld := popBatch kHeartbeatBatchSize b.outcome.pops b.before

def entries : List Entry := Presence.entries b.outcome.rows b.outcome.pushes b.taken.1

/-- The rows of the batch, up to its `COMMIT`. -/
def rows : List RowReport × Session MonitorDb :=
  drainEntries b.entries (b.before.session.begins b.outcome.begins)

/-- The world after the `COMMIT`. -/
def closed : DrainWorld :=
  { b.taken.2 with session := (b.rows.2.commit b.outcome.commits).2 }

/-- A payload is rejected if it had its own savepoint, its row failed and the batch is done. -/
def Rejected (ticket : Nat) : Prop :=
  b.run.acknowledged = true ∧
    ∃ r ∈ b.run.reports, r.ticket = ticket ∧ r.saved = true ∧ r.ok = false

/-- Recorded once, or rejected, or in the queue again. -/
def Settles (e : Entry) : Prop :=
  let before := b.before.session.db.recorded.count e.payload.ticket
  let after := b.run.after.session.db.recorded.count e.payload.ticket
  after = before + 1 ∧ e.payload ∉ b.run.after.queue ∨
    after = before ∧ b.Rejected e.payload.ticket ∧ e.payload ∉ b.run.after.queue ∨
    after = before ∧ e.payload ∈ b.run.after.queue

def Settled : Prop := ∀ e ∈ b.entries, b.Settles e

def InOrder : Prop := Sorted b.run.after.queue

/-- Every well-formed payload is recorded or rejected if the batch is committed, and pushed back if
it is not; a row that has been inserted outside of a transaction must not be pushed back. -/
def SettledIf : Prop :=
  if b.outcome.commits then
    if b.outcome.begins then RowsMet true b.before.session.db b.entries
    else ∀ e ∈ b.entries, e.outcome.insert = true
  else
    ∀ e ∈ b.entries, e.push.ok = (b.outcome.begins || !e.outcome.insert)

def InOrderIf : Prop :=
  b.outcome.commits = true ∨
    Undisturbed (decide (b.taken.2.queue ≠ [])) b.outcome.pushes b.taken.1

def Met : Prop := b.SettledIf ∧ b.InOrderIf

end Batch

/-- The world between two batches. -/
structure Proper (w : DrainWorld) : Prop where
  fifo : Fifo w.queue w.next
  idle : w.session.tx = none

section

variable {b : Batch}

theorem run_popped (b : Batch) : b.run.popped = b.taken.1 := by
  unfold Batch.run drainBatch
  dsimp only
  split
  next h => exact h.symm
  next => rfl

theorem session_taken (b : Batch) : b.taken.2.session = b.before.session :=
  (popped_popBatch _ _ _).session

/-- The world after a batch, also after an empty one. -/
theorem run_after (hidle : b.before.session.tx = none) :
    b.run.reports = b.rows.1 ∧ b.run.after.session = b.closed.session ∧
      b.run.after.queue = (if b.outcome.commits then b.taken.2.queue
        else (requeue b.outcome.pushes b.taken.1 b.closed).queue) ∧
      (b.taken.1 ≠ [] → b.run.acknowledged = b.outcome.commits) ∧
      b.run.after.next = (if b.outcome.commits then b.taken.2.next
        else (requeue b.outcome.pushes b.taken.1 b.closed).next) := by
  have hsession := session_taken b
  by_cases hempty : b.taken.1 = []
  · have hrun : b.run = ⟨[], [], true, b.taken.2⟩ := by
      unfold Batch.run drainBatch
      exact if_pos hempty
    have hrows : b.rows = ([], b.before.session.begins b.outcome.begins) := by
      rw [Batch.rows, Batch.entries, hempty]
      rfl
    have hclosed : b.closed.session = b.before.session := by
      rw [Batch.closed, hrows]
      exact Session.commit_begins hidle b.outcome.begins b.outcome.commits
    rw [hrun, hrows, hclosed, hempty]
    refine ⟨rfl, hsession, ?_, fun h => absurd rfl h, ?_⟩ <;> split <;> rfl
  · have hrows : drainRows b.outcome.rows b.taken.1
        (b.taken.2.session.begins b.outcome.begins) = b.rows := by
      rw [drainRows_eq _ b.outcome.pushes, hsession]
      rfl
    have hrun : b.run = ⟨b.taken.1, b.rows.1, b.outcome.commits,
        if b.outcome.commits then b.closed else requeue b.outcome.pushes b.taken.1 b.closed⟩ := by
      unfold Batch.run drainBatch
      refine (if_neg hempty).trans ?_
      dsimp only
      rw [← Batch.taken, hrows, Session.commit_fst]
      rfl
    obtain ⟨hsame, -⟩ := requeue_session b.outcome.pushes b.taken.1 b.closed
    rw [hrun]
    by_cases hcommits : b.outcome.commits = true
    · rw [if_pos hcommits, if_pos hcommits, if_pos hcommits]
      exact ⟨rfl, rfl, rfl, fun _ => rfl, rfl⟩
    · rw [if_neg hcommits, if_neg hcommits, if_neg hcommits]
      exact ⟨rfl, hsame, rfl, fun _ => rfl, rfl⟩

/-! ### The two conditions -/

theorem fifo_taken (h : Proper b.before) :
    Fifo (b.taken.1 ++ b.taken.2.queue) b.taken.2.next :=
  fifo_popBatch kHeartbeatBatchSize b.outcome.pops
    (show Fifo ([] ++ b.before.queue) b.before.next from h.fifo)

theorem taken_facts (h : Proper b.before) :
    Sorted b.taken.1 ∧ (∀ p ∈ b.taken.1, p.ticket < b.taken.2.next) ∧
      Fifo b.taken.2.queue b.taken.2.next ∧
      ∀ p ∈ b.taken.1, ∀ q ∈ b.taken.2.queue, p.ticket < q.ticket := by
  obtain ⟨hsorted, hbound⟩ := fifo_taken h
  obtain ⟨hpopped, hleft, hbefore⟩ := sorted_append.mp hsorted
  refine ⟨hpopped, fun p hp => hbound p (List.mem_append_left _ hp), ⟨hleft, fun q hq => ?_⟩,
    hbefore⟩
  exact hbound q (List.mem_append_right _ hq)

theorem notMem_left (h : Proper b.before) {p : Payload} (hp : p ∈ b.taken.1) :
    p ∉ b.taken.2.queue := fun hmem =>
  absurd ((taken_facts h).2.2.2 p hp p hmem) (lt_irrefl _)

theorem inOrder_iff (h : Proper b.before) : b.InOrder ↔ b.InOrderIf := by
  obtain ⟨hpopped, hbound, hleft, hbefore⟩ := taken_facts h
  obtain ⟨-, -, hqueue, -, -⟩ := run_after h.idle
  rw [Batch.InOrder, Batch.InOrderIf, hqueue]
  by_cases hcommits : b.outcome.commits = true
  · rw [if_pos hcommits]
    exact iff_of_true hleft.sorted (.inl hcommits)
  · rw [if_neg hcommits, or_iff_right hcommits]
    refine sorted_requeue_iff hleft hpopped hbound ?_ ?_
    · intro hnewer
      obtain ⟨q, rest, hq⟩ := List.exists_cons_of_ne_nil (of_decide_eq_true hnewer)
      have hmem : q ∈ b.taken.2.queue := hq ▸ List.mem_cons_self
      exact ⟨q, hmem, fun p hp => hbefore p hp q hmem⟩
    · intro hnone q hq
      have hnil : b.taken.2.queue = [] := not_not.mp (of_decide_eq_false hnone)
      exact absurd hq (by simp [Batch.closed, hnil])

theorem count_filter_map {α : Type} {l : List α} {f : α → Nat} (hnodup : (l.map f).Nodup)
    (p : α → Bool) {x : α} (hx : x ∈ l) :
    ((l.filter p).map f).count (f x) = if p x then 1 else 0 := by
  have hinj : ∀ y ∈ l, f y = f x → y = x := fun y hy => List.inj_on_of_nodup_map hnodup hy hx
  have hsub : ((l.filter p).map f).Nodup := hnodup.sublist (List.filter_sublist.map f)
  split
  next hpx =>
    exact List.count_eq_one_of_mem hsub (List.mem_map_of_mem (List.mem_filter.mpr ⟨hx, hpx⟩))
  next hpx =>
    rw [List.count_eq_zero]
    intro hmem
    obtain ⟨y, hy, hyx⟩ := List.mem_map.mp hmem
    obtain ⟨hyl, hpy⟩ := List.mem_filter.mp hy
    exact hpx (hinj y hyl hyx ▸ hpy)

/-- The reports of the rows, one for each well-formed payload. -/
theorem report_of_entry {e : Entry} (he : e ∈ b.entries) :
    ∃ r ∈ b.rows.1, r.ticket = e.payload.ticket := by
  have htickets := ticket_reports b.entries (b.before.session.begins b.outcome.begins)
  have hmem : e.payload.ticket ∈ b.rows.1.map RowReport.ticket := by
    rw [Batch.rows, htickets]
    exact List.mem_map_of_mem (f := fun e : Entry => e.payload.ticket) he
  exact List.mem_map.mp hmem

theorem entry_of_report {r : RowReport} (hr : r ∈ b.rows.1) :
    ∃ e ∈ b.entries, e.payload.ticket = r.ticket := by
  have hmem : r.ticket ∈ b.rows.1.map RowReport.ticket := List.mem_map_of_mem hr
  rw [Batch.rows, ticket_reports] at hmem
  exact List.mem_map.mp hmem

theorem nodup_reports (h : Proper b.before) : (b.rows.1.map RowReport.ticket).Nodup := by
  rw [Batch.rows, ticket_reports]
  exact nodup_tickets (taken_facts h).1

theorem settles_of_uncommitted (h : Proper b.before) (hcommits : b.outcome.commits = false)
    {e : Entry} (he : e ∈ b.entries) (gain : Bool)
    (hgain : b.run.after.session.db.recorded.count e.payload.ticket =
      b.before.session.db.recorded.count e.payload.ticket + if gain then 1 else 0) :
    b.Settles e ↔ e.push.ok = !gain := by
  obtain ⟨hpopped, hbound, -, -⟩ := taken_facts h
  obtain ⟨-, -, hqueue, hacknowledged, -⟩ := run_after h.idle
  have hmem := mem_of_mem_entries he
  have hrejected : ¬ b.Rejected e.payload.ticket := by
    rintro ⟨hack, -⟩
    rw [hacknowledged (List.ne_nil_of_mem hmem), hcommits] at hack
    exact absurd hack Bool.false_ne_true
  have hback : e.payload ∈ b.run.after.queue ↔ e.push.ok = true := by
    rw [hqueue, hcommits, if_neg Bool.false_ne_true]
    exact payload_mem_requeue_iff hpopped hbound (fun p hp => notMem_left h hp) he
  unfold Batch.Settles
  rw [hgain, hback]
  cases gain <;> cases e.push.ok <;> simp [hrejected]

/-- Outside of a transaction what is inserted is recorded. -/
theorem count_idle (h : Proper b.before) (hbegins : b.outcome.begins = false) {e : Entry}
    (he : e ∈ b.entries) :
    b.run.after.session.db.recorded.count e.payload.ticket =
      b.before.session.db.recorded.count e.payload.ticket + if e.outcome.insert then 1 else 0 := by
  obtain ⟨-, hsession, -⟩ := run_after h.idle
  obtain ⟨-, db', hafter, hrecorded⟩ := drainEntries_idle b.entries b.before.session.db
  have hdb : b.run.after.session.db = db' := by
    rw [hsession, Batch.closed, Batch.rows, hbegins, Session.begins_idle h.idle,
      if_neg Bool.false_ne_true, hafter]
    rfl
  rw [hdb, hrecorded, List.count_append]
  exact congrArg _ (count_filter_map (nodup_tickets (taken_facts h).1) _ he)

/-- What a transaction leaves in the database. -/
theorem db_open (h : Proper b.before) (hbegins : b.outcome.begins = true) :
    ∃ tx', b.rows.2 = ⟨b.before.session.db, some tx'⟩ ∧
      b.run.after.session.db =
        if b.outcome.commits && !tx'.aborted then tx'.working else b.before.session.db := by
  obtain ⟨-, hsession, -⟩ := run_after h.idle
  have hbegun : b.before.session.begins b.outcome.begins =
      ⟨b.before.session.db, some (Transaction.opened b.before.session.db)⟩ := by
    rw [Session.begins_idle h.idle, hbegins, if_pos rfl]
  obtain ⟨tx', hopen⟩ := openOn_drainEntries b.entries ⟨_, hbegun⟩
  refine ⟨tx', hopen, ?_⟩
  have hrows : b.rows.2 = ⟨b.before.session.db, some tx'⟩ := hopen
  rw [hsession, Batch.closed, hrows]
  cases b.outcome.commits <;> cases htx : tx'.aborted <;>
    simp [Session.commit, Transaction.commit, htx]

/-- What is popped by a committed batch is not in the queue any more. -/
theorem gone_of_committed (h : Proper b.before) (hcommits : b.outcome.commits = true) {e : Entry}
    (he : e ∈ b.entries) :
    e.payload ∉ b.run.after.queue ∧ b.run.acknowledged = true := by
  obtain ⟨-, -, hqueue, hacknowledged, -⟩ := run_after h.idle
  have hmem := mem_of_mem_entries he
  rw [hqueue, if_pos hcommits, hacknowledged (List.ne_nil_of_mem hmem)]
  exact ⟨notMem_left h hmem, hcommits⟩

/-- In a committed transaction every row is settled exactly if the rows meet what they need. -/
theorem settled_iff_rowsMet (h : Proper b.before) (hcommits : b.outcome.commits = true)
    (hbegins : b.outcome.begins = true) :
    b.Settled ↔ RowsMet true b.before.session.db b.entries := by
  obtain ⟨tx', hrows, hdb⟩ := db_open h hbegins
  obtain ⟨hreports, -⟩ := run_after h.idle
  have hbegun : b.before.session.begins b.outcome.begins =
      ⟨b.before.session.db, some ⟨b.before.session.db, [], false⟩⟩ := by
    rw [Session.begins_idle h.idle, hbegins, if_pos rfl]
    rfl
  have hdrained : b.rows =
      drainEntries b.entries ⟨b.before.session.db, some ⟨b.before.session.db, [], false⟩⟩ := by
    rw [Batch.rows, hbegun]
  have hunique : ∀ r ∈ b.rows.1, ∀ r' ∈ b.rows.1, r'.ticket = r.ticket → r' = r :=
    fun r hr r' hr' => List.inj_on_of_nodup_map (nodup_reports h) hr' hr
  rw [hdrained] at hrows
  rw [rowsMet_iff b.entries true hrows, ← hdrained]
  rw [hcommits, Bool.true_and] at hdb
  constructor
  · intro hsettled
    -- a row without a gain has been rejected
    have hfailed : ∀ r ∈ b.rows.1, b.run.after.session.db.recorded.count r.ticket =
        b.before.session.db.recorded.count r.ticket → r.saved = true ∧ r.ok = false := by
      intro r hr hcount
      obtain ⟨e, he, hticket⟩ := entry_of_report hr
      have hgone := (gone_of_committed h hcommits he).1
      rcases hsettled e he with ⟨hgain, -⟩ | ⟨-, ⟨-, r', hr', hsame, hsaved, hok⟩, -⟩ | ⟨-, hback⟩
      · rw [hticket] at hgain
        omega
      · rw [hreports] at hr'
        obtain rfl := hunique r hr r' hr' (hsame.trans hticket)
        exact ⟨hsaved, hok⟩
      · exact absurd hback hgone
    have hsaved : ∀ r ∈ b.rows.1, r.saved = true := by
      intro r hr
      by_contra hno
      refine hno (hfailed r hr ?_).1
      have hunsaved : ∀ r' ∈ b.rows.1, r'.ticket = r.ticket → r'.saved = false := by
        intro r' hr' hsame
        rw [hunique r hr r' hr' hsame]
        exact Bool.not_eq_true _ ▸ hno
      rw [hdrained] at hunsaved
      have hstart : (Session.mk b.before.session.db
          (some ⟨b.before.session.db, [], false⟩)).Holds fun db =>
            db.recorded.count r.ticket = b.before.session.db.recorded.count r.ticket :=
        ⟨rfl, fun tx htx => Option.some.inj htx ▸ ⟨rfl, fun _ hdb => absurd hdb List.not_mem_nil⟩⟩
      have hend := count_drainEntries b.entries ⟨_, rfl⟩ hstart hunsaved
      rw [hrows] at hend
      rw [hdb]
      split
      · exact (hend.tx tx' rfl).working
      · rfl
    refine ⟨hsaved, fun habort => ⟨rfl, fun r hr => (hfailed r hr ?_).2⟩⟩
    rw [hdb, habort]
    rfl
  · rintro ⟨hsaved, hrejected⟩ e he
    obtain ⟨hgone, hacknowledged⟩ := gone_of_committed h hcommits he
    obtain ⟨r, hr, hticket⟩ := report_of_entry he
    have hfail : r.ok = false → b.Rejected e.payload.ticket := fun hok =>
      ⟨hacknowledged, r, hreports ▸ hr, hticket, hsaved r hr, hok⟩
    cases habort : tx'.aborted with
    | true =>
        rw [habort] at hdb
        exact .inr (.inl ⟨by rw [hdb]; rfl, hfail ((hrejected habort).2 r hr), hgone⟩)
    | false =>
        have hrecorded := recorded_of_saved b.entries hrows (hdrained ▸ hsaved) habort
        have hcount : b.run.after.session.db.recorded.count e.payload.ticket =
            b.before.session.db.recorded.count e.payload.ticket + if r.ok then 1 else 0 := by
          rw [hdb, habort, Bool.not_false, if_pos rfl, hrecorded, ← hdrained, List.count_append,
            ← hticket]
          exact congrArg _ (count_filter_map (nodup_reports h) RowReport.ok hr)
        cases hok : r.ok with
        | true =>
            rw [hok] at hcount
            exact .inl ⟨hcount, hgone⟩
        | false =>
            rw [hok] at hcount
            exact .inr (.inl ⟨hcount, hfail hok, hgone⟩)

/-- A batch settles all of its payloads exactly if this holds of what it meets. -/
theorem settled_iff (h : Proper b.before) : b.Settled ↔ b.SettledIf := by
  obtain ⟨hreports, -⟩ := run_after h.idle
  unfold Batch.SettledIf
  cases hcommits : b.outcome.commits with
  | true =>
      rw [if_pos rfl]
      cases hbegins : b.outcome.begins with
      | true => exact settled_iff_rowsMet h hcommits hbegins
      | false =>
          rw [if_neg Bool.false_ne_true]
          refine forall₂_congr fun e he => ?_
          obtain ⟨hgone, -⟩ := gone_of_committed h hcommits he
          have hunsaved : ∀ r ∈ b.rows.1, r.saved = false := by
            rw [Batch.rows, hbegins, Session.begins_idle h.idle, if_neg Bool.false_ne_true]
            exact (drainEntries_idle b.entries b.before.session.db).1
          have hrejected : ¬ b.Rejected e.payload.ticket := by
            rintro ⟨-, r, hr, -, hsaved, -⟩
            rw [hreports] at hr
            exact absurd hsaved (by simp [hunsaved r hr])
          unfold Batch.Settles
          rw [count_idle h hbegins he]
          cases e.outcome.insert <;> simp [hrejected, hgone]
  | false =>
      rw [if_neg Bool.false_ne_true]
      refine forall₂_congr fun e he => ?_
      cases hbegins : b.outcome.begins with
      | true =>
          obtain ⟨tx', -, hdb⟩ := db_open h hbegins
          rw [hcommits] at hdb
          exact settles_of_uncommitted h hcommits he false (by rw [hdb]; rfl)
      | false =>
          exact settles_of_uncommitted h hcommits he _ (count_idle h hbegins he)

end

end ExamVan.Presence
