import ExamVan.Presence.DrainBatch

/-!
# A whole drain

Up to twenty batches, one after the other. If each of them settles what it has popped and leaves the
queue in the order of arrival, then so does the whole drain: what a batch pushes back is popped by the
next one or still there at the end.
-/

namespace ExamVan.Presence

open ByteString Queue Helpers

/-! ### What one batch does not touch -/

section

variable {w : DrainWorld} {steps : List RedisStep} {popped : List Payload} {p q : Payload}
  {base : MonitorDb} {s : Session MonitorDb} {b : Batch}

/-- Between two batches, with what is recorded so far. -/
structure Ready (w : DrainWorld) : Prop extends Proper w where
  unrecorded : ∀ p ∈ w.queue, w.session.db.recorded.count p.ticket = 0
  fresh : ∀ t, w.next ≤ t → w.session.db.recorded.count t = 0

theorem mem_requeue (h : p ∈ (requeue steps popped w).queue) :
    p ∈ popped ∨ p ∈ w.queue ∨ w.next ≤ p.ticket := by
  induction popped generalizing steps w with
  | nil => exact .inr (.inl h)
  | cons q rest ih =>
      rw [requeue] at h
      have hback : ∀ {w' : DrainWorld}, (p ∈ w'.queue → p ∈ q :: rest ∨ p ∈ w.queue ∨ w.next ≤ p.ticket) →
          w.next ≤ w'.next → p ∈ (requeue steps.tail rest w').queue →
            p ∈ q :: rest ∨ p ∈ w.queue ∨ w.next ≤ p.ticket := by
        intro w' hqueue hnext hmem
        rcases ih hmem with hrest | hold | hnew
        · exact .inl (List.mem_cons_of_mem q hrest)
        · exact hqueue hold
        · exact .inr (.inr (hnext.trans hnew))
      refine hback (fun hmem => ?_) ?_ h
      · split at hmem
        · rcases List.mem_append.mp hmem with hmem | hmem
          · exact .inr (mem_arrive hmem)
          · exact .inl (List.mem_singleton.mp hmem ▸ List.mem_cons_self)
        · exact .inr (mem_arrive hmem)
      · split <;> exact Nat.le_add_right _ _

theorem bound_requeue (hqueue : ∀ p ∈ w.queue, p.ticket < w.next)
    (hpopped : ∀ p ∈ popped, p.ticket < w.next) :
    ∀ p ∈ (requeue steps popped w).queue, p.ticket < (requeue steps popped w).next := by
  induction popped generalizing steps w with
  | nil => exact hqueue
  | cons q rest ih =>
      obtain ⟨hq, hrest⟩ := List.forall_mem_cons.mp hpopped
      have hnext : w.next ≤ (w.arrive (steps.headD {}).arrived).next := Nat.le_add_right _ _
      have harrived : ∀ p ∈ (w.arrive (steps.headD {}).arrived).queue,
          p.ticket < (w.arrive (steps.headD {}).arrived).next := by
        intro p hp
        rcases List.mem_append.mp hp with hp | hp
        · exact (hqueue p hp).trans_le hnext
        · exact (mem_ticketed hp).2
      rw [requeue]
      refine ih ?_ ?_
      · split
        · intro p hp
          rcases List.mem_append.mp hp with hp | hp
          · exact harrived p hp
          · rw [List.mem_singleton.mp hp]
            exact hq.trans_le hnext
        · exact harrived
      · split <;> exact fun p hp => (hrest p hp).trans_le hnext

theorem holds_drainEntries {es : List Entry} {t n : Nat} (ht : ∀ e ∈ es, e.payload.ticket ≠ t)
    (h : s.Holds fun db => db.recorded.count t = n) :
    (drainEntries es s).2.Holds fun db => db.recorded.count t = n := by
  induction es generalizing s with
  | nil => exact h
  | cons e rest ih =>
      obtain ⟨he, hrest⟩ := List.forall_mem_cons.mp ht
      refine ih hrest (holds_row h (fun db hdb => ?_) fun db hdb => hdb)
      simpa [logStatement, List.count_singleton, he] using hdb

/-- A batch records nothing but its own payloads. -/
theorem count_after (h : Proper b.before) {t : Nat} (ht : ∀ e ∈ b.entries, e.payload.ticket ≠ t) :
    b.run.after.session.db.recorded.count t = b.before.session.db.recorded.count t := by
  obtain ⟨-, hsession, -⟩ := run_after h.idle
  have hstart : b.before.session.Holds fun db =>
      db.recorded.count t = b.before.session.db.recorded.count t :=
    ⟨rfl, fun tx htx => by rw [h.idle] at htx; cases htx⟩
  have hend := (holds_drainEntries ht (hstart.begins b.outcome.begins)).commit b.outcome.commits
  rw [hsession]
  exact hend.db

theorem origin_after (h : Proper b.before) (hp : p ∈ b.run.after.queue) :
    p ∈ b.taken.1 ++ b.taken.2.queue ∨ b.taken.2.next ≤ p.ticket := by
  obtain ⟨-, -, hqueue, -, -⟩ := run_after h.idle
  rw [hqueue] at hp
  split at hp
  · exact .inl (List.mem_append_right _ hp)
  · rcases mem_requeue hp with hp | hp | hp
    · exact .inl (List.mem_append_left _ hp)
    · exact .inl (List.mem_append_right _ hp)
    · exact .inr hp

theorem exists_entry {payloads : List Payload} (hp : p ∈ payloads)
    (hformed : (parseHeartbeatPayload p.text).isSome) (outcomes : List HeartbeatOutcome)
    (steps : List RedisStep) : ∃ e ∈ entries outcomes steps payloads, e.payload = p := by
  induction payloads generalizing outcomes steps with
  | nil => cases hp
  | cons q rest ih =>
      rw [entries]
      rcases List.mem_cons.mp hp with rfl | hp
      · obtain ⟨hb, hparse⟩ := Option.isSome_iff_exists.mp hformed
        rw [hparse]
        exact ⟨_, List.mem_cons_self, rfl⟩
      · obtain ⟨e, he, hpayload⟩ := ih hp outcomes.tail steps.tail
        cases parseHeartbeatPayload q.text with
        | none => exact ⟨e, he, hpayload⟩
        | some hb => exact ⟨e, List.mem_cons_of_mem _ he, hpayload⟩

/-- A payload in the queue after the batch is an entry of it, or has another ticket than all. -/
theorem entry_or_other (h : Proper b.before) (hp : p ∈ b.run.after.queue) :
    (∃ e ∈ b.entries, e.payload = p) ∨ ∀ e ∈ b.entries, e.payload.ticket ≠ p.ticket := by
  by_contra hno
  push Not at hno
  obtain ⟨hother, e, he, hsame⟩ := hno
  have hfifo := fifo_taken h
  have heTaken := List.mem_append_left b.taken.2.queue (mem_of_mem_entries he)
  rcases origin_after h hp with hp | hp
  · exact hother e he (List.inj_on_of_nodup_map (hfifo.sorted.imp fun hlt => hlt.ne) heTaken hp hsame)
  · have hlt := hfifo.bound _ heTaken
    omega

theorem mem_after_of_left (h : Proper b.before) (hp : p ∈ b.taken.2.queue) :
    p ∈ b.run.after.queue := by
  obtain ⟨-, -, hqueue, -, -⟩ := run_after h.idle
  rw [hqueue]
  split
  · exact hp
  · exact (requeue_session b.outcome.pushes b.taken.1 b.closed).2.2.subset hp

/-- A popped payload that is not in the queue has left no other one with its ticket there. -/
theorem ticket_ne_of_gone (h : Proper b.before) (hp : p ∈ b.taken.1)
    (hgone : p ∉ b.run.after.queue) : ∀ q ∈ b.run.after.queue, q.ticket ≠ p.ticket := by
  intro q hq hsame
  have hfifo := fifo_taken h
  have hmem := List.mem_append_left b.taken.2.queue hp
  rcases origin_after h hq with hold | hnew
  · obtain rfl := List.inj_on_of_nodup_map (hfifo.sorted.imp fun hlt => hlt.ne) hold hmem hsame
    exact hgone hq
  · have hlt := hfifo.bound p hmem
    omega

theorem next_after (h : Proper b.before) : b.taken.2.next ≤ b.run.after.next := by
  obtain ⟨-, -, -, -, hnext⟩ := run_after h.idle
  rw [hnext]
  split
  · exact le_refl _
  · exact (requeue_session b.outcome.pushes b.taken.1 b.closed).2.1

theorem proper_after (h : Proper b.before) (horder : b.InOrder) : Proper b.run.after := by
  obtain ⟨-, hbound, hleft, -⟩ := taken_facts h
  obtain ⟨-, hsession, hqueue, -, hnext⟩ := run_after h.idle
  refine ⟨⟨horder, ?_⟩, ?_⟩
  · rw [hqueue, hnext]
    split
    · exact hleft.bound
    · exact bound_requeue hleft.bound hbound
  · rw [hsession]
    exact Session.commit_idle _

theorem unrecorded_taken (h : Ready b.before) : ∀ p ∈ b.taken.1 ++ b.taken.2.queue,
    b.before.session.db.recorded.count p.ticket = 0 := by
  intro p hp
  exact ((popped_popBatch _ _ _).origin p hp).elim (h.unrecorded p) (h.fresh _)

theorem ready_after (h : Ready b.before) (hsettled : b.Settled) (horder : b.InOrder) :
    Ready b.run.after := by
  have hproper := proper_after h.toProper horder
  have hnext := next_after h.toProper
  have hbefore : b.before.next ≤ b.taken.2.next := (popped_popBatch _ _ _).next
  have hzero := unrecorded_taken h
  refine ⟨hproper, fun p hp => ?_, fun t ht => ?_⟩
  · rcases entry_or_other h.toProper hp with ⟨e, he, rfl⟩ | hother
    · have hstart := hzero _ (List.mem_append_left _ (mem_of_mem_entries he))
      rcases hsettled e he with ⟨-, hgone⟩ | ⟨-, -, hgone⟩ | ⟨hsame, -⟩
      · exact absurd hp hgone
      · exact absurd hp hgone
      · rw [hsame, hstart]
    · rw [count_after h.toProper hother]
      rcases origin_after h.toProper hp with hp | hp
      · exact hzero p hp
      · exact h.fresh _ (hbefore.trans hp)
  · rw [count_after h.toProper fun e he => ?_]
    · exact h.fresh t ((hbefore.trans hnext).trans ht)
    · have hlt := (taken_facts h.toProper).2.1 _ (mem_of_mem_entries he)
      omega

end

/-! ### Batch after batch -/

/-- What has become of a payload in the end: recorded once, rejected by a batch, or in the queue. -/
def Accounted (batches : List Batch) (after : DrainWorld) (p : Payload) : Prop :=
  let recorded := after.session.db.recorded.count p.ticket
  recorded = 1 ∧ p ∉ after.queue ∨
    recorded = 0 ∧ (∃ b ∈ batches, b.Rejected p.ticket) ∧ p ∉ after.queue ∨
    recorded = 0 ∧ p ∈ after.queue

section

variable {w : DrainWorld} {outcomes : List DrainOutcome} {n : Nat} {p : Payload}

theorem drainBatches_cons (n : Nat) (outcomes : List DrainOutcome) (w : DrainWorld) :
    ∃ later, drainBatches (n + 1) outcomes w =
        (⟨outcomes.headD {}, w⟩ :: later.1, later.2) ∧
      (later = ([], (Batch.mk (outcomes.headD {}) w).run.after) ∨
        later = drainBatches n outcomes.tail (Batch.mk (outcomes.headD {}) w).run.after) := by
  rw [drainBatches]
  dsimp only
  split
  · exact ⟨_, rfl, .inl rfl⟩
  · exact ⟨_, rfl, .inr rfl⟩

theorem length_drainBatches (n : Nat) (outcomes : List DrainOutcome) (w : DrainWorld) :
    (drainBatches n outcomes w).1.length ≤ n := by
  induction n generalizing outcomes w with
  | zero => exact le_refl _
  | succ n ih =>
      obtain ⟨later, hlater, hrest⟩ := drainBatches_cons n outcomes w
      rw [hlater, List.length_cons]
      rcases hrest with rfl | rfl
      · simp
      · exact Nat.succ_le_succ (ih _ _)

/-- Every batch settles its payloads in order exactly if every batch meets what it needs. -/
theorem settled_drainBatches_iff (n : Nat) (outcomes : List DrainOutcome) (h : Proper w) :
    (∀ b ∈ (drainBatches n outcomes w).1, b.Settled ∧ b.InOrder) ↔
      ∀ b ∈ (drainBatches n outcomes w).1, b.Met := by
  induction n generalizing outcomes w with
  | zero =>
      exact iff_of_true (fun b hb => absurd hb List.not_mem_nil)
        fun b hb => absurd hb List.not_mem_nil
  | succ n ih =>
      obtain ⟨later, hlater, hrest⟩ := drainBatches_cons n outcomes w
      have hbatch : (Batch.mk (outcomes.headD {}) w).Settled ∧
          (Batch.mk (outcomes.headD {}) w).InOrder ↔ (Batch.mk (outcomes.headD {}) w).Met :=
        and_congr (settled_iff h) (inOrder_iff h)
      rw [hlater, List.forall_mem_cons, List.forall_mem_cons, ← hbatch]
      refine and_congr_right fun hfirst => ?_
      rcases hrest with rfl | rfl
      · simp
      · exact ih _ (proper_after h hfirst.2)

theorem proper_drainBatches (n : Nat) (outcomes : List DrainOutcome) (h : Proper w)
    (hsettled : ∀ b ∈ (drainBatches n outcomes w).1, b.Settled ∧ b.InOrder) :
    Proper (drainBatches n outcomes w).2 := by
  induction n generalizing outcomes w with
  | zero => exact h
  | succ n ih =>
      obtain ⟨later, hlater, hrest⟩ := drainBatches_cons n outcomes w
      rw [hlater] at hsettled ⊢
      obtain ⟨hfirst, hothers⟩ := List.forall_mem_cons.mp hsettled
      have hafter := proper_after (b := ⟨outcomes.headD {}, w⟩) h hfirst.2
      rcases hrest with rfl | rfl
      · exact hafter
      · exact ih outcomes.tail hafter hothers

/-- A payload that is in no queue any more stays as it is. -/
theorem frame_drainBatches (n : Nat) (outcomes : List DrainOutcome) (h : Proper w)
    (hsettled : ∀ b ∈ (drainBatches n outcomes w).1, b.Settled ∧ b.InOrder) (hold : p.ticket < w.next)
    (hgone : ∀ q ∈ w.queue, q.ticket ≠ p.ticket) :
    (drainBatches n outcomes w).2.session.db.recorded.count p.ticket =
        w.session.db.recorded.count p.ticket ∧ p ∉ (drainBatches n outcomes w).2.queue := by
  induction n generalizing outcomes w with
  | zero => exact ⟨rfl, fun hmem => hgone p hmem rfl⟩
  | succ n ih =>
      obtain ⟨later, hlater, hrest⟩ := drainBatches_cons n outcomes w
      rw [hlater, List.forall_mem_cons] at hsettled
      rw [hlater]
      obtain ⟨⟨-, horder⟩, hothers⟩ := hsettled
      generalize hb : Batch.mk (outcomes.headD {}) w = b at hrest horder
      obtain rfl : b.before = w := by rw [← hb]
      have hpopped := popped_popBatch kHeartbeatBatchSize b.outcome.pops b.before
      have hnext : b.before.next ≤ b.taken.2.next := hpopped.next
      have htaken : ∀ q ∈ b.taken.1 ++ b.taken.2.queue, q.ticket ≠ p.ticket := by
        intro q hq
        rcases hpopped.origin q hq with hq | hq
        · exact hgone q hq
        · omega
      have hcount := count_after h fun e he =>
        htaken _ (List.mem_append_left _ (mem_of_mem_entries he))
      have hgoneAfter : ∀ q ∈ b.run.after.queue, q.ticket ≠ p.ticket := by
        intro q hq
        rcases origin_after h hq with hq | hq
        · exact htaken q hq
        · omega
      rcases hrest with rfl | rfl
      · exact ⟨hcount, fun hmem => hgoneAfter p hmem rfl⟩
      · have hlast := ih outcomes.tail (proper_after h horder) hothers
          (hold.trans_le (hnext.trans (next_after h))) hgoneAfter
        exact ⟨hlast.1.trans hcount, hlast.2⟩

theorem Accounted.cons {batches : List Batch} {after : DrainWorld} (b : Batch)
    (h : Accounted batches after p) : Accounted (b :: batches) after p :=
  h.imp_right (Or.imp_left fun hrejected =>
    ⟨hrejected.1, hrejected.2.1.imp fun _ hb => hb.imp_left (List.mem_cons_of_mem b),
      hrejected.2.2⟩)

/-- Every well-formed payload that was in the queue or has been popped is accounted for. -/
theorem accounted_drainBatches (n : Nat) (outcomes : List DrainOutcome) (h : Ready w)
    (hsettled : ∀ b ∈ (drainBatches n outcomes w).1, b.Settled ∧ b.InOrder)
    (hformed : (parseHeartbeatPayload p.text).isSome)
    (hp : p ∈ w.queue ∨ ∃ b ∈ (drainBatches n outcomes w).1, p ∈ b.taken.1) :
    Accounted (drainBatches n outcomes w).1 (drainBatches n outcomes w).2 p := by
  induction n generalizing outcomes w with
  | zero =>
      rcases hp with hp | ⟨b, hb, -⟩
      · exact .inr (.inr ⟨h.unrecorded p hp, hp⟩)
      · exact absurd hb List.not_mem_nil
  | succ n ih =>
      obtain ⟨later, hlater, hrest⟩ := drainBatches_cons n outcomes w
      rw [hlater] at hsettled hp ⊢
      obtain ⟨hfirst, hothers⟩ := List.forall_mem_cons.mp hsettled
      generalize hb : Batch.mk (outcomes.headD {}) w = b at hrest hfirst hp ⊢
      obtain rfl : b.before = w := by rw [← hb]
      have hready := ready_after h hfirst.1 hfirst.2
      -- what is in the queue after the first batch is accounted for by the others
      have hkept : p ∈ b.run.after.queue → Accounted (b :: later.1) later.2 p := by
        intro hmem
        refine Accounted.cons b ?_
        rcases hrest with rfl | rfl
        · exact .inr (.inr ⟨hready.unrecorded p hmem, hmem⟩)
        · exact ih outcomes.tail hready hothers (.inl hmem)
      have htaken : p ∈ b.taken.1 → Accounted (b :: later.1) later.2 p := by
        intro hmem
        obtain ⟨e, he, rfl⟩ := exists_entry hmem hformed b.outcome.rows b.outcome.pushes
        have hstart := unrecorded_taken h _ (List.mem_append_left _ hmem)
        have hframe : e.payload ∉ b.run.after.queue →
            later.2.session.db.recorded.count e.payload.ticket =
                b.run.after.session.db.recorded.count e.payload.ticket ∧
              e.payload ∉ later.2.queue := by
          intro hgone
          rcases hrest with rfl | rfl
          · exact ⟨rfl, hgone⟩
          · have hlt := (taken_facts h.toProper).2.1 _ hmem
            exact frame_drainBatches n outcomes.tail hready.toProper hothers
              (hlt.trans_le (next_after h.toProper)) (ticket_ne_of_gone h.toProper hmem hgone)
        rcases hfirst.1 e he with ⟨hcount, hgone⟩ | ⟨hcount, hrejected, hgone⟩ | ⟨-, hback⟩
        · obtain ⟨hsame, hout⟩ := hframe hgone
          exact .inl ⟨by rw [hsame, hcount, hstart], hout⟩
        · obtain ⟨hsame, hout⟩ := hframe hgone
          exact .inr (.inl ⟨by rw [hsame, hcount, hstart],
            ⟨b, List.mem_cons_self, hrejected⟩, hout⟩)
        · exact hkept hback
      rcases hp with hp | ⟨b', hb', hp⟩
      · rcases List.mem_append.mp ((popped_popBatch _ _ _).kept p hp) with hmem | hmem
        · exact htaken hmem
        · exact hkept (mem_after_of_left h.toProper hmem)
      · rcases List.mem_cons.mp hb' with rfl | hb'
        · exact htaken hp
        · rcases hrest with rfl | rfl
          · exact absurd hb' List.not_mem_nil
          · exact (ih outcomes.tail hready hothers (.inr ⟨b', hb', hp⟩)).cons b

end

/-! ### The whole call -/

theorem start_ready (texts : List Bytes) (logs : List AccessRow) (submissions : SubmissionTable) :
    Ready (DrainWorld.start texts logs submissions) where
  fifo := ⟨sorted_ticketed 0 texts, fun p hp => by
    have hlt := (mem_ticketed hp).2
    rwa [Nat.zero_add] at hlt⟩
  idle := rfl
  unrecorded _ _ := rfl
  fresh _ _ := rfl

/-- The payloads that a call has popped are accounted for, and the queue is in order. -/
structure Drained (run : List Batch × DrainWorld) : Prop where
  batches : run.1.length ≤ kHeartbeatMaxBatches
  accounted : ∀ b ∈ run.1, ∀ p ∈ b.run.popped, (parseHeartbeatPayload p.text).isSome →
    Accounted run.1 run.2 p
  inOrder : Sorted run.2.queue

theorem length_drainHeartbeatsOnce (reached : Bool) (outcomes : List DrainOutcome)
    (w : DrainWorld) :
    (drainHeartbeatsOnce reached outcomes w).1.length ≤ kHeartbeatMaxBatches := by
  cases reached with
  | false => exact Nat.zero_le _
  | true => exact length_drainBatches _ _ _

theorem drained_of_settled {reached : Bool} {outcomes : List DrainOutcome} {w : DrainWorld}
    (h : Ready w)
    (hsettled : ∀ b ∈ (drainHeartbeatsOnce reached outcomes w).1, b.Settled ∧ b.InOrder) :
    Drained (drainHeartbeatsOnce reached outcomes w) := by
  refine ⟨length_drainHeartbeatsOnce reached outcomes w, ?_, ?_⟩
  · intro b hb p hp hformed
    rw [run_popped] at hp
    cases reached with
    | false => exact absurd hb List.not_mem_nil
    | true => exact accounted_drainBatches _ outcomes h hsettled hformed (.inr ⟨b, hb, hp⟩)
  · cases reached with
    | false => exact h.fifo.sorted
    | true => exact (proper_drainBatches _ outcomes h.toProper hsettled).fifo.sorted

/-- What a call does with any queue and whatever it meets: in every batch all payloads are settled
and the queue stays in order exactly if the batch meets what it needs, and then nothing is lost. -/
theorem drainHeartbeatsOnce_settled_iff (reached : Bool) (outcomes : List DrainOutcome)
    (texts : List Bytes) (logs : List AccessRow) (submissions : SubmissionTable) :
    let run := drainHeartbeatsOnce reached outcomes (DrainWorld.start texts logs submissions)
    run.1.length ≤ kHeartbeatMaxBatches ∧
      ((∀ b ∈ run.1, b.Settled ∧ b.InOrder) ↔ ∀ b ∈ run.1, b.Met) ∧
      ((∀ b ∈ run.1, b.Met) → Drained run) := by
  have hready := start_ready texts logs submissions
  have hiff : (∀ b ∈ (drainHeartbeatsOnce reached outcomes
      (DrainWorld.start texts logs submissions)).1, b.Settled ∧ b.InOrder) ↔
      ∀ b ∈ (drainHeartbeatsOnce reached outcomes
        (DrainWorld.start texts logs submissions)).1, b.Met := by
    cases reached with
    | false =>
        exact iff_of_true (fun b hb => absurd hb List.not_mem_nil)
          fun b hb => absurd hb List.not_mem_nil
    | true => exact settled_drainBatches_iff _ outcomes hready.toProper
  exact ⟨length_drainHeartbeatsOnce _ _ _, hiff,
    fun hmet => drained_of_settled hready (hiff.mpr hmet)⟩

/-- A first batch that is not full is the only one. -/
theorem drainHeartbeatsOnce_of_short {o : DrainOutcome} {w : DrainWorld}
    (h : (Batch.mk o w).run.popped.length < kHeartbeatBatchSize) :
    drainHeartbeatsOnce true [o] w = ([⟨o, w⟩], (Batch.mk o w).run.after) :=
  if_pos h

def oneHeartbeat : List Bytes := [str "\x7b\"exam_id\":7,\"mac_address\":\"AA:01\"\x7d"]

/-- A batch whose `COMMIT` fails is pushed back. -/
theorem drainHeartbeatsOnce_settled_iff_pushed :
    Drained (drainHeartbeatsOnce true [{ commits := false }]
      (DrainWorld.start oneHeartbeat [] fun _ => none)) := by
  refine (drainHeartbeatsOnce_settled_iff true [{ commits := false }] oneHeartbeat [] _).2.2 ?_
  rw [drainHeartbeatsOnce_of_short (by decide +kernel), List.forall_mem_singleton]
  refine ⟨?_, .inr ⟨?_, trivial⟩⟩
  · unfold Batch.SettledIf
    rw [if_neg Bool.false_ne_true]
    decide +kernel
  · decide +kernel

/-- A savepoint that fails loses the heartbeat: the transaction is aborted, and its `COMMIT` is
answered like any other. -/
theorem not_drained :
    ¬ ∀ reached outcomes texts logs submissions,
      Drained (drainHeartbeatsOnce reached outcomes (DrainWorld.start texts logs submissions)) := by
  intro h
  have hdrained := h true [{ rows := [{ savepoint := false }] }] oneHeartbeat [] fun _ => none
  rw [drainHeartbeatsOnce_of_short (by decide +kernel)] at hdrained
  have haccounted := hdrained.accounted _ (List.mem_singleton_self _)
    ⟨0, str "\x7b\"exam_id\":7,\"mac_address\":\"AA:01\"\x7d"⟩ (by decide +kernel)
    (by decide +kernel)
  revert haccounted
  unfold Accounted Batch.Rejected
  decide +kernel

end ExamVan.Presence
