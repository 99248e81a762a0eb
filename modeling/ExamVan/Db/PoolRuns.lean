import ExamVan.Db.RealPool
import ExamVan.Lib.Ledger

/-!
# Every connection is in one place

What a caller holds is what its own operations have brought it, so each function of the pool is
checked alone: it gives back or closes only what it holds, and ends with nothing. All callers
together then move connections between the places and lose none. The number of open connections has
no bound but the number of callers.
-/

namespace ExamVan.Db

/-! ### What one caller holds -/

/-- The connections that a caller's pointers own. -/
def lending : Protocol PoolOp PoolAns (List Conn) where
  start := []
  learn
    | held, .takeIdle, some c => c :: held
    | held, .connectdb _, some c => c :: held
    | held, .finish c, () => held.erase c
    | held, .putBack c, () => held.erase c
    | held, _, _ => held
  allowed
    | held, .finish c => c ∈ held
    | held, .putBack c => c ∈ held
    | _, _ => True

variable {held : List Conn} {c : Conn}

theorem follows_newConnection (outcome : Connect) :
    lending.Follows (fun held' c => held' = c.toList ++ held) held (newConnection outcome) := by
  refine ⟨trivial, fun answer => ?_⟩
  cases answer with
  | none => rfl
  | some c => rfl

theorem follows_acquire (outcome : Connect) :
    lending.Follows (fun held' c => held' = c.toList ++ held) held (acquire outcome) := by
  simp only [acquire, PoolOp.ask, Prog.op_bind]
  refine ⟨trivial, fun answer => ?_⟩
  cases answer with
  | none => exact follows_newConnection outcome
  | some c => rfl

theorem follows_release (hc : c ∈ held) :
    lending.Follows (fun held' _ => held' = held.erase c) held (release c) := by
  simp only [release, PoolOp.ask, Prog.op_bind]
  refine ⟨trivial, fun ok => ?_⟩
  cases ok with
  | false => exact ⟨hc, fun _ => rfl⟩
  | true => exact ⟨hc, fun _ => rfl⟩

theorem follows_connect (outcome : Connect) :
    lending.Follows (fun held' _ => held' = held) held (connect outcome) := by
  refine (follows_newConnection outcome).bind ?_
  rintro _ opened rfl
  cases opened with
  | none => rfl
  | some c =>
      have herase : (c :: held).erase c = held := List.erase_cons_head _ _
      refine ⟨trivial, fun ok => ?_⟩
      cases ok with
      | false => exact ⟨List.mem_cons_self, fun _ => herase⟩
      | true => exact ⟨List.mem_cons_self, fun _ => herase⟩

theorem follows_finishAll :
    lending.Follows (fun held' _ => held' = []) held (finishAll held) := by
  induction held with
  | nil => rfl
  | cons c rest ih =>
      have herase : (c :: rest).erase c = rest := List.erase_cons_head _ _
      refine ⟨List.mem_cons_self, fun _ => ?_⟩
      change lending.Follows _ ((c :: rest).erase c) _
      rw [herase]
      exact ih

/-- Whatever a caller does, it gives back or closes only what it holds, and in the end holds
nothing. -/
theorem follows_run (caller : Caller Unit) :
    lending.Follows (fun held' _ => held' = []) held (caller.run held) := by
  induction caller generalizing held with
  | done _ => exact follows_finishAll
  | call o next ih =>
      cases o with
      | acquire outcome =>
          refine (follows_acquire outcome).bind ?_
          rintro _ c rfl
          exact ih c
      | connect outcome =>
          refine (follows_connect outcome).bind ?_
          rintro _ ok rfl
          exact ih ok
      | isOk c =>
          rw [Caller.run]
          split
          · exact ⟨trivial, fun ok => ih ok⟩
          · exact ih false
      | release c =>
          rw [Caller.run]
          split
          next hc =>
            refine (follows_release hc).bind ?_
            rintro _ _ rfl
            exact ih ()
          · exact ih ()
      | destroy c =>
          rw [Caller.run]
          split
          next hc => exact ⟨hc, fun _ => ih ()⟩
          · exact ih ()

/-! ### All callers on one pool -/

inductive PoolTask
  | caller (p : Caller Unit)
  /-- what the server or the network does -/
  | breaks (c : Conn)

def PoolTask.program : PoolTask → PoolProg Unit
  | .caller p => p.run []
  | .breaks c => PoolOp.ask (.breakConn c)

abbrev PoolJob := Job PoolTask PoolOp PoolAns Unit

abbrev PoolState := Threads PoolJob PoolWorld

def pool (maxConns : Int) : System PoolState (Threads.Action PoolTask) :=
  Job.system PoolTask.program PoolOp.perform { maxConns }

theorem follows_program (task : PoolTask) :
    lending.Follows (fun held' _ => held' = []) lending.start task.program := by
  cases task with
  | caller p => exact follows_run p
  | breaks c =>
      refine ⟨trivial, fun _ => ?_⟩
      rfl

def heldBy (t : PoolJob) : List Conn := lending.knows t.history

def lent (s : PoolState) : List Conn := s.threads.flatMap heldBy

inductive Place
  | idle
  | lent
  | closed
  deriving DecidableEq

instance : Fintype Place where
  elems := {.idle, .lent, .closed}
  complete place := by cases place <;> decide

def contents (s : PoolState) : Place → List Conn
  | .idle => s.world.idle
  | .lent => lent s
  | .closed => s.world.closed

/-- Every connection ever opened is in exactly one place, once. -/
def Conserved (s : PoolState) : Prop :=
  ∀ c, Ledger.copies (contents s) c = if c < s.world.opened then 1 else 0

theorem Conserved.existsUnique {s : PoolState} (h : Conserved s) (hc : c < s.world.opened) :
    ∃! place, c ∈ contents s place := by
  refine Ledger.existsUnique_of_copies_eq_one ?_
  rw [h c, if_pos hc]

/-- The open connections, idle and lent. -/
def openCount (s : PoolState) : Nat := s.world.idle.length + (lent s).length

def Bounded (s : PoolState) : Prop := (openCount s : Int) ≤ s.world.maxConns

instance : DecidablePred Bounded := fun _ => inferInstanceAs (Decidable (_ ≤ _))

/-! ### One operation -/

/-- What an operation does with the connections of the pool and of the caller, by whether it opens
one. -/
inductive Moved (w w' : PoolWorld) (held held' : List Conn) : Bool → Prop
  | still (hopened : w'.opened = w.opened) (hidle : w'.idle = w.idle)
      (hclosed : w'.closed = w.closed) (hheld : held' = held) : Moved w w' held held' false
  | taken (c : Conn) (hopened : w'.opened = w.opened) (hidle : w.idle = w'.idle ++ [c])
      (hclosed : w'.closed = w.closed) (hheld : held' = c :: held) : Moved w w' held held' false
  | opened (hopened : w'.opened = w.opened + 1) (hidle : w'.idle = w.idle)
      (hclosed : w'.closed = w.closed) (hheld : held' = w.opened :: held) : Moved w w' held held' true
  | returned (c : Conn) (hc : c ∈ held) (hopened : w'.opened = w.opened)
      (hidle : w'.idle = w.idle ++ [c]) (hclosed : w'.closed = w.closed)
      (hheld : held' = held.erase c) : Moved w w' held held' false
  | closed (c : Conn) (hc : c ∈ held) (hopened : w'.opened = w.opened) (hidle : w'.idle = w.idle)
      (hclosed : w'.closed = w.closed ++ [c]) (hheld : held' = held.erase c) :
      Moved w w' held held' false

def PoolOp.opens : PoolOp → Bool
  | .connectdb (.opened _) => true
  | _ => false

theorem maxConns_perform (o : PoolOp) (w : PoolWorld) :
    (o.perform w).2.maxConns = w.maxConns := by
  unfold PoolOp.perform
  split
  · split <;> rfl
  · rfl
  · rfl
  · rfl
  · rfl
  · split <;> rfl
  · rfl

theorem moved_perform {o : PoolOp} (w : PoolWorld) (ho : lending.allowed held o) :
    Moved w (o.perform w).2 held (lending.learn held o (o.perform w).1) o.opens := by
  cases o with
  | takeIdle =>
      cases hlast : w.idle.getLast? with
      | none =>
          have hperform : PoolOp.perform .takeIdle w = (none, w) := by
            simp only [PoolOp.perform, hlast]
          rw [hperform]
          exact .still rfl rfl rfl rfl
      | some c =>
          have hperform : PoolOp.perform .takeIdle w =
              (some c, { w with idle := w.idle.dropLast }) := by
            simp only [PoolOp.perform, hlast]
          rw [hperform]
          exact .taken c rfl (List.dropLast_append_getLast? c hlast).symm rfl rfl
  | connectdb outcome =>
      cases outcome with
      | null => exact .still rfl rfl rfl rfl
      | opened ok => exact .opened rfl rfl rfl rfl
  | status c => exact .still rfl rfl rfl rfl
  | finish c => exact .closed c ho rfl rfl rfl rfl
  | putBack c =>
      by_cases hroom : (w.idle.length : Int) < w.maxConns
      · have hperform : PoolOp.perform (.putBack c) w =
            ((), { w with idle := w.idle ++ [c] }) := if_pos hroom
        rw [hperform]
        exact .returned c ho rfl rfl rfl rfl
      · have hperform : PoolOp.perform (.putBack c) w =
            ((), { w with closed := w.closed ++ [c] }) := if_neg hroom
        rw [hperform]
        exact .closed c ho rfl rfl rfl rfl
  | breakConn c => exact .still rfl rfl rfl rfl

section

variable {w w' : PoolWorld} {held' : List Conn} {new : Bool}

theorem Moved.length_of_opens (h : Moved w w' held held' true) :
    w'.idle.length + held'.length = w.idle.length + held.length + 1 := by
  cases h with
  | opened _ hidle _ hheld =>
      rw [hidle, hheld, List.length_cons]
      omega

theorem Moved.length_le (h : Moved w w' held held' false) :
    w'.idle.length + held'.length ≤ w.idle.length + held.length := by
  cases h with
  | still _ hidle _ hheld => rw [hidle, hheld]
  | taken c _ hidle _ hheld =>
      rw [hidle, hheld, List.length_append, List.length_cons, List.length_singleton]
      omega
  | returned c hc _ hidle _ hheld =>
      have hpos := List.length_pos_of_mem hc
      rw [hidle, hheld, List.length_append, List.length_singleton, List.length_erase_of_mem hc]
      omega
  | closed c hc _ hidle _ hheld =>
      rw [hidle, hheld, List.length_erase_of_mem hc]
      omega

/-- No connection is lost or doubled between the places, and a new one is lent. -/
theorem Moved.conserved {s s' : PoolState} {rest : List Conn}
    (h : Moved s.world s'.world held held' new) (hbefore : (lent s).Perm (held ++ rest))
    (hafter : (lent s').Perm (held' ++ rest)) (hs : Conserved s) : Conserved s' := by
  intro c
  cases h with
  | still hopened hidle hclosed hheld =>
      subst hheld
      rw [hopened, ← hs c]
      refine Ledger.copies_of_perm (fun place => ?_) c
      cases place with
      | idle => exact List.Perm.of_eq hidle
      | lent => exact hafter.trans hbefore.symm
      | closed => exact List.Perm.of_eq hclosed
  | taken d hopened hidle hclosed hheld =>
      subst hheld
      rw [hopened, ← hs c]
      have hsource : (contents s .idle).Perm ([d] ++ contents s' .idle) :=
        (List.Perm.of_eq hidle).trans List.perm_append_comm
      have htarget : (contents s' .lent).Perm ([d] ++ contents s .lent) :=
        hafter.trans (hbefore.symm.append_left [d])
      refine Ledger.copies_of_transfer (by decide) hsource htarget (fun place hne hne' => ?_) c
      cases place with
      | idle => exact absurd rfl hne
      | lent => exact absurd rfl hne'
      | closed => exact hclosed
  | opened hopened hidle hclosed hheld =>
      subst hheld
      have htarget : (contents s' .lent).Perm (s.world.opened :: contents s .lent) :=
        hafter.trans (hbefore.symm.cons _)
      rw [Ledger.copies_of_issue htarget (fun place hne => ?_) c, hs c, hopened]
      · have hone : ∀ m n : Nat, (if m < n then 1 else 0) + (if n = m then 1 else 0) =
            if m < n + 1 then 1 else 0 := by
          intro m n
          split <;> split <;> split <;> omega
        exact hone c s.world.opened
      · cases place with
        | idle => exact hidle
        | lent => exact absurd rfl hne
        | closed => exact hclosed
  | returned d hd hopened hidle hclosed hheld =>
      subst hheld
      rw [hopened, ← hs c]
      have hsource : (contents s .lent).Perm ([d] ++ contents s' .lent) :=
        (hbefore.trans ((List.perm_cons_erase hd).append_right rest)).trans (hafter.symm.cons d)
      have htarget : (contents s' .idle).Perm ([d] ++ contents s .idle) :=
        (List.Perm.of_eq hidle).trans List.perm_append_comm
      refine Ledger.copies_of_transfer (by decide) hsource htarget (fun place hne hne' => ?_) c
      cases place with
      | idle => exact absurd rfl hne'
      | lent => exact absurd rfl hne
      | closed => exact hclosed
  | closed d hd hopened hidle hclosed hheld =>
      subst hheld
      rw [hopened, ← hs c]
      have hsource : (contents s .lent).Perm ([d] ++ contents s' .lent) :=
        (hbefore.trans ((List.perm_cons_erase hd).append_right rest)).trans (hafter.symm.cons d)
      have htarget : (contents s' .closed).Perm ([d] ++ contents s .closed) :=
        (List.Perm.of_eq hclosed).trans List.perm_append_comm
      refine Ledger.copies_of_transfer (by decide) hsource htarget (fun place hne hne' => ?_) c
      cases place with
      | idle => exact hidle
      | lent => exact absurd rfl hne
      | closed => exact absurd rfl hne'

end

/-! ### All runs -/

variable {maxConns : Int} {s s' : PoolState} {i : Nat}

/-- What one step of a caller does to the whole pool. -/
theorem moved_of_step? (hfollows : ∀ t ∈ s.threads,
      t.Follows (fun _ => lending) fun _ held' _ => held' = [])
    (hstep : (pool maxConns).step? s (.step i) = some s') :
    ∃ o held held' rest, Job.nextOp s i = some o ∧ Moved s.world s'.world held held' o.opens ∧
      (lent s).Perm (held ++ rest) ∧ (lent s').Perm (held' ++ rest) ∧
      s'.world.maxConns = s.world.maxConns := by
  obtain ⟨t, o, next, ht, hprogram, rfl⟩ := Job.step?_step hstep
  obtain ⟨rest, hbefore, hafter⟩ := Threads.flatMap_perm_of_getElem? heldBy ht
  have hjob := hfollows t (List.mem_of_getElem? ht)
  rw [Job.Follows, hprogram] at hjob
  have hlearned : heldBy (t.answered o next (o.perform s.world).1) =
      lending.learn (heldBy t) o (o.perform s.world).1 := Protocol.knows_append
  refine ⟨o, heldBy t, _, rest, Job.nextOp_of_call ht hprogram, moved_perform s.world hjob.1,
    hbefore, ?_, maxConns_perform o s.world⟩
  rw [← hlearned]
  exact hafter _

theorem lent_arrive {task : PoolTask} (hstep : (pool maxConns).step? s (.arrive task) = some s') :
    s'.world = s.world ∧ lent s' = lent s := by
  cases hstep
  have hnew : heldBy (Job.start PoolTask.program task) = [] := rfl
  refine ⟨rfl, ?_⟩
  simp only [lent, List.flatMap_append, List.flatMap_cons, List.flatMap_nil, hnew, List.append_nil]

theorem follows_of_reachable (hs : (pool maxConns).Reachable System.anyStep s) :
    ∀ t ∈ s.threads, t.Follows (fun _ => lending) fun _ held' _ => held' = [] :=
  Job.follows_of_reachable follows_program hs

theorem conserved_of_step? {a : Threads.Action PoolTask}
    (hs : (pool maxConns).Reachable System.anyStep s) (hconserved : Conserved s)
    (hstep : (pool maxConns).step? s a = some s') : Conserved s' := by
  cases a with
  | arrive task =>
      obtain ⟨hworld, hlent⟩ := lent_arrive hstep
      have hsame : contents s' = contents s := by
        funext place
        cases place with
        | idle => exact congrArg PoolWorld.idle hworld
        | lent => exact hlent
        | closed => exact congrArg PoolWorld.closed hworld
      intro c
      rw [hsame, hworld]
      exact hconserved c
  | step i =>
      obtain ⟨o, held, held', rest, -, hmoved, hbefore, hafter, -⟩ :=
        moved_of_step? (follows_of_reachable hs) hstep
      exact hmoved.conserved hbefore hafter hconserved

theorem conserved_initial : Conserved (pool maxConns).initial := by
  intro c
  exact Finset.sum_eq_zero fun place _ => by cases place <;> rfl

/-- The next operation of a caller does not open a connection while there are `max_conns`. -/
def OpensBelowMax (s : PoolState) : Threads.Action PoolTask → Prop
  | .arrive _ => True
  | .step i => (Job.nextOp s i).map PoolOp.opens = some true → (openCount s : Int) < s.world.maxConns

theorem openCount_of_step? (hs : (pool maxConns).Reachable System.anyStep s)
    (hstep : (pool maxConns).step? s (.step i) = some s') :
    ∃ o, Job.nextOp s i = some o ∧ s'.world.maxConns = s.world.maxConns ∧
      (o.opens = true → openCount s' = openCount s + 1) ∧
      (o.opens = false → openCount s' ≤ openCount s) := by
  obtain ⟨o, held, held', rest, hnext, hmoved, hbefore, hafter, hmax⟩ :=
    moved_of_step? (follows_of_reachable hs) hstep
  have hlent := hbefore.length_eq
  have hlent' := hafter.length_eq
  rw [List.length_append] at hlent hlent'
  unfold openCount
  refine ⟨o, hnext, hmax, fun hopens => ?_, fun hopens => ?_⟩
  · rw [hopens] at hmoved
    have hlength := hmoved.length_of_opens
    omega
  · rw [hopens] at hmoved
    have hlength := hmoved.length_le
    omega

theorem opensBelowMax_iff {a : Threads.Action PoolTask}
    (hs : (pool maxConns).Reachable System.anyStep s) (hbounded : Bounded s) :
    OpensBelowMax s a ↔ ∀ s' ∈ (pool maxConns).step? s a, Bounded s' := by
  unfold Bounded at hbounded ⊢
  cases a with
  | arrive task =>
      refine ⟨fun _ s' hstep => ?_, fun _ => trivial⟩
      obtain ⟨hworld, hlent⟩ := lent_arrive hstep
      rw [openCount, hworld, hlent]
      exact hbounded
  | step i =>
      constructor
      · intro hbelow s' hstep
        obtain ⟨o, hnext, hmax, hopened, hkept⟩ := openCount_of_step? hs hstep
        rw [hmax]
        cases hopens : o.opens with
        | true =>
            have hroom : (openCount s : Int) < s.world.maxConns :=
              hbelow (by rw [hnext, Option.map_some, hopens])
            have hone := hopened hopens
            omega
        | false =>
            have hle := hkept hopens
            omega
      · intro hkept hopens
        obtain ⟨o, hnext, ho⟩ := Option.map_eq_some_iff.mp hopens
        obtain ⟨s', hstep⟩ : ∃ s', (pool maxConns).step? s (.step i) = some s' :=
          Job.exists_step?_of_nextOp hnext
        obtain ⟨o', hnext', hmax, hopened, -⟩ := openCount_of_step? hs hstep
        obtain rfl := Option.some.inj (hnext.symm.trans hnext')
        have hone := hopened ho
        have hafter := hkept s' hstep
        rw [hmax] at hafter
        omega

theorem conserved_along (maxConns : Int) (actions : List (Threads.Action PoolTask)) :
    (pool maxConns).Along Conserved (pool maxConns).initial actions := by
  have hinv := (System.invariant_reachable (S := pool maxConns)).using conserved_initial
    fun hs hconserved _ hstep => conserved_of_step? hs hconserved hstep
  exact (hinv.along hinv.initial).mono fun s hs => hs.2

/-- In every run every connection is in exactly one place, and there are at most `max_conns` open
ones exactly if no step opens one while there are that many. -/
theorem pool_conserves_and_bounded_iff (maxConns : Int) (actions : List (Threads.Action PoolTask)) :
    (pool maxConns).Along Conserved (pool maxConns).initial actions ∧
      ((pool maxConns).Along (fun s => Conserved s ∧ Bounded s) (pool maxConns).initial actions ↔
        0 ≤ maxConns ∧ (pool maxConns).Guarded OpensBelowMax (pool maxConns).initial actions) := by
  have hconserved := conserved_along maxConns actions
  have hempty : Bounded (pool maxConns).initial ↔ 0 ≤ maxConns := Iff.rfl
  have hbounded : ∀ _ : 0 ≤ maxConns,
      (pool maxConns).Along Bounded (pool maxConns).initial actions ↔
        (pool maxConns).Guarded OpensBelowMax (pool maxConns).initial actions := fun hmax =>
    System.invariant_reachable.along_iff_guarded (hempty.mpr hmax)
      fun s a hs hb => opensBelowMax_iff hs hb
  refine ⟨hconserved, fun h => ?_, fun h => ?_⟩
  · have hmax : 0 ≤ maxConns := hempty.mp h.head.2
    exact ⟨hmax, (hbounded hmax).mp (h.mono fun s hs => hs.2)⟩
  · exact hconserved.and ((hbounded h.1).mpr h.2)

/-! ### A second connection -/

/-- A function of `with_global_pg` that acquires a connection of its own. -/
def nested : Caller Unit := withConnection (.opened true) (pure ())

def nestedTask : PoolTask := .caller do
  let _ ← withGlobalPool (.opened true) (.opened true) nested

/-- One caller alone opens two connections where `max_conns` is one. -/
theorem pool_not_bounded : ¬ ∀ (maxConns : Int) (actions : List (Threads.Action PoolTask)),
    1 ≤ maxConns →
      (pool maxConns).Along (fun s => Conserved s ∧ Bounded s) (pool maxConns).initial actions := by
  intro h
  have hrun := h 1 (.arrive nestedTask :: List.replicate 5 (.step 0)) (by decide)
  have hlast : Bounded _ := (hrun.after (by decide +kernel)).2
  exact absurd hlast (by decide +kernel)

example : openCount ((pool 1).after (.arrive nestedTask :: List.replicate 5 (.step 0))) = 2 := by
  decide +kernel

end ExamVan.Db
