import ExamVan.Lib.Prog
import ExamVan.Lib.Threads

/-!
# Protocols

What a program knows is what the answers to its operations have taught it. A protocol says which
operation is allowed with which knowledge, so it is checked on one program alone, and then holds of
the job that runs it however it is interleaved with others.
-/

/-!
## Programs side by side

Each input starts a program, and every operation of it is one step on a state that all of them
share. A job keeps the operations that it has performed and their answers.
-/

/-- An operation with its answer. -/
abbrev Event (Op : Type) (Ans : Op → Type) := Σ o : Op, Ans o

/-- A program that has come some way. -/
structure Job (ι Op : Type) (Ans : Op → Type) (α : Type) where
  input : ι
  program : Prog Op Ans α
  history : List (Event Op Ans)

namespace Job

variable {ι Op α σ : Type} {Ans : Op → Type}

def start (program : ι → Prog Op Ans α) (input : ι) : Job ι Op Ans α :=
  ⟨input, program input, []⟩

/-- The next operation of a job, as `perform` answers it. -/
def next? (perform : (o : Op) → σ → Ans o × σ) (t : Job ι Op Ans α) (s : σ) :
    Option (Job ι Op Ans α × σ) :=
  match t.program with
  | .done _ => none
  | .call o next =>
      let answered := perform o s
      some (⟨t.input, next answered.1, t.history ++ [⟨o, answered.1⟩]⟩, answered.2)

/-- All jobs on one state. -/
def system (program : ι → Prog Op Ans α) (perform : (o : Op) → σ → Ans o × σ) (s : σ) :
    System (Threads (Job ι Op Ans α) σ) (Threads.Action ι) :=
  Threads.system (start program) (next? perform) s

variable {perform : (o : Op) → σ → Ans o × σ} {t t' : Job ι Op Ans α} {s s' : σ}

theorem next?_eq_some (h : t.next? perform s = some (t', s')) :
    ∃ o next, t.program = .call o next ∧
      t' = ⟨t.input, next (perform o s).1, t.history ++ [⟨o, (perform o s).1⟩]⟩ ∧
      s' = (perform o s).2 := by
  unfold next? at h
  split at h
  · cases h
  next o next hprogram =>
    obtain ⟨rfl, rfl⟩ := Prod.mk.inj (Option.some.inj h)
    exact ⟨o, next, hprogram, rfl, rfl⟩

theorem next?_of_call {o : Op} {next : Ans o → Prog Op Ans α} (h : t.program = .call o next) :
    t.next? perform s =
      some (⟨t.input, next (perform o s).1, t.history ++ [⟨o, (perform o s).1⟩]⟩,
        (perform o s).2) := by
  unfold next?
  rw [h]

end Job

structure Protocol (Op : Type) (Ans : Op → Type) (κ : Type) where
  start : κ
  learn : κ → (o : Op) → Ans o → κ
  allowed : κ → Op → Prop

namespace Protocol

variable {Op α β κ : Type} {Ans : Op → Type} {P : Protocol Op Ans κ} {post post' : κ → α → Prop}

/-- Whatever is answered, the program performs only what is allowed, and ends with `post`. -/
def Follows (P : Protocol Op Ans κ) (post : κ → α → Prop) : κ → Prog Op Ans α → Prop
  | k, .done a => post k a
  | k, .call o next => P.allowed k o ∧ ∀ a, P.Follows post (P.learn k o a) (next a)

theorem Follows.bind {post' : κ → β → Prop} {k : κ} {p : Prog Op Ans α}
    {f : α → Prog Op Ans β} (hp : P.Follows post k p)
    (hf : ∀ k' a, post k' a → P.Follows post' k' (f a)) : P.Follows post' k (p >>= f) := by
  induction p generalizing k with
  | done a => exact hf k a hp
  | call o next ih => exact ⟨hp.1, fun a => ih a (hp.2 a)⟩

theorem Follows.mono {k : κ} {p : Prog Op Ans α} (hp : P.Follows post k p)
    (himp : ∀ k' a, post k' a → post' k' a) : P.Follows post' k p := by
  induction p generalizing k with
  | done a => exact himp k a hp
  | call o next ih => exact ⟨hp.1, fun a => ih a (hp.2 a)⟩

@[simp]
theorem follows_done {k : κ} {a : α} : P.Follows post k (.done a) ↔ post k a := Iff.rfl

@[simp]
theorem follows_call {k : κ} {o : Op} {next : Ans o → Prog Op Ans α} :
    P.Follows post k (.call o next) ↔
      P.allowed k o ∧ ∀ a, P.Follows post (P.learn k o a) (next a) := Iff.rfl

/-- What some performed operations have taught. -/
def knows (P : Protocol Op Ans κ) (history : List (Event Op Ans)) : κ :=
  history.foldl (fun k e => P.learn k e.1 e.2) P.start

@[simp]
theorem knows_nil : P.knows [] = P.start := rfl

@[simp]
theorem knows_append {history : List (Event Op Ans)} {o : Op} {a : Ans o} :
    P.knows (history ++ [⟨o, a⟩]) = P.learn (P.knows history) o a := by
  simp [knows]

end Protocol

namespace Job

variable {ι Op α κ σ : Type} {Ans : Op → Type} {perform : (o : Op) → σ → Ans o × σ}
  {program : ι → Prog Op Ans α} {t : Job ι Op Ans α} {s s' : Threads (Job ι Op Ans α) σ} {w : σ}
  {i : Nat}

/-- The operation that a step of one job performs. -/
def nextOp (s : Threads (Job ι Op Ans α) σ) (i : Nat) : Option Op :=
  s.threads[i]?.bind fun t => t.program.op?

/-- The job after its next operation. -/
def answered (t : Job ι Op Ans α) (o : Op) (next : Ans o → Prog Op Ans α) (a : Ans o) :
    Job ι Op Ans α := ⟨t.input, next a, t.history ++ [⟨o, a⟩]⟩

/-- A step of a job is its next operation. -/
theorem step?_step (h : (system program perform w).step? s (.step i) = some s') :
    ∃ (t : Job ι Op Ans α) (o : Op) (next : Ans o → Prog Op Ans α), s.threads[i]? = some t ∧
      t.program = .call o next ∧
      s' = ⟨(perform o s.world).2, s.threads.set i (t.answered o next (perform o s.world).1)⟩ := by
  obtain ⟨t, t', w', ht, hnext, rfl⟩ := Threads.step?_step h
  obtain ⟨o, next, hprogram, rfl, rfl⟩ := next?_eq_some hnext
  exact ⟨t, o, next, ht, hprogram, rfl⟩

theorem step?_of_call {o : Op} {next : Ans o → Prog Op Ans α} (ht : s.threads[i]? = some t)
    (hprogram : t.program = .call o next) :
    (system program perform w).step? s (.step i) =
      some ⟨(perform o s.world).2, s.threads.set i (t.answered o next (perform o s.world).1)⟩ := by
  simp only [system, Threads.system, ht, next?_of_call hprogram, Option.map_some]
  rfl

theorem nextOp_of_call {o : Op} {next : Ans o → Prog Op Ans α} (ht : s.threads[i]? = some t)
    (hprogram : t.program = .call o next) : nextOp s i = some o := by
  rw [nextOp, ht, Option.bind_some, hprogram]
  rfl

/-- A job that has a next operation can perform it. -/
theorem exists_step?_of_nextOp {o : Op} (h : nextOp s i = some o) :
    ∃ s', (system program perform w).step? s (.step i) = some s' := by
  obtain ⟨t, ht, ho⟩ := Option.bind_eq_some_iff.mp h
  obtain ⟨next, hprogram⟩ := Prog.op?_eq_some ho
  exact ⟨_, step?_of_call ht hprogram⟩

/-- What the guard demands of every operation that is performed. -/
def Performs (ok : Op → σ → Prop) (s : Threads (Job ι Op Ans α) σ) : Threads.Action ι → Prop
  | .arrive _ => True
  | .step i => ∀ o ∈ nextOp s i, ok o s.world

instance {ok : Op → σ → Prop} [∀ o w, Decidable (ok o w)] (s : Threads (Job ι Op Ans α) σ)
    (a : Threads.Action ι) : Decidable (Performs ok s a) :=
  match a with
  | .arrive _ => isTrue trivial
  | .step i =>
      match h : nextOp s i with
      | none => isTrue fun o ho => by
          rw [h] at ho
          cases ho
      | some o => decidable_of_iff (ok o s.world) (by simp [Performs, h])

/-- If an operation keeps a property of the world exactly where it is `ok`, a run does. `inv` is what
the operations keep that are `ok`. -/
theorem along_iff_guarded {ok : Op → σ → Prop} {inv P : σ → Prop} (hinv : inv w) (hP : P w)
    (hkept : ∀ o w, inv w → ok o w → inv (perform o w).2)
    (hok : ∀ o w, inv w → P w → (ok o w ↔ P (perform o w).2)) (actions : List (Threads.Action ι)) :
    (system program perform w).Along (fun s => P s.world) (system program perform w).initial
        actions ↔
      (system program perform w).Guarded (Performs ok) (system program perform w).initial
        actions := by
  have hinvariant : (system program perform w).Invariant (Performs ok) fun s => inv s.world := by
    refine ⟨hinv, fun {s s' a} hi hguard hstep => ?_⟩
    cases a with
    | arrive input =>
        cases hstep
        exact hi
    | step i =>
        obtain ⟨t, o, next, ht, hprogram, rfl⟩ := step?_step hstep
        exact hkept o s.world hi (hguard o (nextOp_of_call ht hprogram))
  refine hinvariant.along_iff_guarded_of_guard hP fun s a hi hs => ?_
  cases a with
  | arrive input =>
      refine ⟨fun _ s' hstep => ?_, fun _ => trivial⟩
      cases hstep
      exact hs
  | step i =>
      constructor
      · intro hguard s' hstep
        obtain ⟨t, o, next, ht, hprogram, rfl⟩ := step?_step hstep
        exact (hok o s.world hi hs).mp (hguard o (nextOp_of_call ht hprogram))
      · intro hnext o ho
        obtain ⟨t, ht, hop⟩ := Option.bind_eq_some_iff.mp ho
        obtain ⟨next, hprogram⟩ := Prog.op?_eq_some hop
        exact (hok o s.world hi hs).mpr (hnext _ (step?_of_call ht hprogram))

/-- A job keeps to a protocol from its start on. -/
def Follows (P : ι → Protocol Op Ans κ) (post : ι → κ → α → Prop) (t : Job ι Op Ans α) : Prop :=
  (P t.input).Follows (post t.input) ((P t.input).knows t.history) t.program

/-- If every program keeps to its protocol, every job of a run does. -/
theorem follows_of_reachable {P : ι → Protocol Op Ans κ} {post : ι → κ → α → Prop}
    {guard : Threads (Job ι Op Ans α) σ → Threads.Action ι → Prop}
    (hstart : ∀ input, (P input).Follows (post input) (P input).start (program input))
    (hs : (system program perform w).Reachable guard s) :
    ∀ t ∈ s.threads, t.Follows P post := by
  have hinv : (system program perform w).Invariant guard fun s =>
      True ∧ ∀ t ∈ s.threads, t.Follows P post := by
    refine @Threads.invariant _ _ _ _ _ _ _ (fun _ => True)
      (fun (t : Job ι Op Ans α) _ => t.Follows P post) trivial
      (fun input _ => hstart input) fun {t w t' w'} _ hfollows hnext => ?_
    obtain ⟨o, next, hprogram, rfl, -⟩ := next?_eq_some hnext
    refine ⟨trivial, ?_, fun u hu => hu⟩
    rw [Follows, hprogram] at hfollows
    have hthen := hfollows.2 (perform o w).1
    rw [← Protocol.knows_append] at hthen
    exact hthen
  exact (hs.holds hinv).2

end Job
