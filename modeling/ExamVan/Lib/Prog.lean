import Mathlib.Tactic.TypeStar

/-!
# Programs over operations

A program performs operations one after the other and goes on by their answers. A world answers an
operation by what has been performed before it. Two worlds that answer alike wherever a program
looks give the same run: that is what it means that the program reads nothing else.
-/

/-- A program: it is done, or performs an operation and goes on by the answer. -/
inductive Prog (Op : Type) (Ans : Op → Type) (α : Type)
  | done (a : α)
  | call (op : Op) (next : Ans op → Prog Op Ans α)

namespace Prog

variable {Op : Type} {Ans : Op → Type} {α β : Type}

def bind (p : Prog Op Ans α) (f : α → Prog Op Ans β) : Prog Op Ans β :=
  match p with
  | done a => f a
  | call op next => call op fun a => (next a).bind f

instance : Monad (Prog Op Ans) where
  pure := done
  bind := bind

instance decidableDone (p : Prog Op Ans α) : Decidable (∃ a, p = done a) :=
  match p with
  | done a => isTrue ⟨a, rfl⟩
  | call _ _ => isFalse fun ⟨_, h⟩ => by cases h

/-- The result of a program that is done. -/
def result? : Prog Op Ans α → Option α
  | done a => some a
  | call _ _ => none

theorem result?_eq_some {p : Prog Op Ans α} {a : α} : p.result? = some a ↔ p = done a := by
  cases p <;> simp [result?]

/-- The operation that a program performs next. -/
def op? : Prog Op Ans α → Option Op
  | done _ => none
  | call o _ => some o

theorem op?_eq_some {p : Prog Op Ans α} {o : Op} (h : p.op? = some o) :
    ∃ next, p = call o next := by
  cases p with
  | done a => cases h
  | call o' next =>
      obtain rfl := Option.some.inj h
      exact ⟨next, rfl⟩

/-- The program of one operation. -/
def op (o : Op) : Prog Op Ans (Ans o) := call o done

/-- What operations answer, by the operations performed before. -/
abbrev World (Op : Type) (Ans : Op → Type) := List Op → (o : Op) → Ans o

/-- A run after some operations: all operations performed in the end, and the result. -/
def run (w : World Op Ans) (past : List Op) : Prog Op Ans α → List Op × α
  | done a => (past, a)
  | call o next => run w (past ++ [o]) (next (w past o))

theorem subset_run (w : World Op Ans) (past : List Op) (p : Prog Op Ans α) :
    past ⊆ (p.run w past).1 := by
  induction p generalizing past with
  | done a => exact List.Subset.refl past
  | call o next ih => exact fun o' ho' => ih _ _ (List.mem_append_left [o] ho')

@[simp]
theorem pure_eq (a : α) : (pure a : Prog Op Ans α) = done a := rfl

@[simp]
theorem done_bind (a : α) (f : α → Prog Op Ans β) : (done a >>= f) = f a := rfl

@[simp]
theorem call_bind (o : Op) (next : Ans o → Prog Op Ans α) (f : α → Prog Op Ans β) :
    (call o next >>= f) = call o fun a => next a >>= f := rfl

@[simp]
theorem op_bind (o : Op) (f : Ans o → Prog Op Ans β) : (op o >>= f) = call o f := rfl

/-- A run on a state, with no other program in between. -/
def runOn {σ : Type} (perform : (o : Op) → σ → Ans o × σ) : Prog Op Ans α → σ → α × σ
  | done a, s => (a, s)
  | call o next, s => (next (perform o s).1).runOn perform (perform o s).2

@[simp]
theorem runOn_done {σ : Type} (perform : (o : Op) → σ → Ans o × σ) (a : α) (s : σ) :
    (done a : Prog Op Ans α).runOn perform s = (a, s) := rfl

@[simp]
theorem runOn_call {σ : Type} (perform : (o : Op) → σ → Ans o × σ) (o : Op)
    (next : Ans o → Prog Op Ans α) (s : σ) :
    (call o next).runOn perform s = (next (perform o s).1).runOn perform (perform o s).2 := rfl

theorem runOn_bind {σ : Type} (perform : (o : Op) → σ → Ans o × σ) (p : Prog Op Ans α)
    (f : α → Prog Op Ans β) (s : σ) :
    (p >>= f).runOn perform s = (f (p.runOn perform s).1).runOn perform (p.runOn perform s).2 := by
  induction p generalizing s with
  | done a => rfl
  | call o next ih => exact ih _ _

/-! ### Operations that throw -/

/-- A run that ends with the first operation that throws. -/
def attempt {σ : Type} (perform : (o : Op) → σ → Option (Ans o) × σ) :
    Prog Op Ans α → σ → Option α × σ
  | done a, s => (some a, s)
  | call o next, s =>
      match perform o s with
      | (none, s') => (none, s')
      | (some a, s') => (next a).attempt perform s'

section

variable {σ : Type} {perform : (o : Op) → σ → Option (Ans o) × σ} {o : Op} {s s' : σ}
  {next : Ans o → Prog Op Ans α}

@[simp]
theorem attempt_done (a : α) : (done a : Prog Op Ans α).attempt perform s = (some a, s) := rfl

theorem attempt_call_none (h : perform o s = (none, s')) :
    (call o next).attempt perform s = (none, s') := by
  rw [attempt, h]

theorem attempt_call_some {a : Ans o} (h : perform o s = (some a, s')) :
    (call o next).attempt perform s = (next a).attempt perform s' := by
  rw [attempt, h]

theorem attempt_bind_none {p : Prog Op Ans α} {f : α → Prog Op Ans β}
    (h : p.attempt perform s = (none, s')) : (p >>= f).attempt perform s = (none, s') := by
  induction p generalizing s with
  | done a => cases h
  | call o next ih =>
      rw [call_bind]
      rcases hperform : perform o s with ⟨_ | a, s₁⟩
      · rw [attempt_call_none hperform] at h ⊢
        cases h
        rfl
      · rw [attempt_call_some hperform] at h ⊢
        exact ih a h

theorem attempt_bind_some {p : Prog Op Ans α} {f : α → Prog Op Ans β} {a : α}
    (h : p.attempt perform s = (some a, s')) :
    (p >>= f).attempt perform s = (f a).attempt perform s' := by
  induction p generalizing s with
  | done a =>
      cases h
      rfl
  | call o next ih =>
      rw [call_bind]
      rcases hperform : perform o s with ⟨_ | b, s₁⟩
      · rw [attempt_call_none hperform] at h
        cases h
      · rw [attempt_call_some hperform] at h ⊢
        exact ih b h

end

/-! ### The operations a program can perform -/

/-- Every operation that the program can perform satisfies `P`. -/
def All (P : Op → Prop) : Prog Op Ans α → Prop
  | done _ => True
  | call o next => P o ∧ ∀ a, (next a).All P

variable {P Q : Op → Prop}

@[simp]
theorem all_done (a : α) : (done a : Prog Op Ans α).All P := trivial

@[simp]
theorem all_call {o : Op} {next : Ans o → Prog Op Ans α} :
    (call o next).All P ↔ P o ∧ ∀ a, (next a).All P := Iff.rfl

@[simp]
theorem all_op {o : Op} : (op o : Prog Op Ans (Ans o)).All P ↔ P o := by
  simp [op]

@[simp]
theorem all_ite {c : Prop} [Decidable c] {p q : Prog Op Ans α} :
    (if c then p else q).All P ↔ (c → p.All P) ∧ (¬c → q.All P) := by
  split <;> simp [*]

theorem All.op_bind {o : Op} {f : Ans o → Prog Op Ans α} (ho : P o) (hf : ∀ a, (f a).All P) :
    (op o >>= f).All P := ⟨ho, hf⟩

theorem All.bind {p : Prog Op Ans α} {f : α → Prog Op Ans β} (hp : p.All P)
    (hf : ∀ a, (f a).All P) : (p >>= f).All P := by
  induction p with
  | done a => exact hf a
  | call o next ih => exact ⟨hp.1, fun a => ih a (hp.2 a)⟩

theorem All.mono {p : Prog Op Ans α} (hp : p.All P) (h : ∀ o, P o → Q o) : p.All Q := by
  induction p with
  | done => trivial
  | call o next ih => exact ⟨h o hp.1, fun a => ih a (hp.2 a)⟩

/-- What a run performs satisfies what all of the program's operations do. -/
theorem All.of_mem_run {p : Prog Op Ans α} {w : World Op Ans} {past : List Op} (hp : p.All P)
    (hpast : ∀ o ∈ past, P o) : ∀ o ∈ (p.run w past).1, P o := by
  induction p generalizing past with
  | done a => exact hpast
  | call o next ih =>
      refine ih _ (hp.2 _) ?_
      intro o' ho'
      rcases List.mem_append.mp ho' with ho' | ho'
      · exact hpast o' ho'
      · exact List.mem_singleton.mp ho' ▸ hp.1

/-! ### Two runs side by side -/

/-- Two programs that perform the same operations and end alike, as long as their answers are
related. -/
inductive Lockstep (R : (o : Op) → Ans o → Ans o → Prop) : Prog Op Ans α → Prog Op Ans α → Prop
  | done (a : α) : Lockstep R (done a) (done a)
  | call (o : Op) (next next' : Ans o → Prog Op Ans α)
      (h : ∀ a a', R o a a' → Lockstep R (next a) (next' a')) :
      Lockstep R (call o next) (call o next')

variable {R : (o : Op) → Ans o → Ans o → Prop}

theorem run_eq_of_lockstep {p p' : Prog Op Ans α} {w w' : World Op Ans} {past : List Op}
    (h : Lockstep R p p') (hw : ∀ past o, R o (w past o) (w' past o)) :
    p.run w past = p'.run w' past := by
  induction h generalizing past with
  | done a => rfl
  | call o next next' _ ih => exact ih _ _ (hw past o)

/-- A program runs in step with itself if all its operations are answered alike. -/
theorem lockstep_self {p : Prog Op Ans α} (hp : p.All fun o => ∀ a a', R o a a' → a = a') :
    Lockstep R p p := by
  induction p with
  | done a => exact .done a
  | call o next ih =>
      refine .call o next next fun a a' ha => ?_
      obtain rfl := hp.1 a a' ha
      exact ih a (hp.2 a)

end Prog
