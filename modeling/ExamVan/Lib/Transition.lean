import Mathlib.Data.List.Basic
import Mathlib.Init

/-!
# Transition systems with guarded runs

A system is a partial step function: an action names everything that is not determined by the
state, the thread that moves and what its surroundings answer. A run is guarded when every step of
it meets a condition on the state it starts from and on its action. The unguarded runs are those of
the guard that always holds.
-/

/-- A transition system: one initial state and a partial step function. -/
structure System (σ α : Type*) where
  initial : σ
  step? : σ → α → Option σ

namespace System

variable {σ α : Type*} {S : System σ α} {guard guard' : σ → α → Prop} {s s' : σ} {a : α}

/-- The states of the runs whose steps all meet the guard. -/
inductive Reachable (S : System σ α) (guard : σ → α → Prop) : σ → Prop
  | initial : Reachable S guard S.initial
  | step {s s' : σ} {a : α} (hreach : Reachable S guard s) (hguard : guard s a)
      (hstep : S.step? s a = some s') : Reachable S guard s'

/-- The guard of every run. -/
def anyStep : σ → α → Prop := fun _ _ => True

/-- An invariant for the runs under a guard. -/
structure Invariant (S : System σ α) (guard : σ → α → Prop) (inv : σ → Prop) : Prop where
  initial : inv S.initial
  step : ∀ {s s' a}, inv s → guard s a → S.step? s a = some s' → inv s'

theorem Reachable.holds {inv : σ → Prop} (hinv : S.Invariant guard inv)
    (hreach : S.Reachable guard s) : inv s := by
  induction hreach with
  | initial => exact hinv.initial
  | step _ hguard hstep ih => exact hinv.step ih hguard hstep

theorem Reachable.mono (himp : ∀ s a, guard s a → guard' s a)
    (hreach : S.Reachable guard s) : S.Reachable guard' s := by
  induction hreach with
  | initial => exact .initial
  | step _ hguard hstep ih => exact .step ih (himp _ _ hguard) hstep

theorem Reachable.any (hreach : S.Reachable guard s) : S.Reachable anyStep s :=
  hreach.mono fun _ _ _ => trivial

/-- An invariant that needs other invariants to be preserved. -/
theorem Invariant.using {inv known : σ → Prop} (hknown : S.Invariant guard known)
    (hinitial : inv S.initial)
    (hstep : ∀ {s s' a}, known s → inv s → guard s a → S.step? s a = some s' → inv s') :
    S.Invariant guard fun s => known s ∧ inv s where
  initial := ⟨hknown.initial, hinitial⟩
  step := fun ⟨hk, hi⟩ hguard hs => ⟨hknown.step hk hguard hs, hstep hk hi hguard hs⟩

theorem invariant_reachable : S.Invariant guard (S.Reachable guard) where
  initial := .initial
  step := .step

/-- The same system from another state on. -/
def startingAt (S : System σ α) (s : σ) : System σ α := { S with initial := s }

theorem Reachable.trans (hs : S.Reachable guard s) (hs' : (S.startingAt s).Reachable guard s') :
    S.Reachable guard s' := by
  induction hs' with
  | initial => exact hs
  | step _ hguard hstep ih => exact .step ih hguard hstep

/-- The state after a list of actions, if each of them can be taken. -/
def run? (S : System σ α) : σ → List α → Option σ
  | s, [] => some s
  | s, a :: rest => (S.step? s a).bind fun s' => S.run? s' rest

/-- What the guard demands of the steps of one list of actions. -/
def Guarded (S : System σ α) (guard : σ → α → Prop) : σ → List α → Prop
  | _, [] => True
  | s, a :: rest => guard s a ∧ ∀ s' ∈ S.step? s a, S.Guarded guard s' rest

theorem Reachable.run {actions : List α} (hreach : S.Reachable guard s)
    (hguarded : S.Guarded guard s actions) (hrun : S.run? s actions = some s') :
    S.Reachable guard s' := by
  induction actions generalizing s with
  | nil =>
      cases hrun
      exact hreach
  | cons a rest ih =>
      obtain ⟨mid, hstep, hrest⟩ := Option.bind_eq_some_iff.mp hrun
      exact ih (.step hreach hguarded.1 hstep) (hguarded.2 mid hstep) hrest

theorem run?_append {first rest : List α} :
    S.run? s (first ++ rest) = (S.run? s first).bind fun mid => S.run? mid rest := by
  induction first generalizing s with
  | nil => rfl
  | cons a first ih =>
      simp only [List.cons_append, run?, Option.bind_assoc]
      congr 1
      funext s'
      exact ih

theorem Guarded.left {first rest : List α} (h : S.Guarded guard s (first ++ rest)) :
    S.Guarded guard s first := by
  induction first generalizing s with
  | nil => trivial
  | cons a first ih => exact ⟨h.1, fun s' hs' => ih (h.2 s' hs')⟩

theorem guarded_anyStep (actions : List α) (s : σ) : S.Guarded anyStep s actions := by
  induction actions generalizing s with
  | nil => trivial
  | cons a rest ih => exact ⟨trivial, fun s' _ => ih s'⟩

instance decidableGuarded [∀ s a, Decidable (guard s a)] :
    ∀ (s : σ) (actions : List α), Decidable (S.Guarded guard s actions)
  | _, [] => isTrue trivial
  | s, a :: rest =>
      match hstep : S.step? s a with
      | none => decidable_of_iff (guard s a) (by simp [Guarded, hstep])
      | some s' =>
          have := decidableGuarded s' rest
          decidable_of_iff (guard s a ∧ S.Guarded guard s' rest) (by simp [Guarded, hstep])

/-- A property of every state of one list of actions, the first one included. -/
def Along (S : System σ α) (P : σ → Prop) : σ → List α → Prop
  | s, [] => P s
  | s, a :: rest => P s ∧ ∀ s' ∈ S.step? s a, S.Along P s' rest

variable {P : σ → Prop}

theorem Along.head {actions : List α} (h : S.Along P s actions) : P s := by
  cases actions with
  | nil => exact h
  | cons a rest => exact h.1

theorem Along.last {actions : List α} (h : S.Along P s actions)
    (hrun : S.run? s actions = some s') : P s' := by
  induction actions generalizing s with
  | nil =>
      cases hrun
      exact h
  | cons a rest ih =>
      obtain ⟨mid, hstep, hrest⟩ := Option.bind_eq_some_iff.mp hrun
      exact ih (h.2 mid hstep) hrest

/-- If a step keeps the property exactly under the guard, a run does. -/
theorem along_iff_guarded (hstep : ∀ s a, P s → (guard s a ↔ ∀ s' ∈ S.step? s a, P s'))
    {actions : List α} (hs : P s) : S.Along P s actions ↔ S.Guarded guard s actions := by
  induction actions generalizing s with
  | nil => exact ⟨fun _ => trivial, fun _ => hs⟩
  | cons a rest ih =>
      constructor
      · rintro ⟨-, hrest⟩
        have hkept : ∀ s' ∈ S.step? s a, P s' := fun s' hs' => (hrest s' hs').head
        exact ⟨(hstep s a hs).mpr hkept, fun s' hs' => (ih (hkept s' hs')).mp (hrest s' hs')⟩
      · rintro ⟨hguard, hrest⟩
        have hkept := (hstep s a hs).mp hguard
        exact ⟨hs, fun s' hs' => (ih (hkept s' hs')).mpr (hrest s' hs')⟩

theorem Along.mono {Q : σ → Prop} (himp : ∀ s, P s → Q s) {actions : List α}
    (h : S.Along P s actions) : S.Along Q s actions := by
  induction actions generalizing s with
  | nil => exact himp s h
  | cons a rest ih => exact ⟨himp s h.1, fun s' hs' => ih (h.2 s' hs')⟩

theorem Along.and {Q : σ → Prop} {actions : List α} (hP : S.Along P s actions)
    (hQ : S.Along Q s actions) : S.Along (fun s => P s ∧ Q s) s actions := by
  induction actions generalizing s with
  | nil => exact ⟨hP, hQ⟩
  | cons a rest ih => exact ⟨⟨hP.1, hQ.1⟩, fun s' hs' => ih (hP.2 s' hs') (hQ.2 s' hs')⟩

theorem Invariant.along_of_guarded {inv : σ → Prop} (hinv : S.Invariant guard inv)
    {actions : List α} (hguarded : S.Guarded guard s actions) (hs : inv s) :
    S.Along inv s actions := by
  induction actions generalizing s with
  | nil => exact hs
  | cons a rest ih =>
      exact ⟨hs, fun s' hs' => ih (hguarded.2 s' hs') (hinv.step hs hguarded.1 hs')⟩

theorem Invariant.along {inv : σ → Prop} (hinv : S.Invariant anyStep inv) {actions : List α}
    (hs : inv s) : S.Along inv s actions := hinv.along_of_guarded (guarded_anyStep actions s) hs

/-- The same with the help of an invariant of the guarded runs. -/
theorem Invariant.along_iff_guarded_of_guard {inv : σ → Prop} (hinv : S.Invariant guard inv)
    (hinitial : P S.initial)
    (hstep : ∀ s a, inv s → P s → (guard s a ↔ ∀ s' ∈ S.step? s a, P s')) {actions : List α} :
    S.Along P S.initial actions ↔ S.Guarded guard S.initial actions := by
  have hfrom : ∀ {s}, inv s → P s → (S.Along P s actions ↔ S.Guarded guard s actions) := by
    induction actions with
    | nil => exact fun _ hP => ⟨fun _ => trivial, fun _ => hP⟩
    | cons a rest ih =>
        intro s hi hP
        constructor
        · rintro ⟨-, hrest⟩
          have hkept : ∀ s' ∈ S.step? s a, P s' := fun s' hs' => (hrest s' hs').head
          have hguard := (hstep s a hi hP).mpr hkept
          exact ⟨hguard, fun s' hs' =>
            (ih (hinv.step hi hguard hs') (hkept s' hs')).mp (hrest s' hs')⟩
        · rintro ⟨hguard, hrest⟩
          have hkept := (hstep s a hi hP).mp hguard
          exact ⟨hP, fun s' hs' =>
            (ih (hinv.step hi hguard hs') (hkept s' hs')).mpr (hrest s' hs')⟩
  exact hfrom hinv.initial hinitial

/-- The same with the help of an invariant of all runs. -/
theorem Invariant.along_iff_guarded {inv : σ → Prop} (hinv : S.Invariant anyStep inv)
    (hinitial : P S.initial)
    (hstep : ∀ s a, inv s → P s → (guard s a ↔ ∀ s' ∈ S.step? s a, P s')) {actions : List α} :
    S.Along P S.initial actions ↔ S.Guarded guard S.initial actions := by
  exact Invariant.along_iff_guarded_of_guard
    { initial := hinv.initial, step := fun hi _ hs => hinv.step hi trivial hs } hinitial hstep

/-- What a list of actions does, as far as each step is labelled. -/
def trace {β : Type*} (S : System σ α) (label : σ → α → Option β) : σ → List α → List β
  | _, [] => []
  | s, a :: rest =>
      (label s a).toList ++ ((S.step? s a).map fun s' => S.trace label s' rest).getD []

theorem trace_append {β : Type*} {label : σ → α → Option β} {first rest : List α}
    (hrun : S.run? s first = some s') :
    S.trace label s (first ++ rest) = S.trace label s first ++ S.trace label s' rest := by
  induction first generalizing s with
  | nil =>
      cases hrun
      rfl
  | cons a first ih =>
      obtain ⟨mid, hstep, hrest⟩ := Option.bind_eq_some_iff.mp hrun
      simp only [List.cons_append, trace, hstep, Option.map_some, Option.getD_some,
        List.append_assoc, ih hrest]

/-- The state after a list of actions that can all be taken from the initial state. -/
def after (S : System σ α) (actions : List α) : σ := (S.run? S.initial actions).getD S.initial

theorem Along.after {actions : List α} (h : S.Along P S.initial actions)
    (hrun : (S.run? S.initial actions).isSome = true) : P (S.after actions) := by
  obtain ⟨s', hs'⟩ := Option.isSome_iff_exists.mp hrun
  rw [System.after, hs']
  exact h.last hs'

theorem reachable_after {actions : List α} (hrun : (S.run? S.initial actions).isSome = true)
    (hguarded : S.Guarded guard S.initial actions) : S.Reachable guard (S.after actions) := by
  obtain ⟨s', hs'⟩ := Option.isSome_iff_exists.mp hrun
  rw [after, hs']
  exact Reachable.initial.run hguarded hs'

end System

/-!
## Noninterference

A machine takes one action after another, and an observer sees something of some of them. Actions
that the observer is not meant to notice are silent. The unwinding conditions are about one step:
states that look alike show the same and stay alike, and a silent step leaves its state looking as
it did. From them a run shows what it would have shown without its silent actions.
-/

namespace Noninterference

structure Machine (σ α ω : Type*) where
  step : σ → α → σ
  /-- what the observer sees of an action -/
  shows : σ → α → Option ω

variable {σ α ω : Type*}

namespace Machine

variable (M : Machine σ α ω)

def run (s : σ) (actions : List α) : σ := actions.foldl M.step s

/-- What the observer sees of a run. -/
def trace (s : σ) : List α → List ω
  | [] => []
  | a :: rest => (M.shows s a).toList ++ trace (M.step s a) rest

end Machine

structure Unwinding (M : Machine σ α ω) (alike : σ → σ → Prop) (silent : α → Bool) : Prop where
  shows : ∀ {s t a}, alike s t → silent a = false → M.shows s a = M.shows t a
  step : ∀ {s t a}, alike s t → silent a = false → alike (M.step s a) (M.step t a)
  quiet : ∀ {s a}, silent a = true → M.shows s a = none
  respects : ∀ {s t a}, alike s t → silent a = true → alike (M.step s a) t

namespace Unwinding

variable {M : Machine σ α ω} {alike : σ → σ → Prop} {silent : α → Bool} {s t : σ}

theorem run_purged (h : Unwinding M alike silent) (hst : alike s t) (actions : List α) :
    alike (M.run s actions) (M.run t (actions.filter fun a => !silent a)) := by
  induction actions generalizing s t with
  | nil => exact hst
  | cons a rest ih =>
      cases ha : silent a with
      | true =>
          rw [List.filter_cons_of_neg (by simp [ha])]
          exact ih (h.respects hst ha)
      | false =>
          rw [List.filter_cons_of_pos (by simp [ha])]
          exact ih (h.step hst ha)

theorem trace_purged (h : Unwinding M alike silent) (hst : alike s t) (actions : List α) :
    M.trace s actions = M.trace t (actions.filter fun a => !silent a) := by
  induction actions generalizing s t with
  | nil => rfl
  | cons a rest ih =>
      cases ha : silent a with
      | true =>
          rw [List.filter_cons_of_neg (by simp [ha]), Machine.trace, h.quiet ha]
          exact ih (h.respects hst ha)
      | false =>
          rw [List.filter_cons_of_pos (by simp [ha]), Machine.trace, Machine.trace,
            h.shows hst ha, ih (h.step hst ha)]

end Unwinding

end Noninterference
