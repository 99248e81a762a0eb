import ExamVan.Lib.Transition
import Mathlib.Data.List.Basic
import Mathlib.Logic.Relation

/-!
# Threads over a shared world

Requests arrive at any time and become threads. A step moves one thread and may change what all of
them share.
-/

/-- What is shared, and the threads in the order they arrived in. -/
structure Threads (τ ω : Type*) where
  world : ω
  threads : List τ

namespace Threads

variable {ρ τ ω : Type*}

inductive Action (ρ : Type*) where
  | arrive (request : ρ)
  | step (i : Nat)

/-- The system of the threads that `spawn` starts and `next` moves. -/
def system (spawn : ρ → τ) (next : τ → ω → Option (τ × ω)) (w : ω) :
    System (Threads τ ω) (Action ρ) where
  initial := ⟨w, []⟩
  step? s
    | .arrive request => some { s with threads := s.threads ++ [spawn request] }
    | .step i =>
        match s.threads[i]? with
        | none => none
        | some t => (next t s.world).map fun moved => ⟨moved.2, s.threads.set i moved.1⟩

variable {spawn : ρ → τ} {next : τ → ω → Option (τ × ω)} {w : ω} {s s' : Threads τ ω} {i : Nat}

theorem step?_step (h : (system spawn next w).step? s (.step i) = some s') :
    ∃ t t' w', s.threads[i]? = some t ∧ next t s.world = some (t', w') ∧
      s' = ⟨w', s.threads.set i t'⟩ := by
  simp only [system] at h
  split at h
  · cases h
  · next t ht =>
      obtain ⟨⟨t', w'⟩, hnext, rfl⟩ := Option.map_eq_some_iff.mp h
      exact ⟨t, t', w', ht, hnext, rfl⟩

/-- A step leaves every thread where it is but the one that it moves. -/
theorem getElem?_of_step? {t : τ} {a : Action ρ} (ha : a ≠ .step i)
    (hi : s.threads[i]? = some t) (hstep : (system spawn next w).step? s a = some s') :
    s'.threads[i]? = some t := by
  cases a with
  | arrive request =>
      cases hstep
      exact (List.getElem?_append_left (List.getElem?_eq_some_iff.mp hi).1).trans hi
  | step j =>
      obtain ⟨u, u', w', -, -, rfl⟩ := step?_step hstep
      have hne : j ≠ i := fun h => ha (congrArg Action.step h)
      exact (List.getElem?_set_ne hne).trans hi

/-- A thread before a step is the one that moves, or is there after it. -/
theorem mem_set_of_mem {threads : List τ} {t t' u : τ} (ht : threads[i]? = some t)
    (hu : u ∈ threads) : u = t ∨ u ∈ threads.set i t' := by
  obtain ⟨j, hj⟩ := List.mem_iff_getElem?.mp hu
  by_cases hij : i = j
  · subst hij
    exact Or.inl (Option.some.inj (hj.symm.trans ht))
  · refine Or.inr (List.mem_iff_getElem?.mpr ⟨j, ?_⟩)
    rw [List.getElem?_set_ne hij]
    exact hj

/-- A thread after a step is the one that moved, or another one that did not. -/
theorem mem_set_cases {threads : List τ} {t' u : τ} (hu : u ∈ threads.set i t') :
    u = t' ∨ ∃ j, i ≠ j ∧ threads[j]? = some u := by
  obtain ⟨j, hj⟩ := List.mem_iff_getElem?.mp hu
  rw [List.getElem?_set] at hj
  split at hj
  next =>
    split at hj
    · exact Or.inl (Option.some.inj hj).symm
    · cases hj
  next hij => exact Or.inr ⟨j, hij, hj⟩

theorem mem_set_self {threads : List τ} {t t' : τ} (ht : threads[i]? = some t) :
    t' ∈ threads.set i t' :=
  List.mem_set (List.getElem?_eq_some_iff.mp ht).1 t'

/-- How many threads have a property changes by the one that moves. -/
theorem countP_set_add {threads : List τ} {t : τ} (t' : τ) (p : τ → Bool) (ht : threads[i]? = some t) :
    (threads.set i t').countP p + (p t).toNat = threads.countP p + (p t').toNat := by
  obtain ⟨hi, rfl⟩ := List.getElem?_eq_some_iff.mp ht
  have hle := List.boole_getElem_le_countP (p := p) hi
  have htoNat : ∀ b : Bool, b.toNat = if b = true then 1 else 0 := fun b => by cases b <;> rfl
  rw [List.countP_set hi, htoNat, htoNat]
  omega

/-- What all threads have together is what the one that moves has, and the rest. -/
theorem flatMap_perm_of_getElem? {α : Type*} (f : τ → List α) {threads : List τ} {t : τ}
    (ht : threads[i]? = some t) :
    ∃ rest, (threads.flatMap f).Perm (f t ++ rest) ∧
      ∀ t', ((threads.set i t').flatMap f).Perm (f t' ++ rest) := by
  induction threads generalizing i with
  | nil => cases ht
  | cons u threads ih =>
      cases i with
      | zero =>
          obtain rfl := Option.some.inj ht
          exact ⟨threads.flatMap f, List.Perm.refl _, fun t' => List.Perm.refl _⟩
      | succ i =>
          obtain ⟨rest, hbefore, hafter⟩ := ih ht
          refine ⟨f u ++ rest, ?_, fun t' => ?_⟩
          · exact (hbefore.append_left (f u)).trans (List.perm_append_comm_assoc _ _ _)
          · exact ((hafter t').append_left (f u)).trans (List.perm_append_comm_assoc _ _ _)

/-- The steps of one thread with no other thread between them. -/
def Alone (next : τ → ω → Option (τ × ω)) : τ × ω → τ × ω → Prop :=
  Relation.ReflTransGen fun p p' => next p.1 p.2 = some p'

theorem Alone.refl (p : τ × ω) : Alone next p p := Relation.ReflTransGen.refl

theorem Alone.step {p : τ × ω} {t t' : τ} {w w' : ω} (h : Alone next p (t, w))
    (hnext : next t w = some (t', w')) : Alone next p (t', w') :=
  Relation.ReflTransGen.tail h hnext

/-- The steps of a thread that moves alone are steps of the system. -/
theorem Alone.run {p p' : τ × ω} {threads : List τ} (h : Alone next p p')
    (ht : threads[i]? = some p.1) :
    ∃ n, (system (ρ := ρ) spawn next w).run? ⟨p.2, threads⟩ (List.replicate n (.step i)) =
      some ⟨p'.2, threads.set i p'.1⟩ := by
  induction h using Relation.ReflTransGen.head_induction_on generalizing threads with
  | refl =>
      obtain ⟨hi, hget⟩ := List.getElem?_eq_some_iff.mp ht
      refine ⟨0, ?_⟩
      rw [← hget, List.set_getElem_self]
      rfl
  | @head p q hnext _ ih =>
      have hi := (List.getElem?_eq_some_iff.mp ht).1
      obtain ⟨n, hrun⟩ := @ih (threads.set i q.1) (List.getElem?_set_self hi)
      rw [List.set_set] at hrun
      refine ⟨n + 1, ?_⟩
      simp only [List.replicate_succ, System.run?, system, ht, hnext, Option.map_some,
        Option.bind_some]
      exact hrun

/-! ### Invariants -/

/-- Any two threads are compatible. -/
def Compatible (compat : τ → τ → Prop) (threads : List τ) : Prop :=
  ∀ (i j : Nat) (t u : τ), i ≠ j → threads[i]? = some t → threads[j]? = some u → compat t u

theorem Compatible.nil {compat : τ → τ → Prop} : Compatible compat [] := by
  intro i j t u _ ht
  cases ht

theorem Compatible.append {compat : τ → τ → Prop} {threads : List τ} {t : τ}
    (h : Compatible compat threads) (hsymm : ∀ {t u}, compat t u → compat u t)
    (hnew : ∀ u, compat t u) : Compatible compat (threads ++ [t]) := by
  have hlast : ∀ {j : Nat} {u : τ}, (threads ++ [t])[j]? = some u → threads[j]? = some u ∨ u = t := by
    intro j u hu
    rw [List.getElem?_append] at hu
    split at hu
    · exact Or.inl hu
    · exact Or.inr (List.mem_singleton.mp (List.mem_of_getElem? hu))
  intro i j a b hij ha hb
  rcases hlast ha with ha' | rfl
  · rcases hlast hb with hb' | rfl
    · exact h i j a b hij ha' hb'
    · exact hsymm (hnew a)
  · exact hnew b

/-- If only threads that exclude each other have something, and each at most one thing, then all of
them have at most one. -/
theorem Compatible.length_flatMap_le {α : Type*} {owns : τ → Prop} {f : τ → List α}
    {threads : List τ} (h : Compatible (fun t u => ¬ (owns t ∧ owns u)) threads)
    (hone : ∀ t ∈ threads, (f t).length ≤ 1) (howns : ∀ t ∈ threads, f t ≠ [] → owns t) :
    (threads.flatMap f).length ≤ 1 := by
  induction threads with
  | nil => exact Nat.zero_le 1
  | cons t rest ih =>
      have hrest : Compatible (fun t u => ¬ (owns t ∧ owns u)) rest := fun i j a b hij ha hb =>
        h (i + 1) (j + 1) a b (by omega) ha hb
      rw [List.flatMap_cons, List.length_append]
      by_cases ht : f t = []
      · rw [ht, List.length_nil, Nat.zero_add]
        exact ih hrest (fun u hu => hone u (List.mem_cons_of_mem _ hu))
          fun u hu => howns u (List.mem_cons_of_mem _ hu)
      · have hnone : rest.flatMap f = [] := by
          refine List.flatMap_eq_nil_iff.mpr fun u hu => ?_
          by_contra hne
          obtain ⟨j, hj⟩ := List.mem_iff_getElem?.mp hu
          exact h 0 (j + 1) t u (by omega) rfl hj
            ⟨howns t List.mem_cons_self ht, howns u (List.mem_cons_of_mem _ hu) hne⟩
        rw [hnone, List.length_nil, Nat.add_zero]
        exact hone t List.mem_cons_self

theorem Compatible.set {compat : τ → τ → Prop} {threads : List τ} {t' : τ}
    (h : Compatible compat threads) (hsymm : ∀ {t u}, compat t u → compat u t)
    (hmoved : ∀ (j : Nat) (u : τ), i ≠ j → threads[j]? = some u → compat t' u) :
    Compatible compat (threads.set i t') := by
  intro j k a b hjk ha hb
  rw [List.getElem?_set] at ha hb
  split at ha
  next hij =>
    subst hij
    split at ha
    · cases ha
      rw [if_neg hjk] at hb
      exact hmoved k b hjk hb
    · cases ha
  next hij =>
    split at hb
    next hik =>
      subst hik
      split at hb
      · cases hb
        exact hsymm (hmoved j a hij ha)
      · cases hb
    next => exact h j k a b hjk ha hb

section

variable {guard : Threads τ ω → Action ρ → Prop} {shared : ω → Prop} {each ok : τ → ω → Prop}

/-- What holds of the world and of every thread is kept if the thread that moves keeps it for itself
and for every other thread that is compatible with it, and stays compatible with those. `ok` is what
the guard says of the thread that moves. -/
theorem invariant_of_compatible {compat : τ → τ → Prop}
    (hsymm : ∀ {t u}, compat t u → compat u t)
    (hguard : ∀ {s : Threads τ ω} {i : Nat} {t}, guard s (.step i) → s.threads[i]? = some t →
      ok t s.world)
    (hinitial : shared w)
    (hspawn : ∀ request w, each (spawn request) w) (hnew : ∀ request u, compat (spawn request) u)
    (hnext : ∀ {t w t' w'}, shared w → each t w → ok t w → next t w = some (t', w') →
      shared w' ∧ each t' w' ∧ ∀ u, each u w → compat t u → each u w' ∧ compat t' u) :
    (system spawn next w).Invariant guard fun s =>
      shared s.world ∧ (∀ t ∈ s.threads, each t s.world) ∧ Compatible compat s.threads where
  initial := ⟨hinitial, fun t ht => absurd ht List.not_mem_nil, .nil⟩
  step := by
    rintro s s' a ⟨hs, heach, hcompat⟩ hstepGuard hstep
    cases a with
    | arrive request =>
        cases hstep
        refine ⟨hs, fun t ht => ?_, hcompat.append hsymm (hnew request)⟩
        rcases List.mem_append.mp ht with ht | ht
        · exact heach t ht
        · rw [List.mem_singleton.mp ht]
          exact hspawn request s.world
    | step i =>
        obtain ⟨t, t', w', ht, hmoved, rfl⟩ := step?_step hstep
        obtain ⟨hshared, hself, hothers⟩ :=
          hnext hs (heach t (List.mem_of_getElem? ht)) (hguard hstepGuard ht) hmoved
        have hother : ∀ (j : Nat) (u : τ), i ≠ j → s.threads[j]? = some u →
            each u w' ∧ compat t' u :=
          fun j u hij hu =>
            hothers u (heach u (List.mem_of_getElem? hu)) (hcompat i j t u hij ht hu)
        refine ⟨hshared, fun u hu => ?_, hcompat.set hsymm fun j u hij hu => (hother j u hij hu).2⟩
        obtain rfl | ⟨j, hij, hj⟩ := mem_set_cases hu
        · exact hself
        · exact (hother j u hij hj).1

/-- The same, of threads that are all compatible, under any guard. -/
theorem invariant (hinitial : shared w) (hspawn : ∀ request w, each (spawn request) w)
    (hnext : ∀ {t w t' w'}, shared w → each t w → next t w = some (t', w') →
      shared w' ∧ each t' w' ∧ ∀ u, each u w → each u w') :
    (system spawn next w).Invariant guard
      fun s => shared s.world ∧ ∀ t ∈ s.threads, each t s.world := by
  have hinv := @invariant_of_compatible ρ τ ω spawn next w guard shared each (fun _ _ => True)
    (fun _ _ => True) (fun _ => trivial) (fun _ _ => trivial) hinitial hspawn (fun _ _ => trivial)
    fun hs ht _ hmoved =>
      have h := hnext hs ht hmoved
      ⟨h.1, h.2.1, fun u hu _ => ⟨h.2.2 u hu, trivial⟩⟩
  have hall : ∀ {s : Threads τ ω}, Compatible (fun _ _ => True) s.threads :=
    fun _ _ _ _ _ _ _ => trivial
  exact
    { initial := ⟨hinv.initial.1, hinv.initial.2.1⟩
      step := fun ⟨hs, ht⟩ hguard hstep =>
        have h := hinv.step ⟨hs, ht, hall⟩ hguard hstep
        ⟨h.1, h.2.1⟩ }

end

end Threads
