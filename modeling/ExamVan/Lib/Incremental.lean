import Mathlib.Data.List.Basic
import Mathlib.Data.List.Infix

/-!
# Items out of a stream

A receiver takes whole items off the front of what it has received and keeps the rest until more
comes. If an item that is there as a whole stays what it is whatever follows, the items do not depend
on where the stream is cut. A bound on what is kept does.
-/

/-- Takes the first item off a buffer, if all of it is there. -/
structure Incremental (ι β : Type*) where
  next : List β → Option (ι × List β)
  shorter : ∀ {b i rest}, next b = some (i, rest) → rest.length < b.length
  extend : ∀ {b i rest}, next b = some (i, rest) → ∀ c, next (b ++ c) = some (i, rest ++ c)

/-- How a loop over received chunks ends: a handler stops it, too much is kept, or nothing more is
received. -/
inductive Fed (σ ε : Type*)
  | stopped (e : ε)
  | full (s : σ)
  | ended (s : σ)

namespace Incremental

variable {ι β σ ε : Type*} (P : Incremental ι β) (handle : σ → ι → Except ε σ)

def drainFuel : Nat → σ → List β → Except ε (σ × List β)
  | 0, s, b => .ok (s, b)
  | n + 1, s, b =>
      match P.next b with
      | none => .ok (s, b)
      | some (i, rest) =>
          match handle s i with
          | .error e => .error e
          | .ok s' => drainFuel n s' rest

/-- Handle all items that are there. -/
def drain (s : σ) (b : List β) : Except ε (σ × List β) := P.drainFuel handle b.length s b

/-- The loop over the received chunks. -/
def feed (limit : Nat) : σ → List β → List (List β) → Fed σ ε
  | s, _, [] => .ended s
  | s, kept, chunk :: chunks =>
      match P.drain handle s (kept ++ chunk) with
      | .error e => .stopped e
      | .ok (s', rest) => if limit < rest.length then .full s' else feed limit s' rest chunks

/-- The whole stream at once, with no bound. -/
def whole (s : σ) (stream : List β) : Fed σ ε :=
  match P.drain handle s stream with
  | .error e => .stopped e
  | .ok (s', _) => .ended s'

/-- The item is at the front of some buffer. -/
def Found (i : ι) : Prop := ∃ b rest, P.next b = some (i, rest)

/-- An item is handled in a state, by the loop that starts with a buffer. -/
inductive Handles : σ → List β → σ → ι → Prop
  | head {s : σ} {b rest : List β} {i : ι} (hnext : P.next b = some (i, rest)) : Handles s b s i
  | later {s s' t : σ} {b rest : List β} {i j : ι} (hnext : P.next b = some (i, rest))
      (hhandle : handle s i = .ok s') (h : Handles s' rest t j) : Handles s b t j

/-- An item is handled in a state, by the loop over the received chunks. -/
inductive FeedHandles (limit : Nat) : σ → List β → List (List β) → σ → ι → Prop
  | head {s t : σ} {kept chunk : List β} {chunks : List (List β)} {i : ι}
      (h : P.Handles handle s (kept ++ chunk) t i) : FeedHandles limit s kept (chunk :: chunks) t i
  | later {s s' t : σ} {kept chunk rest : List β} {chunks : List (List β)} {i : ι}
      (hdrain : P.drain handle s (kept ++ chunk) = .ok (s', rest)) (hfits : rest.length ≤ limit)
      (h : FeedHandles limit s' rest chunks t i) : FeedHandles limit s kept (chunk :: chunks) t i

/-- At every cut of the chunks what is kept has at most `limit` bytes. -/
def Fits (limit : Nat) (s : σ) (kept : List β) (chunks : List (List β)) : Prop :=
  ∀ first, first <+: chunks → ∀ s' rest, P.drain handle s (kept ++ first.flatten) = .ok (s', rest) →
    rest.length ≤ limit

/-- The items of a buffer, and what is kept of it. -/
inductive Items : List β → List ι → List β → Prop
  | kept {b : List β} (hnone : P.next b = none) : Items b [] b
  | item {b rest left : List β} {i : ι} {is : List ι} (hnext : P.next b = some (i, rest))
      (h : Items rest is left) : Items b (i :: is) left

variable {P handle} {s s' t : σ} {b rest : List β} {i : ι} {e : ε} {limit : Nat}

/-- More fuel than bytes is enough. -/
theorem drainFuel_eq {n m : Nat} (hn : b.length ≤ n) (hm : b.length ≤ m) :
    P.drainFuel handle n s b = P.drainFuel handle m s b := by
  induction n generalizing m s b with
  | zero =>
      have hnone : P.next b = none := by
        refine Option.eq_none_iff_forall_ne_some.mpr fun item hitem => ?_
        have hshorter := @P.shorter b item.1 item.2 hitem
        omega
      cases m with
      | zero => rfl
      | succ m => simp only [drainFuel, hnone]
  | succ n ih =>
      cases hnext : P.next b with
      | none =>
          cases m with
          | zero => simp only [drainFuel, hnext]
          | succ m => simp only [drainFuel, hnext]
      | some item =>
          obtain ⟨i, rest⟩ := item
          have hshorter := P.shorter hnext
          cases m with
          | zero => omega
          | succ m =>
              simp only [drainFuel, hnext]
              cases handle s i with
              | error e => rfl
              | ok s' => exact ih (by omega) (by omega)

theorem drain_of_none (h : P.next b = none) : P.drain handle s b = .ok (s, b) := by
  rw [drain, @drainFuel_eq _ _ _ _ P handle s b b.length (b.length + 1) (by omega) (by omega)]
  simp only [drainFuel, h]

theorem drain_of_some (h : P.next b = some (i, rest)) :
    P.drain handle s b = (handle s i).bind fun s' => P.drain handle s' rest := by
  have hshorter := P.shorter h
  rw [drain, @drainFuel_eq _ _ _ _ P handle s b b.length (b.length + 1) (by omega) (by omega)]
  simp only [drainFuel, h]
  cases handle s i with
  | error e => rfl
  | ok s' => exact drainFuel_eq (by omega) (by omega)

/-- Induction along the items of a buffer. -/
theorem items_induction {motive : List β → Prop} (hnone : ∀ b, P.next b = none → motive b)
    (hsome : ∀ b i rest, P.next b = some (i, rest) → motive rest → motive b) (b : List β) :
    motive b := by
  induction hlength : b.length using Nat.strongRecOn generalizing b with
  | _ n ih =>
      cases hnext : P.next b with
      | none => exact hnone b hnext
      | some item =>
          obtain ⟨i, rest⟩ := item
          have hshorter := P.shorter hnext
          exact hsome b i rest hnext (ih rest.length (hlength ▸ hshorter) rest rfl)

/-- What is kept holds no further item. -/
theorem next_eq_none_of_drain (h : P.drain handle s b = .ok (s', rest)) : P.next rest = none := by
  induction b using P.items_induction generalizing s with
  | hnone b hnone =>
      rw [drain_of_none hnone] at h
      cases h
      exact hnone
  | hsome b i rest' hsome ih =>
      rw [drain_of_some hsome] at h
      cases hhandle : handle s i with
      | error e =>
          rw [hhandle] at h
          cases h
      | ok s' =>
          rw [hhandle] at h
          exact ih h

/-- To handle a stream is to handle its first part, and then what is kept with the second. -/
theorem drain_append (b c : List β) :
    P.drain handle s (b ++ c) =
      (P.drain handle s b).bind fun kept => P.drain handle kept.1 (kept.2 ++ c) := by
  induction b using P.items_induction generalizing s with
  | hnone b hnone =>
      rw [drain_of_none hnone]
      rfl
  | hsome b i rest hsome ih =>
      rw [drain_of_some hsome, drain_of_some (P.extend hsome c)]
      cases handle s i with
      | error e => rfl
      | ok s' => exact ih

variable {kept chunk : List β} {chunks : List (List β)}

theorem Fits.length_le (h : P.Fits handle limit s kept chunks) (hkept : P.next kept = none) :
    kept.length ≤ limit := by
  refine h [] (List.nil_prefix) s kept ?_
  rw [List.flatten_nil, List.append_nil]
  exact drain_of_none hkept

theorem fits_cons_of_error (hkept : P.next kept = none) (hlimit : kept.length ≤ limit)
    (h : P.drain handle s (kept ++ chunk) = .error e) :
    P.Fits handle limit s kept (chunk :: chunks) := by
  intro first hfirst s' rest hdrain
  cases first with
  | nil =>
      rw [List.flatten_nil, List.append_nil, drain_of_none hkept] at hdrain
      cases hdrain
      exact hlimit
  | cons c first =>
      obtain ⟨rfl, -⟩ := List.cons_prefix_cons.mp hfirst
      rw [List.flatten_cons, ← List.append_assoc, drain_append, h] at hdrain
      cases hdrain

theorem fits_cons_of_ok (hkept : P.next kept = none) (hlimit : kept.length ≤ limit)
    (h : P.drain handle s (kept ++ chunk) = .ok (s', rest)) :
    P.Fits handle limit s kept (chunk :: chunks) ↔ P.Fits handle limit s' rest chunks := by
  have hafter : ∀ first : List (List β),
      P.drain handle s (kept ++ (chunk :: first).flatten) =
        P.drain handle s' (rest ++ first.flatten) := by
    intro first
    rw [List.flatten_cons, ← List.append_assoc, drain_append, h]
    rfl
  constructor
  · intro hfits first hfirst t left hdrain
    exact hfits (chunk :: first) (List.cons_prefix_cons.mpr ⟨rfl, hfirst⟩) t left
      ((hafter first).trans hdrain)
  · intro hfits first hfirst t left hdrain
    cases first with
    | nil =>
        rw [List.flatten_nil, List.append_nil, drain_of_none hkept] at hdrain
        cases hdrain
        exact hlimit
    | cons c first =>
        obtain ⟨rfl, htail⟩ := List.cons_prefix_cons.mp hfirst
        exact hfits first htail t left ((hafter first).symm.trans hdrain)

/-- The loop does what handling the whole stream does exactly if what is kept always fits. -/
theorem feed_eq_whole_iff (hkept : P.next kept = none) (hlimit : kept.length ≤ limit) :
    P.feed handle limit s kept chunks = P.whole handle s (kept ++ chunks.flatten) ↔
      P.Fits handle limit s kept chunks := by
  induction chunks generalizing s kept with
  | nil =>
      refine iff_of_true ?_ fun first hfirst t left hdrain => ?_
      · rw [List.flatten_nil, List.append_nil, whole, drain_of_none hkept]
        rfl
      · rw [List.prefix_nil.mp hfirst, List.flatten_nil, List.append_nil, drain_of_none hkept] at hdrain
        cases hdrain
        exact hlimit
  | cons chunk chunks ih =>
      rw [feed, whole, List.flatten_cons, ← List.append_assoc, drain_append (kept ++ chunk)]
      cases hdrain : P.drain handle s (kept ++ chunk) with
      | error e => exact iff_of_true rfl (fits_cons_of_error hkept hlimit hdrain)
      | ok left =>
          obtain ⟨s', rest⟩ := left
          rw [fits_cons_of_ok hkept hlimit hdrain]
          have hrest := next_eq_none_of_drain hdrain
          by_cases hfull : limit < rest.length
          · refine iff_of_false ?_ fun hfits => absurd (hfits.length_le hrest) (Nat.not_le.mpr hfull)
            dsimp only [Except.bind]
            rw [if_pos hfull]
            split
            · exact fun h => by cases h
            · exact fun h => by cases h
          · dsimp only [Except.bind]
            rw [if_neg hfull]
            exact ih hrest (Nat.not_lt.mp hfull)

section

variable {inv : σ → Prop}

theorem drain_inv (hinv : ∀ s i s', inv s → P.Found i → handle s i = .ok s' → inv s') (hs : inv s)
    (h : P.drain handle s b = .ok (s', rest)) : inv s' := by
  induction b using P.items_induction generalizing s with
  | hnone b hnone =>
      rw [drain_of_none hnone] at h
      cases h
      exact hs
  | hsome b i rest' hsome ih =>
      rw [drain_of_some hsome] at h
      cases hhandle : handle s i with
      | error e =>
          rw [hhandle] at h
          cases h
      | ok s₁ =>
          rw [hhandle] at h
          exact ih (hinv s i s₁ hs ⟨b, rest', hsome⟩ hhandle) h

/-- Every item is handled in a state that has what the handler keeps, and was at the front of some
buffer. -/
theorem Handles.invariant (hinv : ∀ s i s', inv s → P.Found i → handle s i = .ok s' → inv s')
    (h : P.Handles handle s b t i) (hs : inv s) :
    inv t ∧ P.Found i := by
  induction h with
  | head hnext => exact ⟨hs, _, _, hnext⟩
  | later hnext hhandle _ ih => exact ih (hinv _ _ _ hs ⟨_, _, hnext⟩ hhandle)

theorem FeedHandles.invariant (hinv : ∀ s i s', inv s → P.Found i → handle s i = .ok s' → inv s')
    (h : P.FeedHandles handle limit s kept chunks t i) (hs : inv s) :
    inv t ∧ P.Found i := by
  induction h with
  | head h => exact h.invariant hinv hs
  | later hdrain _ _ ih => exact ih (drain_inv hinv hs hdrain)

/-- A loop that no handler stops ends in a state that has what the handler keeps. -/
theorem feed_inv (hinv : ∀ s i s', inv s → P.Found i → handle s i = .ok s' → inv s') (hs : inv s)
    (h : P.feed handle limit s kept chunks = .full s' ∨
      P.feed handle limit s kept chunks = .ended s') : inv s' := by
  induction chunks generalizing s kept with
  | nil =>
      rcases h with h | h
      · cases h
      · cases h
        exact hs
  | cons chunk chunks ih =>
      rw [feed] at h
      cases hdrain : P.drain handle s (kept ++ chunk) with
      | error e =>
          rw [hdrain] at h
          rcases h with h | h <;> cases h
      | ok left =>
          obtain ⟨s₁, rest⟩ := left
          have hs₁ := drain_inv hinv hs hdrain
          rw [hdrain] at h
          dsimp only at h
          split at h
          · rcases h with h | h
            · cases h
              exact hs₁
            · cases h
          · exact ih hs₁ h

end

/-- Handling stops at an item that its handler refuses. -/
theorem drain_eq_error_iff :
    P.drain handle s b = .error e ↔ ∃ t i, P.Handles handle s b t i ∧ handle t i = .error e := by
  induction b using P.items_induction generalizing s with
  | hnone b hnone =>
      rw [drain_of_none hnone]
      refine iff_of_false (fun h => by cases h) ?_
      rintro ⟨t, i, h, -⟩
      cases h with
      | head hnext => rw [hnone] at hnext; cases hnext
      | later hnext _ _ => rw [hnone] at hnext; cases hnext
  | hsome b i rest hsome ih =>
      rw [drain_of_some hsome]
      constructor
      · intro h
        cases hhandle : handle s i with
        | error e' =>
            rw [hhandle] at h
            cases h
            exact ⟨s, i, .head hsome, hhandle⟩
        | ok s' =>
            rw [hhandle] at h
            obtain ⟨t, j, hj, herror⟩ := ih.mp h
            exact ⟨t, j, .later hsome hhandle hj, herror⟩
      · rintro ⟨t, j, hj, herror⟩
        cases hj with
        | head hnext =>
            obtain ⟨rfl, rfl⟩ := Prod.mk.inj (Option.some.inj (hsome.symm.trans hnext))
            rw [herror]
            rfl
        | later hnext hhandle hj =>
            obtain ⟨rfl, rfl⟩ := Prod.mk.inj (Option.some.inj (hsome.symm.trans hnext))
            rw [hhandle]
            exact ih.mpr ⟨t, j, hj, herror⟩

theorem feed_eq_stopped_iff :
    P.feed handle limit s kept chunks = .stopped e ↔
      ∃ t i, P.FeedHandles handle limit s kept chunks t i ∧ handle t i = .error e := by
  induction chunks generalizing s kept with
  | nil =>
      refine iff_of_false (fun h => by cases h) ?_
      rintro ⟨t, i, h, -⟩
      cases h
  | cons chunk chunks ih =>
      rw [feed]
      constructor
      · intro h
        cases hdrain : P.drain handle s (kept ++ chunk) with
        | error e' =>
            rw [hdrain] at h
            cases h
            obtain ⟨t, i, hi, herror⟩ := drain_eq_error_iff.mp hdrain
            exact ⟨t, i, .head hi, herror⟩
        | ok left =>
            obtain ⟨s', rest⟩ := left
            rw [hdrain] at h
            dsimp only at h
            split at h
            · cases h
            next hfull =>
              obtain ⟨t, i, hi, herror⟩ := ih.mp h
              exact ⟨t, i, .later hdrain (Nat.not_lt.mp hfull) hi, herror⟩
      · rintro ⟨t, i, hi, herror⟩
        cases hi with
        | head hi =>
            rw [drain_eq_error_iff.mpr ⟨t, i, hi, herror⟩]
        | later hdrain hfits hi =>
            rw [hdrain]
            dsimp only
            rw [if_neg (Nat.not_lt.mpr hfits)]
            exact ih.mpr ⟨t, i, hi, herror⟩

end Incremental
