import ExamVan.Lib.Bytes

/-!
# Filling placeholders

A text with placeholders is a list of parts. To replace one placeholder after the other, each in the
whole text, is to fill them all at once, as long as no text that was put in spells a placeholder, alone
or with its neighbours, that is replaced later.
-/

namespace Substitution

open ByteString

/-! ### Replacing all occurrences -/

/-- The text from the `skip`-th byte on, every occurrence of `n` in it replaced. -/
def replaceFrom (n v : Bytes) : Nat → Bytes → Bytes
  | _, [] => []
  | skip + 1, _ :: s => replaceFrom n v skip s
  | 0, c :: s => if n <+: c :: s then v ++ replaceFrom n v (n.length - 1) s else c :: replaceFrom n v 0 s

def replaceAll (n v s : Bytes) : Bytes := replaceFrom n v 0 s

variable {n m v s t : Bytes}

theorem replaceFrom_eq (n v : Bytes) (skip : Nat) (s : Bytes) :
    replaceFrom n v skip s = replaceAll n v (s.drop skip) := by
  induction skip generalizing s with
  | zero => rfl
  | succ skip ih =>
      cases s with
      | nil => rfl
      | cons c s => exact ih s

theorem replaceAll_cons (n v : Bytes) (c : UInt8) (s : Bytes) : replaceAll n v (c :: s) =
    if n <+: c :: s then v ++ replaceAll n v (s.drop (n.length - 1)) else c :: replaceAll n v s := by
  rw [← replaceFrom_eq]
  rfl

theorem replaceAll_of_head (hn : n ≠ []) (v s : Bytes) :
    replaceAll n v (n ++ s) = v ++ replaceAll n v s := by
  obtain ⟨c, n, rfl⟩ := List.exists_cons_of_ne_nil hn
  have hhead : c :: n <+: c :: (n ++ s) := List.prefix_append (c :: n) s
  rw [List.cons_append, replaceAll_cons, if_pos hhead, List.length_cons, Nat.add_sub_cancel, List.drop_left]

/-- What does not begin an occurrence is kept. -/
theorem replaceAll_append (h : ∀ i < s.length, ¬ n <+: s.drop i ++ t) (v : Bytes) :
    replaceAll n v (s ++ t) = s ++ replaceAll n v t := by
  induction s with
  | nil => rfl
  | cons c s ih =>
      have hhead : ¬ n <+: c :: (s ++ t) := h 0 (Nat.succ_pos _)
      rw [List.cons_append, replaceAll_cons, if_neg hhead, List.cons_append,
        ih fun i hi => h (i + 1) (Nat.succ_lt_succ hi)]

/-! ### Overlaps -/

/-- No occurrence of `m` begins inside of one of `n`. -/
def Apart (n m : Bytes) : Prop := ∀ i < n.length, 0 < i → ¬ n.drop i <+: m ∧ ¬ m <+: n.drop i

instance (n m : Bytes) : Decidable (Apart n m) :=
  inferInstanceAs (Decidable (∀ i < n.length, 0 < i → ¬ n.drop i <+: m ∧ ¬ m <+: n.drop i))

theorem Apart.replaceAll_append (h : Apart n m) (hno : ¬ m <+: n ++ t) (v : Bytes) :
    replaceAll m v (n ++ t) = n ++ replaceAll m v t := by
  refine Substitution.replaceAll_append (fun i hi hprefix => ?_) v
  rcases Nat.eq_zero_or_pos i with rfl | hpos
  · exact hno hprefix
  · rcases List.prefix_or_prefix_of_prefix (List.prefix_append (n.drop i) t) hprefix with hle | hle
    · exact (h i hi hpos).1 hle
    · exact (h i hi hpos).2 hle

/-- In front of an occurrence, none begins in a text that holds none. -/
theorem Apart.not_head (h : Apart n n) (hs : findSub n s = none) (t : Bytes) :
    ∀ i < s.length, ¬ n <+: s.drop i ++ (n ++ t) := by
  intro i hi hprefix
  have hnone : ¬ n <+: s.drop i := by
    rintro ⟨rest, hrest⟩
    have hsome := isSome_findSub_append n (s.take i) rest
    rw [hrest, List.take_append_drop, hs] at hsome
    cases hsome
  rcases List.prefix_or_prefix_of_prefix (List.prefix_append (s.drop i) (n ++ t)) hprefix with hle | hle
  · obtain ⟨rest, hrest⟩ := hle
    have hpos : 0 < (s.drop i).length := by
      rw [List.length_drop]
      omega
    have hlength : (s.drop i).length + rest.length = n.length := by
      rw [← hrest, List.length_append]
    rcases Nat.eq_zero_or_pos rest.length with hnil | hmore
    · rw [List.length_eq_zero_iff.mp hnil, List.append_nil] at hrest
      exact hnone (hrest ▸ List.prefix_rfl)
    · have hdrop : n.drop (s.drop i).length = rest := by
        rw [← hrest, List.drop_left]
      have hshort : rest <+: n ++ t := by
        refine (List.prefix_append_right_inj (s.drop i)).mp ?_
        rwa [hrest]
      have hborder : rest <+: n :=
        List.prefix_of_prefix_length_le hshort (List.prefix_append n t) (by omega)
      exact (h (s.drop i).length (by omega) hpos).1 (hdrop ▸ hborder)
  · exact hnone hle

theorem replaceAll_of_none (hs : findSub n s = none) (v : Bytes) : replaceAll n v s = s := by
  have hno : ∀ i < s.length, ¬ n <+: s.drop i ++ [] := by
    rintro i - ⟨rest, hrest⟩
    have hsome := isSome_findSub_append n (s.take i) rest
    rw [hrest, List.append_nil, List.take_append_drop, hs] at hsome
    cases hsome
  have happend := replaceAll_append hno v
  rwa [List.append_nil, show replaceAll n v [] = [] from rfl, List.append_nil] at happend

/-! ### Parts -/

/-- A placeholder is spelled out in its hole. -/
inductive Part where
  | text (b : Bytes)
  | hole (n : Bytes)
deriving DecidableEq

variable {ps vs : List Part}

def Part.bytes : Part → Bytes
  | .text b => b
  | .hole n => n

def spelled (ps : List Part) : Bytes := ps.flatMap Part.bytes

/-- One placeholder is filled. -/
def fill (n : Bytes) (vs : List Part) (ps : List Part) : List Part :=
  ps.flatMap fun p => if p = .hole n then vs else [p]

/-- All placeholders are filled. -/
def render (values : List (Bytes × Bytes)) (ps : List Part) : Bytes :=
  ps.flatMap fun
    | .text b => b
    | .hole n => (values.lookup n).getD n

/-- The texts between the holes of a placeholder. -/
def stretches (n : Bytes) : List Part → List Bytes
  | [] => [[]]
  | p :: ps =>
      if p = .hole n then [] :: stretches n ps else (stretches n ps).modifyHead (p.bytes ++ ·)

/-- The placeholder is spelled in its holes only. -/
def Clear (n : Bytes) (ps : List Part) : Prop := ∀ s ∈ stretches n ps, findSub n s = none

/-- Whenever a placeholder is replaced, it is spelled in its holes only. -/
def AllClear : List (Bytes × List Part) → List Part → Prop
  | [], _ => True
  | (n, vs) :: steps, ps => Clear n ps ∧ AllClear steps (fill n vs ps)

instance decidableAllClear : (steps : List (Bytes × List Part)) → (ps : List Part) →
    Decidable (AllClear steps ps)
  | [], _ => inferInstanceAs (Decidable True)
  | (n, vs) :: steps, ps =>
      have := decidableAllClear steps (fill n vs ps)
      inferInstanceAs (Decidable ((∀ s ∈ stretches n ps, findSub n s = none) ∧
        AllClear steps (fill n vs ps)))

@[simp]
theorem spelled_nil : spelled [] = [] := rfl

@[simp]
theorem spelled_cons (p : Part) (ps : List Part) : spelled (p :: ps) = p.bytes ++ spelled ps := rfl

@[simp]
theorem spelled_append (ps qs : List Part) : spelled (ps ++ qs) = spelled ps ++ spelled qs :=
  List.flatMap_append

theorem stretches_ne_nil (n : Bytes) (ps : List Part) : stretches n ps ≠ [] := by
  cases ps with
  | nil => exact List.cons_ne_nil _ _
  | cons p ps =>
      rw [stretches]
      split
      · exact List.cons_ne_nil _ _
      · rw [Ne, List.modifyHead_eq_nil_iff]
        exact stretches_ne_nil n ps

/-- What is between the holes, with the placeholder or with its value in them. -/
theorem intercalate_stretches (n : Bytes) (vs ps : List Part) :
    (spelled vs).intercalate (stretches n ps) = spelled (fill n vs ps) := by
  induction ps with
  | nil => rfl
  | cons p ps ih =>
      rw [stretches, fill, List.flatMap_cons, spelled_append, ← fill, ← ih]
      obtain ⟨s, ss, hstretches⟩ := List.exists_cons_of_ne_nil (stretches_ne_nil n ps)
      split
      · rw [List.intercalate_cons_of_ne_nil (stretches_ne_nil n ps), List.nil_append]
      · rw [hstretches, List.modifyHead_cons, spelled_cons, spelled_nil, List.append_nil]
        cases ss with
        | nil => simp [List.intercalate_singleton]
        | cons s' ss =>
            rw [List.intercalate_cons_of_ne_nil (List.cons_ne_nil _ _),
              List.intercalate_cons_of_ne_nil (List.cons_ne_nil _ _)]
            simp only [List.append_assoc]

theorem replaceAll_intercalate (hn : n ≠ []) (hself : Apart n n) {ss : List Bytes}
    (h : ∀ s ∈ ss, findSub n s = none) (v : Bytes) :
    replaceAll n v (n.intercalate ss) = v.intercalate ss := by
  induction ss with
  | nil => rfl
  | cons s ss ih =>
      rw [List.forall_mem_cons] at h
      by_cases hnil : ss = []
      · subst hnil
        rw [List.intercalate_singleton, List.intercalate_singleton]
        exact replaceAll_of_none h.1 v
      · rw [List.intercalate_cons_of_ne_nil hnil, List.intercalate_cons_of_ne_nil hnil, List.append_assoc,
          replaceAll_append (hself.not_head h.1 _), replaceAll_of_head hn, ih h.2, List.append_assoc]

theorem fill_self (n : Bytes) (ps : List Part) : fill n [.hole n] ps = ps := by
  rw [fill]
  refine (List.flatMap_congr fun p _ => ?_).trans (List.flatMap_singleton' ps)
  split
  · next hp => rw [hp]
  · rfl

/-- A step of the replacement is a step of the filling. -/
theorem replaceAll_spelled (hn : n ≠ []) (hself : Apart n n) (h : Clear n ps) (vs : List Part) :
    replaceAll n (spelled vs) (spelled ps) = spelled (fill n vs ps) := by
  have hholes := intercalate_stretches n [.hole n] ps
  rw [fill_self, spelled_cons, spelled_nil, List.append_nil] at hholes
  rw [← hholes, ← intercalate_stretches]
  exact replaceAll_intercalate hn hself h _

/-- The run of replacements is the run of fillings. -/
theorem foldl_replaceAll {steps : List (Bytes × List Part)}
    (hsteps : ∀ e ∈ steps, e.1 ≠ [] ∧ Apart e.1 e.1) (h : AllClear steps ps) :
    steps.foldl (fun s e => replaceAll e.1 (spelled e.2) s) (spelled ps) =
      spelled (steps.foldl (fun ps e => fill e.1 e.2 ps) ps) := by
  induction steps generalizing ps with
  | nil => rfl
  | cons e steps ih =>
      obtain ⟨⟨hn, hself⟩, hsteps⟩ := List.forall_mem_cons.mp hsteps
      rw [List.foldl_cons, List.foldl_cons, replaceAll_spelled hn hself h.1, ih hsteps h.2]

theorem render_nil (ps : List Part) : render [] ps = spelled ps := by
  rw [render, spelled]
  refine List.flatMap_congr fun p _ => ?_
  cases p <;> rfl

theorem render_fill (n v : Bytes) (values : List (Bytes × Bytes)) (ps : List Part) :
    render values (fill n [.text v] ps) = render ((n, v) :: values) ps := by
  rw [render, fill, List.flatMap_assoc, render]
  refine List.flatMap_congr fun p _ => ?_
  cases p with
  | text b => simp
  | hole m =>
      by_cases hm : m = n
      · subst hm
        simp
      · have hbeq : (m == n) = false := beq_eq_false_iff_ne.mpr hm
        simp [hm, List.lookup_cons, hbeq]

/-- To fill with texts one after the other is to fill at once. -/
theorem spelled_foldl_fill (values : List (Bytes × Bytes)) (ps : List Part) :
    spelled ((values.map fun e => (e.1, [Part.text e.2])).foldl (fun ps e => fill e.1 e.2 ps) ps) =
      render values ps := by
  induction values generalizing ps with
  | nil => exact (render_nil ps).symm
  | cons e values ih => rw [List.map_cons, List.foldl_cons, ih, render_fill]

/-! ### The parts of a text -/

/-- Scanning from the left, what is in the table becomes the parts that it says. -/
def parse (table : List (Bytes × List Part)) : Nat → Bytes → List Part
  | _, [] => []
  | skip + 1, _ :: s => parse table skip s
  | 0, c :: s =>
      match table.find? fun e => e.1.isPrefixOf (c :: s) with
      | some e => e.2 ++ parse table (e.1.length - 1) s
      | none => .text [c] :: parse table 0 s

def holes (ns : List Bytes) : List (Bytes × List Part) := ns.map fun n => (n, [.hole n])

theorem parse_drop (table : List (Bytes × List Part)) (skip : Nat) (s : Bytes) :
    parse table skip s = parse table 0 (s.drop skip) := by
  induction skip generalizing s with
  | zero => rfl
  | succ skip ih =>
      cases s with
      | nil => rfl
      | cons c s => exact ih s

theorem parse_of_none {table : List (Bytes × List Part)} {c : UInt8}
    (h : table.find? (fun e => e.1.isPrefixOf (c :: s)) = none) :
    parse table 0 (c :: s) = .text [c] :: parse table 0 s := by
  rw [parse, h]

theorem parse_of_some {table : List (Bytes × List Part)} (hn : n ≠ [])
    (h : table.find? (fun e => e.1.isPrefixOf (n ++ s)) = some (n, vs)) :
    parse table 0 (n ++ s) = vs ++ parse table 0 s := by
  obtain ⟨c, n, rfl⟩ := List.exists_cons_of_ne_nil hn
  rw [List.cons_append] at h ⊢
  rw [parse, h]
  simp only
  rw [parse_drop, List.length_cons, Nat.add_sub_cancel, List.drop_left]

/-- What is found in a table of holes stands at the head. -/
theorem exists_of_find_holes {ns : List Bytes} {e : Bytes × List Part} (hns : ∀ n ∈ ns, n ≠ [])
    (h : (holes ns).find? (fun e => e.1.isPrefixOf s) = some e) :
    ∃ n t, n ∈ ns ∧ e = (n, [.hole n]) ∧ n ++ t = s ∧ t.length < s.length := by
  obtain ⟨n, hn, rfl⟩ := List.mem_map.mp (List.mem_of_find?_eq_some h)
  obtain ⟨t, ht⟩ := List.isPrefixOf_iff_prefix.mp
    (List.find?_some (p := fun e : Bytes × List Part => e.1.isPrefixOf s) h)
  have htext : n ++ t = s := ht
  have hpos := List.length_pos_iff.mpr (hns n hn)
  refine ⟨n, t, hn, rfl, htext, ?_⟩
  rw [← htext, List.length_append]
  omega

theorem spelled_parse {ns : List Bytes} (hns : ∀ n ∈ ns, n ≠ []) (s : Bytes) :
    spelled (parse (holes ns) 0 s) = s := by
  induction hlength : s.length using Nat.strong_induction_on generalizing s with
  | _ k ih =>
      cases s with
      | nil => rfl
      | cons c s =>
          cases hfind : (holes ns).find? fun e => e.1.isPrefixOf (c :: s) with
          | none =>
              have hshort : s.length < k := hlength ▸ Nat.lt_succ_self _
              rw [parse_of_none hfind, spelled_cons, ih _ hshort s rfl]
              rfl
          | some e =>
              obtain ⟨n, t, hn, rfl, ht, hshort⟩ := exists_of_find_holes hns hfind
              rw [← ht] at hfind ⊢
              rw [parse_of_some (hns n hn) hfind, spelled_append, ih _ (hlength ▸ hshort) t rfl]
              exact congrArg (· ++ _) (List.append_nil n)

/-- With a further entry for `m`, every `m` is replaced. -/
theorem spelled_parse_cons {ns : List Bytes} (hm : m ≠ []) (hns : ∀ n ∈ ns, n ≠ [] ∧ Apart n m)
    (v s : Bytes) : spelled (parse ((m, [.text v]) :: holes ns) 0 s) = replaceAll m v s := by
  induction hlength : s.length using Nat.strong_induction_on generalizing s with
  | _ k ih =>
      cases s with
      | nil => rfl
      | cons c s =>
          by_cases hhead : m <+: c :: s
          · obtain ⟨t, ht⟩ := hhead
            have hfind : ((m, [Part.text v]) :: holes ns).find? (fun e => e.1.isPrefixOf (m ++ t)) =
                some (m, [.text v]) := by
              refine List.find?_cons_of_pos ?_
              exact List.isPrefixOf_iff_prefix.mpr (List.prefix_append m t)
            have hshort : t.length < k := by
              have hpos := List.length_pos_iff.mpr hm
              rw [← hlength, ← ht, List.length_append]
              omega
            rw [← ht, parse_of_some hm hfind, replaceAll_of_head hm, spelled_append, ih _ hshort t rfl]
            exact congrArg (· ++ _) (List.append_nil v)
          · have hskip : ((m, [Part.text v]) :: holes ns).find? (fun e => e.1.isPrefixOf (c :: s)) =
                (holes ns).find? fun e => e.1.isPrefixOf (c :: s) := by
              refine List.find?_cons_of_neg ?_
              exact fun hprefix => hhead (List.isPrefixOf_iff_prefix.mp hprefix)
            cases hfind : (holes ns).find? fun e => e.1.isPrefixOf (c :: s) with
            | none =>
                have hshort : s.length < k := hlength ▸ Nat.lt_succ_self _
                rw [parse_of_none (hskip.trans hfind), replaceAll_cons, if_neg hhead, spelled_cons,
                  ih _ hshort s rfl]
                rfl
            | some e =>
                obtain ⟨n, t, hn, rfl, ht, hshort⟩ := exists_of_find_holes (fun n hn => (hns n hn).1) hfind
                rw [← ht] at hskip hfind hhead ⊢
                rw [parse_of_some (hns n hn).1 (hskip.trans hfind), spelled_append,
                  ih _ (hlength ▸ hshort) t rfl, (hns n hn).2.replaceAll_append hhead]
                exact congrArg (· ++ _) (List.append_nil n)

end Substitution
