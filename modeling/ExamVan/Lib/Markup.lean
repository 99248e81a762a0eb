import ExamVan.Lib.Bytes

/-!
# Text with markers

A marker stands between two opening and two closing braces. There is no brace in it, and the text in
front of it does not run into its braces, so that a search for a marker finds it where it stands, and a
text has its markers in one way.
-/

namespace Markup

open ByteString

def opening : Bytes := str "\x7b\x7b"

def closing : Bytes := str "\x7d\x7d"

/-- Text that may stand in front of a marker. -/
structure Text where
  bytes : Bytes
  clear : findSub opening (bytes ++ [chr '\x7b']) = none

/-- How the markers of a language are written. -/
class Spelling (M : Type) where
  spell : M → Bytes
  spell_injective : Function.Injective spell
  noOpening : ∀ m, chr '\x7b' ∉ spell m
  noClosing : ∀ m, chr '\x7d' ∉ spell m

export Spelling (spell)

inductive Piece (M : Type) where
  | text (t : Text)
  | mark (m : M)

variable {M : Type} [Spelling M] {m k : M} {n s t : Bytes} {ps qs : List (Piece M)}

def markText (m : M) : Bytes := opening ++ (spell m ++ closing)

def Piece.bytes : Piece M → Bytes
  | .text t => t.bytes
  | .mark m => markText m

def flat (ps : List (Piece M)) : Bytes := ps.flatMap Piece.bytes

def Piece.mark? : Piece M → Option M
  | .text _ => none
  | .mark m => some m

def marks (ps : List (Piece M)) : List M := ps.filterMap Piece.mark?

@[simp]
theorem flat_nil : flat ([] : List (Piece M)) = [] := rfl

@[simp]
theorem flat_cons (p : Piece M) (ps : List (Piece M)) : flat (p :: ps) = p.bytes ++ flat ps := rfl

@[simp]
theorem flat_append (ps qs : List (Piece M)) : flat (ps ++ qs) = flat ps ++ flat qs :=
  List.flatMap_append

omit [Spelling M] in
theorem mem_marks : m ∈ marks ps ↔ Piece.mark m ∈ ps := by
  rw [marks, List.mem_filterMap]
  constructor
  · rintro ⟨p, hp, hm⟩
    cases p with
    | text t => cases hm
    | mark m' =>
        cases hm
        exact hp
  · exact fun h => ⟨_, h, rfl⟩

/-! ### Searching -/

/-- What is not found is in no longer text either. -/
theorem findSub_append_eq_none (h : findSub t s = none) (n : Bytes) : findSub (t ++ n) s = none := by
  induction s with
  | nil =>
      rw [findSub_nil] at h ⊢
      split at h
      · cases h
      · next hne => exact if_neg fun hnil => hne (List.append_eq_nil_iff.mp hnil).1
  | cons c s ih =>
      rw [findSub_cons] at h ⊢
      split at h
      · cases h
      · next hno =>
        rw [if_neg fun hhead => hno ((List.prefix_append t n).trans hhead)]
        exact ih h

/-- A search for a marker goes past text. -/
theorem findSub_text (t : Text) (n s : Bytes) :
    findSub (opening ++ n) (t.bytes ++ s) = findSub (opening ++ n) s := by
  obtain ⟨bytes, hclear⟩ := t
  induction bytes with
  | nil => rfl
  | cons c bytes ih =>
      rw [List.cons_append, findSub_cons] at hclear
      split at hclear
      · cases hclear
      · next hno =>
        have hhead : ¬ opening ++ n <+: c :: (bytes ++ s) := by
          intro hprefix
          have hbraces := (List.prefix_append opening n).trans hprefix
          apply hno
          cases bytes with
          | nil =>
              obtain ⟨rfl, -⟩ := List.cons_prefix_cons.mp hbraces
              exact List.prefix_rfl
          | cons d bytes =>
              obtain ⟨rfl, hnext⟩ := List.cons_prefix_cons.mp hbraces
              obtain ⟨rfl, -⟩ := List.cons_prefix_cons.mp hnext
              exact List.cons_prefix_cons.mpr ⟨rfl, List.cons_prefix_cons.mpr ⟨rfl, List.nil_prefix⟩⟩
        rw [List.cons_append, findSub_cons, if_neg hhead]
        exact ih hclear

/-- A search for another marker goes past a marker. -/
theorem findSub_mark (h : ¬ opening ++ n <+: markText m ++ s) :
    findSub (opening ++ n) (markText m ++ s) = findSub (opening ++ n) s := by
  have htext : markText m ++ s = chr '\x7b' :: chr '\x7b' :: ((spell m ++ closing) ++ s) := rfl
  have hinner : chr '\x7b' ∉ spell m ++ closing := by
    rw [List.mem_append, not_or]
    exact ⟨Spelling.noOpening m, by decide⟩
  have hsecond : ¬ opening ++ n <+: chr '\x7b' :: ((spell m ++ closing) ++ s) := by
    intro hprefix
    obtain ⟨-, hnext⟩ := List.cons_prefix_cons.mp hprefix
    cases hspell : spell m ++ closing with
    | nil => exact absurd (congrArg List.length hspell) (by simp [closing, str])
    | cons c inner =>
        rw [hspell, List.cons_append] at hnext
        obtain ⟨rfl, -⟩ := List.cons_prefix_cons.mp hnext
        exact hinner (hspell ▸ List.mem_cons_self)
  rw [htext] at h ⊢
  rw [findSub_cons, if_neg h, findSub_cons, if_neg hsecond]
  exact findSub_append_of_notMem hinner

theorem markText_inj (h : markText k <+: markText m ++ s) : k = m := by
  obtain ⟨rest, heq⟩ := h
  simp only [markText, List.append_assoc] at heq
  have hinner := congrArg (List.takeWhile (· ≠ chr '\x7d')) (List.append_cancel_left heq)
  have hbefore : ∀ (m : M) (s : Bytes),
      (spell m ++ (closing ++ s)).takeWhile (· ≠ chr '\x7d') = spell m := fun m s =>
    (takeWhile_ne_append (Spelling.noClosing m) _).1
  rw [hbefore, hbefore] at hinner
  exact Spelling.spell_injective hinner

/-- A marker that is not there is not found. -/
theorem findSub_markText (h : Piece.mark k ∉ ps) (s : Bytes) :
    findSub (markText k) (flat ps ++ s) = findSub (markText k) s := by
  induction ps with
  | nil => rfl
  | cons p ps ih =>
      rw [List.mem_cons, not_or] at h
      rw [flat_cons, List.append_assoc, ← ih h.2]
      cases p with
      | text t => exact findSub_text t _ _
      | mark m =>
          refine findSub_mark fun hprefix => h.1 ?_
          rw [markText_inj hprefix]

theorem findSub_closing (m : M) (s : Bytes) :
    findSub closing (markText m ++ s) = some (closing ++ s) := by
  have hinner : chr '\x7d' ∉ opening ++ spell m := by
    rw [List.mem_append, not_or]
    exact ⟨by decide, Spelling.noClosing m⟩
  have htext : markText m ++ s = (opening ++ spell m) ++ (closing ++ s) := by
    simp only [markText, List.append_assoc]
  rw [htext, show closing = chr '\x7d' :: str "\x7d" from rfl, findSub_append_of_notMem hinner]
  exact findSub_of_head (List.prefix_append _ _)

/-! ### The markers of a text -/

theorem findSub_opening_of_nil (h : marks ps = []) (s : Bytes) :
    findSub opening (flat ps ++ s) = findSub opening s := by
  induction ps with
  | nil => rfl
  | cons p ps ih =>
      cases p with
      | text t =>
          rw [flat_cons, List.append_assoc, ← ih h]
          exact findSub_text t [] _
      | mark m => cases h

theorem findSub_opening_of_cons {ms : List M} (h : marks ps = m :: ms) (s : Bytes) :
    ∃ qs, marks qs = ms ∧ findSub opening (flat ps ++ s) = some (markText m ++ (flat qs ++ s)) := by
  induction ps with
  | nil => cases h
  | cons p ps ih =>
      cases p with
      | text t =>
          obtain ⟨qs, hqs, hfound⟩ := ih h
          refine ⟨qs, hqs, ?_⟩
          rw [flat_cons, List.append_assoc, ← hfound]
          exact findSub_text t [] _
      | mark m' =>
          obtain ⟨rfl, hms⟩ := List.cons.inj h
          refine ⟨ps, hms, ?_⟩
          rw [flat_cons, List.append_assoc]
          exact findSub_of_head ((List.prefix_append _ _).trans (List.prefix_append _ _))

/-- A text has its markers in one way. -/
theorem marks_eq (hs : findSub opening s = none) (heq : flat ps ++ s = flat qs ++ s) :
    marks ps = marks qs := by
  generalize hms : marks ps = ms
  induction ms generalizing ps qs with
  | nil =>
      have hfound := findSub_opening_of_nil hms s
      rw [heq, hs] at hfound
      cases hqs : marks qs with
      | nil => rfl
      | cons m ms =>
          obtain ⟨rest, -, hsome⟩ := findSub_opening_of_cons hqs s
          rw [hsome] at hfound
          cases hfound
  | cons m ms ih =>
      obtain ⟨ps', hps', hfound⟩ := findSub_opening_of_cons hms s
      rw [heq] at hfound
      cases hqs : marks qs with
      | nil =>
          rw [findSub_opening_of_nil hqs, hs] at hfound
          cases hfound
      | cons m' ms' =>
          obtain ⟨qs', hqs', hsome⟩ := findSub_opening_of_cons hqs s
          have hmarks : markText m' ++ (flat qs' ++ s) = markText m ++ (flat ps' ++ s) :=
            Option.some.inj (hsome.symm.trans hfound)
          obtain rfl := markText_inj (hmarks ▸ List.prefix_append _ _)
          rw [ih (List.append_cancel_left hmarks).symm hps', hqs']

end Markup
