import ExamVan.Lib.JsonNames
import ExamVan.Middleware.Spelling
import ExamVan.Queue.Job
import Mathlib.Logic.Relation

/-!
# The notations of an answer

A list of tokens is written as a JSON array or with commas or semicolons, and a list of pairs as a JSON
object or as `key:value` with commas. Each notation is read back token by token.
-/

namespace ExamVan.Middleware

open ByteString ExamToken JsonText
open Queue (escapedPieces)

/-! ### Tokens and what may be changed in them -/

/-- A byte that means something in one of the notations. -/
def isSpecial (c : UInt8) : Bool := c ∈ str "\"\\,;[]\x7b\x7d\t\n\r"

structure IsEntry (t : Bytes) : Prop where
  ink : ∃ c ∈ t, isSpace c = false
  plain : ∀ c ∈ t, isSpecial c = false

/-- One change of case or of a run of spaces. -/
inductive Change : Bytes → Bytes → Prop
  | letter {c d : UInt8} (x y : Bytes) (h : tolower c = tolower d) :
      Change (x ++ c :: y) (x ++ d :: y)
  | inner (x y : Bytes) : Change (x ++ chr ' ' :: y) (x ++ chr ' ' :: chr ' ' :: y)
  | before (t : Bytes) : Change t (chr ' ' :: t)
  | behind (t : Bytes) : Change t (t ++ [chr ' '])

/-- The same token up to case and runs of spaces. -/
def Alike : Bytes → Bytes → Prop := Relation.EqvGen Change

section

variable {t u x y : Bytes} {c d : UInt8}

theorem toUpper_eq_of_tolower (h : tolower c = tolower d) : toUpper c = toUpper d := by
  have hall : ∀ c : UInt8, toUpper (tolower c) = toUpper c := forall_byte (by decide)
  rw [← hall c, h, hall d]

theorem isSpace_eq_of_tolower (h : tolower c = tolower d) : isSpace c = isSpace d := by
  have hall : ∀ c : UInt8, isSpace (tolower c) = isSpace c := forall_byte (by decide)
  rw [← hall c, h, hall d]

/-- A text behind another one is read from where the other one ends. -/
theorem normFrom_append (h : ∀ started space, normFrom started space x = normFrom started space y)
    (t : Bytes) (started space : Bool) :
    normFrom started space (t ++ x) = normFrom started space (t ++ y) := by
  induction t generalizing started space with
  | nil => exact h started space
  | cons c t ih =>
      rw [List.cons_append, List.cons_append, normFrom, normFrom, ih, ih]

theorem normAns_of_change (h : Change t u) : normAns t = normAns u := by
  cases h with
  | letter x y hcase =>
      refine normFrom_append (fun started space => ?_) x false false
      rw [normFrom, normFrom, isSpace_eq_of_tolower hcase, toUpper_eq_of_tolower hcase]
  | inner x y =>
      refine normFrom_append (fun started space => ?_) x false false
      rfl
  | before t => exact (normFrom_false true t).symm
  | behind t =>
      have hend := normFrom_append (x := []) (y := [chr ' ']) (fun started space => rfl) t false false
      rwa [List.append_nil] at hend

theorem normAns_of_alike (h : Alike t u) : normAns t = normAns u := by
  induction h with
  | rel _ _ h => exact normAns_of_change h
  | refl => rfl
  | symm _ _ _ ih => exact ih.symm
  | trans _ _ _ _ _ ih ih' => exact ih.trans ih'

/-- A byte that is no letter and no space is not affected. -/
theorem mem_iff_of_alike (h : Alike t u) (hc : c ≠ chr ' ')
    (hletter : ∀ d, tolower d = tolower c → d = c) : c ∈ t ↔ c ∈ u := by
  have hcase : ∀ {a b : UInt8}, tolower a = tolower b → (c = a ↔ c = b) := fun {a b} hab =>
    ⟨fun heq => (hletter b (by rw [← hab, heq])).symm, fun heq => (hletter a (by rw [hab, heq])).symm⟩
  induction h with
  | rel _ _ h =>
      cases h with
      | letter x y hab => simp only [List.mem_append, List.mem_cons, hcase hab]
      | inner x y => simp [hc]
      | before t => simp [hc]
      | behind t => simp [hc]
  | refl => rfl
  | symm _ _ _ ih => exact ih.symm
  | trans _ _ _ _ _ ih ih' => exact ih.trans ih'

theorem ink_iff : (∃ c ∈ t, isSpace c = false) ↔ normAns t ≠ [] := by
  constructor
  · rintro ⟨c, hc, hspace⟩
    exact List.ne_nil_of_mem (toUpper_mem_normFrom hc hspace)
  · intro hne
    by_contra hnone
    have hcount : t.countP isInk = 0 := by
      refine List.countP_eq_zero.mpr fun c hc hink => hnone ⟨c, hc, ?_⟩
      simpa [isInk] using hink
    cases hnorm : normAns t with
    | nil => exact hne hnorm
    | cons a r =>
        have hall : ∀ {started space : Bool} {t : Bytes}, t.countP isInk = 0 →
            normFrom started space t = [] := by
          intro started space t
          induction t generalizing started space with
          | nil => exact fun _ => rfl
          | cons c t ih =>
              intro hzero
              have hc := List.countP_eq_zero.mp hzero c List.mem_cons_self
              have hrest := List.countP_eq_zero.mpr fun d hd =>
                List.countP_eq_zero.mp hzero d (List.mem_cons_of_mem _ hd)
              rw [normFrom, if_pos (by simpa [isInk] using hc)]
              exact ih hrest
        exact hne (hall hcount)

theorem IsEntry.of_alike (ht : IsEntry t) (h : Alike t u) : IsEntry u where
  ink := by
    rw [ink_iff, ← normAns_of_alike h]
    exact ink_iff.mp ht.ink
  plain c hc := by
    cases hspecial : isSpecial c with
    | false => rfl
    | true =>
        have hall : ∀ c ∈ str "\"\\,;[]\x7b\x7d\t\n\r",
            c ≠ chr ' ' ∧ ∀ i < 16, ∀ j < 16,
              tolower (UInt8.ofNat (16 * i + j)) = tolower c → UInt8.ofNat (16 * i + j) = c := by
          decide +kernel
        obtain ⟨hblank, hletter⟩ := hall c (by simpa [isSpecial] using hspecial)
        have hmem := (mem_iff_of_alike h hblank
          (forall_byte (p := fun d => tolower d = tolower c → d = c) hletter)).mpr hc
        rw [ht.plain c hmem] at hspecial
        cases hspecial

/-! ### Escapes -/

/-- What a token is read as in JSON: its escapes are dropped. -/
def unescaped (t : Bytes) : Bytes := dropEscapes (escapedPieces t)

/-- A token has no control characters but form feeds, and none of those is all that stands between
two words. -/
def Harmless (t : Bytes) : Prop :=
  (∀ c ∈ t, 0x20 ≤ c ∨ c = 12) ∧ joined false false (escapedPieces t) = false

instance (t : Bytes) : Decidable (Harmless t) := inferInstanceAs (Decidable (_ ∧ _))

theorem dropEscapes_append (s s' : List Piece) :
    dropEscapes (s ++ s') = dropEscapes s ++ dropEscapes s' := by
  induction s with
  | nil => rfl
  | cons p s ih => cases p <;> simp [dropEscapes, ih]

theorem unescaped_append (t u : Bytes) : unescaped (t ++ u) = unescaped t ++ unescaped u := by
  rw [unescaped, escapedPieces, List.map_append, dropEscapes_append]
  rfl

theorem unescaped_cons (c : UInt8) (t : Bytes) : unescaped (c :: t) = unescaped [c] ++ unescaped t :=
  unescaped_append [c] t

theorem unescaped_letter (h : tolower c = tolower d) (hne : c ≠ d) :
    unescaped [c] = [c] ∧ unescaped [d] = [d] := by
  have hupper : ∀ c, tolower c ≠ c → unescaped [c] = [c] ∧ unescaped [tolower c] = [tolower c] :=
    forall_byte (by decide)
  by_cases hc : tolower c = c
  · have hd : tolower d ≠ d := fun hd => hne (by rw [← hc, h, hd])
    obtain ⟨hself, hlower⟩ := hupper d hd
    rw [← h, hc] at hlower
    exact ⟨hlower, hself⟩
  · obtain ⟨hself, hlower⟩ := hupper c hc
    refine ⟨hself, ?_⟩
    by_cases hd : tolower d = d
    · rwa [h, hd] at hlower
    · exact (hupper d hd).1

theorem unescaped_space : unescaped [chr ' '] = [chr ' '] := by decide

/-- A change of a token is the same change of what is left without escapes. -/
theorem Alike.unescaped (h : Alike t u) : Alike (unescaped t) (unescaped u) := by
  induction h with
  | rel _ _ h =>
      cases h with
      | @letter c d x y hcase =>
          rw [unescaped_append, unescaped_append, unescaped_cons c, unescaped_cons d]
          by_cases hcd : c = d
          · rw [hcd]
            exact .refl _
          · rw [(unescaped_letter hcase hcd).1, (unescaped_letter hcase hcd).2]
            exact .rel _ _ (.letter _ _ hcase)
      | inner x y =>
          rw [unescaped_append, unescaped_append, unescaped_cons (chr ' ') y,
            unescaped_cons (chr ' ') (chr ' ' :: y), unescaped_cons (chr ' ') y, unescaped_space]
          exact .rel _ _ (.inner _ _)
      | before t =>
          rw [unescaped_cons (chr ' '), unescaped_space]
          exact .rel _ _ (.before _)
      | behind t =>
          rw [unescaped_append, unescaped_space]
          exact .rel _ _ (.behind _)
  | refl => exact .refl _
  | symm _ _ _ ih => exact .symm _ _ ih
  | trans _ _ _ _ _ ih ih' => exact .trans _ _ _ ih ih'

theorem isPlainOrBlank_escapedPiece (hspecial : isSpecial c = false) (hc : 0x20 ≤ c ∨ c = 12) :
    isPlainOrBlank (Queue.escapedPiece c) = true := by
  have hall : ∀ c, isSpecial c = false → 0x20 ≤ c ∨ c = 12 →
      isPlainOrBlank (Queue.escapedPiece c) = true := forall_byte (by decide)
  exact hall c hspecial hc

/-- A harmless token is read from JSON as it is. -/
theorem normAns_unescaped (ht : IsEntry t) (h : Harmless t) : normAns (unescaped t) = normAns t := by
  have hdecode := (normAns_dropEscapes_iff (escapedPieces t)).mpr ⟨fun p hp => ?_, h.2⟩
  · rwa [Queue.decode_escapedPieces] at hdecode
  · obtain ⟨c, hc, rfl⟩ := List.mem_map.mp hp
    exact isPlainOrBlank_escapedPiece (ht.plain c hc) (h.1 c hc)

theorem normAns_unescaped_of_alike (ht : IsEntry t) (h : Harmless t) (hu : Alike t u) :
    normAns (unescaped u) = normAns u := by
  rw [← normAns_of_alike hu.unescaped, normAns_unescaped ht h, normAns_of_alike hu]

end

end ExamVan.Middleware
