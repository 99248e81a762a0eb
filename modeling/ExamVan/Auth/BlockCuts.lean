import ExamVan.Auth.TemplateBlocks
import Mathlib.Algebra.Order.BigOperators.Group.List
import Mathlib.Algebra.Order.Group.Int

/-!
# The cuts that `resolve_if_block` makes

It counts conditions, and no ranges, and takes the first `{{else}}`. The depth that a cut leaves behind shows
whether it is that of the block: what is kept for one truth value is missing for the other, so that
neither text is balanced if one is not.
-/

namespace ExamVan.Auth

open ByteString Markup

variable {field : Name} {d : Nat} {p : Piece Marker} {ps inside behind rest before after last : Pieces}
  {cuts : List (Pieces × Pieces)}

/-! ### The depth -/

def isRange : Piece Marker → Bool
  | .mark (.opener (.range _)) => true
  | _ => false

def weight : Piece Marker → Int
  | .mark (.opener _) => 1
  | .mark .finish => -1
  | .mark .otherwise | .text _ => 0

theorem weight_text (t : Text) : weight (.text t) = 0 := rfl

theorem weight_opener (o : Opener) : weight (.mark (.opener o)) = 1 := rfl

theorem weight_finish : weight (.mark .finish) = -1 := rfl

theorem weight_otherwise : weight (.mark .otherwise) = 0 := rfl

/-- The number of blocks that are opened and not closed. -/
def height (ps : Pieces) : Int := (ps.map weight).sum

@[simp]
theorem height_nil : height [] = 0 := rfl

@[simp]
theorem height_cons (p : Piece Marker) (ps : Pieces) : height (p :: ps) = weight p + height ps :=
  List.sum_cons

@[simp]
theorem height_append (ps qs : Pieces) : height (ps ++ qs) = height ps + height qs := by
  rw [height, List.map_append, List.sum_append]
  rfl

theorem height_congr {qs : Pieces} (h : marks ps = marks qs) : height ps = height qs := by
  have hmarks : ∀ ps : Pieces, height ps = ((marks ps).map fun m => weight (.mark m)).sum := by
    intro ps
    induction ps with
    | nil => rfl
    | cons p ps ih =>
        rw [height_cons, ih]
        cases p with
        | text t => exact Int.zero_add _
        | mark m => exact List.sum_cons.symm
  rw [hmarks, hmarks, h]

theorem weight_of_countDepth {d' : Nat} (h : countDepth d p = some d') :
    weight p + d = d' + if isRange p then 1 else 0 := by
  rcases p with t | ((f | items) | _ | _)
  case mark.finish =>
    cases d with
    | zero => cases h
    | succ d =>
        cases h
        show -1 + ((d + 1 : Nat) : Int) = d + 0
        omega
  case mark.opener.cond =>
    cases h
    show 1 + (d : Int) = ((d + 1 : Nat) : Int) + 0
    omega
  case mark.opener.range =>
    cases h
    exact Int.add_comm _ _
  case text | mark.otherwise =>
    cases h
    exact Int.add_comm _ _

/-- The loop counts every block but the ranges, and is at no depth below zero in between. -/
theorem height_of_splitFinish (h : splitFinish d ps = some (inside, behind)) :
    height inside + d = inside.countP isRange ∧ ∀ q, q <+: inside → 0 ≤ height q + d := by
  induction ps generalizing d inside with
  | nil => cases h
  | cons p ps ih =>
      cases hp : countDepth d p with
      | none =>
          rw [splitFinish_of_none hp] at h
          cases h
          obtain ⟨rfl, -⟩ := countDepth_eq_none hp
          refine ⟨rfl, fun q hq => ?_⟩
          rw [List.prefix_nil.mp hq]
          exact Int.le_refl 0
      | some d' =>
          rw [splitFinish_of_some hp] at h
          obtain ⟨r, hr, heq⟩ := Option.map_eq_some_iff.mp h
          cases heq
          obtain ⟨hall, hprefix⟩ := ih hr
          have hweight := weight_of_countDepth hp
          constructor
          · have hcount : ((p :: r.1).countP isRange : Int) =
                r.1.countP isRange + if isRange p then 1 else 0 := by
              rw [List.countP_cons]
              push_cast
              split <;> rfl
            rw [height_cons, hcount]
            omega
          · intro q hq
            rcases List.prefix_cons_iff.mp hq with rfl | ⟨t, rfl, ht⟩
            · rw [height_nil, Int.zero_add]
              exact Int.natCast_nonneg d
            · have hinner := hprefix t ht
              rw [height_cons]
              split at hweight <;> omega

theorem height_kept (inside : Pieces) :
    height (kept true inside) + height (kept false inside) = height inside := by
  by_cases hmem : Piece.mark Marker.otherwise ∈ inside
  · obtain ⟨first, second, rfl, hfirst⟩ := List.eq_append_cons_of_mem hmem
    rw [kept_append hfirst, kept_append hfirst, height_append, height_cons, weight_otherwise, Int.zero_add]
    rfl
  · rw [kept_of_notMem hmem, kept_of_notMem hmem]
    exact Int.add_zero _

/-- What is cut away is missing. -/
theorem height_joined (keep : Bool) (h : Chopped field ps cuts last) :
    height (joined keep cuts last) + (cuts.map fun c => height (kept (!keep) c.2)).sum = height ps := by
  induction h with
  | done _ => exact Int.add_zero _
  | stuck _ _ => exact Int.add_zero _
  | @cut before rest inside behind last cuts hbefore hsplit _ ih =>
      have hinside : height (kept keep inside) + height (kept (!keep) inside) = height inside := by
        rw [← height_kept inside]
        cases keep with
        | true => rfl
        | false => exact Int.add_comm _ _
      have hopen : weight (condition field) = 1 := rfl
      rw [eq_of_splitFinish hsplit, joined_cons, List.map_cons, List.sum_cons]
      simp only [height_append, height_cons, hopen, weight_finish]
      omega

/-! ### The cuts of a template -/

/-- There is no block of the field and no range. -/
def Plain (field : Name) (ps : Pieces) : Prop := condition field ∉ ps ∧ ∀ p ∈ ps, isRange p = false

namespace Template

variable {t : Template}

/-- A block of the field has no range in it, no block of the same field, and no `{{else}}` but its own
in front of that. -/
def Separate (field : Name) : Template → Prop
  | nil => True
  | text _ rest => rest.Separate field
  | block o body rest =>
      (if o = .cond field then Plain field body.pieces ∧ Piece.mark .otherwise ∉ body.pieces
        else body.Separate field) ∧ rest.Separate field
  | alternative o body otherwise rest =>
      (if o = .cond field then
          (Plain field body.pieces ∧ Piece.mark .otherwise ∉ body.pieces) ∧ Plain field otherwise.pieces
        else body.Separate field ∧ otherwise.Separate field) ∧ rest.Separate field

theorem separate_block (o : Opener) (body rest : Template) : (block o body rest).Separate field =
    ((if o = .cond field then Plain field body.pieces ∧ Piece.mark .otherwise ∉ body.pieces
      else body.Separate field) ∧ rest.Separate field) := rfl

theorem separate_alternative (o : Opener) (body otherwise rest : Template) :
    (alternative o body otherwise rest).Separate field =
      ((if o = .cond field then
          (Plain field body.pieces ∧ Piece.mark .otherwise ∉ body.pieces) ∧ Plain field otherwise.pieces
        else body.Separate field ∧ otherwise.Separate field) ∧ rest.Separate field) := rfl

theorem pieces_append (t u : Template) : (t.append u).pieces = t.pieces ++ u.pieces := by
  induction t with
  | nil => rfl
  | text t rest ih => rw [append_text, pieces_text, pieces_text, ih, List.cons_append]
  | block o body rest _ ih => simp only [append_block, pieces_block, ih, List.append_assoc, List.cons_append]
  | alternative o body otherwise rest _ _ ih =>
      simp only [append_alternative, pieces_alternative, ih, List.append_assoc, List.cons_append]

theorem resolve_eq_self (h : condition field ∉ t.pieces) (keep : Bool) : t.resolve field keep = t := by
  induction t with
  | nil => rfl
  | text t rest ih => rw [resolve_text, ih fun hmem => h (List.mem_cons_of_mem _ hmem)]
  | block o body rest hbody hrest =>
      simp only [pieces_block, List.mem_cons, List.mem_append, not_or] at h
      have ho : o ≠ .cond field := fun heq => h.1 (heq ▸ rfl)
      rw [resolve_block, if_neg ho, hbody h.2.1, hrest h.2.2.2]
  | alternative o body otherwise rest hbody hotherwise hrest =>
      simp only [pieces_alternative, List.mem_cons, List.mem_append, not_or] at h
      have ho : o ≠ .cond field := fun heq => h.1 (heq ▸ rfl)
      rw [resolve_alternative, if_neg ho, hbody h.2.1, hotherwise h.2.2.2.1, hrest h.2.2.2.2.2]

theorem condition_notMem_resolve (field : Name) (keep : Bool) (t : Template) :
    condition field ∉ (t.resolve field keep).pieces := by
  have hopener : ∀ o : Opener, o ≠ .cond field → condition field ≠ .mark (.opener o) := by
    rintro o ho heq
    exact ho (Marker.opener.inj (Piece.mark.inj heq)).symm
  have hmark : condition field ≠ .mark .finish ∧ condition field ≠ .mark .otherwise :=
    ⟨nofun, nofun⟩
  induction t with
  | nil => exact List.not_mem_nil
  | text t rest ih => exact List.not_mem_cons_of_ne_of_not_mem nofun ih
  | block o body rest hbody hrest =>
      rw [resolve_block]
      split
      · cases keep with
        | true =>
            rw [if_pos rfl, pieces_append, List.mem_append, not_or]
            exact ⟨hbody, hrest⟩
        | false => exact hrest
      · next ho =>
        simp only [pieces_block, List.mem_cons, List.mem_append, not_or]
        exact ⟨hopener o ho, hbody, hmark.1, hrest⟩
  | alternative o body otherwise rest hbody hotherwise hrest =>
      rw [resolve_alternative]
      split
      · rw [pieces_append, List.mem_append, not_or]
        cases keep with
        | true => exact ⟨hbody, hrest⟩
        | false => exact ⟨hotherwise, hrest⟩
      · next ho =>
        simp only [pieces_alternative, List.mem_cons, List.mem_append, not_or]
        exact ⟨hopener o ho, hbody, hmark.2, hotherwise, hmark.1, hrest⟩

theorem height_pieces (t : Template) : height t.pieces = 0 := by
  induction t with
  | nil => rfl
  | text t rest ih =>
      rw [pieces_text, height_cons, ih]
      rfl
  | block o body rest hbody hrest =>
      rw [pieces_block, height_cons, height_append, height_cons, hbody, hrest]
      rfl
  | alternative o body otherwise rest hbody hotherwise hrest =>
      rw [pieces_alternative, height_cons, height_append, height_cons, height_append, height_cons, hbody, hotherwise,
        hrest]
      rfl

/-- Each `{{else}}` stands in an open block. -/
theorem height_before_otherwise (h : Piece.mark .otherwise ∈ t.pieces) :
    0 < height (kept true t.pieces) := by
  have hcons : ∀ (p : Piece Marker) (ps : Pieces), (!isOtherwise p) = true →
      height (kept true (p :: ps)) = weight p + height (kept true ps) := by
    intro p ps hp
    rw [kept, if_pos rfl, List.takeWhile_cons_of_pos (p := (!isOtherwise ·)) hp, height_cons]
    rfl
  have hskip : ∀ (ps qs : Pieces), Piece.mark .otherwise ∉ ps →
      height (kept true (ps ++ qs)) = height ps + height (kept true qs) := by
    intro ps qs hps
    rw [kept, if_pos rfl, List.takeWhile_append_of_pos (isOtherwise_of_notMem hps), height_append]
    rfl
  have hfirst : ∀ ps qs : Pieces, Piece.mark .otherwise ∈ ps → kept true (ps ++ qs) = kept true ps := by
    intro ps qs hps
    obtain ⟨first, second, rfl, hno⟩ := List.eq_append_cons_of_mem hps
    rw [List.append_assoc, List.cons_append, kept_append hno, kept_append hno, if_pos rfl, if_pos rfl]
  induction t with
  | nil => cases h
  | text t rest ih =>
      rw [pieces_text, hcons _ _ rfl]
      rw [pieces_text, List.mem_cons, or_iff_right (by simp)] at h
      have hrest := ih h
      rw [weight_text]
      omega
  | block o body rest hbody hrest =>
      rw [pieces_block, hcons _ _ rfl]
      by_cases hmem : Piece.mark .otherwise ∈ body.pieces
      · rw [hfirst _ _ hmem]
        have := hbody hmem
        rw [weight_opener]
        omega
      · rw [hskip _ _ hmem, hcons _ _ rfl, height_pieces]
        have hmore : Piece.mark .otherwise ∈ rest.pieces := by
          simpa [pieces_block, hmem] using h
        have := hrest hmore
        rw [weight_opener, weight_finish]
        omega
  | alternative o body otherwise rest hbody _ _ =>
      rw [pieces_alternative, hcons _ _ rfl]
      by_cases hmem : Piece.mark .otherwise ∈ body.pieces
      · rw [hfirst _ _ hmem]
        have := hbody hmem
        rw [weight_opener]
        omega
      · rw [hskip _ _ hmem, height_pieces]
        exact Int.one_pos

/-- Without a range the loop counts all blocks, and goes past a template. -/
theorem splitFinish_pieces (h : ∀ p ∈ t.pieces, isRange p = false) (d : Nat) (after : Pieces) :
    splitFinish d (t.pieces ++ after) =
      (splitFinish d after).map fun r => (t.pieces ++ r.1, r.2) := by
  induction t generalizing d after with
  | nil => exact (congrFun Option.map_id (splitFinish d after)).symm
  | text t rest ih =>
      rw [pieces_text, List.cons_append, splitFinish_of_some rfl,
        ih (fun p hp => h p (List.mem_cons_of_mem _ hp)), Option.map_map]
      rfl
  | block o body rest hbody hrest =>
      rw [pieces_block, List.forall_mem_cons, List.forall_mem_append, List.forall_mem_cons] at h
      cases o with
      | range items => exact nomatch h.1
      | cond f =>
          rw [pieces_block, List.cons_append, List.append_assoc, List.cons_append, splitFinish_of_some rfl,
            hbody h.2.1, splitFinish_of_some (countDepth_finish d), hrest h.2.2.2, Option.map_map, Option.map_map, Option.map_map]
          simp only [Function.comp_def, List.cons_append, List.append_assoc]
  | alternative o body otherwise rest hbody hotherwise hrest =>
      rw [pieces_alternative, List.forall_mem_cons, List.forall_mem_append, List.forall_mem_cons,
        List.forall_mem_append, List.forall_mem_cons] at h
      cases o with
      | range items => exact nomatch h.1
      | cond f =>
          obtain ⟨-, hin, -, hin', -, hin''⟩ := h
          rw [pieces_alternative, List.cons_append, List.append_assoc, List.cons_append, List.append_assoc,
            List.cons_append, splitFinish_of_some rfl, hbody hin, splitFinish_of_some rfl, hotherwise hin',
            splitFinish_of_some (countDepth_finish d), hrest hin'', Option.map_map, Option.map_map, Option.map_map,
            Option.map_map, Option.map_map]
          simp only [Function.comp_def, List.cons_append, List.append_assoc]

/-- If no range is in the text up to the end that is found, the template is in it. -/
theorem pieces_of_splitFinish (h : splitFinish d (t.pieces ++ after) = some (inside, behind))
    (hrange : ∀ p ∈ inside, isRange p = false) :
    ∃ more, inside = t.pieces ++ more ∧ splitFinish d after = some (more, behind) := by
  have hpeel : ∀ {d d' : Nat} {p : Piece Marker} {ps inside : Pieces}, countDepth d p = some d' →
      splitFinish d (p :: ps) = some (inside, behind) → (∀ p ∈ inside, isRange p = false) →
      isRange p = false ∧ ∃ more, inside = p :: more ∧ splitFinish d' ps = some (more, behind) ∧
        ∀ p ∈ more, isRange p = false := by
    intro d d' p ps inside hd hsplit hno
    rw [splitFinish_of_some hd] at hsplit
    obtain ⟨r, hr, heq⟩ := Option.map_eq_some_iff.mp hsplit
    cases heq
    rw [List.forall_mem_cons] at hno
    exact ⟨hno.1, r.1, rfl, hr, hno.2⟩
  induction t generalizing d inside after with
  | nil => exact ⟨inside, rfl, h⟩
  | text t rest ih =>
      obtain ⟨-, more, rfl, hmore, hno⟩ := hpeel rfl h hrange
      obtain ⟨more, rfl, hafter⟩ := ih hmore hno
      exact ⟨more, rfl, hafter⟩
  | block o body rest hbody hrest =>
      rw [pieces_block, List.cons_append, List.append_assoc, List.cons_append] at h
      cases o with
      | range items => exact nomatch (hpeel rfl h hrange).1
      | cond f =>
          obtain ⟨-, more, rfl, hmore, hno⟩ := hpeel rfl h hrange
          obtain ⟨more, rfl, hbehind⟩ := hbody hmore hno
          have hno := (List.forall_mem_append.mp hno).2
          obtain ⟨-, more, rfl, hmore, hno⟩ := hpeel (countDepth_finish d) hbehind hno
          obtain ⟨more, rfl, hafter⟩ := hrest hmore hno
          refine ⟨more, ?_, hafter⟩
          simp only [pieces_block, List.cons_append, List.append_assoc]
  | alternative o body otherwise rest hbody hotherwise hrest =>
      rw [pieces_alternative, List.cons_append, List.append_assoc, List.cons_append, List.append_assoc,
        List.cons_append] at h
      cases o with
      | range items => exact nomatch (hpeel rfl h hrange).1
      | cond f =>
          obtain ⟨-, more, rfl, hmore, hno⟩ := hpeel rfl h hrange
          obtain ⟨more, rfl, hbehind⟩ := hbody hmore hno
          have hno := (List.forall_mem_append.mp hno).2
          obtain ⟨-, more, rfl, hmore, hno⟩ := hpeel rfl hbehind hno
          obtain ⟨more, rfl, hclosed⟩ := hotherwise hmore hno
          have hno := (List.forall_mem_append.mp hno).2
          obtain ⟨-, more, rfl, hmore, hno⟩ := hpeel (countDepth_finish d) hclosed hno
          obtain ⟨more, rfl, hafter⟩ := hrest hmore hno
          refine ⟨more, ?_, hafter⟩
          simp only [pieces_alternative, List.cons_append, List.append_assoc]

end Template

/-! ### The cuts are those of the blocks -/

/-- Which cuts leave a template, whatever is kept. -/
structure ClearCut (field : Name) (inside : Pieces) : Prop where
  noRange : ∀ p ∈ inside, isRange p = false
  level : height (kept true inside) = 0
  noCondition : ∀ keep, condition field ∉ kept keep inside

theorem eq_of_first {q : Piece Marker} {xs ys us vs : Pieces} (hxs : q ∉ xs) (hys : q ∉ ys)
    (h : xs ++ q :: us = ys ++ q :: vs) : xs = ys ∧ us = vs := by
  rcases List.append_eq_append_iff.mp h with ⟨between, rfl, heq⟩ | ⟨between, rfl, heq⟩
  all_goals
    cases between with
    | nil => simp_all
    | cons p between => simp_all

theorem exists_cut (hbefore : condition field ∉ before) (hlast : condition field ∉ last)
    (h : Chopped field (before ++ condition field :: rest) cuts last) :
    ∃ inside behind cuts', splitFinish 0 rest = some (inside, behind) ∧
      cuts = (before, inside) :: cuts' ∧ Chopped field behind cuts' last := by
  generalize hps : before ++ condition field :: rest = ps at h
  cases h with
  | done hno => exact absurd (hps ▸ List.mem_append_right _ List.mem_cons_self) hno
  | stuck _ _ => exact absurd (List.mem_append_right _ List.mem_cons_self) hlast
  | cut hbefore' hsplit hcut =>
      obtain ⟨rfl, rfl⟩ := eq_of_first hbefore hbefore' hps
      exact ⟨_, _, _, hsplit, rfl, hcut⟩

theorem notMem_concat {q p : Piece Marker} (h : q ∉ ps) (hne : q ≠ p) : q ∉ ps ++ [p] := by
  rw [List.mem_append, List.mem_singleton, not_or]
  exact ⟨h, hne⟩

theorem condition_ne_opener {o : Opener} (ho : o ≠ .cond field) :
    condition field ≠ .mark (.opener o) := fun heq => ho (Marker.opener.inj (Piece.mark.inj heq)).symm

namespace Template

variable {t : Template}

theorem plain_of_clearCut (h : ClearCut field t.pieces) :
    Plain field t.pieces ∧ Piece.mark .otherwise ∉ t.pieces := by
  have hno : Piece.mark .otherwise ∉ t.pieces := by
    intro hmem
    have hpos := height_before_otherwise hmem
    rw [h.level] at hpos
    exact absurd hpos (Int.lt_irrefl 0)
  have hcondition := h.noCondition true
  rw [kept_of_notMem hno, if_pos rfl] at hcondition
  exact ⟨⟨hcondition, h.noRange⟩, hno⟩

theorem plain_of_clearCut_alternative {u : Template}
    (h : ClearCut field (t.pieces ++ .mark .otherwise :: u.pieces)) :
    (Plain field t.pieces ∧ Piece.mark .otherwise ∉ t.pieces) ∧ Plain field u.pieces := by
  have hno : Piece.mark .otherwise ∉ t.pieces := by
    intro hmem
    have hpos := height_before_otherwise hmem
    obtain ⟨first, second, heq, hfirst⟩ := List.eq_append_cons_of_mem hmem
    have hlevel := h.level
    rw [heq, List.append_assoc, List.cons_append, kept_append hfirst, if_pos rfl] at hlevel
    rw [heq, kept_append hfirst, if_pos rfl, hlevel] at hpos
    exact absurd hpos (Int.lt_irrefl 0)
  have hrange := List.forall_mem_append.mp h.noRange
  have htrue := h.noCondition true
  have hfalse := h.noCondition false
  rw [kept_append hno, if_pos rfl] at htrue
  rw [kept_append hno, if_neg Bool.false_ne_true] at hfalse
  exact ⟨⟨⟨htrue, hrange.1⟩, hno⟩, hfalse, (List.forall_mem_cons.mp hrange.2).2⟩

/-- Where all cuts are clear, they are those of the blocks. -/
theorem separate_of_chopped (hlast : condition field ∉ last) (hbefore : condition field ∉ before)
    (h : Chopped field (before ++ (t.pieces ++ after)) cuts last)
    (hclear : ∀ c ∈ cuts, ClearCut field c.2) :
    t.Separate field ∧ ∃ before' cuts', condition field ∉ before' ∧
      Chopped field (before' ++ after) cuts' last ∧ ∀ c ∈ cuts', ClearCut field c.2 := by
  have hfinish : ∀ {ps more behind : Pieces}, splitFinish 0 (.mark .finish :: ps) = some (more, behind) →
      more = [] ∧ behind = ps := by
    intro ps more behind hsplit
    rw [splitFinish_of_none rfl] at hsplit
    cases hsplit
    exact ⟨rfl, rfl⟩
  have hne : condition field ≠ .mark .finish ∧ condition field ≠ .mark .otherwise ∧
      ∀ t, condition field ≠ .text t := ⟨nofun, nofun, nofun⟩
  induction t generalizing before after cuts with
  | nil => exact ⟨trivial, before, cuts, hbefore, h, hclear⟩
  | text t rest ih =>
      rw [pieces_text, List.cons_append, List.append_cons] at h
      exact ih (notMem_concat hbefore (hne.2.2 t)) h hclear
  | block o body rest hbody hrest =>
      rw [pieces_block, List.cons_append, List.append_assoc, List.cons_append] at h
      rw [separate_block]
      by_cases ho : o = .cond field
      · subst ho
        obtain ⟨inside, behind, cuts', hsplit, rfl, hcut⟩ := exists_cut hbefore hlast h
        rw [List.forall_mem_cons] at hclear
        obtain ⟨more, rfl, hmore⟩ := pieces_of_splitFinish hsplit hclear.1.noRange
        obtain ⟨rfl, rfl⟩ := hfinish hmore
        obtain ⟨hseparate, hmore⟩ := hrest (List.not_mem_nil (a := condition field)) hcut hclear.2
        rw [List.append_nil] at hclear
        rw [if_pos rfl]
        exact ⟨⟨plain_of_clearCut hclear.1, hseparate⟩, hmore⟩
      · rw [List.append_cons] at h
        obtain ⟨hbody', before', cuts', hbefore', hcut, hclear'⟩ :=
          hbody (notMem_concat hbefore (condition_ne_opener ho)) h hclear
        rw [List.append_cons] at hcut
        obtain ⟨hrest', hmore⟩ := hrest (notMem_concat hbefore' hne.1) hcut hclear'
        rw [if_neg ho]
        exact ⟨⟨hbody', hrest'⟩, hmore⟩
  | alternative o body otherwise rest hbody hotherwise hrest =>
      rw [pieces_alternative, List.cons_append, List.append_assoc, List.cons_append, List.append_assoc,
        List.cons_append] at h
      rw [separate_alternative]
      by_cases ho : o = .cond field
      · subst ho
        obtain ⟨inside, behind, cuts', hsplit, rfl, hcut⟩ := exists_cut hbefore hlast h
        rw [List.forall_mem_cons] at hclear
        obtain ⟨more, rfl, hmore⟩ := pieces_of_splitFinish hsplit hclear.1.noRange
        rw [splitFinish_of_some rfl] at hmore
        obtain ⟨⟨more, end'⟩, hr, heq⟩ := Option.map_eq_some_iff.mp hmore
        cases heq
        have hnoRange := (List.forall_mem_append.mp hclear.1.noRange).2
        obtain ⟨more, hinside, hmore⟩ := pieces_of_splitFinish hr (List.forall_mem_cons.mp hnoRange).2
        obtain ⟨rfl, rfl⟩ := hfinish hmore
        obtain ⟨hseparate, hmore⟩ := hrest (List.not_mem_nil (a := condition field)) hcut hclear.2
        rw [hinside, List.append_nil] at hclear
        rw [if_pos rfl]
        exact ⟨⟨plain_of_clearCut_alternative hclear.1, hseparate⟩, hmore⟩
      · rw [List.append_cons] at h
        obtain ⟨hbody', before', cuts', hbefore', hcut, hclear'⟩ :=
          hbody (notMem_concat hbefore (condition_ne_opener ho)) h hclear
        rw [List.append_cons] at hcut
        obtain ⟨hotherwise', before'', cuts'', hbefore'', hcut', hclear''⟩ :=
          hotherwise (notMem_concat hbefore' hne.2.1) hcut hclear'
        rw [List.append_cons] at hcut'
        obtain ⟨hrest', hmore⟩ := hrest (notMem_concat hbefore'' hne.1) hcut' hclear''
        rw [if_neg ho]
        exact ⟨⟨⟨hbody', hotherwise'⟩, hrest'⟩, hmore⟩

/-! ### The text is that of the decided template -/

/-- Whatever is kept, the cuts leave `out`. -/
def Resolves (field : Name) (ps : Pieces) (out : Bool → Pieces) : Prop :=
  ∃ cuts last, Chopped field ps cuts last ∧ ∀ keep, joined keep cuts last = out keep

theorem resolves_cut {out : Bool → Pieces} (hbefore : condition field ∉ before)
    (hsplit : splitFinish 0 rest = some (inside, behind)) (h : Resolves field behind out) :
    Resolves field (before ++ condition field :: rest) fun keep =>
      before ++ (kept keep inside ++ out keep) := by
  obtain ⟨cuts, last, hcut, hjoined⟩ := h
  refine ⟨(before, inside) :: cuts, last, .cut hbefore hsplit hcut, fun keep => ?_⟩
  rw [joined_cons, hjoined]

theorem resolves_of_separate (h : t.Separate field) {out : Bool → Pieces}
    (hafter : ∀ before, condition field ∉ before →
      Resolves field (before ++ after) fun keep => before ++ out keep)
    (hbefore : condition field ∉ before) :
    Resolves field (before ++ (t.pieces ++ after)) fun keep =>
      before ++ ((t.resolve field keep).pieces ++ out keep) := by
  have hne : condition field ≠ .mark .finish ∧ condition field ≠ .mark .otherwise ∧
      ∀ t, condition field ≠ .text t := ⟨nofun, nofun, nofun⟩
  induction t generalizing before after out with
  | nil => exact hafter before hbefore
  | text t rest ih =>
      have hrest := ih h hafter (notMem_concat hbefore (hne.2.2 t))
      simpa only [pieces_text, resolve_text, List.append_assoc, List.cons_append, List.nil_append] using hrest
  | block o body rest hbody hrest =>
      rw [separate_block] at h
      by_cases ho : o = .cond field
      · subst ho
        rw [if_pos rfl] at h
        obtain ⟨⟨hplain, hno⟩, hseparate⟩ := h
        have hbehind := hrest hseparate hafter (List.not_mem_nil (a := condition field))
        have hsplit : splitFinish 0 (body.pieces ++ .mark .finish :: (rest.pieces ++ after)) =
            some (body.pieces, rest.pieces ++ after) := by
          rw [splitFinish_pieces hplain.2, splitFinish_of_none rfl, Option.map_some, List.append_nil]
        have hkept : ∀ keep, ((block (.cond field) body rest).resolve field keep).pieces =
            kept keep body.pieces ++ (rest.resolve field keep).pieces := by
          intro keep
          rw [resolve_block, if_pos rfl, kept_of_notMem hno, resolve_eq_self hplain.1]
          cases keep with
          | true => rw [if_pos rfl, if_pos rfl, pieces_append]
          | false => rfl
        have hcut := resolves_cut hbefore hsplit hbehind
        simpa only [pieces_block, hkept, condition, List.append_assoc, List.cons_append, List.nil_append] using hcut
      · rw [if_neg ho] at h
        have hlast : ∀ before, condition field ∉ before → Resolves field
            (before ++ .mark .finish :: (rest.pieces ++ after)) fun keep =>
              before ++ .mark .finish :: ((rest.resolve field keep).pieces ++ out keep) := by
          intro before hb
          have hsecond := hrest h.2 hafter (notMem_concat hb hne.1)
          simpa only [List.append_assoc, List.cons_append, List.nil_append] using hsecond
        have hfirst := hbody h.1 hlast (notMem_concat hbefore (condition_ne_opener ho))
        simpa only [pieces_block, resolve_block, if_neg ho, List.append_assoc, List.cons_append, List.nil_append]
          using hfirst
  | alternative o body otherwise rest hbody hotherwise hrest =>
      rw [separate_alternative] at h
      by_cases ho : o = .cond field
      · subst ho
        rw [if_pos rfl] at h
        obtain ⟨⟨⟨hplain, hno⟩, hplain'⟩, hseparate⟩ := h
        have hbehind := hrest hseparate hafter (List.not_mem_nil (a := condition field))
        have hsplit : splitFinish 0 (body.pieces ++ .mark .otherwise ::
            (otherwise.pieces ++ .mark .finish :: (rest.pieces ++ after))) =
            some (body.pieces ++ .mark .otherwise :: otherwise.pieces, rest.pieces ++ after) := by
          rw [splitFinish_pieces hplain.2, splitFinish_of_some rfl, splitFinish_pieces hplain'.2,
            splitFinish_of_none rfl, Option.map_some, Option.map_some, Option.map_some, List.append_nil]
        have hkept : ∀ keep, ((alternative (.cond field) body otherwise rest).resolve field keep).pieces =
            kept keep (body.pieces ++ .mark .otherwise :: otherwise.pieces) ++
              (rest.resolve field keep).pieces := by
          intro keep
          rw [resolve_alternative, if_pos rfl, kept_append hno, resolve_eq_self hplain.1, resolve_eq_self hplain'.1,
            pieces_append]
          cases keep <;> rfl
        have hcut := resolves_cut hbefore hsplit hbehind
        simpa only [pieces_alternative, hkept, condition, List.append_assoc, List.cons_append, List.nil_append] using hcut
      · rw [if_neg ho] at h
        have hlast : ∀ before, condition field ∉ before → Resolves field
            (before ++ .mark .finish :: (rest.pieces ++ after)) fun keep =>
              before ++ .mark .finish :: ((rest.resolve field keep).pieces ++ out keep) := by
          intro before hb
          have hthird := hrest h.2 hafter (notMem_concat hb hne.1)
          simpa only [List.append_assoc, List.cons_append, List.nil_append] using hthird
        have hmiddle : ∀ before, condition field ∉ before → Resolves field
            (before ++ .mark .otherwise :: (otherwise.pieces ++ .mark .finish :: (rest.pieces ++ after)))
            fun keep => before ++ .mark .otherwise :: ((otherwise.resolve field keep).pieces ++
              .mark .finish :: ((rest.resolve field keep).pieces ++ out keep)) := by
          intro before hb
          have hsecond := hotherwise h.1.2 hlast (notMem_concat hb hne.2.1)
          simpa only [List.append_assoc, List.cons_append, List.nil_append] using hsecond
        have hfirst := hbody h.1.1 hmiddle (notMem_concat hbefore (condition_ne_opener ho))
        simpa only [pieces_alternative, resolve_alternative, if_neg ho, List.append_assoc, List.cons_append, List.nil_append]
          using hfirst

end Template

/-! ### Templates with an ending -/

/-- A template, and what stands behind its last marker. -/
structure Document where
  body : Template
  ending : Bytes
  clear : findSub opening ending = none

namespace Document

def text (d : Document) : Bytes := flat d.body.pieces ++ d.ending

def resolve (field : Name) (keep : Bool) (d : Document) : Document :=
  { d with body := d.body.resolve field keep }

end Document

/-- All cuts are clear if what is left is what it should be for either value. -/
theorem clearCut_of_right (h : Chopped field ps cuts last) (hheight : height ps = 0)
    (hlevel : ∀ keep, height (joined keep cuts last) = 0)
    (hno : ∀ keep, condition field ∉ joined keep cuts last) : ∀ c ∈ cuts, ClearCut field c.2 := by
  have hsum : ∀ keep, (cuts.map fun c => height (kept (!keep) c.2)).sum = 0 := by
    intro keep
    have hcut := height_joined keep h
    rw [hlevel keep, hheight] at hcut
    omega
  have hbound : ∀ c ∈ cuts, 0 ≤ height (kept true c.2) ∧ height c.2 = c.2.countP isRange := by
    intro c hc
    obtain ⟨rest, behind, hsplit⟩ := splitFinish_of_mem h c hc
    obtain ⟨hall, hprefix⟩ := height_of_splitFinish hsplit
    have hfirst := hprefix _ (List.takeWhile_prefix (!isOtherwise ·))
    exact ⟨by simpa [kept] using hfirst, by simpa using hall⟩
  have htrue : ∀ c ∈ cuts, height (kept true c.2) = 0 := by
    intro c hc
    refine List.all_zero_of_le_zero_le_of_sum_eq_zero ?_ (hsum false)
      (List.mem_map_of_mem (f := fun c => height (kept true c.2)) hc)
    intro n hn
    obtain ⟨c, hc, rfl⟩ := List.mem_map.mp hn
    exact (hbound c hc).1
  have hfalse : ∀ c ∈ cuts, height (kept false c.2) = 0 := by
    intro c hc
    refine List.all_zero_of_le_zero_le_of_sum_eq_zero ?_ (hsum true)
      (List.mem_map_of_mem (f := fun c => height (kept false c.2)) hc)
    intro n hn
    obtain ⟨c, hc, rfl⟩ := List.mem_map.mp hn
    have hkept := height_kept c.2
    have hcount := (hbound c hc).2
    rw [htrue c hc] at hkept
    have hpos : (0 : Int) ≤ c.2.countP isRange := Int.natCast_nonneg _
    show 0 ≤ height (kept false c.2)
    omega
  intro c hc
  refine ⟨?_, htrue c hc, fun keep hmem => hno keep ?_⟩
  · have hkept := height_kept c.2
    rw [htrue c hc, hfalse c hc, (hbound c hc).2] at hkept
    have hzero : c.2.countP isRange = 0 := by omega
    intro p hp
    exact Bool.eq_false_iff.mpr (List.countP_eq_zero.mp hzero p hp)
  · rw [joined, List.mem_append, List.mem_flatMap]
    exact Or.inl ⟨c, hc, List.mem_append_right _ hmem⟩

/-- Both parts of each block of the field come out as they should just if the blocks are separate. -/
theorem resolveIfBlock_eq_iff (d : Document) (field : Name) :
    (∀ keep, resolveIfBlock d.text field.bytes keep = (d.resolve field keep).text) ↔
      d.body.Separate field := by
  constructor
  · intro hright
    obtain ⟨cuts, last, hcut⟩ := exists_chopped field d.body.pieces
    have hmarks : ∀ keep, marks (joined keep cuts last) = marks (d.body.resolve field keep).pieces := by
      intro keep
      have hflat := hright keep
      rw [Document.text, resolveIfBlock_flat d.clear keep hcut] at hflat
      exact marks_eq d.clear hflat
    have hno : ∀ keep, condition field ∉ joined keep cuts last := by
      intro keep hmem
      have hmark := mem_marks.mpr hmem
      rw [hmarks keep, mem_marks] at hmark
      exact Template.condition_notMem_resolve field keep d.body hmark
    have hclear := clearCut_of_right hcut (Template.height_pieces _)
      (fun keep => (height_congr (hmarks keep)).trans (Template.height_pieces _)) hno
    have hlast : condition field ∉ last := fun hmem => hno true (List.mem_append_right _ hmem)
    have hall : Chopped field ([] ++ (d.body.pieces ++ [])) cuts last := by
      rwa [List.nil_append, List.append_nil]
    exact (Template.separate_of_chopped hlast List.not_mem_nil hall hclear).1
  · intro hseparate keep
    have hnone : ∀ before : Pieces, condition field ∉ before →
        Template.Resolves field (before ++ []) fun _ => before ++ [] := by
      intro before hbefore
      rw [List.append_nil]
      exact ⟨[], before, .done hbefore, fun _ => rfl⟩
    obtain ⟨cuts, last, hcut, hjoined⟩ := Template.resolves_of_separate hseparate hnone
      (List.not_mem_nil (a := condition field))
    rw [List.nil_append, List.append_nil] at hcut
    have hout := hjoined keep
    simp only [List.nil_append, List.append_nil] at hout
    rw [Document.text, resolveIfBlock_flat d.clear keep hcut, hout]
    rfl

/-- A list of messages in its own block: without messages the end of the block stays. -/
theorem resolveIfBlock_leaves_finish :
    ¬ ∀ (d : Document) (field : Name) (keep : Bool),
      resolveIfBlock d.text field.bytes keep = (d.resolve field keep).text := by
  intro hright
  have hflashes := hright
    { body :=
        .block (.cond ⟨str "flashes", by decide, by decide⟩)
          (.text ⟨str "<ul>", by decide⟩
            (.block (.range ⟨str "flashes", by decide, by decide⟩) (.text ⟨str "<li>", by decide⟩ .nil)
              (.text ⟨str "</ul>", by decide⟩ .nil))) .nil
      ending := []
      clear := rfl }
    ⟨str "flashes", by decide, by decide⟩ false
  exact absurd hflashes (by decide +kernel)

end ExamVan.Auth
