import ExamVan.Lib.Markup
import Mathlib.Data.List.TakeWhile

/-!
# Conditional blocks of a template

`resolve_if_block` looks for the markers of one field, for the next `{{else}}`, and for an `{{end}}` that
it finds by counting. Templates are trees; what becomes of their text is compared with what the text of
the tree with its blocks decided is.
-/

namespace ExamVan.Auth

open ByteString Markup

/-! ### The code -/

/-- The loop of `find_matching_end`: the text from its `{{end}}` on. -/
def findEndLoop : Nat → Nat → Bytes → Option Bytes
  | 0, _, _ => none
  | fuel + 1, depth, h =>
      match findSub opening h with
      | none => none
      | some found =>
          match findSub closing found with
          | none => none
          | some close =>
              let tok := (found.take (found.length - close.length)).drop 2
              let t := tok.dropWhile fun c => c = chr ' ' || c = chr '\t'
              if t = [] then findEndLoop fuel depth (close.drop 2)
              else if (str "if ").isPrefixOf t || (str "if.").isPrefixOf t || t = str "if" then
                findEndLoop fuel (depth + 1) (close.drop 2)
              else if (str "end").isPrefixOf t then
                if depth - 1 = 0 then some found else findEndLoop fuel (depth - 1) (close.drop 2)
              else findEndLoop fuel depth (close.drop 2)

def findMatchingEnd (h : Bytes) : Option Bytes := findEndLoop (h.length + 1) 1 h

/-- `keep_str`, of the text between the marker and the end. -/
def keepStr (keep : Bool) (content stop : Bytes) (cont : Option Bytes) : Bytes :=
  match cont.filter fun c => stop.length < c.length with
  | some c =>
      if keep then content.take (content.length - c.length)
      else (c.take (c.length - stop.length)).drop 8
  | none => if keep then content.take (content.length - stop.length) else []

/-- The loop of `resolve_if_block`, on the text from `p` on. -/
def resolveLoop (field : Bytes) (keep : Bool) : Nat → Bytes → Bytes
  | 0, h => h
  | fuel + 1, h =>
      let marker := str "\x7b\x7bif ." ++ field ++ str "\x7d\x7d"
      match findSub marker h with
      | none => h
      | some found =>
          match findMatchingEnd (found.drop marker.length) with
          | none => h
          | some stop =>
              h.take (h.length - found.length) ++
                keepStr keep (found.drop marker.length) stop (findSub (str "\x7b\x7belse\x7d\x7d") found) ++
                resolveLoop field keep fuel (stop.drop 7)

def resolveIfBlock (h field : Bytes) (keep : Bool) : Bytes := resolveLoop field keep (h.length + 1) h

/-! ### Templates -/

/-- The name of a field, as it is written behind the dot. -/
structure Name where
  bytes : Bytes
  noOpening : chr '\x7b' ∉ bytes
  noClosing : chr '\x7d' ∉ bytes
deriving DecidableEq

inductive Opener where
  | cond (field : Name)
  | range (items : Name)
deriving DecidableEq

inductive Marker where
  | opener (o : Opener)
  | otherwise
  | finish
deriving DecidableEq

namespace Marker

def spelled : Marker → Bytes
  | opener (.cond field) => str "if ." ++ field.bytes
  | opener (.range items) => str "range ." ++ items.bytes
  | otherwise => str "else"
  | finish => str "end"

theorem spelled_injective : Function.Injective spelled := by
  have hname : ∀ {s : Bytes} {a b : Name}, s ++ a.bytes = s ++ b.bytes → a = b := by
    rintro s ⟨a, _, _⟩ ⟨b, _, _⟩ h
    obtain rfl : a = b := List.append_cancel_left h
    rfl
  intro a b h
  rcases a with (⟨a⟩ | ⟨a⟩) | _ | _ <;> rcases b with (⟨b⟩ | ⟨b⟩) | _ | _
  all_goals first
    | rw [hname h]
    | rfl
    | exact absurd (List.cons.inj h).1 (by decide)
    | exact absurd (List.cons.inj (List.cons.inj h).2).1 (by decide)

theorem brace_notMem_spelled (m : Marker) : chr '\x7b' ∉ m.spelled ∧ chr '\x7d' ∉ m.spelled := by
  rcases m with (⟨⟨name, hopening, hclosing⟩⟩ | ⟨⟨name, hopening, hclosing⟩⟩) | _ | _ <;>
    simp only [spelled, List.mem_append, not_or]
  case opener.cond | opener.range => exact ⟨⟨by decide, hopening⟩, by decide, hclosing⟩
  all_goals exact ⟨by decide, by decide⟩

instance : Spelling Marker where
  spell := spelled
  spell_injective := spelled_injective
  noOpening m := (brace_notMem_spelled m).1
  noClosing m := (brace_notMem_spelled m).2

end Marker

abbrev Pieces := List (Piece Marker)

/-- A well-nested template. -/
inductive Template where
  | nil
  | text (t : Text) (rest : Template)
  | block (o : Opener) (body rest : Template)
  | alternative (o : Opener) (body otherwise rest : Template)

namespace Template

def pieces : Template → Pieces
  | nil => []
  | text t rest => .text t :: rest.pieces
  | block o body rest => .mark (.opener o) :: (body.pieces ++ .mark .finish :: rest.pieces)
  | alternative o body otherwise rest =>
      .mark (.opener o) :: (body.pieces ++ .mark .otherwise ::
        (otherwise.pieces ++ .mark .finish :: rest.pieces))

def append : Template → Template → Template
  | nil, u => u
  | text t rest, u => text t (rest.append u)
  | block o body rest, u => block o body (rest.append u)
  | alternative o body otherwise rest, u => alternative o body otherwise (rest.append u)

/-- The blocks of a field are decided, and no others. -/
def resolve (field : Name) (keep : Bool) : Template → Template
  | nil => nil
  | text t rest => text t (rest.resolve field keep)
  | block o body rest =>
      if o = .cond field then
        if keep then (body.resolve field keep).append (rest.resolve field keep) else rest.resolve field keep
      else block o (body.resolve field keep) (rest.resolve field keep)
  | alternative o body otherwise rest =>
      if o = .cond field then
        (if keep then body.resolve field keep else otherwise.resolve field keep).append
          (rest.resolve field keep)
      else alternative o (body.resolve field keep) (otherwise.resolve field keep) (rest.resolve field keep)

theorem pieces_text (t : Text) (rest : Template) : (text t rest).pieces = .text t :: rest.pieces := rfl

theorem pieces_block (o : Opener) (body rest : Template) : (block o body rest).pieces =
    .mark (.opener o) :: (body.pieces ++ .mark .finish :: rest.pieces) := rfl

theorem pieces_alternative (o : Opener) (body otherwise rest : Template) :
    (alternative o body otherwise rest).pieces = .mark (.opener o) :: (body.pieces ++
      .mark .otherwise :: (otherwise.pieces ++ .mark .finish :: rest.pieces)) := rfl

theorem append_text (t : Text) (rest u : Template) : (text t rest).append u = text t (rest.append u) := rfl

theorem append_block (o : Opener) (body rest u : Template) :
    (block o body rest).append u = block o body (rest.append u) := rfl

theorem append_alternative (o : Opener) (body otherwise rest u : Template) :
    (alternative o body otherwise rest).append u = alternative o body otherwise (rest.append u) := rfl

section

variable (field : Name) (keep : Bool)

theorem resolve_text (t : Text) (rest : Template) :
    (text t rest).resolve field keep = text t (rest.resolve field keep) := rfl

theorem resolve_block (o : Opener) (body rest : Template) : (block o body rest).resolve field keep =
    if o = .cond field then
      if keep then (body.resolve field keep).append (rest.resolve field keep) else rest.resolve field keep
    else block o (body.resolve field keep) (rest.resolve field keep) := rfl

theorem resolve_alternative (o : Opener) (body otherwise rest : Template) :
    (alternative o body otherwise rest).resolve field keep =
      if o = .cond field then
        (if keep then body.resolve field keep else otherwise.resolve field keep).append
          (rest.resolve field keep)
      else alternative o (body.resolve field keep) (otherwise.resolve field keep)
        (rest.resolve field keep) := rfl

end

/-- What is written when all fields have a truth value. -/
def execute (truth : Name → Bool) : Template → Pieces
  | nil => []
  | text t rest => .text t :: rest.execute truth
  | block (.cond field) body rest => (if truth field then body.execute truth else []) ++ rest.execute truth
  | block (.range items) body rest =>
      .mark (.opener (.range items)) :: (body.execute truth ++ .mark .finish :: rest.execute truth)
  | alternative (.cond field) body otherwise rest =>
      (if truth field then body.execute truth else otherwise.execute truth) ++ rest.execute truth
  | alternative (.range items) body otherwise rest =>
      .mark (.opener (.range items)) :: (body.execute truth ++ .mark .otherwise ::
        (otherwise.execute truth ++ .mark .finish :: rest.execute truth))

theorem execute_text (truth : Name → Bool) (t : Text) (rest : Template) :
    (text t rest).execute truth = .text t :: rest.execute truth := rfl

theorem execute_cond (truth : Name → Bool) (field : Name) (body rest : Template) :
    (block (.cond field) body rest).execute truth =
      (if truth field then body.execute truth else []) ++ rest.execute truth := rfl

theorem execute_range (truth : Name → Bool) (items : Name) (body rest : Template) :
    (block (.range items) body rest).execute truth =
      .mark (.opener (.range items)) :: (body.execute truth ++ .mark .finish :: rest.execute truth) := rfl

theorem execute_cond_alternative (truth : Name → Bool) (field : Name) (body otherwise rest : Template) :
    (alternative (.cond field) body otherwise rest).execute truth =
      (if truth field then body.execute truth else otherwise.execute truth) ++ rest.execute truth := rfl

theorem execute_range_alternative (truth : Name → Bool) (items : Name) (body otherwise rest : Template) :
    (alternative (.range items) body otherwise rest).execute truth =
      .mark (.opener (.range items)) :: (body.execute truth ++ .mark .otherwise ::
        (otherwise.execute truth ++ .mark .finish :: rest.execute truth)) := rfl

theorem execute_append (truth : Name → Bool) (t u : Template) :
    (t.append u).execute truth = t.execute truth ++ u.execute truth := by
  induction t with
  | nil => rfl
  | text t rest ih => rw [append_text, execute_text, execute_text, ih, List.cons_append]
  | block o body rest _ ih =>
      cases o with
      | cond field => rw [append_block, execute_cond, execute_cond, ih, List.append_assoc]
      | range items =>
          simp only [append_block, execute_range, ih, List.append_assoc, List.cons_append]
  | alternative o body otherwise rest _ _ ih =>
      cases o with
      | cond field => rw [append_alternative, execute_cond_alternative, execute_cond_alternative, ih,
          List.append_assoc]
      | range items =>
          simp only [append_alternative, execute_range_alternative, ih, List.append_assoc,
            List.cons_append]

/-- To decide the blocks of one field first changes nothing. -/
theorem execute_resolve (truth : Name → Bool) (field : Name) (t : Template) :
    (t.resolve field (truth field)).execute truth = t.execute truth := by
  induction t with
  | nil => rfl
  | text t rest ih => rw [resolve_text, execute_text, execute_text, ih]
  | block o body rest hbody hrest =>
      rw [resolve_block]
      by_cases ho : o = .cond field
      · subst ho
        rw [if_pos rfl, execute_cond]
        split
        · rw [execute_append, hbody, hrest]
        · rw [hrest, List.nil_append]
      · rw [if_neg ho]
        cases o with
        | cond f => rw [execute_cond, execute_cond, hbody, hrest]
        | range items => rw [execute_range, execute_range, hbody, hrest]
  | alternative o body otherwise rest hbody hotherwise hrest =>
      rw [resolve_alternative]
      by_cases ho : o = .cond field
      · subst ho
        rw [if_pos rfl, execute_cond_alternative, execute_append, hrest]
        split
        · rw [hbody]
        · rw [hotherwise]
      · rw [if_neg ho]
        cases o with
        | cond f =>
            rw [execute_cond_alternative, execute_cond_alternative, hbody, hotherwise, hrest]
        | range items =>
            rw [execute_range_alternative, execute_range_alternative, hbody, hotherwise, hrest]

end Template

/-! ### Counting -/

/-- The number of conditions that are open, or nothing at the end that is looked for. -/
def countDepth (d : Nat) : Piece Marker → Option Nat
  | .mark (.opener (.cond _)) => some (d + 1)
  | .mark .finish => if d = 0 then none else some (d - 1)
  | .mark (.opener (.range _)) | .mark .otherwise | .text _ => some d

/-- The pieces in front of the end that `find_matching_end` finds, and those behind it. -/
def splitFinish (d : Nat) : Pieces → Option (Pieces × Pieces)
  | [] => none
  | p :: ps =>
      match countDepth d p with
      | none => some ([], ps)
      | some d' => (splitFinish d' ps).map fun r => (p :: r.1, r.2)

variable {d : Nat} {p : Piece Marker} {ps inside behind rest : Pieces} {tail : Bytes}

theorem splitFinish_of_none (h : countDepth d p = none) (ps : Pieces) :
    splitFinish d (p :: ps) = some ([], ps) := by
  rw [splitFinish, h]

theorem splitFinish_of_some {d' : Nat} (h : countDepth d p = some d') (ps : Pieces) :
    splitFinish d (p :: ps) = (splitFinish d' ps).map fun r => (p :: r.1, r.2) := by
  rw [splitFinish, h]

theorem countDepth_finish (d : Nat) : countDepth (d + 1) (.mark .finish) = some d := rfl

theorem countDepth_eq_none (h : countDepth d p = none) : d = 0 ∧ p = .mark .finish := by
  rcases p with _ | ((_ | _) | _ | _)
  case mark.finish =>
    cases d with
    | zero => exact ⟨rfl, rfl⟩
    | succ d => cases h
  all_goals cases h

theorem eq_of_splitFinish (h : splitFinish d ps = some (inside, behind)) :
    ps = inside ++ .mark .finish :: behind := by
  induction ps generalizing d inside with
  | nil => cases h
  | cons p ps ih =>
      cases hp : countDepth d p with
      | none =>
          rw [splitFinish_of_none hp] at h
          cases h
          rw [(countDepth_eq_none hp).2, List.nil_append]
      | some d' =>
          rw [splitFinish_of_some hp] at h
          obtain ⟨r, hr, heq⟩ := Option.map_eq_some_iff.mp h
          cases heq
          rw [List.cons_append, ← ih hr]

/-! ### The code finds what is counted -/

theorem dropWhile_spelled (m : Marker) :
    m.spelled.dropWhile (fun c => c = chr ' ' || c = chr '\t') = m.spelled := by
  rcases m with (_ | _) | _ | _ <;> rfl

theorem findEndLoop_text (fuel depth : Nat) (t : Text) (s : Bytes) :
    findEndLoop fuel depth (t.bytes ++ s) = findEndLoop fuel depth s := by
  cases fuel with
  | zero => rfl
  | succ fuel =>
      have hfound : findSub opening (t.bytes ++ s) = findSub opening s := findSub_text t [] s
      rw [findEndLoop, findEndLoop, hfound]

theorem findEndLoop_mark (fuel depth : Nat) (m : Marker) (s : Bytes) :
    findEndLoop (fuel + 1) depth (markText m ++ s) =
      match m with
      | .opener (.cond _) => findEndLoop fuel (depth + 1) s
      | .finish =>
          if depth - 1 = 0 then some (markText Marker.finish ++ s) else findEndLoop fuel (depth - 1) s
      | .opener (.range _) | .otherwise => findEndLoop fuel depth s := by
  have hfound : findSub opening (markText m ++ s) = some (markText m ++ s) :=
    findSub_of_head ((List.prefix_append _ _).trans (List.prefix_append _ _))
  have htok : ((markText m ++ s).take ((markText m ++ s).length - (closing ++ s).length)).drop 2 =
      m.spelled := by
    have htext : markText m ++ s = (opening ++ m.spelled) ++ (closing ++ s) := by
      simp only [markText, List.append_assoc]
      rfl
    rw [htext, List.length_append, Nat.add_sub_cancel, List.take_left]
    rfl
  have hnext : (closing ++ s).drop 2 = s := rfl
  simp only [findEndLoop, hfound, findSub_closing, htok, hnext, dropWhile_spelled]
  rcases m with (_ | _) | _ | _ <;> rfl

theorem findEndLoop_flat (htail : findSub opening tail = none) (ps : Pieces) (d : Nat) {fuel : Nat}
    (hfuel : (flat ps ++ tail).length < fuel) : findEndLoop fuel (d + 1) (flat ps ++ tail) =
      (splitFinish d ps).map fun r => markText Marker.finish ++ (flat r.2 ++ tail) := by
  induction ps generalizing d fuel with
  | nil =>
      obtain ⟨fuel, rfl⟩ := Nat.exists_eq_succ_of_ne_zero (Nat.ne_zero_of_lt hfuel)
      rw [flat_nil, List.nil_append, findEndLoop, htail]
      rfl
  | cons p ps ih =>
      obtain ⟨fuel, rfl⟩ := Nat.exists_eq_succ_of_ne_zero (Nat.ne_zero_of_lt hfuel)
      have hmap : ∀ {d'}, countDepth d p = some d' → (splitFinish d (p :: ps)).map
          (fun r => markText Marker.finish ++ (flat r.2 ++ tail)) =
            (splitFinish d' ps).map fun r => markText Marker.finish ++ (flat r.2 ++ tail) := by
        intro d' hd'
        rw [splitFinish_of_some hd', Option.map_map]
        rfl
      rw [flat_cons, List.append_assoc] at hfuel ⊢
      cases p with
      | text t =>
          have hshort : (flat ps ++ tail).length < fuel + 1 := by
            rw [List.length_append] at hfuel
            omega
          rw [hmap rfl, ← ih d hshort]
          exact findEndLoop_text _ _ t _
      | mark m =>
          have hshort : (flat ps ++ tail).length < fuel := by
            have hpos : 0 < (markText m).length := Nat.succ_pos _
            rw [List.length_append, show (Piece.mark m).bytes = markText m from rfl] at hfuel
            omega
          rw [show (Piece.mark m).bytes = markText m from rfl, findEndLoop_mark]
          rcases m with (_ | _) | _ | _
          · rw [hmap rfl, ← ih _ hshort]
          · rw [hmap rfl, ← ih _ hshort]
          · rw [hmap rfl, ← ih _ hshort]
          · cases d with
            | zero => rfl
            | succ d =>
                rw [hmap rfl, ← ih _ hshort]
                exact if_neg (Nat.succ_ne_zero d)

def condition (field : Name) : Piece Marker := .mark (.opener (.cond field))

def isOtherwise : Piece Marker → Bool
  | .mark .otherwise => true
  | _ => false

/-- What is kept of a block, `{{else}}` being the first one. -/
def kept (keep : Bool) (inside : Pieces) : Pieces :=
  if keep then inside.takeWhile (!isOtherwise ·) else (inside.dropWhile (!isOtherwise ·)).tail

variable {field : Name} {before after : Pieces} {cuts : List (Pieces × Pieces)} {last : Pieces}

theorem isOtherwise_of_notMem (h : Piece.mark .otherwise ∉ inside) :
    ∀ p ∈ inside, (!isOtherwise p) = true := by
  rintro (_ | (_ | _ | _)) hp
  case mark.otherwise => exact absurd hp h
  all_goals rfl

theorem kept_of_notMem (h : Piece.mark .otherwise ∉ inside) (keep : Bool) :
    kept keep inside = if keep then inside else [] := by
  have hplain := isOtherwise_of_notMem h
  rw [kept, List.takeWhile_eq_self_iff.mpr hplain, List.dropWhile_eq_nil_iff.mpr hplain, List.tail_nil]

theorem kept_append (h : Piece.mark .otherwise ∉ inside) (keep : Bool) (rest : Pieces) :
    kept keep (inside ++ .mark .otherwise :: rest) = if keep then inside else rest := by
  have hplain := isOtherwise_of_notMem h
  have hstop : ¬ (!isOtherwise (.mark .otherwise)) = true := by decide
  rw [kept, List.takeWhile_append_of_pos hplain, List.dropWhile_append_of_pos hplain,
    List.takeWhile_cons_of_neg (p := (!isOtherwise ·)) hstop,
    List.dropWhile_cons_of_neg (p := (!isOtherwise ·)) hstop, List.append_nil, List.tail_cons]

/-- The text is cut at each marker of the field and at the end that belongs to it. -/
inductive Chopped (field : Name) : Pieces → List (Pieces × Pieces) → Pieces → Prop
  | done {ps : Pieces} : condition field ∉ ps → Chopped field ps [] ps
  | stuck {before rest : Pieces} : condition field ∉ before → splitFinish 0 rest = none →
      Chopped field (before ++ condition field :: rest) [] (before ++ condition field :: rest)
  | cut {before rest inside behind last : Pieces} {cuts : List (Pieces × Pieces)} :
      condition field ∉ before → splitFinish 0 rest = some (inside, behind) →
      Chopped field behind cuts last →
      Chopped field (before ++ condition field :: rest) ((before, inside) :: cuts) last

def joined (keep : Bool) (cuts : List (Pieces × Pieces)) (last : Pieces) : Pieces :=
  cuts.flatMap (fun c => c.1 ++ kept keep c.2) ++ last

theorem joined_cons (keep : Bool) (before inside : Pieces) (cuts : List (Pieces × Pieces)) (last : Pieces) :
    joined keep ((before, inside) :: cuts) last = before ++ (kept keep inside ++ joined keep cuts last) := by
  simp only [joined, List.flatMap_cons, List.append_assoc]

theorem splitFinish_of_mem (h : Chopped field ps cuts last) :
    ∀ c ∈ cuts, ∃ rest behind, splitFinish 0 rest = some (c.2, behind) := by
  induction h with
  | done _ => exact nofun
  | stuck _ _ => exact nofun
  | cut _ hsplit _ ih => exact List.forall_mem_cons.mpr ⟨⟨_, _, hsplit⟩, ih⟩

theorem exists_chopped (field : Name) (ps : Pieces) : ∃ cuts last, Chopped field ps cuts last := by
  induction hn : ps.length using Nat.strong_induction_on generalizing ps with
  | _ n ih =>
      by_cases hmem : condition field ∈ ps
      · obtain ⟨before, rest, rfl, hbefore⟩ := List.eq_append_cons_of_mem hmem
        cases hsplit : splitFinish 0 rest with
        | none => exact ⟨_, _, .stuck hbefore hsplit⟩
        | some r =>
            obtain ⟨inside, behind⟩ := r
            have hlength := congrArg List.length (eq_of_splitFinish hsplit)
            simp only [List.length_append, List.length_cons] at hn hlength
            obtain ⟨cuts, last, hcut⟩ := ih behind.length (by omega) behind rfl
            exact ⟨_, _, .cut hbefore hsplit hcut⟩
      · exact ⟨_, _, .done hmem⟩

/-! ### The code cuts at these places -/

theorem take_length_sub (s t : Bytes) : (s ++ t).take ((s ++ t).length - t.length) = s := by
  rw [List.length_append, Nat.add_sub_cancel, List.take_left]

theorem keepStr_flat (keep : Bool) (inside behind : Pieces) (tail : Bytes) :
    keepStr keep (flat inside ++ (markText Marker.finish ++ (flat behind ++ tail)))
        (markText Marker.finish ++ (flat behind ++ tail))
        (findSub (markText Marker.otherwise)
          (flat inside ++ (markText Marker.finish ++ (flat behind ++ tail)))) =
      flat (kept keep inside) := by
  set stop := markText Marker.finish ++ (flat behind ++ tail) with hstop
  by_cases hmem : Piece.mark Marker.otherwise ∈ inside
  · obtain ⟨first, second, rfl, hfirst⟩ := List.eq_append_cons_of_mem hmem
    have htext : flat (first ++ .mark .otherwise :: second) ++ stop =
        flat first ++ (markText Marker.otherwise ++ (flat second ++ stop)) := by
      simp only [flat_append, flat_cons, List.append_assoc]
      rfl
    have hfound : findSub (markText Marker.otherwise) (flat (first ++ .mark .otherwise :: second) ++ stop) =
        some (markText Marker.otherwise ++ (flat second ++ stop)) := by
      rw [htext, findSub_markText hfirst]
      exact findSub_of_head (List.prefix_append _ _)
    have hlonger : stop.length < (markText Marker.otherwise ++ (flat second ++ stop)).length := by
      have hpos : 0 < (markText Marker.otherwise).length := Nat.succ_pos _
      simp only [List.length_append]
      omega
    rw [hfound, kept_append hfirst, keepStr, Option.filter_some, if_pos (by simpa using hlonger)]
    cases keep with
    | true =>
        rw [if_pos rfl, if_pos rfl, htext]
        exact take_length_sub _ _
    | false =>
        rw [if_neg Bool.false_ne_true, if_neg Bool.false_ne_true, ← List.append_assoc]
        exact congrArg (List.drop 8) (take_length_sub _ _)
  · have hlater : findSub (markText Marker.otherwise) (flat inside ++ stop) =
        findSub (markText Marker.otherwise) (flat behind ++ tail) := by
      rw [findSub_markText hmem, hstop]
      exact findSub_mark fun hprefix => nomatch markText_inj (k := Marker.otherwise) hprefix
    have hfilter : (findSub (markText Marker.otherwise) (flat behind ++ tail)).filter
        (fun c => stop.length < c.length) = none := by
      refine Option.filter_eq_none_iff.mpr fun c hc => ?_
      have hle := length_le_of_findSub hc
      have hlength : stop.length = (markText Marker.finish).length + (flat behind ++ tail).length :=
        List.length_append
      simp only [decide_eq_true_eq]
      omega
    rw [hlater, keepStr, hfilter, kept_of_notMem hmem]
    cases keep with
    | true => exact take_length_sub _ _
    | false => rfl

theorem resolveLoop_flat (htail : findSub opening tail = none) (keep : Bool)
    (h : Chopped field ps cuts last) {fuel : Nat} (hfuel : (flat ps ++ tail).length < fuel) :
    resolveLoop field.bytes keep fuel (flat ps ++ tail) = flat (joined keep cuts last) ++ tail := by
  have hmarker : str "\x7b\x7bif ." ++ field.bytes ++ str "\x7d\x7d" =
      markText (Marker.opener (.cond field)) := rfl
  have hskip : ∀ {ps : Pieces}, condition field ∉ ps → ∀ s,
      findSub (markText (Marker.opener (.cond field))) (flat ps ++ s) =
        findSub (markText (Marker.opener (.cond field))) s := fun hps s => findSub_markText hps s
  induction h generalizing fuel with
  | done hno =>
      obtain ⟨fuel, rfl⟩ := Nat.exists_eq_succ_of_ne_zero (Nat.ne_zero_of_lt hfuel)
      have hnone := findSub_append_eq_none htail (spell (Marker.opener (.cond field)) ++ closing)
      simp only [resolveLoop, hmarker, hskip hno, show findSub (markText _) tail = none from hnone]
      rfl
  | @stuck before rest hbefore hsplit =>
      obtain ⟨fuel, rfl⟩ := Nat.exists_eq_succ_of_ne_zero (Nat.ne_zero_of_lt hfuel)
      have htext : flat (before ++ condition field :: rest) ++ tail =
          flat before ++ (markText (Marker.opener (.cond field)) ++ (flat rest ++ tail)) := by
        simp only [flat_append, flat_cons, List.append_assoc]
        rfl
      have hend := findEndLoop_flat htail rest 0 (Nat.lt_succ_self _)
      rw [hsplit] at hend
      simp only [resolveLoop, hmarker, htext, hskip hbefore, findSub_of_head (List.prefix_append _ _),
        List.drop_left, findMatchingEnd, hend]
      exact htext.symm
  | @cut before rest inside behind last cuts hbefore hsplit _ ih =>
      obtain ⟨fuel, rfl⟩ := Nat.exists_eq_succ_of_ne_zero (Nat.ne_zero_of_lt hfuel)
      have htext : flat (before ++ condition field :: rest) ++ tail =
          flat before ++ (markText (Marker.opener (.cond field)) ++ (flat rest ++ tail)) := by
        simp only [flat_append, flat_cons, List.append_assoc]
        rfl
      have hrest : flat rest ++ tail =
          flat inside ++ (markText Marker.finish ++ (flat behind ++ tail)) := by
        rw [eq_of_splitFinish hsplit]
        simp only [flat_append, flat_cons, List.append_assoc]
        rfl
      have hend := findEndLoop_flat htail rest 0 (Nat.lt_succ_self _)
      rw [hsplit] at hend
      have helse : findSub (str "\x7b\x7belse\x7d\x7d")
          (markText (Marker.opener (.cond field)) ++ (flat rest ++ tail)) =
            findSub (markText Marker.otherwise) (flat rest ++ tail) :=
        findSub_mark fun hprefix => nomatch markText_inj (k := Marker.otherwise) hprefix
      have hshort : (flat behind ++ tail).length < fuel := by
        rw [htext, hrest] at hfuel
        simp only [List.length_append] at hfuel ⊢
        have hpos : 0 < (markText Marker.finish).length := Nat.succ_pos _
        omega
      have hdrop : (markText Marker.finish ++ (flat behind ++ tail)).drop 7 = flat behind ++ tail := rfl
      simp only [resolveLoop, hmarker, htext, hskip hbefore, findSub_of_head (List.prefix_append _ _),
        List.drop_left, findMatchingEnd, hend, Option.map_some, helse, hdrop, take_length_sub]
      rw [hrest, keepStr_flat, ih hshort]
      rw [joined_cons]
      simp only [flat_append, List.append_assoc]

theorem resolveIfBlock_flat (htail : findSub opening tail = none) (keep : Bool)
    (h : Chopped field ps cuts last) :
    resolveIfBlock (flat ps ++ tail) field.bytes keep = flat (joined keep cuts last) ++ tail :=
  resolveLoop_flat htail keep h (Nat.lt_succ_self _)

end ExamVan.Auth
