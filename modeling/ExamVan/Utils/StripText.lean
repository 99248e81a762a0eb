import ExamVan.Utils.StripLoop

/-!
# Stripping a JSON text

On a derivation, the loop erases the members that are spelled as it looks for them. It turns the
text into that of the derivation without these members if each of them that stands behind a member
that stays has room behind its value for the blanks before its name.
-/

namespace ExamVan.Utils

open ByteString JsonText

/-! ### Members that the loop erases -/

/-- The spelling that the loop finds: the name without escapes, and the colon right behind it. -/
def Spelled (k : Bytes) (name : List Piece) (mid : Blanks) : Prop := raw name = k ∧ mid.text = []

instance (k : Bytes) (name : List Piece) (mid : Blanks) : Decidable (Spelled k name mid) :=
  inferInstanceAs (Decidable (_ ∧ _))

/-- The blanks after the opening brace, with those of the members erased there. -/
def leadAfter (k : Bytes) (lead : Blanks) : Members → Blanks
  | .nil => lead
  | .cons pre name mid _ _ _ rest =>
      if Spelled k name mid then leadAfter k (lead ++ pre) rest else lead

/-- The blanks that erased members leave behind the member before them. -/
def leftover (k : Bytes) : Members → Blanks
  | .nil => .empty
  | .cons pre name mid _ _ post rest =>
      if Spelled k name mid then post.last pre.text.length ++ leftover k rest else .empty

mutual

def stripValue (k : Bytes) : Value → Value
  | .literal l => .literal l
  | .string s => .string s
  | .array lead items => .array lead (stripItems k items)
  | .object lead members => .object (leadAfter k lead members) (keptMembers k members)

def stripItems (k : Bytes) : Items → Items
  | .nil => .nil
  | .cons pre v post rest => .cons pre (stripValue k v) post (stripItems k rest)

def keptMembers (k : Bytes) : Members → Members
  | .nil => .nil
  | .cons pre name mid gap v post rest =>
      if Spelled k name mid then keptMembers k rest
      else .cons pre name mid gap (stripValue k v) (post ++ leftover k rest) (keptMembers k rest)

end

mutual

/-- Every member that the loop erases behind a member that stays has at least as many blanks behind
its value as between the comma and its name. -/
def RoomyValue (k : Bytes) : Value → Prop
  | .literal _ => True
  | .string _ => True
  | .array _ items => RoomyItems k items
  | .object _ members => RoomyMembers k true members

def RoomyItems (k : Bytes) : Items → Prop
  | .nil => True
  | .cons _ v _ rest => RoomyValue k v ∧ RoomyItems k rest

def RoomyMembers (k : Bytes) (first : Bool) : Members → Prop
  | .nil => True
  | .cons pre name mid _ v post rest =>
      if Spelled k name mid then
        (first = false → pre.text.length ≤ post.text.length) ∧ RoomyMembers k first rest
      else RoomyValue k v ∧ RoomyMembers k false rest

end

mutual

def decidableRoomyValue (k : Bytes) : ∀ v : Value, Decidable (RoomyValue k v)
  | .literal _ => .isTrue trivial
  | .string _ => .isTrue trivial
  | .array _ items => decidableRoomyItems k items
  | .object _ members => decidableRoomyMembers k true members

def decidableRoomyItems (k : Bytes) : ∀ items : Items, Decidable (RoomyItems k items)
  | .nil => .isTrue trivial
  | .cons _ v _ rest =>
      letI := decidableRoomyValue k v
      letI := decidableRoomyItems k rest
      inferInstanceAs (Decidable (RoomyValue k v ∧ RoomyItems k rest))

def decidableRoomyMembers (k : Bytes) (first : Bool) : ∀ members : Members,
    Decidable (RoomyMembers k first members)
  | .nil => .isTrue trivial
  | .cons _ name mid _ v _ rest =>
      letI := decidableRoomyValue k v
      letI := decidableRoomyMembers k first rest
      letI := decidableRoomyMembers k false rest
      inferInstanceAs (Decidable (if Spelled k name mid then _ ∧ RoomyMembers k first rest
        else RoomyValue k v ∧ RoomyMembers k false rest))

end

instance (k : Bytes) (v : Value) : Decidable (RoomyValue k v) := decidableRoomyValue k v

/-! ### Names -/

/-- A name of small letters. -/
def Lower (k : Bytes) : Prop := ∀ c ∈ k, chr 'a' ≤ c ∧ c ≤ chr 'z'

instance (k : Bytes) : Decidable (Lower k) := inferInstanceAs (Decidable (∀ c ∈ k, _))

section

variable {k done tail : Bytes}

theorem Lower.notMem (hk : Lower k) {c : UInt8} (hc : ¬ (chr 'a' ≤ c ∧ c ≤ chr 'z')) : c ∉ k :=
  fun hmem => hc (hk c hmem)

theorem Lower.plain (hk : Lower k) : Plain k :=
  ⟨hk.notMem (by decide), hk.notMem (by decide)⟩

theorem not_of_isBlank {c : UInt8} (h : isBlank c = true) :
    c ≠ chr '"' ∧ c ≠ chr ':' ∧ ¬ (chr 'a' ≤ c ∧ c ≤ chr 'z') := by
  obtain rfl | rfl | rfl | rfl := isBlank_cases h <;> decide

theorem not_name_of_follows (hk : Lower k) (h : Follows tail) :
    ∀ c ∈ tail.head?, c ∉ k ∧ c ≠ chr '"' ∧ c ≠ chr ':' := by
  intro c hc
  obtain hblank | rfl | rfl | rfl := h c hc
  · obtain ⟨hquote, hcolon, hlower⟩ := not_of_isBlank hblank
    exact ⟨hk.notMem hlower, hquote, hcolon⟩
  all_goals exact ⟨hk.notMem (by decide), by decide, by decide⟩

/-- A string that is not a name. -/
theorem stripLoop_string {s : List Piece} (hk : Lower k) (htail : Follows tail) :
    stripLoop k done (stringText s ++ tail) = stripLoop k (done ++ stringText s) tail := by
  have hopening : ¬ needle k <+: chr '"' :: (raw s ++ chr '"' :: tail) := by
    intro hneedle
    obtain ⟨-, rest, rfl⟩ := raw_eq_of_needle hk.plain hneedle
    exact (not_name_of_follows hk htail (chr ':') rfl).2.2 rfl
  have htext : stringText s ++ tail = chr '"' :: (raw s ++ chr '"' :: tail) := by
    simp [stringText]
  rw [htext, stripLoop_pass_byte hopening, stripLoop_string_end hk.plain (not_name_of_follows hk htail)]
  simp [stringText]

theorem stripLoop_blanks (w : Blanks) :
    stripLoop k done (w.text ++ tail) = stripLoop k (done ++ w.text) tail :=
  stripLoop_pass_of_notMem (quote_notMem_of_isBlank w.isBlank)

/-- A name that is not spelled as the loop looks for it, and the colon behind it. -/
theorem stripLoop_name {name : List Piece} {mid : Blanks} (hk : Lower k)
    (hname : ¬ Spelled k name mid) :
    stripLoop k done (stringText name ++ (mid.text ++ chr ':' :: tail)) =
      stripLoop k (done ++ (stringText name ++ (mid.text ++ [chr ':']))) tail := by
  have hopening : ¬ needle k <+: chr '"' :: (raw name ++ chr '"' :: (mid.text ++ chr ':' :: tail)) := by
    intro hneedle
    obtain ⟨hraw, hcolon⟩ := raw_eq_of_needle hk.plain hneedle
    cases hmid : mid.text with
    | nil => exact hname ⟨hraw, hmid⟩
    | cons b rest =>
        rw [hmid] at hcolon
        have hb := mid.isBlank b (hmid ▸ List.mem_cons_self)
        exact (not_of_isBlank hb).2.1 (List.cons_prefix_cons.mp hcolon).1.symm
  have htext : stringText name ++ (mid.text ++ chr ':' :: tail) =
      chr '"' :: (raw name ++ chr '"' :: (mid.text ++ chr ':' :: tail)) := by
    simp [stringText]
  rw [htext, stripLoop_pass_byte hopening]
  cases hmid : mid.text with
  | nil =>
      rw [List.nil_append, stripLoop_string_colon hk.plain (hk.notMem (by decide))]
      simp [stringText]
  | cons b rest =>
      have hb := not_of_isBlank (mid.isBlank b (hmid ▸ List.mem_cons_self))
      have hhead : ∀ c ∈ (mid.text ++ chr ':' :: tail).head?, c ∉ k ∧ c ≠ chr '"' ∧ c ≠ chr ':' := by
        intro c hc
        rw [hmid] at hc
        cases hc
        exact ⟨hk.notMem hb.2.2, hb.1, hb.2.1⟩
      have hcolon : ∀ d, stripLoop k d (chr ':' :: tail) = stripLoop k (d ++ [chr ':']) tail :=
        fun d => stripLoop_pass_of_notMem (w := [chr ':']) (by decide)
      rw [← hmid, stripLoop_string_end hk.plain hhead, stripLoop_blanks, hcolon]
      simp [stringText]

end

/-! ### Texts -/

section

variable {k : Bytes}

theorem stripLoop_comma {done tail : Bytes} (first : Bool) :
    stripLoop k done (comma first ++ tail) = stripLoop k (done ++ comma first) tail :=
  stripLoop_pass_of_notMem (by cases first <;> decide)

/-- The comma that goes with an erased first member. -/
theorem dropComma_members (members : Members) (tail : Bytes) :
    dropComma (members.render false ++ chr '}' :: tail) = members.render true ++ chr '}' :: tail := by
  cases members with
  | nil => rfl
  | cons pre name mid gap v post rest => simp [Members.render, comma, dropComma]

theorem spelled_text {name : List Piece} {mid : Blanks} (h : Spelled k name mid) (tail : Bytes) :
    stringText name ++ (mid.text ++ chr ':' :: tail) = needle k ++ tail := by
  simp [stringText, h.1, h.2, needle, str, chr]

/-- A member that stays, with the blanks that erased members leave behind it. -/
theorem stripLoop_kept_member {pre mid gap post : Blanks} {name : List Piece} {v : Value}
    {rest : Members} {tail : Bytes} (hk : Lower k) (hname : ¬ Spelled k name mid)
    (hv : ∀ done tail, Follows tail →
      stripLoop k done (v.render ++ tail) = stripLoop k (done ++ (stripValue k v).render) tail)
    (hrest : ∀ done, stripLoop k done (rest.render false ++ chr '}' :: tail) =
      stripLoop k (done ++ ((leftover k rest).text ++ (keptMembers k rest).render false))
        (chr '}' :: tail)) (first : Bool) (done : Bytes) :
    stripLoop k done ((Members.cons pre name mid gap v post rest).render first ++ chr '}' :: tail) =
      stripLoop k (done ++ (keptMembers k (.cons pre name mid gap v post rest)).render first)
        (chr '}' :: tail) := by
  have hfollows : Follows (post.text ++ (rest.render false ++ chr '}' :: tail)) :=
    follows_blanks post (follows_members rest tail)
  simp only [keptMembers, if_neg hname, Members.render, List.append_assoc, List.cons_append]
  rw [stripLoop_comma, stripLoop_blanks, stripLoop_name hk hname, stripLoop_blanks,
    hv _ _ hfollows, stripLoop_blanks, hrest]
  simp only [Blanks.text_append, List.append_assoc, List.cons_append, List.nil_append]

mutual

theorem stripLoop_value (hk : Lower k) : ∀ (v : Value) (done tail : Bytes),
    RoomyValue k v → Follows tail →
    stripLoop k done (v.render ++ tail) = stripLoop k (done ++ (stripValue k v).render) tail
  | .literal l, done, tail, _, _ =>
      stripLoop_pass_of_notMem fun hmem => (inert_of_isWord (isWord_literal l _ hmem)).1 rfl
  | .string s, done, tail, _, htail => stripLoop_string hk htail
  | .array lead items, done, tail, hroomy, _ => by
      have hopening : ∀ d t, stripLoop k d (chr '[' :: t) = stripLoop k (d ++ [chr '[']) t :=
        fun d t => stripLoop_pass_of_notMem (w := [chr '[']) (by decide)
      have hclosing : ∀ d t, stripLoop k d (chr ']' :: t) = stripLoop k (d ++ [chr ']']) t :=
        fun d t => stripLoop_pass_of_notMem (w := [chr ']']) (by decide)
      have hitems := stripLoop_items hk items true (done ++ [chr '['] ++ lead.text) tail hroomy
      simp only [Value.render, stripValue, List.cons_append, List.append_assoc, List.nil_append]
      rw [hopening, stripLoop_blanks, hitems, hclosing]
      simp only [List.append_assoc, List.cons_append, List.nil_append]
  | .object lead members, done, tail, hroomy, _ => by
      have hopening : ∀ d t, stripLoop k d (chr '{' :: t) = stripLoop k (d ++ [chr '{']) t :=
        fun d t => stripLoop_pass_of_notMem (w := [chr '{']) (by decide)
      have hclosing : ∀ d t, stripLoop k d (chr '}' :: t) = stripLoop k (d ++ [chr '}']) t :=
        fun d t => stripLoop_pass_of_notMem (w := [chr '}']) (by decide)
      have hmembers := stripLoop_first_members hk members lead done tail hroomy
      simp only [Value.render, stripValue, List.cons_append, List.append_assoc, List.nil_append]
      rw [hopening, stripLoop_blanks, List.append_assoc, List.singleton_append, hmembers, hclosing]
      simp only [List.append_assoc, List.cons_append]

theorem stripLoop_items (hk : Lower k) : ∀ (items : Items) (first : Bool) (done tail : Bytes),
    RoomyItems k items →
    stripLoop k done (items.render first ++ chr ']' :: tail) =
      stripLoop k (done ++ (stripItems k items).render first) (chr ']' :: tail)
  | .nil, first, done, tail, _ => by simp [Items.render, stripItems]
  | .cons pre v post rest, first, done, tail, hroomy => by
      obtain ⟨hv, hrest⟩ := hroomy
      simp only [Items.render, stripItems, List.append_assoc]
      rw [stripLoop_comma, stripLoop_blanks,
        stripLoop_value hk v _ _ hv (follows_blanks post (follows_items rest tail)),
        stripLoop_blanks, stripLoop_items hk rest false _ tail hrest]
      simp only [List.append_assoc]

/-- Members behind a member that stays. -/
theorem stripLoop_later_members (hk : Lower k) : ∀ (members : Members) (done tail : Bytes),
    RoomyMembers k false members →
    stripLoop k done (members.render false ++ chr '}' :: tail) =
      stripLoop k (done ++ ((leftover k members).text ++ (keptMembers k members).render false))
        (chr '}' :: tail)
  | .nil, done, tail, _ => by simp [Members.render, leftover, keptMembers]
  | .cons pre name mid gap v post rest, done, tail, hroomy => by
      simp only [RoomyMembers] at hroomy
      by_cases hname : Spelled k name mid
      · rw [if_pos hname] at hroomy
        obtain ⟨hroom, hrest⟩ := hroomy
        obtain ⟨c, following, heq, hc⟩ := members_head rest tail
        have hcomma : ∀ d t, stripLoop k d (chr ',' :: t) = stripLoop k (d ++ [chr ',']) t :=
          fun d t => stripLoop_pass_of_notMem (w := [chr ',']) (by decide)
        simp only [Members.render, comma, List.append_assoc, List.cons_append, List.nil_append,
          Bool.false_eq_true, if_false, leftover, keptMembers, if_pos hname]
        rw [hcomma, stripLoop_blanks, spelled_text hname, List.append_assoc, List.singleton_append,
          heq, stripLoop_later_member hc (hroom trivial), ← heq, stripLoop_blanks,
          stripLoop_later_members hk rest _ tail hrest]
        simp only [Blanks.text_append, List.append_assoc]
      · rw [if_neg hname] at hroomy
        have hleftover : leftover k (.cons pre name mid gap v post rest) = .empty := if_neg hname
        rw [hleftover]
        exact stripLoop_kept_member hk hname
          (fun d t ht => stripLoop_value hk v d t hroomy.1 ht)
          (fun d => stripLoop_later_members hk rest d tail hroomy.2) false done

/-- Members behind the opening brace, or behind members that are erased. -/
theorem stripLoop_first_members (hk : Lower k) : ∀ (members : Members) (lead : Blanks)
    (done tail : Bytes), RoomyMembers k true members →
    stripLoop k (done ++ chr '{' :: lead.text) (members.render true ++ chr '}' :: tail) =
      stripLoop k (done ++ chr '{' ::
          ((leadAfter k lead members).text ++ (keptMembers k members).render true))
        (chr '}' :: tail)
  | .nil, lead, done, tail, _ => by simp [Members.render, leadAfter, keptMembers]
  | .cons pre name mid gap v post rest, lead, done, tail, hroomy => by
      simp only [RoomyMembers] at hroomy
      by_cases hname : Spelled k name mid
      · rw [if_pos hname] at hroomy
        obtain ⟨c, following, heq, hc⟩ := members_head rest tail
        have hlead : done ++ chr '{' :: lead.text ++ pre.text = done ++ chr '{' :: (lead ++ pre).text := by
          simp
        simp only [Members.render, comma, List.append_assoc, List.cons_append, List.nil_append,
          if_true, leadAfter, keptMembers, if_pos hname]
        rw [stripLoop_blanks, spelled_text hname, hlead, heq, stripLoop_first_member hc, ← heq,
          dropComma_members, stripLoop_first_members hk rest (lead ++ pre) done tail hroomy.2]
      · rw [if_neg hname] at hroomy
        have hlead : leadAfter k lead (.cons pre name mid gap v post rest) = lead := if_neg hname
        rw [hlead, ← List.cons_append, ← List.append_assoc]
        exact stripLoop_kept_member hk hname
          (fun d t ht => stripLoop_value hk v d t hroomy.1 ht)
          (fun d => stripLoop_later_members hk rest d tail hroomy.2) true _

end

def stripText (k : Bytes) (q : Text) : Text := { q with v := stripValue k q.v }

theorem stripLoop_text (hk : Lower k) {q : Text} (hroomy : RoomyValue k q.v) :
    stripLoop k [] q.render = (stripText k q).render := by
  have hfollows : Follows (q.trail.text ++ []) := follows_blanks q.trail follows_nil
  have htext : q.render = q.lead.text ++ (q.v.render ++ (q.trail.text ++ [])) := by
    simp [Text.render]
  rw [htext, stripLoop_blanks, stripLoop_value hk q.v _ _ hroomy hfollows, stripLoop_blanks,
    stripLoop_nil]
  simp [Text.render, stripText]

end

end ExamVan.Utils
