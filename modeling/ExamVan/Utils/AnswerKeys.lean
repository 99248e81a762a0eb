import ExamVan.Utils.StripText

/-!
# What stripping keeps and what it hides

If every member named `key` or `answer` is spelled as the two loops look for it, the stripped text
denotes what the text denotes without these members, and does not depend on their values.
-/

namespace ExamVan.Utils

open ByteString JsonText

/-- The names of the two loops. -/
def isSensitive (name : Bytes) : Bool := name = str "key" ∨ name = str "answer"

theorem lower_key : Lower (str "key") := by decide

theorem lower_answer : Lower (str "answer") := by decide

mutual

/-- Every member named `key` or `answer` that is not inside the value of another one is spelled as
the loops look for it. -/
def SpelledValue : Value → Prop
  | .literal _ => True
  | .string _ => True
  | .array _ items => SpelledItems items
  | .object _ members => SpelledMembers members

def SpelledItems : Items → Prop
  | .nil => True
  | .cons _ v _ rest => SpelledValue v ∧ SpelledItems rest

def SpelledMembers : Members → Prop
  | .nil => True
  | .cons _ name mid _ v _ rest =>
      (if isSensitive (decode name) then Spelled (decode name) name mid else SpelledValue v) ∧
        SpelledMembers rest

end

mutual

def decidableSpelledValue : ∀ v : Value, Decidable (SpelledValue v)
  | .literal _ => .isTrue trivial
  | .string _ => .isTrue trivial
  | .array _ items => decidableSpelledItems items
  | .object _ members => decidableSpelledMembers members

def decidableSpelledItems : ∀ items : Items, Decidable (SpelledItems items)
  | .nil => .isTrue trivial
  | .cons _ v _ rest =>
      letI := decidableSpelledValue v
      letI := decidableSpelledItems rest
      inferInstanceAs (Decidable (SpelledValue v ∧ SpelledItems rest))

def decidableSpelledMembers : ∀ members : Members, Decidable (SpelledMembers members)
  | .nil => .isTrue trivial
  | .cons _ name mid _ v _ rest =>
      letI := decidableSpelledValue v
      letI := decidableSpelledMembers rest
      inferInstanceAs (Decidable ((if isSensitive (decode name) then Spelled (decode name) name mid
        else SpelledValue v) ∧ SpelledMembers rest))

end

instance (v : Value) : Decidable (SpelledValue v) := decidableSpelledValue v

mutual

/-- The derivation with `null` for the value of every sensitive member. -/
def hideValue : Value → Value
  | .literal l => .literal l
  | .string s => .string s
  | .array lead items => .array lead (hideItems items)
  | .object lead members => .object lead (hideMembers members)

def hideItems : Items → Items
  | .nil => .nil
  | .cons pre v post rest => .cons pre (hideValue v) post (hideItems rest)

def hideMembers : Members → Members
  | .nil => .nil
  | .cons pre name mid gap v post rest =>
      .cons pre name mid gap (if isSensitive (decode name) then .literal .null else hideValue v) post
        (hideMembers rest)

end

/-- What both loops leave. -/
def redact (v : Value) : Value := stripValue (str "answer") (stripValue (str "key") v)

def redactItems (items : Items) : Items := stripItems (str "answer") (stripItems (str "key") items)

def redactMembers (members : Members) : Members :=
  keptMembers (str "answer") (keptMembers (str "key") members)

/-! ### Members that are erased and members that stay -/

/-- A name with no escape in it is decoded to its spelling. -/
theorem decode_of_raw {k : Bytes} {name : List Piece} (hk : Plain k) (h : raw name = k) : decode name = k := by
  induction name generalizing k with
  | nil => exact h
  | cons p name ih =>
      cases p with
      | plain c hc =>
          cases k with
          | nil => cases h
          | cons a k =>
              obtain ⟨rfl, hraw⟩ := List.cons.inj h
              have hrest : Plain k :=
                ⟨fun hmem => hk.1 (List.mem_cons_of_mem _ hmem),
                  fun hmem => hk.2 (List.mem_cons_of_mem _ hmem)⟩
              exact congrArg (c :: ·) (ih hrest hraw)
      | short | unicode => exact absurd (h ▸ List.mem_cons_self) hk.2

theorem not_spelled_of_not_sensitive {name : List Piece} {mid : Blanks}
    (h : isSensitive (decode name) = false) :
    ¬ Spelled (str "key") name mid ∧ ¬ Spelled (str "answer") name mid := by
  have hne : decode name ≠ str "key" ∧ decode name ≠ str "answer" := by
    simpa [isSensitive] using h
  exact ⟨fun hspelled => hne.1 (decode_of_raw lower_key.plain hspelled.1),
    fun hspelled => hne.2 (decode_of_raw lower_answer.plain hspelled.1)⟩

section

variable {pre mid gap post : Blanks} {name : List Piece} {v : Value} {rest : Members}

/-- A sensitive member is erased by the loop that looks for its name. -/
theorem redactMembers_sensitive (hspelled : Spelled (decode name) name mid)
    (h : isSensitive (decode name) = true) :
    redactMembers (.cons pre name mid gap v post rest) = redactMembers rest := by
  have hname : decode name = str "key" ∨ decode name = str "answer" := by
    simpa [isSensitive] using h
  unfold redactMembers
  obtain hname | hname := hname
  · rw [hname] at hspelled
    rw [keptMembers, if_pos hspelled]
  · rw [hname] at hspelled
    have hother : ¬ Spelled (str "key") name mid := fun hkey =>
      absurd (hspelled.1.symm.trans hkey.1) (by decide)
    rw [keptMembers, if_neg hother, keptMembers, if_pos hspelled]

theorem redactMembers_kept (h : isSensitive (decode name) = false) :
    redactMembers (.cons pre name mid gap v post rest) =
      .cons pre name mid gap (redact v)
        (post ++ leftover (str "key") rest ++ leftover (str "answer") (keptMembers (str "key") rest))
        (redactMembers rest) := by
  obtain ⟨hkey, hanswer⟩ : ¬ Spelled (str "key") name mid ∧ ¬ Spelled (str "answer") name mid :=
    not_spelled_of_not_sensitive h
  rw [redactMembers, keptMembers, if_neg hkey, keptMembers, if_neg hanswer]
  rfl

end

/-! ### Data -/

mutual

theorem data_redact : ∀ v : Value, SpelledValue v → (redact v).data = v.data.remove isSensitive
  | .literal _, _ => rfl
  | .string _, _ => rfl
  | .array _ items, h => congrArg Data.array (data_redactItems items h)
  | .object _ members, h => congrArg Data.object (data_redactMembers members h)

theorem data_redactItems : ∀ items : Items, SpelledItems items →
    (redactItems items).data = removeItems isSensitive items.data
  | .nil, _ => rfl
  | .cons _ v _ rest, h => by
      obtain ⟨hv, hrest⟩ := h
      have hcons := congrArg₂ List.cons (data_redact v hv) (data_redactItems rest hrest)
      exact hcons

theorem data_redactMembers : ∀ members : Members, SpelledMembers members →
    (redactMembers members).data = removeMembers isSensitive members.data
  | .nil, _ => rfl
  | .cons pre name mid gap v post rest, h => by
      obtain ⟨hmember, hrest⟩ := h
      have ih := data_redactMembers rest hrest
      cases hname : isSensitive (decode name) with
      | true =>
          rw [if_pos hname] at hmember
          rw [redactMembers_sensitive hmember hname, Members.data, removeMembers, if_pos hname, ih]
      | false =>
          rw [if_neg (by simp [hname])] at hmember
          rw [redactMembers_kept hname, Members.data, Members.data, removeMembers,
            if_neg (by simp [hname]), data_redact v hmember, ih]

end

theorem removeMembers_names (names : Bytes → Bool) : ∀ members : List (Bytes × Data),
    ∀ m ∈ removeMembers names members, names m.1 = false
  | [], m, hm => absurd hm List.not_mem_nil
  | (name, d) :: rest, m, hm => by
      rw [removeMembers] at hm
      split at hm
      · exact removeMembers_names names rest m hm
      next hname =>
        obtain rfl | hrest := List.mem_cons.mp hm
        · exact Bool.eq_false_iff.mpr hname
        · exact removeMembers_names names rest m hrest

/-- A sensitive member that is not spelled as the loop looks for it stays. -/
theorem redactMembers_missed {pre mid gap post : Blanks} {name : List Piece} {v : Value}
    {rest : Members} (hspelled : ¬ Spelled (decode name) name mid) :
    ∃ v' post', redactMembers (.cons pre name mid gap v post rest) =
      .cons pre name mid gap v' post' (redactMembers rest) := by
  have hkey : ¬ Spelled (str "key") name mid :=
    fun h => hspelled (decode_of_raw lower_key.plain h.1 ▸ h)
  have hanswer : ¬ Spelled (str "answer") name mid :=
    fun h => hspelled (decode_of_raw lower_answer.plain h.1 ▸ h)
  rw [redactMembers, keptMembers, if_neg hkey, keptMembers, if_neg hanswer]
  exact ⟨_, _, rfl⟩

mutual

/-- Data are redacted only if no sensitive member is missed. -/
theorem spelled_of_data : ∀ v : Value, (redact v).data = v.data.remove isSensitive → SpelledValue v
  | .literal _, _ => trivial
  | .string _, _ => trivial
  | .array _ items, h => spelled_of_dataItems items (Data.array.inj h)
  | .object _ members, h => spelled_of_dataMembers members (Data.object.inj h)

theorem spelled_of_dataItems : ∀ items : Items,
    (redactItems items).data = removeItems isSensitive items.data → SpelledItems items
  | .nil, _ => trivial
  | .cons _ v _ rest, h => by
      obtain ⟨hv, hrest⟩ := List.cons.inj h
      exact ⟨spelled_of_data v hv, spelled_of_dataItems rest hrest⟩

theorem spelled_of_dataMembers : ∀ members : Members,
    (redactMembers members).data = removeMembers isSensitive members.data → SpelledMembers members
  | .nil, _ => trivial
  | .cons pre name mid gap v post rest, h => by
      rw [Members.data, removeMembers] at h
      cases hname : isSensitive (decode name) with
      | true =>
          rw [if_pos hname] at h
          by_cases hspelled : Spelled (decode name) name mid
          · rw [redactMembers_sensitive hspelled hname] at h
            exact ⟨by rwa [if_pos hname], spelled_of_dataMembers rest h⟩
          · obtain ⟨v', post', hmissed⟩ : ∃ v' post',
                redactMembers (.cons pre name mid gap v post rest) =
                  .cons pre name mid gap v' post' (redactMembers rest) :=
              redactMembers_missed hspelled
            rw [hmissed, Members.data] at h
            have hgone := removeMembers_names isSensitive rest.data (decode name, v'.data)
              (h ▸ List.mem_cons_self)
            exact absurd hname (by simp [hgone])
      | false =>
          rw [if_neg (by simp [hname]), redactMembers_kept hname, Members.data] at h
          obtain ⟨hmember, hrest⟩ := List.cons.inj h
          refine ⟨?_, spelled_of_dataMembers rest hrest⟩
          rw [if_neg (by simp [hname])]
          exact spelled_of_data v (Prod.mk.inj hmember).2

end

/-! ### Values that are hidden -/

mutual

/-- The spelling of the names does not depend on the values of sensitive members. -/
theorem spelled_hide : ∀ v : Value, SpelledValue (hideValue v) ↔ SpelledValue v
  | .literal _ => Iff.rfl
  | .string _ => Iff.rfl
  | .array _ items => spelled_hideItems items
  | .object _ members => spelled_hideMembers members

theorem spelled_hideItems : ∀ items : Items, SpelledItems (hideItems items) ↔ SpelledItems items
  | .nil => Iff.rfl
  | .cons _ v _ rest => and_congr (spelled_hide v) (spelled_hideItems rest)

theorem spelled_hideMembers : ∀ members : Members,
    SpelledMembers (hideMembers members) ↔ SpelledMembers members
  | .nil => Iff.rfl
  | .cons pre name mid gap v post rest => by
      have ih := spelled_hideMembers rest
      rw [hideMembers, SpelledMembers, SpelledMembers, ih]
      cases hname : isSensitive (decode name) with
      | true => rfl
      | false => simp [spelled_hide v]

end

theorem leftover_hide (k : Bytes) : ∀ members : Members,
    leftover k (hideMembers members) = leftover k members
  | .nil => rfl
  | .cons pre name mid gap v post rest => by
      rw [hideMembers, leftover, leftover, leftover_hide k rest]

theorem leadAfter_hide (k : Bytes) : ∀ (members : Members) (lead : Blanks),
    leadAfter k lead (hideMembers members) = leadAfter k lead members
  | .nil, _ => rfl
  | .cons pre name mid gap v post rest, lead => by
      rw [hideMembers, leadAfter, leadAfter, leadAfter_hide k rest]

theorem leftover_kept_hide (k k' : Bytes) : ∀ members : Members,
    leftover k' (keptMembers k (hideMembers members)) = leftover k' (keptMembers k members)
  | .nil => rfl
  | .cons pre name mid gap v post rest => by
      have ih := leftover_kept_hide k k' rest
      rw [hideMembers, keptMembers, keptMembers]
      split
      · exact ih
      · rw [leftover, leftover, leftover_hide, ih]

theorem leadAfter_kept_hide (k k' : Bytes) : ∀ (members : Members) (lead : Blanks),
    leadAfter k' lead (keptMembers k (hideMembers members)) =
      leadAfter k' lead (keptMembers k members)
  | .nil, _ => rfl
  | .cons pre name mid gap v post rest, lead => by
      have ih := leadAfter_kept_hide k k' rest
      rw [hideMembers, keptMembers, keptMembers]
      split
      · exact ih lead
      · rw [leadAfter, leadAfter, ih]

mutual

/-- The values of sensitive members leave no trace. -/
theorem redact_hide : ∀ v : Value, SpelledValue v → redact (hideValue v) = redact v
  | .literal _, _ => rfl
  | .string _, _ => rfl
  | .array lead items, h => congrArg (Value.array lead) (redactItems_hide items h)
  | .object lead members, h => by
      have hmembers := redactMembers_hide members h
      simp only [hideValue, redact, stripValue, leadAfter_hide, leadAfter_kept_hide]
      exact congrArg _ hmembers

theorem redactItems_hide : ∀ items : Items, SpelledItems items →
    redactItems (hideItems items) = redactItems items
  | .nil, _ => rfl
  | .cons pre v post rest, h => by
      obtain ⟨hv, hrest⟩ := h
      have hcons := congrArg₂ (fun v rest => Items.cons pre v post rest) (redact_hide v hv)
        (redactItems_hide rest hrest)
      exact hcons

theorem redactMembers_hide : ∀ members : Members, SpelledMembers members →
    redactMembers (hideMembers members) = redactMembers members
  | .nil, _ => rfl
  | .cons pre name mid gap v post rest, h => by
      obtain ⟨hmember, hrest⟩ := h
      have ih := redactMembers_hide rest hrest
      rw [hideMembers]
      cases hname : isSensitive (decode name) with
      | true =>
          rw [if_pos hname] at hmember
          rw [redactMembers_sensitive hmember hname, redactMembers_sensitive hmember hname, ih]
      | false =>
          rw [if_neg (by simp [hname])] at hmember
          rw [redactMembers_kept hname, redactMembers_kept hname, leftover_hide, leftover_kept_hide,
            ih, if_neg Bool.false_ne_true, redact_hide v hmember]

end

end ExamVan.Utils
