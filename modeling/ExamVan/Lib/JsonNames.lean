import ExamVan.Lib.JsonReading

/-!
# The names in a JSON text

Every member has a name, at whatever depth it stands, and a name is followed by a colon. Nothing
else in a text is.
-/

namespace JsonText

open ByteString

mutual

/-- The names of the members at every depth, as they are spelled. -/
def Value.names : Value → List (List Piece)
  | .literal _ => []
  | .string _ => []
  | .array _ items => items.names
  | .object _ members => members.names

def Items.names : Items → List (List Piece)
  | .nil => []
  | .cons _ v _ rest => v.names ++ rest.names

def Members.names : Members → List (List Piece)
  | .nil => []
  | .cons _ name _ _ v _ rest => name :: (v.names ++ rest.names)

end

/-- A member of this object, and not of one in it, is spelled so. -/
def Members.own : Members → List (List Piece × Value)
  | .nil => []
  | .cons _ name _ _ v _ rest => (name, v) :: rest.own

def Items.values : Items → List Value
  | .nil => []
  | .cons _ v _ rest => v :: rest.values

/-- Members with no blanks between them. -/
def Members.compact : List (List Piece × Value) → Members
  | [] => .nil
  | m :: rest => .cons .empty m.1 .empty .empty m.2 .empty (compact rest)

theorem Members.data_eq_own : ∀ members : Members,
    members.data = members.own.map fun m => (decode m.1, m.2.data)
  | .nil => rfl
  | .cons _ _ _ _ _ _ rest => by
      rw [Members.data, Members.own, List.map_cons, data_eq_own rest]

/-- A colon comes next, blanks aside. -/
def ColonNext (tail : Bytes) : Prop := chr ':' ∈ (tail.dropWhile isBlank).head?

instance (tail : Bytes) : Decidable (ColonNext tail) := inferInstanceAs (Decidable (_ ∈ _))

theorem colonNext_colon (w : Blanks) (tail : Bytes) : ColonNext (w.text ++ chr ':' :: tail) := by
  unfold ColonNext
  rw [dropWhile_blanks, List.dropWhile_cons_of_neg (by decide)]
  rfl

theorem colonNext_blanks {w : Blanks} {tail : Bytes} :
    ColonNext (w.text ++ tail) ↔ ColonNext tail := by
  unfold ColonNext
  rw [dropWhile_blanks]

theorem not_colonNext_cons {c : UInt8} {tail : Bytes} (hblank : isBlank c = false)
    (hcolon : c ≠ chr ':') : ¬ ColonNext (c :: tail) := by
  unfold ColonNext
  rw [List.dropWhile_cons_of_neg (by simp [hblank]), List.head?_cons]
  exact fun h => hcolon (Option.mem_some_iff.mp h)

theorem not_colonNext_nil : ¬ ColonNext [] := by
  unfold ColonNext
  decide

theorem not_colonNext_items (items : Items) (tail : Bytes) :
    ¬ ColonNext (items.render false ++ chr ']' :: tail) := by
  obtain ⟨c, rest, heq, hc⟩ := items_head items tail
  rw [heq]
  obtain rfl | rfl := hc <;> exact not_colonNext_cons (by decide) (by decide)

theorem not_colonNext_members (members : Members) (tail : Bytes) :
    ¬ ColonNext (members.render false ++ chr '}' :: tail) := by
  obtain ⟨c, rest, heq, hc⟩ := members_head members tail
  rw [heq]
  obtain rfl | rfl := hc <;> exact not_colonNext_cons (by decide) (by decide)

/-! ### Decoding shortens -/

theorem length_utf8_le (n : Nat) : (utf8 n).length ≤ 4 := by
  unfold utf8
  split_ifs <;> simp

/-- A high surrogate that still waits has been spelled with more bytes than it is worth. -/
theorem length_decodeFrom_le (high : Option Nat) (s : List Piece) :
    (decodeFrom high s).length ≤ (raw s).length + if high.isSome then 4 else 0 := by
  induction s generalizing high with
  | nil =>
      cases high with
      | none => rfl
      | some h => simpa [decodeFrom] using length_utf8_le h
  | cons p s ih =>
      have hnone : (decodeFrom none s).length ≤ (raw s).length := ih none
      have hsome : ∀ u, (decodeFrom (some u) s).length ≤ (raw s).length + 4 := fun u => ih (some u)
      have hpending : ((high.map utf8).getD []).length ≤ if high.isSome then 4 else 0 := by
        cases high with
        | none => simp
        | some h => exact length_utf8_le h
      cases p with
      | plain c h =>
          simp only [decodeFrom, raw_cons, Piece.text, List.length_append, List.length_cons,
            List.length_nil]
          omega
      | short c h =>
          simp only [decodeFrom, raw_cons, Piece.text, List.length_append, List.length_cons,
            List.length_nil]
          omega
      | unicode h₁ h₂ h₃ h₄ h =>
          simp only [raw_cons, Piece.text, List.length_append, List.length_cons, List.length_nil]
          have hunit := length_utf8_le (codeUnit h₁ h₂ h₃ h₄)
          have hlater := hsome (codeUnit h₁ h₂ h₃ h₄)
          cases high with
          | none =>
              simp only [decodeFrom, Option.isSome_none, Bool.false_eq_true, if_false]
              split_ifs with hsurrogate
              · omega
              · rw [List.length_append]
                omega
          | some u =>
              have hfirst := length_utf8_le u
              have hpair := length_utf8_le
                (0x10000 + (u - 0xD800) * 0x400 + (codeUnit h₁ h₂ h₃ h₄ - 0xDC00))
              simp only [decodeFrom, Option.isSome_some, if_true]
              split_ifs with hlow hhigh <;> simp only [List.length_append] <;> omega

/-- A string literal is longer than what it denotes. -/
theorem length_decode_lt (s : List Piece) : (decode s).length < (stringText s).length := by
  have hle := length_decodeFrom_le none s
  simp only [decode, stringText, List.length_cons, List.length_append, List.length_nil]
  simp only [Option.isSome_none, if_false, Nat.add_zero, Bool.false_eq_true] at hle
  omega

/-- A string literal is spelled as what it denotes exactly if there is no escape in it. -/
theorem decode_of_notMem {s : List Piece} (h : chr '\\' ∉ raw s) : decode s = raw s := by
  induction s with
  | nil => rfl
  | cons p s ih =>
      rw [raw_cons, List.mem_append, not_or] at h
      cases p with
      | plain c hc =>
          have hcons : decode (.plain c hc :: s) = c :: decode s := rfl
          rw [hcons, ih h.2, raw_cons, Piece.text, List.singleton_append]
      | short | unicode => exact absurd List.mem_cons_self h.1

theorem notMem_of_length_le {s : List Piece} (h : (raw s).length ≤ (decode s).length) :
    chr '\\' ∉ raw s := by
  induction s with
  | nil => exact List.not_mem_nil
  | cons p s ih =>
      have hle := length_decodeFrom_le none s
      simp only [Option.isSome_none, Bool.false_eq_true, if_false, Nat.add_zero] at hle
      cases p with
      | plain c hc =>
          have hcons : decode (.plain c hc :: s) = c :: decode s := rfl
          rw [hcons, raw_cons, Piece.text, List.singleton_append, List.length_cons,
            List.length_cons] at h
          rw [raw_cons, Piece.text, List.singleton_append, List.mem_cons, not_or]
          exact ⟨hc.2.2.symm, ih (Nat.le_of_succ_le_succ h)⟩
      | short c hc =>
          have hcons : decode (.short c hc :: s) = shortEscape c :: decode s := rfl
          rw [hcons, raw_cons] at h
          simp only [Piece.text, List.length_cons, List.length_append, List.length_nil, decode] at h
          omega
      | unicode h₁ h₂ h₃ h₄ hhex =>
          have hunit := length_utf8_le (codeUnit h₁ h₂ h₃ h₄)
          have hlater := length_decodeFrom_le (some (codeUnit h₁ h₂ h₃ h₄)) s
          rw [Option.isSome_some, if_pos rfl] at hlater
          have hbound : (decode (.unicode h₁ h₂ h₃ h₄ hhex :: s)).length ≤ (raw s).length + 4 := by
            simp only [decode, decodeFrom]
            split_ifs
            · exact hlater
            · rw [List.length_append]
              omega
          rw [raw_cons] at h
          simp only [Piece.text, List.length_cons, List.length_append, List.length_nil] at h
          omega

end JsonText
