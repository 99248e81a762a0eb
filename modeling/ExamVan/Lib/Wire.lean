import ExamVan.Lib.Bytes

/-!
# The protobuf wire format

A message is a run of fields. A field is a tag and a value: a varint, four or eight bytes, bytes with
their number in front, or a group, which is a run of fields up to the tag that closes it. A reader
that does not know a field finds its end all the same, so a run can be read without any schema.

Groups are skipped here, and count against the depth that is left. A tag and a length have at most
five bytes, a value ten, and of a tag the low 32 bits count.
-/

namespace Wire

open ByteString

/-- The largest text that is written or read. -/
def maxSize : Nat := 2 ^ 31 - 1

/-- How deep messages and groups may be nested. -/
def maxDepth : Nat := 100

inductive Payload
  | varint (n : Nat)
  | fixed64 (b : Bytes)
  | len (b : Bytes)
  | group
  | fixed32 (b : Bytes)
  deriving DecidableEq

structure Field where
  number : Nat
  payload : Payload
  deriving DecidableEq

/-! ### Reading -/

/-- Groups of seven bits, the low ones first. All bytes but the last have their high bit set. -/
def readVarint : Nat → Bytes → Option (Nat × Bytes)
  | 0, _ => none
  | _ + 1, [] => none
  | n + 1, c :: s =>
      if c.toNat < 128 then some (c.toNat, s)
      else (readVarint n s).map fun r => (c.toNat - 128 + 128 * r.1, r.2)

def readBytes (n : Nat) (s : Bytes) : Option (Bytes × Bytes) :=
  if n ≤ s.length then some (s.take n, s.drop n) else none

/-- The field number and the wire type. -/
def readTag (s : Bytes) : Option ((Nat × Nat) × Bytes) :=
  (readVarint 5 s).bind fun r =>
    let tag := r.1 % 2 ^ 32
    if tag / 8 = 0 then none else some ((tag / 8, tag % 8), r.2)

/-- A value that is no group. -/
def readScalar (wireType : Nat) (s : Bytes) : Option (Payload × Bytes) :=
  match wireType with
  | 0 => (readVarint 10 s).map fun r => (.varint r.1, r.2)
  | 1 => (readBytes 8 s).map fun r => (.fixed64 r.1, r.2)
  | 2 => (readVarint 5 s).bind fun r => (readBytes r.1 r.2).map fun b => (.len b.1, b.2)
  | 5 => (readBytes 4 s).map fun r => (.fixed32 r.1, r.2)
  | _ => none

/-- The fields up to the end of the text, or up to the tag that closes the group. Every round
consumes a byte, so the length of the text is fuel enough. -/
def readFields : Nat → Nat → Option Nat → Bytes → Option (List Field × Bytes)
  | _, _, close, [] => if close = none then some ([], []) else none
  | 0, _, _, _ :: _ => none
  | fuel + 1, depth, close, c :: s =>
      match readTag (c :: s) with
      | none => none
      | some ((number, wireType), t) =>
          if wireType = 4 then if close = some number then some ([], t) else none
          else if wireType = 3 then
            match depth with
            | 0 => none
            | depth + 1 =>
                (readFields fuel depth (some number) t).bind fun r =>
                  (readFields fuel (depth + 1) close r.2).map fun q =>
                    (⟨number, .group⟩ :: q.1, q.2)
          else
            (readScalar wireType t).bind fun r =>
              (readFields fuel depth close r.2).map fun q => (⟨number, r.1⟩ :: q.1, q.2)

/-- The fields of a message that may still nest so deep. -/
def readMessage (depth : Nat) (s : Bytes) : Option (List Field) :=
  (readFields s.length depth none s).map Prod.fst

/-! ### Readers of a beginning -/

/-- A reader takes a piece from the front and does not look behind it. -/
structure Local {α : Type*} (read : Bytes → Option (α × Bytes)) : Prop where
  split : ∀ {s a r}, read s = some (a, r) → ∃ t, s = t ++ r ∧ read t = some (a, [])
  append : ∀ {s a r}, read s = some (a, r) → ∀ t, read (s ++ t) = some (a, r ++ t)

namespace Local

variable {α β : Type*} {read : Bytes → Option (α × Bytes)}

theorem result (a : α) : Local fun s => some (a, s) where
  split := by
    intro s b r h
    cases h
    exact ⟨[], rfl, rfl⟩
  append := by
    intro s b r h t
    cases h
    rfl

theorem fail : Local fun _ => (none : Option (α × Bytes)) where
  split := by
    intro s a r h
    cases h
  append := by
    intro s a r h
    cases h

theorem map (h : Local read) (f : α → β) :
    Local fun s => (read s).map fun r => (f r.1, r.2) where
  split := by
    intro s b r hread
    obtain ⟨⟨a, q⟩, ha, heq⟩ := Option.map_eq_some_iff.mp hread
    cases heq
    obtain ⟨t, ht, hat⟩ := h.split ha
    exact ⟨t, ht, by simp only [hat, Option.map_some]⟩
  append := by
    intro s b r hread t
    obtain ⟨⟨a, q⟩, ha, heq⟩ := Option.map_eq_some_iff.mp hread
    cases heq
    simp only [h.append ha t, Option.map_some]

theorem bind {next : α → Bytes → Option (β × Bytes)} (h : Local read) (hnext : ∀ a, Local (next a)) :
    Local fun s => (read s).bind fun r => next r.1 r.2 where
  split := by
    intro s b r hread
    obtain ⟨⟨a, q⟩, ha, hb⟩ := Option.bind_eq_some_iff.mp hread
    obtain ⟨t, ht, hat⟩ := h.split ha
    obtain ⟨u, hu, hbu⟩ := (hnext a).split hb
    refine ⟨t ++ u, ?_, ?_⟩
    · rw [ht, show q = u ++ r from hu, List.append_assoc]
    · simp only [h.append hat u, List.nil_append, Option.bind_some, hbu]
  append := by
    intro s b r hread t
    obtain ⟨⟨a, q⟩, ha, hb⟩ := Option.bind_eq_some_iff.mp hread
    simp only [h.append ha t, Option.bind_some, (hnext a).append hb t]

/-- What stands at the front of a text is read in one way. -/
theorem unique (h : Local read) {t t' x x' : Bytes} {a a' : α} (ht : read t = some (a, []))
    (ht' : read t' = some (a', [])) (heq : t ++ x = t' ++ x') : t = t' ∧ a = a' ∧ x = x' := by
  have hread := h.append ht x
  rw [heq, h.append ht' x', List.nil_append, List.nil_append] at hread
  cases hread
  exact ⟨List.append_cancel_right heq, rfl, rfl⟩

end Local

theorem local_readVarint (n : Nat) : Local (readVarint n) where
  split := by
    induction n with
    | zero => exact fun h => by cases h
    | succ n ih =>
        intro s a r h
        cases s with
        | nil => cases h
        | cons c s =>
            rw [readVarint] at h
            split at h
            · next hlast =>
                cases h
                exact ⟨[c], rfl, by rw [readVarint, if_pos hlast]⟩
            · next hmore =>
                obtain ⟨⟨m, q⟩, hm, heq⟩ := Option.map_eq_some_iff.mp h
                cases heq
                obtain ⟨t, rfl, ht⟩ := ih hm
                exact ⟨c :: t, rfl, by rw [readVarint, if_neg hmore, ht]; rfl⟩
  append := by
    induction n with
    | zero => exact fun h => by cases h
    | succ n ih =>
        intro s a r h t
        cases s with
        | nil => cases h
        | cons c s =>
            rw [readVarint] at h
            rw [List.cons_append, readVarint]
            split at h
            · next hlast =>
                cases h
                rw [if_pos hlast]
            · next hmore =>
                obtain ⟨⟨m, q⟩, hm, heq⟩ := Option.map_eq_some_iff.mp h
                cases heq
                rw [if_neg hmore, ih hm t]
                rfl

theorem readBytes_append (b t : Bytes) : readBytes b.length (b ++ t) = some (b, t) := by
  rw [readBytes, if_pos (by simp), List.take_left, List.drop_left]

theorem readBytes_eq_some_iff {n : Nat} {s b t : Bytes} :
    readBytes n s = some (b, t) ↔ b.length = n ∧ s = b ++ t := by
  constructor
  · intro h
    rw [readBytes] at h
    split at h
    · next hle =>
        cases h
        exact ⟨List.length_take_of_le hle, (List.take_append_drop n s).symm⟩
    · cases h
  · rintro ⟨rfl, rfl⟩
    exact readBytes_append b t

theorem local_readBytes (n : Nat) : Local (readBytes n) where
  split := by
    intro s b r h
    obtain ⟨hlength, hs⟩ := readBytes_eq_some_iff.mp h
    exact ⟨b, hs, readBytes_eq_some_iff.mpr ⟨hlength, (List.append_nil b).symm⟩⟩
  append := by
    intro s b r h t
    obtain ⟨hlength, hs⟩ := readBytes_eq_some_iff.mp h
    exact readBytes_eq_some_iff.mpr ⟨hlength, by rw [hs, List.append_assoc]⟩

theorem local_readTag : Local readTag := by
  have hrest : ∀ n : Nat, Local fun s => if n % 2 ^ 32 / 8 = 0 then none
      else some ((n % 2 ^ 32 / 8, n % 2 ^ 32 % 8), s) := by
    intro n
    by_cases hzero : n % 2 ^ 32 / 8 = 0
    · simpa only [hzero, if_true] using Local.fail
    · simpa only [hzero, if_false] using Local.result _
  exact (local_readVarint 5).bind hrest

theorem local_readScalar (wireType : Nat) : Local (readScalar wireType) := by
  unfold readScalar
  split
  · exact (local_readVarint 10).map Payload.varint
  · exact (local_readBytes 8).map Payload.fixed64
  · exact (local_readVarint 5).bind fun n => (local_readBytes n).map Payload.len
  · exact (local_readBytes 4).map Payload.fixed32
  · exact Local.fail

theorem ne_nil_of_readTag {t : Bytes} {a : Nat × Nat} (h : readTag t = some (a, [])) : t ≠ [] := by
  rintro rfl
  cases h

/-! ### Runs of fields -/

/-- A run of complete fields in which groups are nested at most so deep. -/
inductive Run : Nat → Bytes → List Field → Prop
  | nil {depth : Nat} : Run depth [] []
  | scalar {depth number wireType : Nat} {tag value s : Bytes} {payload : Payload}
      {fields : List Field} (htag : readTag tag = some ((number, wireType), []))
      (hvalue : readScalar wireType value = some (payload, [])) (hrest : Run depth s fields) :
      Run depth (tag ++ (value ++ s)) (⟨number, payload⟩ :: fields)
  | group {depth number : Nat} {tag inner close s : Bytes} {skipped fields : List Field}
      (htag : readTag tag = some ((number, 3), [])) (hinner : Run depth inner skipped)
      (hclose : readTag close = some ((number, 4), [])) (hrest : Run (depth + 1) s fields) :
      Run (depth + 1) (tag ++ (inner ++ (close ++ s))) (⟨number, .group⟩ :: fields)

theorem Run.append {depth : Nat} {s t : Bytes} {fields more : List Field} (h : Run depth s fields)
    (ht : Run depth t more) : Run depth (s ++ t) (fields ++ more) := by
  induction h with
  | nil => exact ht
  | scalar htag hvalue _ ih =>
      rw [List.append_assoc, List.append_assoc]
      exact .scalar htag hvalue (ih ht)
  | group htag hinner hclose _ _ ih =>
      rw [List.append_assoc, List.append_assoc, List.append_assoc]
      exact .group htag hinner hclose (ih ht)

/-- What ends a run: nothing, or the tag that closes the group. -/
def Closes (close : Option Nat) (t rest : Bytes) : Prop :=
  match close with
  | none => t = [] ∧ rest = []
  | some number => readTag t = some ((number, 4), [])

section

variable {fuel depth number wireType : Nat} {close : Option Nat} {tag value s rest : Bytes}
  {payload : Payload} {fields : List Field}

theorem readFields_nil (fuel depth : Nat) (close : Option Nat) :
    readFields fuel depth close [] = if close = none then some ([], []) else none := by
  unfold readFields
  rfl

theorem readFields_cons (fuel depth : Nat) (close : Option Nat) (c : UInt8) (s : Bytes) :
    readFields (fuel + 1) depth close (c :: s) =
      match readTag (c :: s) with
      | none => none
      | some ((number, wireType), t) =>
          if wireType = 4 then if close = some number then some ([], t) else none
          else if wireType = 3 then
            match depth with
            | 0 => none
            | depth + 1 =>
                (readFields fuel depth (some number) t).bind fun r =>
                  (readFields fuel (depth + 1) close r.2).map fun q =>
                    (⟨number, .group⟩ :: q.1, q.2)
          else
            (readScalar wireType t).bind fun r =>
              (readFields fuel depth close r.2).map fun q => (⟨number, r.1⟩ :: q.1, q.2) := rfl

theorem readFields_tag (htag : readTag tag = some ((number, wireType), [])) (fuel depth : Nat)
    (close : Option Nat) (s : Bytes) :
    readFields (fuel + 1) depth close (tag ++ s) =
      if wireType = 4 then if close = some number then some ([], s) else none
      else if wireType = 3 then
        match depth with
        | 0 => none
        | depth + 1 =>
            (readFields fuel depth (some number) s).bind fun r =>
              (readFields fuel (depth + 1) close r.2).map fun q =>
                (⟨number, .group⟩ :: q.1, q.2)
      else
        (readScalar wireType s).bind fun r =>
          (readFields fuel depth close r.2).map fun q => (⟨number, r.1⟩ :: q.1, q.2) := by
  have hread := local_readTag.append htag s
  obtain ⟨c, u, rfl⟩ := List.exists_cons_of_ne_nil (ne_nil_of_readTag htag)
  rw [List.cons_append] at hread ⊢
  rw [readFields_cons, hread]
  rfl

theorem readFields_scalar (htag : readTag tag = some ((number, wireType), []))
    (hvalue : readScalar wireType value = some (payload, [])) (fuel depth : Nat)
    (close : Option Nat) (s : Bytes) :
    readFields (fuel + 1) depth close (tag ++ (value ++ s)) =
      (readFields fuel depth close s).map fun q => (⟨number, payload⟩ :: q.1, q.2) := by
  have hgroup : wireType ≠ 3 := by
    rintro rfl
    cases hvalue
  have hclose : wireType ≠ 4 := by
    rintro rfl
    cases hvalue
  rw [readFields_tag htag, if_neg hclose, if_neg hgroup,
    (local_readScalar wireType).append hvalue s]
  rfl

theorem readFields_group (htag : readTag tag = some ((number, 3), [])) (fuel depth : Nat)
    (close : Option Nat) (s : Bytes) :
    readFields (fuel + 1) (depth + 1) close (tag ++ s) =
      (readFields fuel depth (some number) s).bind fun r =>
        (readFields fuel (depth + 1) close r.2).map fun q => (⟨number, .group⟩ :: q.1, q.2) := by
  rw [readFields_tag htag, if_neg (by decide), if_pos rfl]

theorem readFields_close (htag : readTag tag = some ((number, 4), [])) (fuel depth : Nat)
    (s : Bytes) : readFields (fuel + 1) depth (some number) (tag ++ s) = some ([], s) := by
  rw [readFields_tag htag, if_pos rfl, if_pos rfl]

theorem readFields_of_closes {t : Bytes} (h : Closes close t rest)
    (hfuel : (t ++ rest).length ≤ fuel) :
    readFields fuel depth close (t ++ rest) = some ([], rest) := by
  cases close with
  | none =>
      obtain ⟨rfl, rfl⟩ := h
      rw [List.append_nil, readFields_nil, if_pos rfl]
  | some number =>
      have hpos := List.length_pos_of_ne_nil (ne_nil_of_readTag h)
      rw [List.length_append] at hfuel
      obtain ⟨fuel, rfl⟩ : ∃ n, fuel = n + 1 := ⟨fuel - 1, by omega⟩
      exact readFields_close h fuel depth rest

/-- A run is read to its end, whatever the groups around it. -/
theorem Run.read (h : Run depth s fields) : ∀ {fuel : Nat} {close : Option Nat} {t rest : Bytes},
    Closes close t rest → (s ++ (t ++ rest)).length ≤ fuel →
      readFields fuel depth close (s ++ (t ++ rest)) = some (fields, rest) := by
  induction h with
  | nil => exact fun hcloses hfuel => readFields_of_closes hcloses hfuel
  | @scalar depth number wireType tag value s payload fields htag hvalue _ ih =>
      intro fuel close t rest hcloses hfuel
      have hpos := List.length_pos_of_ne_nil (ne_nil_of_readTag htag)
      simp only [List.append_assoc, List.length_append] at hfuel ⊢
      obtain ⟨fuel, rfl⟩ : ∃ n, fuel = n + 1 := ⟨fuel - 1, by omega⟩
      rw [readFields_scalar htag hvalue, ih hcloses (by simp only [List.length_append]; omega)]
      rfl
  | @group depth number tag inner endTag s skipped fields htag _ hclose _ ihinner ih =>
      intro fuel close t rest hcloses hfuel
      have hpos := List.length_pos_of_ne_nil (ne_nil_of_readTag htag)
      simp only [List.append_assoc, List.length_append] at hfuel ⊢
      obtain ⟨fuel, rfl⟩ : ∃ n, fuel = n + 1 := ⟨fuel - 1, by omega⟩
      rw [readFields_group htag, ihinner (show Closes (some number) endTag _ from hclose)
        (by simp only [List.length_append]; omega), Option.bind_some,
        ih hcloses (by simp only [List.length_append]; omega)]
      rfl

theorem run_of_readFields_nil (h : readFields fuel depth close [] = some (fields, rest)) :
    ∃ body t, ([] : Bytes) = body ++ (t ++ rest) ∧ Run depth body fields ∧ Closes close t rest := by
  rw [readFields_nil] at h
  split at h
  · next hclose =>
      cases h
      exact ⟨[], [], rfl, .nil, by rw [hclose]; exact ⟨rfl, rfl⟩⟩
  · cases h

end

/-- What is read is a run and what ends it. -/
theorem run_of_readFields : ∀ {fuel depth : Nat} {close : Option Nat} {s rest : Bytes}
    {fields : List Field}, readFields fuel depth close s = some (fields, rest) →
      ∃ body t, s = body ++ (t ++ rest) ∧ Run depth body fields ∧ Closes close t rest := by
  intro fuel
  induction fuel with
  | zero =>
      intro depth close s rest fields h
      cases s with
      | nil => exact run_of_readFields_nil h
      | cons c s => cases h
  | succ fuel ih =>
      intro depth close s rest fields h
      cases s with
      | nil => exact run_of_readFields_nil h
      | cons c s =>
          cases hread : readTag (c :: s) with
          | none =>
              rw [readFields_cons, hread] at h
              cases h
          | some r =>
              obtain ⟨⟨number, wireType⟩, s'⟩ := r
              obtain ⟨tag, hs, htag⟩ := local_readTag.split hread
              rw [hs, readFields_tag htag] at h
              rw [hs]
              split_ifs at h with hclose hnumber hgroup
              · -- the tag closes the run itself
                cases h
                subst hclose hnumber
                exact ⟨[], tag, rfl, .nil, htag⟩
              · subst hgroup
                cases depth with
                | zero => cases h
                | succ depth =>
                    obtain ⟨⟨skipped, s₁⟩, hinner, h⟩ := Option.bind_eq_some_iff.mp h
                    obtain ⟨⟨more, s₂⟩, hmore, heq⟩ := Option.map_eq_some_iff.mp h
                    cases heq
                    obtain ⟨inner, endTag, rfl, hrun, hend⟩ := ih hinner
                    obtain ⟨body, t, rfl, hrest, hcloses⟩ := ih hmore
                    refine ⟨tag ++ (inner ++ (endTag ++ body)), t, ?_,
                      .group htag hrun hend hrest, hcloses⟩
                    simp only [List.append_assoc]
              · obtain ⟨⟨payload, s₁⟩, hvalue, h⟩ := Option.bind_eq_some_iff.mp h
                obtain ⟨⟨more, s₂⟩, hmore, heq⟩ := Option.map_eq_some_iff.mp h
                cases heq
                obtain ⟨value, rfl, hscalar⟩ := (local_readScalar wireType).split hvalue
                obtain ⟨body, t, rfl, hrest, hcloses⟩ := ih hmore
                refine ⟨tag ++ (value ++ body), t, ?_, .scalar htag hscalar hrest, hcloses⟩
                simp only [List.append_assoc]

/-- The texts of messages are the runs of fields. -/
theorem readMessage_eq_some_iff {depth : Nat} {s : Bytes} {fields : List Field} :
    readMessage depth s = some fields ↔ Run depth s fields := by
  constructor
  · intro h
    obtain ⟨⟨read, rest⟩, hread, heq⟩ := Option.map_eq_some_iff.mp h
    cases heq
    obtain ⟨body, t, rfl, hrun, rfl, rfl⟩ := run_of_readFields hread
    simpa using hrun
  · intro h
    have hread := h.read (show Closes none [] [] from ⟨rfl, rfl⟩) le_rfl
    simp only [List.append_nil] at hread
    rw [readMessage, hread, Option.map_some]

/-- A run that begins with a group goes on until the tag that closes it. -/
theorem run_group_iff {depth number : Nat} {tag s : Bytes} {fields : List Field}
    (htag : readTag tag = some ((number, 3), [])) :
    Run (depth + 1) (tag ++ s) fields ↔
      ∃ inner close rest skipped more, s = inner ++ (close ++ rest) ∧ Run depth inner skipped ∧
        readTag close = some ((number, 4), []) ∧ Run (depth + 1) rest more ∧
        fields = ⟨number, .group⟩ :: more := by
  constructor
  · intro h
    generalize htext : tag ++ s = text at h
    generalize hdepth : depth + 1 = d at h
    cases h with
    | nil => exact absurd (List.append_eq_nil_iff.mp htext).1 (ne_nil_of_readTag htag)
    | scalar htag' hvalue _ =>
        obtain ⟨-, heq, -⟩ := local_readTag.unique htag htag' htext
        cases heq
        cases hvalue
    | group htag' hinner hclose hrest =>
        obtain ⟨-, heq, hs⟩ := local_readTag.unique htag htag' htext
        cases heq
        cases hdepth
        exact ⟨_, _, _, _, _, hs, hinner, hclose, hrest, rfl⟩
  · rintro ⟨inner, close, rest, skipped, more, rfl, hinner, hclose, hrest, rfl⟩
    exact .group htag hinner hclose hrest

/-- A tag of one byte has no second spelling, if its byte with the high bit set is not there. -/
theorem eq_singleton_of_readTag {t : Bytes} {number wireType : Nat} {c : UInt8}
    (h : readTag t = some ((number, wireType), [])) (hc : number * 8 + wireType = c.toNat)
    (hlow : c < 0x80) (hhigh : c + 0x80 ∉ t) : t = [c] := by
  obtain ⟨⟨n, rest⟩, hread, h⟩ := Option.bind_eq_some_iff.mp h
  dsimp only at h
  split at h
  · cases h
  · obtain ⟨⟨rfl, rfl⟩, rfl⟩ : (n % 2 ^ 32 / 8 = number ∧ n % 2 ^ 32 % 8 = wireType) ∧ rest = [] := by
      simpa using h
    have hmod : n % 2 ^ 32 = c.toNat := by omega
    have hsmall : c.toNat < 128 := UInt8.lt_iff_toNat_lt.mp hlow
    cases t with
    | nil => cases hread
    | cons b t =>
        have hb := b.toNat_lt
        rw [readVarint] at hread
        split at hread
        · next hlast =>
            cases hread
            have hbc : b = c := UInt8.toNat_inj.mp (by omega)
            rw [hbc]
        · next hmore =>
            obtain ⟨⟨m, q⟩, -, heq⟩ := Option.map_eq_some_iff.mp hread
            obtain ⟨hn, -⟩ := Prod.mk.inj heq
            refine absurd (List.mem_cons.mpr (Or.inl ?_)) hhigh
            apply UInt8.toNat_inj.mp
            rw [UInt8.toNat_add]
            dsimp only at hn
            have hconst : (0x80 : UInt8).toNat = 128 := rfl
            omega

/-! ### Writing -/

def varint (n : Nat) : Bytes :=
  if n < 128 then [UInt8.ofNat n] else UInt8.ofNat (n % 128 + 128) :: varint (n / 128)

def tagText (number wireType : Nat) : Bytes := varint (number * 8 + wireType)

def varintField (number n : Nat) : Bytes := tagText number 0 ++ varint n

def lenField (number : Nat) (b : Bytes) : Bytes := tagText number 2 ++ (varint b.length ++ b)

theorem readVarint_varint {k n : Nat} (h : n < 128 ^ (k + 1)) :
    readVarint (k + 1) (varint n) = some (n, []) := by
  induction k generalizing n with
  | zero =>
      have hlt : n < 128 := by simpa using h
      have hbyte : (UInt8.ofNat n).toNat = n := UInt8.toNat_ofNat_of_lt (show n < 256 by omega)
      rw [varint, if_pos hlt, readVarint, hbyte, if_pos hlt]
  | succ k ih =>
      rw [varint]
      split
      · next hlt =>
          have hbyte : (UInt8.ofNat n).toNat = n := UInt8.toNat_ofNat_of_lt (show n < 256 by omega)
          rw [readVarint, hbyte, if_pos hlt]
      · next hge =>
          have hbyte : (UInt8.ofNat (n % 128 + 128)).toNat = n % 128 + 128 :=
            UInt8.toNat_ofNat_of_lt (show n % 128 + 128 < 256 by omega)
          have hdiv : n / 128 < 128 ^ (k + 1) := by
            rw [Nat.div_lt_iff_lt_mul (by decide), ← Nat.pow_succ]
            exact h
          rw [readVarint, hbyte, if_neg (by omega), ih hdiv, Option.map_some]
          congr 2
          omega

theorem readTag_tagText {number wireType : Nat} (hpos : 0 < number) (hlt : number < 2 ^ 29)
    (hwire : wireType < 8) : readTag (tagText number wireType) = some ((number, wireType), []) := by
  have hread : readVarint 5 (varint (number * 8 + wireType)) = some (number * 8 + wireType, []) :=
    readVarint_varint (by omega)
  have hmod : (number * 8 + wireType) % 2 ^ 32 = number * 8 + wireType := Nat.mod_eq_of_lt (by omega)
  have hdiv : (number * 8 + wireType) / 8 = number := by omega
  have hrest : (number * 8 + wireType) % 8 = wireType := by omega
  rw [readTag, tagText, hread, Option.bind_some]
  dsimp only
  rw [hmod, hdiv, hrest, if_neg hpos.ne']

theorem run_varintField {number n : Nat} (hpos : 0 < number) (hlt : number < 2 ^ 29)
    (hn : n < 2 ^ 64) (depth : Nat) :
    Run depth (varintField number n) [⟨number, .varint n⟩] := by
  have hread : readScalar 0 (varint n) = some (.varint n, []) := by
    rw [readScalar, readVarint_varint (by omega), Option.map_some]
  simpa [varintField] using Run.scalar (readTag_tagText hpos hlt (by decide)) hread (.nil)

theorem run_lenField {number : Nat} {b : Bytes} (hpos : 0 < number) (hlt : number < 2 ^ 29)
    (hb : b.length ≤ maxSize) (depth : Nat) :
    Run depth (lenField number b) [⟨number, .len b⟩] := by
  have hsize : readVarint 5 (varint b.length) = some (b.length, []) :=
    readVarint_varint (by unfold maxSize at hb; omega)
  have hread : readScalar 2 (varint b.length ++ b) = some (.len b, []) := by
    have hbytes := readBytes_append b []
    rw [List.append_nil] at hbytes
    rw [readScalar, (local_readVarint 5).append hsize b, Option.bind_some, List.nil_append, hbytes,
      Option.map_some]
  simpa [lenField] using Run.scalar (readTag_tagText hpos hlt (by decide)) hread (.nil)

/-! ### Strings -/

def isContinuation (c : UInt8) : Bool := 0x80 ≤ c && c ≤ 0xBF

/-- The second byte of three: no form that is too long, and no surrogate. -/
def isSecondOfThree (a b : UInt8) : Bool :=
  if a = 0xE0 then 0xA0 ≤ b && b ≤ 0xBF else if a = 0xED then 0x80 ≤ b && b ≤ 0x9F
  else isContinuation b

/-- The second byte of four: no form that is too long, and nothing above U+10FFFF. -/
def isSecondOfFour (a b : UInt8) : Bool :=
  if a = 0xF0 then 0x90 ≤ b && b ≤ 0xBF else if a = 0xF4 then 0x80 ≤ b && b ≤ 0x8F
  else isContinuation b

def isValidUtf8 : Bytes → Bool
  | [] => true
  | a :: s =>
      if a < 0x80 then isValidUtf8 s
      else
        match s with
        | [] => false
        | b :: t =>
            if 0xC2 ≤ a && a ≤ 0xDF then isContinuation b && isValidUtf8 t
            else
              match t with
              | [] => false
              | c :: u =>
                  if 0xE0 ≤ a && a ≤ 0xEF then isSecondOfThree a b && isContinuation c && isValidUtf8 u
                  else
                    match u with
                    | [] => false
                    | d :: v => (0xF0 ≤ a && a ≤ 0xF4) && isSecondOfFour a b && isContinuation c &&
                        isContinuation d && isValidUtf8 v

theorem le_of_isContinuation {c : UInt8} (h : isContinuation c = true) : c ≤ 0xF4 := by
  rw [isContinuation, Bool.and_eq_true, decide_eq_true_eq, decide_eq_true_eq] at h
  exact h.2.trans (by decide)

theorem le_of_isSecondOfThree {a b : UInt8} (h : isSecondOfThree a b = true) : b ≤ 0xF4 := by
  unfold isSecondOfThree at h
  split_ifs at h
  · rw [Bool.and_eq_true, decide_eq_true_eq, decide_eq_true_eq] at h
    exact h.2.trans (by decide)
  · rw [Bool.and_eq_true, decide_eq_true_eq, decide_eq_true_eq] at h
    exact h.2.trans (by decide)
  · exact le_of_isContinuation h

theorem le_of_isSecondOfFour {a b : UInt8} (h : isSecondOfFour a b = true) : b ≤ 0xF4 := by
  unfold isSecondOfFour at h
  split_ifs at h
  · rw [Bool.and_eq_true, decide_eq_true_eq, decide_eq_true_eq] at h
    exact h.2.trans (by decide)
  · rw [Bool.and_eq_true, decide_eq_true_eq, decide_eq_true_eq] at h
    exact h.2.trans (by decide)
  · exact le_of_isContinuation h

/-- The bytes from 0xF5 on are in no string. -/
theorem le_of_isValidUtf8 {s : Bytes} (h : isValidUtf8 s = true) : ∀ c ∈ s, c ≤ 0xF4 := by
  fun_induction isValidUtf8 s with
  | case1 => exact List.forall_mem_nil _
  | case2 a s hlow ih =>
      exact List.forall_mem_cons.mpr ⟨hlow.le.trans (by decide), ih h⟩
  | case3 => cases h
  | case4 a hhigh b t htwo ih =>
      rw [Bool.and_eq_true] at h
      rw [Bool.and_eq_true, decide_eq_true_eq, decide_eq_true_eq] at htwo
      simp only [List.forall_mem_cons]
      exact ⟨htwo.2.trans (by decide), le_of_isContinuation h.1, ih h.2⟩
  | case5 => cases h
  | case6 a hhigh b _ c u hthree ih =>
      simp only [Bool.and_eq_true, decide_eq_true_eq] at h hthree
      simp only [List.forall_mem_cons]
      exact ⟨hthree.2.trans (by decide), le_of_isSecondOfThree h.1.1, le_of_isContinuation h.1.2,
        ih h.2⟩
  | case7 => cases h
  | case8 a hhigh b _ c _ d v ih =>
      simp only [Bool.and_eq_true, decide_eq_true_eq] at h
      simp only [List.forall_mem_cons]
      obtain ⟨⟨⟨⟨hfour, hb⟩, hc⟩, hd⟩, hv⟩ := h
      exact ⟨hfour.2, le_of_isSecondOfFour hb, le_of_isContinuation hc, le_of_isContinuation hd,
        ih hv⟩

end Wire
