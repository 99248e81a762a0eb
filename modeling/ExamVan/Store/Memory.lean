import ExamVan.Lib.Registry
import ExamVan.Models.Exam
import Mathlib.Data.List.Lookmap
import Mathlib.Logic.Function.Basic

/-!
# The memory store

Each operation of `ExamStoreMemory` is one step under its mutex. A token is claimed before an exam
carries it and released after no exam carries it any more, so between the operations of a handler
`seen_tokens_` holds the tokens of the stored exams and those that a handler has in hand.
-/

namespace ExamVan.Store

open ByteString Models

structure MemoryStore where
  exams : List Exam
  nextId : Int32
  seenTokens : Finset Bytes

namespace MemoryStore

def empty : MemoryStore := ⟨[], 1, ∅⟩

/-! ### Operations -/

/-- `next_id`. -/
def takeId (s : MemoryStore) : Int32 × MemoryStore := (s.nextId, { s with nextId := s.nextId + 1 })

/-- `add` looks for the token among the exams only. -/
def add (s : MemoryStore) (e : Exam) : Bool × MemoryStore :=
  if s.exams.any fun other => other.token = e.token then (false, s)
  else (true, { s with exams := s.exams ++ [e] })

def getById (s : MemoryStore) (id : Int32) : Option Exam := s.exams.find? fun e => e.id = id

def listAll (s : MemoryStore) : List Exam := s.exams

def tokenExists (s : MemoryStore) (t : Bytes) (excludeId : Int32) : Bool :=
  s.exams.any fun e => !(0 < excludeId ∧ e.id = excludeId) ∧ e.token = t

def count (s : MemoryStore) : Nat := s.exams.length

def claimToken (s : MemoryStore) (t : Bytes) : Bool × MemoryStore :=
  if t ∈ s.seenTokens then (false, s)
  else if s.exams.any fun e => e.token = t then (false, s)
  else (true, { s with seenTokens := insert t s.seenTokens })

def claimTokenIfAbsent (s : MemoryStore) (t : Bytes) (excludeId : Int32) : Bool × MemoryStore :=
  if t ∈ s.seenTokens then (false, s)
  else if s.exams.any fun e => !(0 < excludeId ∧ e.id = excludeId) ∧ e.token = t then (false, s)
  else (true, { s with seenTokens := insert t s.seenTokens })

def unclaimToken (s : MemoryStore) (t : Bytes) : MemoryStore :=
  { s with seenTokens := s.seenTokens.erase t }

/-- The first exam with the id is changed, and is returned as the mutator finds it. -/
def update (s : MemoryStore) (id : Int32) (mutator : Exam → Exam) : Option Exam × MemoryStore :=
  (s.getById id,
    { s with exams := s.exams.lookmap fun e => if e.id = id then some (mutator e) else none })

/-- The exam and its claim go in one step. -/
def remove (s : MemoryStore) (id : Int32) : Bool × MemoryStore :=
  match s.getById id with
  | none => (false, s)
  | some e =>
      (true, { s with
        exams := s.exams.eraseP fun e => e.id = id
        seenTokens := s.seenTokens.erase e.token })

/-! ### What one operation does -/

variable {s : MemoryStore} {id : Int32} {t : Bytes} {e : Exam} {mutator : Exam → Exam}

theorem claimToken_cases (s : MemoryStore) (t : Bytes) :
    s.claimToken t = (false, s) ∨
      t ∉ s.seenTokens ∧ s.claimToken t = (true, { s with seenTokens := insert t s.seenTokens }) := by
  unfold claimToken
  split
  · exact .inl rfl
  · split
    · exact .inl rfl
    · exact .inr ⟨‹_›, rfl⟩

theorem claimTokenIfAbsent_cases (s : MemoryStore) (t : Bytes) (excludeId : Int32) :
    s.claimTokenIfAbsent t excludeId = (false, s) ∨
      t ∉ s.seenTokens ∧ s.claimTokenIfAbsent t excludeId =
        (true, { s with seenTokens := insert t s.seenTokens }) := by
  unfold claimTokenIfAbsent
  split
  · exact .inl rfl
  · split
    · exact .inl rfl
    · exact .inr ⟨‹_›, rfl⟩

theorem add_cases (s : MemoryStore) (e : Exam) :
    s.add e = (false, s) ∨ s.add e = (true, { s with exams := s.exams ++ [e] }) := by
  unfold add
  split
  · exact .inl rfl
  · exact .inr rfl

/-- `lookmap` acts on the first element that it can change. -/
theorem lookmap_append_cons {α : Type*} {f : α → Option α} {a b : α} {before after : List α}
    (hbefore : ∀ x ∈ before, f x = none) (ha : f a = some b) :
    (before ++ a :: after).lookmap f = before ++ b :: after := by
  induction before with
  | nil => exact List.lookmap_cons_some _ _ ha
  | cons x before ih =>
      rw [List.cons_append, List.lookmap_cons_none _ _ (hbefore x List.mem_cons_self),
        ih fun y hy => hbefore y (List.mem_cons_of_mem x hy), List.cons_append]

/-- The exam that `getById` finds splits the list, and the other operations act at that place. -/
theorem split_of_getById (h : s.getById id = some e) :
    ∃ before after, e.id = id ∧ s.exams = before ++ e :: after ∧
      (s.exams.eraseP fun e => e.id = id) = before ++ after ∧
      ∀ mutator, (s.update id mutator).2.exams = before ++ mutator e :: after := by
  obtain ⟨hid, before, after, hsplit, hbefore⟩ := List.find?_eq_some_iff_append.mp h
  have hne : ∀ b ∈ before, b.id ≠ id := fun b hb => by simpa using hbefore b hb
  rw [decide_eq_true_eq] at hid
  refine ⟨before, after, hid, hsplit, ?_, fun mutator => ?_⟩
  · rw [hsplit, List.eraseP_append_right _ (by simpa using hne),
      List.eraseP_cons_of_pos (by simpa using hid)]
  · rw [update, hsplit]
    exact lookmap_append_cons (fun b hb => if_neg (hne b hb)) (if_pos hid)

/-- Without an exam of that id nothing changes. -/
theorem update_of_getById_eq_none (h : s.getById id = none) (mutator : Exam → Exam) :
    s.update id mutator = (none, s) := by
  have hne : ∀ e ∈ s.exams, e.id ≠ id := by simpa [getById] using h
  rw [update, h, List.lookmap_of_forall_not _ fun e he => if_neg (hne e he)]

/-- The mutator at the exams of one id. -/
def changeAt (id : Int32) (mutator : Exam → Exam) (e : Exam) : Option Exam :=
  if e.id = id then some (mutator e) else none

theorem getById_update_of_ne {m : Int32} (hne : m ≠ id) (hid : ∀ e, (mutator e).id = e.id) :
    (s.update id mutator).2.getById m = s.getById m := by
  change ((s.exams.lookmap (changeAt id mutator)).find? fun e => e.id = m) =
    s.exams.find? fun e => e.id = m
  induction s.exams with
  | nil => rfl
  | cons e exams ih =>
      by_cases he : e.id = id
      · have hm : ¬ e.id = m := fun h => hne (h.symm.trans he)
        rw [List.lookmap_cons_some _ _ (show changeAt id mutator e = some (mutator e) from if_pos he)]
        simp [hid, hm]
      · rw [List.lookmap_cons_none _ _ (show changeAt id mutator e = none from if_neg he),
          List.find?_cons, List.find?_cons, ih]

theorem getById_update_self (hid : ∀ e, (mutator e).id = e.id) :
    (s.update id mutator).2.getById id = (s.getById id).map mutator := by
  change ((s.exams.lookmap (changeAt id mutator)).find? fun e => e.id = id) =
    (s.exams.find? fun e => e.id = id).map mutator
  induction s.exams with
  | nil => rfl
  | cons e exams ih =>
      by_cases he : e.id = id
      · rw [List.lookmap_cons_some _ _ (show changeAt id mutator e = some (mutator e) from if_pos he)]
        simp [hid, he]
      · rw [List.lookmap_cons_none _ _ (show changeAt id mutator e = none from if_neg he)]
        simpa [he] using ih

theorem exams_remove (s : MemoryStore) (id : Int32) :
    (s.remove id).2.exams = s.exams.eraseP fun e => e.id = id := by
  unfold remove
  cases hfind : s.getById id with
  | none => exact (List.eraseP_of_forall_not (List.find?_eq_none.mp hfind)).symm
  | some e => rfl

theorem nodup_remove (h : (s.exams.map Exam.id).Nodup) :
    ((s.remove id).2.exams.map Exam.id).Nodup := by
  rw [exams_remove]
  exact h.sublist (List.eraseP_sublist.map Exam.id)

/-- Where an id names one exam at most, `remove` leaves none of it. -/
theorem getById_remove (h : (s.exams.map Exam.id).Nodup) (m : Int32) :
    (s.remove id).2.getById m = if m = id then none else s.getById m := by
  rw [getById, exams_remove, getById]
  generalize s.exams = exams at h ⊢
  induction exams with
  | nil => simp
  | cons e exams ih =>
      rw [List.map_cons] at h
      obtain ⟨hnotMem, hnodup⟩ := List.nodup_cons.mp h
      by_cases he : e.id = id
      · rw [List.eraseP_cons_of_pos (by simpa using he)]
        split
        next hm =>
          refine List.find?_eq_none.mpr fun other hother => ?_
          have hne : other.id ≠ e.id := fun heq => hnotMem (List.mem_map.mpr ⟨other, hother, heq⟩)
          simpa [hm, ← he] using hne
        next hm =>
          have hne : ¬ e.id = m := fun heq => hm (heq.symm.trans he)
          rw [List.find?_cons_of_neg (by simpa using hne)]
      · rw [List.eraseP_cons_of_neg (by simpa using he), List.find?_cons, List.find?_cons, ih hnodup]
        by_cases hm : e.id = m
        · have hne : m ≠ id := fun heq => he (hm.trans heq)
          simp [hm, hne]
        · simp [hm]

/-! ### Claims

The registry is `seen_tokens_`. Its owners are the stored exams, and whoever holds `held`. -/

def tokens (s : MemoryStore) : Multiset Bytes := s.exams.map Exam.token

def Exact (s : MemoryStore) (held : Multiset Bytes) : Prop :=
  Registry.Exact s.seenTokens (s.tokens + held)

variable {held : Multiset Bytes}

theorem exact_empty : empty.Exact 0 := rfl

theorem Exact.takeId (h : s.Exact held) : s.takeId.2.Exact held := h

theorem Exact.claim (h : s.Exact held) (hfree : t ∉ s.seenTokens) :
    { s with seenTokens := insert t s.seenTokens }.Exact (t ::ₘ held) := by
  have hclaim := Registry.Exact.claim h hfree
  rwa [← Multiset.add_cons] at hclaim

theorem Exact.unclaimToken (h : s.Exact (t ::ₘ held)) : (s.unclaimToken t).Exact held := by
  refine Registry.Exact.release (a := t) ?_
  rwa [← Multiset.add_cons]

/-- A claim becomes the token of a new exam. -/
theorem Exact.append (h : s.Exact (e.token ::ₘ held)) :
    { s with exams := s.exams ++ [e] }.Exact held := by
  have htokens : tokens { s with exams := s.exams ++ [e] } = e.token ::ₘ s.tokens := by
    rw [tokens, List.map_append, ← Multiset.coe_add, Multiset.add_comm]
    rfl
  rw [Exact, htokens, Multiset.cons_add, ← Multiset.add_cons]
  exact h

/-- The tokens of the store before and after an update. -/
theorem tokens_update (h : s.getById id = some e) (mutator : Exam → Exam) :
    e.token ::ₘ (s.update id mutator).2.tokens = (mutator e).token ::ₘ s.tokens := by
  obtain ⟨before, after, -, hsplit, -, hupdate⟩ := split_of_getById h
  rw [tokens, tokens, hsplit, hupdate mutator, List.map_append, List.map_append, List.map_cons,
    List.map_cons, ← Multiset.coe_add, ← Multiset.coe_add, ← Multiset.cons_coe, ← Multiset.cons_coe,
    Multiset.add_cons, Multiset.add_cons, Multiset.cons_swap]

/-- An update exchanges the exam's token for a claim. -/
theorem Exact.update (hfind : s.getById id = some e) (h : s.Exact ((mutator e).token ::ₘ held)) :
    (s.update id mutator).2.Exact (e.token ::ₘ held) := by
  rw [Exact, Multiset.add_cons, ← Multiset.cons_add, tokens_update hfind, Multiset.cons_add,
    ← Multiset.add_cons]
  exact h

/-- An update that leaves the token alone. -/
theorem Exact.update_of_token_eq (htoken : ∀ e, (mutator e).token = e.token) (h : s.Exact held) :
    (s.update id mutator).2.Exact held := by
  cases hfind : s.getById id with
  | none =>
      rw [update_of_getById_eq_none hfind]
      exact h
  | some e =>
      have htokens := tokens_update hfind mutator
      rw [htoken, Multiset.cons_inj_right] at htokens
      rw [Exact, htokens]
      exact h

theorem Exact.remove (h : s.Exact held) : (s.remove id).2.Exact held := by
  unfold MemoryStore.remove
  cases hfind : s.getById id with
  | none => exact h
  | some e =>
      obtain ⟨before, after, -, hsplit, herase, -⟩ := split_of_getById hfind
      refine Registry.Exact.release (a := e.token) ?_
      rw [tokens, herase, ← Multiset.cons_add]
      have htokens : e.token ::ₘ ((before ++ after).map Exam.token : Multiset Bytes) = s.tokens := by
        rw [tokens, hsplit, List.map_append, List.map_append, List.map_cons, ← Multiset.coe_add,
          ← Multiset.coe_add, ← Multiset.cons_coe, Multiset.add_cons]
      rw [htokens]
      exact h

end MemoryStore

end ExamVan.Store

/-!
## Idempotency keys of the memory store

A key is absent, pending or completed. It is reserved for the first request that comes with it, and
that request either completes it with its response or releases it.
-/

namespace ExamVan.Store

open ByteString

/-- A response with its `Content-Type`. -/
structure Answer where
  status : Nat
  contentType : Bytes
  body : Bytes
  deriving DecidableEq

/-- An entry of `idem_`. -/
structure IdempotencyRecord where
  fingerprint : Bytes
  completed : Bool
  response : Answer
  deriving DecidableEq

/-- `IdempotencyResult`. -/
inductive Reserved
  | new
  | replay (response : Answer)
  | conflict
  deriving DecidableEq

/-- The exams, and `idem_`. -/
structure IdempotencyStore where
  exams : MemoryStore
  idem : Bytes → Option IdempotencyRecord

namespace IdempotencyStore

def pending (fingerprint : Bytes) : IdempotencyRecord := ⟨fingerprint, false, ⟨0, [], []⟩⟩

def completed (fingerprint : Bytes) (response : Answer) : IdempotencyRecord :=
  ⟨fingerprint, true, response⟩

def setIdem (s : IdempotencyStore) (key : Bytes) (record : Option IdempotencyRecord) :
    IdempotencyStore :=
  { s with idem := Function.update s.idem key record }

/-- `reserve_idempotency`. -/
def reserve (s : IdempotencyStore) (key fingerprint : Bytes) : Reserved × IdempotencyStore :=
  match s.idem key with
  | some record =>
      if record.fingerprint = fingerprint ∧ record.completed then (.replay record.response, s)
      else (.conflict, s)
  | none => (.new, s.setIdem key (some (pending fingerprint)))

/-- `finalize_idempotency`. -/
def finalize (s : IdempotencyStore) (key fingerprint : Bytes) (response : Answer) :
    IdempotencyStore :=
  s.setIdem key (some (completed fingerprint response))

/-- `release_idempotency`. -/
def release (s : IdempotencyStore) (key : Bytes) : IdempotencyStore := s.setIdem key none

variable {s : IdempotencyStore} {key key' fingerprint : Bytes} {record : Option IdempotencyRecord}

@[simp]
theorem idem_setIdem : (s.setIdem key record).idem key = record := Function.update_self ..

theorem idem_setIdem_of_ne (h : key' ≠ key) : (s.setIdem key record).idem key' = s.idem key' :=
  Function.update_of_ne h ..

@[simp]
theorem exams_setIdem : (s.setIdem key record).exams = s.exams := rfl

/-- A reservation: the key is absent and becomes pending, or it is completed for the same
fingerprint and answers its response, or nothing happens. -/
theorem reserve_cases (s : IdempotencyStore) (key fingerprint : Bytes) :
    (s.idem key = none ∧
        s.reserve key fingerprint = (.new, s.setIdem key (some (pending fingerprint)))) ∨
      (∃ response, s.idem key = some (completed fingerprint response) ∧
        s.reserve key fingerprint = (.replay response, s)) ∨
      s.reserve key fingerprint = (.conflict, s) := by
  unfold reserve
  cases hidem : s.idem key with
  | none => exact Or.inl ⟨rfl, rfl⟩
  | some record =>
      obtain ⟨fp, done, response⟩ := record
      by_cases hmatch : fp = fingerprint ∧ done = true
      · obtain ⟨rfl, rfl⟩ := hmatch
        exact Or.inr (Or.inl ⟨response, rfl, if_pos ⟨rfl, rfl⟩⟩)
      · exact Or.inr (Or.inr (if_neg hmatch))

end IdempotencyStore

end ExamVan.Store
