import ExamVan.Lib.Transition
import ExamVan.Store.Memory
import ExamVan.Store.PostgresStore

/-!
# Two stores behind one interface

Both implementations of `ExamStore` perform the same operations side by side, each on its own state.
A handler sees of a store only the results, so stores with the same results serve it alike.
-/

namespace ExamVan.Store

open ByteString Models Postgres

/-- The operations of `ExamStore` on exams and tokens. -/
inductive Op
  | nextId
  | add (e : Exam)
  | getById (id : Int32)
  | listAll
  | tokenExists (t : Bytes) (excludeId : Int32)
  | claimToken (t : Bytes)
  | claimTokenIfAbsent (t : Bytes) (excludeId : Int32)
  | unclaimToken (t : Bytes)
  | update (id : Int32) (mutator : Exam → Exam)
  | remove (id : Int32)
  | count

inductive Result
  | nothing
  | id (n : Int32)
  | bool (b : Bool)
  | exam (e : Option Exam)
  | exams (es : List Exam)
  | size (n : Nat)
  deriving DecidableEq

def MemoryStore.perform (s : MemoryStore) : Op → Result × MemoryStore
  | .nextId => (.id s.takeId.1, s.takeId.2)
  | .add e => (.bool (s.add e).1, (s.add e).2)
  | .getById id => (.exam (s.getById id), s)
  | .listAll => (.exams s.listAll, s)
  | .tokenExists t excludeId => (.bool (s.tokenExists t excludeId), s)
  | .claimToken t => (.bool (s.claimToken t).1, (s.claimToken t).2)
  | .claimTokenIfAbsent t excludeId =>
      (.bool (s.claimTokenIfAbsent t excludeId).1, (s.claimTokenIfAbsent t excludeId).2)
  | .unclaimToken t => (.nothing, s.unclaimToken t)
  | .update id mutator => (.bool (s.update id mutator).1.isSome, (s.update id mutator).2)
  | .remove id => (.bool (s.remove id).1, (s.remove id).2)
  | .count => (.size s.count, s)

def PostgresStore.perform (s : PostgresStore) : Op → Result × PostgresStore
  | .nextId => (.id s.nextId.1, s.nextId.2)
  | .add e => (.bool (s.add e).1, (s.add e).2)
  | .getById id => (.exam (s.getById id), s)
  | .listAll => (.exams s.listAll, s)
  | .tokenExists t excludeId => (.bool (s.tokenExists t excludeId), s)
  | .claimToken t => (.bool (s.claimToken t), s)
  | .claimTokenIfAbsent t excludeId => (.bool (s.claimTokenIfAbsent t excludeId), s)
  | .unclaimToken _ => (.nothing, s)
  | .update id mutator => (.bool (s.update id mutator).1, (s.update id mutator).2)
  | .remove id => (.bool (s.remove id).1, (s.remove id).2)
  | .count => (.size s.count, s)

/-- Both stores, and whether every operation so far had the same result in both. -/
structure Pair where
  memory : MemoryStore
  postgres : PostgresStore
  agreed : Bool

def Pair.perform (s : Pair) (op : Op) : Pair where
  memory := (s.memory.perform op).2
  postgres := (s.postgres.perform op).2
  agreed := s.agreed && (s.memory.perform op).1 = (s.postgres.perform op).1

/-- Both stores from empty, with a sequence that `exams.id` owns or without one. -/
def bothStores (owned : Bool) : System Pair Op where
  initial := ⟨.empty, ⟨Sql.Relation.empty, if owned then some 1 else none⟩, true⟩
  step? s op := some (s.perform op)

/-! ### Where the two implementations agree -/

/-- What an operation must find. The sequence must be owned by the column, or nothing drawn yet. -/
def Safe (s : Pair) : Op → Prop
  | .nextId => (s.postgres.sequence = none → s.memory.nextId = 1) ∧
      ∀ n ∈ s.postgres.sequence, n < 2 ^ 31 - 1
  | .add e => NoNul e ∧
      ((∃ other ∈ s.memory.exams, other.token = e.token) ∨ ∀ other ∈ s.memory.exams, other.id < e.id)
  | .getById _ | .listAll | .count | .unclaimToken _ => True
  | .tokenExists t _ => 0 ∉ t
  | .claimToken t => 0 ∉ t ∧
      (t ∈ s.memory.seenTokens → ∃ e ∈ s.memory.exams, e.token = t)
  | .claimTokenIfAbsent t excludeId => 0 ∉ t ∧
      (t ∈ s.memory.seenTokens →
        ∃ e ∈ s.memory.exams, e.token = t ∧ ¬ (0 < excludeId ∧ e.id = excludeId))
  | .update id mutator => ∀ old ∈ s.memory.getById id, NoNul (mutator old) ∧
      ((mutator old).id = old.id ∧ (mutator old).createdBy = old.createdBy ∧
        (mutator old).createdAt = old.createdAt) ∧
      ∀ other ∈ s.memory.exams, other.id ≠ id → other.token ≠ (mutator old).token
  | .remove id => ∃ e ∈ s.memory.exams, e.id = id

instance decidableSafe (s : Pair) : ∀ op : Op, Decidable (Safe s op)
  | .nextId => inferInstanceAs (Decidable (_ ∧ _))
  | .add _ => inferInstanceAs (Decidable (_ ∧ _))
  | .getById _ | .listAll | .count | .unclaimToken _ => .isTrue trivial
  | .tokenExists t _ => inferInstanceAs (Decidable (0 ∉ t))
  | .claimToken _ => inferInstanceAs (Decidable (_ ∧ _))
  | .claimTokenIfAbsent _ _ => inferInstanceAs (Decidable (_ ∧ _))
  | .update id _ => inferInstanceAs (Decidable (∀ old ∈ s.memory.getById id, _))
  | .remove _ => inferInstanceAs (Decidable (∃ e ∈ s.memory.exams, _))

/-- The table holds the exams of the memory store, in the order of their ids, and the sequence
stands where the counter stands. -/
structure Mirror (m : MemoryStore) (p : PostgresStore) : Prop where
  exams : p.exams = m.exams
  sorted : m.exams.Pairwise fun e e' => e.id < e'.id
  sequence : ∀ n ∈ p.sequence, n = m.nextId.toInt

variable {m : MemoryStore} {p : PostgresStore} {s : Pair}

/-- One operation with the same result in both stores, which it leaves alike. -/
def Alike (s : Pair) (op : Op) : Prop :=
  (s.memory.perform op).1 = (s.postgres.perform op).1 ∧
    Mirror (s.memory.perform op).2 (s.postgres.perform op).2

theorem alike_nextId (h : Mirror s.memory s.postgres) (hsafe : Safe s .nextId) :
    Alike s .nextId := by
  obtain ⟨hunowned, hrange⟩ := hsafe
  cases hseq : s.postgres.sequence with
  | none =>
      have hfirst : s.memory.nextId = 1 := hunowned hseq
      have hnext : s.postgres.nextId = (1, s.postgres) := by
        rw [PostgresStore.nextId, hseq]
        rfl
      refine ⟨?_, ⟨?_, h.sorted, ?_⟩⟩
      · simp only [MemoryStore.perform, PostgresStore.perform, hnext, MemoryStore.takeId, hfirst]
      · simp only [PostgresStore.perform, hnext, h.exams, MemoryStore.perform, MemoryStore.takeId]
      · simp [PostgresStore.perform, hnext, hseq]
  | some n =>
      have hlt : n < 2 ^ 31 - 1 := hrange n hseq
      have hn : n = s.memory.nextId.toInt := h.sequence n hseq
      have hnext : s.postgres.nextId = (s.memory.nextId, { s.postgres with sequence := some (n + 1) }) := by
        rw [PostgresStore.nextId, hseq, hn]
        simp only [stoi_intText, Option.getD_some]
      have hsucc : n + 1 = (s.memory.nextId + 1).toInt := by
        have hle : -2 ^ 31 ≤ n := hn ▸ s.memory.nextId.le_toInt
        rw [Int32.toInt_add, ← hn, Int32.toInt_one]
        exact (Int.bmod_eq_of_le (by omega) (by omega)).symm
      refine ⟨?_, ⟨?_, h.sorted, ?_⟩⟩
      · simp only [MemoryStore.perform, PostgresStore.perform, hnext, MemoryStore.takeId]
      · simp only [PostgresStore.perform, hnext]
        exact h.exams
      · simp only [PostgresStore.perform, hnext, MemoryStore.perform, MemoryStore.takeId]
        rintro k ⟨⟩
        exact hsucc

theorem tokenExists_mirror (h : Mirror m p) {t : Bytes} (hnul : 0 ∉ t) (excludeId : Int32) :
    p.tokenExists t excludeId = m.tokenExists t excludeId := by
  have htest : ∀ e : Exam, (decide (e.token = t) && (decide (excludeId ≤ 0) || decide (e.id ≠ excludeId))) =
      decide ((!decide (0 < excludeId ∧ e.id = excludeId)) = true ∧ e.token = t) := by
    intro e
    have hpos : decide (excludeId ≤ 0) = !decide (0 < excludeId) := by
      rw [← decide_not]
      exact decide_eq_decide.mpr Int32.not_lt.symm
    rw [hpos]
    by_cases hzero : 0 < excludeId <;> by_cases hid : e.id = excludeId <;>
      by_cases htoken : e.token = t <;> simp [hzero, hid, htoken]
  rw [PostgresStore.tokenExists_eq, MemoryStore.tokenExists, h.exams, cStr_eq_self hnul]
  exact congrArg _ (funext htest)

theorem alike_read (h : Mirror s.memory s.postgres) (op : Op) (hmemory : (s.memory.perform op).2 = s.memory)
    (hpostgres : (s.postgres.perform op).2 = s.postgres)
    (hresult : (s.memory.perform op).1 = (s.postgres.perform op).1) : Alike s op := by
  refine ⟨hresult, ?_⟩
  rw [hmemory, hpostgres]
  exact h

theorem getById_mirror (h : Mirror m p) (id : Int32) : p.getById id = m.getById id := by
  rw [PostgresStore.getById_eq, h.exams]
  rfl

theorem listAll_mirror (h : Mirror m p) : p.listAll = m.listAll := by
  rw [PostgresStore.listAll_eq, h.exams]
  exact List.mergeSort_of_pairwise (h.sorted.imp fun hlt => decide_eq_true (Int32.le_of_lt hlt))

/-- A registry of tokens does not matter to the table. -/
theorem Mirror.withSeen (h : Mirror m p) (seen : Finset Bytes) :
    Mirror { m with seenTokens := seen } p := ⟨h.exams, h.sorted, h.sequence⟩

theorem alike_claimToken (h : Mirror s.memory s.postgres) {t : Bytes} (hsafe : Safe s (.claimToken t)) :
    Alike s (.claimToken t) := by
  obtain ⟨hnul, hseen⟩ := hsafe
  have hexists : s.postgres.tokenExists t 0 = s.memory.exams.any fun e => e.token = t := by
    rw [tokenExists_mirror h hnul, MemoryStore.tokenExists]
    simp
  refine ⟨?_, ?_⟩
  · simp only [MemoryStore.perform, PostgresStore.perform, PostgresStore.claimToken, hexists]
    congr 1
    unfold MemoryStore.claimToken
    split
    next hmem =>
      have hany : (s.memory.exams.any fun e => e.token = t) = true := by
        simpa using hseen hmem
      simp [hany]
    next =>
      cases hany : s.memory.exams.any fun e => e.token = t <;> simp
  · obtain hclaim | ⟨-, hclaim⟩ := s.memory.claimToken_cases t
    · simp only [MemoryStore.perform, hclaim]
      exact h
    · simp only [MemoryStore.perform, hclaim]
      exact h.withSeen _

theorem alike_claimTokenIfAbsent (h : Mirror s.memory s.postgres) {t : Bytes} {excludeId : Int32}
    (hsafe : Safe s (.claimTokenIfAbsent t excludeId)) : Alike s (.claimTokenIfAbsent t excludeId) := by
  obtain ⟨hnul, hseen⟩ := hsafe
  have hexists := tokenExists_mirror h hnul excludeId
  rw [MemoryStore.tokenExists] at hexists
  refine ⟨?_, ?_⟩
  · simp only [MemoryStore.perform, PostgresStore.perform, PostgresStore.claimTokenIfAbsent, hexists]
    congr 1
    unfold MemoryStore.claimTokenIfAbsent
    split
    next hmem =>
      have hany : (s.memory.exams.any fun e =>
          !(0 < excludeId ∧ e.id = excludeId) ∧ e.token = t) = true := by
        obtain ⟨e, he, htoken, hid⟩ := hseen hmem
        exact List.any_eq_true.mpr ⟨e, he, by simp [htoken, hid]⟩
      rw [hany]
      rfl
    next =>
      split
      next hany =>
        rw [hany]
        rfl
      next hany =>
        rw [Bool.eq_false_iff.mpr hany]
        rfl
  · obtain hclaim | ⟨-, hclaim⟩ := s.memory.claimTokenIfAbsent_cases t excludeId
    · simp only [MemoryStore.perform, hclaim]
      exact h
    · simp only [MemoryStore.perform, hclaim]
      exact h.withSeen _

theorem alike_add (h : Mirror s.memory s.postgres) {e : Exam} (hsafe : Safe s (.add e)) :
    Alike s (.add e) := by
  obtain ⟨hnul, hplace⟩ := hsafe
  by_cases htoken : ∃ other ∈ s.memory.exams, other.token = e.token
  · have hmemory : s.memory.add e = (false, s.memory) := by
      rw [MemoryStore.add, if_pos (by simpa using htoken)]
    have hpostgres : s.postgres.add e = (false, s.postgres) := by
      refine s.postgres.add_of_taken hnul fun hfree => ?_
      obtain ⟨other, hother, heq⟩ := htoken
      exact (hfree other (h.exams ▸ hother)).2 heq
    refine ⟨?_, ?_⟩
    · simp only [MemoryStore.perform, PostgresStore.perform, hmemory, hpostgres]
    · simpa only [MemoryStore.perform, PostgresStore.perform, hmemory, hpostgres] using h
  · have hids : ∀ other ∈ s.memory.exams, other.id < e.id := hplace.resolve_left htoken
    have hmemory : s.memory.add e = (true, { s.memory with exams := s.memory.exams ++ [e] }) := by
      rw [MemoryStore.add, if_neg (by simpa using htoken)]
    have hfree : ∀ other ∈ s.postgres.exams, other.id ≠ e.id ∧ other.token ≠ e.token := by
      intro other hother
      rw [h.exams] at hother
      exact ⟨Int32.ne_of_lt (hids other hother), fun heq => htoken ⟨other, hother, heq⟩⟩
    obtain ⟨p', hpostgres, hexams, hsequence⟩ := s.postgres.add_of_free hnul hfree
    refine ⟨?_, ⟨?_, ?_, ?_⟩⟩
    · simp only [MemoryStore.perform, PostgresStore.perform, hmemory, hpostgres]
    · simp only [MemoryStore.perform, PostgresStore.perform, hmemory, hpostgres]
      rw [hexams, h.exams]
    · simp only [MemoryStore.perform, hmemory]
      refine List.pairwise_append.mpr ⟨h.sorted, List.pairwise_singleton _ _, ?_⟩
      intro other hother new hnew
      rw [List.mem_singleton.mp hnew]
      exact hids other hother
    · simp only [MemoryStore.perform, PostgresStore.perform, hmemory, hpostgres, hsequence]
      exact h.sequence

theorem others_of_mirror (h : Mirror m p) {e : Exam} {before after : List Exam}
    (hsplit : m.exams = before ++ e :: after) : ∀ other ∈ before ++ after, other.id ≠ e.id :=
  p.others_of_split (h.exams.trans hsplit)

theorem alike_update (h : Mirror s.memory s.postgres) {id : Int32} {mutator : Exam → Exam}
    (hsafe : Safe s (.update id mutator)) : Alike s (.update id mutator) := by
  have hget := getById_mirror h id
  cases hfind : s.memory.getById id with
  | none =>
      rw [hfind] at hget
      have hmemory := MemoryStore.update_of_getById_eq_none hfind mutator
      have hpostgres : s.postgres.update id mutator = (false, s.postgres) :=
        s.postgres.update_of_getById_eq_none hget
      refine ⟨?_, ?_⟩
      · simp only [MemoryStore.perform, PostgresStore.perform, hmemory, hpostgres]
        rfl
      · simp only [MemoryStore.perform, PostgresStore.perform, hmemory, hpostgres]
        exact h
  | some old =>
      rw [hfind] at hget
      obtain ⟨hnul, hkept, hfree⟩ := hsafe old hfind
      obtain ⟨before, after, rfl, hsplit, -, hupdate⟩ := MemoryStore.split_of_getById hfind
      have hothers := others_of_mirror h hsplit
      have htokens : ∀ other ∈ before ++ after, other.token ≠ (mutator old).token := by
        intro other hother
        refine hfree other ?_ (hothers other hother)
        rw [hsplit, List.perm_middle.mem_iff]
        exact List.mem_cons_of_mem _ hother
      obtain ⟨p', hpostgres, hexams, hsequence⟩ :=
        s.postgres.update_of_free (h.exams.trans hsplit) rfl hget hnul htokens
      refine ⟨?_, ⟨?_, ?_, ?_⟩⟩
      · simp only [MemoryStore.perform, PostgresStore.perform, hpostgres, MemoryStore.update, hfind]
        rfl
      · simp only [MemoryStore.perform, PostgresStore.perform, hpostgres]
        rw [hexams, hupdate mutator, PostgresStore.rewriteRow_of_kept hkept]
      · simp only [MemoryStore.perform]
        have hids : (before ++ mutator old :: after).map Exam.id = s.memory.exams.map Exam.id := by
          rw [hsplit, List.map_append, List.map_append, List.map_cons, List.map_cons, hkept.1]
        have hsorted : (s.memory.exams.map Exam.id).Pairwise (· < ·) := List.pairwise_map.mpr h.sorted
        rw [hupdate mutator]
        rw [← hids] at hsorted
        exact List.pairwise_map.mp hsorted
      · simp only [MemoryStore.perform, PostgresStore.perform, hpostgres, hsequence]
        exact h.sequence

theorem alike_remove (h : Mirror s.memory s.postgres) {id : Int32} (hsafe : Safe s (.remove id)) :
    Alike s (.remove id) := by
  obtain ⟨e, he, hid⟩ := hsafe
  obtain ⟨old, hfind⟩ : ∃ old, s.memory.getById id = some old := by
    rw [← Option.isSome_iff_exists, MemoryStore.getById, List.find?_isSome]
    exact ⟨e, he, by simpa using hid⟩
  obtain ⟨before, after, rfl, hsplit, herase, -⟩ := MemoryStore.split_of_getById hfind
  obtain ⟨hresult, hsequence, hexams⟩ := @PostgresStore.remove_eq s.postgres old.id
  have hothers := others_of_mirror h hsplit
  have hmemory : s.memory.remove old.id = (true, { s.memory with
      exams := before ++ after
      seenTokens := s.memory.seenTokens.erase old.token }) := by
    rw [MemoryStore.remove, hfind]
    dsimp only
    rw [herase]
  have hfilter : (before ++ old :: after).filter (fun e => e.id ≠ old.id) = before ++ after := by
    have hkeep : ∀ es : List Exam, (∀ other ∈ es, other.id ≠ old.id) →
        es.filter (fun e => e.id ≠ old.id) = es := fun es hes =>
      List.filter_eq_self.mpr fun other hother => decide_eq_true (hes other hother)
    rw [List.filter_append, List.filter_cons_of_neg (by simp),
      hkeep before fun other hother => hothers other (List.mem_append_left _ hother),
      hkeep after fun other hother => hothers other (List.mem_append_right _ hother)]
  refine ⟨?_, ⟨?_, ?_, ?_⟩⟩
  · simp only [MemoryStore.perform, PostgresStore.perform, hmemory, hresult]
  · simp only [MemoryStore.perform, PostgresStore.perform, hmemory, hexams]
    rw [h.exams, hsplit, hfilter]
  · simp only [MemoryStore.perform, hmemory]
    have hsub : List.Sublist (before ++ after) s.memory.exams := by
      rw [hsplit]
      exact List.Sublist.append_left (List.sublist_cons_self old after) before
    exact h.sorted.sublist hsub
  · simp only [MemoryStore.perform, PostgresStore.perform, hmemory, hsequence]
    exact h.sequence

/-- Stores that are alike perform a safe operation alike. -/
theorem alike_of_safe (h : Mirror s.memory s.postgres) {op : Op} (hsafe : Safe s op) : Alike s op := by
  cases op with
  | nextId => exact alike_nextId h hsafe
  | add e => exact alike_add h hsafe
  | getById id => exact alike_read h _ rfl rfl (congrArg Result.exam (getById_mirror h id).symm)
  | listAll => exact alike_read h _ rfl rfl (congrArg Result.exams (listAll_mirror h).symm)
  | tokenExists t excludeId =>
      exact alike_read h _ rfl rfl (congrArg Result.bool (tokenExists_mirror h hsafe excludeId).symm)
  | claimToken t => exact alike_claimToken h hsafe
  | claimTokenIfAbsent t excludeId => exact alike_claimTokenIfAbsent h hsafe
  | unclaimToken t => exact ⟨rfl, h.withSeen _⟩
  | update id mutator => exact alike_update h hsafe
  | remove id => exact alike_remove h hsafe
  | count => exact alike_read h _ rfl rfl (congrArg (Result.size ∘ List.length) h.exams.symm)

/-! ### Runs -/

theorem mirror_invariant (owned : Bool) :
    (bothStores owned).Invariant Safe fun s => s.agreed = true ∧ Mirror s.memory s.postgres where
  initial := by
    refine ⟨rfl, ⟨rfl, List.Pairwise.nil, ?_⟩⟩
    cases owned with
    | true =>
        rintro n ⟨⟩
        rfl
    | false => exact nofun
  step := by
    rintro s s' op ⟨hagreed, hmirror⟩ hsafe ⟨⟩
    obtain ⟨hresult, hnext⟩ := alike_of_safe hmirror hsafe
    exact ⟨by simp [Pair.perform, hagreed, hresult], hnext⟩

/-- In a run of safe operations the two stores return the same results, and hold the same exams. -/
theorem stores_interchangeable {owned : Bool} {s : Pair} (hreach : (bothStores owned).Reachable Safe s) :
    s.agreed = true ∧ s.postgres.listAll = s.memory.listAll := by
  obtain ⟨hagreed, hmirror⟩ := hreach.holds (mirror_invariant owned)
  exact ⟨hagreed, listAll_mirror hmirror⟩

/-- An exam with the id and the token of a run's first operations. -/
def firstExam : Exam := { id := 1, token := str "AAAAAAAA" }

def createRun : List Op :=
  [.nextId, .claimToken (str "AAAAAAAA"), .add firstExam, .update 1 (fun e => { e with name := str "A" }),
    .tokenExists (str "AAAAAAAA") 1, .remove 1, .listAll]

/-- One exam is created, renamed and deleted. -/
theorem stores_interchangeable_createRun :
    ((bothStores true).after createRun).agreed = true ∧
      ((bothStores true).after createRun).postgres.listAll =
        ((bothStores true).after createRun).memory.listAll :=
  stores_interchangeable (System.reachable_after rfl (by decide +kernel))

/-- Two deletions of one exam look it up before either removes it. -/
def deleteTwiceRun : List Op :=
  [.nextId, .claimToken (str "AAAAAAAA"), .add firstExam, .getById 1, .getById 1, .remove 1, .remove 1]

/-- The second removal finds no exam, and only the memory store says so. -/
theorem not_stores_interchangeable :
    ¬ ∀ (owned : Bool) (ops : List Op), ((bothStores owned).after ops).agreed = true := by
  intro h
  exact absurd (h true deleteTwiceRun) (by decide +kernel)

example : ((bothStores true).after (deleteTwiceRun.take 6)).agreed = true := by decide +kernel

end ExamVan.Store
