import ExamVan.Admin.CreateExam
import ExamVan.Lib.Protocol

/-!
# One exam for one key

Any number of `create_exam` run at once on the memory store. The request that reserves a key holds
it until it releases or finalizes it, and no other request gets past the reservation in the
meantime. A protobuf answer leaves the key pending.
-/

namespace ExamVan.Admin

open ByteString Models Store IdempotencyStore

/-! ### The key in the program -/

/-- The operation is about this key. -/
def CreateOp.Touches (k : Bytes) : CreateOp → Prop
  | .reserve key _ | .finalize key _ _ | .release key => key = k
  | _ => False

/-- What is left of a request that has reserved the key, and whether it has added its exam: it
releases the key without an exam, or adds one and finalizes the key, and then returns. With `leak`
it returns right after the exam, with the key pending. -/
def Holding (k fp : Bytes) (leak : Prop) : CreateProg Store.Answer → Bool → Prop
  | .done _, added => added = true ∧ leak
  | .call (.release key) next, added => added = false ∧ key = k ∧ ∃ r, next () = .done r
  | .call (.finalize key fingerprint r) next, added =>
      added = true ∧ ¬ leak ∧ key = k ∧ fingerprint = fp ∧ next () = .done r
  | .call (.reserve _ _) _, _ => False
  | .call (.add _) next, added =>
      added = false ∧ Holding k fp leak (next true) true ∧ Holding k fp leak (next false) false
  | .call (.claimToken _) next, added => added = false ∧ ∀ a, Holding k fp leak (next a) false
  | .call (.unclaimToken _) next, added => added = false ∧ ∀ a, Holding k fp leak (next a) false
  | .call .nextId next, added => added = false ∧ ∀ a, Holding k fp leak (next a) false

section

variable {k fp idem : Bytes} {leak : Prop} {env : CreateEnv} {req : Http.Request}

theorem holding_releaseAndReturn (hk : k ≠ []) (r : Http.Response) :
    Holding k fp leak (releaseAndReturn k r) false := by
  rw [releaseAndReturn, if_neg hk]
  exact ⟨rfl, rfl, jsonAnswer r, rfl⟩

/-- Claims do not touch the key. -/
def CreateOp.IsClaim : CreateOp → Prop
  | .claimToken _ => True
  | _ => False

theorem holding_bind {β : Type} {p : CreateProg β} {f : β → CreateProg Store.Answer}
    (hp : p.All CreateOp.IsClaim) (hf : ∀ b, Holding k fp leak (f b) false) :
    Holding k fp leak (p >>= f) false := by
  induction p with
  | done b => exact hf b
  | call o next ih =>
      cases o with
      | claimToken token => exact ⟨rfl, fun a => ih a (hp.2 a)⟩
      | _ => exact hp.1.elim

theorem isClaim_claimGenerated (tries i : Nat) :
    (claimGenerated env tries i).All CreateOp.IsClaim := by
  induction tries generalizing i with
  | zero => trivial
  | succ tries ih =>
      refine ⟨trivial, fun claimed => ?_⟩
      cases claimed with
      | true => trivial
      | false => exact ih (i + 1)

theorem isClaim_claimCreateToken (customToken : Bytes) :
    (claimCreateToken env customToken).All CreateOp.IsClaim := by
  unfold claimCreateToken
  split
  · split
    · trivial
    · refine ⟨trivial, fun claimed => ?_⟩
      cases claimed <;> trivial
  · refine (isClaim_claimGenerated 5 0).bind fun token => ?_
    cases token <;> trivial

theorem holding_replyCreated {form : CreateForm} {id : Int32} {token : Bytes} (hk : k ≠ []) :
    Holding k fp (repliesProtobuf env req = true) (replyCreated env req k fp form id token) true := by
  unfold replyCreated repliesProtobuf
  cases haccept : isProtobufAccept req with
  | false => simp [hk, Holding]
  | true =>
      cases hcodec : env.protobuf with
      | none => simp [hk, Holding]
      | some codec => simp [Holding]

/-- Every exit of `create_exam` after the reservation. -/
theorem holding_createReserved (hk : k ≠ []) :
    Holding k fp (repliesProtobuf env req = true) (createReserved env req k fp) false := by
  unfold createReserved
  split
  · exact holding_releaseAndReturn hk _
  · split
    · exact holding_releaseAndReturn hk _
    next form hform =>
      refine holding_bind (isClaim_claimCreateToken _) fun token => ?_
      split
      · exact holding_releaseAndReturn hk _
      next token =>
        refine ⟨rfl, fun id => ?_⟩
        dsimp only [Prog.done_bind]
        split
        · exact ⟨rfl, fun _ => holding_releaseAndReturn hk _⟩
        · exact ⟨rfl, holding_replyCreated hk, rfl, fun _ => holding_releaseAndReturn hk _⟩

/-! ### Requests with another key -/

theorem untouched_releaseAndReturn (hidem : idem ≠ k) (r : Http.Response) :
    (releaseAndReturn idem r).All fun o => ¬ o.Touches k := by
  unfold releaseAndReturn
  split
  · trivial
  · exact ⟨hidem, fun _ => trivial⟩

theorem untouched_replyCreated {form : CreateForm} {id : Int32} {token : Bytes}
    (hidem : idem ≠ k) :
    (replyCreated env req idem fp form id token).All fun o => ¬ o.Touches k := by
  unfold replyCreated
  dsimp only
  split
  · trivial
  · split
    · trivial
    · exact ⟨hidem, fun _ => trivial⟩

theorem untouched_createReserved (hidem : idem ≠ k) :
    (createReserved env req idem fp).All fun o => ¬ o.Touches k := by
  have hclaims : ∀ customToken, (claimCreateToken env customToken).All fun o => ¬ o.Touches k :=
    fun customToken => (isClaim_claimCreateToken customToken).mono fun o ho => by
      cases o <;> first | exact id | exact ho.elim
  unfold createReserved
  split
  · exact untouched_releaseAndReturn hidem _
  · split
    · exact untouched_releaseAndReturn hidem _
    · refine (hclaims _).bind fun token => ?_
      split
      · exact untouched_releaseAndReturn hidem _
      · refine ⟨fun h => h, fun id => ?_⟩
        dsimp only [Prog.done_bind]
        split
        · exact ⟨fun h => h, fun _ => untouched_releaseAndReturn hidem _⟩
        · refine ⟨fun h => h, fun added => ?_⟩
          cases added with
          | true => exact untouched_replyCreated hidem
          | false => exact ⟨fun h => h, fun _ => untouched_releaseAndReturn hidem _⟩

/-- A request with another key, or with one that is too long, never touches this one. -/
theorem untouched_createExam (hk : k ≠ []) (hkey : idempotencyKey req = k → 255 < k.length) :
    (createExam env req).All fun o => ¬ o.Touches k := by
  unfold createExam
  dsimp only
  split
  · exact untouched_createReserved hk.symm
  · split
    · trivial
    next hlength =>
      have hne : idempotencyKey req ≠ k := fun heq => hlength (heq ▸ hkey heq)
      refine ⟨hne, fun reserved => ?_⟩
      cases reserved with
      | new => exact untouched_createReserved hne
      | replay response => trivial
      | conflict => trivial

end

/-! ### Jobs -/

abbrev CreateJob := Job (CreateEnv × Http.Request) CreateOp CreateAns Store.Answer

/-- All calls of `create_exam` in one process, from a start with these exams. -/
def creations (m : MemoryStore) :
    System (Threads CreateJob IdempotencyStore) (Threads.Action (CreateEnv × Http.Request)) :=
  Job.system (fun input => createExam input.1 input.2) CreateOp.perform ⟨m, fun _ => none⟩

def requestKey (t : CreateJob) : Bytes := idempotencyKey t.input.2

/-- The request has reserved the key. -/
def Reserves (k fp : Bytes) (t : CreateJob) : Prop := ⟨.reserve k fp, .new⟩ ∈ t.history

/-- The reservation has answered a stored response. -/
def Replays (k fp : Bytes) (r : Store.Answer) (t : CreateJob) : Prop :=
  ⟨.reserve k fp, .replay r⟩ ∈ t.history

def Releases (k : Bytes) (t : CreateJob) : Prop := ⟨.release k, ()⟩ ∈ t.history

instance : (o : CreateOp) → DecidableEq (CreateAns o)
  | .reserve _ _ => inferInstanceAs (DecidableEq Reserved)
  | .finalize _ _ _ | .release _ | .unclaimToken _ => inferInstanceAs (DecidableEq Unit)
  | .claimToken _ | .add _ => inferInstanceAs (DecidableEq Bool)
  | .nextId => inferInstanceAs (DecidableEq Int32)

instance (k fp : Bytes) (t : CreateJob) : Decidable (Reserves k fp t) :=
  inferInstanceAs (Decidable (_ ∈ t.history))

instance (k : Bytes) (t : CreateJob) : Decidable (Releases k t) :=
  inferInstanceAs (Decidable (_ ∈ t.history))

def addedBy : Event CreateOp CreateAns → List Exam
  | ⟨.add e, true⟩ => [e]
  | _ => []

/-- The exams that the request has added. -/
def adds (t : CreateJob) : List Exam := t.history.flatMap addedBy

/-- The key is the request's until it releases it. -/
def Owns (k : Bytes) (t : CreateJob) : Prop := (∃ fp, Reserves k fp t) ∧ ¬ Releases k t

/-- How far a request has come with the key, and what the store has of it. -/
inductive Stage (k : Bytes) (t : CreateJob) (record : Option IdempotencyRecord) : Prop
  /-- it has another key, or has been refused -/
  | outside (hprogram : t.program.All fun o => ¬ o.Touches k) (hreserves : ∀ fp, ¬ Reserves k fp t)
      (hreplays : ∀ fp r, ¬ Replays k fp r t)
      (hkey : requestKey t = k → (∃ r, t.program = .done r) ∧ adds t = [])
  | fresh (hkey : requestKey t = k) (hprogram : t.program = createExam t.input.1 t.input.2)
      (hlength : k.length ≤ 255) (hhistory : t.history = [])
  | holding (fp : Bytes) (added : Bool) (hrecord : record = some (pending fp))
      (hprogram : Holding k fp (repliesProtobuf t.input.1 t.input.2 = true) t.program added)
      (hreserves : ∀ fp', Reserves k fp' t ↔ fp' = fp) (hreleases : ¬ Releases k t)
      (hreplays : ∀ fp r, ¬ Replays k fp r t) (hadds : (adds t).length = added.toNat)
      (hkey : requestKey t = k)
  | released (hprogram : ∃ r, t.program = .done r) (hreleases : Releases k t)
      (hreplays : ∀ fp r, ¬ Replays k fp r t) (hadds : adds t = [])
  | finalized (fp : Bytes) (r : Store.Answer) (hrecord : record = some (completed fp r))
      (hprogram : t.program = .done r) (hreserves : ∀ fp', Reserves k fp' t ↔ fp' = fp)
      (hreleases : ¬ Releases k t) (hreplays : ∀ fp r, ¬ Replays k fp r t)
      (hadds : (adds t).length = 1)
  | replayed (fp : Bytes) (r : Store.Answer) (hrecord : record = some (completed fp r))
      (hprogram : t.program = .done r) (hreserves : ∀ fp, ¬ Reserves k fp t)
      (hreplays : ∀ fp' r', Replays k fp' r' t → fp' = fp ∧ r' = r) (hadds : adds t = [])

section

variable {k fp : Bytes} {t t' u : CreateJob} {s s' : IdempotencyStore} {r : Store.Answer}
  {record record' : Option IdempotencyRecord}

/-- A request that does not own the key and has replayed nothing does not mind what becomes of the
key. -/
theorem Stage.of_not_owns (h : Stage k u record) (howns : ¬ Owns k u)
    (hrecord : ∀ fp r, record ≠ some (completed fp r)) : Stage k u record' := by
  cases h with
  | outside hprogram hreserves hreplays hkey => exact .outside hprogram hreserves hreplays hkey
  | fresh hkey hprogram hlength hhistory => exact .fresh hkey hprogram hlength hhistory
  | holding fp added _ _ hreserves hreleases =>
      exact absurd ⟨⟨fp, (hreserves fp).mpr rfl⟩, hreleases⟩ howns
  | released hprogram hreleases hreplays hadds => exact .released hprogram hreleases hreplays hadds
  | finalized fp r _ _ hreserves hreleases =>
      exact absurd ⟨⟨fp, (hreserves fp).mpr rfl⟩, hreleases⟩ howns
  | replayed fp r hcompleted => exact absurd hcompleted (hrecord fp r)

/-- Who owns the key has a record of it. -/
theorem Stage.isSome_of_owns (h : Stage k u record) (howns : Owns k u) : record.isSome = true := by
  obtain ⟨⟨fp, hreserves⟩, hreleases⟩ := howns
  cases h with
  | outside _ hnone => exact absurd hreserves (hnone fp)
  | fresh _ _ _ hhistory => rw [Reserves, hhistory] at hreserves; cases hreserves
  | holding _ _ hrecord => rw [hrecord]; rfl
  | released _ hreleased => exact absurd hreleased hreleases
  | finalized _ _ hrecord => rw [hrecord]; rfl
  | replayed _ _ hrecord => rw [hrecord]; rfl

theorem idem_perform {o : CreateOp} (ho : ¬ o.Touches k) (s : IdempotencyStore) :
    (o.perform s).2.idem k = s.idem k := by
  cases o with
  | reserve key fingerprint =>
      obtain ⟨-, h⟩ | ⟨r, -, h⟩ | h := s.reserve_cases key fingerprint
      · simp only [CreateOp.perform, h]
        exact idem_setIdem_of_ne (Ne.symm ho)
      · simp only [CreateOp.perform, h]
      · simp only [CreateOp.perform, h]
  | finalize key fingerprint r => exact idem_setIdem_of_ne (Ne.symm ho)
  | release key => exact idem_setIdem_of_ne (Ne.symm ho)
  | _ => rfl

/-! ### One operation of one request -/

/-- The request after an operation and its answer. -/
def afterOp (t : CreateJob) (o : CreateOp) (a : CreateAns o) (p : CreateProg Store.Answer) :
    CreateJob :=
  ⟨t.input, p, t.history ++ [⟨o, a⟩]⟩

variable {o : CreateOp} {a : CreateAns o} {p : CreateProg Store.Answer}
  {next : CreateAns o → CreateProg Store.Answer}

theorem reserves_afterOp :
    Reserves k fp (afterOp t o a p) ↔
      Reserves k fp t ∨ (⟨.reserve k fp, .new⟩ : Event CreateOp CreateAns) = ⟨o, a⟩ := by
  simp only [Reserves, afterOp, List.mem_append, List.mem_singleton]

theorem replays_afterOp :
    Replays k fp r (afterOp t o a p) ↔
      Replays k fp r t ∨ (⟨.reserve k fp, .replay r⟩ : Event CreateOp CreateAns) = ⟨o, a⟩ := by
  simp only [Replays, afterOp, List.mem_append, List.mem_singleton]

theorem releases_afterOp :
    Releases k (afterOp t o a p) ↔
      Releases k t ∨ (⟨.release k, ()⟩ : Event CreateOp CreateAns) = ⟨o, a⟩ := by
  simp only [Releases, afterOp, List.mem_append, List.mem_singleton]

theorem adds_afterOp : adds (afterOp t o a p) = adds t ++ addedBy ⟨o, a⟩ := by
  simp only [adds, afterOp, List.flatMap_append, List.flatMap_singleton]

theorem ne_of_not_touches (ho : ¬ o.Touches k) (event : Event CreateOp CreateAns)
    (htouches : event.1.Touches k) : event ≠ ⟨o, a⟩ := by
  rintro rfl
  exact ho htouches

theorem reserves_of_not_touches (ho : ¬ o.Touches k) :
    Reserves k fp (afterOp t o a p) ↔ Reserves k fp t := by
  rw [reserves_afterOp, or_iff_left (ne_of_not_touches ho ⟨.reserve k fp, .new⟩ rfl)]

theorem replays_of_not_touches (ho : ¬ o.Touches k) :
    Replays k fp r (afterOp t o a p) ↔ Replays k fp r t := by
  rw [replays_afterOp, or_iff_left (ne_of_not_touches ho ⟨.reserve k fp, .replay r⟩ rfl)]

theorem releases_of_not_touches (ho : ¬ o.Touches k) :
    Releases k (afterOp t o a p) ↔ Releases k t := by
  rw [releases_afterOp, or_iff_left (ne_of_not_touches ho ⟨.release k, ()⟩ rfl)]

/-- What the other requests need: the key is left alone, or it was pending and this one's, or it was
absent and is this one's now. -/
def LeavesOthers (k : Bytes) (t t' : CreateJob) (s s' : IdempotencyStore) : Prop :=
  ∀ u, Stage k u (s.idem k) → ¬ (Owns k t ∧ Owns k u) →
    Stage k u (s'.idem k) ∧ ¬ (Owns k t' ∧ Owns k u) ∧ (Owns k u → s'.idem k = s.idem k)

theorem leavesOthers_of_idem_eq (hidem : s'.idem k = s.idem k) (howns : Owns k t' → Owns k t) :
    LeavesOthers k t t' s s' := by
  intro u hu hcompat
  exact ⟨hidem ▸ hu, fun h => hcompat ⟨howns h.1, h.2⟩, fun _ => hidem⟩

/-- The owner of a pending key may do with it what it wants. -/
theorem leavesOthers_of_pending (howns : Owns k t) (hrecord : s.idem k = some (pending fp)) :
    LeavesOthers k t t' s s' := by
  intro u hu hcompat
  have hnot : ¬ Owns k u := fun h => hcompat ⟨howns, h⟩
  refine ⟨hu.of_not_owns hnot fun fp' r heq => ?_, fun h => hnot h.2, fun h => absurd h hnot⟩
  rw [hrecord] at heq
  cases heq

/-- An absent key has no owner. -/
theorem leavesOthers_of_none (hrecord : s.idem k = none) : LeavesOthers k t t' s s' := by
  intro u hu _
  have hnot : ¬ Owns k u := by
    intro howns
    have hsome := hu.isSome_of_owns howns
    rw [hrecord] at hsome
    cases hsome
  refine ⟨hu.of_not_owns hnot fun fp' r heq => ?_, fun h => hnot h.2, fun h => absurd h hnot⟩
  rw [hrecord] at heq
  cases heq

theorem stage_outside (hprogram : (Prog.call o next).All fun o => ¬ o.Touches k)
    (hreserves : ∀ fp, ¬ Reserves k fp t) (hreplays : ∀ fp r, ¬ Replays k fp r t)
    (hkey : requestKey t ≠ k) :
    Stage k (afterOp t o (o.perform s).1 (next (o.perform s).1)) ((o.perform s).2.idem k) ∧
      LeavesOthers k t (afterOp t o (o.perform s).1 (next (o.perform s).1)) s (o.perform s).2 := by
  obtain ⟨ho, hnext⟩ := hprogram
  have hreserves' : ∀ fp, ¬ Reserves k fp (afterOp t o (o.perform s).1 (next (o.perform s).1)) :=
    fun fp h => hreserves fp ((reserves_of_not_touches ho).mp h)
  refine ⟨.outside (hnext _) hreserves'
    (fun fp r h => hreplays fp r ((replays_of_not_touches ho).mp h)) fun h => absurd h hkey, ?_⟩
  exact leavesOthers_of_idem_eq (idem_perform ho s) fun ⟨⟨fp, h⟩, _⟩ => absurd h (hreserves' fp)

/-- The reservation of a request that has just come in. -/
theorem stage_reserve (hk : k ≠ []) (hkey : requestKey t = k) (hhistory : t.history = [])
    (next : Reserved → CreateProg Store.Answer)
    (hnew : next .new = createReserved t.input.1 t.input.2 k fp)
    (hreplay : ∀ r, next (.replay r) = .done r) (hconflict : ∃ r, next .conflict = .done r) :
    Stage k (afterOp t (.reserve k fp) (s.reserve k fp).1 (next (s.reserve k fp).1))
        ((s.reserve k fp).2.idem k) ∧
      LeavesOthers k t (afterOp t (.reserve k fp) (s.reserve k fp).1 (next (s.reserve k fp).1)) s
        (s.reserve k fp).2 := by
  have hnone : ∀ fp', ¬ Reserves k fp' t := fun fp' h => by simp [Reserves, hhistory] at h
  have hnoreplay : ∀ fp' r, ¬ Replays k fp' r t := fun fp' r h => by simp [Replays, hhistory] at h
  have hadds : ∀ a p, adds (afterOp t (.reserve k fp) a p) = [] := fun a p => by
    rw [adds_afterOp]
    simp [adds, hhistory, addedBy]
  obtain ⟨hrecord, h⟩ | ⟨r, hrecord, h⟩ | h := s.reserve_cases k fp
  · rw [h]
    refine ⟨.holding fp false (by simp) ?_ ?_ ?_ ?_ (by simp [hadds]) hkey,
      leavesOthers_of_none hrecord⟩
    · exact hnew ▸ holding_createReserved hk
    · intro fp'
      rw [reserves_afterOp]
      simp [hnone]
    · rw [releases_afterOp]
      simp [Releases, hhistory]
    · intro fp' r
      rw [replays_afterOp]
      simp [hnoreplay]
  · rw [h]
    have hreserves : ∀ fp' p, ¬ Reserves k fp' (afterOp t (.reserve k fp) (.replay r) p) := by
      intro fp' p
      rw [reserves_afterOp]
      simp [hnone]
    refine ⟨.replayed fp r hrecord (hreplay r) (fun fp' => hreserves fp' _) ?_ (hadds _ _),
      leavesOthers_of_idem_eq rfl fun howns => absurd howns.1.choose_spec (hreserves _ _)⟩
    intro fp' r'
    rw [replays_afterOp]
    simp only [hnoreplay, false_or]
    intro heq
    cases heq
    exact ⟨rfl, rfl⟩
  · rw [h]
    have hreserves : ∀ fp' p, ¬ Reserves k fp' (afterOp t (.reserve k fp) .conflict p) := by
      intro fp' p
      rw [reserves_afterOp]
      simp [hnone]
    obtain ⟨r, hr⟩ := hconflict
    refine ⟨.outside (by simp [afterOp, hr]) (fun fp' => hreserves fp' _) ?_
        fun _ => ⟨⟨r, hr⟩, hadds _ _⟩,
      leavesOthers_of_idem_eq rfl fun howns => absurd howns.1.choose_spec (hreserves _ _)⟩
    intro fp' r'
    rw [replays_afterOp]
    simp [hnoreplay]

/-- An operation of a request that holds the key. -/
theorem stage_holding {added : Bool} (hrecord : s.idem k = some (pending fp))
    (hprogram : Holding k fp (repliesProtobuf t.input.1 t.input.2 = true) (.call o next) added)
    (hreserves : ∀ fp', Reserves k fp' t ↔ fp' = fp) (hreleases : ¬ Releases k t)
    (hreplays : ∀ fp r, ¬ Replays k fp r t) (hadds : (adds t).length = added.toNat)
    (hkey : requestKey t = k) :
    Stage k (afterOp t o (o.perform s).1 (next (o.perform s).1)) ((o.perform s).2.idem k) := by
  -- an operation that leaves the key alone
  have hkeep : ∀ added', ¬ o.Touches k →
      Holding k fp (repliesProtobuf t.input.1 t.input.2 = true) (next (o.perform s).1) added' →
      (adds t).length + (addedBy ⟨o, (o.perform s).1⟩).length = added'.toNat →
      Stage k (afterOp t o (o.perform s).1 (next (o.perform s).1)) ((o.perform s).2.idem k) := by
    intro added' ho hheld hlength
    refine .holding fp added' ((idem_perform ho s).trans hrecord) hheld ?_ ?_ ?_ ?_ hkey
    · exact fun fp' => (reserves_of_not_touches ho).trans (hreserves fp')
    · exact fun h => hreleases ((releases_of_not_touches ho).mp h)
    · exact fun fp' r h => hreplays fp' r ((replays_of_not_touches ho).mp h)
    · rw [adds_afterOp, List.length_append, hlength]
  cases o with
  | reserve key fingerprint => exact hprogram.elim
  | claimToken token =>
      obtain ⟨rfl, hheld⟩ := hprogram
      exact hkeep false not_false (hheld _) (by simp [hadds, addedBy])
  | unclaimToken token =>
      obtain ⟨rfl, hheld⟩ := hprogram
      exact hkeep false not_false (hheld _) (by simp [hadds, addedBy])
  | nextId =>
      obtain ⟨rfl, hheld⟩ := hprogram
      exact hkeep false not_false (hheld _) (by simp [hadds, addedBy])
  | add e =>
      obtain ⟨rfl, htrue, hfalse⟩ := hprogram
      cases hadd : (s.exams.add e).1 with
      | true =>
          refine hkeep true not_false ?_ ?_
          · simpa only [CreateOp.perform, hadd] using htrue
          · simp [CreateOp.perform, hadd, hadds, addedBy]
      | false =>
          refine hkeep false not_false ?_ ?_
          · simpa only [CreateOp.perform, hadd] using hfalse
          · simp [CreateOp.perform, hadd, hadds, addedBy]
  | finalize key fingerprint r =>
      obtain ⟨rfl, -, rfl, rfl, hdone⟩ := hprogram
      refine .finalized fingerprint r (by simp [CreateOp.perform, finalize]) hdone ?_ ?_ ?_ ?_
      · intro fp'
        rw [reserves_afterOp]
        simp [hreserves]
      · rw [releases_afterOp]
        simp [hreleases]
      · intro fp' r'
        rw [replays_afterOp]
        simp [hreplays]
      · rw [adds_afterOp, List.length_append, hadds]
        simp [addedBy]
  | release key =>
      obtain ⟨rfl, rfl, hdone⟩ := hprogram
      refine .released hdone ?_ ?_ ?_
      · rw [releases_afterOp]
        exact Or.inr rfl
      · intro fp' r'
        rw [replays_afterOp]
        simp [hreplays]
      · rw [adds_afterOp, List.length_eq_zero_iff.mp hadds]
        simp [addedBy]

/-- One operation of one request, for the request itself and for the others. -/
theorem stage_next? (hk : k ≠ []) (ht : Stage k t (s.idem k))
    (hnext : t.next? CreateOp.perform s = some (t', s')) :
    Stage k t' (s'.idem k) ∧ LeavesOthers k t t' s s' := by
  obtain ⟨o, next, hprogram, rfl, rfl⟩ := Job.next?_eq_some hnext
  cases ht with
  | outside huntouched hreserves hreplays hkey =>
      refine stage_outside (hprogram ▸ huntouched) hreserves hreplays fun h => ?_
      obtain ⟨⟨r, hdone⟩, -⟩ := hkey h
      rw [hprogram] at hdone
      cases hdone
  | fresh hkey hfresh hlength hhistory =>
      obtain rfl : idempotencyKey t.input.2 = k := hkey
      obtain ⟨rfl, hnexteq⟩ := Prog.call.inj
        (hprogram.symm.trans (hfresh.trans (createExam_eq hk hlength)))
      obtain rfl := eq_of_heq hnexteq
      exact stage_reserve hk rfl hhistory _ rfl (fun r => rfl) ⟨_, rfl⟩
  | holding fp added hrecord hheld hreserves hreleases hreplays hadds hkey =>
      rw [hprogram] at hheld
      exact ⟨stage_holding hrecord hheld hreserves hreleases hreplays hadds hkey,
        leavesOthers_of_pending ⟨⟨fp, (hreserves fp).mpr rfl⟩, hreleases⟩ hrecord⟩
  | released hdone =>
      obtain ⟨r, hdone⟩ := hdone
      rw [hprogram] at hdone
      cases hdone
  | finalized fp r _ hdone =>
      rw [hprogram] at hdone
      cases hdone
  | replayed fp r _ hdone =>
      rw [hprogram] at hdone
      cases hdone

/-- A request with this key that goes on without a reservation holds the key. -/
theorem Stage.holding_of_call (hk : k ≠ []) (ht : Stage k t record)
    (hkey : requestKey t = k ∨ o.Touches k) (hprogram : t.program = .call o next)
    (ho : ∀ fp, o ≠ .reserve k fp) :
    ∃ fp added, record = some (pending fp) ∧
      Holding k fp (repliesProtobuf t.input.1 t.input.2 = true) (.call o next) added ∧
      (∀ fp', Reserves k fp' t ↔ fp' = fp) ∧ ¬ Releases k t := by
  cases ht with
  | outside huntouched _ _ hdone =>
      rcases hkey with hkey | htouches
      · obtain ⟨⟨r, hdone⟩, -⟩ := hdone hkey
        rw [hprogram] at hdone
        cases hdone
      · rw [hprogram] at huntouched
        exact absurd htouches huntouched.1
  | fresh hfreshKey hfresh hlength _ =>
      obtain rfl : idempotencyKey t.input.2 = k := hfreshKey
      obtain ⟨hop, -⟩ := Prog.call.inj
        (hprogram.symm.trans (hfresh.trans (createExam_eq hk hlength)))
      exact absurd hop (ho _)
  | holding fp added hrecord hheld hreserves hreleases =>
      exact ⟨fp, added, hrecord, hprogram ▸ hheld, hreserves, hreleases⟩
  | released hdone =>
      obtain ⟨r, hdone⟩ := hdone
      rw [hprogram] at hdone
      cases hdone
  | finalized fp r _ hdone =>
      rw [hprogram] at hdone
      cases hdone
  | replayed fp r _ hdone =>
      rw [hprogram] at hdone
      cases hdone

/-- Only the request that finalizes the key completes it. -/
theorem completed_next? (hk : k ≠ []) (ht : Stage k t (s.idem k))
    (hnext : t.next? CreateOp.perform s = some (t', s'))
    (hcompleted : s'.idem k = some (completed fp r)) :
    s.idem k = some (completed fp r) ∨ Reserves k fp t' ∧ t'.program = .done r := by
  obtain ⟨o, next, hprogram, rfl, rfl⟩ := Job.next?_eq_some hnext
  by_cases ho : o.Touches k
  · cases o with
    | reserve key fingerprint =>
        obtain rfl : key = k := ho
        obtain ⟨-, h⟩ | ⟨r', -, h⟩ | h := s.reserve_cases key fingerprint
        · simp only [CreateOp.perform, h, idem_setIdem] at hcompleted
          cases hcompleted
        · simp only [CreateOp.perform, h] at hcompleted
          exact Or.inl hcompleted
        · simp only [CreateOp.perform, h] at hcompleted
          exact Or.inl hcompleted
    | finalize key fingerprint r' =>
        obtain ⟨fp', added, -, hheld, hreserves, -⟩ :=
          ht.holding_of_call hk (Or.inr ho) hprogram fun _ h => by cases h
        obtain ⟨-, -, rfl, rfl, hdone⟩ := hheld
        simp only [CreateOp.perform, finalize, idem_setIdem, completed, Option.some.injEq,
          IdempotencyRecord.mk.injEq, true_and] at hcompleted
        obtain ⟨rfl, rfl⟩ := hcompleted
        exact Or.inr ⟨List.mem_append_left _ ((hreserves _).mpr rfl), hdone⟩
    | release key =>
        obtain rfl : key = k := ho
        simp only [CreateOp.perform, release, idem_setIdem] at hcompleted
        cases hcompleted
    | _ => exact ho.elim
  · rw [idem_perform ho] at hcompleted
    exact Or.inl hcompleted

end

/-! ### Every run -/

/-- A key that a request carries. -/
structure IdempotencyKey where
  text : Bytes
  nonempty : text ≠ []

section

variable (k : IdempotencyKey)

/-- The key is used once: the request that reserved it has released it when it returns, or its
response is stored; it is given to at most one exam; and a request that comes with the same
fingerprint later is answered with the stored response. -/
structure UsedOnce (s : Threads CreateJob IdempotencyStore) : Prop where
  settled : ∀ t ∈ s.threads, ∀ fp r, Reserves k.text fp t → t.program = .done r →
    Releases k.text t ∨ s.world.idem k.text = some (completed fp r)
  oneExam :
    (s.threads.flatMap fun t => if requestKey t = k.text then adds t else []).length ≤ 1
  replays : ∀ t ∈ s.threads, ∀ fp r, Replays k.text fp r t →
    t.program = .done r ∧ ∃ t' ∈ s.threads, Reserves k.text fp t' ∧ t'.program = .done r

/-- A request with the key that answers in protobuf does not get its exam added. -/
def NotInProtobuf (s : Threads CreateJob IdempotencyStore) :
    Threads.Action (CreateEnv × Http.Request) → Prop
  | .arrive _ => True
  | .step i => ∀ (t : CreateJob) (e : Exam) (next : Bool → CreateProg Store.Answer),
      s.threads[i]? = some t → t.program = .call (.add e) next → requestKey t = k.text →
      repliesProtobuf t.input.1 t.input.2 = true → (s.world.exams.add e).1 = false

/-- Every request is at some stage with the key, and at most one owns it. -/
def Staged (s : Threads CreateJob IdempotencyStore) : Prop :=
  True ∧ (∀ t ∈ s.threads, Stage k.text t (s.world.idem k.text)) ∧
    Threads.Compatible (fun t u => ¬ (Owns k.text t ∧ Owns k.text u)) s.threads

/-- A stored response was returned by a request. -/
def Returned (s : Threads CreateJob IdempotencyStore) : Prop :=
  ∀ fp r, s.world.idem k.text = some (completed fp r) →
    ∃ t ∈ s.threads, Reserves k.text fp t ∧ t.program = .done r

end

section

variable {m : MemoryStore} {k : IdempotencyKey} {s s' : Threads CreateJob IdempotencyStore}

theorem not_owns_start (input : CreateEnv × Http.Request) :
    ¬ Owns k.text (Job.start (fun input => createExam input.1 input.2) input) := by
  rintro ⟨⟨fp, h⟩, -⟩
  cases h

theorem stage_start (input : CreateEnv × Http.Request) (record : Option IdempotencyRecord) :
    Stage k.text (Job.start (fun input => createExam input.1 input.2) input) record := by
  by_cases hfresh : idempotencyKey input.2 = k.text ∧ k.text.length ≤ 255
  · exact .fresh hfresh.1 rfl hfresh.2 rfl
  · have hlong : idempotencyKey input.2 = k.text → 255 < k.text.length := fun hkey =>
      not_le.mp fun hle => hfresh ⟨hkey, hle⟩
    refine .outside (untouched_createExam k.nonempty hlong) (fun fp h => by cases h)
      (fun fp r h => by cases h) fun hkey => ⟨?_, rfl⟩
    have hid : idempotencyKey input.2 = k.text := hkey
    exact createExam_of_long (hid ▸ hlong hid)

theorem staged_invariant : (creations m).Invariant System.anyStep (Staged k) := by
  have hsymm : ∀ {t u : CreateJob}, ¬ (Owns k.text t ∧ Owns k.text u) →
      ¬ (Owns k.text u ∧ Owns k.text t) := fun h h' => h ⟨h'.2, h'.1⟩
  refine @Threads.invariant_of_compatible _ _ _ _ _ _ _ (fun _ => True)
    (fun (t : CreateJob) (s : IdempotencyStore) => Stage k.text t (s.idem k.text))
    (fun _ _ => True) (fun t u => ¬ (Owns k.text t ∧ Owns k.text u)) hsymm (fun _ _ => trivial)
    trivial (fun input w => stage_start input _) ?_ ?_
  · rintro input u ⟨h, -⟩
    exact not_owns_start input h
  intro t w t' w' _ ht _ hnext
  obtain ⟨hstage, hothers⟩ := stage_next? k.nonempty ht hnext
  exact ⟨trivial, hstage, fun u hu hcompat =>
    ⟨(hothers u hu hcompat).1, (hothers u hu hcompat).2.1⟩⟩

theorem returned_step {a : Threads.Action (CreateEnv × Http.Request)} (hstaged : Staged k s)
    (hreturned : Returned k s) (hstep : (creations m).step? s a = some s') : Returned k s' := by
  cases a with
  | arrive input =>
      cases hstep
      intro fp r hrecord
      obtain ⟨t, ht, h⟩ := hreturned fp r hrecord
      exact ⟨t, List.mem_append_left _ ht, h⟩
  | step i =>
      obtain ⟨t, t', w', hi, hnext, rfl⟩ := Threads.step?_step hstep
      intro fp r hrecord
      have hstage := hstaged.2.1 t (List.mem_of_getElem? hi)
      rcases completed_next? k.nonempty hstage hnext hrecord with hold | hnew
      · obtain ⟨u, hu, hreserves, hdone⟩ := hreturned fp r hold
        rcases Threads.mem_set_of_mem hi hu with rfl | hu'
        · obtain ⟨o, next, hprogram, -⟩ := Job.next?_eq_some hnext
          rw [hprogram] at hdone
          cases hdone
        · exact ⟨u, hu', hreserves, hdone⟩
      · exact ⟨t', Threads.mem_set_self hi, hnew⟩

theorem returned_invariant :
    (creations m).Invariant System.anyStep fun s => Staged k s ∧ Returned k s :=
  staged_invariant.using (fun fp r hrecord => by cases hrecord)
    fun hstaged hreturned _ hstep => returned_step hstaged hreturned hstep

/-- What a request with the key has added, by its stage. -/
theorem Stage.adds_spec {t : CreateJob} {record : Option IdempotencyRecord}
    (ht : Stage k.text t record) (hkey : requestKey t = k.text) :
    (adds t).length ≤ 1 ∧ (adds t ≠ [] → Owns k.text t) := by
  have hnone : adds t = [] → (adds t).length ≤ 1 ∧ (adds t ≠ [] → Owns k.text t) := fun h =>
    ⟨h ▸ Nat.zero_le 1, fun hne => absurd h hne⟩
  cases ht with
  | outside _ _ _ hdone => exact hnone (hdone hkey).2
  | fresh _ _ _ hhistory => exact hnone (by rw [adds, hhistory, List.flatMap_nil])
  | holding fp added _ _ hreserves hreleases _ hadds =>
      exact ⟨hadds ▸ Bool.toNat_le added, fun _ => ⟨⟨fp, (hreserves fp).mpr rfl⟩, hreleases⟩⟩
  | released _ _ _ hadds => exact hnone hadds
  | finalized fp _ _ _ hreserves hreleases _ hadds =>
      exact ⟨hadds.le, fun _ => ⟨⟨fp, (hreserves fp).mpr rfl⟩, hreleases⟩⟩
  | replayed _ _ _ _ _ _ hadds => exact hnone hadds

/-- A replay is the stored response. -/
theorem Stage.replay_spec {t : CreateJob} {record : Option IdempotencyRecord} {fp : Bytes}
    {r : Store.Answer} (ht : Stage k.text t record) (hreplay : Replays k.text fp r t) :
    t.program = .done r ∧ record = some (completed fp r) := by
  cases ht with
  | outside _ _ hreplays => exact absurd hreplay (hreplays fp r)
  | fresh _ _ _ hhistory =>
      rw [Replays, hhistory] at hreplay
      cases hreplay
  | holding _ _ _ _ _ _ hreplays => exact absurd hreplay (hreplays fp r)
  | released _ _ hreplays => exact absurd hreplay (hreplays fp r)
  | finalized _ _ _ _ _ _ hreplays => exact absurd hreplay (hreplays fp r)
  | replayed _ _ hrecord hdone _ hreplays =>
      obtain ⟨rfl, rfl⟩ := hreplays fp r hreplay
      exact ⟨hdone, hrecord⟩

/-- A request that has returned and still owns the key has left its response, or left the key
pending behind a protobuf answer. -/
theorem Stage.done_spec {t : CreateJob} {record : Option IdempotencyRecord} {fp : Bytes}
    {r : Store.Answer} (ht : Stage k.text t record) (hreserves : Reserves k.text fp t)
    (hreleases : ¬ Releases k.text t) (hdone : t.program = .done r) :
    record = some (completed fp r) ∨
      record = some (pending fp) ∧ (adds t).length = 1 ∧
        repliesProtobuf t.input.1 t.input.2 = true := by
  cases ht with
  | outside _ hnone => exact absurd hreserves (hnone fp)
  | fresh _ _ _ hhistory =>
      rw [Reserves, hhistory] at hreserves
      cases hreserves
  | holding fp' added hrecord hheld hiff _ _ hadds =>
      obtain rfl := (hiff fp).mp hreserves
      rw [hdone] at hheld
      obtain ⟨rfl, hleak⟩ := hheld
      exact Or.inr ⟨hrecord, hadds, hleak⟩
  | released _ hreleased => exact absurd hreleased hreleases
  | finalized fp' r' hrecord hdone' hiff =>
      obtain rfl := (hiff fp).mp hreserves
      obtain rfl := Prog.done.inj (hdone.symm.trans hdone')
      exact Or.inl hrecord
  | replayed _ _ _ _ hnone => exact absurd hreserves (hnone fp)

/-- The step before: a protobuf answer that leaves the key pending comes right after `add`. -/
theorem Stage.add_of_pending {t t' : CreateJob} {st st' : IdempotencyStore} {fp : Bytes}
    (ht : Stage k.text t (st.idem k.text)) (hnext : t.next? CreateOp.perform st = some (t', st'))
    (hreserves : Reserves k.text fp t') (hreleases : ¬ Releases k.text t')
    (hadds : (adds t').length = 1) (hleak : repliesProtobuf t'.input.1 t'.input.2 = true) :
    requestKey t = k.text ∧ ∃ (e : Exam) (next : Bool → CreateProg Store.Answer),
      t.program = .call (.add e) next ∧ (st.exams.add e).1 = true := by
  obtain ⟨o, next, hprogram, rfl, rfl⟩ := Job.next?_eq_some hnext
  have haddsEq := adds_afterOp (t := t) (a := (o.perform st).1) (p := next (o.perform st).1)
  rw [afterOp] at haddsEq
  rw [haddsEq, List.length_append] at hadds
  cases ht with
  | outside huntouched hnone =>
      rw [hprogram] at huntouched
      exact absurd ((reserves_of_not_touches huntouched.1).mp hreserves) (hnone fp)
  | fresh hkey hfresh hlength hhistory =>
      have hid : idempotencyKey t.input.2 = k.text := hkey
      obtain ⟨rfl, -⟩ := Prog.call.inj (hprogram.symm.trans
        (hfresh.trans (createExam_eq (hid ▸ k.nonempty) (hid ▸ hlength))))
      rw [adds, hhistory] at hadds
      cases hadds
  | holding fp' added _ hheld _ _ _ hlength hkey =>
      rw [hprogram] at hheld
      cases o with
      | reserve key fingerprint => exact hheld.elim
      | claimToken token => simp [hlength, hheld.1, addedBy] at hadds
      | unclaimToken token => simp [hlength, hheld.1, addedBy] at hadds
      | nextId => simp [hlength, hheld.1, addedBy] at hadds
      | finalize key fingerprint r' => exact absurd hleak hheld.2.1
      | release key =>
          obtain ⟨-, rfl, -⟩ := hheld
          exact absurd (releases_afterOp.mpr (Or.inr rfl)) hreleases
      | add e =>
          refine ⟨hkey, e, next, hprogram, ?_⟩
          cases hadd : (st.exams.add e).1 with
          | true => rfl
          | false => simp [hlength, hheld.1, addedBy, CreateOp.perform, hadd] at hadds
  | released hdone =>
      obtain ⟨r, hdone⟩ := hdone
      rw [hprogram] at hdone
      cases hdone
  | finalized fp r _ hdone =>
      rw [hprogram] at hdone
      cases hdone
  | replayed fp r _ hdone =>
      rw [hprogram] at hdone
      cases hdone

/-- Only the end of the requests is not settled by the stages. -/
theorem usedOnce_of_settled (hstaged : Staged k s) (hreturned : Returned k s)
    (hsettled : ∀ t ∈ s.threads, ∀ fp r, Reserves k.text fp t → t.program = .done r →
      Releases k.text t ∨ s.world.idem k.text = some (completed fp r)) : UsedOnce k s where
  settled := hsettled
  oneExam := by
    refine hstaged.2.2.length_flatMap_le (fun t ht => ?_) fun t ht hne => ?_
    · split
      next hkey => exact ((hstaged.2.1 t ht).adds_spec hkey).1
      next => exact Nat.zero_le 1
    · split at hne
      next hkey => exact ((hstaged.2.1 t ht).adds_spec hkey).2 hne
      next => exact absurd rfl hne
  replays := by
    intro t ht fp r hreplay
    obtain ⟨hdone, hrecord⟩ := (hstaged.2.1 t ht).replay_spec hreplay
    exact ⟨hdone, hreturned fp r hrecord⟩

/-- A step that adds no exam behind a protobuf answer leaves no key pending. -/
theorem settled_step {i : Nat} (hstaged : Staged k s) (hused : UsedOnce k s)
    (hguard : NotInProtobuf k s (.step i)) (hstep : (creations m).step? s (.step i) = some s') :
    ∀ t ∈ s'.threads, ∀ fp r, Reserves k.text fp t → t.program = .done r →
      Releases k.text t ∨ s'.world.idem k.text = some (completed fp r) := by
  obtain ⟨t, t', w', hi, hnext, rfl⟩ := Threads.step?_step hstep
  have ht := List.mem_of_getElem? hi
  obtain ⟨hstage, hothers⟩ := stage_next? k.nonempty (hstaged.2.1 t ht) hnext
  intro u hu fp r hreserves hdone
  by_cases hreleases : Releases k.text u
  · exact Or.inl hreleases
  right
  rcases Threads.mem_set_cases hu with rfl | ⟨j, hij, hj⟩
  · rcases hstage.done_spec hreserves hreleases hdone with hcompleted | ⟨hpending, hadds, hleak⟩
    · exact hcompleted
    · obtain ⟨hkey, e, next, hprogram, hadd⟩ :=
        (hstaged.2.1 t ht).add_of_pending hnext hreserves hreleases hadds hleak
      have hinput : u.input = t.input := by
        obtain ⟨o, next, -, rfl, -⟩ := Job.next?_eq_some hnext
        rfl
      rw [hinput] at hleak
      rw [hguard t e next hi hprogram hkey hleak] at hadd
      cases hadd
  · have hu' := List.mem_of_getElem? hj
    have howns : Owns k.text u := ⟨⟨fp, hreserves⟩, hreleases⟩
    have hsame := (hothers u (hstaged.2.1 u hu') (hstaged.2.2 i j t u hij hi hj)).2.2 howns
    exact hsame.trans ((hused.settled u hu' fp r hreserves hdone).resolve_left hreleases)

theorem not_settled_of_protobuf {i : Nat} {t : CreateJob} {e : Exam}
    {next : Bool → CreateProg Store.Answer} (hstaged : Staged k s) (hi : s.threads[i]? = some t)
    (hprogram : t.program = .call (.add e) next) (hkey : requestKey t = k.text)
    (hleak : repliesProtobuf t.input.1 t.input.2 = true) (hadd : (s.world.exams.add e).1 = true) :
    ∃ s', (creations m).step? s (.step i) = some s' ∧ ¬ UsedOnce k s' := by
  obtain ⟨fp, added, hrecord, hheld, hreserves, hreleases⟩ :=
    (hstaged.2.1 t (List.mem_of_getElem? hi)).holding_of_call k.nonempty (Or.inl hkey) hprogram
      fun _ h => by cases h
  obtain ⟨-, hnext, -⟩ := hheld
  have hdone : ∃ r, next true = .done r := by
    -- a protobuf answer neither finalizes nor releases
    cases hafter : next true with
    | done r => exact ⟨r, rfl⟩
    | call o rest =>
        rw [hafter] at hnext
        cases o with
        | finalize key fingerprint r => exact absurd hleak hnext.2.1
        | reserve key fingerprint => exact hnext.elim
        | _ => cases hnext.1
  obtain ⟨r, hdone⟩ := hdone
  have hmoved : t.next? CreateOp.perform s.world = _ := Job.next?_of_call hprogram
  simp only [CreateOp.perform, hadd, hdone] at hmoved
  have hstep : (creations m).step? s (.step i) =
      some ⟨{ s.world with exams := (s.world.exams.add e).2 },
        s.threads.set i (afterOp t (.add e) true (.done r))⟩ := by
    simp only [creations, Job.system, Threads.system, hi, hmoved, Option.map_some, afterOp]
  refine ⟨_, hstep, fun hused => ?_⟩
  rcases hused.settled _ (Threads.mem_set_self hi) fp r
    (List.mem_append_left _ ((hreserves fp).mpr rfl)) rfl with hreleased | hcompleted
  · exact hreleases ((releases_of_not_touches (o := .add e) not_false).mp hreleased)
  · rw [hrecord] at hcompleted
    cases hcompleted

/-- One step keeps the key used once exactly if it adds no exam behind a protobuf answer. -/
theorem notInProtobuf_iff (s : Threads CreateJob IdempotencyStore)
    (a : Threads.Action (CreateEnv × Http.Request)) (hs : Staged k s ∧ Returned k s)
    (hused : UsedOnce k s) :
    NotInProtobuf k s a ↔ ∀ s' ∈ (creations m).step? s a, UsedOnce k s' := by
  have hkept : ∀ {s'}, (creations m).step? s a = some s' → Staged k s' ∧ Returned k s' :=
    fun hstep => returned_invariant.step hs trivial hstep
  cases a with
  | arrive input =>
      refine ⟨fun _ s' hstep => ?_, fun _ => trivial⟩
      refine usedOnce_of_settled (hkept hstep).1 (hkept hstep).2 fun t ht fp r hreserves hdone => ?_
      cases hstep
      rcases List.mem_append.mp ht with ht | ht
      · exact hused.settled t ht fp r hreserves hdone
      · rw [List.mem_singleton.mp ht] at hreserves
        cases hreserves
  | step i =>
      constructor
      · intro hguard s' hstep
        exact usedOnce_of_settled (hkept hstep).1 (hkept hstep).2
          (settled_step hs.1 hused hguard hstep)
      · intro hall t e next hi hprogram hkey hleak
        by_contra hadd
        obtain ⟨s', hstep, hnot⟩ := not_settled_of_protobuf hs.1 hi hprogram hkey hleak
          (Bool.eq_true_of_not_eq_false hadd)
        exact hnot (hall s' hstep)

/-- In every run of `create_exam`, a key is used once exactly as long as no exam is added for a
request with it that is answered in protobuf. -/
theorem usedOnce_iff_notInProtobuf (m : MemoryStore) (k : IdempotencyKey)
    (actions : List (Threads.Action (CreateEnv × Http.Request))) :
    (creations m).Along (UsedOnce k) (creations m).initial actions ↔
      (creations m).Guarded (NotInProtobuf k) (creations m).initial actions := by
  refine returned_invariant.along_iff_guarded ?_ notInProtobuf_iff
  exact usedOnce_of_settled staged_invariant.initial returned_invariant.initial.2
    fun t ht => absurd ht List.not_mem_nil

end

/-- A protobuf codec that is enough for one request. -/
def plainCodec : ProtobufCodec := ⟨fun _ => none, fun r => r.token⟩

def protobufRequest : Http.Request :=
  { method := str "POST"
    path := str "/api/exams"
    headers := (OrderedMap.empty.insert (str "Accept") (str "application/x-protobuf")).insert
      (str "Idempotency-Key") (str "k1")
    body := str "name=UTS&file_path=uts.pdf&custom_token=AAAAAAAA" }

/-- One request that accepts protobuf: reservation, claim, id and exam. -/
def protobufActions : List (Threads.Action (CreateEnv × Http.Request)) :=
  [.arrive ({ protobuf := some plainCodec }, protobufRequest), .step 0, .step 0, .step 0, .step 0]

theorem not_usedOnce :
    ¬ ∀ m k actions, (creations m).Along (UsedOnce k) (creations m).initial actions := by
  intro h
  have hlast := (h .empty ⟨str "k1", by decide⟩ protobufActions).after (by decide +kernel)
  have hdone : ∃ t ∈ ((creations .empty).after protobufActions).threads,
      Reserves (str "k1") (idempotencyFingerprint {} protobufRequest) t ∧
        (∃ r, t.program = .done r) ∧ ¬ Releases (str "k1") t := by decide +kernel
  have hpending : ∀ record ∈ ((creations .empty).after protobufActions).world.idem (str "k1"),
      record.completed = false := by decide +kernel
  obtain ⟨t, ht, hreserves, ⟨r, hdone⟩, hreleases⟩ := hdone
  rcases hlast.settled t ht _ r hreserves hdone with hreleased | hcompleted
  · exact hreleases hreleased
  · cases hpending _ hcompleted

end ExamVan.Admin
