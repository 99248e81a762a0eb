import ExamVan.Auth.UserStore
import ExamVan.Lib.Protocol

/-!
# Unique users in memory

`mem_insert` looks for the username and for the email up to case, each under the lock. When it takes
the lock again to insert, it asks only whether the very username is there.
-/

namespace ExamVan.Auth

open ByteString

/-! ### Calls of the store -/

inductive StoreCall
  | memInsert (pick : Nat) (u : RegisteredUser)
  | insertRegisteredUser (pick : Nat) (pg : PgStep) (u : RegisteredUser)
  | updateUserOtp (pick : Nat) (pg : PgStep) (username code : Bytes) (expiry : Int)
  | activateRegisteredUser (pick : Nat) (pg : PgStep) (username : Bytes)
  | bumpOtpAttempts (pick : Nat) (pg : PgStep) (username : Bytes)
  | updateUserPassword (pick : Nat) (pg : PgStep) (username hash : Bytes)
  | deleteRegisteredUser (pick : Nat) (pg : PgStep) (username : Bytes)

inductive StoreReply
  | flag (ok : Bool)
  | count (attempts : Int)

def StoreCall.program : StoreCall → AuthProg StoreReply
  | .memInsert pick u => .flag <$> Auth.memInsert pick u
  | .insertRegisteredUser pick pg u => .flag <$> Auth.insertRegisteredUser pick pg u
  | .updateUserOtp pick pg username code expiry =>
      .flag <$> Auth.updateUserOtp pick pg username code expiry
  | .activateRegisteredUser pick pg username =>
      .flag <$> Auth.activateRegisteredUser pick pg username
  | .bumpOtpAttempts pick pg username => .count <$> Auth.bumpOtpAttempts pick pg username
  | .updateUserPassword pick pg username hash =>
      .flag <$> Auth.updateUserPassword pick pg username hash
  | .deleteRegisteredUser pick pg username => .flag <$> Auth.deleteRegisteredUser pick pg username

abbrev StoreJob := Job StoreCall AuthOp AuthAns StoreReply

/-- Calls of the store at any times, from these users on. -/
def storeCalls (lower : Bytes → Bytes) (w : AuthWorld) :
    System (Threads StoreJob AuthWorld) (Threads.Action StoreCall) :=
  Job.system StoreCall.program (AuthOp.perform lower) w

/-! ### Unique users -/

/-- The same username up to case, or the same email. -/
def Clashes (u v : RegisteredUser) : Prop :=
  ciEq u.username v.username = true ∨ u.email ≠ [] ∧ ciEq u.email v.email = true

structure Unique (users : UserMap) : Prop where
  keyed : ∀ {key u}, users.find? key = some u → u.username = key
  distinct : ∀ {key key' u v}, users.find? key = some u → users.find? key' = some v →
    Clashes u v → key = key'

/-- No user that `mem_find` or `mem_find_by_email` would find stands in the way of `u`. -/
def Free (w : AuthWorld) (u : RegisteredUser) : Prop :=
  (w.memMatch 0 fun entry => ciEq entry.1 u.username) = none ∧
    (w.memMatch 0 fun entry => entry.2.email != [] && ciEq entry.2.email u.email) = none

/-- When a user is inserted whose very username is not there, the two checks of `mem_insert` would
still pass. -/
def StillFree (s : Threads StoreJob AuthWorld) : Threads.Action StoreCall → Prop
  | .arrive _ => True
  | .step i => ∀ t ∈ s.threads[i]?, ∀ u next, t.program = .call (.memAdd u) next →
      s.world.users.find? u.username = none → Free s.world u

section

variable {lower : Bytes → Bytes} {w : AuthWorld} {users : UserMap} {u v : RegisteredUser}
  {key : Bytes} {o : AuthOp}

theorem Clashes.symm (h : Clashes u v) : Clashes v u := by
  simp only [Clashes, ciEq_iff] at h ⊢
  refine h.imp Eq.symm fun ⟨hne, hsame⟩ => ⟨?_, hsame.symm⟩
  rintro hnil
  rw [hnil] at hsame
  exact hne (List.map_eq_nil_iff.mp hsame)

theorem memMatch_eq_none {pick : Nat} {p : Bytes × RegisteredUser → Bool} :
    w.memMatch pick p = none ↔ ∀ key u, w.users.find? key = some u → p (key, u) = false := by
  have hnone : w.memMatch pick p = none ↔ w.users.entries.filter p = [] := by
    unfold AuthWorld.memMatch
    rw [Option.map_eq_none_iff, List.getElem?_eq_none_iff]
    cases hfound : w.users.entries.filter p with
    | nil => simp
    | cons entry rest =>
        have hlt : pick % (entry :: rest).length < (entry :: rest).length :=
          Nat.mod_lt _ (Nat.succ_pos _)
        exact iff_of_false (not_le.mpr hlt) (List.cons_ne_nil _ _)
  rw [hnone, List.filter_eq_nil_iff]
  constructor
  · intro h key u hfind
    exact Bool.eq_false_iff.mpr (h (key, u) (OrderedMap.find?_eq_some_iff.mp hfind))
  · intro h entry hentry
    exact Bool.eq_false_iff.mp (h entry.1 entry.2 (OrderedMap.find?_eq_some_iff.mpr hentry))

theorem free_iff (h : Unique w.users) :
    Free w u ↔ ∀ key v, w.users.find? key = some v → ¬ Clashes v u := by
  simp only [Free, memMatch_eq_none, ← forall_and]
  refine forall₂_congr fun key v => imp_congr_right fun hfind => ?_
  rw [← h.keyed hfind]
  simp [Clashes]

/-! ### What an operation does to the map -/

/-- A user who is inserted leaves the users unique exactly if nobody stands in the way. -/
theorem unique_insert_iff (h : Unique users) (hnew : users.find? u.username = none) :
    Unique (users.insert u.username u) ↔ ∀ key v, users.find? key = some v → ¬ Clashes v u := by
  have hother : ∀ {key v}, users.find? key = some v →
      (users.insert u.username u).find? key = some v := by
    intro key v hfind
    rw [OrderedMap.find?_insert_of_ne, hfind]
    rintro rfl
    rw [hnew] at hfind
    cases hfind
  constructor
  · intro hunique key v hfind hclash
    have hkey := hunique.distinct (hother hfind) (OrderedMap.find?_insert_self _ _ _) hclash
    rw [hkey, hnew] at hfind
    cases hfind
  · intro hfree
    have hcases : ∀ {key v}, (users.insert u.username u).find? key = some v →
        (key = u.username ∧ v = u) ∨ users.find? key = some v := by
      intro key v hfind
      by_cases hkey : key = u.username
      · rw [hkey, OrderedMap.find?_insert_self] at hfind
        exact Or.inl ⟨hkey, (Option.some.inj hfind).symm⟩
      · rw [OrderedMap.find?_insert_of_ne hkey] at hfind
        exact Or.inr hfind
    refine ⟨fun hfind => ?_, fun hfind hfind' hclash => ?_⟩
    · rcases hcases hfind with ⟨rfl, rfl⟩ | hfind
      · rfl
      · exact h.keyed hfind
    · rcases hcases hfind with ⟨rfl, rfl⟩ | hold <;> rcases hcases hfind' with ⟨rfl, rfl⟩ | hold'
      · rfl
      · exact absurd hclash.symm (hfree _ _ hold')
      · exact absurd hclash (hfree _ _ hold)
      · exact h.distinct hold hold' hclash

/-- Its username and its email are not changed. -/
def KeepsName (f : RegisteredUser → Option RegisteredUser) : Prop :=
  ∀ u, ∀ u' ∈ f u, u'.username = u.username ∧ u'.email = u.email

theorem unique_modify {f : RegisteredUser → Option RegisteredUser} (h : Unique users)
    (hf : KeepsName f) : Unique (users.modify key f) := by
  have hbefore : ∀ {key' u'}, (users.modify key f).find? key' = some u' →
      ∃ u, users.find? key' = some u ∧ u'.username = u.username ∧ u'.email = u.email := by
    intro key' u' hfind
    by_cases hkey : key' = key
    · subst hkey
      rw [OrderedMap.find?_modify_self] at hfind
      obtain ⟨u, hu, hfu⟩ := Option.bind_eq_some_iff.mp hfind
      exact ⟨u, hu, hf u u' hfu⟩
    · rw [OrderedMap.find?_modify_of_ne hkey] at hfind
      exact ⟨u', hfind, rfl, rfl⟩
  refine ⟨fun hfind => ?_, fun hfind hfind' hclash => ?_⟩
  · obtain ⟨u, hu, hname, -⟩ := hbefore hfind
    exact hname.trans (h.keyed hu)
  · obtain ⟨u, hu, hname, hemail⟩ := hbefore hfind
    obtain ⟨v, hv, hname', hemail'⟩ := hbefore hfind'
    rw [Clashes, hname, hname', hemail, hemail'] at hclash
    exact h.distinct hu hv hclash

theorem keepsName_write (change : Write) : KeepsName change.on := by
  intro u u' hu'
  cases change <;> cases hu' <;> exact ⟨rfl, rfl⟩

/-- What does not write into memory leaves the map as it is. -/
theorem users_of_not_writesMemory (ho : ¬ o.WritesMemory) :
    (o.perform lower w).2.users = w.users := by
  cases o with
  | memAdd u | memWrite change username | memBump username => exact (ho trivial).elim
  | insert pg u =>
      simp only [AuthOp.perform]
      split
      · unfold AuthWorld.insertRow
        dsimp only
        split <;> rfl
      · rfl
  | write pg change username | bump pg username =>
      simp only [AuthOp.perform]
      split <;> rfl
  | setStatus pg key id status clear =>
      simp only [AuthOp.perform]
      split
      · split
        · rfl
        · cases clear <;> rfl
      · rfl
  | _ => rfl

/-- Only an insertion brings a name or an email into the map. -/
theorem users_perform (hadd : ∀ u, o ≠ .memAdd u) :
    (o.perform lower w).2.users = w.users ∨
      ∃ key f, KeepsName f ∧ (o.perform lower w).2.users = w.users.modify key f := by
  by_cases ho : o.WritesMemory
  · cases o with
    | memAdd u => exact absurd rfl (hadd u)
    | memWrite change username =>
        exact Or.inr ⟨username, change.on, keepsName_write change, rfl⟩
    | memBump username =>
        refine Or.inr ⟨username, fun u => some u.bumped, fun u u' hu' => ?_, rfl⟩
        cases hu'
        exact ⟨rfl, rfl⟩
    | _ => exact ho.elim
  · exact Or.inl (users_of_not_writesMemory ho)

theorem unique_perform (h : Unique w.users) (hadd : ∀ u, o ≠ .memAdd u) :
    Unique (o.perform lower w).2.users := by
  obtain hsame | ⟨key, f, hf, hmodify⟩ := @users_perform lower w o hadd
  · rw [hsame]
    exact h
  · rw [hmodify]
    exact unique_modify h hf

theorem unique_memAdd_iff (h : Unique w.users) :
    Unique (w.memAdd u).2.users ↔ (w.users.find? u.username = none → Free w u) := by
  rw [free_iff h]
  unfold AuthWorld.memAdd
  cases hfind : w.users.find? u.username with
  | some v => exact iff_of_true h fun hnone => by cases hnone
  | none =>
      rw [imp_iff_right rfl]
      exact unique_insert_iff (u := { u with id := if u.id = 0 then w.nextId else u.id }) h hfind

/-! ### Runs -/

/-- What a step does to unique users. -/
theorem unique_step_iff {s : Threads StoreJob AuthWorld} (h : Unique s.world.users)
    (a : Threads.Action StoreCall) :
    StillFree s a ↔ ∀ s' ∈ (storeCalls lower w).step? s a, Unique s'.world.users := by
  cases a with
  | arrive call =>
      refine iff_of_true trivial fun s' hs' => ?_
      cases hs'
      exact h
  | step i =>
      constructor
      · intro hfree s' hs'
        obtain ⟨t, o, next, ht, hprogram, rfl⟩ := Job.step?_step hs'
        by_cases hadd : ∃ u, o = .memAdd u
        · obtain ⟨u, rfl⟩ := hadd
          exact (unique_memAdd_iff h).mpr (hfree t ht u next hprogram)
        · exact unique_perform h fun u hu => hadd ⟨u, hu⟩
      · intro hkept t ht u next hprogram
        exact (unique_memAdd_iff h).mp (hkept _ (Job.step?_of_call ht hprogram))

/-- Users stay unique in memory exactly as long as nobody with the same name or email is inserted
between the checks of a `mem_insert` and its insertion. -/
theorem unique_along_iff (h : Unique w.users) (actions : List (Threads.Action StoreCall)) :
    (storeCalls lower w).Along (fun s => Unique s.world.users) ⟨w, []⟩ actions ↔
      (storeCalls lower w).Guarded StillFree ⟨w, []⟩ actions :=
  System.along_iff_guarded (fun _ a hs => unique_step_iff hs a) h

theorem unique_empty : Unique OrderedMap.empty := by
  refine ⟨fun h => ?_, fun h => ?_⟩ <;> cases h

def ani : RegisteredUser where
  username := str "ani"
  email := str "a@b.id"
  passwordHash := str "hash"

/-- Two users with one email; both checks come before both insertions. -/
def registeredTogether : List (Threads.Action StoreCall) :=
  [.arrive (.memInsert 0 ani), .arrive (.memInsert 0 { ani with username := str "budi" }),
    .step 0, .step 1, .step 0, .step 1, .step 0, .step 1]

theorem unique_along_iff_registeredTogether :
    (storeCalls id {}).Along (fun s => Unique s.world.users) ⟨{}, []⟩ registeredTogether ↔
      (storeCalls id {}).Guarded StillFree ⟨{}, []⟩ registeredTogether :=
  unique_along_iff unique_empty registeredTogether

theorem not_unique_along :
    ¬ ∀ lower w actions, Unique w.users →
      (storeCalls lower w).Along (fun s => Unique s.world.users) ⟨w, []⟩ actions := by
  intro h
  have hunique := (h id {} registeredTogether unique_empty).after (by decide +kernel)
  have hani : ((storeCalls id {}).after registeredTogether).world.users.find? (str "ani") =
      some { ani with id := 100 } := by decide +kernel
  have hbudi : ((storeCalls id {}).after registeredTogether).world.users.find? (str "budi") =
      some { ani with username := str "budi", id := 101 } := by decide +kernel
  have hkey := hunique.distinct hani hbudi (Or.inr ⟨by decide, by decide⟩)
  exact absurd hkey (by decide)

end

end ExamVan.Auth
