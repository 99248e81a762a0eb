import ExamVan.Lib.Bytes
import ExamVan.Lib.Protocol

/-!
# Job locks

A replica locks a job by a key in Redis that expires. Where Redis cannot be reached it falls back to
a map of its own process. The key's value is `"1"` for every replica: whose key it is, and until
when a replica counts on it, are kept here beside what the programs read.
-/

namespace ExamVan.Redis

open ByteString

abbrev Replica := Nat

abbrev Key := Bytes

/-- Nanoseconds. The clocks of the replicas and of Redis run alike, and a deadline is only compared
with the clock that it was made from. -/
abbrev Time := Nat

/-- A lifetime in seconds. -/
abbrev Ttl := { n : Nat // 0 < n }

def seconds (ttl : Ttl) : Time := ttl.1 * 1000000000

/-- `ttl>0?ttl:60` -/
def ttlOr60 (ttl : Int) : Ttl :=
  if h : 0 < ttl then ⟨ttl.toNat, by omega⟩ else ⟨60, by decide⟩

structure RedisClient where
  url : Bytes
  pfx : Bytes := []

def RedisClient.prefixed (c : RedisClient) (key : Bytes) : Bytes :=
  if c.pfx = [] then key else c.pfx ++ str ":" ++ key

structure LockWorld where
  now : Time := 0
  /-- the keys in Redis: who has set one, and when it expires -/
  keys : Key → Option (Replica × Time) := fun _ => none
  /-- `g_locks` of each replica -/
  locks : Replica × Key → Option Time := fun _ => none
  /-- until when a replica counts on the key that it has set -/
  leases : Replica × Key → Option Time := fun _ => none
  /-- the replicas whose lock in Redis another one's release has removed -/
  robbed : List Replica := []

/-- A deadline that has not passed. -/
def standing (now : Time) (deadline : Option Time) : Bool := deadline.any fun d => now < d

/-- An expired key is not there. -/
def LockWorld.visible (w : LockWorld) (key : Key) : Option (Replica × Time) :=
  (w.keys key).filter fun k => w.now < k.2

/-- How a command fares: it may not reach Redis, and its reply may not come back. -/
structure Sent where
  executed : Bool := true
  replied : Bool := true
  deriving DecidableEq

inductive SetReply
  | status
  | nil
  | error
  deriving DecidableEq

inductive LockOp
  | connectRedis (reached : Bool)
  /-- `SET key 1 NX EX ttl` -/
  | setnx (r : Replica) (key : Key) (ttl : Ttl) (sent : Sent)
  | redisExists (key : Key) (sent : Sent)
  | del (r : Replica) (key : Key) (sent : Sent)
  | steadyNow
  /-- the map under `g_mu` in `try_acquire_job` -/
  | lockMap (r : Replica) (key : Key) (now : Time) (ttl : Ttl)
  /-- `g_locks.erase` under `g_mu`; without a `DEL` before it, it is what ends the replica's lease -/
  | eraseLock (r : Replica) (key : Key) (afterDel : Bool)
  | tick (n : Time)
  deriving DecidableEq

abbrev LockAns : LockOp → Type
  | .connectRedis _ | .redisExists _ _ | .lockMap _ _ _ _ => Bool
  | .setnx _ _ _ _ => SetReply
  | .steadyNow => Time
  | .del _ _ _ | .eraseLock _ _ _ | .tick _ => Unit

abbrev LockProg := Prog LockOp LockAns

abbrev LockOp.ask (o : LockOp) : LockProg (LockAns o) := Prog.op o

/-- The holder that a `DEL` by `r` takes the key from. -/
def LockWorld.robs (w : LockWorld) (r : Replica) (key : Key) : List Replica :=
  match w.visible key with
  | none => []
  | some (owner, _) => if owner ≠ r ∧ standing w.now (w.leases (owner, key)) then [owner] else []

def LockOp.perform : (o : LockOp) → LockWorld → LockAns o × LockWorld
  | .connectRedis reached, w => (reached, w)
  | .setnx r key ttl sent, w =>
      if !sent.executed then (.error, w)
      else if (w.visible key).isSome then (if sent.replied then .nil else .error, w)
      else
        let expiry := w.now + seconds ttl
        let set := { w with keys := Function.update w.keys key (some (r, expiry)) }
        if sent.replied then
          (.status, { set with leases := Function.update w.leases (r, key) (some expiry) })
        else (.error, set)
  | .redisExists key sent, w => (sent.executed && sent.replied && (w.visible key).isSome, w)
  | .del r key sent, w =>
      let ended := { w with leases := Function.update w.leases (r, key) none }
      if !sent.executed then ((), ended)
      else
        ((), { ended with
          keys := Function.update w.keys key none
          robbed := w.robbed ++ w.robs r key })
  | .steadyNow, w => (w.now, w)
  | .lockMap r key now ttl, w =>
      if standing now (w.locks (r, key)) then (false, w)
      else
        (true, { w with locks := Function.update w.locks (r, key) (some (now + seconds ttl)) })
  | .eraseLock r key afterDel, w =>
      let erased := { w with locks := Function.update w.locks (r, key) none }
      ((), if afterDel then erased
        else { erased with leases := Function.update w.leases (r, key) none })
  | .tick n, w => ((), { w with now := w.now + n })

/-! ### The two calls -/

/-- What a call meets on its way to Redis. -/
structure Network where
  reached : Bool := true
  command : Sent := {}
  probe : Sent := {}
  deriving DecidableEq

def acquireInProcess (r : Replica) (key : Key) (ttl : Int) : LockProg Bool := do
  let now : Time ← LockOp.ask .steadyNow
  LockOp.ask (.lockMap r key now (ttlOr60 ttl))

/-- `try_acquire_job`. Only an unreachable Redis leads to the map: an error reply does not. -/
def tryAcquireJob (net : Network) (r : Replica) (c : RedisClient) (job : Bytes) (ttl : Int) :
    LockProg Bool :=
  let key := c.prefixed (str "job:" ++ job)
  if c.url = [] then acquireInProcess r key ttl
  else do
    let reached : Bool ← LockOp.ask (.connectRedis net.reached)
    if !reached then acquireInProcess r key ttl
    else
      let reply : SetReply ← LockOp.ask (.setnx r key (ttlOr60 ttl) net.command)
      match reply with
      | .status => return true
      | .error => return false
      | .nil => do
          let seen : Bool ← LockOp.ask (.redisExists key net.probe)
          if seen then return false
          return false

def releaseJob (net : Network) (r : Replica) (c : RedisClient) (job : Bytes) : LockProg Unit :=
  let key := c.prefixed (str "job:" ++ job)
  if c.url = [] then LockOp.ask (.eraseLock r key false)
  else do
    let reached : Bool ← LockOp.ask (.connectRedis net.reached)
    if !reached then LockOp.ask (.eraseLock r key false)
    else
      let _ : Unit ← LockOp.ask (.del r key net.command)
      LockOp.ask (.eraseLock r key true)

inductive LockCall
  | tryAcquireJob (net : Network) (r : Replica) (c : RedisClient) (job : Bytes) (ttl : Int)
  | releaseJob (net : Network) (r : Replica) (c : RedisClient) (job : Bytes)
  /-- time passes -/
  | tick (n : Time)

def LockCall.program : LockCall → LockProg Unit
  | .tryAcquireJob net r c job ttl => do
      let _ ← Redis.tryAcquireJob net r c job ttl
      return ()
  | .releaseJob net r c job => Redis.releaseJob net r c job
  | .tick n => LockOp.ask (.tick n)

abbrev LockState := Threads (Job LockCall LockOp LockAns Unit) LockWorld

/-- Any number of replicas, each with any number of calls. -/
def replicas : System LockState (Threads.Action LockCall) :=
  Job.system LockCall.program LockOp.perform {}

end ExamVan.Redis

/-!
## Who holds a job

`SET NX` gives a key to one replica at a time, and as long as no other replica deletes it, whoever
counts on the key finds it there. Two things break this. The map of a process knows nothing of the
other replicas, and `DEL` asks nothing of the key.
-/

namespace ExamVan.Redis

open ByteString

variable {w w' : LockWorld} {r r' : Replica} {key : Key}

def HoldsByKey (w : LockWorld) (r : Replica) (key : Key) : Prop :=
  standing w.now (w.leases (r, key)) = true

def HoldsByMap (w : LockWorld) (r : Replica) (key : Key) : Prop :=
  standing w.now (w.locks (r, key)) = true

def Holds (w : LockWorld) (r : Replica) (key : Key) : Prop := HoldsByKey w r key ∨ HoldsByMap w r key

instance : Decidable (HoldsByKey w r key) := inferInstanceAs (Decidable (_ = true))

instance : Decidable (HoldsByMap w r key) := inferInstanceAs (Decidable (_ = true))

instance : Decidable (Holds w r key) := inferInstanceAs (Decidable (_ ∨ _))

/-- At most one replica holds a job's lock. -/
def OneHolder (w : LockWorld) : Prop :=
  ∀ key r r', Holds w r key → Holds w r' key → r = r'

/-- No release has removed another replica's lock. -/
def NoneRobbed (w : LockWorld) : Prop := w.robbed = []

/-- Who counts on a key finds it. -/
def Leased (w : LockWorld) : Prop :=
  ∀ r key d, w.leases (r, key) = some d → w.now < d → w.keys key = some (r, d)

/-- What an operation must not meet: the map is not locked while another replica holds the lock, the
key is not set while another one holds it by its map, and `DEL` is not sent while another one counts
on the key. -/
def Harmless : LockOp → LockWorld → Prop
  | .setnx r key _ sent, w =>
      sent.executed = true → sent.replied = true → w.visible key = none →
        ∀ r', r' ≠ r → ¬ HoldsByMap w r' key
  | .lockMap r key now ttl, w =>
      standing now (w.locks (r, key)) = false → w.now < now + seconds ttl →
        ∀ r', r' ≠ r → ¬ Holds w r' key
  | .del r key sent, w => sent.executed = true → ∀ r', r' ≠ r → ¬ HoldsByKey w r' key
  | _, _ => True

/-! ### Deadlines -/

theorem standing_eq_true {now : Time} {deadline : Option Time} :
    standing now deadline = true ↔ ∃ d, deadline = some d ∧ now < d := by
  cases deadline <;> simp [standing]

@[simp]
theorem standing_none (now : Time) : standing now none = false := rfl

@[simp]
theorem standing_some (now d : Time) : standing now (some d) = decide (now < d) := rfl

theorem seconds_pos (ttl : Ttl) : 0 < seconds ttl := Nat.mul_pos ttl.2 (by decide)

/-- Later, less is held. -/
theorem standing_of_le {now now' : Time} {deadline : Option Time} (hnow : now ≤ now')
    (h : standing now' deadline = true) : standing now deadline = true := by
  obtain ⟨d, hd, hlt⟩ := standing_eq_true.mp h
  exact standing_eq_true.mpr ⟨d, hd, Nat.lt_of_le_of_lt hnow hlt⟩

theorem Leased.keys_of_holds (h : Leased w) (hr : HoldsByKey w r key) :
    ∃ d, w.keys key = some (r, d) ∧ w.now < d := by
  obtain ⟨d, hd, hnow⟩ := standing_eq_true.mp hr
  exact ⟨d, h r key d hd hnow, hnow⟩

theorem visible_eq_some {k : Replica × Time} (hkey : w.keys key = some k) (hnow : w.now < k.2) :
    w.visible key = some k := by
  rw [LockWorld.visible, hkey, Option.filter_some, if_pos (by simpa using hnow)]

/-- Where no key is to be seen, no replica counts on one. -/
theorem Leased.not_holdsByKey (h : Leased w) (hvisible : w.visible key = none) :
    ¬ HoldsByKey w r key := by
  intro hr
  obtain ⟨d, hkey, hnow⟩ := h.keys_of_holds hr
  rw [visible_eq_some hkey hnow] at hvisible
  cases hvisible

theorem robs_eq_nil_iff (h : Leased w) :
    w.robs r key = [] ↔ ∀ r', r' ≠ r → ¬ HoldsByKey w r' key := by
  constructor
  · intro hrobs r' hne hr'
    obtain ⟨d, hkey, hnow⟩ := h.keys_of_holds hr'
    unfold LockWorld.robs at hrobs
    simp only [visible_eq_some hkey hnow] at hrobs
    rw [if_pos ⟨hne, hr'⟩] at hrobs
    cases hrobs
  · intro hnone
    unfold LockWorld.robs
    split
    · rfl
    · rename_i owner _ _
      exact if_neg fun ⟨hne, howner⟩ => hnone owner hne howner

/-! ### One operation -/

/-- Less is held than before, so there is still one holder. -/
theorem OneHolder.of_imp (h : OneHolder w) (himp : ∀ r key, Holds w' r key → Holds w r key) :
    OneHolder w' :=
  fun key r r' hr hr' => h key r r' (himp r key hr) (himp r' key hr')

/-- A grant keeps one holder exactly if no other replica holds the lock. -/
theorem oneHolder_grant_iff (h : OneHolder w)
    (hgrant : ∀ r' key', Holds w' r' key' ↔ Holds w r' key' ∨ (r' = r ∧ key' = key)) :
    OneHolder w' ↔ ∀ r', r' ≠ r → ¬ Holds w r' key := by
  constructor
  · intro hone r' hne hr'
    exact hne (hone key r' r ((hgrant r' key).mpr (Or.inl hr')) ((hgrant r key).mpr (Or.inr ⟨rfl, rfl⟩)))
  · intro hnone key' a b ha hb
    rcases (hgrant a key').mp ha with ha | ⟨rfl, rfl⟩
    · rcases (hgrant b key').mp hb with hb | ⟨rfl, rfl⟩
      · exact h key' a b ha hb
      · by_contra hne
        exact hnone a hne ha
    · rcases (hgrant b key').mp hb with hb | ⟨rfl, -⟩
      · by_contra hne
        exact hnone b (Ne.symm hne) hb
      · rfl

/-- What an operation changes for the holders. -/
inductive Effect (o : LockOp) (w w' : LockWorld) : Prop
  | less (hless : ∀ r key, Holds w' r key → Holds w r key) (hrobbed : w'.robbed = w.robbed)
      (ho : Harmless o w)
  | granted (r : Replica) (key : Key)
      (hgrant : ∀ r' key', Holds w' r' key' ↔ Holds w r' key' ∨ (r' = r ∧ key' = key))
      (hrobbed : w'.robbed = w.robbed)
      (ho : Harmless o w ↔ ∀ r', r' ≠ r → ¬ Holds w r' key)
  | removed (r : Replica) (key : Key) (hless : ∀ r key, Holds w' r key → Holds w r key)
      (hrobbed : w'.robbed = w.robbed ++ w.robs r key) (ho : Harmless o w ↔ w.robs r key = [])

theorem Effect.harmless_iff {o : LockOp} (h : Effect o w w') (hone : OneHolder w)
    (hnone : NoneRobbed w) : Harmless o w ↔ OneHolder w' ∧ NoneRobbed w' := by
  unfold NoneRobbed at hnone ⊢
  cases h with
  | less hless hrobbed ho =>
      rw [hrobbed]
      exact iff_of_true ho ⟨hone.of_imp hless, hnone⟩
  | granted r key hgrant hrobbed ho =>
      rw [ho, hrobbed, oneHolder_grant_iff hone hgrant]
      exact (and_iff_left hnone).symm
  | removed r key hless hrobbed ho =>
      rw [ho, hrobbed, hnone, List.nil_append]
      exact (and_iff_right (hone.of_imp hless)).symm

theorem holds_grant {w' : LockWorld}
    (hsame : ∀ r' key', (r', key') ≠ (r, key) → (Holds w' r' key' ↔ Holds w r' key'))
    (hself : Holds w' r key) (r' : Replica) (key' : Key) :
    Holds w' r' key' ↔ Holds w r' key' ∨ (r' = r ∧ key' = key) := by
  by_cases hp : (r', key') = (r, key)
  · obtain ⟨rfl, rfl⟩ := Prod.mk.inj hp
    exact iff_of_true hself (Or.inr ⟨rfl, rfl⟩)
  · rw [hsame r' key' hp]
    exact (or_iff_left fun ⟨hr, hk⟩ => hp (by rw [hr, hk])).symm

theorem effect_setnx (hleased : Leased w) (r : Replica) (key : Key) (ttl : Ttl) (sent : Sent) :
    Effect (.setnx r key ttl sent) w ((LockOp.setnx r key ttl sent).perform w).2 := by
  have hstill : ∀ {w'}, w'.now = w.now → w'.leases = w.leases → w'.locks = w.locks →
      w'.robbed = w.robbed → Harmless (.setnx r key ttl sent) w →
        Effect (.setnx r key ttl sent) w w' := by
    intro w' hnow hleases hlocks hrobbed ho
    refine .less (fun r' key' => ?_) hrobbed ho
    rw [Holds, Holds, HoldsByKey, HoldsByKey, HoldsByMap, HoldsByMap, hnow, hleases, hlocks]
    exact id
  unfold LockOp.perform
  dsimp only
  split
  next hexecuted =>
    refine hstill rfl rfl rfl rfl fun hsent => ?_
    rw [hsent] at hexecuted
    cases hexecuted
  next hexecuted =>
    split
    next hvisible =>
      refine hstill rfl rfl rfl rfl fun _ _ hnone => ?_
      rw [hnone] at hvisible
      cases hvisible
    next hvisible =>
      have hnone : w.visible key = none := Option.not_isSome_iff_eq_none.mp hvisible
      split
      next hreplied =>
        refine .granted r key (holds_grant (fun r' key' hp => ?_) (Or.inl ?_)) rfl ?_
        · simp only [Holds, HoldsByKey, HoldsByMap, Function.update_of_ne hp]
        · refine standing_eq_true.mpr ⟨w.now + seconds ttl, Function.update_self .., ?_⟩
          exact Nat.lt_add_of_pos_right (seconds_pos ttl)
        · have hexecuted' : sent.executed = true := by simpa using hexecuted
          constructor
          · intro ho r' hne hr'
            rcases hr' with hr' | hr'
            · exact hleased.not_holdsByKey hnone hr'
            · exact ho hexecuted' hreplied hnone r' hne hr'
          · intro ho _ _ _ r' hne hr'
            exact ho r' hne (Or.inr hr')
      next hreplied =>
        exact hstill rfl rfl rfl rfl fun _ h => absurd h hreplied

theorem effect_lockMap (r : Replica) (key : Key) (now : Time) (ttl : Ttl) :
    Effect (.lockMap r key now ttl) w ((LockOp.lockMap r key now ttl).perform w).2 := by
  unfold LockOp.perform
  dsimp only
  split
  next hstanding =>
    refine .less (fun _ _ => id) rfl fun hfree => ?_
    rw [hstanding] at hfree
    cases hfree
  next hstanding =>
    have hfree : standing now (w.locks (r, key)) = false := Bool.eq_false_iff.mpr hstanding
    have hsame : ∀ r' key', (r', key') ≠ (r, key) →
        (Holds { w with locks := Function.update w.locks (r, key) (some (now + seconds ttl)) } r' key' ↔
          Holds w r' key') := by
      intro r' key' hp
      simp only [Holds, HoldsByKey, HoldsByMap, Function.update_of_ne hp]
    by_cases hlate : w.now < now + seconds ttl
    · refine .granted r key (holds_grant hsame (Or.inr ?_)) rfl ?_
      · exact standing_eq_true.mpr ⟨now + seconds ttl, Function.update_self .., hlate⟩
      · exact ⟨fun ho => ho hfree hlate, fun ho _ _ => ho⟩
    · -- The deadline of a slow caller has passed before it is written.
      refine .less (fun r' key' hr' => ?_) rfl fun _ h => absurd h hlate
      by_cases hp : (r', key') = (r, key)
      · obtain ⟨rfl, rfl⟩ := Prod.mk.inj hp
        refine hr'.imp id fun hmap => ?_
        obtain ⟨d, hd, hnow⟩ := standing_eq_true.mp hmap
        have hdeadline : Function.update w.locks (r', key') (some (now + seconds ttl)) (r', key') =
            some d := hd
        rw [Function.update_self] at hdeadline
        exact absurd (Option.some.inj hdeadline ▸ hnow) hlate
      · exact (hsame r' key' hp).mp hr'

/-- Giving something up leaves less to hold. -/
theorem holds_of_update {w : LockWorld} {locks leases : Replica × Key → Option Time}
    (hlocks : ∀ p, locks p = none ∨ locks p = w.locks p)
    (hleases : ∀ p, leases p = none ∨ leases p = w.leases p) (hnow : w'.now = w.now)
    (hlocks' : w'.locks = locks) (hleases' : w'.leases = leases) (h : Holds w' r key) :
    Holds w r key := by
  rcases h with h | h
  · rw [HoldsByKey, hnow, hleases'] at h
    rcases hleases (r, key) with hp | hp
    · rw [hp] at h
      cases h
    · rw [hp] at h
      exact Or.inl h
  · rw [HoldsByMap, hnow, hlocks'] at h
    rcases hlocks (r, key) with hp | hp
    · rw [hp] at h
      cases h
    · rw [hp] at h
      exact Or.inr h

theorem update_none_cases {α : Type*} [DecidableEq α] (f : α → Option Time) (a p : α) :
    Function.update f a none p = none ∨ Function.update f a none p = f p := by
  by_cases hp : p = a
  · subst hp
    exact Or.inl (Function.update_self ..)
  · exact Or.inr (Function.update_of_ne hp ..)

theorem effect_del (hleased : Leased w) (r : Replica) (key : Key) (sent : Sent) :
    Effect (.del r key sent) w ((LockOp.del r key sent).perform w).2 := by
  have hless : ∀ {w'}, w'.now = w.now → w'.locks = w.locks →
      w'.leases = Function.update w.leases (r, key) none → ∀ r' key', Holds w' r' key' →
        Holds w r' key' :=
    fun hnow hlocks hleases r' key' =>
      holds_of_update (fun _ => Or.inr rfl) (update_none_cases w.leases (r, key)) hnow hlocks hleases
  unfold LockOp.perform
  dsimp only
  split
  next hexecuted =>
    refine .less (hless rfl rfl rfl) rfl fun hsent => ?_
    rw [hsent] at hexecuted
    cases hexecuted
  next hexecuted =>
    have hexecuted' : sent.executed = true := by simpa using hexecuted
    refine .removed r key (hless rfl rfl rfl) rfl ?_
    rw [robs_eq_nil_iff hleased]
    exact ⟨fun ho => ho hexecuted', fun ho _ => ho⟩

theorem effect_eraseLock (r : Replica) (key : Key) (afterDel : Bool) :
    Effect (.eraseLock r key afterDel) w ((LockOp.eraseLock r key afterDel).perform w).2 := by
  cases afterDel with
  | true =>
      exact .less (fun r' key' => holds_of_update (update_none_cases w.locks (r, key))
        (fun _ => Or.inr rfl) rfl rfl rfl) rfl trivial
  | false =>
      exact .less (fun r' key' => holds_of_update (update_none_cases w.locks (r, key))
        (update_none_cases w.leases (r, key)) rfl rfl rfl) rfl trivial

theorem effect_perform {o : LockOp} (hleased : Leased w) :
    Effect o w (o.perform w).2 := by
  cases o with
  | connectRedis reached => exact .less (fun _ _ => id) rfl trivial
  | setnx r key ttl sent => exact effect_setnx hleased r key ttl sent
  | redisExists key sent => exact .less (fun _ _ => id) rfl trivial
  | del r key sent => exact effect_del hleased r key sent
  | steadyNow => exact .less (fun _ _ => id) rfl trivial
  | lockMap r key now ttl => exact effect_lockMap r key now ttl
  | eraseLock r key afterDel => exact effect_eraseLock r key afterDel
  | tick n =>
      have hnow : w.now ≤ w.now + n := Nat.le_add_right _ _
      exact .less (fun r key h => h.imp (standing_of_le hnow) (standing_of_le hnow)) rfl trivial

/-! ### Who counts on a key finds it -/

theorem leased_of_lease {w' : LockWorld} (h : Leased w) (hnow : w.now ≤ w'.now)
    (hleases : ∀ p, w'.leases p = none ∨ w'.leases p = w.leases p)
    (hkeys : ∀ r key, HoldsByKey w' r key → w'.keys key = w.keys key) : Leased w' := by
  intro r key d hd hlt
  rcases hleases (r, key) with hp | hp
  · rw [hp] at hd
    cases hd
  · rw [hkeys r key (standing_eq_true.mpr ⟨d, hd, hlt⟩)]
    exact h r key d (hp ▸ hd) (Nat.lt_of_le_of_lt hnow hlt)

theorem leased_setnx (h : Leased w) (r : Replica) (key : Key) (ttl : Ttl) (sent : Sent) :
    Leased ((LockOp.setnx r key ttl sent).perform w).2 := by
  unfold LockOp.perform
  dsimp only
  split
  · exact h
  · split
    · exact h
    next hvisible =>
      have hnone : w.visible key = none := Option.not_isSome_iff_eq_none.mp hvisible
      have hother : ∀ {r' key'}, HoldsByKey w r' key' → ∀ k,
          Function.update w.keys key (some k) key' = w.keys key' := by
        intro r' key' hr' k
        refine Function.update_of_ne (fun hkey => ?_) ..
        subst hkey
        exact h.not_holdsByKey hnone hr'
      split
      · intro r' key' d hd hlt
        by_cases hp : (r', key') = (r, key)
        · obtain ⟨rfl, rfl⟩ := Prod.mk.inj hp
          have hexpiry : some (w.now + seconds ttl) = some d :=
            (Function.update_self (r', key') (some (w.now + seconds ttl)) w.leases).symm.trans hd
          rw [← Option.some.inj hexpiry]
          exact Function.update_self ..
        · have hbefore : w.leases (r', key') = some d :=
            (Function.update_of_ne hp ..).symm.trans hd
          exact (hother (standing_eq_true.mpr ⟨d, hbefore, hlt⟩) _).trans (h r' key' d hbefore hlt)
      · exact leased_of_lease h (Nat.le_refl _) (fun _ => Or.inr rfl) fun r' key' hr' => hother hr' _

theorem leased_del (h : Leased w) (r : Replica) (key : Key) (sent : Sent)
    (ho : Harmless (.del r key sent) w) : Leased ((LockOp.del r key sent).perform w).2 := by
  have hcases := update_none_cases w.leases (r, key)
  unfold LockOp.perform
  dsimp only
  split
  · exact leased_of_lease h (Nat.le_refl _) hcases fun _ _ _ => rfl
  next hexecuted =>
    refine leased_of_lease h (Nat.le_refl _) hcases fun r' key' hr' => ?_
    refine Function.update_of_ne (fun hkey => ?_) ..
    subst hkey
    obtain ⟨d, hd, hlt⟩ := standing_eq_true.mp hr'
    have hlease : Function.update w.leases (r, key') none (r', key') = some d := hd
    by_cases hne : r' = r
    · subst hne
      rw [Function.update_self] at hlease
      cases hlease
    · rw [Function.update_of_ne fun hp => hne (Prod.mk.inj hp).1] at hlease
      exact ho (by simpa using hexecuted) r' hne (standing_eq_true.mpr ⟨d, hlease, hlt⟩)

theorem leased_perform {o : LockOp} (h : Leased w) (ho : Harmless o w) :
    Leased (o.perform w).2 := by
  cases o with
  | connectRedis reached => exact h
  | redisExists key sent => exact h
  | steadyNow => exact h
  | setnx r key ttl sent => exact leased_setnx h r key ttl sent
  | del r key sent => exact leased_del h r key sent ho
  | lockMap r key now ttl =>
      unfold LockOp.perform
      dsimp only
      split
      · exact h
      · exact leased_of_lease h (Nat.le_refl _) (fun _ => Or.inr rfl) fun _ _ _ => rfl
  | eraseLock r key afterDel =>
      cases afterDel with
      | true => exact leased_of_lease h (Nat.le_refl _) (fun _ => Or.inr rfl) fun _ _ _ => rfl
      | false =>
          exact leased_of_lease h (Nat.le_refl _) (update_none_cases w.leases (r, key))
            fun _ _ _ => rfl
  | tick n => exact leased_of_lease h (Nat.le_add_right _ _) (fun _ => Or.inr rfl) fun _ _ _ => rfl

/-! ### All replicas -/

/-- At every moment of a run at most one replica holds each job's lock, and no release has removed
another one's, exactly if no operation of the run meets what it must not. -/
theorem job_has_one_owner_iff (actions : List (Threads.Action LockCall)) :
    replicas.Along (fun s => OneHolder s.world ∧ NoneRobbed s.world) replicas.initial actions ↔
      replicas.Guarded (Job.Performs Harmless) replicas.initial actions := by
  have hleased : Leased {} := fun r key d hd => by cases hd
  have hone : OneHolder {} := fun key r r' hr => by rcases hr with hr | hr <;> cases hr
  have hkept : ∀ (o : LockOp) (w : LockWorld), Leased w → Harmless o w → Leased (o.perform w).2 :=
    fun o w => leased_perform
  have hharmless : ∀ (o : LockOp) (w : LockWorld), Leased w → OneHolder w ∧ NoneRobbed w →
      (Harmless o w ↔ OneHolder (o.perform w).2 ∧ NoneRobbed (o.perform w).2) :=
    fun o w hl hw => (effect_perform hl).harmless_iff hw.1 hw.2
  exact Job.along_iff_guarded (P := fun w => OneHolder w ∧ NoneRobbed w) hleased ⟨hone, rfl⟩ hkept
    hharmless actions

/-! ### Runs that go wrong -/

def redisAt : RedisClient := { url := str "redis://r" }

def cut : Network := { reached := false }

/-- Neither of two replicas reaches Redis. -/
def bothFallBack : List (Threads.Action LockCall) :=
  [.arrive (.tryAcquireJob cut 0 redisAt (str "expiry") 3600),
    .arrive (.tryAcquireJob cut 1 redisAt (str "expiry") 3600),
    .step 0, .step 0, .step 0, .step 1, .step 1, .step 1]

/-- The lock of the first replica has expired and the second one has it when the first one releases
it. -/
def releasedLate : List (Threads.Action LockCall) :=
  [.arrive (.tryAcquireJob {} 0 redisAt (str "expiry") 3600), .step 0, .step 0,
    .arrive (.tick 3600000000000), .step 1,
    .arrive (.tryAcquireJob {} 1 redisAt (str "expiry") 3600), .step 2, .step 2,
    .arrive (.releaseJob {} 0 redisAt (str "expiry")), .step 3, .step 3]

instance (w : LockWorld) : Decidable (NoneRobbed w) := inferInstanceAs (Decidable (_ = _))

theorem job_has_not_one_owner :
    (¬ ∀ actions, replicas.Along (fun s => OneHolder s.world) replicas.initial actions) ∧
      ¬ ∀ actions, replicas.Along (fun s => NoneRobbed s.world) replicas.initial actions := by
  constructor
  · intro h
    have hlast := (h bothFallBack).after (by decide +kernel)
    have hsame := hlast (str "job:expiry") 0 1 (by decide +kernel) (by decide +kernel)
    exact absurd hsame (by decide)
  · intro h
    have hlast := (h releasedLate).after (by decide +kernel)
    exact absurd hlast (by decide +kernel)

end ExamVan.Redis
