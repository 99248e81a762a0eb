import Mathlib.Init

/-!
# The process-wide connection pool

`with_global_pg` runs its function only if a database is configured and one of two attempts to
acquire a live connection succeeds. Its callers cannot tell the two ways it may fail apart.
-/

namespace ExamVan.Db

/-- What `with_global_pg` meets: a configured URL, and a live connection at either attempt. -/
structure PoolOutcome where
  configured : Bool := true
  acquire : Bool := true
  acquireAgain : Bool := true
  deriving DecidableEq

def PoolOutcome.reached (o : PoolOutcome) : Bool :=
  o.configured && (o.acquire || o.acquireAgain)

def withGlobalPg {σ : Type*} (o : PoolOutcome) (fn : σ → σ) (s : σ) : Bool × σ :=
  if !o.configured then (false, s)
  else if !o.acquire then
    if !o.acquireAgain then (false, s) else (true, fn s)
  else (true, fn s)

theorem withGlobalPg_eq {σ : Type*} (o : PoolOutcome) (fn : σ → σ) (s : σ) :
    withGlobalPg o fn s = (o.reached, if o.reached then fn s else s) := by
  unfold withGlobalPg PoolOutcome.reached
  cases o.configured <;> cases o.acquire <;> cases o.acquireAgain <;> rfl

end ExamVan.Db
