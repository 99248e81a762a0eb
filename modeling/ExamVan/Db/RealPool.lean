import ExamVan.Lib.Protocol

/-!
# `RealPool`

A connection is idle in the pool, or a `PgConnPtr` of some caller owns it, or it has been closed. The
mutex is held only while the idle list is read and written: `PQconnectdb`, `PQstatus` and the
destructor of a pointer are steps of their own. `max_conns` is looked at when a connection comes
back, not when one is opened.
-/

namespace ExamVan.Db

/-- Connections in the order that they were opened in. -/
abbrev Conn := Nat

/-- `PQconnectdb` answers no object, or one that is connected or not. -/
inductive Connect
  | null
  | opened (ok : Bool)
  deriving DecidableEq

structure PoolWorld where
  maxConns : Int
  /-- how many connections have been opened -/
  opened : Nat := 0
  idle : List Conn := []
  closed : List Conn := []
  /-- `PQstatus(c) == CONNECTION_OK` -/
  ok : Conn → Bool := fun _ => false

inductive PoolOp
  /-- `acquire` under the mutex -/
  | takeIdle
  | connectdb (outcome : Connect)
  | status (c : Conn)
  | finish (c : Conn)
  /-- `release` under the mutex -/
  | putBack (c : Conn)
  /-- the server or the network ends a connection -/
  | breakConn (c : Conn)
  deriving DecidableEq

abbrev PoolAns : PoolOp → Type
  | .takeIdle | .connectdb _ => Option Conn
  | .status _ => Bool
  | .finish _ | .putBack _ | .breakConn _ => Unit

abbrev PoolProg := Prog PoolOp PoolAns

abbrev PoolOp.ask (o : PoolOp) : PoolProg (PoolAns o) := Prog.op o

def PoolOp.perform : (o : PoolOp) → PoolWorld → PoolAns o × PoolWorld
  | .takeIdle, w =>
      match w.idle.getLast? with
      | none => (none, w)
      | some c => (some c, { w with idle := w.idle.dropLast })
  | .connectdb .null, w => (none, w)
  | .connectdb (.opened ok), w =>
      (some w.opened,
        { w with opened := w.opened + 1, ok := Function.update w.ok w.opened ok })
  | .status c, w => (w.ok c, w)
  | .finish c, w => ((), { w with closed := w.closed ++ [c] })
  | .putBack c, w =>
      if (w.idle.length : Int) < w.maxConns then ((), { w with idle := w.idle ++ [c] })
      else ((), { w with closed := w.closed ++ [c] })
  | .breakConn c, w => ((), { w with ok := Function.update w.ok c false })

/-! ### The functions of the pool -/

def newConnection (outcome : Connect) : PoolProg (Option Conn) := PoolOp.ask (.connectdb outcome)

def acquire (outcome : Connect) : PoolProg (Option Conn) := do
  let idle : Option Conn ← PoolOp.ask .takeIdle
  match idle with
  | some c => return some c
  | none => newConnection outcome

def release (c : Conn) : PoolProg Unit := do
  let ok : Bool ← PoolOp.ask (.status c)
  if !ok then PoolOp.ask (.finish c) else PoolOp.ask (.putBack c)

/-- `RealPool::connect`. -/
def connect (outcome : Connect) : PoolProg Bool := do
  let opened : Option Conn ← newConnection outcome
  match opened with
  | none => return false
  | some c =>
      let ok : Bool ← PoolOp.ask (.status c)
      if !ok then
        let _ : Unit ← PoolOp.ask (.finish c)
        return false
      let _ : Unit ← PoolOp.ask (.putBack c)
      return true

/-! ### Callers -/

/-- What a caller may do. A pointer is named by its connection; one that does not own it any more is
null. -/
inductive CallOp
  | acquire (outcome : Connect)
  | connect (outcome : Connect)
  | isOk (c : Conn)
  /-- `release(c.release())` -/
  | release (c : Conn)
  /-- the pointer is assigned anew or goes out of scope -/
  | destroy (c : Conn)

abbrev CallAns : CallOp → Type
  | .acquire _ => Option Conn
  | .connect _ | .isOk _ => Bool
  | .release _ | .destroy _ => Unit

abbrev Caller := Prog CallOp CallAns

abbrev CallOp.ask (o : CallOp) : Caller (CallAns o) := Prog.op o

/-- The destructors at the end of a scope. -/
def finishAll : List Conn → PoolProg Unit
  | [] => pure ()
  | c :: rest => do
      let _ : Unit ← PoolOp.ask (.finish c)
      finishAll rest

/-- A caller whose pointers own `owned`. It returns early by being done. -/
def Caller.run : List Conn → Caller Unit → PoolProg Unit
  | owned, .done () => finishAll owned
  | owned, .call (.acquire outcome) next => do
      let c ← Db.acquire outcome
      run (c.toList ++ owned) (next c)
  | owned, .call (.connect outcome) next => do
      let ok ← Db.connect outcome
      run owned (next ok)
  | owned, .call (.isOk c) next =>
      if c ∈ owned then do
        let ok : Bool ← PoolOp.ask (.status c)
        run owned (next ok)
      else run owned (next false)
  | owned, .call (.release c) next =>
      if c ∈ owned then do
        Db.release c
        run (owned.erase c) (next ())
      else run owned (next ())
  | owned, .call (.destroy c) next =>
      if c ∈ owned then do
        let _ : Unit ← PoolOp.ask (.finish c)
        run (owned.erase c) (next ())
      else run owned (next ())

/-- A live connection, or the pointer that was acquired, as it is tested by all callers. -/
def acquireOk (outcome : Connect) : Caller (Option Conn × Bool) := do
  let c : Option Conn ← CallOp.ask (.acquire outcome)
  match c with
  | none => return (none, false)
  | some c =>
      let ok : Bool ← CallOp.ask (.isOk c)
      return (some c, ok)

def destroy : Option Conn → Caller Unit
  | none => pure ()
  | some c => CallOp.ask (.destroy c)

/-- `with_global_pg` with a configured pool. The second pointer is there before the first one is
destroyed. -/
def withGlobalPool (outcome outcomeAgain : Connect) (fn : Caller Unit) : Caller Bool := do
  let first ← acquireOk outcome
  match first with
  | (some c, true) => do
      fn
      let _ : Unit ← CallOp.ask (.release c)
      return true
  | (c, _) => do
      let second ← acquireOk outcomeAgain
      destroy c
      match second with
      | (some c, true) => do
          fn
          let _ : Unit ← CallOp.ask (.release c)
          return true
      | (c, _) => do
          destroy c
          return false

/-- A statement on a connection of its own, as the functions under `with_global_pg` send one. -/
def withConnection (outcome : Connect) (statements : Caller Unit) : Caller Unit := do
  let acquired ← acquireOk outcome
  match acquired with
  | (some c, true) => do
      statements
      CallOp.ask (.release c)
  | (c, _) => destroy c

/-- `drain_heartbeats_once` with Redis and a configured pool; `batches` may use the pool as well. -/
def drainHeartbeatsOnce (outcome : Connect) (batches : Caller Unit) : Caller Unit :=
  withConnection outcome batches

end ExamVan.Db
