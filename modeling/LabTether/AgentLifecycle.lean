import LabTether.KeyedLock
import LabTether.Transition

/-!
Agent connections and their lifecycle sections (`internal/agentmgr/lifecycle.go`,
`internal/agentmgr/manager.go`). Any number of goroutines register, unregister and dispatch;
each critical section, each close and each begin and end of a callback is one step, and the
steps of the goroutines come in any order. A socket may close at any time. A cleanup is named by
the goroutine that registered it. Callbacks do not call back into the manager for their own
asset, as the source asks of them, and they return.
-/
namespace LabTether.AgentLifecycle

open KeyedLock Function

structure Conn where
  id : ℕ
  assetID : String
deriving DecidableEq

inductive Call
  | register (conn : Conn) (cleanup : Bool)
  | unregister (assetID : String) (expectedConn : Option Conn)
  | dispatch (conn : Conn)

def Call.asset : Call → String
  | .register conn _ => conn.assetID
  | .unregister assetID _ => assetID
  | .dispatch conn => conn.assetID

inductive After
  | publish
  | release
deriving DecidableEq

inductive Stage
  | check
  | remove (expectedConn : Option Conn) (next : After)
  | closing (conn : Conn) (cleanup : Option ℕ) (next : After)
  | cleaning (cleanup : ℕ) (next : After)
  | publish
  | publishing
  | ready
  | handling
  | handled
  | release
  | finished
deriving DecidableEq

def After.stage : After → Stage
  | .publish => .publish
  | .release => .release

def Call.first : Call → Stage
  | .register _ _ => .check
  | .unregister _ expectedConn => .remove expectedConn .release
  | .dispatch _ => .check

structure Goroutine where
  call : Call
  place : Place
  stage : Stage

inductive Event
  | visible (goroutine : ℕ)
  | cleanupStarted (goroutine : ℕ)
  | cleanupFinished (goroutine : ℕ)
  | handleStarted (goroutine : ℕ)
  | handleFinished (goroutine : ℕ)
deriving DecidableEq

/-- The registry: connections and cleanups by asset, which sockets are closed, and what ran. -/
structure Registry where
  conns : String → Option Conn
  disconnectCleanups : String → Option (Option ℕ)
  closed : Conn → Bool
  log : List Event

structure Manager where
  locks : Locks String
  registry : Registry
  goroutines : List Goroutine

def Manager.start : Manager :=
  ⟨.empty, ⟨fun _ => none, fun _ => none, fun _ => false, []⟩, []⟩

/-- The critical section of `unregisterInLifecycle`: the connection and its cleanup leave the
maps together. -/
def removeConn (a : String) (expectedConn : Option Conn) (next : After) (r : Registry) :
    Registry × Stage :=
  match r.conns a with
  | none => (r, next.stage)
  | some conn =>
    if expectedConn = none ∨ expectedConn = some conn then
      ({ r with
        conns := update r.conns a none
        disconnectCleanups := update r.disconnectCleanups a none },
        .closing conn (r.disconnectCleanups a).join next)
    else (r, next.stage)

/-- One step of goroutine `t` inside the section of its asset. -/
def inSection (t : ℕ) (call : Call) (r : Registry) : Stage → Registry × Stage
  | .check =>
    match call with
    | .register conn _ =>
      (r, if r.conns call.asset = some conn then .release else .remove none .publish)
    | .dispatch conn => (r, if r.conns call.asset = some conn then .ready else .release)
    | .unregister _ _ => (r, .release)
  | .remove expectedConn next => removeConn call.asset expectedConn next r
  | .closing conn cleanup next =>
    let r := { r with closed := update r.closed conn true }
    match cleanup with
    | none => (r, next.stage)
    | some c => ({ r with log := r.log ++ [.cleanupStarted c] }, .cleaning c next)
  | .cleaning c next => ({ r with log := r.log ++ [.cleanupFinished c] }, next.stage)
  | .publish =>
    match call with
    | .register conn cleanup =>
      ({ r with
        conns := update r.conns conn.assetID (some conn)
        disconnectCleanups := update r.disconnectCleanups conn.assetID
          (some (if cleanup then some t else none))
        log := r.log ++ [.visible t] }, .publishing)
    | _ => (r, .release)
  | .publishing => (r, .release)
  | .ready =>
    match call with
    | .dispatch conn =>
      if r.closed conn then (r, .remove (some conn) .release)
      else ({ r with log := r.log ++ [.handleStarted t] }, .handling)
    | _ => (r, .release)
  | .handling => ({ r with log := r.log ++ [.handleFinished t] }, .handled)
  | .handled =>
    match call with
    | .dispatch conn => (r, if r.closed conn then .remove (some conn) .release else .release)
    | _ => (r, .release)
  | .release => (r, .release)
  | .finished => (r, .finished)

def advance (m : Manager) (t : ℕ) (g : Goroutine) : Manager :=
  match g.place with
  | .out =>
    if g.stage = .finished then m
    else
      { m with
        locks := (enter g.call.asset m.locks).2
        goroutines := m.goroutines.set t
          { g with place := .waiting (enter g.call.asset m.locks).1 } }
  | .waiting e =>
    match lock e m.locks with
    | none => m
    | some locks =>
      { m with locks := locks, goroutines := m.goroutines.set t { g with place := .inside e } }
  | .inside e =>
    if g.stage = .release then
      { m with
        locks := unlock e m.locks
        goroutines := m.goroutines.set t { g with place := .leaving e } }
    else
      { m with
        registry := (inSection t g.call m.registry g.stage).1
        goroutines := m.goroutines.set t
          { g with stage := (inSection t g.call m.registry g.stage).2 } }
  | .leaving e =>
    { m with
      locks := leave g.call.asset e m.locks
      goroutines := m.goroutines.set t { g with place := .out, stage := .finished } }

inductive Op
  | start (call : Call)
  | advance (goroutine : ℕ)
  | close (conn : Conn)

def step (m : Manager) : Op → Manager
  | .start call => { m with goroutines := m.goroutines ++ [⟨call, .out, call.first⟩] }
  | .advance t =>
    match m.goroutines[t]? with
    | none => m
    | some g => advance m t g
  | .close conn =>
    { m with registry :=
      { m.registry with closed := update m.registry.closed conn true } }

end LabTether.AgentLifecycle
