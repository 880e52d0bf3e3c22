import LabTether.AgentLifecycle

/-!
What one step inside a lifecycle section can do, and the ledger of cleanups it keeps. A
cleanup is held by the registry from the step that makes its connection visible until the
connection is removed, then by the goroutine that removed it, and then it is finished.
-/
namespace LabTether.AgentLifecycle

open Function After

section

def Call.cleanup : Call → Bool
  | .register _ cleanup => cleanup
  | _ => false

/-- The cleanup that a goroutine has taken over. -/
def Stage.token : Stage → Option ℕ
  | .closing _ cleanup _ => cleanup
  | .cleaning c _ => some c
  | _ => none

def Stage.running : Stage → Option ℕ
  | .cleaning c _ => some c
  | _ => none

/-- The goroutine may still publish its connection. -/
def Stage.pending : Stage → Bool
  | .check => true
  | .remove _ .publish => true
  | .closing _ _ .publish => true
  | .cleaning _ .publish => true
  | .publish => true
  | _ => false

/-- What a goroutine inside the section knows of the registered connection. -/
def Stage.Sound (call : Call) (now : Option Conn) : Stage → Prop
  | .remove expectedConn next => next = .publish → expectedConn = none
  | .closing _ _ _ => now = none
  | .cleaning _ _ => now = none
  | .publish => now = none
  | .ready => ∃ conn, call = .dispatch conn ∧ now = some conn
  | .handling => ∃ conn, call = .dispatch conn ∧ now = some conn
  | .handled => ∃ conn, call = .dispatch conn ∧ now = some conn
  | _ => True

/-- Stages that hold nothing and know nothing. -/
def Stage.Idle (call : Call) (s : Stage) : Prop :=
  s = call.first ∨ s = .release ∨ s = .finished

variable {call : Call} {now : Option Conn} {s : Stage}

theorem After.sound (next : After) (h : next = .publish → now = none) :
    next.stage.Sound call now := by
  cases next with
  | publish => exact h rfl
  | release => trivial

theorem After.token_stage (next : After) : next.stage.token = none := by
  cases next <;> rfl

theorem After.running_stage (next : After) : next.stage.running = none := by
  cases next <;> rfl

theorem Stage.running_of_token (h : s.token = none) : s.running = none := by
  cases s <;> simp_all [Stage.token, Stage.running]

theorem Stage.token_of_running {c : ℕ} (h : s.running = some c) : s.token = some c := by
  cases s <;> simp_all [Stage.token, Stage.running]

theorem Stage.Idle.token (h : s.Idle call) : s.token = none := by
  rcases h with rfl | rfl | rfl
  · cases call <;> rfl
  all_goals rfl

theorem Stage.Idle.sound (h : s.Idle call) : s.Sound call now := by
  rcases h with rfl | rfl | rfl
  · cases call with
    | register conn cleanup | dispatch conn => trivial
    | unregister a expectedConn => intro hh; cases hh
  all_goals trivial

end

section

/-- What a step inside the section of an asset can do. -/
inductive Move (t : ℕ) (call : Call) (r : Registry) (s : Stage) : Registry → Stage → Prop
  | quiet {r' : Registry} {s' : Stage} (held : s.token = none) (holds : s'.token = none)
      (pending : s'.pending → s.pending) (conns : r'.conns = r.conns)
      (cleanups : r'.disconnectCleanups = r.disconnectCleanups)
      (log : r'.log = r.log ∨ r'.log = r.log ++ [.handleStarted t] ∨
        r'.log = r.log ++ [.handleFinished t]) : Move t call r s r' s'
  | removed {next : After} {conn : Conn} (held : s.token = none)
      (pending : next = .publish → s.pending) (registered : r.conns call.asset = some conn) :
      Move t call r s { r with
          conns := update r.conns call.asset none
          disconnectCleanups := update r.disconnectCleanups call.asset none }
        (.closing conn (r.disconnectCleanups call.asset).join next)
  | started {next : After} {conn : Conn} {c : ℕ} (stage : s = .closing conn (some c) next) :
      Move t call r s { r with
          closed := update r.closed conn true, log := r.log ++ [.cleanupStarted c] }
        (.cleaning c next)
  | finished {next : After} {c : ℕ} (stage : s = .cleaning c next) :
      Move t call r s { r with log := r.log ++ [.cleanupFinished c] } next.stage
  | published {conn : Conn} {cleanup : Bool} (stage : s = .publish)
      (called : call = .register conn cleanup) :
      Move t call r s { r with
          conns := update r.conns conn.assetID (some conn)
          disconnectCleanups := update r.disconnectCleanups conn.assetID
            (some (if cleanup then some t else none))
          log := r.log ++ [.visible t] } .publishing

variable {t : ℕ} {call : Call} {r : Registry} {s : Stage} {s' : Stage}

theorem Move.still (held : s.token = none) (holds : s'.token = none)
    (pending : s'.pending → s.pending) : Move t call r s r s' :=
  .quiet held holds pending rfl rfl (.inl rfl)

variable {expectedConn : Option Conn} {next : After}

theorem removeConn_move :
    Move t call r (.remove expectedConn next) (removeConn call.asset expectedConn next r).1
      (removeConn call.asset expectedConn next r).2 := by
  have hstill : Move t call r (.remove expectedConn next) r next.stage := by
    refine .still rfl next.token_stage ?_
    cases next <;> simp [stage, Stage.pending]
  unfold removeConn
  rcases hc : r.conns call.asset with _ | conn
  · exact hstill
  dsimp only
  split
  · refine .removed rfl ?_ hc
    rintro rfl
    rfl
  · exact hstill

theorem inSection_move :
    Move t call r s (inSection t call r s).1 (inSection t call r s).2 := by
  fun_cases inSection t call r s
  case case4 => exact removeConn_move
  case case5 next _ =>
    refine .quiet rfl next.token_stage ?_ rfl rfl (.inl rfl)
    cases next <;> exact fun h => h
  case case6 => exact .started rfl
  case case7 => exact .finished rfl
  case case8 => exact .published rfl rfl
  all_goals try split
  all_goals try first | exact .still rfl rfl fun _ => rfl | exact .still rfl rfl fun h => h
  · exact .quiet rfl rfl (fun h => h) rfl rfl (.inr (.inl rfl))
  · exact .quiet rfl rfl (fun h => h) rfl rfl (.inr (.inr rfl))

theorem removeConn_sound (h : next = .publish → expectedConn = none) :
    (removeConn call.asset expectedConn next r).2.Sound call
      ((removeConn call.asset expectedConn next r).1.conns call.asset) := by
  unfold removeConn
  rcases hc : r.conns call.asset with _ | conn
  · exact sound next fun _ => hc
  dsimp only
  split
  · exact update_self _ _ _
  · rename_i hne
    refine sound next fun hp => ?_
    exact absurd (.inl (h hp)) hne

theorem inSection_sound (h : s.Sound call (r.conns call.asset)) :
    (inSection t call r s).2.Sound call ((inSection t call r s).1.conns call.asset) := by
  fun_cases inSection t call r s
  case case4 => exact removeConn_sound h
  case case5 next _ => exact sound next fun _ => h
  case case7 next => exact sound next fun _ => h
  all_goals try split
  all_goals try first | exact h | trivial | exact fun _ => rfl
  · rename_i hc
    exact ⟨_, rfl, hc⟩
  all_goals nofun

theorem Move.conns_of_ne {r' : Registry} (h : Move t call r s r' s') {a : String}
    (ha : a ≠ call.asset) : r'.conns a = r.conns a := by
  cases h with
  | quiet _ _ _ conns => rw [conns]
  | removed => exact update_of_ne ha _ _
  | started | finished => rfl
  | published _ called =>
    subst called
    exact update_of_ne ha _ _

end

end LabTether.AgentLifecycle
