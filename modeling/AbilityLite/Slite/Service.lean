import AbilityLite.Run
import AbilityLite.Slite.SingleTask
import AbilityLite.Slite.MultiTasks

/-
  `AbilityMgrServiceSlite`: the requests of the manager's queue, handled one at a
  time, and the system of the manager and the abilities that answer it.

  Correspondence (C++ ↔ Lean):
    `AmsCommand` and the data of a `Request`       ↔ `Request`
    `AbilityMgrServiceSlite::ServiceMessageHandle` ↔ `serviceMessageHandle`
    lifecycle messages queued for ability threads  ↔ `Manager.sent`
    `ABILITY_TRANSACTION_DONE` requests queued     ↔ `System.replies`
-/

namespace AbilityLite.Slite

/-- What `_MINI_MULTI_TASKS_` chooses between. -/
structure Build where
  operations : Operations
  onCreateDone : Env → Manager → UInt16 → Manager
  onForegroundDone : Env → Manager → UInt16 → Manager
  onBackgroundDone : Env → Manager → UInt16 → Manager
  onDestroyDone : Env → Manager → UInt16 → Manager

def singleTask (cfg : Config) : Build where
  operations := SingleTask.operations cfg
  onCreateDone := SingleTask.onCreateDone
  onForegroundDone := SingleTask.onForegroundDone cfg
  onBackgroundDone := SingleTask.onBackgroundDone
  onDestroyDone := SingleTask.onDestroyDone cfg

def multiTasks (cfg : Config) : Build where
  operations := MultiTasks.operations cfg
  onCreateDone := MultiTasks.onCreateDone
  onForegroundDone := fun _ => MultiTasks.onForegroundDone
  onBackgroundDone := MultiTasks.onBackgroundDone
  onDestroyDone := MultiTasks.onDestroyDone cfg

/-- `SchedulerLifecycleDone`. -/
def schedulerLifecycleDone (build : Build) (envs : Nat → Env) (m : Manager) (token : UInt16)
    (state : SliteAbilityState) : Manager :=
  match state with
  | .initial => build.onCreateDone (envs 0) m token
  | .foreground =>
    let m := build.onForegroundDone (envs 0) m token
    (build.operations.runOperation (fun i => envs (i + 1)) { m with isAppScheduling := false }).2
  | .background => build.onBackgroundDone (envs 0) m token
  | .uninitialized => build.onDestroyDone (envs 0) m token
  | .unknown => m

/-- Everything outside the manager works: each bundle has an ability with a script, and
each thread and queue is there. -/
def Env.working : Env where
  queryAbilityInfo want :=
    { bundleName := want.element.bind (·.bundleName), srcPath := some (cstr "/app/js") }

/-! ## Requests -/

structure StartAbilityData where
  want : Option Want
  curTask : Option Nat
  deriving DecidableEq, Repr

/-- The requests that run an operation, with the data or the `msgValue` they carry. -/
inductive Request where
  | startAbility (data : Option StartAbilityData)
  | terminateAbility (msgValue : UInt32)
  | terminateMission (msgValue : UInt32)
  | terminateApp (msgValue : UInt32)
  | terminateAppByBundleName (data : Option Want)
  | terminateAll (data : Option CString)
  deriving DecidableEq, Repr

/-- A start of the ability of a bundle. -/
def startOf (bundleName : CString) : Request :=
  .startAbility (some
    { want := some { element := some { bundleName := some bundleName } }, curTask := none })

section
variable (build : Build)

/-- The operation a request calls; `none` when its data is missing. -/
def Request.call (env : Env) (m : Manager) : Request → Option (ErrCode × Manager)
  | .startAbility data => data.map fun data =>
    build.operations.startAbility env { m with curTask := data.curTask } data.want
  | .terminateAbility msgValue => some (build.operations.terminateAbility env m msgValue.toUInt16)
  | .terminateMission msgValue => some (build.operations.terminateMission env m msgValue)
  | .terminateApp msgValue => some (build.operations.forceStopBundle env m msgValue.toUInt16)
  | .terminateAppByBundleName data => data.map fun data =>
    build.operations.forceStop env m (some data)
  | .terminateAll data => some (build.operations.terminateAll env m data)

/-- `ServiceMessageHandle` on a request that runs an operation. -/
def serviceMessageHandle (envs : Nat → Env) (m : Manager) (request : Request) : Bool × Manager :=
  match request.call build (envs 0) m with
  | none => (false, m)
  | some (ret, m) =>
    if ret ≠ errOk ∨ m.isAppScheduling = false then
      let (ret, m) := build.operations.runOperation (fun i => envs (i + 1))
        { m with isAppScheduling := false }
      (ret == errOk, m)
    else (ret == errOk, m)

/-! ## The manager and the abilities -/

/-- The manager and the replies queued for it, first in front. -/
structure System where
  manager : Manager
  replies : List (UInt16 × SliteAbilityState) := []
  deriving DecidableEq, Repr

/-- No lifecycle message and no reply is in flight. -/
def System.quiet (s : System) : Prop := s.manager.sent = [] ∧ s.replies = []

instance (s : System) : Decidable s.quiet := inferInstanceAs (Decidable (_ ∧ _))

/-- What can happen next. `envs i` answers the `i`-th operation the step runs.
- `request`: the manager handles a request.
- `answer i left`: the ability that the `i`-th message is for answers it; on a
  `DESTROY` that carries saved data it has left `left` in there.
- `reply`: the manager handles the first reply.
- `setCleanAbilityDataFlag`: the flag is set from outside. -/
inductive Event where
  | request (request : Request) (envs : Nat → Env)
  | answer (i : Nat) (left : AbilitySavedData)
  | reply (envs : Nat → Env)
  | setCleanAbilityDataFlag (flag : Bool)

/-- An ability leaves its state in the saved data of its record. -/
def leaveSavedData (m : Manager) (msg : SliteAbilityInnerMsg) (left : AbilitySavedData) : Manager :=
  if msg.msgId = .destroy ∧ msg.hasSavedData then
    m.modify msg.token fun r => { r with abilitySavedData := r.abilitySavedData.map fun _ => left }
  else m

/-- One step. The messages to one ability are answered in the order they were sent. -/
def System.next (s : System) : Event → Option System
  | .request request envs =>
    some { s with manager := (serviceMessageHandle build envs s.manager request).2 }
  | .answer i left =>
    match s.manager.sent[i]? with
    | none => none
    | some msg =>
      if (s.manager.sent.take i).any (·.token = msg.token) then none
      else
        some
          { manager := { leaveSavedData s.manager msg left with sent := s.manager.sent.eraseIdx i }
            replies := s.replies ++ [(msg.token, msg.msgId.requested)] }
  | .reply envs =>
    match s.replies with
    | [] => none
    | (token, state) :: replies =>
      some
        { manager := schedulerLifecycleDone build envs s.manager token state
          replies := replies }
  | .setCleanAbilityDataFlag flag =>
    some { s with manager := { s.manager with cleanAbilityDataFlag := flag } }

end

end AbilityLite.Slite
