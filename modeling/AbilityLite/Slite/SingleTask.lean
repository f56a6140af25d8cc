import AbilityLite.Slite.Manager

/-
  `AbilityRecordManager` as built without `_MINI_MULTI_TASKS_`: one JS application
  at a time next to the native launcher, whose lifecycle callbacks the manager
  calls directly. The launcher's record has token 0 and stays listed; the JS
  application is on top of it while it exists.
-/

namespace AbilityLite.Slite.SingleTask
open Manager

/-! ## Lifecycle messages -/

/-- `SchedulerAbilityLifecycle` on the native launcher: its callback sets the
ability's state and reports it. Only two states are passed on. -/
def schedulerAbilityLifecycle (m : Manager) (want : Want) (state : SliteAbilityState) : Manager :=
  match state with
  | .foreground =>
    { m with
      nativeAbility := some .foreground
      sent := m.sent ++ [{ token := launcherToken, msgId := .foreground, want := some want }] }
  | .background =>
    { m with
      nativeAbility := some .background
      sent := m.sent ++ [{ token := launcherToken, msgId := .background }] }
  | _ => m

/-- The want `ScheduleLifecycleInner` passes to the native launcher. -/
def launcherWant (r : AbilityRecord) : Want :=
  let info : Want := { element := some { bundleName := strdup (some launcherBundleName) } }
  match r.abilityData with
  | some d => info.setWantData d.wantData d.wantDataSize
  | none => info.setWantData none 0

/-- `ScheduleLifecycleInner`. The result of a send to a JS application is dropped. -/
def scheduleLifecycleInner (env : Env) (m : Manager) (r : AbilityRecord)
    (state : SliteAbilityState) : ErrCode × Manager :=
  if r.token ≠ launcherToken then (errOk, (m.sendMsgToAbilityThread env state r).2)
  else if m.nativeAbility.isNone then (paramNullError, m)
  else (errOk, schedulerAbilityLifecycle m (launcherWant r) state)

/-- `SchedulerLifecycle`. -/
def schedulerLifecycle (env : Env) (m : Manager) (token : UInt16) (state : SliteAbilityState) :
    ErrCode × Manager :=
  match m.abilityList.get token with
  | none => (paramNullError, m)
  | some r => scheduleLifecycleInner env m r state

/-- `GenerateToken`: pre-increment, starting over before `UINT16_MAX`. -/
def generateToken (m : Manager) : UInt16 × Manager :=
  let token := (if m.nextToken = 0xFFFE then launcherToken else m.nextToken) + 1
  (token, { m with nextToken := token })

/-! ## Starting -/

/-- `CreateAppTask` for a record object that is in the list (`listed`) or not. A listed
record that adding it again deletes is used after its deletion. -/
def createAppTask (cfg : Config) (env : Env) (m : Manager) (r : AbilityRecord) (listed : Bool) :
    ErrCode × Manager :=
  let ret := env.initAbilityThread r.token
  if ret ≠ errOk then (ret, m)
  else
    let m := if listed then m.modify r.token (started env) else m
    let m := if listed && m.evicts cfg r.token then m.crash else m
    let m := m.add cfg (started env r)
    if m.nativeAbility.isSome then
      let (ret, m) := schedulerLifecycle env m launcherToken .background
      if ret ≠ errOk then (schedulerLifecycleError, m) else (errOk, m)
    else (errOk, (schedulerLifecycle env m r.token .initial).2)

/-- `UpdateRecord`. -/
def updateRecord (m : Manager) (info : AbilitySvcInfo) (bundleName : CString) : Manager :=
  match m.abilityList.getByName bundleName with
  | none => m
  | some r =>
    if r.token ≠ launcherToken then m
    else m.modify r.token fun r => r.setWantData info.data info.dataLength

/-- The record `PreCheckStartAbility` makes for an application. -/
def newRecord (env : Env) (info : AbilitySvcInfo) (bundleName : CString) (token : UInt16) :
    AbilityRecord :=
  ({ appName := bundleName
     appPath := strdup info.path
     isNativeApp := env.bms.isNativeApp bundleName
     state := .stop
     token := token } : AbilityRecord).setWantData info.data info.dataLength

/-- `PreCheckStartAbility`. -/
def preCheckStartAbility (cfg : Config) (env : Env) (m : Manager) (info : AbilitySvcInfo)
    (bundleName : CString) : ErrCode × Manager :=
  if info.path.isNone then (paramNullError, m)
  else
    match m.abilityList.getByName bundleName with
    | some curRecord =>
      if curRecord.state = .foreground then (errOk, m)
      else if curRecord.state = .background then
        (errOk, (schedulerLifecycle env m launcherToken .background).2)
      else (errOk, m)
    | none =>
      if m.pendingToken ≠ 0 then
        (errOk, { m with pendingRecord := some (newRecord env info bundleName m.pendingToken) })
      else
        let (token, m) := generateToken m
        let record := newRecord env info bundleName token
        let listed := m.takes cfg token
        let (ret, m) := createAppTask cfg env (m.add cfg record) record listed
        if ret ≠ errOk then
          -- the deleted record has a thread only if creating it went well
          let m := if env.initAbilityThread token = errOk then m.release token else m
          (createApptaskError, m.erase token)
        else (errOk, m)

/-- `TerminateAbility(uint16_t, const Want *)`. The want is not read in this build. -/
def terminateAbilityWant (env : Env) (m : Manager) (token : UInt16) : ErrCode × Manager :=
  match m.getTopAbility with
  | none => (paramNullError, { m with isAppScheduling := false })
  | some topRecord =>
    if token = launcherToken then
      -- if js is in background, the launcher goes back to background and js goes to active
      let m := { m with isAppScheduling := false }
      if topRecord.token ≠ token ∧ topRecord.state = .background then
        schedulerLifecycle env m launcherToken .background
      else (errOk, m)
    else if token ≠ topRecord.token then
      (-1, { m with isAppScheduling := false }.deleteRecordInfo token)
    else
      let m := m.modify topRecord.token fun r => { r with isTerminated := true }
      scheduleLifecycleInner env m { topRecord with isTerminated := true } .background

/-- `TerminateAbility(uint16_t)`. -/
def terminateAbility (env : Env) (m : Manager) (token : UInt16) : ErrCode × Manager :=
  if m.isAppScheduling then m.addAbilityOperation env .terminateAbility none token.toUInt64
  else terminateAbilityWant env { m with isAppScheduling := true } token

/-- `StartAbility(AbilitySvcInfo *)`. -/
def startAbilityInfo (cfg : Config) (env : Env) (m : Manager) (info : AbilitySvcInfo) :
    ErrCode × Manager :=
  match info.bundleName with
  | none => (paramNullError, { m with isAppScheduling := false })
  | some bundleName =>
    if bundleName.bytes.length = 0 then (paramNullError, { m with isAppScheduling := false })
    else
      match m.getTopAbility with
      | none => (paramNullError, { m with isAppScheduling := false })
      | some topRecord =>
        -- start launcher
        if isLauncher bundleName then
          let m := updateRecord m info bundleName
          if topRecord.token ≠ launcherToken ∧ topRecord.state ≠ .background then
            (errOk, (scheduleLifecycleInner env m topRecord .background).2)
          else (errOk, (schedulerLifecycle env m launcherToken .foreground).2)
        else if !info.isNativeApp && !checkResponse env bundleName then
          (paramCheckError, { m with isAppScheduling := false })
        -- start js app
        else if topRecord.state ≠ .stop ∧ topRecord.token ≠ launcherToken then
          if bundleName = topRecord.appName then
            if topRecord.state = .background then
              (errOk, (schedulerLifecycle env m launcherToken .background).2)
            else preCheckStartAbility cfg env m { info with isNativeApp := false } bundleName
          else
            -- js to js
            let m := (terminateAbility env m topRecord.token).2
            let (token, m) := generateToken m
            preCheckStartAbility cfg env { m with pendingToken := token }
              { info with isNativeApp := false } bundleName
        else preCheckStartAbility cfg env m { info with isNativeApp := false } bundleName

/-- `StartAbility(const Want *)`. -/
def startAbility (cfg : Config) (env : Env) (m : Manager) (want : Option Want) :
    ErrCode × Manager :=
  if m.isAppScheduling then m.addAbilityOperation env .startAbility want 0
  else
    let m := { m with isAppScheduling := true }
    match want with
    | none => (paramNullError, { m with isAppScheduling := false })
    | some want =>
      match want.element with
      | none => (paramNullError, { m with isAppScheduling := false })
      | some element =>
        match element.bundleName with
        | none => (paramNullError, { m with isAppScheduling := false })
        | some bundleName =>
          if cfg.dmsEnabled && element.deviceId.any (·.bytes ≠ []) then
            startRemoteAbility cfg env { m with isAppScheduling := false } want
          else
            match queryAbilitySvcInfo cfg env bundleName want with
            | .error _ => (paramCheckError, { m with isAppScheduling := false })
            | .ok info =>
              startAbilityInfo cfg env m
                { info with
                  data := memdup want.data want.dataLength
                  dataLength := want.dataLength
                  mission := want.mission }

/-! ## Terminating -/

/-- `TerminateMission`: the loop over the tokens collected for the mission. -/
def terminateEach (env : Env) (topToken : UInt16) (m : Manager) (tokens : List UInt16) : Manager :=
  tokens.foldl (fun m token =>
    if token ≠ topToken then (terminateAbility env m token).2 else m) m

/-- `TerminateMission`. -/
def terminateMission (env : Env) (m : Manager) (mission : UInt32) : ErrCode × Manager :=
  if m.isAppScheduling then m.addAbilityOperation env .terminateMission none mission.toUInt64
  else
    match m.getTopAbility with
    | none => (paramNullError, m)
    | some topRecord =>
      (errOk, terminateEach env topRecord.token m (m.abilityList.getAbilityList mission))

/-- `ForceStopBundle`. `ForceStopBundleInner` does nothing and succeeds. -/
def forceStopBundle (env : Env) (m : Manager) (token : UInt16) : ErrCode × Manager :=
  if m.isAppScheduling then m.addAbilityOperation env .terminateApp none token.toUInt64
  else
    let m := { m with isAppScheduling := true }
    if token = launcherToken then (errOk, { m with isAppScheduling := false })
    else
      -- active the launcher
      match m.abilityList.get launcherToken with
      | none => (paramNullError, m)
      | some launcherRecord =>
        if launcherRecord.state ≠ .foreground then
          schedulerLifecycle env m launcherToken .foreground
        else (errOk, m)

/-- `ForceStop`. -/
def forceStop (env : Env) (m : Manager) (want : Option Want) : ErrCode × Manager :=
  if m.isAppScheduling then m.addAbilityOperation env .terminateAppByBundleName want 0
  else
    let m := { m with isAppScheduling := true }
    match (want.bind (·.element)).bind (·.bundleName) with
    | none => (paramNullError, { m with isAppScheduling := false })
    | some bundleName =>
      -- stop Launcher
      if isLauncher bundleName then terminateAbilityWant env m 0
      else
        -- stop app
        match m.abilityList.getByName bundleName with
        | none => (paramCheckError, { m with isAppScheduling := false })
        | some terminateRecord => terminateAbilityWant env m terminateRecord.token

def operations (cfg : Config) : Operations where
  startAbility := startAbility cfg
  terminateAbility := terminateAbility
  terminateMission := terminateMission
  forceStopBundle := forceStopBundle
  forceStop := forceStop
  terminateAll := terminateAll

/-! ## Lifecycle replies -/

/-- `OnCreateDone`. -/
def onCreateDone (env : Env) (m : Manager) (token : UInt16) : Manager :=
  (schedulerLifecycle env (m.setAbilityStateAndNotify token .inited) token .foreground).2

/-- `OnBackgroundDone`. -/
def onBackgroundDone (env : Env) (m : Manager) (token : UInt16) : Manager :=
  let m := m.setAbilityStateAndNotify token .background
  match m.getTopAbility with
  | none => m
  | some topRecord =>
    -- the js background
    if token ≠ launcherToken then
      if topRecord.token = token then (schedulerLifecycle env m launcherToken .foreground).2 else m
    -- the launcher background
    else if topRecord.token ≠ launcherToken then
      let m :=
        if topRecord.state = .stop then (scheduleLifecycleInner env m topRecord .initial).2
        else (scheduleLifecycleInner env m topRecord .foreground).2
      if m.cleanAbilityDataFlag then
        match m.abilityList.get token with
        | none => m.crash
        | some _ =>
          { m.modify token fun r => r.setWantData none 0 with cleanAbilityDataFlag := false }
      else m
    else m

/-- `OnDestroyDone`. -/
def onDestroyDone (cfg : Config) (env : Env) (m : Manager) (token : UInt16) : Manager :=
  let m := m.setAbilityStateAndNotify token .stop
  -- the launcher destroy
  if token = launcherToken then m
  else if m.getTopAbility.any (·.token = token) then
    let m := m.deleteRecordInfo token
    -- no pending token
    if m.pendingToken = 0 then (schedulerLifecycle env m launcherToken .foreground).2
    else
      -- start pending token
      match m.pendingRecord with
      | none => m
      | some record =>
        let (ret, m) := createAppTask cfg env m record false
        let m :=
          if ret ≠ errOk then
            -- once its thread runs the record is listed, and deleting it leaves it listed
            let m := if env.initAbilityThread record.token = errOk then m.crash else m
            (schedulerLifecycle env m launcherToken .foreground).2
          else m
        { m with pendingToken := 0, pendingRecord := none }
  else m.deleteRecordInfo token

/-- `OnForegroundDone`. -/
def onForegroundDone (cfg : Config) (env : Env) (m : Manager) (token : UInt16) : Manager :=
  let m := m.setAbilityStateAndNotify token .foreground
  match m.getTopAbility with
  | none => m
  | some topRecord =>
    -- the launcher foreground
    if token = launcherToken then
      match m.nativeAbility with
      | none => m.crash
      | some nativeState =>
        if nativeState ≠ .foreground then m
        else if topRecord.token ≠ launcherToken then
          if topRecord.state = .foreground then onDestroyDone cfg env m topRecord.token
          else if topRecord.state ≠ .background then m.deleteRecordInfo topRecord.token
          else if topRecord.isTerminated then
            (scheduleLifecycleInner env m topRecord .uninitialized).2
          else m
        else m
    else m

/-! ## Boot -/

/-- The launcher's record as `StartLauncher` makes it. -/
def launcherRecord (taskId : Option Nat) : AbilityRecord :=
  { appName := launcherBundleName, token := launcherToken, isNativeApp := true
    state := .foreground, taskId := taskId }

/-- `StartLauncher`. -/
def startLauncher (cfg : Config) (env : Env) (taskId : Option Nat) (m : Manager) : Manager :=
  if (m.abilityList.get launcherToken).isSome then m
  else
    let r := launcherRecord taskId
    (scheduleLifecycleInner env (m.add cfg r) r .foreground).2

end AbilityLite.Slite.SingleTask
