import AbilityLite.Slite.Manager

/-
  `AbilityRecordManager` as built with `_MINI_MULTI_TASKS_`: a stack of abilities,
  each with a thread of its own while it runs. A start or a terminate sends the top
  ability to the background; its replies drive the rest of the switch, and
  `pendingToken` names the ability to create once the old top is destroyed.
-/

namespace AbilityLite.Slite.MultiTasks
open Manager

/-- `SchedulerLifecycle`. -/
def schedulerLifecycle (env : Env) (m : Manager) (token : UInt16) (state : SliteAbilityState) :
    ErrCode × Manager :=
  match m.abilityList.get token with
  | none => (paramNullError, m)
  | some r => m.sendMsgToAbilityThread env state r

/-- `GenerateToken`: post-increment, starting over at `UINT16_MAX - 1`. -/
def generateToken (m : Manager) : UInt16 × Manager :=
  let token := if m.nextToken = 0xFFFE then launcherToken else m.nextToken
  (token, { m with nextToken := token + 1 })

/-- `NeedToBeTerminated`. -/
def needToBeTerminated (env : Env) (bundleName : CString) : Bool :=
  env.bms.isTemporaryBundleName bundleName

/-- Mark the top for termination when its bundle is a temporary one. -/
def markTop (env : Env) (m : Manager) (topRecord : AbilityRecord) : Manager :=
  if needToBeTerminated env topRecord.appName then
    m.modify topRecord.token fun r => { r with isTerminated := true }
  else m

/-! ## Starting -/

/-- `CreateAppTask` for a record object that is in the list (`listed`) or not. The
result of the send is dropped. -/
def createAppTask (env : Env) (m : Manager) (r : AbilityRecord) (listed : Bool) :
    ErrCode × Manager :=
  let ret := env.initAbilityThread r.token
  if ret ≠ errOk then
    (ret, if listed then m.modify r.token fun r => { r with abilityThread := none } else m)
  else
    let m := if listed then m.modify r.token (started env) else m
    (errOk, (schedulerLifecycle env m r.token .initial).2)

/-- The record `PreCheckStartAbility` makes for an application. -/
def newRecord (info : AbilitySvcInfo) (bundleName : CString) (token : UInt16)
    (mission : UInt32) : AbilityRecord :=
  { ({ appName := bundleName, appPath := strdup info.path, token := token } :
      AbilityRecord).setWantData info.data info.dataLength with
    state := .stop
    isNativeApp := info.isNativeApp
    mission := mission }

/-- `PreCheckStartAbility`. -/
def preCheckStartAbility (cfg : Config) (env : Env) (m : Manager) (info : AbilitySvcInfo)
    (bundleName : CString) : ErrCode × Manager :=
  if info.path.isNone && !info.isNativeApp then (paramNullError, m)
  else
    match m.abilityList.getByName bundleName with
    | some curRecord =>
      if curRecord.state ≠ .stop then
        -- `record` is null here, and without a pending token it is created and erased
        if m.pendingToken = 0 then (createApptaskError, m.crash) else (errOk, m)
      else
        -- update ability stack and move the ability to the top of ability stack
        (errOk, { m.moveToTop cfg curRecord.token with pendingToken := curRecord.token })
    | none =>
      let (token, m) := if m.pendingToken ≠ 0 then (m.pendingToken, m) else generateToken m
      let (mission, m) :=
        if info.mission = uint32Max then m.generateMission else (info.mission, m)
      let record := newRecord info bundleName token mission
      let listed := m.takes cfg token
      let m := m.add cfg record
      if m.pendingToken = 0 then
        let (ret, m) := createAppTask env m record listed
        if ret ≠ errOk then (createApptaskError, m.erase token) else (errOk, m)
      else (errOk, m)

/-- `StartAbility(AbilitySvcInfo *)`. -/
def startAbilityInfo (cfg : Config) (env : Env) (m : Manager) (info : AbilitySvcInfo) :
    ErrCode × Manager :=
  match info.bundleName with
  | none => (paramNullError, { m with isAppScheduling := false })
  | some bundleName =>
    if bundleName.bytes.length = 0 then (paramNullError, { m with isAppScheduling := false })
    else
      match m.getTopAbility with
      | none =>
        if bundleName ≠ env.bms.getStartupBundleName then (paramCheckError, m)
        -- start launcher when boot
        else preCheckStartAbility cfg env m info bundleName
      | some topRecord =>
        if !info.isNativeApp && !checkResponse env bundleName then (paramCheckError, m)
        -- start topAbility
        else if bundleName = topRecord.appName then
          if topRecord.state = .stop then (errOk, (createAppTask env m topRecord true).2)
          else (errOk, { m with isAppScheduling := false })
        else
          -- the topAbility needs to be transferred to background
          let m := markTop env m topRecord
          let m := (m.sendMsgToAbilityThread env .background topRecord).2
          let (token, m) := generateToken m
          preCheckStartAbility cfg env { m with pendingToken := token } info bundleName

/-- A start hands its data and its mission, if it asks for one, to the listed record. -/
def updateWant (want : Want) (r : AbilityRecord) : AbilityRecord :=
  let r := r.setWantData want.data want.dataLength
  if want.mission ≠ uint32Max then { r with mission := want.mission } else r

/-- `StartAbility(const Want *)`. -/
def startAbility (cfg : Config) (env : Env) (m : Manager) (want : Option Want) :
    ErrCode × Manager :=
  if m.isAppScheduling then m.addAbilityOperation env .startAbility want 0
  else
    let m := { m with isAppScheduling := true }
    match want with
    | none => (paramNullError, { m with isAppScheduling := false })
    | some want =>
      match want.element with
      | none => (paramNullError, { m with isAppScheduling := false })
      | some element =>
        match element.bundleName with
        | none => (paramNullError, { m with isAppScheduling := false })
        | some bundleName =>
          if cfg.dmsEnabled && element.deviceId.any (·.bytes ≠ []) then
            startRemoteAbility cfg env { m with isAppScheduling := false } want
          else
            match m.abilityList.getByName bundleName, m.getTopAbility with
            | some abilityRecord, some topRecord =>
              if topRecord.token = abilityRecord.token then
                (errOk, { m with isAppScheduling := false })
              else if !abilityRecord.isNativeApp && !checkResponse env bundleName then
                (paramCheckError, { m with isAppScheduling := false })
              else
                let m := m.modify abilityRecord.token (updateWant want)
                let m := m.moveToTop cfg abilityRecord.token
                let m := markTop env m topRecord
                m.sendMsgToAbilityThread env .background topRecord
            | _, _ =>
              match queryAbilitySvcInfo cfg env bundleName want with
              | .error _ => (paramCheckError, { m with isAppScheduling := false })
              | .ok info =>
                startAbilityInfo cfg env m
                  { info with
                    data := memdup want.data want.dataLength
                    dataLength := want.dataLength
                    mission := want.mission }

/-- The want `StartAbility(const AbilityRecord *)` makes of a record. Its mission is
never set. -/
def recordWant (env : Env) (r : AbilityRecord) : Want :=
  let d := r.abilityData.getD {}
  { element := some { bundleName := some r.appName }
    data := memdup d.wantData d.wantDataSize
    dataLength := d.wantDataSize
    appPath := strdup r.appPath
    mission := env.heapMission }

/-- `StartAbility(const AbilityRecord *)`. A record without ability data is a null
dereference. -/
def startAbilityRecord (cfg : Config) (env : Env) (m : Manager) (r : AbilityRecord) :
    ErrCode × Manager :=
  if r.abilityData.isNone then (errOk, m.crash)
  else startAbility cfg env m (some (recordWant env r))

/-! ## Terminating -/

/-- The data of a want replaces a record's own, which is freed either way. -/
def handWant (want : Want) (r : AbilityRecord) : AbilityRecord :=
  let r := { r with abilityData := r.abilityData.map fun d => { d with wantData := none } }
  if want.data.isSome then r.setWantData want.data want.dataLength else r

/-- A terminate with a want hands it to the new top. -/
def handToNewTop (m : Manager) (newTopToken : UInt16) (want : Option Want) : Manager :=
  match want with
  | none => m
  | some want => m.modify newTopToken (handWant want)

/-- `TerminateAbility(uint16_t, const Want *)`. -/
def terminateAbilityWant (cfg : Config) (env : Env) (m : Manager) (token : UInt16)
    (want : Option Want) : ErrCode × Manager :=
  match m.getTopAbility with
  | none => (paramNullError, { m with isAppScheduling := false })
  | some topRecord =>
    -- 1. only launcher in the ability stack
    if m.abilityList.length = 1 ∧ AbilityList.isPermanentAbility topRecord then
      (errOk, { m with isAppScheduling := false })
    -- 2. terminate non-top ability
    else if token ≠ topRecord.token then
      match m.abilityList.get token with
      | none => (paramCheckError, { m with isAppScheduling := false })
      | some abilityRecord =>
        if AbilityList.isPermanentAbility abilityRecord then
          (paramCheckError, { m with isAppScheduling := false })
        else (errOk, { m.deleteRecordInfo token with isAppScheduling := false })
    else
      -- 3. terminate top ability
      let m := { m with abilityList := m.abilityList.popAbility }
      match m.getTopAbility with
      | none => (paramNullError, { m with isAppScheduling := false })
      | some newTopRecord =>
        let m :=
          if AbilityList.isPermanentAbility topRecord then
            -- launcher will not pop ability stack
            ({ m with abilityList := m.abilityList.popAbility }.add cfg topRecord).add cfg newTopRecord
          else m.add cfg { topRecord with isTerminated := true }
        let m := handToNewTop m newTopRecord.token want
        -- TerminateAbility top js
        { m with pendingToken := newTopRecord.token }.sendMsgToAbilityThread env .background
          topRecord

/-- `TerminateAbility(uint16_t)`. -/
def terminateAbility (cfg : Config) (env : Env) (m : Manager) (token : UInt16) :
    ErrCode × Manager :=
  if m.isAppScheduling then m.addAbilityOperation env .terminateAbility none token.toUInt64
  else terminateAbilityWant cfg env { m with isAppScheduling := true } token none

/-- `TerminateMission`: the loop over the tokens collected for the mission. -/
def terminateEach (cfg : Config) (env : Env) (topToken : UInt16) (m : Manager)
    (tokens : List UInt16) : Manager :=
  tokens.foldl (fun m token =>
    if token ≠ topToken then (terminateAbility cfg env m token).2 else m) m

/-- `TerminateMission`. -/
def terminateMission (cfg : Config) (env : Env) (m : Manager) (mission : UInt32) :
    ErrCode × Manager :=
  if m.isAppScheduling then m.addAbilityOperation env .terminateMission none mission.toUInt64
  else
    match m.getTopAbility with
    | none => (paramNullError, m)
    | some topRecord =>
      (errOk, terminateEach cfg env topRecord.token m (m.abilityList.getAbilityList mission))

/-- `ForceStop`. -/
def forceStop (cfg : Config) (env : Env) (m : Manager) (want : Option Want) :
    ErrCode × Manager :=
  if m.isAppScheduling then m.addAbilityOperation env .terminateAppByBundleName want 0
  else
    let m := { m with isAppScheduling := true }
    match (want.bind (·.element)).bind (·.bundleName) with
    | none => (paramNullError, { m with isAppScheduling := false })
    | some bundleName =>
      -- stop app
      match m.abilityList.getByName bundleName with
      | none => (paramCheckError, { m with isAppScheduling := false })
      | some terminateRecord => terminateAbilityWant cfg env m terminateRecord.token want

/-! ## Lifecycle replies -/

/-- `OnCreateDone`. -/
def onCreateDone (env : Env) (m : Manager) (token : UInt16) : Manager :=
  (schedulerLifecycle env (m.setAbilityStateAndNotify token .inited) token .foreground).2

/-- `OnForegroundDone`. -/
def onForegroundDone (m : Manager) (token : UInt16) : Manager :=
  m.setAbilityStateAndNotify token .foreground

/-- `OnBackgroundDone`. -/
def onBackgroundDone (env : Env) (m : Manager) (token : UInt16) : Manager :=
  let m := m.setAbilityStateAndNotify token .background
  match m.abilityList.get token with
  | none => m
  | some r =>
    let savedData :=
      if !r.isTerminated && r.abilitySavedData.isNone then some {}
      else r.abilitySavedData.map AbilitySavedData.reset
    let m := m.modify token fun r => { r with abilitySavedData := savedData }
    (m.sendMsgToAbilityThread env .uninitialized { r with abilitySavedData := savedData }).2

/-- `OnDestroyDone`. -/
def onDestroyDone (cfg : Config) (env : Env) (m : Manager) (token : UInt16) : Manager :=
  let m := m.setAbilityStateAndNotify token .stop
  match m.abilityList.get token with
  | none => m
  | some onDestroyRecord =>
    let m :=
      -- 1. ability is terminated and pop out ability stack
      if onDestroyRecord.isTerminated then m.deleteRecordInfo token
      -- 2. ability is transferred to SCHEDULE_STOP state and still keep in the ability stack
      else m.deleteAbilityThread onDestroyRecord
    -- start pending token
    if m.pendingToken ≠ 0 then
      match m.abilityList.get m.pendingToken with
      | none => m
      | some record =>
        let (ret, m) := createAppTask env m record true
        if ret ≠ errOk then
          let m := m.erase m.pendingToken
          match m.getTopAbility with
          | none => m
          | some topRecord =>
            { (startAbilityRecord cfg env { m with isAppScheduling := false } topRecord).2 with
              pendingToken := 0 }
        else { m with pendingToken := 0 }
    else
      -- start top ability
      match m.getTopAbility with
      | none => m.crash
      | some topAbilityRecord =>
        let (ret, m) := createAppTask env m topAbilityRecord true
        if ret ≠ errOk then { m.erase topAbilityRecord.token with isAppScheduling := false } else m

/-- `ForceStopBundle`. -/
def forceStopBundle (cfg : Config) (env : Env) (m : Manager) (token : UInt16) :
    ErrCode × Manager :=
  if m.isAppScheduling then m.addAbilityOperation env .terminateApp none token.toUInt64
  else
    let m := { m with isAppScheduling := true }
    match m.getTopAbility with
    | none => (errOk, m.crash)
    | some topRecord =>
      if topRecord.token ≠ token then terminateAbilityWant cfg env m token none
      else
        let m := m.modify token fun r => { r with isTerminated := true }
        (errOk, onDestroyDone cfg env m token)

def operations (cfg : Config) : Operations where
  startAbility := startAbility cfg
  terminateAbility := terminateAbility cfg
  terminateMission := terminateMission cfg
  forceStopBundle := forceStopBundle cfg
  forceStop := forceStop cfg
  terminateAll := terminateAll

/-! ## Boot -/

/-- The want of the launcher's start. Its mission is never set. -/
def launcherWant (env : Env) : Want :=
  { element := some { bundleName := some env.bms.getStartupBundleName }, mission := env.heapMission }

/-- `StartLauncher`. -/
def startLauncher (cfg : Config) (env : Env) (m : Manager) : Manager :=
  if (m.abilityList.get launcherToken).isSome then m
  else (startAbility cfg env m (some (launcherWant env))).2

end AbilityLite.Slite.MultiTasks
