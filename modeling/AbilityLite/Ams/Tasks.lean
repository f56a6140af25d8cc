import AbilityLite.Ams.StackManager

/-
  The tasks of AMS and the handler that runs them, one message at a time.

  Correspondence (C++ ↔ Lean):
    `AbilityStartTask`                        ↔ `startTask`, `startServiceTask`
    `AbilityActivateTask`, `AbilityInactivateTask`, `AbilityBackgroundTask`, `AbilityStopTask`
                                              ↔ `activateTask` … `stopTask`
    `AbilityTerminateTask`, `AppTerminateTask`, `AppRestartTask`, `AbilityAttachTask`
                                              ↔ `terminateTask` … `attachTask`
    `AbilityConnectTask` … `AbilityTerminateServiceTask`
                                              ↔ `connectTask` … `terminateServiceTask`
    `AbilityMsHelper::CheckVisiblePermission` ↔ `checkVisiblePermission`
    `AbilityWorker`, `AbilityMgrHandler`      ↔ the section on messages
-/

namespace AbilityLite.Ams
open AbilityMsStatus
namespace AbilityMgr

/-! ## Starting -/

def startServiceTask (gen : TokenGenerate) (env : Env) (want : Want) (target : AbilityInfo)
    (bundleInfo : BundleInfo) (waitConnect : Bool) (s : AbilityMgr) : Result :=
  match s.findServiceRecordByName target.bundleName target.name with
  | some _ => .ok (taskStatus "start" "service ability exists", s)
  | none => do
    let (t, s) := s.newPageAbility gen target want
    let s := s.modify t fun r =>
      if waitConnect then
        ((r.setBundleInfo bundleInfo).setStartDone false).setConnectStatus .waitConnect
      else (r.setBundleInfo bundleInfo).setStartDone true
    let (status, s) ← (s.pushServiceRecord t).startService gen env t
    if status.isProcessError ∨ status.isTransactError then do
      let s ← s.removeServiceRecord t
      .ok (status, s)
    else .ok (status, s)

/-- The page part of `AbilityStartTask::Execute`. The target is generated before it is known
whether the page on top gives way. -/
def startPageTask (gen : TokenGenerate) (env : Env) (want : Want) (target : AbilityInfo)
    (bundleInfo : BundleInfo) (s : AbilityMgr) : Result := do
  let topAbility := s.getTopPageAbility
  let (page, s) ← s.generatePageAbility gen target want topAbility
  match page with
  | none => .ok (taskStatus "start" "generate ability record failure", s)
  | some t =>
    if topAbility = some t then .ok (taskStatus "start" "generate ability record failure", s)
    else
      let s := s.modify t (·.setBundleInfo bundleInfo)
      match topAbility with
      | some top => do
        let (status, s) ← s.inactiveAbility env top
        if status.isOk then
          let s := s.modify top (·.setNextPageAbility (some t))
          .ok (status, s.modify t (·.setPrevPageAbility (some top)))
        else do
          let s ← s.removePageAbility t
          .ok (status, s)
      | none => do
        let (status, s) ← s.startAbility gen env t
        if status.isProcessError ∨ status.isTransactError then do
          let s ← s.removePageAbility t
          .ok (status, s)
        else .ok (status, s)

def startTask (gen : TokenGenerate) (env : Env) (want : Want) (target : AbilityInfo)
    (bundleInfo : BundleInfo) (waitConnect : Bool) (s : AbilityMgr) : Result :=
  if target.abilityType = .service then s.startServiceTask gen env want target bundleInfo waitConnect
  else s.startPageTask gen env want target bundleInfo

/-! ## Replies of the lifecycle -/

def activateTask (env : Env) (token : Token) (s : AbilityMgr) : Result :=
  match s.findPageAbility token with
  | none => .ok (taskStatus "activate" "ability record not found", s)
  | some t => do
    let r ← s.record t
    let s := s.modify t (·.setCurrentState .active)
    if r.abilityInfo.abilityType = .service then .ok (.ok, s)
    else match r.prevPageAbility with
      | some prev => do
        let (status, s) ← s.toBackgroundAbility env prev
        .ok (status, s.modify t (·.setPrevPageAbility none))
      | none =>
        match r.nextPageAbility with
        | some next => do
          let (status, s) ← s.stopAbility env next
          .ok (status, s.modify t (·.setNextPageAbility none))
        | none => .ok (.ok, s)

def inactivateTask (gen : TokenGenerate) (env : Env) (token : Token) (s : AbilityMgr) : Result :=
  match s.findPageAbility token with
  | none => .ok (taskStatus "inactivate" "ability record not found", s)
  | some t => do
    let r ← s.record t
    let s := s.modify t (·.setCurrentState .inactive)
    if r.abilityInfo.abilityType = .service then
      if r.connectStatus = .waitConnect then
        (s.modify t (·.setConnectStatus .connecting)).connectAbility env t
      else .ok (.ok, s)
    else match r.nextPageAbility with
      | some next => do
        let (status, s) ← s.startAbility gen env next
        .ok (status, s.modify t (·.setNextPageAbility none))
      | none => do
        -- No page waits for this one to give way: it goes back.
        let prevAbility ← s.getPrevPageAbility r t
        match prevAbility with
        | some prev => do
          let (status, s) ← s.activeAbility env prev
          .ok (status, s.modify prev (·.setNextPageAbility (some t)))
        | none => do
          let (_, s) ← s.stopAbility env t
          .ok (noActiveAbilityStatus "inactivate" "start launcher", s)

def backgroundTask (token : Token) (s : AbilityMgr) : Result :=
  match s.findPageAbility token with
  | none => .ok (taskStatus "background" "ability record not find", s)
  | some t => do
    let _ ← s.record t
    .ok (.ok, s.modify t (·.setCurrentState .background))

def stopTask (env : Env) (token : Token) (s : AbilityMgr) : Result :=
  match s.findPageAbility token with
  | none => .ok (taskStatus "stop" "ability record not found", s)
  | some t => do
    let r ← s.record t
    let s := s.modify t (·.setCurrentState .initial)
    if r.abilityInfo.abilityType = .service then
      if r.connectStatus = .stopped then .ok (taskStatus "stop" "service has stopped", s)
      else do
        let (status, s) ← s.stopAbilityDone env t
        let existsPage := s.existAppInStack r.abilityInfo.bundleName
        let count := s.countServiceInApp r.abilityInfo.bundleName
        let (status, s) ←
          if existsPage = false ∧ count = 1 then s.exitApp env t else .ok (status, s)
        let s ← s.removeServiceRecord token
        .ok (status, s)
    else do
      let bottom ← match r.missionRecord with
        | none => .ok none
        | some id => do
          let m ← s.mission id
          .ok m.getBottomPageAbility
      let (status, s) ←
        if bottom = some t ∧ s.countServiceInApp r.abilityInfo.bundleName = 0 then s.exitApp env t
        else .ok (.ok, s)
      let s ← s.removePageAbility t
      .ok (status, s)

/-! ## Terminating -/

def terminateTask (env : Env) (token : Token) (s : AbilityMgr) : Result :=
  match s.findPageAbility token with
  | none => .ok (taskStatus "ability terminate" "ability record not find", s)
  | some t => do
    let r ← s.record t
    if r.abilityInfo.abilityType = .service then s.forceStopServiceAbility env t
    else s.inactiveAbility env t

def appTerminateTask (env : Env) (bundleName : CString) (s : AbilityMgr) : Result := do
  let (status, s) ← s.terminateAppProcess env (some bundleName)
  if status.isOk then do
    let s ← s.clearAbilityStack env bundleName
    let s := s.removeAppRecordByName (some bundleName)
    match s.getTopPageAbility with
    | none => .ok (.ok, s)
    | some top => do
      let (_, s) ← s.activeAbility env top
      .ok (.ok, s)
  else .ok (status, s)

def appRestartTask (env : Env) (bundleInfo : BundleInfo) (s : AbilityMgr) : Result :=
  match bundleInfo.bundleName with
  | none => .ok (taskStatus "app terminate" "invalid argument", s)
  | some bundleName => do
    let s ← s.clearAbilityStack env bundleName
    let s := s.removeAppRecordByName (some bundleName)
    match s.getTopPageAbility with
    | none => .ok (noActiveAbilityStatus "restart app" "start launcher", s)
    | some top => do
      let (_, s) ← s.activeAbility env top
      .ok (.ok, s)

/-! ## Attaching -/

def permissionText (ret : Int) : String := "load application permission ret = " ++ toString ret

/-- `LoadPermission`: a process without its permissions is told to exit. -/
def loadPermission (env : Env) (a : Nat) (s : AbilityMgr) : Result := do
  let app ← s.appRecord a
  match env.loadPermissions app.bundleInfo with
  | none => .ok (.ok, s)
  | some ret => do
    let (_, s) ← s.appExitTransaction env a
    .ok (permissionStatus (permissionText ret), s)

/-- `SetAbilityThreadClient`. -/
def setAbilityThreadClient (env : Env) (a : Nat) (client : AbilityThreadClient) (s : AbilityMgr) :
    Result := do
  let app ← s.appRecord a
  let s := s.modifyApp a (·.setClient client)
  if app.bundleInfo.bundleName = none then .ok (appTransanctStatus "bundleName is null", s)
  else if env.addDeathRecipient client.svcIdentity then .ok (.ok, s)
  else .ok (appTransanctStatus "register death callback ipc error", s)

def attachTask (env : Env) (client : AbilityThreadClient) (s : AbilityMgr) : Result :=
  match s.getAppRecordByToken client.token client.pid with
  | none => .ok (taskStatus "Attach" "appRecord not found", s)
  | some app => do
    let a := app.identityId
    let (status, s) ← s.setAbilityThreadClient env a client
    if !status.isOk then .ok (status, s)
    else do
      let (status, s) ← s.loadPermission env a
      if !status.isOk then do
        let s ← s.removeAppRecord a
        .ok (status, s)
      else do
        let (status, s) ← s.appInitTransaction env a
        if !status.isOk then .ok (status, s)
        else s.launchPendingAbility env a

/-! ## Connecting -/

def performConnectTask (env : Env) (t : Token) (sid : SvcIdentity) (token : Token) (s : AbilityMgr) :
    Result := do
  let r ← s.record t
  if r.connectStatus = .disconnecting ∨ r.connectStatus = .disconnect ∨
      r.connectStatus = .stopping ∨ r.connectStatus = .stopped then
    .ok (taskStatus "AbilityConnectTask" "service status has disconnected", s)
  else
    let client := r.getConnectRecord sid
    let s := match client with
      | some _ => s
      | none => s.modify t (·.pushConnectRecord ⟨sid, token, .connecting⟩)
    match r.connectStatus with
    | .init =>
      if r.currentState = .uninitialized then
        .ok (.ok, s.modify t (·.setConnectStatus .waitConnect))
      else (s.modify t (·.setConnectStatus .connecting)).connectAbility env t
    | .connected =>
      if (client.map (·.status)).getD .connecting = .connecting then s.connectAbilityDone env t
      else .ok (.ok, s)
    | _ => .ok (.ok, s)

def connectTask (env : Env) (want : Want) (sid : SvcIdentity) (token : Token) (s : AbilityMgr) : Result :=
  match want.element with
  | none => .ok (taskStatus "connectTask" "invalid argument", s)
  | some e =>
    match s.findServiceRecordByName e.bundleName e.abilityName with
    | none => .ok (taskStatus "connectTask" "service ability does not exists", s)
    | some t => do
      let r ← s.record t
      if r.isPerformStop then .ok (taskStatus "connectTask" "service has stopped", s)
      else s.performConnectTask env t sid token

def connectDoneTask (env : Env) (serviceSid : SvcIdentity) (token : Token) (s : AbilityMgr) : Result :=
  match s.findServiceAbility token with
  | none => .ok (taskStatus "connectTaskDone" "service ability dose not exists", s)
  | some t => do
    let r ← s.record t
    if r.isPerformStop then .ok (taskStatus "connectTaskDone" "service is stopping", s)
    else do
      let (status, s) ← (s.modify t (·.setServiceSid serviceSid)).connectAbilityDone env t
      .ok (status, s.modify t (·.setConnectStatus .connected))

def disconnectTask (env : Env) (sid : SvcIdentity) (token : Token) (s : AbilityMgr) : Result :=
  match s.findServiceRecordByClient sid token with
  | none => .ok (taskStatus "disconnectTask" "service is not exists", s)
  | some t => s.disconnectAbility env t sid

def disconnectDoneTask (env : Env) (token : Token) (s : AbilityMgr) : Result :=
  match s.findServiceAbility token with
  | none => .ok (taskStatus "disconnectTaskDone" "service ability does not exists", s)
  | some t => do
    let r ← s.record t
    if r.isPerformStop then .ok (taskStatus "disconnectTaskDone" "service is stopping", s)
    else s.disconnectAbilityDone env t

def terminateServiceTask (env : Env) (target : AbilityInfo) (s : AbilityMgr) : Result :=
  match s.findServiceRecordByName target.bundleName target.name with
  | none => .ok (taskStatus "terminateService" "service does not exists", s)
  | some t => do
    let r ← s.record t
    if r.currentState = .uninitialized then do
      let s ← s.removeServiceRecord t
      .ok (.ok, s)
    else s.forceStopServiceAbility env t

/-! ## Messages -/

/-- `SYSTEM_UID`, `HUKS_UID`. -/
def systemUid : Int := 0
def huksUid : Int := 19

def checkVisiblePermission (env : Env) (callingUid targetUid : Int) (isVisible : Bool) : Bool :=
  callingUid == systemUid || callingUid == huksUid || isVisible || callingUid == targetUid ||
    isLauncherAbility (env.bundleNameForUid callingUid)

/-- `AbilityWorker::StartAbility`. -/
def workerStartAbility (gen : TokenGenerate) (env : Env) (want : Want) (target : AbilityInfo)
    (bundleInfo : BundleInfo) (callingUid : Int) (s : AbilityMgr) : Result :=
  if checkVisiblePermission env callingUid bundleInfo.uid target.isVisible then
    s.startTask gen env want target bundleInfo false
  else .ok (permissionStatus "start ability visible is false", s)

/-- `AbilityWorker::ConnectAbility`: a service that is not there is started first. -/
def workerConnectAbility (gen : TokenGenerate) (env : Env) (want : Want) (e : ElementName)
    (sid : SvcIdentity) (token : Token) (target : AbilityInfo) (bundleInfo : BundleInfo)
    (callingUid : Int) (s : AbilityMgr) : Result :=
  if checkVisiblePermission env callingUid bundleInfo.uid target.isVisible then do
    let (status, s) ← match s.findServiceRecordByName e.bundleName e.abilityName with
      | some _ => .ok (.ok, s)
      | none => s.startTask gen env want target bundleInfo true
    if !status.isOk then .ok (status, s)
    else match s.findServiceRecordByName e.bundleName e.abilityName with
      | none => .ok (taskStatus "connect" "generate ability record failure", s)
      | some _ => s.connectTask env want sid token
  else .ok (permissionStatus "connect ability visible is false", s)

/-- `AbilityWorker::TerminateService`. -/
def workerTerminateService (env : Env) (target : AbilityInfo) (bundleInfo : BundleInfo)
    (callingUid : Int) (s : AbilityMgr) : Result :=
  if checkVisiblePermission env callingUid bundleInfo.uid target.isVisible then
    s.terminateServiceTask env target
  else .ok (permissionStatus "terminate service visible is false", s)

/-- `AbilityWorker::AbilityTransaction`. -/
def workerAbilityTransaction (gen : TokenGenerate) (env : Env) (state : TransactionState)
    (s : AbilityMgr) : Result :=
  match state.state with
  | .background => s.backgroundTask state.token
  | .inactive => s.inactivateTask gen env state.token
  | .active => s.activateTask env state.token
  | .initial => s.stopTask env state.token
  | .uninitialized => .ok (.ok, s)

/-- `AbilityMgrHandler::StartAbility`. -/
def handleStartAbility (gen : TokenGenerate) (env : Env) (want : Want) (callingUid : Int)
    (s : AbilityMgr) : Except Fault (ErrCode × AbilityMgr) :=
  match want.element with
  | none => .ok (.failure, s)
  | some e =>
    match env.queryBundleInfo e.bundleName with
    | none => .ok (.invalid, s)
    | some bundleInfo =>
      match env.queryAbilityInfo want with
      | none => .ok (.invalid, s)
      | some target => do
        let (status, s) ← s.workerStartAbility gen env want target bundleInfo callingUid
        .ok (if status.isOk then .success else .commu, s)

/-- `StartAbilityCallback`: a start that failed is told to the caller, if it left an address. -/
def startAbilityCallback (env : Env) (want : Want) (code : ErrCode) (s : AbilityMgr) : AbilityMgr :=
  match want.sid with
  | none => s
  | some sid => if code = .success then s else s.notify env sid (.startAbility want.element code)

def startAbilityMsg (gen : TokenGenerate) (env : Env) (want : Want) (callingUid : Int) (s : AbilityMgr) :
    Except Fault AbilityMgr := do
  let (code, s) ← s.handleStartAbility gen env want callingUid
  .ok (s.startAbilityCallback env want code)

/-- `SetLauncherWant`. -/
def launcherWant : Want :=
  { element := some { bundleName := some launcherBundleName, abilityName := some launcherAbilityName } }

def startLauncher (gen : TokenGenerate) (env : Env) (s : AbilityMgr) : Except Fault AbilityMgr := do
  let (_, s) ← s.handleStartAbility gen env launcherWant systemUid
  .ok s

/-- `SetKeepAliveWant`: the first ability of the bundle. -/
def keepAliveWant (bundleInfo : BundleInfo) : Option Want :=
  match bundleInfo.abilityInfos with
  | some name :: _ =>
    bundleInfo.bundleName.map fun bundleName =>
      { element := some { bundleName := some bundleName, abilityName := some name } }
  | _ => none

def startKeepAliveApp (gen : TokenGenerate) (env : Env) (bundleInfo : BundleInfo) (s : AbilityMgr) :
    Except Fault AbilityMgr :=
  match keepAliveWant bundleInfo with
  | none => .ok s
  | some want => do
    let (_, s) ← s.handleStartAbility gen env want systemUid
    .ok s

/-- `AbilityMgrHandler::AbilityTransaction`: a process reports the state an ability reached. -/
def transactionMsg (gen : TokenGenerate) (env : Env) (state : TransactionState) (s : AbilityMgr) :
    Except Fault AbilityMgr := do
  let (status, s) ← s.workerAbilityTransaction gen env state
  if status.isNoActiveAbility then s.startLauncher gen env else .ok s

/-- `AbilityMgrHandler::RestartApp`: the process of a bundle died. -/
def restartAppMsg (gen : TokenGenerate) (env : Env) (bundleName : CString) (s : AbilityMgr) :
    Except Fault AbilityMgr :=
  match env.queryBundleInfo (some bundleName) with
  | none => .ok s
  | some bundleInfo => do
    let (status, s) ← s.appRestartTask env bundleInfo
    let s ← if status.isNoActiveAbility then s.startLauncher gen env else .ok s
    if !isLauncherAbility bundleInfo.bundleName ∧ bundleInfo.isSystemApp ∧
        bundleInfo.isKeepAlive then
      s.startKeepAliveApp gen env bundleInfo
    else .ok s

/-- `AbilityMgrHandler::ConnectAbility`. -/
def handleConnectAbility (gen : TokenGenerate) (env : Env) (want : Want) (sid : SvcIdentity)
    (token : Token) (callingUid : Int) (s : AbilityMgr) : Except Fault (ErrCode × AbilityMgr) :=
  match want.element with
  | none => .ok (.failure, s)
  | some e =>
    match env.queryBundleInfo e.bundleName with
    | none => .ok (.invalid, s)
    | some bundleInfo =>
      match env.queryAbilityInfo want with
      | none => .ok (.invalid, s)
      | some target => do
        let (status, s) ←
          s.workerConnectAbility gen env want e sid token target bundleInfo callingUid
        .ok (if status.isOk then .success else .commu, s)

/-- A connect with its `ConnectAbilityCallback`. -/
def connectAbilityMsg (gen : TokenGenerate) (env : Env) (want : Want) (sid : SvcIdentity)
    (token : Token) (callingUid : Int) (s : AbilityMgr) : Except Fault AbilityMgr := do
  let (code, s) ← s.handleConnectAbility gen env want sid token callingUid
  .ok (if code = .success then s else s.notify env sid .connectFail)

/-- `AbilityMgrHandler::TerminateService`. -/
def terminateServiceMsg (env : Env) (want : Want) (callingUid : Int) (s : AbilityMgr) :
    Except Fault AbilityMgr :=
  match want.element with
  | none => .ok s
  | some e =>
    match env.queryBundleInfo e.bundleName with
    | none => .ok s
    | some bundleInfo =>
      match env.queryAbilityInfo want with
      | none => .ok s
      | some target => do
        let (_, s) ← s.workerTerminateService env target bundleInfo callingUid
        .ok s

end AbilityMgr
end AbilityLite.Ams
