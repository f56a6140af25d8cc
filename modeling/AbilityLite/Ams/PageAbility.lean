import AbilityLite.Ams.Record

/-
  Ability records and process records: what the member functions of
  `PageAbilityRecord`, `AppRecord` and `AppManager` do to the state of AMS.

  A function that goes through a pointer stops at a fault when the object is deleted;
  what the program does from there on is undefined.

  Correspondence (C++ ↔ Lean):
    `AppRecord::…Transaction`, `AbilityThreadClient`  ↔ `transact` and the `…Transaction`s
    `AppManager::StartAppProcess`                     ↔ `startAppProcess`
    `AppManager::RemoveAppRecord` (both)              ↔ `removeAppRecord`, `removeAppRecordByName`
    `PageAbilityRecord` constructor and destructor    ↔ `newPageAbility`, `delete`
    `PageAbilityRecord::StartAbility` … `StopAbilityDone` ↔ `startAbility` … `stopAbilityDone`
-/

namespace AbilityLite.Ams
open AbilityMsStatus

/-- The outcome of a function of AMS that returns a status. -/
abbrev Result := Except Fault (AbilityMsStatus × AbilityMgr)

/-! ## Setters -/

namespace PageAbilityRecord
variable (r : PageAbilityRecord)

def setBundleInfo (bundleInfo : BundleInfo) : PageAbilityRecord := { r with bundleInfo }
def setCurrentState (state : State) : PageAbilityRecord := { r with currentState := state }
def setMissionRecord (id : Nat) : PageAbilityRecord := { r with missionRecord := some id }
def setNextPageAbility (next : Option Token) : PageAbilityRecord := { r with nextPageAbility := next }
def setPrevPageAbility (prev : Option Token) : PageAbilityRecord := { r with prevPageAbility := prev }
def setStartDone (startDone : Bool) : PageAbilityRecord := { r with startDone }
def setConnectStatus (status : ConnectStatus) : PageAbilityRecord := { r with connectStatus := status }
def setServiceSid (serviceSid : SvcIdentity) : PageAbilityRecord := { r with serviceSid }
def setForceStop : PageAbilityRecord := { r with forceStop := true }
def setConnectRecords (connectRecords : List AbilityConnectRecord) : PageAbilityRecord :=
  { r with connectRecords }

/-- `appRecord_ = …`. -/
def setAppRecord (a : Option Nat) : PageAbilityRecord := { r with appRecord := a }

/-- `AdapterFree(want_.sid)`. -/
def freeSid : PageAbilityRecord := { r with want := { r.want with sid := none } }

/-- History: the launch was accepted, a transaction was sent. -/
def accept : PageAbilityRecord := { r with accepted := true }
def transact : PageAbilityRecord := { r with transacted := true }

end PageAbilityRecord

namespace AppRecord
variable (app : AppRecord)

def setPendingAbility (t : Option Token) : AppRecord := { app with pendingAbilityRecord := t }
def setClient (client : AbilityThreadClient) : AppRecord :=
  { app with abilityThreadClient := some client }

/-- `ClearPendingAbility`. -/
def clearPendingAbility (t : Token) : AppRecord :=
  if app.pendingAbilityRecord = some t then app.setPendingAbility none else app

end AppRecord

namespace AbilityMgr

/-! ## Going through pointers -/

def record (s : AbilityMgr) (t : Token) : Except Fault PageAbilityRecord :=
  match s.records t with
  | some r => .ok r
  | none => .error .pageAbilityRecord

def modify (s : AbilityMgr) (t : Token) (f : PageAbilityRecord → PageAbilityRecord) : AbilityMgr :=
  { s with records := s.records.modify t f }

def app (s : AbilityMgr) (a : Nat) : Option AppRecord := s.appRecords.find? (·.identityId = a)

def appRecord (s : AbilityMgr) (a : Nat) : Except Fault AppRecord :=
  match s.app a with
  | some app => .ok app
  | none => .error .appRecord

def modifyApp (s : AbilityMgr) (a : Nat) (f : AppRecord → AppRecord) : AbilityMgr :=
  { s with appRecords := s.appRecords.map fun app => if app.identityId = a then f app else app }

/-- A transaction leaves for a process; one that moves an ability is noted in its history. -/
def send (s : AbilityMgr) (a : Nat) (m : Transaction) : AbilityMgr :=
  { s with
    sent := s.sent ++ [(a, m)]
    records := match m with
      | .lifecycle state _ _ => s.records.modify state.token (·.transact)
      | _ => s.records }

/-! ## Transactions -/

/-- A transaction that carries a want: it needs the client the process attached with. -/
def transact (env : Env) (a : Nat) (m : Transaction) (want : Want)
    (noClient notSerialized notSent : AbilityMsStatus) (s : AbilityMgr) : Result := do
  let app ← s.appRecord a
  match app.abilityThreadClient with
  | none => .ok (noClient, s)
  | some _ =>
    if env.serializes want then
      if env.sends a m then .ok (.ok, s.send a m) else .ok (notSent, s)
    else .ok (notSerialized, s)

def abilityTransaction (env : Env) (a : Nat) (state : TransactionState) (want : Want)
    (abilityType : AbilityType) (s : AbilityMgr) : Result :=
  s.transact env a (.lifecycle state want abilityType) want
    (appTransanctStatus "life cycle ability thread client not exist")
    (appTransanctStatus "SerializeWant failed") (appTransanctStatus "lifecycle ipc error")

def connectTransaction (env : Env) (a : Nat) (want : Want) (t : Token) (s : AbilityMgr) : Result :=
  s.transact env a (.connect want t) want
    (taskStatus "connectAbility" "app exit ability thread client not exist")
    (taskStatus "connectAbility" "SerializeWant failed")
    (taskStatus "connectAbility" "connectAbility exit ipc error")

def disconnectTransaction (env : Env) (a : Nat) (want : Want) (t : Token) (s : AbilityMgr) : Result :=
  s.transact env a (.disconnect want t) want
    (taskStatus "disconnectAbility" "app exit ability thread client not exist")
    (taskStatus "disconnectAbility" "SerializeWant failed")
    (taskStatus "disconnectAbility" "disconnectAbility exit ipc error")

/-- `MAX_MODULE_SIZE`. -/
def maxModuleSize : Nat := 16

def appInitTransaction (env : Env) (a : Nat) (s : AbilityMgr) : Result := do
  let app ← s.appRecord a
  match app.abilityThreadClient with
  | none => .ok (appTransanctStatus "app init ability thread client not exist", s)
  | some _ =>
    if app.bundleInfo.bundleName = none ∨ app.bundleInfo.codePath = none ∨
        maxModuleSize < app.bundleInfo.moduleInfos.length then
      .ok (appTransanctStatus "app init invalid argument", s)
    else if env.sends a (.appInit app.bundleInfo) then
      .ok (.ok, s.send a (.appInit app.bundleInfo))
    else .ok (appTransanctStatus "app init ipc error", s)

def appExitTransaction (env : Env) (a : Nat) (s : AbilityMgr) : Result := do
  let app ← s.appRecord a
  match app.abilityThreadClient with
  | none => .ok (appTransanctStatus "app exit ability thread client not exist", s)
  | some _ =>
    if env.sends a .appExit then .ok (.ok, s.send a .appExit)
    else .ok (appTransanctStatus "app exit ipc error", s)

def notify (s : AbilityMgr) (env : Env) (sid : SvcIdentity) (m : Callback) : AbilityMgr :=
  if env.notifies sid m then { s with callbacks := s.callbacks ++ [(sid, m)] } else s

/-- `ConnectDoneTransaction` and `DisconnectDoneTransaction`, whose result nobody reads. -/
def callbackTransaction (env : Env) (a : Nat) (sid : SvcIdentity) (m : Callback) (s : AbilityMgr) :
    Except Fault AbilityMgr := do
  let app ← s.appRecord a
  match app.abilityThreadClient with
  | none => .ok s
  | some _ => .ok (s.notify env sid m)

def callbackTransactions (env : Env) (a : Nat) (m : Callback) :
    List AbilityConnectRecord → AbilityMgr → Except Fault AbilityMgr
  | [], s => .ok s
  | c :: cs, s => do
    let s ← s.callbackTransaction env a c.connectSid m
    callbackTransactions env a m cs s

/-! ## Processes -/

def getAppRecordByBundleName (s : AbilityMgr) : Option CString → Option AppRecord
  | none => none
  | some name => s.appRecords.find? (·.bundleInfo.bundleName = some name)

def getAppRecordByToken (s : AbilityMgr) (token : Nat) (pid : Int) : Option AppRecord :=
  s.appRecords.find? fun app => app.identityId = token ∧ app.pid = pid

/-- `StartAppProcess`: the process record of the bundle, or a new one if the process can be
spawned. -/
def startAppProcess (gen : TokenGenerate) (env : Env) (bundleInfo : BundleInfo) (s : AbilityMgr) :
    Option Nat × AbilityMgr :=
  match bundleInfo.bundleName with
  | none => (none, s)
  | some _ =>
    match s.getAppRecordByBundleName bundleInfo.bundleName with
    | some app => (some app.identityId, s)
    | none =>
      let app : AppRecord := { identityId := gen.generate s.generated, bundleInfo }
      let s := { s with generated := s.generated + 1 }
      match env.spawn app with
      | none => (none, s)
      | some pid => (some app.identityId, { s with appRecords := s.appRecords ++ [{ app with pid }] })

/-- The loop of `RemoveAppRecord(const AppRecord &)`. Its argument is an element of the list:
once that element is deleted, the next iteration reads a deleted object. -/
def removeAppRecordLoop (identityId : Nat) : Bool → List AppRecord → Except Fault (List AppRecord)
  | _, [] => .ok []
  | true, _ :: _ => .error .appRecord
  | false, current :: rest =>
    if current.identityId = identityId then removeAppRecordLoop identityId true rest
    else do
      let rest ← removeAppRecordLoop identityId false rest
      .ok (current :: rest)

def removeAppRecord (a : Nat) (s : AbilityMgr) : Except Fault AbilityMgr := do
  let app ← s.appRecord a
  let appRecords ← removeAppRecordLoop app.identityId false s.appRecords
  .ok { s with appRecords }

def removeAppRecordByName (name : Option CString) (s : AbilityMgr) : AbilityMgr :=
  match name with
  | none => s
  | some name =>
    { s with appRecords := s.appRecords.filter fun app => app.bundleInfo.bundleName ≠ some name }

def terminateAppProcess (env : Env) (name : Option CString) (s : AbilityMgr) : Result :=
  match s.getAppRecordByBundleName name with
  | none => .ok (.ok, s)
  | some app => s.appExitTransaction env app.identityId

/-! ## Making and deleting ability records -/

end AbilityMgr

/-- The want a new record keeps: `SetWantElement`, `SetWantData`, `SetWantSvcIdentity`. -/
def Want.copy (want : Want) : Want :=
  match want.data.bind fun data => memdup (some data) want.dataLength with
  | none => { element := want.element, sid := want.sid }
  | some data =>
    { element := want.element, sid := want.sid, data := some data, dataLength := want.dataLength }

namespace AbilityMgr

/-- The constructor: the record takes a new token and the process record of its bundle. -/
def newPageAbility (gen : TokenGenerate) (abilityInfo : AbilityInfo) (want : Want) (s : AbilityMgr) :
    Token × AbilityMgr :=
  let token := gen.generate s.generated
  let r : PageAbilityRecord := {
    abilityInfo, want := want.copy
    appRecord := (s.getAppRecordByBundleName abilityInfo.bundleName).map (·.identityId) }
  (token, { s with generated := s.generated + 1, records := s.records.insert token r })

/-- The destructor, which clears the pending ability of the process record. -/
def delete (t : Token) (s : AbilityMgr) : Except Fault AbilityMgr := do
  let r ← s.record t
  match r.appRecord with
  | none => .ok { s with records := s.records.erase t }
  | some a => do
    let _ ← s.appRecord a
    .ok { s.modifyApp a (·.clearPendingAbility t) with records := s.records.erase t }

/-! ## Lifecycle transactions -/

def transactState (env : Env) (t : Token) (r : PageAbilityRecord) (state : State) (s : AbilityMgr) :
    Result :=
  match r.appRecord with
  | none => .ok (appTransanctStatus "app record not exist", s)
  | some a => s.abilityTransaction env a ⟨t, state⟩ r.want r.abilityInfo.abilityType

/-- `ActiveAbility`; the callback identity of the want goes with the first transaction. -/
def activeAbility (env : Env) (t : Token) (s : AbilityMgr) : Result := do
  let r ← s.record t
  if r.currentState = .active then
    .ok (lifeCycleStatus "current state is already active when active", s)
  else match r.appRecord with
    | none => .ok (appTransanctStatus "app record not exist", s)
    | some a => do
      let (status, s) ← s.abilityTransaction env a ⟨t, .active⟩ r.want r.abilityInfo.abilityType
      .ok (status, s.modify t (·.freeSid))

def inactiveAbility (env : Env) (t : Token) (s : AbilityMgr) : Result := do
  let r ← s.record t
  if r.currentState ≠ .active ∧ r.abilityInfo.abilityType ≠ .service then
    .ok (lifeCycleStatus "current state is not active when inactive", s)
  else s.transactState env t r .inactive

def toBackgroundAbility (env : Env) (t : Token) (s : AbilityMgr) : Result := do
  let r ← s.record t
  if r.currentState ≠ .inactive then
    .ok (lifeCycleStatus "current state is not inactive when background", s)
  else s.transactState env t r .background

def stopAbility (env : Env) (t : Token) (s : AbilityMgr) : Result := do
  let r ← s.record t
  if r.currentState ≠ .inactive then
    .ok (lifeCycleStatus "current state is not inactive when stop", s)
  else s.transactState env t r .initial

/-- What `StartAbility` and `StartService` share: with no process record the ability waits in a
process that is started, otherwise it gets its first transaction. -/
def startWith (gen : TokenGenerate) (env : Env) (first : Token → AbilityMgr → Result) (t : Token)
    (s : AbilityMgr) : Result := do
  let r ← s.record t
  match r.appRecord with
  | none =>
    match s.startAppProcess gen env r.bundleInfo with
    | (none, s) => .ok (processStatus "start app process fail", s)
    | (some a, s) =>
      let s := s.modify t fun r => (r.setAppRecord (some a)).accept
      .ok (.ok, s.modifyApp a (·.setPendingAbility (some t)))
  | some _ => do
    let (status, s) ← first t s
    .ok (status, if status.isOk then s.modify t (·.accept) else s)

def startAbility (gen : TokenGenerate) (env : Env) (t : Token) (s : AbilityMgr) : Result :=
  s.startWith gen env (activeAbility env) t

def startService (gen : TokenGenerate) (env : Env) (t : Token) (s : AbilityMgr) : Result :=
  s.startWith gen env (inactiveAbility env) t

def exitApp (env : Env) (t : Token) (s : AbilityMgr) : Result := do
  let r ← s.record t
  match r.appRecord with
  | none => .ok (appTransanctStatus "app record not exist", s)
  | some a => do
    let (status, s) ← s.appExitTransaction env a
    if status.isOk then do
      let s ← s.removeAppRecord a
      .ok (status, s.modify t (·.setAppRecord none))
    else .ok (status, s)

/-- `LaunchPendingAbility`. -/
def launchPendingAbility (env : Env) (a : Nat) (s : AbilityMgr) : Result := do
  let app ← s.appRecord a
  match app.pendingAbilityRecord with
  | none => .ok (lifeCycleStatus "pending ability not exist", s)
  | some t => do
    let r ← s.record t
    let (status, s) ←
      if r.abilityInfo.abilityType = .service then s.inactiveAbility env t
      else s.activeAbility env t
    .ok (status, s.modifyApp a (·.setPendingAbility none))

/-! ## Services and their clients -/

end AbilityMgr

namespace PageAbilityRecord

def isPerformStop (r : PageAbilityRecord) : Bool :=
  r.connectStatus = .stopping ∨ r.connectStatus = .stopped

def getConnectRecord (r : PageAbilityRecord) (sid : SvcIdentity) : Option AbilityConnectRecord :=
  r.connectRecords.find? (·.connectSid = sid)

/-- The overload that also asks for the ability that connected. -/
def getConnectRecordOf (r : PageAbilityRecord) (sid : SvcIdentity) (abilityToken : Token) :
    Option AbilityConnectRecord :=
  r.connectRecords.find? fun c => c.connectSid = sid ∧ c.abilityToken = abilityToken

/-- `CONNECT_RECORDS_LIST_CAPACITY`. -/
def connectRecordsListCapacity : Nat := 10240

def pushConnectRecord (r : PageAbilityRecord) (c : AbilityConnectRecord) : PageAbilityRecord :=
  if connectRecordsListCapacity ≤ r.connectRecords.length then r
  else r.setConnectRecords (r.connectRecords ++ [c])

/-- `RemoveConnectRecord`: the first client with the connection. -/
def removeConnectRecord (r : PageAbilityRecord) (sid : SvcIdentity) : PageAbilityRecord :=
  r.setConnectRecords (r.connectRecords.eraseP (·.connectSid = sid))

/-- `IsSamePageAbility(const Want &)`. -/
def isSamePageAbility (r : PageAbilityRecord) (want : Want) : Bool :=
  match want.element with
  | none => false
  | some e =>
    e.bundleName.isSome && e.abilityName.isSome && r.abilityInfo.bundleName == e.bundleName &&
      r.abilityInfo.name == e.abilityName

end PageAbilityRecord

/-- A client that was waiting for the connection has it. -/
def AbilityConnectRecord.done (c : AbilityConnectRecord) : AbilityConnectRecord :=
  if c.status = .connecting then { c with status := .connected } else c

namespace AbilityMgr

def connectAbility (env : Env) (t : Token) (s : AbilityMgr) : Result := do
  let r ← s.record t
  match r.appRecord with
  | none => .ok (taskStatus "connectAbility, " "app record not exist", s)
  | some a => s.connectTransaction env a r.want t

/-- What stops a service: its status says so and it is sent back to its initial state. -/
def performStop (env : Env) (a : Nat) (t : Token) (r : PageAbilityRecord) (s : AbilityMgr) : Result :=
  (s.modify t (·.setConnectStatus .stopping)).abilityTransaction env a ⟨t, .initial⟩ r.want
    r.abilityInfo.abilityType

def performDisconnect (env : Env) (a : Nat) (t : Token) (r : PageAbilityRecord) (s : AbilityMgr) :
    Result :=
  (s.modify t (·.setConnectStatus .disconnecting)).disconnectTransaction env a r.want t

def disconnectAbility (env : Env) (t : Token) (sid : SvcIdentity) (s : AbilityMgr) : Result := do
  let r ← s.record t
  match r.appRecord with
  | none => .ok (taskStatus "disconnectAbility, " "app record not exist", s)
  | some a =>
    let s := s.modify t (·.removeConnectRecord sid)
    let r := r.removeConnectRecord sid
    if r.connectStatus = .disconnect ∨ r.connectStatus = .disconnecting then .ok (.ok, s)
    else if r.isPerformStop then .ok (.ok, s)
    else if r.connectRecords = [] then s.performDisconnect env a t r
    else .ok (.ok, s)

def connectAbilityDone (env : Env) (t : Token) (s : AbilityMgr) : Result := do
  let r ← s.record t
  match r.appRecord with
  | none => .ok (taskStatus "connectAbilityDone, " "app record not exist", s)
  | some a => do
    let s := s.modify t fun r => r.setConnectRecords (r.connectRecords.map (·.done))
    let s ← callbackTransactions env a (.connectDone r.want.element r.serviceSid)
      (r.connectRecords.filter (·.status = .connecting)) s
    .ok (.ok, s)

def disconnectAbilityDone (env : Env) (t : Token) (s : AbilityMgr) : Result := do
  let r ← s.record t
  match r.appRecord with
  | none => .ok (taskStatus "disconnectAbilityDone, " "app record not exist", s)
  | some a =>
    let s := s.modify t (·.setConnectStatus (if r.startDone then .init else .disconnect))
    if (r.connectRecords = [] ∧ !r.startDone) ∨ r.forceStop then s.performStop env a t r
    else .ok (.ok, s)

def forceStopServiceAbility (env : Env) (t : Token) (s : AbilityMgr) : Result := do
  let r ← s.record t
  match r.appRecord with
  | none => .ok (taskStatus "terminateService, " "app record not exist", s)
  | some a =>
    let s := s.modify t (·.setForceStop)
    if r.isPerformStop then .ok (taskStatus "terminateService" "service is stopping", s)
    else if r.connectStatus = .disconnecting then
      .ok (taskStatus "terminateService" "service is disconnecting", s)
    else if r.connectStatus = .disconnect ∨ r.connectRecords = [] then s.performStop env a t r
    else s.performDisconnect env a t r

def stopAbilityDone (env : Env) (t : Token) (s : AbilityMgr) : Result := do
  let r ← s.record t
  match r.appRecord with
  | none => .ok (taskStatus "disconnectAbilityDone, " "app record not exist", s)
  | some a => do
    let s := s.modify t (·.setConnectStatus .stopped)
    let s ← callbackTransactions env a (.disconnectDone r.want.element) r.connectRecords s
    .ok (.ok, s)

/-- `RemoveConnectRecordByPageToken`: a service that only its clients keep stops with the last
of them. -/
def removeConnectRecordByPageToken (env : Env) (t : Token) (token : Token) (s : AbilityMgr) :
    Except Fault AbilityMgr := do
  let r ← s.record t
  if r.connectRecords = [] then .ok s
  else do
    let connectRecords := r.connectRecords.filter (·.abilityToken ≠ token)
    let s := s.modify t (·.setConnectRecords connectRecords)
    if connectRecords = [] ∧ !r.startDone then do
      let (_, s) ← s.stopAbility env t
      .ok s
    else .ok s

end AbilityMgr
end AbilityLite.Ams
