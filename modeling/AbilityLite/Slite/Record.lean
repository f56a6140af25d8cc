import AbilityLite.CString

/-
  The data of the slite ability manager: wants, ability records, the lifecycle
  messages sent to ability threads, and the answers of everything outside the
  manager (bundle manager, start-check callback, thread creation, message
  queues, distributed scheduler) while one operation executes.

  Correspondence (C++ ↔ Lean):
    `want.h`                    ↔ `ElementName`, `Want`
    `ability_record.h`          ↔ `AbilityData`, `AbilityRecord`
    `ability_record_state.h`    ↔ `AbilityRecordState`
    `slite_ability_state.h`     ↔ `SliteAbilityState`
    `ability_inner_message.h`   ↔ `SliteAbilityMsgId`, `SliteAbilityInnerMsg`
    `ability_saved_data.h`      ↔ `AbilitySavedData`
    `bms_helper.h`              ↔ `AbilitySvcInfo`, `BMSHelper`
    `ability_errors.h`          ↔ the `ErrCode` constants
-/

namespace AbilityLite.Slite

/-! ## Error codes -/

abbrev ErrCode := Int

def errOk : ErrCode := 0
def paramNullError : ErrCode := 1
def memoryMallocError : ErrCode := 2
def ipcRequestError : ErrCode := 4
def createApptaskError : ErrCode := 6
def schedulerLifecycleError : ErrCode := 7
def paramCheckError : ErrCode := 8

/-! ## Wants -/

structure ElementName where
  deviceId : Option CString := none
  bundleName : Option CString := none
  abilityName : Option CString := none
  deriving DecidableEq, Repr

structure Want where
  element : Option ElementName := none
  data : Option (List UInt8) := none
  dataLength : UInt16 := 0
  appPath : Option CString := none
  mission : UInt32 := 0
  deriving DecidableEq, Repr

/-- `SetWantData`: a failed copy (null or empty data) leaves no data. -/
def Want.setWantData (w : Want) (data : Option (List UInt8)) (dataLength : UInt16) : Want :=
  match memdup data dataLength with
  | none => { w with data := none, dataLength := 0 }
  | some d => { w with data := some d, dataLength := dataLength }

/-- `UINT32_MAX`: the mission of a `Want` that asks for none in particular. -/
def uint32Max : UInt32 := 0xFFFFFFFF

/-! ## Ability records -/

/-- The recorded state of an ability (`AbilityRecordState`). -/
inductive AbilityRecordState where
  | inited
  | foreground
  | background
  | stop
  deriving DecidableEq, Repr

/-- The lifecycle states an ability is sent to and reports (`SliteAbilityState`). -/
inductive SliteAbilityState where
  | unknown
  | uninitialized
  | initial
  | foreground
  | background
  deriving DecidableEq, Repr

inductive AbilityThreadCreatorType where
  | jsCreator
  | nativeCreator
  deriving DecidableEq, Repr

inductive SavedResultCode where
  | ok
  | invalidParam
  | exceedUpperLimit
  | allocError
  | noData
  deriving DecidableEq, Repr

structure AbilitySavedData where
  savedData : Option (List UInt8) := none
  userSavedData : Option (List UInt8) := none
  savedDataSize : UInt16 := 0
  userSavedDataSize : UInt16 := 0
  savedResult : SavedResultCode := .noData
  deriving DecidableEq, Repr

/-- `AbilitySavedData::Reset`. -/
def AbilitySavedData.reset (_ : AbilitySavedData) : AbilitySavedData := {}

structure AbilityData where
  wantData : Option (List UInt8) := none
  wantDataSize : UInt16 := 0
  deriving DecidableEq, Repr

/-- An ability record. `appName` is set from a checked non-null name when the
record is made, so it is no option here. The thread is the kind of thread that
runs the ability, when there is one. -/
structure AbilityRecord where
  appName : CString
  appPath : Option CString := none
  abilityData : Option AbilityData := none
  abilitySavedData : Option AbilitySavedData := none
  abilityThread : Option AbilityThreadCreatorType := none
  taskId : Option Nat := none
  token : UInt16 := 0
  mission : UInt32 := 0
  state : AbilityRecordState := .stop
  isTerminated : Bool := false
  isNativeApp : Bool := false
  deriving DecidableEq, Repr

/-- `AbilityRecord::SetWantData`. -/
def AbilityRecord.setWantData (r : AbilityRecord) (wantData : Option (List UInt8))
    (wantDataSize : UInt16) : AbilityRecord :=
  match memdup wantData wantDataSize with
  | none => { r with abilityData := some { wantData := none, wantDataSize := 0 } }
  | some d => { r with abilityData := some { wantData := some d, wantDataSize := wantDataSize } }

theorem AbilityRecord.setWantData_keeps (r : AbilityRecord) (wantData : Option (List UInt8))
    (wantDataSize : UInt16) : (r.setWantData wantData wantDataSize).appPath = r.appPath ∧
      (r.setWantData wantData wantDataSize).mission = r.mission := by
  unfold setWantData
  split <;> exact ⟨rfl, rfl⟩

/-! ## Names -/

def launcherToken : UInt16 := 0
def launcherBundleName : CString := cstr "com.ohos.launcher"
def mainBundleName : CString := cstr "main"
def defaultStartupBundleName : CString := cstr "com.ohos.launcher"

/-- `AbilityRecordManager::IsLauncher`: the name ends in `.launcher`. -/
def isLauncher (bundleName : CString) : Bool :=
  (cstr ".launcher").bytes.isSuffixOf bundleName.bytes

/-! ## Messages to ability threads -/

inductive SliteAbilityMsgId where
  | unknown
  | create
  | foreground
  | background
  | destroy
  deriving DecidableEq, Repr

/-- A lifecycle message in the queue of an ability thread. `token` is the token
of the ability that thread runs, `hasSavedData` says whether the message carries
the record's `abilitySavedData` pointer. -/
structure SliteAbilityInnerMsg where
  token : UInt16
  msgId : SliteAbilityMsgId
  want : Option Want := none
  hasSavedData : Bool := false
  deriving DecidableEq, Repr

/-- The state a lifecycle message asks its ability to reach and report. -/
def SliteAbilityMsgId.requested : SliteAbilityMsgId → SliteAbilityState
  | .unknown => .unknown
  | .create => .initial
  | .foreground => .foreground
  | .background => .background
  | .destroy => .uninitialized

/-- What observers are told (`AbilityRecordObserverManager`). -/
inductive Notification where
  | stateChanged (appName : CString) (state : AbilityRecordState)
  | cleanup (appName : CString)
  deriving DecidableEq, Repr

/-! ## The world outside the manager -/

/-- The names registered with `BMSHelper`. -/
structure BMSHelper where
  bundleNames : List CString := []
  temporaryBundleNames : List CString := []
  startupBundleName : Option CString := none
  deriving DecidableEq, Repr

namespace BMSHelper

def getStartupBundleName (b : BMSHelper) : CString :=
  b.startupBundleName.getD defaultStartupBundleName

def isTemporaryBundleName (b : BMSHelper) (bundleName : CString) : Bool :=
  b.temporaryBundleNames.contains bundleName

def isNativeApp (b : BMSHelper) (bundleName : CString) : Bool :=
  b.bundleNames.contains bundleName

end BMSHelper

/-- What the bundle manager knows of an ability (`AbilityInfo`). -/
structure AbilityInfo where
  bundleName : Option CString
  srcPath : Option CString
  deriving DecidableEq, Repr

structure AbilitySvcInfo where
  bundleName : Option CString
  path : Option CString
  data : Option (List UInt8) := none
  dataLength : UInt16 := 0
  isNativeApp : Bool
  mission : UInt32 := 0
  deriving DecidableEq, Repr

/-- The answers of everything outside the manager while one operation executes:
a lookup that can fail or succeed on every call is a function of what it is
asked. `heapMission` and `heapIsNativeApp` are what uninitialised memory holds. -/
structure Env where
  bms : BMSHelper := {}
  /-- `QueryAbilityInfo` of the bundle manager. -/
  queryAbilityInfo : Want → AbilityInfo
  /-- The registered start-check callback, if any (`GetAbilityCallback`). -/
  abilityCallback : Option (CString → ErrCode) := none
  /-- The result of creating and initialising the thread of the ability with a token. -/
  initAbilityThread : UInt16 → ErrCode := fun _ => errOk
  /-- The task a new thread runs as. -/
  appTaskId : UInt16 → Option Nat := fun _ => none
  /-- Whether the queue of the ability with a token accepts a message. -/
  messageQueuePut : UInt16 → SliteAbilityMsgId → Bool := fun _ _ => true
  /-- Whether the distributed scheduler's interface is found. -/
  dmsInterface : Bool := false
  startRemote : Want → CString → ErrCode := fun _ _ => errOk
  heapMission : UInt32 := 0
  heapIsNativeApp : Bool := false

/-- Every queue takes what is put into it. -/
def Env.Accepts (env : Env) : Prop := ∀ token msgId, env.messageQueuePut token msgId = true

/-- `BMSHelper::IsValidAbility`. -/
def isValidAbility (info : AbilityInfo) : Bool :=
  match info.bundleName, info.srcPath with
  | some b, some p => b.bytes.length ≠ 0 && p.bytes.length ≠ 0
  | _, _ => false

/-- The bundle manager answers for the bundle it is asked for. -/
def Env.AnswersAsked (env : Env) : Prop :=
  ∀ want, isValidAbility (env.queryAbilityInfo want) = true →
    (env.queryAbilityInfo want).bundleName = want.element.bind (·.bundleName)

/-- How the manager is built: the `#ifdef`s and constants of `BUILD.gn` shared by
the two builds. `ecInvalid` is `EC_INVALID` of the service framework. -/
structure Config where
  abilityListCapacity : Nat
  dmsEnabled : Bool := false
  miniBms : Bool := true
  ecInvalid : ErrCode := -1
  deriving DecidableEq, Repr

/-- `BMSHelper::QueryAbilitySvcInfo`, for a want whose bundle name is not null
(both callers check). Without the bundle manager the path is the want's data and
`isNativeApp` is never set. -/
def queryAbilitySvcInfo (cfg : Config) (env : Env) (bundleName : CString) (want : Want) :
    Except ErrCode AbilitySvcInfo :=
  if cfg.miniBms then
    if env.bms.isNativeApp bundleName then
      .ok { bundleName := some bundleName, path := none, isNativeApp := true }
    else
      let info := env.queryAbilityInfo want
      if isValidAbility info then
        .ok { bundleName := strdup info.bundleName, path := strdup info.srcPath,
              isNativeApp := false }
      else .error paramCheckError
  else
    .ok { bundleName := some bundleName, path := want.data.map CString.read,
          isNativeApp := env.heapIsNativeApp }

theorem queryAbilitySvcInfo_bundleName {cfg : Config} {env : Env} (hasked : env.AnswersAsked)
    {bundleName : CString} {want : Want} (hwant : want.element.bind (·.bundleName) = some bundleName)
    {info : AbilitySvcInfo} (h : queryAbilitySvcInfo cfg env bundleName want = .ok info) :
    info.bundleName = some bundleName := by
  unfold queryAbilitySvcInfo at h
  split at h
  · split at h
    · cases h
      rfl
    · simp only at h
      split at h
      · next hvalid =>
        cases h
        exact (hasked want hvalid).trans hwant
      · cases h
  · cases h
    rfl

/-- `AbilityRecordManager::CheckResponse`: no callback means yes. -/
def checkResponse (env : Env) (bundleName : CString) : Bool :=
  match env.abilityCallback with
  | none => true
  | some callBackFunc => callBackFunc bundleName == errOk

end AbilityLite.Slite
