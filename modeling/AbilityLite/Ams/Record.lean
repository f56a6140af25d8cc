import AbilityLite.CString
import AbilityLite.Store

/-
  The data of the ability manager service (AMS, the build with processes): wants,
  ability and process records, mission records, the transactions AMS sends to the
  process of an application, and what everything outside AMS answers while one
  message is handled.

  Every object AMS allocates is named by an identity that is never used again: an
  ability record by its token, a process record by its identity id, a mission record
  by a count. A raw pointer is the identity of the object it was taken from, null is
  `none`, and an object that was deleted is in none of the lists of the state.

  Correspondence (C++ ↔ Lean):
    `want.h`, `ability_info.h`, `bundle_info.h`    ↔ `Want`, `AbilityInfo`, `BundleInfo`
    `ability_state.h`                              ↔ `State`
    `ability_connect_record.h`                     ↔ `ConnectStatus`, `AbilityConnectRecord`
    `abilityms_status.h`                           ↔ `AbilityMsStatus`
    `page_ability_record.h`                        ↔ `PageAbilityRecord`
    `app_record.h`, `ability_thread_client.h`      ↔ `AppRecord`, `AbilityThreadClient`
    `ability_mission_record.h`                     ↔ `AbilityMissionRecord`
    `ability_mgr_context.h` and the two singletons ↔ `AbilityMgr`
-/

namespace AbilityLite.Ams

/-! ## Wants and what the bundle manager knows -/

structure SvcIdentity where
  handle : Int
  token : Nat
  deriving DecidableEq, Repr

structure ElementName where
  deviceId : Option CString := none
  bundleName : Option CString := none
  abilityName : Option CString := none
  deriving DecidableEq, Repr

structure Want where
  element : Option ElementName := none
  sid : Option SvcIdentity := none
  data : Option (List UInt8) := none
  dataLength : UInt16 := 0
  deriving DecidableEq, Repr

inductive AbilityType where
  | unknown
  | page
  | service
  deriving DecidableEq, Repr

structure AbilityInfo where
  bundleName : Option CString
  name : Option CString
  abilityType : AbilityType
  isVisible : Bool := false
  deriving DecidableEq, Repr

/-- `abilityInfos` holds the names of the bundle's abilities, `moduleInfos` those of its
modules. -/
structure BundleInfo where
  bundleName : Option CString
  uid : Int := 0
  codePath : Option CString := none
  dataPath : Option CString := none
  isNativeApp : Bool := false
  isSystemApp : Bool := false
  isKeepAlive : Bool := false
  moduleInfos : List (Option CString) := []
  abilityInfos : List (Option CString) := []
  deriving DecidableEq, Repr

/-! ## States and statuses -/

inductive State where
  | uninitialized
  | initial
  | inactive
  | active
  | background
  deriving DecidableEq, Repr

inductive ConnectStatus where
  | init
  | waitConnect
  | connecting
  | connected
  | disconnecting
  | disconnect
  | stopping
  | stopped
  deriving DecidableEq, Repr

inductive StatusCode where
  | ok
  | bmsQueryNotFound
  | permissionDenied
  | abilityTaskError
  | appTransactError
  | lifeCycleIllegal
  | processError
  | noActiveAbility
  | abilityHelpError
  deriving DecidableEq, Repr

/-- What a task returns; `key` and `msg` only go to the log. -/
structure AbilityMsStatus where
  code : StatusCode := .ok
  key : String := ""
  msg : String := ""
  deriving DecidableEq, Repr

namespace AbilityMsStatus

def ok : AbilityMsStatus := {}
def appTransanctStatus (msg : String) : AbilityMsStatus := ⟨.appTransactError, "", msg⟩
def taskStatus (key msg : String) : AbilityMsStatus := ⟨.abilityTaskError, key, msg⟩
def lifeCycleStatus (msg : String) : AbilityMsStatus := ⟨.lifeCycleIllegal, "", msg⟩
def processStatus (msg : String) : AbilityMsStatus := ⟨.processError, "", msg⟩
def noActiveAbilityStatus (key msg : String) : AbilityMsStatus := ⟨.noActiveAbility, key, msg⟩
def permissionStatus (msg : String) : AbilityMsStatus := ⟨.permissionDenied, "", msg⟩

def isOk (s : AbilityMsStatus) : Bool := s.code = .ok
def isNoActiveAbility (s : AbilityMsStatus) : Bool := s.code = .noActiveAbility
def isProcessError (s : AbilityMsStatus) : Bool := s.code = .processError
def isTransactError (s : AbilityMsStatus) : Bool := s.code = .appTransactError

@[simp] theorem isOk_ok : ok.isOk = true := rfl
@[simp] theorem isOk_task (key msg : String) : (taskStatus key msg).isOk = false := rfl
@[simp] theorem isOk_appTransanct (msg : String) : (appTransanctStatus msg).isOk = false := rfl
@[simp] theorem isOk_lifeCycle (msg : String) : (lifeCycleStatus msg).isOk = false := rfl
@[simp] theorem isOk_process (msg : String) : (processStatus msg).isOk = false := rfl

end AbilityMsStatus

/-! ## Records -/

abbrev Token := Nat

/-- A client of a service: its connection and the ability that connected. -/
structure AbilityConnectRecord where
  connectSid : SvcIdentity
  abilityToken : Token
  status : ConnectStatus := .init
  deriving DecidableEq, Repr

/-- A page or a service; its `token_` is the identity it is stored under. `accepted` and `transacted` are history: `StartAbility` or
`StartService` has returned Ok for the record, a lifecycle transaction has been sent for its
token. -/
structure PageAbilityRecord where
  abilityInfo : AbilityInfo
  bundleInfo : BundleInfo := { bundleName := none }
  want : Want := {}
  currentState : State := .uninitialized
  appRecord : Option Nat := none
  missionRecord : Option Nat := none
  nextPageAbility : Option Token := none
  prevPageAbility : Option Token := none
  startDone : Bool := false
  forceStop : Bool := false
  serviceSid : SvcIdentity := ⟨0, 0⟩
  connectStatus : ConnectStatus := .init
  connectRecords : List AbilityConnectRecord := []
  accepted : Bool := false
  transacted : Bool := false
  deriving DecidableEq, Repr

/-- The end of a process that has attached. -/
structure AbilityThreadClient where
  token : Nat
  pid : Int
  svcIdentity : SvcIdentity
  deriving DecidableEq, Repr

structure AppRecord where
  identityId : Nat
  bundleInfo : BundleInfo
  pid : Int := 0
  abilityThreadClient : Option AbilityThreadClient := none
  pendingAbilityRecord : Option Token := none
  deriving DecidableEq, Repr

inductive StackType where
  | launcher
  | default
  deriving DecidableEq, Repr

structure AbilityMissionRecord where
  id : Nat
  abilityMissionStack : StackType
  bundleName : Option CString
  pageAbilityRecords : List Token := []
  prevMissionRecord : Option Nat := none
  deriving DecidableEq, Repr

/-! ## Transactions -/

structure TransactionState where
  token : Token
  state : State
  deriving DecidableEq, Repr

/-- What AMS sends to the process of an application. -/
inductive Transaction where
  | appInit (bundleInfo : BundleInfo)
  | appExit
  | lifecycle (state : TransactionState) (want : Want) (abilityType : AbilityType)
  | connect (want : Want) (token : Token)
  | disconnect (want : Want) (token : Token)
  deriving DecidableEq, Repr

/-- What the handler of a request returns. -/
inductive ErrCode where
  | success
  | failure
  | invalid
  | commu
  deriving DecidableEq, Repr

/-- What AMS sends to the address a caller left with its request. -/
inductive Callback where
  | startAbility (element : Option ElementName) (code : ErrCode)
  | connectFail
  | connectDone (element : Option ElementName) (serviceSid : SvcIdentity)
  | disconnectDone (element : Option ElementName)
  deriving DecidableEq, Repr

/-! ## The service -/

/-- The kind of a deleted object that was used. -/
inductive Fault where
  | pageAbilityRecord
  | missionRecord
  | appRecord
  deriving DecidableEq, Repr

/-- The state of AMS. `records` holds every page and service record that is not deleted,
`appRecords` every process record; `unlisted` holds the mission records a full stack did not
take. `sent` is what the processes have not handled yet, in the order it was sent. -/
structure AbilityMgr where
  launcherMissionStacks : List AbilityMissionRecord := []
  defaultMissionStacks : List AbilityMissionRecord := []
  topMissionStacks : Option StackType := none
  serviceRecords : List Token := []
  appRecords : List AppRecord := []
  records : Store Token PageAbilityRecord := .empty
  unlisted : List AbilityMissionRecord := []
  generated : Nat := 0
  missions : Nat := 0
  sent : List (Nat × Transaction) := []
  callbacks : List (SvcIdentity × Callback) := []

/-- `TokenGenerate`: the value of its `n`-th call. -/
structure TokenGenerate where
  generate : Nat → Nat
  injective : ∀ m n, generate m = generate n → m = n

/-- What is outside AMS, while AMS handles one message: the bundle manager, the process
spawner, the permission manager and IPC. `loads` tells whether a process finds the code of an
ability it is asked to create. -/
structure Env where
  queryBundleInfo : Option CString → Option BundleInfo
  queryAbilityInfo : Want → Option AbilityInfo
  bundleNameForUid : Int → Option CString
  spawn : AppRecord → Option Int
  serializes : Want → Bool
  sends : Nat → Transaction → Bool
  notifies : SvcIdentity → Callback → Bool
  addDeathRecipient : SvcIdentity → Bool
  loadPermissions : BundleInfo → Option Int
  loads : Option CString → Bool

end AbilityLite.Ams
