import Mathlib.Algebra.Group.Nat.Even
import Mathlib.Data.List.Forall2
import AbilityLite.Slite.Messages

/-
  The slite framework around the manager: `AbilityMsClient`, which packs a call into a
  request of the service, the queue of the service, and the application tasks, which take
  lifecycle messages and report through the same client.

  What is proved:
  1. what the client packs the service unpacks, tokens to 16 bits (`request_message`,
     `lifecycleDone_arrives`);
  2. the service runs each call that was accepted once, in the order of acceptance, with
     the arguments of the call (`calls_in_order`);
  3. the manager with this queue and these tasks goes only where the manager of `System`
     goes, whose abilities answer directly (`refines_system`).

  Correspondence (C++ ↔ Lean):
    `Request` of the service framework         ↔ `SamgrRequest`
    `AbilityMsClient`                          ↔ `AbilityMsClient.request`, `schedulerLifecycleDone`
    `AbilityMsClient::SendRequestToAms`        ↔ `sendRequestToAms`
    `ServiceMessageHandle`, by `msgId`         ↔ `SamgrRequest.message`, `handleRequest`
    `ProcessMessage` of the two threads        ↔ `processMessage`
    `AbilityThread::Handle*`, `SliteAbility`   ↔ `handleCreate` … `handleDestroy`
-/

namespace AbilityLite.Slite

/-! ## Requests as the service framework carries them -/

/-- The commands of `AmsCommand` that the slite client sends. -/
inductive MsgId where
  | startAbility
  | terminateAbility
  | abilityTransactionDone
  | terminateApp
  | terminateAppByBundleName
  | addAbilityRecordObserver
  | removeAbilityRecordObserver
  | terminateMission
  | terminateAll
  deriving DecidableEq, Repr

/-- What `data` of a request points to. -/
inductive RequestData where
  | null
  | startAbilityData (data : StartAbilityData)
  | want (want : Want)
  | name (name : CString)
  deriving DecidableEq, Repr

structure SamgrRequest where
  msgId : MsgId
  data : RequestData := .null
  msgValue : UInt32 := 0
  deriving DecidableEq, Repr

def transactionMsgTokenMask : UInt32 := 0xFFFF
def transactionMsgStateMask : UInt32 := 0xFFFF
def transactionMsgStateOffset : UInt32 := 16

/-- The number of a `SliteAbilityState`. -/
def SliteAbilityState.number : SliteAbilityState → UInt32
  | .unknown => 0
  | .uninitialized => 1
  | .initial => 2
  | .foreground => 3
  | .background => 4

/-- The state `SchedulerLifecycleDone` switches on; any other number is in its default branch. -/
def SliteAbilityState.ofNumber (n : UInt32) : SliteAbilityState :=
  if n = 1 then .uninitialized
  else if n = 2 then .initial
  else if n = 3 then .foreground
  else if n = 4 then .background
  else .unknown

/-! ## The client -/

/-- A call of `AbilityMsClient` that asks for an operation. -/
inductive ClientCall where
  | startAbility (want : Option Want)
  | terminateAbility (token : UInt64)
  | terminateMission (mission : UInt32)
  | terminateAll (excludedBundleName : Option CString)
  | forceStopBundle (token : UInt64)
  | forceStop (bundleName : Option CString)
  | forceStopWant (want : Option Want)
  | addAbilityRecordObserver (observer : UInt32)
  | removeAbilityRecordObserver (observer : UInt32)
  deriving DecidableEq, Repr

/-- What a call finds: whether the service's identity is set and its interface is found, the task it
runs on, and what uninitialised memory holds. -/
structure AbilityMsClient where
  identity : Bool := true
  initialized : Bool := true
  curTask : Option Nat := none
  heapMission : UInt32 := 0
  deriving DecidableEq, Repr

namespace AbilityMsClient

def maskToken (token : UInt64) : UInt32 := (token &&& transactionMsgTokenMask.toUInt64).toUInt32

/-- The want `StartAbility` sends. -/
def startWant (want : Want) : Want :=
  Want.setWantData { element := want.element, mission := want.mission } want.data want.dataLength

/-- The request of a call, or the error it returns. -/
def request (c : AbilityMsClient) : ClientCall → Except ErrCode SamgrRequest
  | .startAbility none => .error paramCheckError
  | .startAbility (some want) =>
    if want.element = none ∨ c.initialized = false then .error paramCheckError
    else if c.identity = false then .error paramCheckError
    else .ok {
      msgId := .startAbility
      data := .startAbilityData { want := some (startWant want), curTask := c.curTask } }
  | .terminateAbility token =>
    if c.identity = false then .error paramCheckError
    else .ok { msgId := .terminateAbility, msgValue := maskToken token }
  | .terminateMission mission => .ok { msgId := .terminateMission, msgValue := mission }
  | .terminateAll excludedBundleName =>
    if c.identity = false then .error paramCheckError
    else .ok {
      msgId := .terminateAll
      data := match strdup excludedBundleName with
        | none => .null
        | some name => .name name }
  | .forceStopBundle token =>
    if c.identity = false then .error paramCheckError
    else .ok { msgId := .terminateApp, msgValue := maskToken token }
  | .forceStop bundleName =>
    if c.identity = false then .error paramCheckError
    else .ok {
      msgId := .terminateAppByBundleName
      data := .want { element := some { bundleName := strdup bundleName }, mission := c.heapMission } }
  | .forceStopWant want =>
    if c.identity = false then .error paramCheckError
    else match want with
      | none => .error paramCheckError
      | some want =>
        if want.element.bind (·.bundleName) = none then .error paramCheckError
        else .ok {
          msgId := .terminateAppByBundleName
          data := .want (Want.setWantData { element := want.element, mission := c.heapMission }
            want.data want.dataLength) }
  | .addAbilityRecordObserver observer =>
    if c.identity = false then .error paramCheckError
    else .ok { msgId := .addAbilityRecordObserver, msgValue := observer }
  | .removeAbilityRecordObserver observer =>
    if c.identity = false then .error paramCheckError
    else .ok { msgId := .removeAbilityRecordObserver, msgValue := observer }

def schedulerLifecycleDone (c : AbilityMsClient) (token : UInt64) (state : SliteAbilityState) :
    Except ErrCode SamgrRequest :=
  if c.identity = false then .error paramCheckError
  else .ok {
    msgId := .abilityTransactionDone
    msgValue := maskToken token ||| (state.number <<< transactionMsgStateOffset) }

/-- `SendRequestToAms`: `accepts i` is the answer of `SAMGR_SendRequest` to try `i`. -/
def sendRequestToAms (accepts : Nat → Bool) (r : SamgrRequest) (queue : List SamgrRequest) (i : Nat) :
    Nat → ErrCode × List SamgrRequest
  | 0 => (ipcRequestError, queue)
  | retry + 1 =>
    if accepts i then (errOk, queue ++ [r]) else sendRequestToAms accepts r queue (i + 1) retry

/-- A request is queued once, if one of the tries is accepted, and not at all otherwise. -/
theorem sendRequestToAms_eq {accepts : Nat → Bool} {r : SamgrRequest} {queue : List SamgrRequest}
    {i retry : Nat} :
    sendRequestToAms accepts r queue i retry =
      if ∃ k < retry, accepts (i + k) = true then (errOk, queue ++ [r]) else (ipcRequestError, queue) := by
  induction retry generalizing i with
  | zero =>
    rw [sendRequestToAms, if_neg]
    rintro ⟨k, hk, -⟩
    exact absurd hk (Nat.not_lt_zero k)
  | succ retry ih =>
    rw [sendRequestToAms]
    cases haccept : accepts i with
    | true =>
      have hsome : ∃ k < retry + 1, accepts (i + k) = true := ⟨0, Nat.succ_pos retry, haccept⟩
      rw [if_pos rfl, if_pos hsome]
    | false =>
      have hshift : (∃ k < retry, accepts (i + 1 + k) = true) ↔ ∃ k < retry + 1, accepts (i + k) = true := by
        constructor
        · rintro ⟨k, hk, h⟩
          exact ⟨k + 1, by omega, by rwa [show i + (k + 1) = i + 1 + k by omega]⟩
        · rintro ⟨k, hk, h⟩
          cases k with
          | zero =>
            rw [Nat.add_zero, haccept] at h
            cases h
          | succ k => exact ⟨k, by omega, by rwa [show i + 1 + k = i + (k + 1) by omega]⟩
      rw [if_neg Bool.false_ne_true, ih]
      by_cases h : ∃ k < retry, accepts (i + 1 + k) = true
      · rw [if_pos h, if_pos (hshift.mp h)]
      · rw [if_neg h, if_neg fun h' => h (hshift.mpr h')]

end AbilityMsClient

/-! ## The service -/

/-- What `ServiceMessageHandle` reads of a request. -/
inductive Message where
  | operation (request : Request)
  | lifecycleDone (token : UInt32) (state : UInt32)
  | observer
  deriving DecidableEq, Repr

namespace SamgrRequest

def startAbilityData (r : SamgrRequest) : Option StartAbilityData :=
  match r.data with
  | .startAbilityData data => some data
  | _ => none

def want (r : SamgrRequest) : Option Want :=
  match r.data with
  | .want want => some want
  | _ => none

def name (r : SamgrRequest) : Option CString :=
  match r.data with
  | .name name => some name
  | _ => none

def message (r : SamgrRequest) : Message :=
  match r.msgId with
  | .startAbility => .operation (.startAbility r.startAbilityData)
  | .terminateAbility => .operation (.terminateAbility r.msgValue)
  | .terminateMission => .operation (.terminateMission r.msgValue)
  | .terminateApp => .operation (.terminateApp r.msgValue)
  | .terminateAppByBundleName => .operation (.terminateAppByBundleName r.want)
  | .terminateAll => .operation (.terminateAll r.name)
  | .abilityTransactionDone =>
    .lifecycleDone (r.msgValue &&& transactionMsgTokenMask)
      ((r.msgValue >>> transactionMsgStateOffset) &&& transactionMsgStateMask)
  | .addAbilityRecordObserver | .removeAbilityRecordObserver => .observer

/-- The reply a request carries. -/
def reply (r : SamgrRequest) : Option (UInt16 × SliteAbilityState) :=
  match r.message with
  | .lifecycleDone token state => some (token.toUInt16, .ofNumber state)
  | _ => none

end SamgrRequest

/-- `ServiceMessageHandle`. The observers are not part of the manager's state. -/
def handleRequest (build : Build) (envs : Nat → Env) (m : Manager) (r : SamgrRequest) : Bool × Manager :=
  match r.message with
  | .operation request => serviceMessageHandle build envs m request
  | .lifecycleDone token state =>
    (true, schedulerLifecycleDone build envs m token.toUInt16 (.ofNumber state))
  | .observer => (true, m)

/-! ## What is packed is unpacked -/

namespace AbilityMsClient
variable {c : AbilityMsClient} {token : UInt64} {state : SliteAbilityState} {r : SamgrRequest}
  {n : UInt32}

theorem toNat_maskToken (token : UInt64) : (maskToken token).toNat = token.toNat % 2 ^ 16 := by
  have hmask : transactionMsgTokenMask.toUInt64.toNat = 2 ^ 16 - 1 := by decide
  unfold maskToken
  rw [UInt64.toNat_toUInt32, UInt64.toNat_and, hmask, Nat.and_two_pow_sub_one_eq_mod]
  omega

theorem toUInt16_maskToken (token : UInt64) : (maskToken token).toUInt16 = token.toUInt16 := by
  apply UInt16.toNat_inj.mp
  rw [UInt32.toNat_toUInt16, UInt64.toNat_toUInt16, toNat_maskToken, Nat.mod_mod]

/-- The low half of a packed value is the token, the high half the state. -/
theorem testBit_pack (token : UInt64) (hn : n.toNat < 2 ^ 16) (i : Nat) :
    (maskToken token ||| (n <<< transactionMsgStateOffset)).toNat.testBit i =
      if i < 16 then token.toNat.testBit i else n.toNat.testBit (i - 16) := by
  have hshift : (n <<< transactionMsgStateOffset).toNat = n.toNat <<< 16 := by
    have hoffset : transactionMsgStateOffset.toNat % 32 = 16 := by decide
    rw [UInt32.toNat_shiftLeft, hoffset, Nat.shiftLeft_eq]
    omega
  rw [UInt32.toNat_or, hshift, toNat_maskToken, Nat.testBit_or, Nat.testBit_shiftLeft,
    Nat.testBit_mod_two_pow]
  by_cases hi : i < 16
  · have hnot : ¬ i ≥ 16 := by omega
    simp [hi, hnot]
  · have hge : i ≥ 16 := by omega
    simp [hi, hge]

theorem unpack_token (token : UInt64) (hn : n.toNat < 2 ^ 16) :
    ((maskToken token ||| (n <<< transactionMsgStateOffset)) &&& transactionMsgTokenMask).toUInt16 =
      token.toUInt16 := by
  have hmask : transactionMsgTokenMask.toNat = 2 ^ 16 - 1 := by decide
  apply UInt16.toNat_inj.mp
  rw [UInt32.toNat_toUInt16, UInt32.toNat_and, UInt64.toNat_toUInt16, hmask,
    Nat.and_two_pow_sub_one_eq_mod, Nat.mod_mod]
  apply Nat.eq_of_testBit_eq
  intro i
  rw [Nat.testBit_mod_two_pow, Nat.testBit_mod_two_pow, testBit_pack token hn]
  by_cases hi : i < 16
  · rw [if_pos hi]
  · simp [hi]

theorem unpack_state (token : UInt64) (hn : n.toNat < 2 ^ 16) :
    ((maskToken token ||| (n <<< transactionMsgStateOffset)) >>> transactionMsgStateOffset) &&&
      transactionMsgStateMask = n := by
  have hmask : transactionMsgStateMask.toNat = 2 ^ 16 - 1 := by decide
  have hoffset : transactionMsgStateOffset.toNat % 32 = 16 := by decide
  apply UInt32.toNat_inj.mp
  rw [UInt32.toNat_and, UInt32.toNat_shiftRight, hmask, hoffset, Nat.and_two_pow_sub_one_eq_mod]
  apply Nat.eq_of_testBit_eq
  intro i
  have hge : ¬ 16 + i < 16 := by omega
  rw [Nat.testBit_mod_two_pow, Nat.testBit_shiftRight, testBit_pack token hn, if_neg hge,
    Nat.add_sub_cancel_left]
  by_cases hi : i < 16
  · simp [hi]
  · have hsmall : n.toNat < 2 ^ i :=
      Nat.lt_of_lt_of_le hn (Nat.pow_le_pow_right (by decide) (Nat.le_of_not_lt hi))
    simp [hi, Nat.testBit_lt_two_pow hsmall]

/-- The service takes the token and the state that were reported, the token to 16 bits. -/
theorem lifecycleDone_arrives (h : c.schedulerLifecycleDone token state = .ok r) :
    r.reply = some (token.toUInt16, state) := by
  have hsmall : state.number.toNat < 2 ^ 16 := by cases state <;> decide
  have hstate : SliteAbilityState.ofNumber state.number = state := by cases state <;> rfl
  unfold schedulerLifecycleDone at h
  split at h
  · cases h
  · cases h
    show some (UInt32.toUInt16 (_ &&& transactionMsgTokenMask), SliteAbilityState.ofNumber (_ &&& _)) = _
    rw [unpack_token token hsmall, unpack_state token hsmall, hstate]

end AbilityMsClient

/-- The operation that a call asks for. -/
def ClientCall.operation (build : Build) (c : AbilityMsClient) (env : Env) (m : Manager) :
    ClientCall → Option (ErrCode × Manager)
  | .startAbility want =>
    some (build.operations.startAbility env { m with curTask := c.curTask } (want.map AbilityMsClient.startWant))
  | .terminateAbility token => some (build.operations.terminateAbility env m token.toUInt16)
  | .terminateMission mission => some (build.operations.terminateMission env m mission)
  | .terminateAll excludedBundleName => some (build.operations.terminateAll env m excludedBundleName)
  | .forceStopBundle token => some (build.operations.forceStopBundle env m token.toUInt16)
  | .forceStop bundleName => some (build.operations.forceStop env m
      (some { element := some { bundleName }, mission := c.heapMission }))
  | .forceStopWant want => some (build.operations.forceStop env m (want.map fun want =>
      Want.setWantData { element := want.element, mission := c.heapMission } want.data want.dataLength))
  | .addAbilityRecordObserver _ | .removeAbilityRecordObserver _ => none

/-- The service runs the operation that a call asks for, with the arguments of the call. -/
theorem request_message (build : Build) {c : AbilityMsClient} {call : ClientCall} {r : SamgrRequest}
    (h : c.request call = .ok r) (env : Env) (m : Manager) :
    (call.operation build c env m = none ∧ r.message = .observer) ∨
      ∃ request, r.message = .operation request ∧
        request.call build env m = call.operation build c env m := by
  cases call with
  | startAbility want =>
    cases want with
    | none => cases h
    | some want =>
      simp only [AbilityMsClient.request] at h
      split at h
      · cases h
      · split at h
        · cases h
        · cases h
          exact .inr ⟨_, rfl, rfl⟩
  | terminateMission mission =>
    cases h
    exact .inr ⟨_, rfl, rfl⟩
  | terminateAbility token =>
    simp only [AbilityMsClient.request] at h
    split at h
    · cases h
    · cases h
      refine .inr ⟨_, rfl, ?_⟩
      show some (build.operations.terminateAbility env m (AbilityMsClient.maskToken token).toUInt16) = _
      rw [AbilityMsClient.toUInt16_maskToken]
      rfl
  | forceStopBundle token =>
    simp only [AbilityMsClient.request] at h
    split at h
    · cases h
    · cases h
      refine .inr ⟨_, rfl, ?_⟩
      show some (build.operations.forceStopBundle env m (AbilityMsClient.maskToken token).toUInt16) = _
      rw [AbilityMsClient.toUInt16_maskToken]
      rfl
  | terminateAll excludedBundleName =>
    simp only [AbilityMsClient.request] at h
    split at h
    · cases h
    · cases h
      cases excludedBundleName <;> exact .inr ⟨_, rfl, rfl⟩
  | forceStop bundleName =>
    simp only [AbilityMsClient.request] at h
    split at h
    · cases h
    · cases h
      exact .inr ⟨_, rfl, rfl⟩
  | forceStopWant want =>
    simp only [AbilityMsClient.request] at h
    split at h
    · cases h
    · cases want with
      | none => cases h
      | some want =>
        dsimp only at h
        split at h
        · cases h
        · cases h
          exact .inr ⟨_, rfl, rfl⟩
  | addAbilityRecordObserver observer =>
    simp only [AbilityMsClient.request] at h
    split at h
    · cases h
    · cases h
      exact .inl ⟨rfl, rfl⟩
  | removeAbilityRecordObserver observer =>
    simp only [AbilityMsClient.request] at h
    split at h
    · cases h
    · cases h
      exact .inl ⟨rfl, rfl⟩

/-- A call carries no reply. -/
theorem reply_of_request {client : AbilityMsClient} {call : ClientCall} {r : SamgrRequest}
    (h : client.request call = .ok r) : r.reply = none := by
  unfold SamgrRequest.reply
  rcases request_message (singleTask { abilityListCapacity := 2 }) h .working {} with
    ⟨-, hm⟩ | ⟨request, hm, -⟩
  · rw [hm]
  · rw [hm]

/-! ## Application tasks -/

/-- What an ability reports when its thread has it reach a state; `ability` is the token of the thread's
ability, if it has one. -/
def reach (ability : Option UInt16) (state : SliteAbilityState) : ErrCode × List (UInt16 × SliteAbilityState) :=
  match ability with
  | none => (paramNullError, [])
  | some token => (errOk, [(token, state)])

/-- The same where the want is checked first. -/
def reachWith (ability : Option UInt16) (want : Option Want) (state : SliteAbilityState) :
    ErrCode × List (UInt16 × SliteAbilityState) :=
  if ability = none then (paramNullError, [])
  else if want = none then (paramNullError, [])
  else reach ability state

def handleCreate (ability : Option UInt16) (want : Option Want) := reachWith ability want .initial
def handleForeground (ability : Option UInt16) (want : Option Want) := reachWith ability want .foreground
def handleBackground (ability : Option UInt16) := reach ability .background
def handleDestroy (ability : Option UInt16) := reach ability .uninitialized

/-- `ProcessMessage`: what is reported. -/
def processMessage (ability : Option UInt16) (msg : SliteAbilityInnerMsg) :
    List (UInt16 × SliteAbilityState) :=
  match msg.msgId with
  | .create => (handleCreate ability msg.want).2
  | .foreground => (handleForeground ability msg.want).2
  | .background => (handleBackground ability).2
  | .destroy => (handleDestroy ability).2
  | .unknown => []

theorem reachWith_some {want : Option Want} (hwant : want ≠ none) (token : UInt16)
    (state : SliteAbilityState) : (reachWith (some token) want state).2 = [(token, state)] := by
  have htoken : ¬ some token = none := by simp
  unfold reachWith
  rw [if_neg htoken, if_neg hwant]
  rfl

/-- The ability a message is for answers it once, with the state asked for. -/
theorem processMessage_answerable {msg : SliteAbilityInnerMsg} (h : msg.Answerable) (token : UInt16) :
    processMessage (some token) msg = [(token, msg.msgId.requested)] := by
  obtain ⟨hasks, hwant⟩ := h
  unfold processMessage
  cases hid : msg.msgId with
  | unknown => exact absurd hid hasks
  | create => exact reachWith_some (hwant (.inl hid)) token .initial
  | foreground => exact reachWith_some (hwant (.inr hid)) token .foreground
  | background | destroy => rfl

/-! ## The manager, the service's queue and the tasks -/

/-- The manager and the requests queued for the service, first in front. -/
structure Device where
  manager : Manager
  queue : List SamgrRequest := []
  deriving DecidableEq, Repr

/-- What can happen next.
- `call`: a task calls the client.
- `handle`: the service handles the first request.
- `task`: the task that the `i`-th message is for takes it; `left` is what the ability leaves in saved
  data it is given. That the task of a JS application ends with its ability is left out: here a task
  takes what it is sent at any time.
- `setCleanAbilityDataFlag`: the flag is set from outside. -/
inductive DeviceEvent where
  | call (client : AbilityMsClient) (accepts : Nat → Bool) (call : ClientCall)
  | handle (envs : Nat → Env)
  | task (i : Nat) (left : AbilitySavedData) (client : AbilityMsClient) (accepts : Nat → Bool)
  | setCleanAbilityDataFlag (flag : Bool)

namespace Device

/-- A report goes through the client. -/
def report (retryTimes : Nat) (client : AbilityMsClient) (accepts : Nat → Bool) (queue : List SamgrRequest)
    (x : UInt16 × SliteAbilityState) : List SamgrRequest :=
  match client.schedulerLifecycleDone x.1.toUInt64 x.2 with
  | .ok r => (AbilityMsClient.sendRequestToAms accepts r queue 0 retryTimes).2
  | .error _ => queue

/-- One step. The messages to one ability are taken in the order they were sent. -/
def next (build : Build) (retryTimes : Nat) (d : Device) : DeviceEvent → Option Device
  | .call client accepts call =>
    match client.request call with
    | .ok r => some { d with queue := (AbilityMsClient.sendRequestToAms accepts r d.queue 0 retryTimes).2 }
    | .error _ => some d
  | .handle envs =>
    match d.queue with
    | [] => none
    | r :: queue => some { manager := (handleRequest build envs d.manager r).2, queue }
  | .task i left client accepts =>
    match d.manager.sent[i]? with
    | none => none
    | some msg =>
      if (d.manager.sent.take i).any (·.token = msg.token) then none
      else
        some {
          manager := { leaveSavedData d.manager msg left with sent := d.manager.sent.eraseIdx i }
          queue := (processMessage (some msg.token) msg).foldl (report retryTimes client accepts) d.queue }
  | .setCleanAbilityDataFlag flag => some { d with manager := { d.manager with cleanAbilityDataFlag := flag } }

/-- The report of a task is accepted by the service framework within the tries that the client makes. -/
def Delivers (retryTimes : Nat) (_ : Device) : DeviceEvent → Prop
  | .task _ _ client accepts => client.identity = true ∧ ∃ k < retryTimes, accepts k = true
  | _ => True

/-- The manager with the replies that are queued among the requests. -/
def toSystem (d : Device) : System where
  manager := d.manager
  replies := d.queue.filterMap (·.reply)

variable {build : Build} {retryTimes : Nat} {d d' : Device}

theorem report_delivered {client : AbilityMsClient} {accepts : Nat → Bool} {queue : List SamgrRequest}
    {token : UInt16} {state : SliteAbilityState} (hidentity : client.identity = true)
    (haccepts : ∃ k < retryTimes, accepts k = true) :
    (report retryTimes client accepts queue (token, state)).filterMap (·.reply) =
      queue.filterMap (·.reply) ++ [(token, state)] := by
  cases hdone : client.schedulerLifecycleDone token.toUInt64 state with
  | error e =>
    unfold AbilityMsClient.schedulerLifecycleDone at hdone
    rw [hidentity] at hdone
    cases hdone
  | ok r =>
    have htoken : token.toUInt64.toUInt16 = token := by simp
    have harrives := AbilityMsClient.lifecycleDone_arrives hdone
    rw [htoken] at harrives
    have haccepts' : ∃ k < retryTimes, accepts (0 + k) = true := by simpa using haccepts
    have hreport : report retryTimes client accepts queue (token, state) = queue ++ [r] := by
      unfold report
      rw [hdone]
      dsimp only
      rw [AbilityMsClient.sendRequestToAms_eq, if_pos haccepts']
    rw [hreport, List.filterMap_append, List.filterMap_cons, List.filterMap_nil, harrives]

/-- A call queues no reply. -/
theorem call_noReply {client : AbilityMsClient} {accepts : Nat → Bool} {call : ClientCall} {r : SamgrRequest}
    {queue : List SamgrRequest} (h : client.request call = .ok r) :
    ((AbilityMsClient.sendRequestToAms accepts r queue 0 retryTimes).2).filterMap (·.reply) =
      queue.filterMap (·.reply) := by
  rw [AbilityMsClient.sendRequestToAms_eq]
  split
  · rw [List.filterMap_append, List.filterMap_cons, List.filterMap_nil,
      reply_of_request h, List.append_nil]
  · rfl

/-- Whatever is called, handled or taken, the messages in flight stay answerable. -/
theorem next_sends {e : DeviceEvent} (hbuild : build.AllSend) (h : d.next build retryTimes e = some d') :
    Sends d.manager d'.manager := by
  cases e with
  | call client accepts call =>
    simp only [Device.next] at h
    split at h <;> (cases h; exact .refl _)
  | handle envs =>
    simp only [Device.next] at h
    split at h
    · cases h
    · next r queue _ =>
      cases h
      dsimp only
      unfold handleRequest
      cases r.message with
      | operation request => exact hbuild.request envs d.manager request
      | lifecycleDone token state => exact hbuild.reply envs d.manager token.toUInt16 (.ofNumber state)
      | observer => exact .refl d.manager
  | task i left client accepts =>
    simp only [Device.next] at h
    split at h
    · cases h
    · next msg _ =>
      split at h
      · cases h
      · cases h
        exact .of_subset (List.eraseIdx_sublist d.manager.sent i).subset
  | setCleanAbilityDataFlag flag =>
    cases h
    exact .refl d.manager

/-- A step is one of the manager and its abilities, or changes nothing there. -/
theorem next_toSystem {e : DeviceEvent} (hsent : ∀ msg ∈ d.manager.sent, msg.Answerable)
    (hok : d.Delivers retryTimes e) (h : d.next build retryTimes e = some d') :
    d'.toSystem = d.toSystem ∨ ∃ e', System.next build d.toSystem e' = some d'.toSystem := by
  cases e with
  | call client accepts call =>
    simp only [Device.next] at h
    split at h
    · next r hr =>
      cases h
      refine .inl ?_
      unfold toSystem
      rw [call_noReply hr]
    · cases h
      exact .inl rfl
  | handle envs =>
    simp only [Device.next] at h
    split at h
    · cases h
    · next r queue hq =>
      cases h
      unfold toSystem
      rw [hq, List.filterMap_cons]
      unfold handleRequest
      cases hm : r.message with
      | operation request =>
        have hreply : r.reply = none := by
          unfold SamgrRequest.reply
          rw [hm]
        rw [hreply]
        exact .inr ⟨.request request envs, rfl⟩
      | lifecycleDone token state =>
        have hreply : r.reply = some (token.toUInt16, .ofNumber state) := by
          unfold SamgrRequest.reply
          rw [hm]
        rw [hreply]
        exact .inr ⟨.reply envs, rfl⟩
      | observer =>
        have hreply : r.reply = none := by
          unfold SamgrRequest.reply
          rw [hm]
        rw [hreply]
        exact .inl rfl
  | task i left client accepts =>
    obtain ⟨hidentity, haccepts⟩ := hok
    simp only [Device.next] at h
    split at h
    · cases h
    · next msg hmsg =>
      split at h
      · cases h
      · next hfirst =>
        cases h
        refine .inr ⟨.answer i left, ?_⟩
        have hreport := processMessage_answerable (hsent msg (List.mem_of_getElem? hmsg)) msg.token
        unfold toSystem System.next
        dsimp only
        rw [hmsg]
        dsimp only
        rw [if_neg hfirst, hreport, List.foldl_cons, List.foldl_nil, report_delivered hidentity haccepts]
  | setCleanAbilityDataFlag flag =>
    cases h
    exact .inr ⟨.setCleanAbilityDataFlag flag, rfl⟩

/-- The manager with the service's queue, the client and the tasks goes only where it goes with abilities
that answer directly: whatever the calls and however they, the tasks and the service interleave. -/
theorem refines_system {cfg : Config} {m : Manager}
    (hbuild : build = singleTask cfg ∨ build = multiTasks cfg)
    (hm : ∀ msg ∈ m.sent, msg.Answerable)
    (h : Reached (Device.next build retryTimes) (Device.Delivers retryTimes)
      (fun d => d = { manager := m }) d) :
    Reached (System.next build) (fun _ _ => True) (fun s => s = { manager := m }) d.toSystem := by
  have hsends : build.AllSend := by
    rcases hbuild with rfl | rfl
    · exact singleTask_allSend cfg
    · exact multiTasks_allSend cfg
  have hsent : ∀ d, Reached (Device.next build retryTimes) (Device.Delivers retryTimes)
      (fun d => d = { manager := m }) d → ∀ msg ∈ d.manager.sent, msg.Answerable := by
    intro d h
    induction h with
    | init h =>
      rw [h]
      exact hm
    | step _ _ hnext ih => exact fun msg hmsg => (next_sends hsends hnext msg hmsg).elim (ih msg) id
  induction h with
  | init h =>
    rw [h]
    exact .init rfl
  | step hreached hok hnext ih =>
    rcases next_toSystem (hsent _ hreached) hok hnext with hsame | ⟨e, hstep⟩
    · rwa [hsame]
    · exact ih.step trivial hstep

/-! ### Calls in order -/

/-- What happens to calls: a call is accepted, or the service has run what a request asks for, in an
environment and from a state, with a result. -/
inductive Traffic where
  | accepted (client : AbilityMsClient) (call : ClientCall)
  | ran (env : Env) (m : Manager) (result : Option (ErrCode × Manager))

/-- The traffic of one step; the replies of abilities are none of it. -/
def traffic (build : Build) (retryTimes : Nat) (d : Device) (e : DeviceEvent) (_ : Device) : List Traffic :=
  match e with
  | .call client accepts call =>
    match client.request call with
    | .ok r =>
      if (AbilityMsClient.sendRequestToAms accepts r d.queue 0 retryTimes).1 = errOk then
        [.accepted client call]
      else []
    | .error _ => []
  | .handle envs =>
    match d.queue with
    | [] => []
    | r :: _ =>
      match r.message with
      | .operation request => [.ran (envs 0) d.manager (request.call build (envs 0) d.manager)]
      | .observer => [.ran (envs 0) d.manager none]
      | .lifecycleDone _ _ => []
  | _ => []

/-- The calls that were accepted. -/
def acceptedCalls (l : List Traffic) : List (AbilityMsClient × ClientCall) :=
  l.filterMap fun
    | .accepted client call => some (client, call)
    | .ran _ _ _ => none

/-- What the service ran, with its environment, the state it found, and the result. -/
def ranOperations (l : List Traffic) : List (Env × Manager × Option (ErrCode × Manager)) :=
  l.filterMap fun
    | .accepted _ _ => none
    | .ran env m result => some (env, m, result)

/-- The call was run as it was made. -/
def Ran (build : Build) (x : AbilityMsClient × ClientCall) (y : Env × Manager × Option (ErrCode × Manager)) :
    Prop := y.2.2 = x.2.operation build x.1 y.1 y.2.1

/-- The request is that of the call. -/
def RequestOf (x : AbilityMsClient × ClientCall) (r : SamgrRequest) : Prop := x.1.request x.2 = .ok r

/-- The requests of calls, among those that are queued. -/
def waiting (d : Device) : List SamgrRequest := d.queue.filter fun r => r.reply.isNone

/-- A report is no call. -/
theorem waiting_reports {client : AbilityMsClient} {accepts : Nat → Bool} {queue : List SamgrRequest}
    {reports : List (UInt16 × SliteAbilityState)} :
    (reports.foldl (report retryTimes client accepts) queue).filter (fun r => r.reply.isNone) =
      queue.filter fun r => r.reply.isNone := by
  induction reports generalizing queue with
  | nil => rfl
  | cons x reports ih =>
    rw [List.foldl_cons, ih]
    unfold report
    cases hdone : client.schedulerLifecycleDone x.1.toUInt64 x.2 with
    | error e => rfl
    | ok r =>
      have hreply := AbilityMsClient.lifecycleDone_arrives hdone
      dsimp only
      rw [AbilityMsClient.sendRequestToAms_eq]
      split
      · rw [List.filter_append, List.filter_cons_of_neg (by rw [hreply]; exact Bool.false_ne_true),
          List.filter_nil, List.append_nil]
      · rfl

/-- The calls that were accepted are those that were run, as they were made, and those that wait. -/
def InOrder (build : Build) (l : List Traffic) (d : Device) : Prop :=
  ∃ done pending, acceptedCalls l = done ++ pending ∧ List.Forall₂ (Ran build) done (ranOperations l) ∧
    List.Forall₂ RequestOf pending d.waiting

theorem InOrder.next {l : List Traffic} {e : DeviceEvent} (h : InOrder build l d)
    (hnext : d.next build retryTimes e = some d') :
    InOrder build (l ++ traffic build retryTimes d e d') d' := by
  obtain ⟨done, pending, hsplit, hdone, hpending⟩ := h
  have hquiet (hwaiting : d'.waiting = d.waiting) : InOrder build (l ++ []) d' := by
    rw [List.append_nil]
    exact ⟨done, pending, hsplit, hdone, hwaiting ▸ hpending⟩
  -- the call that waits longest is the one that is run
  have hserved {r : SamgrRequest} {queue : List SamgrRequest} {env : Env}
      {result : Option (ErrCode × Manager)} (hq : d.queue = r :: queue) (hq' : d'.queue = queue)
      (hreply : r.reply = none)
      (hran : ∀ x : AbilityMsClient × ClientCall, RequestOf x r →
        result = x.2.operation build x.1 env d.manager) :
      InOrder build (l ++ [.ran env d.manager result]) d' := by
    have hwaiting : d.waiting = r :: d'.waiting := by
      unfold waiting
      rw [hq, hq', List.filter_cons_of_pos (by rw [hreply]; rfl)]
    rw [hwaiting] at hpending
    cases hpending with
    | @cons x _ pending _ hx hrest =>
      refine ⟨done ++ [x], pending, ?_, ?_, hrest⟩
      · unfold acceptedCalls at hsplit ⊢
        rw [List.filterMap_append, hsplit, List.append_assoc done [x] pending, List.append_assoc]
        exact congrArg (done ++ ·) (List.append_nil (x :: pending))
      · unfold ranOperations at hdone ⊢
        rw [List.filterMap_append]
        exact List.rel_append hdone (.cons (hran x hx) .nil)
  cases e with
  | call client accepts call =>
    simp only [Device.next] at hnext
    simp only [traffic]
    cases hr : client.request call with
    | error e =>
      rw [hr] at hnext
      cases hnext
      exact hquiet rfl
    | ok r =>
      rw [hr] at hnext
      cases hnext
      dsimp only
      by_cases haccept : ∃ k < retryTimes, accepts (0 + k) = true
      · rw [AbilityMsClient.sendRequestToAms_eq, if_pos haccept, if_pos rfl]
        refine ⟨done, pending ++ [(client, call)], ?_, ?_, ?_⟩
        · unfold acceptedCalls at hsplit ⊢
          rw [List.filterMap_append, hsplit, List.append_assoc]
          rfl
        · unfold ranOperations at hdone ⊢
          rw [List.filterMap_append]
          exact (List.append_nil _).symm ▸ hdone
        · unfold waiting at hpending ⊢
          dsimp only
          rw [List.filter_append, List.filter_cons_of_pos (by rw [reply_of_request hr]; rfl),
            List.filter_nil]
          exact List.rel_append hpending (.cons hr .nil)
      · have herror : ipcRequestError ≠ errOk := by decide
        have hsend : AbilityMsClient.sendRequestToAms accepts r d.queue 0 retryTimes =
            (ipcRequestError, d.queue) := by
          rw [AbilityMsClient.sendRequestToAms_eq, if_neg haccept]
        rw [hsend] at hquiet ⊢
        rw [if_neg herror]
        exact hquiet rfl
  | handle envs =>
    simp only [Device.next] at hnext
    simp only [traffic]
    cases hq : d.queue with
    | nil =>
      rw [hq] at hnext
      cases hnext
    | cons r queue =>
      rw [hq] at hnext
      cases hnext
      dsimp only
      cases hm : r.message with
      | lifecycleDone token state =>
        refine hquiet ?_
        have hreply : r.reply.isNone = false := by
          unfold SamgrRequest.reply
          rw [hm]
          rfl
        unfold waiting
        rw [hq, List.filter_cons_of_neg (by rw [hreply]; exact Bool.false_ne_true)]
      | operation request =>
        refine hserved hq rfl ?_ fun x hx => ?_
        · unfold SamgrRequest.reply
          rw [hm]
        · rcases request_message build hx (envs 0) d.manager with ⟨-, hobserver⟩ | ⟨request', hrequest, hcall⟩
          · rw [hm] at hobserver
            cases hobserver
          · rw [hm] at hrequest
            cases hrequest
            exact hcall
      | observer =>
        refine hserved hq rfl ?_ fun x hx => ?_
        · unfold SamgrRequest.reply
          rw [hm]
        · rcases request_message build hx (envs 0) d.manager with ⟨hnone, -⟩ | ⟨request', hrequest, -⟩
          · exact hnone.symm
          · rw [hm] at hrequest
            cases hrequest
  | task i left client accepts =>
    refine hquiet ?_
    simp only [Device.next] at hnext
    split at hnext
    · cases hnext
    · split at hnext
      · cases hnext
      · cases hnext
        exact waiting_reports
  | setCleanAbilityDataFlag flag =>
    cases hnext
    exact hquiet rfl

/-- Over any run, the calls that were accepted are, in the order of acceptance, the calls that the service has
run, each once and as it was made, and then those that wait in its queue. -/
theorem calls_in_order {m : Manager} {l : List Traffic}
    (h : Logs (Device.next build retryTimes) (fun _ _ => True) (traffic build retryTimes) { manager := m } l d) :
    ∃ done pending, acceptedCalls l = done ++ pending ∧ List.Forall₂ (Ran build) done (ranOperations l) ∧
      List.Forall₂ RequestOf pending d.waiting := by
  have hinit : InOrder build [] { manager := m } := ⟨[], [], rfl, .nil, .nil⟩
  refine Logs.invariant (InOrder build) hinit ?_ h
  intro l d e d' hinv _ hnext
  exact hinv.next hnext

/-- Of three calls two are accepted, one of them at the third try, and the service has got to that one. -/
theorem calls_in_order_start :
    ∃ (l : List Traffic) (d : Device) (done pending : List (AbilityMsClient × ClientCall)),
      acceptedCalls l = done ++ pending ∧
        List.Forall₂ (Ran (multiTasks { abilityListCapacity := 8 })) done (ranOperations l) ∧
        List.Forall₂ RequestOf pending d.waiting ∧ done.length = 1 ∧ pending.length = 1 := by
  let events : List DeviceEvent := [
    .call {} (fun i => decide (i = 2)) (.startAbility (some { element := some { bundleName := some (cstr "a") } })),
    .call {} (fun _ => false) (.terminateAll none),
    .call {} (fun _ => true) (.terminateAbility 0x70001),
    .handle fun _ => .working]
  have h : (Logs.logRun (Device.next (multiTasks { abilityListCapacity := 8 }) 3)
      (traffic (multiTasks { abilityListCapacity := 8 }) 3) { manager := {} } events).map
        (fun x => ((ranOperations x.1).length, x.2.waiting.length)) = some (1, 1) := by decide
  obtain ⟨⟨l, d⟩, hrun, hlengths⟩ := Option.map_eq_some_iff.mp h
  simp only [Prod.mk.injEq] at hlengths
  have hlogs : Logs (Device.next (multiTasks { abilityListCapacity := 8 }) 3) (fun _ _ => True)
      (traffic (multiTasks { abilityListCapacity := 8 }) 3) { manager := {} } l d :=
    Logs.of_logRun (fun _ _ _ => trivial) hrun
  obtain ⟨done, pending, hsplit, hdone, hpending⟩ := calls_in_order hlogs
  exact ⟨l, d, done, pending, hsplit, hdone, hpending, hdone.length_eq.trans hlengths.1,
    hpending.length_eq.trans hlengths.2⟩

/-! ### The launcher comes up, and an application is asked for -/

def launcherDevice : Device where
  manager := MultiTasks.startLauncher { abilityListCapacity := 8 } .working {}

def taskTurn : DeviceEvent := .task 0 {} {} fun i => decide (i = 1)
def serviceTurn : DeviceEvent := .handle fun _ => .working
def callStart : DeviceEvent :=
  .call {} (fun _ => true) (.startAbility (some { element := some { bundleName := some (cstr "a") } }))

theorem refines_system_launcher :
    ∃ d, run (Device.next (multiTasks { abilityListCapacity := 8 }) 3) launcherDevice
        [taskTurn, callStart, serviceTurn, taskTurn, serviceTurn] = some d ∧
      d.queue.length = 1 ∧
      Reached (System.next (multiTasks { abilityListCapacity := 8 })) (fun _ _ => True)
        (fun s => s = { manager := launcherDevice.manager }) d.toSystem := by
  have h : (run (Device.next (multiTasks { abilityListCapacity := 8 }) 3) launcherDevice
      [taskTurn, callStart, serviceTurn, taskTurn, serviceTurn]).map (·.queue.length) = some 1 := by decide
  obtain ⟨d, hrun, hlength⟩ := Option.map_eq_some_iff.mp h
  have hsent : ∀ msg ∈ launcherDevice.manager.sent, msg.Answerable := by decide
  have hdelivers : ∀ d, Device.Delivers 3 d taskTurn := fun _ => ⟨rfl, 1, by decide, rfl⟩
  have hok : ∀ e ∈ [taskTurn, callStart, serviceTurn, taskTurn, serviceTurn], ∀ d, Device.Delivers 3 d e := by
    intro e he d
    simp only [List.mem_cons, List.not_mem_nil, or_false] at he
    rcases he with rfl | rfl | rfl | rfl | rfl
    · exact hdelivers d
    · trivial
    · trivial
    · exact hdelivers d
    · trivial
  have hreached : Reached (Device.next (multiTasks { abilityListCapacity := 8 }) 3) (Device.Delivers 3)
      (fun d => d = { manager := launcherDevice.manager }) d := by
    have hinit : launcherDevice = { manager := launcherDevice.manager } := rfl
    exact Reached.steps (.init hinit) _ hok hrun
  exact ⟨d, hrun, hlength, refines_system (.inr rfl) hsent hreached⟩

end Device
end AbilityLite.Slite
