import AbilityLite.Ipc.AbilityThreadClient

/-
  The requests of applications to AMS: `AbilityMsClient` writes them, the two features of
  AMS read them and queue a request for `AbilityMgrHandler`.

  `ScheduleAms` writes the token only if it is not 0, the identity and the Want only if
  there are any; each handler reads a fixed layout.

  What is proved (`requests_decode_iff`): which calls of the framework are queued once and
  with the same token, Want and identity, and which function ids select a slot of
  `invokeFuncList` that holds no handler.

  Correspondence (C++ ↔ Lean):
    `AbilityMsClient::ScheduleAms`, `SchedulerLifecycleDone`
                                          ↔ `scheduleAms`, `schedulerLifecycleDone`
    `AbilityContext`, `AbilityServiceManager`, `AbilityThread`, `ability_manager.cpp`
                                          ↔ `Call.schedule`
    `AbilityMgrFeature::…Invoke`          ↔ `AbilityMgrFeature.startAbilityInvoke` …
    `AbilityMgrFeature::Invoke`           ↔ `AbilityMgrFeature.invoke`
    `AbilityInnerFeature::Invoke`         ↔ `AbilityInnerFeature.invoke`
-/

namespace AbilityLite.Ipc

open AbilityLite.Ams

/-! ## Commands -/

/-- `AmsCommand`, in the order of the source. -/
inductive AmsCommand where
  | startAbility
  | terminateAbility
  | attachBundle
  | connectAbility
  | connectAbilityDone
  | disconnectAbility
  | disconnectAbilityDone
  | abilityTransactionDone
  | terminateService
  | startAbilityWithCb
  | terminateApp
  | dumpAbility
  | terminateAppByBundleName
  | addAbilityRecordObserver
  | removeAbilityRecordObserver
  | terminateMission
  | terminateAll
  deriving DecidableEq, Repr

def AmsCommand.code (command : AmsCommand) : Int := command.ctorIdx

def startAbilityCode : Int := 0
def innerBegin : Int := 10
def commandEnd : Int := 17

/-! ## The client -/

/-- The process of an application: whether it has a proxy of AMS, its pid, and whether
`__LINUX__` is defined. -/
structure Client where
  amsProxy : Bool
  pid : Int32
  linux : Bool

variable (p : Platform)

/-- The function id and the buffer that the proxy is invoked with. -/
abbrev Invocation := Int × Io SvcIdentity

namespace Client

variable (client : Client)

def schedulerLifecycleDone (token : UInt64) (state : Int32) : Except AbilityErrors Invocation :=
  if client.amsProxy then
    .ok (AmsCommand.abilityTransactionDone.code, writeUint64 token ++ writeInt32 state)
  else .error .paramNullError

/-- The identity, followed by the pid when a process attaches on Linux. -/
def writeSid (sid : Option SvcIdentity) (command : AmsCommand) : Option (Io SvcIdentity) :=
  match sid with
  | none => some []
  | some sid =>
    if p.writesRemoteObject sid then
      some (writeRemoteObject sid ++
        if client.linux && command = .attachBundle then writeUint64 client.pid.toInt64.toUInt64
        else [])
    else none

def writeWant : Option Want → Option (Io SvcIdentity)
  | none => some []
  | some want => serializeWant p want

def writeToken (token : UInt64) : Io SvcIdentity := if token ≠ 0 then writeUint64 token else []

def scheduleAms (want : Option Want) (token : UInt64) (sid : Option SvcIdentity)
    (command : AmsCommand) : Except AbilityErrors Invocation :=
  if client.amsProxy then
    match client.writeSid p sid command, writeWant p want with
    | some sid, some want => .ok (command.code, writeToken token ++ (sid ++ want))
    | _, _ => .error .serializeError
  else .error .paramNullError

end Client

/-- What the framework asks AMS for. -/
inductive Call where
  | startAbility (want : Want)
  | terminateAbility (token : UInt64)
  | stopAbility (want : Want)
  | startAbilityWithCallback (want : Want) (svc : SvcIdentity)
  | connectAbility (want : Want) (token : UInt64) (sid : SvcIdentity)
  | disconnectAbility (token : UInt64) (sid : SvcIdentity)
  | connectAbilityDone (token : UInt64) (sid : Option SvcIdentity)
  | disconnectAbilityDone (token : UInt64)
  | attachBundle (token : UInt64) (identity : SvcIdentity)
  | schedulerLifecycleDone (token : UInt64) (state : Int32)
  deriving DecidableEq, Repr

def Call.schedule (client : Client) : Call → Except AbilityErrors Invocation
  | startAbility want => client.scheduleAms p (some want) 0 none .startAbility
  | terminateAbility token => client.scheduleAms p none token none .terminateAbility
  | stopAbility want => client.scheduleAms p (some want) 0 none .terminateService
  | startAbilityWithCallback want svc =>
    client.scheduleAms p (some want) 0 (some svc) .startAbilityWithCb
  | connectAbility want token sid =>
    client.scheduleAms p (some want) token (some sid) .connectAbility
  | disconnectAbility token sid => client.scheduleAms p none token (some sid) .disconnectAbility
  | connectAbilityDone token sid => client.scheduleAms p none token sid .connectAbilityDone
  | disconnectAbilityDone token => client.scheduleAms p none token none .disconnectAbilityDone
  | attachBundle token identity => client.scheduleAms p none token (some identity) .attachBundle
  | schedulerLifecycleDone token state => client.schedulerLifecycleDone token state

/-! ## AMS -/

/-- A request as it is queued for `AbilityMgrHandler`. -/
inductive AmsRequest where
  | startAbility (want : Want) (callingUid : Int32)
  | terminateAbility (token : UInt64)
  | attachBundle (token : UInt64) (pid : Int32) (svc : SvcIdentity)
  | connectAbility (want : Want) (svc : SvcIdentity) (token : UInt64) (callingUid : Int32)
  | connectAbilityDone (svc : SvcIdentity) (token : UInt64)
  | disconnectAbility (svc : SvcIdentity) (token : UInt64)
  | disconnectAbilityDone (token : UInt64)
  | transactionDone (token : UInt64) (state : Int32)
  | terminateService (want : Want) (callingUid : Int32)
  | terminateApp (bundleName : CString)
  | dumpAbility (want : Want)
  deriving DecidableEq, Repr

/-- What becomes of an invocation: a request is queued, the Want goes to the distributed
scheduler (whose result is returned, and reported to `callback`), an error is returned, or a slot
without a handler is called. -/
inductive Handled where
  | queued (request : AmsRequest)
  | remote (want : Want) (callback : Option SvcIdentity)
  | error (code : ErrCode)
  | commandError
  | emptySlot
  deriving DecidableEq, Repr

/-- What AMS asks of the system: who calls, and whether its queue takes a request. -/
structure ServerEnv where
  linux : Bool
  callingUid : Int32
  callingPid : Int32
  sendRequest : AmsRequest → Bool

variable (env : ServerEnv)

/-- `SAMGR_SendRequest`. -/
def ServerEnv.send (request : AmsRequest) : Handled :=
  if env.sendRequest request then .queued request else .error .commu

/-- `SetWantElement`, `SetWantData` and `SetWantSvcIdentity` on a Want of zeros. -/
def copyWant (want : Want) : Want :=
  let element := want.element.map fun element =>
    { element with deviceId := strdup element.deviceId, bundleName := strdup element.bundleName,
                   abilityName := strdup element.abilityName }
  match setWantData want.data want.dataLength with
  | some (data, dataLength) => { element, sid := want.sid, data, dataLength }
  | none => { element, sid := want.sid }

abbrev InvokeFunc := Io SvcIdentity → Handled

/-- A device is named, with at least one character. -/
def isRemote (element : ElementName) : Bool :=
  match element.deviceId with
  | none => false
  | some deviceId => !deviceId.bytes.isEmpty

namespace AbilityMgrFeature

def startAbilityInner (want : Want) : Handled :=
  if want.element.isNone then .error .invalid
  else env.send (.startAbility (copyWant want) env.callingUid)

def startAbilityInvoke : InvokeFunc := fun req =>
  if env.callingUid < 0 then .error .invalid
  else
    match deserializeWant p req with
    | (none, _) => .error .failure
    | (some want, _) =>
      match want.element with
      | none => .error .invalid
      | some element =>
        if isRemote element then .remote want none else startAbilityInner env want

/-- Only a remote ability is started. -/
def startAbilityWithCbInvoke : InvokeFunc := fun req =>
  if env.callingUid < 0 then .error .invalid
  else
    match readRemoteObject req with
    | (none, _) => .error .invalid
    | (some svc, req) =>
      match deserializeWant p req with
      | (none, _) => .error .failure
      | (some want, _) =>
        match want.element with
        | none => .error .invalid
        | some element => if isRemote element then .remote want (some svc) else .error .failure

def terminateAbilityInvoke : InvokeFunc := fun req =>
  env.send (.terminateAbility (readUint64 p.misread req).1)

def abilityTransactionDoneInvoke : InvokeFunc := fun req =>
  let (token, req) := readUint64 p.misread req
  env.send (.transactionDone token (readInt32 p.misread req).1)

def attachBundleInvoke : InvokeFunc := fun req =>
  let (token, req) := readUint64 p.misread req
  match readRemoteObject req with
  | (none, _) => .error .invalid
  | (some svc, req) =>
    let callingPid :=
      if env.linux then (readUint64 p.misread req).1.toInt64.toInt32 else env.callingPid
    if callingPid < 0 then .error .invalid else env.send (.attachBundle token callingPid svc)

def connectAbilityInner (want : Want) (svc : SvcIdentity) (token : UInt64) : Handled :=
  if want.element.isNone then .error .invalid
  else env.send (.connectAbility (copyWant want) svc token env.callingUid)

def connectAbilityInvoke : InvokeFunc := fun req =>
  if env.callingUid < 0 then .error .invalid
  else
    let (token, req) := readUint64 p.misread req
    match readRemoteObject req with
    | (none, _) => .error .invalid
    | (some svc, req) =>
      match deserializeWant p req with
      | (none, _) => .error .failure
      | (some want, _) => connectAbilityInner env want svc token

/-- A token and an identity, as `DISCONNECT_ABILITY` and `CONNECT_ABILITY_DONE` are read. -/
def tokenAndSvcInvoke (request : SvcIdentity → UInt64 → AmsRequest) : InvokeFunc := fun req =>
  let (token, req) := readUint64 p.misread req
  match readRemoteObject req with
  | (none, _) => .error .invalid
  | (some svc, _) => env.send (request svc token)

def disconnectAbilityInvoke : InvokeFunc := tokenAndSvcInvoke p env .disconnectAbility

def connectAbilityDoneInvoke : InvokeFunc := tokenAndSvcInvoke p env .connectAbilityDone

def disconnectAbilityDoneInvoke : InvokeFunc := fun req =>
  env.send (.disconnectAbilityDone (readUint64 p.misread req).1)

def stopAbilityInner (want : Want) : Handled :=
  if want.element.isNone then .error .invalid
  else env.send (.terminateService (copyWant want) env.callingUid)

def stopAbilityInvoke : InvokeFunc := fun req =>
  if env.callingUid < 0 then .error .invalid
  else
    match deserializeWant p req with
    | (none, _) => .error .failure
    | (some want, _) => stopAbilityInner env want

end AbilityMgrFeature

/-- Call what a slot of a table holds. -/
def callSlot (table : List (Option InvokeFunc)) (index : Int) (req : Io SvcIdentity) : Handled :=
  match table[index.toNat]? with
  | some (some handler) => handler req
  | _ => .emptySlot

namespace AbilityMgrFeature

def invokeFuncList : List (Option InvokeFunc) :=
  [some (startAbilityInvoke p env), some (terminateAbilityInvoke p env),
    some (attachBundleInvoke p env), some (connectAbilityInvoke p env),
    some (connectAbilityDoneInvoke p env), some (disconnectAbilityInvoke p env),
    some (disconnectAbilityDoneInvoke p env), some (abilityTransactionDoneInvoke p env),
    some (stopAbilityInvoke p env), some (startAbilityWithCbInvoke p env)]

def invoke (funcId : Int) (req : Option (Io SvcIdentity)) : Handled :=
  match req with
  | none => .error .invalid
  | some req =>
    if funcId ≥ startAbilityCode ∧ funcId < innerBegin then
      callSlot (invokeFuncList p env) funcId req
    else .commandError

end AbilityMgrFeature

namespace AbilityInnerFeature

def maxBundleNameSize : Nat := 128

/-- `IsLegalBundleName`. -/
def isLegalBundleName (bundleName : CString) : Bool :=
  0 < bundleName.bytes.length && bundleName.bytes.length ≤ maxBundleNameSize

def terminateAppInvoke : InvokeFunc := fun req =>
  match readString p.misread req with
  | (none, _) => .error .invalid
  | (some bundleName, _) =>
    if isLegalBundleName bundleName then env.send (.terminateApp bundleName) else .error .invalid

def dumpAbilityInvoke : InvokeFunc := fun req =>
  match deserializeWant p req with
  | (none, _) => .error .failure
  | (some want, _) =>
    if want.sid.isNone then .error .failure else env.send (.dumpAbility (copyWant want))

/-- The table has a slot for each command from `INNER_BEGIN` on; two of them are filled. -/
def invokeFuncList : List (Option InvokeFunc) :=
  [some (terminateAppInvoke p env), some (dumpAbilityInvoke p env)] ++
    List.replicate ((commandEnd - innerBegin).toNat - 2) none

def invoke (funcId : Int) (req : Option (Io SvcIdentity)) : Handled :=
  match req with
  | none => .error .invalid
  | some req =>
    if funcId ≥ innerBegin ∧ funcId < commandEnd then
      callSlot (invokeFuncList p env) (funcId - innerBegin) req
    else .commandError

end AbilityInnerFeature

/-! ## What a call should lead to -/

/-- The request that is queued has the token, the Want and the identity of the call. -/
def Matches : Call → AmsRequest → Prop
  | .startAbility want, .startAbility want' _ => SameWant want want'
  | .terminateAbility token, .terminateAbility token' => token' = token
  | .stopAbility want, .terminateService want' _ => SameWant want want'
  | .startAbilityWithCallback want _, .startAbility want' _ => SameWant want want'
  | .connectAbility want token sid, .connectAbility want' svc token' _ =>
    SameWant want want' ∧ svc = sid ∧ token' = token
  | .disconnectAbility token sid, .disconnectAbility svc token' => svc = sid ∧ token' = token
  | .connectAbilityDone token sid, .connectAbilityDone svc token' => some svc = sid ∧ token' = token
  | .disconnectAbilityDone token, .disconnectAbilityDone token' => token' = token
  | .attachBundle token identity, .attachBundle token' _ svc => svc = identity ∧ token' = token
  | .schedulerLifecycleDone token state, .transactionDone token' state' =>
    token' = token ∧ state' = state
  | _, _ => False

/-- When a call is queued as it was made: there is a token before an identity, the Want names an
element and has its data, and a start is local. -/
def Aligned : Call → Prop
  | .startAbility want =>
    hasData want ∧ ∃ element, want.element = some element ∧ isRemote element = false
  | .stopAbility want => hasData want ∧ want.element.isSome = true
  | .startAbilityWithCallback _ _ => False
  | .connectAbility want token _ => token ≠ 0 ∧ hasData want ∧ want.element.isSome = true
  | .disconnectAbility token _ | .attachBundle token _ => token ≠ 0
  | .connectAbilityDone token sid => token ≠ 0 ∧ sid.isSome = true
  | .terminateAbility _ | .disconnectAbilityDone _ | .schedulerLifecycleDone _ _ => True

/-! ## Wants -/

theorem copyWant_hasData (want : Want) : hasData (copyWant want) := by
  unfold copyWant
  cases h : setWantData want.data want.dataLength with
  | none => exact fun hne => absurd rfl hne
  | some data =>
    obtain ⟨copy, -, rfl⟩ := Option.map_eq_some_iff.mp h
    exact fun _ => rfl

theorem copyWant_same {want : Want} (h : hasData want) : SameWant want (copyWant want) := by
  have helement : want.element.map (fun element =>
      { element with deviceId := strdup element.deviceId, bundleName := strdup element.bundleName,
                     abilityName := strdup element.abilityName }) = want.element := by
    cases want.element <;> rfl
  simp only [copyWant, helement, setWantData]
  by_cases hlen : want.dataLength = 0
  · simp [SameWant, payload, memdup, hlen]
  · obtain ⟨bytes, hbytes⟩ := Option.isSome_iff_exists.mp (h hlen)
    simp [SameWant, payload, memdup, hlen, hbytes, List.take_take]

theorem SameWant.trans {want want' want'' : Want} (h : SameWant want want')
    (h' : SameWant want' want'') : SameWant want want'' :=
  ⟨h'.1.trans h.1, h'.2.1.trans h.2.1, h'.2.2.1.trans h.2.2.1, h'.2.2.2.trans h.2.2.2⟩

/-- The copy that is queued of a Want that was read. -/
theorem copyWant_received {want : Want} (h : hasData want) :
    SameWant want (copyWant (received want)) :=
  (received_same want).trans (copyWant_same ((received_same want).symm.hasData h))

/-! ## Reading what `ScheduleAms` wrote -/

/-- The caller and AMS are built alike, the system tells who calls, and the queue of AMS takes
every request. -/
structure Serves (client : Client) (env : ServerEnv) : Prop where
  linux : env.linux = client.linux
  uid : ¬ env.callingUid < 0
  pid : ¬ env.callingPid < 0
  clientPid : ¬ client.pid < 0
  sendRequest : ∀ request, env.sendRequest request = true

variable {p env} {client : Client}

theorem Serves.send (hs : Serves client env) (request : AmsRequest) :
    env.send request = .queued request := by
  simp only [ServerEnv.send, hs.sendRequest, if_true]

theorem scheduleAms_eq_ok {want : Option Want} {token : UInt64} {sid : Option SvcIdentity}
    {command : AmsCommand} {m : Invocation}
    (h : client.scheduleAms p want token sid command = .ok m) :
    ∃ sidPart wantPart, client.writeSid p sid command = some sidPart ∧
      Client.writeWant p want = some wantPart ∧
      m = (command.code, Client.writeToken token ++ (sidPart ++ wantPart)) := by
  unfold Client.scheduleAms at h
  split at h
  · split at h
    · rename_i sidPart wantPart hsid hwant
      cases h
      exact ⟨sidPart, wantPart, hsid, hwant, rfl⟩
    · cases h
  · cases h

theorem writeSid_eq_some {sid : SvcIdentity} {command : AmsCommand} {out : Io SvcIdentity}
    (h : client.writeSid p (some sid) command = some out) :
    out = writeRemoteObject sid ++
      if client.linux && command = .attachBundle then writeUint64 client.pid.toInt64.toUInt64
      else [] := by
  simp only [Client.writeSid] at h
  split at h <;> cases h
  rfl

/-- A token that is not written is read as 0 if nothing follows it. -/
theorem readUint64_writeToken_nil (token : UInt64) :
    readUint64 p.misread (Client.writeToken token) = (token, []) := by
  unfold Client.writeToken
  split
  · rfl
  · rename_i h
    rw [Decidable.not_not.mp h]
    rfl

theorem writeToken_of_ne {token : UInt64} (h : token ≠ 0) :
    Client.writeToken token = writeUint64 token := if_pos h

/-- Where the token is 0, an identity is read as the token, and whatever else was written after
it is not an identity. -/
theorem readRemoteObject_shifted (sid : SvcIdentity) (out : Io SvcIdentity)
    (h : ∀ o io, out ≠ .object o :: io) :
    (readRemoteObject (readUint64 p.misread
      (Client.writeToken 0 ++ (writeRemoteObject sid ++ out))).2).1 = none := by
  show (readRemoteObject out).1 = none
  cases out with
  | nil => rfl
  | cons i io =>
    cases i with
    | object o => exact absurd rfl (h o io)
    | _ => rfl

/-! ## Each call -/

open AbilityMgrFeature

/-- The call is queued once, as it was made. -/
def Queues (p : Platform) (env : ServerEnv) (call : Call) (m : Invocation) : Prop :=
  ∃ request, invoke p env m.1 (some m.2) = .queued request ∧ Matches call request

theorem start_queues_iff (hp : p.element.RoundTrips) (hs : Serves client env) {want : Want}
    {m : Invocation} (h : (Call.startAbility want).schedule p client = .ok m) :
    Queues p env (.startAbility want) m ↔ Aligned (.startAbility want) := by
  obtain ⟨sidPart, body, hsid, hwant, rfl⟩ := scheduleAms_eq_ok h
  cases hsid
  have hinvoke : ∀ req, invoke p env AmsCommand.startAbility.code (some req) =
      startAbilityInvoke p env req := fun _ => rfl
  have hbuffer : Client.writeToken 0 ++ ([] ++ body) = body := rfl
  simp only [Queues, hinvoke, hbuffer, startAbilityInvoke, if_neg hs.uid]
  constructor
  · rintro ⟨request, hqueued, hmatches⟩
    split at hqueued
    · cases hqueued
    · rename_i want' io' hread
      split at hqueued
      · cases hqueued
      · rename_i element helement
        split at hqueued
        · cases hqueued
        · rename_i hlocal
          simp only [startAbilityInner, helement, Option.isNone_some, Bool.false_eq_true, if_false,
            hs.send, Handled.queued.injEq] at hqueued
          subst hqueued
          have hdata := SameWant.hasData hmatches (copyWant_hasData want')
          have hread' := deserializeWant_write hp [] hwant hdata
          rw [List.append_nil, hread] at hread'
          cases hread'
          exact ⟨hdata, element, helement, Bool.eq_false_iff.mpr hlocal⟩
  · rintro ⟨hdata, element, helement, hlocal⟩
    have hread := deserializeWant_write hp [] hwant hdata
    rw [List.append_nil] at hread
    have helement' : (received want).element = some element := helement
    simp only [hread, helement', hlocal, Bool.false_eq_true, if_false, startAbilityInner,
      Option.isNone_some, hs.send]
    exact ⟨_, rfl, copyWant_received hdata⟩

theorem stop_queues_iff (hp : p.element.RoundTrips) (hs : Serves client env) {want : Want}
    {m : Invocation} (h : (Call.stopAbility want).schedule p client = .ok m) :
    Queues p env (.stopAbility want) m ↔ Aligned (.stopAbility want) := by
  obtain ⟨sidPart, body, hsid, hwant, rfl⟩ := scheduleAms_eq_ok h
  cases hsid
  have hinvoke : ∀ req, invoke p env AmsCommand.terminateService.code (some req) =
      stopAbilityInvoke p env req := fun _ => rfl
  have hbuffer : Client.writeToken 0 ++ ([] ++ body) = body := rfl
  simp only [Queues, hinvoke, hbuffer, stopAbilityInvoke, if_neg hs.uid, stopAbilityInner]
  constructor
  · rintro ⟨request, hqueued, hmatches⟩
    split at hqueued
    · cases hqueued
    · rename_i want' io' hread
      split at hqueued
      · cases hqueued
      · rename_i helement
        rw [hs.send, Handled.queued.injEq] at hqueued
        subst hqueued
        have hdata := SameWant.hasData hmatches (copyWant_hasData want')
        have hread' := deserializeWant_write hp [] hwant hdata
        rw [List.append_nil, hread] at hread'
        cases hread'
        exact ⟨hdata, by simpa [received, Option.isSome_iff_ne_none] using helement⟩
  · rintro ⟨hdata, helement⟩
    have hread := deserializeWant_write hp [] hwant hdata
    rw [List.append_nil] at hread
    obtain ⟨element, helement⟩ := Option.isSome_iff_exists.mp helement
    have helement' : (received want).element = some element := helement
    simp only [hread, helement', Option.isNone_some, Bool.false_eq_true, if_false, hs.send]
    exact ⟨_, rfl, copyWant_received hdata⟩

/-- Nothing is ever queued for a start with a callback. -/
theorem startWithCallback_queues_iff {want : Want} {svc : SvcIdentity} {m : Invocation}
    (h : (Call.startAbilityWithCallback want svc).schedule p client = .ok m) :
    Queues p env (.startAbilityWithCallback want svc) m ↔
      Aligned (.startAbilityWithCallback want svc) := by
  obtain ⟨sidPart, body, -, -, rfl⟩ := scheduleAms_eq_ok h
  have hinvoke : ∀ req, invoke p env AmsCommand.startAbilityWithCb.code (some req) =
      startAbilityWithCbInvoke p env req := fun _ => rfl
  refine ⟨?_, False.elim⟩
  rintro ⟨request, hqueued, -⟩
  rw [hinvoke, startAbilityWithCbInvoke] at hqueued
  repeat' split at hqueued
  all_goals cases hqueued

theorem connect_queues_iff (hp : p.element.RoundTrips) (hs : Serves client env) {want : Want}
    {token : UInt64} {sid : SvcIdentity} {m : Invocation}
    (h : (Call.connectAbility want token sid).schedule p client = .ok m) :
    Queues p env (.connectAbility want token sid) m ↔ Aligned (.connectAbility want token sid) := by
  obtain ⟨sidPart, body, hsid, hwant, rfl⟩ := scheduleAms_eq_ok h
  have hpart : sidPart = writeRemoteObject sid := by simpa using writeSid_eq_some hsid
  subst hpart
  have hinvoke : ∀ req, invoke p env AmsCommand.connectAbility.code (some req) =
      connectAbilityInvoke p env req := fun _ => rfl
  simp only [Queues, hinvoke, connectAbilityInvoke, if_neg hs.uid, connectAbilityInner]
  by_cases htoken : token = 0
  · -- The identity is taken for the token.
    subst htoken
    refine ⟨?_, fun haligned => absurd rfl haligned.1⟩
    rintro ⟨request, hqueued, -⟩
    have hshift := readRemoteObject_shifted (p := p) sid body
      (serializeWant_ne_object hwant)
    split at hqueued
    · cases hqueued
    · rename_i svc req hread
      rw [hread] at hshift
      cases hshift
  · simp only [writeToken_of_ne htoken, readUint64_write, readRemoteObject_write]
    constructor
    · rintro ⟨request, hqueued, hmatches⟩
      split at hqueued
      · cases hqueued
      · rename_i want' io' hread
        split at hqueued
        · cases hqueued
        · rename_i helement
          rw [hs.send, Handled.queued.injEq] at hqueued
          subst hqueued
          have hdata := hmatches.1.hasData (copyWant_hasData want')
          have hread' := deserializeWant_write hp [] hwant hdata
          rw [List.append_nil, hread] at hread'
          cases hread'
          exact ⟨htoken, hdata, by simpa [received, Option.isSome_iff_ne_none] using helement⟩
    · rintro ⟨-, hdata, helement⟩
      have hread := deserializeWant_write hp [] hwant hdata
      rw [List.append_nil] at hread
      obtain ⟨element, helement⟩ := Option.isSome_iff_exists.mp helement
      have helement' : (received want).element = some element := helement
      simp only [hread, helement', Option.isNone_some, Bool.false_eq_true, if_false, hs.send]
      exact ⟨_, rfl, copyWant_received hdata, rfl, rfl⟩

/-- A token and perhaps an identity are sent, both are read. -/
theorem tokenAndSvc_queues_iff (hs : Serves client env) {token : UInt64}
    {sid : Option SvcIdentity} {command : AmsCommand} {m : Invocation}
    (hcommand : command ≠ .attachBundle)
    (h : client.scheduleAms p none token sid command = .ok m)
    (call : Call) (request : SvcIdentity → UInt64 → AmsRequest)
    (hinvoke : ∀ req, invoke p env command.code (some req) = tokenAndSvcInvoke p env request req)
    (hcall : ∀ svc token', Matches call (request svc token') ↔ some svc = sid ∧ token' = token) :
    Queues p env call m ↔ token ≠ 0 ∧ sid.isSome = true := by
  obtain ⟨sidPart, body, hsid, hwant, rfl⟩ := scheduleAms_eq_ok h
  cases hwant
  simp only [Queues, hinvoke, tokenAndSvcInvoke, List.append_nil]
  cases sid with
  | none =>
    cases hsid
    simp only [List.append_nil, readUint64_writeToken_nil]
    constructor
    · rintro ⟨r, hqueued, -⟩
      cases hqueued
    · rintro ⟨-, hsome⟩
      cases hsome
  | some sid =>
    have hpart : sidPart = writeRemoteObject sid := by
      simpa [hcommand] using writeSid_eq_some hsid
    subst hpart
    by_cases htoken : token = 0
    · subst htoken
      refine ⟨?_, fun haligned => absurd rfl haligned.1⟩
      rintro ⟨r, hqueued, -⟩
      cases hqueued
    · have hbuffer : readUint64 p.misread (Client.writeToken token ++ writeRemoteObject sid) =
          (token, writeRemoteObject sid) := by
        rw [writeToken_of_ne htoken, readUint64_write]
      have hobject : readRemoteObject (writeRemoteObject sid) = (some sid, []) := rfl
      simp only [hbuffer, hobject, hs.send]
      exact ⟨fun _ => ⟨htoken, rfl⟩, fun _ => ⟨_, rfl, (hcall _ _).mpr ⟨rfl, rfl⟩⟩⟩

/-- A token alone is read as it was sent, written or not. -/
theorem token_queues (hs : Serves client env) {token : UInt64} {command : AmsCommand}
    {m : Invocation} (h : client.scheduleAms p none token none command = .ok m)
    (call : Call) (request : UInt64 → AmsRequest)
    (hinvoke : ∀ req, invoke p env command.code (some req) =
      env.send (request (readUint64 p.misread req).1))
    (hcall : Matches call (request token)) : Queues p env call m := by
  obtain ⟨sidPart, body, hsid, hwant, rfl⟩ := scheduleAms_eq_ok h
  cases hsid
  cases hwant
  refine ⟨request token, ?_, hcall⟩
  simp only [List.append_nil, hinvoke, readUint64_writeToken_nil, hs.send]

theorem lifecycleDone_queues (hs : Serves client env) {token : UInt64} {state : Int32}
    {m : Invocation} (h : (Call.schedulerLifecycleDone token state).schedule p client = .ok m) :
    Queues p env (.schedulerLifecycleDone token state) m := by
  simp only [Call.schedule, Client.schedulerLifecycleDone] at h
  split at h <;> cases h
  refine ⟨.transactionDone token state, ?_, rfl, rfl⟩
  have hinvoke : ∀ req, invoke p env AmsCommand.abilityTransactionDone.code (some req) =
      abilityTransactionDoneInvoke p env req := fun _ => rfl
  have hstate : readInt32 p.misread (writeInt32 state) = (state, []) := rfl
  simp only [hinvoke, abilityTransactionDoneInvoke, readUint64_write, hstate, hs.send]

theorem attach_queues_iff (hs : Serves client env) {token : UInt64} {identity : SvcIdentity}
    {m : Invocation} (h : (Call.attachBundle token identity).schedule p client = .ok m) :
    Queues p env (.attachBundle token identity) m ↔ Aligned (.attachBundle token identity) := by
  obtain ⟨sidPart, body, hsid, hwant, rfl⟩ := scheduleAms_eq_ok h
  cases hwant
  obtain rfl := writeSid_eq_some hsid
  have hinvoke : ∀ req, invoke p env AmsCommand.attachBundle.code (some req) =
      attachBundleInvoke p env req := fun _ => rfl
  simp only [Queues, hinvoke, attachBundleInvoke, List.append_nil, hs.linux]
  by_cases htoken : token = 0
  · subst htoken
    refine ⟨?_, fun haligned => absurd rfl haligned⟩
    rintro ⟨request, hqueued, -⟩
    cases hlinux : client.linux <;> simp only [hlinux] at hqueued <;> cases hqueued
  · refine ⟨fun _ => htoken, fun _ => ?_⟩
    simp only [writeToken_of_ne htoken, readUint64_write, readRemoteObject_write]
    cases hlinux : client.linux with
    | false =>
      simp only [Bool.false_eq_true, if_false, if_neg hs.pid, hs.send]
      exact ⟨_, rfl, rfl, rfl⟩
    | true =>
      have hpid : (readUint64 p.misread
          (writeUint64 client.pid.toInt64.toUInt64)).1.toInt64.toInt32 = client.pid :=
        Int32.toInt32_toInt64 client.pid
      simp only [Bool.true_and, decide_true, if_true, hpid, if_neg hs.clientPid, hs.send]
      exact ⟨_, rfl, rfl, rfl⟩

theorem call_queues_iff (hp : p.element.RoundTrips) (hs : Serves client env) (call : Call)
    (m : Invocation) (h : call.schedule p client = .ok m) : Queues p env call m ↔ Aligned call := by
  cases call with
  | startAbility want => exact start_queues_iff hp hs h
  | stopAbility want => exact stop_queues_iff hp hs h
  | startAbilityWithCallback want svc => exact startWithCallback_queues_iff h
  | connectAbility want token sid => exact connect_queues_iff hp hs h
  | attachBundle token identity => exact attach_queues_iff hs h
  | terminateAbility token =>
    exact iff_of_true (token_queues hs h _ .terminateAbility (fun _ => rfl) rfl) trivial
  | disconnectAbilityDone token =>
    exact iff_of_true (token_queues hs h _ .disconnectAbilityDone (fun _ => rfl) rfl) trivial
  | schedulerLifecycleDone token state => exact iff_of_true (lifecycleDone_queues hs h) trivial
  | disconnectAbility token sid =>
    have hiff := tokenAndSvc_queues_iff hs (by decide) h (.disconnectAbility token sid)
      .disconnectAbility (fun _ => rfl) fun svc token' => by simp [Matches]
    exact hiff.trans (and_iff_left rfl)
  | connectAbilityDone token sid =>
    exact tokenAndSvc_queues_iff hs (by decide) h (.connectAbilityDone token sid)
      .connectAbilityDone (fun _ => rfl) fun _ _ => Iff.rfl

/-! ## The tables -/

theorem ServerEnv.send_ne_emptySlot (request : AmsRequest) : env.send request ≠ .emptySlot := by
  unfold ServerEnv.send
  split <;> exact Handled.noConfusion

theorem callSlot_ne_emptySlot {table : List (Option InvokeFunc)} {index : Int}
    {req : Io SvcIdentity} (hindex : index.toNat < table.length)
    (h : ∀ slot ∈ table, ∃ handler, slot = some handler ∧ handler req ≠ .emptySlot) :
    callSlot table index req ≠ .emptySlot := by
  obtain ⟨handler, hslot, hne⟩ := h _ (List.getElem_mem hindex)
  simp only [callSlot, List.getElem?_eq_getElem hindex, hslot]
  exact hne

/-- The table has as many handlers as there are commands before `INNER_BEGIN`. -/
theorem mgr_invokeFuncList (p : Platform) (env : ServerEnv) (req : Io SvcIdentity) :
    (AbilityMgrFeature.invokeFuncList p env).length = innerBegin.toNat ∧
    ∀ slot ∈ AbilityMgrFeature.invokeFuncList p env,
      ∃ handler, slot = some handler ∧ handler req ≠ .emptySlot := by
  refine ⟨rfl, fun slot hslot => ?_⟩
  simp only [AbilityMgrFeature.invokeFuncList, List.mem_cons, List.not_mem_nil, or_false] at hslot
  rcases hslot with rfl | rfl | rfl | rfl | rfl | rfl | rfl | rfl | rfl | rfl <;>
    refine ⟨_, rfl, ?_⟩ <;>
    simp only [startAbilityInvoke, startAbilityInner, startAbilityWithCbInvoke,
      terminateAbilityInvoke, abilityTransactionDoneInvoke, attachBundleInvoke,
      connectAbilityInvoke, connectAbilityInner, disconnectAbilityInvoke, connectAbilityDoneInvoke,
      tokenAndSvcInvoke, disconnectAbilityDoneInvoke, stopAbilityInvoke, stopAbilityInner] <;>
    repeat' split
  all_goals first
    | exact ServerEnv.send_ne_emptySlot _
    | exact Handled.noConfusion

theorem mgr_invoke_ne_emptySlot (funcId : Int) (req : Option (Io SvcIdentity)) :
    AbilityMgrFeature.invoke p env funcId req ≠ .emptySlot := by
  unfold AbilityMgrFeature.invoke
  split
  · exact Handled.noConfusion
  · split
    · rename_i req hrange
      obtain ⟨hlength, hslots⟩ := mgr_invokeFuncList p env req
      refine callSlot_ne_emptySlot ?_ hslots
      simp only [startAbilityCode, innerBegin] at hrange hlength
      omega
    · exact Handled.noConfusion

theorem terminateAppInvoke_ne_emptySlot (req : Io SvcIdentity) :
    AbilityInnerFeature.terminateAppInvoke p env req ≠ .emptySlot := by
  unfold AbilityInnerFeature.terminateAppInvoke
  repeat' split
  all_goals first
    | exact ServerEnv.send_ne_emptySlot _
    | exact Handled.noConfusion

theorem dumpAbilityInvoke_ne_emptySlot (req : Io SvcIdentity) :
    AbilityInnerFeature.dumpAbilityInvoke p env req ≠ .emptySlot := by
  unfold AbilityInnerFeature.dumpAbilityInvoke
  repeat' split
  all_goals first
    | exact ServerEnv.send_ne_emptySlot _
    | exact Handled.noConfusion

/-- Of the slots of the inner feature only the first two are filled. -/
theorem inner_invoke_eq_emptySlot (funcId : Int) (req : Option (Io SvcIdentity)) :
    AbilityInnerFeature.invoke p env funcId req = .emptySlot ↔
      req.isSome = true ∧ AmsCommand.terminateAppByBundleName.code ≤ funcId ∧
        funcId ≤ AmsCommand.terminateAll.code := by
  have hfirst : AmsCommand.terminateAppByBundleName.code = 12 := rfl
  have hlast : AmsCommand.terminateAll.code = 16 := rfl
  rw [hfirst, hlast]
  cases req with
  | none => exact iff_of_false Handled.noConfusion (by simp)
  | some req =>
    simp only [AbilityInnerFeature.invoke, Option.isSome_some, true_and]
    by_cases hrange : funcId ≥ innerBegin ∧ funcId < commandEnd
    · rw [if_pos hrange]
      simp only [innerBegin, commandEnd] at hrange ⊢
      obtain ⟨index, rfl⟩ : ∃ index : Nat, funcId = 10 + index := ⟨(funcId - 10).toNat, by omega⟩
      have hindex : (10 + (index : Int) - 10).toNat = index := by omega
      rw [callSlot, hindex]
      have hcases : index = 0 ∨ index = 1 ∨ 2 ≤ index := by omega
      rcases hcases with rfl | rfl | hempty
      · refine iff_of_false (terminateAppInvoke_ne_emptySlot req) ?_
        omega
      · refine iff_of_false (dumpAbilityInvoke_ne_emptySlot req) ?_
        omega
      · have hslot : (AbilityInnerFeature.invokeFuncList p env)[index]? = some none := by
          have hlt : index - 2 < 5 := by omega
          show ([_, _] ++ List.replicate 5 none)[index]? = _
          rw [List.getElem?_append_right hempty]
          exact List.getElem?_replicate_of_lt hlt
        rw [hslot]
        refine iff_of_true rfl ?_
        omega
    · rw [if_neg hrange]
      refine iff_of_false Handled.noConfusion ?_
      simp only [innerBegin, commandEnd] at hrange
      omega

/-- A call that was sent is queued once and as it was made exactly when it is aligned; no function
id reaches an empty slot of the first feature, and those of the last five commands do in the
second. -/
theorem requests_decode_iff (hp : p.element.RoundTrips) (hs : Serves client env) :
    (∀ call m, call.schedule p client = .ok m → (Queues p env call m ↔ Aligned call)) ∧
    (∀ funcId req, AbilityMgrFeature.invoke p env funcId req ≠ .emptySlot) ∧
    ∀ funcId req, AbilityInnerFeature.invoke p env funcId req = .emptySlot ↔
      req.isSome = true ∧ AmsCommand.terminateAppByBundleName.code ≤ funcId ∧
        funcId ≤ AmsCommand.terminateAll.code :=
  ⟨call_queues_iff hp hs, mgr_invoke_ne_emptySlot, inner_invoke_eq_emptySlot⟩

/-- A process with pid 20 that user 10 runs. -/
def plainClient : Client := { amsProxy := true, pid := 20, linux := true }

def plainServer : ServerEnv :=
  { linux := true, callingUid := 10, callingPid := 20, sendRequest := fun _ => true }

theorem plain_serves : Serves plainClient plainServer :=
  ⟨rfl, by decide, by decide, by decide, fun _ => rfl⟩

/-- A service is connected to, for the ability with token 5. -/
def connectCall : Call :=
  .connectAbility { element := some { bundleName := some (cstr "a") } } 5 ⟨1, 2⟩

theorem requests_decode_connect :
    ∃ m, connectCall.schedule plain plainClient = .ok m ∧ Queues plain plainServer connectCall m :=
  ⟨_, rfl, ((requests_decode_iff plainElement_roundTrips plain_serves).1 connectCall _ rfl).mpr
    ⟨by decide, fun h => absurd rfl h, rfl⟩⟩

/-- An ability without a token disconnects: its identity is read as the token, and nothing is
queued. -/
theorem requests_token_zero :
    ¬ ∀ (p : Platform) (env : ServerEnv) (client : Client), p.element.RoundTrips →
      Serves client env →
      (∀ call m, call.schedule p client = .ok m → Queues p env call m) ∧
      ∀ funcId req, AbilityInnerFeature.invoke p env funcId req ≠ .emptySlot := by
  intro h
  obtain ⟨request, hqueued, -⟩ := (h plain plainServer plainClient plainElement_roundTrips
    plain_serves).1 (.disconnectAbility 0 ⟨1, 2⟩) _ rfl
  cases hqueued

end AbilityLite.Ipc
