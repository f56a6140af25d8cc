import AbilityLite.Ipc.Want

/-
  The messages of AMS to the process of an application: `AbilityThreadClient` writes
  them, `AbilityScheduler::AmsCallback` reads them and calls the ability thread.

  What is proved (`amsCallback_delivers_iff`): a message that was sent makes the ability
  thread perform what was asked for, with the same arguments, exactly when the Want has
  its data, an application that is started has a data path, and a dump is asked for
  with token 0, since a dump does not carry its token.

  Correspondence (C++ ↔ Lean):
    `AbilityThreadClient::AbilityTransaction` … `DumpAbilityTransaction`
                                     ↔ `abilityTransaction` … `dumpAbilityTransaction`
    `AbilityScheduler::AmsCallback`  ↔ `amsCallback`
    `AbilityScheduler::Perform…`     ↔ `Perform`
-/

namespace AbilityLite.Ipc

open AbilityLite.Ams

/-- The part of `AbilityKitCommand` that `AmsCallback` knows. -/
inductive AbilityKitCommand where
  | appInit
  | abilityLifecycle
  | abilityConnect
  | abilityDisconnect
  | appExit
  | dumpAbility
  deriving DecidableEq, Repr

def AbilityKitCommand.code : AbilityKitCommand → UInt32
  | appInit => 0
  | abilityLifecycle => 1
  | abilityConnect => 2
  | abilityDisconnect => 3
  | appExit => 4
  | dumpAbility => 5

def AbilityKitCommand.ofCode (code : UInt32) : Option AbilityKitCommand :=
  if code = 0 then some .appInit
  else if code = 1 then some .abilityLifecycle
  else if code = 2 then some .abilityConnect
  else if code = 3 then some .abilityDisconnect
  else if code = 4 then some .appExit
  else if code = 5 then some .dumpAbility
  else none

theorem AbilityKitCommand.ofCode_code (c : AbilityKitCommand) : ofCode c.code = some c := by
  cases c <;> rfl

/-! ## Sending -/

variable (p : Platform)

/-- The code and the buffer of a message. -/
abbrev Message := UInt32 × Io SvcIdentity

/-- What `SendRequest` returned, taken as Ok or not. -/
abbrev SendRequest := Message → Bool

def maxModuleSize : Nat := 16

section
variable (sendRequest : SendRequest)

/-- `SendRequest`; `failed` is the status for an error of it. -/
def send (failed : AbilityMsStatus) (command : AbilityKitCommand) (req : Io SvcIdentity) :
    Except AbilityMsStatus Message :=
  if sendRequest (command.code, req) then .ok (command.code, req) else .error failed

def abilityTransaction (state : Int32) (token : UInt64) (want : Want) (abilityType : Int32) :
    Except AbilityMsStatus Message :=
  match serializeWant p want with
  | none => .error (.appTransanctStatus "SerializeWant failed")
  | some body =>
    send sendRequest (.appTransanctStatus "lifecycle ipc error") .abilityLifecycle
      (writeInt32 state ++ (writeUint64 token ++ (writeInt32 abilityType ++ body)))

/-- The names that are not null; their number is that of all of them. -/
def writeModuleNames (moduleInfos : List (Option CString)) : Io SvcIdentity :=
  moduleInfos.flatMap writeString

def appInitTransaction (bundleInfo : BundleInfo) : Except AbilityMsStatus Message :=
  if bundleInfo.bundleName.isNone || bundleInfo.codePath.isNone ||
      bundleInfo.moduleInfos.length > maxModuleSize then
    .error (.appTransanctStatus "app init invalid argument")
  else
    send sendRequest (.appTransanctStatus "app init ipc error") .appInit
      (writeString bundleInfo.bundleName ++ (writeString bundleInfo.codePath ++
        (writeString bundleInfo.dataPath ++ (writeBool bundleInfo.isNativeApp ++
          (writeInt32 (Int32.ofNat bundleInfo.moduleInfos.length) ++
            writeModuleNames bundleInfo.moduleInfos)))))

/-- A token and a Want, as `ConnectAbility` and `DisconnectAbility` write them. -/
def sendWant (key failed : String) (command : AbilityKitCommand) (want : Want) (token : UInt64) :
    Except AbilityMsStatus Message :=
  match serializeWant p want with
  | none => .error (.taskStatus key "SerializeWant failed")
  | some body =>
    send sendRequest (.taskStatus key failed) command (writeUint64 token ++ body)

def connectAbility (want : Want) (token : UInt64) : Except AbilityMsStatus Message :=
  sendWant p sendRequest "connectAbility" "connectAbility exit ipc error" .abilityConnect want token

def disconnectAbility (want : Want) (token : UInt64) : Except AbilityMsStatus Message :=
  sendWant p sendRequest "disconnectAbility" "disconnectAbility exit ipc error" .abilityDisconnect
    want token

/-- The token is not written. -/
def dumpAbilityTransaction (want : Want) (_token : UInt64) : Except AbilityMsStatus Message :=
  match serializeWant p want with
  | none => .error (.taskStatus "dumpAbility" "SerializeWant failed")
  | some body => send sendRequest (.appTransanctStatus "dump ability ipc error") .dumpAbility body

end

/-! ## Receiving -/

/-- `AppInfo`. -/
structure AppInfo where
  bundleName : CString
  srcPath : CString
  dataPath : CString
  isNativeApp : Bool := false
  moduleNames : List CString := []
  deriving DecidableEq, Repr

/-- The call of the ability thread that a message leads to. -/
inductive Perform where
  | appInit (appInfo : AppInfo)
  | transactAbilityState (want : Want) (state : Int32) (token : UInt64) (abilityType : Int32)
  | connectAbility (want : Want) (token : UInt64)
  | disconnectAbility (want : Want) (token : UInt64)
  | appExit
  | dumpAbility (want : Want) (token : UInt64)
  deriving DecidableEq, Repr

inductive AbilityErrors where
  | paramNullError
  | serializeError
  | commandError
  deriving DecidableEq, Repr

/-- Read `n` names; the ones that are there and not empty are put in front, one after the other. -/
def readModuleNames : Nat → List CString → Io SvcIdentity → List CString
  | 0, names, _ => names
  | n + 1, names, io =>
    let (name, io) := readString p.misread io
    match name with
    | none => readModuleNames n names io
    | some name => readModuleNames n (if name.bytes.isEmpty then names else name :: names) io

/-- The message `SCHEDULER_APP_INIT`. -/
def readAppInit (io : Io SvcIdentity) : Except AbilityErrors Perform :=
  let (bundleName, io) := readString p.misread io
  let (srcPath, io) := readString p.misread io
  let (dataPath, io) := readString p.misread io
  match bundleName, srcPath, dataPath with
  | some bundleName, some srcPath, some dataPath =>
    let (isNativeApp, io) := readBool p.misread io
    let (moduleSize, io) := readInt32 p.misread io
    if moduleSize.toInt > maxModuleSize then .error .commandError
    else
      .ok (.appInit { bundleName, srcPath, dataPath, isNativeApp,
                      moduleNames := readModuleNames p moduleSize.toInt.toNat [] io })
  | _, _, _ => .error .paramNullError

/-- A token and a Want, as for `SCHEDULER_ABILITY_CONNECT` and `SCHEDULER_ABILITY_DISCONNECT`. -/
def readTokenAndWant (perform : Want → UInt64 → Perform) (io : Io SvcIdentity) :
    Except AbilityErrors Perform :=
  let (token, io) := readUint64 p.misread io
  match deserializeWant p io with
  | (none, _) => .error .serializeError
  | (some want, _) => .ok (perform want token)

def amsCallback (code : UInt32) (io : Io SvcIdentity) : Except AbilityErrors Perform :=
  match AbilityKitCommand.ofCode code with
  | some .appInit => readAppInit p io
  | some .abilityLifecycle =>
    let (state, io) := readInt32 p.misread io
    let (token, io) := readUint64 p.misread io
    let (abilityType, io) := readInt32 p.misread io
    match deserializeWant p io with
    | (none, _) => .error .serializeError
    | (some want, _) => .ok (.transactAbilityState want state token abilityType)
  | some .abilityConnect => readTokenAndWant p .connectAbility io
  | some .abilityDisconnect => readTokenAndWant p .disconnectAbility io
  | some .appExit => .ok .appExit
  | some .dumpAbility =>
    match deserializeWant p io with
    | (none, _) => .error .serializeError
    | (some want, io) => .ok (.dumpAbility want (readUint64 p.misread io).1)
  | none => .error .commandError

/-! ## Requests and what they should lead to -/

/-- What AMS asks a process to do. -/
inductive Request where
  | appInit (bundleInfo : BundleInfo)
  | lifecycle (state : Int32) (token : UInt64) (want : Want) (abilityType : Int32)
  | connect (want : Want) (token : UInt64)
  | disconnect (want : Want) (token : UInt64)
  | dump (want : Want) (token : UInt64)
  deriving DecidableEq, Repr

def Request.transact (sendRequest : SendRequest) : Request → Except AbilityMsStatus Message
  | appInit bundleInfo => appInitTransaction sendRequest bundleInfo
  | lifecycle state token want abilityType =>
    abilityTransaction p sendRequest state token want abilityType
  | connect want token => connectAbility p sendRequest want token
  | disconnect want token => disconnectAbility p sendRequest want token
  | dump want token => dumpAbilityTransaction p sendRequest want token

/-- The process performs what was asked for, with the same arguments. -/
def Delivers : Request → Perform → Prop
  | .appInit bundleInfo, .appInit appInfo =>
    some appInfo.bundleName = bundleInfo.bundleName ∧ some appInfo.srcPath = bundleInfo.codePath ∧
    some appInfo.dataPath = bundleInfo.dataPath ∧
    appInfo.isNativeApp = bundleInfo.isNativeApp ∧
    ∀ name, name ∈ appInfo.moduleNames ↔ some name ∈ bundleInfo.moduleInfos ∧ name.bytes ≠ []
  | .lifecycle state token want abilityType, .transactAbilityState want' state' token' abilityType' =>
    SameWant want want' ∧ state' = state ∧ token' = token ∧ abilityType' = abilityType
  | .connect want token, .connectAbility want' token'
  | .disconnect want token, .disconnectAbility want' token'
  | .dump want token, .dumpAbility want' token' => SameWant want want' ∧ token' = token
  | _, _ => False

/-- When a request arrives as it was made. -/
def Whole : Request → Prop
  | .appInit bundleInfo => bundleInfo.dataPath.isSome = true
  | .lifecycle _ _ want _ | .connect want _ | .disconnect want _ => hasData want
  | .dump want token => hasData want ∧ token = 0

/-! ## Names of modules -/

variable {p}

theorem readModuleNames_nil (n : Nat) (names : List CString) :
    readModuleNames p n names [] = names := by
  induction n with
  | zero => rfl
  | succ n ih => exact ih

/-- Where at least as many names are read as were written, all of them but the empty ones are
put before those that are there. -/
theorem mem_readModuleNames (moduleInfos : List (Option CString)) (n : Nat)
    (hn : moduleInfos.length ≤ n) (names : List CString) (name : CString) :
    name ∈ readModuleNames p n names (writeModuleNames moduleInfos) ↔
      name ∈ names ∨ (some name ∈ moduleInfos ∧ name.bytes ≠ []) := by
  induction moduleInfos generalizing n names with
  | nil => simp [writeModuleNames, readModuleNames_nil]
  | cons info moduleInfos ih =>
    have hn' : moduleInfos.length ≤ n := Nat.le_of_succ_le hn
    cases info with
    | none =>
      -- A null name leaves nothing in the buffer.
      have hwrite : writeModuleNames (none :: moduleInfos) = writeModuleNames moduleInfos := rfl
      rw [hwrite, ih n hn']
      simp
    | some info =>
      obtain ⟨m, rfl⟩ : ∃ m, n = m + 1 := ⟨n - 1, by simp at hn; omega⟩
      have hwrite : writeModuleNames (some info :: moduleInfos) =
          writeString (some info) ++ writeModuleNames moduleInfos := rfl
      rw [hwrite]
      simp only [readModuleNames, readString_write]
      rw [ih m (Nat.le_of_succ_le_succ hn)]
      by_cases hempty : info.bytes = []
      · simp only [hempty, List.isEmpty_nil, if_true, List.mem_cons, Option.some.injEq]
        constructor
        · rintro (h | ⟨h, hne⟩)
          · exact .inl h
          · exact .inr ⟨.inr h, hne⟩
        · rintro (h | ⟨rfl | h, hne⟩)
          · exact .inl h
          · exact absurd hempty hne
          · exact .inr ⟨h, hne⟩
      · simp only [List.isEmpty_iff, hempty, if_false, List.mem_cons, Option.some.injEq]
        constructor
        · rintro ((rfl | h) | ⟨h, hne⟩)
          · exact .inr ⟨.inl rfl, hempty⟩
          · exact .inl h
          · exact .inr ⟨.inr h, hne⟩
        · rintro (h | ⟨rfl | h, hne⟩)
          · exact .inl (.inr h)
          · exact .inl (.inl rfl)
          · exact .inr ⟨h, hne⟩

/-! ## Each message -/

theorem send_eq_ok {sendRequest : SendRequest} {failed : AbilityMsStatus}
    {command : AbilityKitCommand} {req : Io SvcIdentity} {m : Message}
    (h : send sendRequest failed command req = .ok m) : m = (command.code, req) := by
  unfold send at h
  split at h <;> cases h
  rfl

theorem maxModuleSize_toInt {n : Nat} (h : ¬ n > maxModuleSize) : (Int32.ofNat n).toInt = n := by
  simp only [maxModuleSize] at h
  have : n < 2 ^ 31 := by omega
  exact Int32.toInt_ofNat_of_lt this

/-- Nothing but the data path can be missing from a start that was sent. -/
theorem appInit_delivers_iff {sendRequest : SendRequest} {bundleInfo : BundleInfo} {m : Message}
    (h : appInitTransaction sendRequest bundleInfo = .ok m) :
    (∃ perform, amsCallback p m.1 m.2 = .ok perform ∧ Delivers (.appInit bundleInfo) perform) ↔
      Whole (.appInit bundleInfo) := by
  constructor
  · rintro ⟨perform, -, hdelivers⟩
    cases perform with
    | appInit appInfo => exact (congrArg Option.isSome hdelivers.2.2.1).symm
    | _ => exact hdelivers.elim
  · intro hwhole
    obtain ⟨dataPath, hdata⟩ := Option.isSome_iff_exists.mp hwhole
    unfold appInitTransaction at h
    split at h
    · cases h
    · rename_i hvalid
      obtain rfl := send_eq_ok h
      simp only [Bool.or_eq_true, decide_eq_true_eq, not_or, Option.isNone_iff_eq_none,
        ← Option.isSome_iff_ne_none, Option.isSome_iff_exists] at hvalid
      obtain ⟨⟨⟨bundleName, hbundle⟩, codePath, hcode⟩, hsize⟩ := hvalid
      have hmodules := maxModuleSize_toInt hsize
      have hfits : ¬ ((bundleInfo.moduleInfos.length : Int) > maxModuleSize) := by
        simp only [maxModuleSize] at hsize ⊢
        omega
      simp only [amsCallback, AbilityKitCommand.ofCode_code, readAppInit, hbundle, hcode, hdata,
        readString_write, readBool_write, readInt32_write, hmodules, if_neg hfits]
      refine ⟨_, rfl, by rw [hbundle], by rw [hcode], by rw [hdata], rfl, fun name => ?_⟩
      rw [Int.toNat_natCast, mem_readModuleNames _ _ (Nat.le_refl _)]
      simp

/-- `ConnectAbility` and `DisconnectAbility`. -/
theorem sendWant_delivers_iff (hp : p.element.RoundTrips) {sendRequest : SendRequest}
    {key failed : String} {command : AbilityKitCommand} {want : Want} {token : UInt64}
    {m : Message} (h : sendWant p sendRequest key failed command want token = .ok m)
    (perform : Want → UInt64 → Perform) (request : Request)
    (hrequest : ∀ want' token', Delivers request (perform want' token') ↔
      SameWant want want' ∧ token' = token) :
    m.1 = command.code ∧
    ((∃ done, readTokenAndWant p perform m.2 = .ok done ∧ Delivers request done) ↔
      hasData want) := by
  unfold sendWant at h
  split at h
  · cases h
  · rename_i body hbody
    obtain rfl := send_eq_ok h
    simp only [readTokenAndWant, readUint64_write, true_and]
    constructor
    · rintro ⟨done, hread, hdelivers⟩
      split at hread
      · cases hread
      · rename_i want' io' hwant
        cases hread
        exact ((hrequest _ _).mp hdelivers).1.hasData (deserializeWant_hasData hwant)
    · intro hdata
      have hread := deserializeWant_write hp [] hbody hdata
      rw [List.append_nil] at hread
      simp only [hread]
      exact ⟨_, rfl, (hrequest _ _).mpr ⟨received_same want, rfl⟩⟩

theorem lifecycle_delivers_iff (hp : p.element.RoundTrips) {sendRequest : SendRequest}
    {state : Int32} {token : UInt64} {want : Want} {abilityType : Int32} {m : Message}
    (h : abilityTransaction p sendRequest state token want abilityType = .ok m) :
    (∃ perform, amsCallback p m.1 m.2 = .ok perform ∧
      Delivers (.lifecycle state token want abilityType) perform) ↔
      Whole (.lifecycle state token want abilityType) := by
  unfold abilityTransaction at h
  split at h
  · cases h
  · rename_i body hbody
    obtain rfl := send_eq_ok h
    simp only [amsCallback, AbilityKitCommand.ofCode_code, readInt32_write, readUint64_write]
    constructor
    · rintro ⟨perform, hread, hdelivers⟩
      split at hread
      · cases hread
      · rename_i want' io' hwant
        cases hread
        exact hdelivers.1.hasData (deserializeWant_hasData hwant)
    · intro hdata
      have hread := deserializeWant_write hp [] hbody hdata
      rw [List.append_nil] at hread
      simp only [hread]
      exact ⟨_, rfl, received_same want, rfl, rfl, rfl⟩

/-- The reader takes a token where none was written. -/
theorem dump_delivers_iff (hp : p.element.RoundTrips) {sendRequest : SendRequest} {want : Want}
    {token : UInt64} {m : Message}
    (h : dumpAbilityTransaction p sendRequest want token = .ok m) :
    (∃ perform, amsCallback p m.1 m.2 = .ok perform ∧ Delivers (.dump want token) perform) ↔
      Whole (.dump want token) := by
  unfold dumpAbilityTransaction at h
  split at h
  · cases h
  · rename_i body hbody
    obtain rfl := send_eq_ok h
    simp only [amsCallback, AbilityKitCommand.ofCode_code]
    constructor
    · rintro ⟨perform, hread, hdelivers⟩
      split at hread
      · cases hread
      · rename_i want' io' hwant
        cases hread
        have hdata := hdelivers.1.hasData (deserializeWant_hasData hwant)
        have hread := deserializeWant_write hp [] hbody hdata
        rw [List.append_nil, hwant] at hread
        cases hread
        exact ⟨hdata, hdelivers.2.symm⟩
    · rintro ⟨hdata, rfl⟩
      have hread := deserializeWant_write hp [] hbody hdata
      rw [List.append_nil] at hread
      simp only [hread]
      exact ⟨_, rfl, received_same want, rfl⟩

/-- A message that was sent is delivered as it was asked for exactly when it is whole. -/
theorem amsCallback_delivers_iff (hp : p.element.RoundTrips) (sendRequest : SendRequest)
    (request : Request) (m : Message) (h : request.transact p sendRequest = .ok m) :
    (∃ perform, amsCallback p m.1 m.2 = .ok perform ∧ Delivers request perform) ↔
      Whole request := by
  cases request with
  | appInit bundleInfo => exact appInit_delivers_iff h
  | lifecycle state token want abilityType => exact lifecycle_delivers_iff hp h
  | dump want token => exact dump_delivers_iff hp h
  | connect want token =>
    obtain ⟨hcode, hiff⟩ := sendWant_delivers_iff hp h .connectAbility
      (.connect want token) fun _ _ => Iff.rfl
    rw [hcode]
    exact hiff
  | disconnect want token =>
    obtain ⟨hcode, hiff⟩ := sendWant_delivers_iff hp h .disconnectAbility
      (.disconnect want token) fun _ _ => Iff.rfl
    rw [hcode]
    exact hiff

/-! ## A dump -/

/-- Names of elements as flagged strings. -/
def plainElement : Codec SvcIdentity ElementName where
  write element :=
    let name (s : Option CString) : Io SvcIdentity :=
      if s.isSome then writeInt32 valueObject ++ writeString s else writeInt32 valueNull
    some (name element.deviceId ++ (name element.bundleName ++ name element.abilityName))
  read io :=
    let name (io : Io SvcIdentity) : Option CString × Io SvcIdentity :=
      match io with
      | .word 1 :: .string s :: io => (some s, io)
      | .word _ :: io => (none, io)
      | io => (none, io)
    let (deviceId, io) := name io
    let (bundleName, io) := name io
    let (abilityName, io) := name io
    (some { deviceId, bundleName, abilityName }, io)

theorem plainElement_roundTrips : plainElement.RoundTrips := by
  rintro ⟨deviceId, bundleName, abilityName⟩ out io h
  cases h
  cases deviceId <;> cases bundleName <;> cases abilityName <;> rfl

/-- Elements as flagged strings, objects always fit, a value of another type is taken as zero. -/
def plain : Platform where
  element := plainElement
  misread :=
    { word := fun _ => 0, dword := fun _ => 0, bool := fun _ => false, string := fun _ => none,
      buffer := fun _ => none }
  writesRemoteObject := fun _ => true

/-- A service is connected to, by a Want with an element, an identity and data. -/
def connectRequest : Request :=
  .connect { element := some { bundleName := some (cstr "a") }, sid := some ⟨1, 2⟩,
             data := some [7, 8, 9], dataLength := 2 } 5

theorem amsCallback_delivers_connect :
    ∃ m, connectRequest.transact plain (fun _ => true) = .ok m ∧
      ∃ perform, amsCallback plain m.1 m.2 = .ok perform ∧ Delivers connectRequest perform :=
  ⟨_, rfl, (amsCallback_delivers_iff plainElement_roundTrips (fun _ => true) connectRequest _
    rfl).mpr fun _ => rfl⟩

/-- A dump for token 7 is performed for token 0. -/
theorem amsCallback_dump_token :
    ¬ ∀ (p : Platform) (sendRequest : SendRequest), p.element.RoundTrips →
      ∀ request m, request.transact p sendRequest = .ok m →
        ∃ perform, amsCallback p m.1 m.2 = .ok perform ∧ Delivers request perform := by
  intro h
  obtain ⟨perform, hread, hdelivers⟩ :=
    h plain (fun _ => true) plainElement_roundTrips (.dump {} 7) _ rfl
  have hperform : perform = .dumpAbility {} 0 := (Except.ok.inj hread).symm
  subst hperform
  exact absurd hdelivers.2 (by decide)

end AbilityLite.Ipc
