import AbilityLite.Slite.SingleTaskRuns
import AbilityLite.Slite.MultiTasksRuns
import Mathlib.Data.List.TakeDrop

/-
  What a deferred operation loses.

  A busy manager stores an operation (`AddAbilityOperation`) and executes it later
  (`RunOperation`). The want that is stored is a copy (`CopyWant`): of the element it
  has the bundle name only, its mission is whatever the memory held, and of the data it
  has what the recorded length says. For each operation this says when executing the
  stored one is the same, in every state, as having called it there.
-/

namespace AbilityLite.Slite

/-- The operations, as they are called. -/
inductive Call where
  | startAbility (want : Option Want)
  | terminateAbility (token : UInt16)
  | terminateMission (mission : UInt32)
  | forceStopBundle (token : UInt16)
  | forceStop (want : Option Want)
  | terminateAll (excludedBundleName : Option CString)
  deriving DecidableEq, Repr

section
variable (ops : Operations)

def Operations.call (env : Env) (m : Manager) : Call → ErrCode × Manager
  | .startAbility want => ops.startAbility env m want
  | .terminateAbility token => ops.terminateAbility env m token
  | .terminateMission mission => ops.terminateMission env m mission
  | .forceStopBundle token => ops.forceStopBundle env m token
  | .forceStop want => ops.forceStop env m want
  | .terminateAll excludedBundleName => ops.terminateAll env m excludedBundleName

/-- The operation a busy manager stores for a call. -/
def Call.stored (env : Env) : Call → AbilityOperation
  | .startAbility want => Manager.deferredOperation env .startAbility want 0
  | .terminateAbility token => Manager.deferredOperation env .terminateAbility none token.toUInt64
  | .terminateMission mission =>
    Manager.deferredOperation env .terminateMission none mission.toUInt64
  | .forceStopBundle token => Manager.deferredOperation env .terminateApp none token.toUInt64
  | .forceStop want => Manager.deferredOperation env .terminateAppByBundleName want 0
  | .terminateAll excludedBundleName =>
    Manager.deferredOperation env .terminateAll (some (Manager.excludedWant excludedBundleName)) 0

theorem Operations.Defers.call_eq {ops : Operations} (h : ops.Defers) {env : Env} {m : Manager}
    (hlock : m.isAppScheduling = true) (c : Call) :
    ops.call env m c = (errOk, { m with abilityOperation := m.abilityOperation ++ [c.stored env] }) := by
  cases c with
  | startAbility want => exact h.startAbility env m want hlock
  | terminateAbility token => exact h.terminateAbility env m token hlock
  | terminateMission mission => exact h.terminateMission env m mission hlock
  | forceStopBundle token => exact h.forceStopBundle env m token hlock
  | forceStop want => exact h.forceStop env m want hlock
  | terminateAll excluded => exact h.terminateAll env m excluded hlock

/-- Whatever a busy manager stores for the call, executing it in any state has the result,
the state and the messages of calling it there. `env` is the environment of the deferral. -/
def Operations.DeferralKeeps (env : Env) (c : Call) : Prop :=
  ∀ (busy : Manager) (o : AbilityOperation), busy.isAppScheduling = true →
    (ops.call env busy c).2.abilityOperation = busy.abilityOperation ++ [o] →
    ∀ (env' : Env) (m : Manager), m.isAppScheduling = false →
      ops.dispatch env' m o = ops.call env' m c

theorem Operations.Defers.deferralKeeps_iff {ops : Operations} (h : ops.Defers) {env : Env}
    {c : Call} : ops.DeferralKeeps env c ↔ ∀ env' (m : Manager), m.isAppScheduling = false →
      ops.dispatch env' m (c.stored env) = ops.call env' m c := by
  constructor
  · intro hkeeps env' m hm
    refine hkeeps { isAppScheduling := true } _ rfl ?_ env' m hm
    rw [h.call_eq rfl]
  · intro hkeeps busy o hbusy ho env' m hm
    rw [h.call_eq hbusy] at ho
    obtain rfl : c.stored env = o := by simpa using ho
    exact hkeeps env' m hm

end

/-! ## Terminating everything -/

/-- The name that `TerminateAll` is executed with after a deferral. -/
def readBack (excludedBundleName : Option CString) : Option CString :=
  let want := Manager.excludedWant excludedBundleName
  (memdup want.data want.dataLength).map CString.read

/-- The length of the name and its terminator fits the want's 16 bits. -/
def nameFits (excludedBundleName : Option CString) : Bool :=
  excludedBundleName.all (·.bytes.length < 0xFFFF)

theorem buffer_length (s : CString) : s.buffer.length = s.bytes.length + 1 := by
  simp [CString.buffer]

theorem readBack_some (s : CString) : readBack (some s) =
    (memdup (some s.buffer) (UInt16.ofNat s.buffer.length)).map CString.read := rfl

theorem toNat_bufferLength (s : CString) :
    (UInt16.ofNat s.buffer.length).toNat = (s.bytes.length + 1) % 0x10000 := by
  rw [UInt16.toNat_ofNat', buffer_length]

theorem readBack_eq {excludedBundleName : Option CString} (h : nameFits excludedBundleName = true) :
    readBack excludedBundleName = excludedBundleName := by
  cases excludedBundleName with
  | none => rfl
  | some s =>
    have hlen : s.bytes.length < 0xFFFF := by simpa [nameFits] using h
    have hnat : (UInt16.ofNat s.buffer.length).toNat = s.buffer.length := by
      rw [toNat_bufferLength, buffer_length]
      exact Nat.mod_eq_of_lt (by omega)
    have hne : UInt16.ofNat s.buffer.length ≠ 0 := by
      intro e
      have h0 := congrArg UInt16.toNat e
      rw [hnat, buffer_length] at h0
      exact absurd h0 (Nat.succ_ne_zero _)
    rw [readBack_some, memdup, if_neg hne, hnat]
    simp only [Option.map_some, List.take_length, CString.read_buffer]

/-- A longer name comes back shortened or not at all. -/
theorem readBack_ne {excludedBundleName : Option CString} (h : nameFits excludedBundleName = false) :
    readBack excludedBundleName ≠ excludedBundleName := by
  cases excludedBundleName with
  | none => cases h
  | some s =>
    have hlen : 0xFFFF ≤ s.bytes.length := by simpa [nameFits] using h
    rw [readBack_some, memdup]
    split
    · intro e
      cases e
    · next hzero =>
      intro e
      rw [Option.map_some, Option.map_some, Option.some.injEq] at e
      have hle : (CString.read (s.buffer.take (UInt16.ofNat s.buffer.length).toNat)).bytes.length ≤
          (UInt16.ofNat s.buffer.length).toNat :=
        Nat.le_trans (List.takeWhile_sublist _).length_le (List.length_take_le _ _)
      have hpos : (UInt16.ofNat s.buffer.length).toNat ≠ 0 := fun e0 =>
        hzero (UInt16.toNat_inj.mp e0)
      rw [e, toNat_bufferLength] at hle
      rw [toNat_bufferLength] at hpos
      omega

/-- A record that is kept for its name alone. -/
def namedRecord (name : CString) : AbilityRecord := { appName := name, token := 1 }

/-- The launcher's record over one of that name. -/
def overNamed (name : CString) : Manager :=
  { abilityList := [{ appName := launcherBundleName, token := launcherToken }, namedRecord name] }

theorem terminateAll_overNamed (env : Env) (name : CString) (excluded : Option CString) :
    (Manager.terminateAll env (overNamed name) excluded).2.abilityList.length =
      if AbilityList.reserved excluded (namedRecord name) then 2 else 1 := by
  have hpop : (overNamed name).abilityList.popAllAbility excluded =
      (errOk, { appName := launcherBundleName, token := launcherToken } ::
          [namedRecord name].filter (AbilityList.reserved excluded),
        [namedRecord name].filter fun r => !AbilityList.reserved excluded r) :=
    AbilityList.popAllAbility_cons ..
  have hlock : ¬ (overNamed name).isAppScheduling = true := Bool.false_ne_true
  simp only [Manager.terminateAll, if_neg hlock, hpop]
  cases hr : AbilityList.reserved excluded (namedRecord name) <;> simp [hr]

/-- `TerminateAll` is executed as called when the name's length fits. -/
theorem terminateAll_keeps_iff {ops : Operations} (hops : ops.terminateAll = Manager.terminateAll)
    (env : Env) (excluded : Option CString) :
    (∀ env' (m : Manager), m.isAppScheduling = false →
      ops.dispatch env' m ((Call.terminateAll excluded).stored env) =
        ops.call env' m (.terminateAll excluded)) ↔ nameFits excluded = true := by
  have hdispatch : ∀ env' m, ops.dispatch env' m ((Call.terminateAll excluded).stored env) =
      Manager.terminateAll env' m (readBack excluded) := fun env' m => by
    simp only [Operations.dispatch, Call.stored, Manager.deferredOperation, Manager.copyWant,
      Option.map_some, Manager.copiedWant, hops, readBack]
  have hcall : ∀ env' m, ops.call env' m (.terminateAll excluded) =
      Manager.terminateAll env' m excluded := fun env' m => by
    simp only [Operations.call, hops]
  simp only [hdispatch, hcall]
  constructor
  · intro hkeeps
    by_cases hfits : nameFits excluded = true
    · exact hfits
    · have hne := readBack_ne (by simpa using hfits)
      cases excluded with
      | none => exact absurd rfl hfits
      | some name =>
        have hlen := congrArg (fun x => x.2.abilityList.length)
          (hkeeps Env.working (overNamed name) rfl)
        have hlong : 0xFFFF ≤ name.bytes.length := by simpa [nameFits] using hfits
        have hmain : name ≠ mainBundleName := by
          intro e
          rw [e] at hlong
          exact absurd hlong (by decide)
        simp only [terminateAll_overNamed, AbilityList.reserved, AbilityList.isPermanentAbility,
          namedRecord] at hlen
        simp [hmain, hne, show ¬ (1 : UInt16) = launcherToken by decide] at hlen
  · intro hfits env' m _
    rw [readBack_eq hfits]

/-! ## Starting -/

/-- A start for another device. -/
def isRemote (cfg : Config) (want : Want) : Bool :=
  cfg.dmsEnabled && want.element.any fun e => e.deviceId.any (·.bytes ≠ [])

/-- The data read as a path is the same in the copy. -/
def pathCopied (want : Want) : Bool :=
  (memdup want.data want.dataLength).map CString.read = want.data.map CString.read

/-- Every field of the want is the same in the copy: the element has the bundle name only, the data
no more bytes than its length says, and the mission is what the memory held. -/
def wholeCopied (env : Env) (want : Want) : Bool :=
  (want.element.all fun e => e.deviceId.isNone && e.abilityName.isNone) &&
    (want.data.all fun d => want.dataLength ≠ 0 && d.length ≤ want.dataLength.toNat) &&
    want.mission = env.heapMission

theorem memdup_eq_self {data : Option (List UInt8)} {dataLength : UInt16} :
    memdup data dataLength = data ↔
      (data.all fun d => dataLength ≠ 0 && d.length ≤ dataLength.toNat) = true := by
  cases data with
  | none => simp
  | some d =>
    by_cases hzero : dataLength = 0
    · simp [memdup, hzero]
    · simp [memdup, hzero, List.take_eq_self_iff]

theorem wholeCopied_iff {env : Env} {want : Want} :
    wholeCopied env want = true ↔ Manager.copiedWant env want = want := by
  obtain ⟨element, data, dataLength, appPath, mission⟩ := want
  have helement : (element.map fun e => ({ bundleName := e.bundleName } : ElementName)) = element ↔
      (element.all fun e => e.deviceId.isNone && e.abilityName.isNone) = true := by
    cases element with
    | none => simp
    | some e =>
      obtain ⟨deviceId, bundleName, abilityName⟩ := e
      cases deviceId <;> cases abilityName <;> simp
  simp only [wholeCopied, Manager.copiedWant, Want.mk.injEq, strdup_eq, helement, memdup_eq_self,
    Bool.and_eq_true, decide_eq_true_eq, true_and, and_assoc, eq_comm (a := mission)]

/-- What a start reads of its want is the same in the copy. The bundle manager is handed
the want itself; without it the data is read as the path of the application. -/
def startCopied (cfg : Config) (env : Env) (readsPath : CString → Bool) (readsMission : Bool)
    (want : Option Want) : Bool :=
  want.all fun want => (want.element.bind (·.bundleName)).all fun bundleName =>
    if cfg.miniBms then wholeCopied env want
    else !isRemote cfg want && (!readsPath bundleName || pathCopied want) &&
      (!readsMission || want.mission = env.heapMission)

namespace SingleTask

/-- The path is read unless the launcher is started. -/
def readsPath (bundleName : CString) : Bool :=
  bundleName.bytes ≠ [] && !isLauncher bundleName

theorem startAbilityInfo_path (cfg : Config) (env : Env) (m : Manager) {bundleName : CString}
    {path path' : Option CString} (hpath : readsPath bundleName = true → path = path')
    (data : Option (List UInt8)) (dataLength : UInt16) (isNativeApp : Bool) (mission mission' : UInt32) :
    startAbilityInfo cfg env m
        { bundleName := some bundleName, path := path, data := data, dataLength := dataLength,
          isNativeApp := isNativeApp, mission := mission } =
      startAbilityInfo cfg env m
        { bundleName := some bundleName, path := path', data := data, dataLength := dataLength,
          isNativeApp := isNativeApp, mission := mission' } := by
  by_cases hreads : readsPath bundleName = true
  · obtain rfl := hpath hreads
    rfl
  · simp only [readsPath, Bool.and_eq_true, Bool.not_eq_true', not_and, decide_eq_true_eq] at hreads
    unfold startAbilityInfo
    by_cases hempty : bundleName.bytes.length = 0
    · simp only [if_pos hempty]
    · have hlauncher : isLauncher bundleName = true := by
        simpa using hreads fun e => hempty (List.length_eq_zero_iff.mpr e)
      simp only [hlauncher, if_true]
      rfl

theorem startAbility_copied {cfg : Config} {env env' : Env} {m : Manager}
    (hm : m.isAppScheduling = false) {want : Option Want}
    (h : startCopied cfg env readsPath false want = true) :
    startAbility cfg env' m (Manager.copyWant env want) = startAbility cfg env' m want := by
  cases want with
  | none => rfl
  | some want =>
    cases helem : want.element with
    | none => simp [startAbility, hm, Manager.copyWant, Manager.copiedWant, helem]
    | some element =>
      cases hbundle : element.bundleName with
      | none => simp [startAbility, hm, Manager.copyWant, Manager.copiedWant, helem, hbundle]
      | some bundleName =>
        simp only [startCopied, Option.all_some, helem, Option.bind_some, hbundle] at h
        by_cases hmini : cfg.miniBms = true
        · rw [if_pos hmini, wholeCopied_iff] at h
          rw [Manager.copyWant, Option.map_some, h]
        · rw [if_neg hmini] at h
          simp only [isRemote, helem, Option.any_some, Bool.not_false, Bool.true_or, Bool.and_true,
            Bool.and_eq_true, Bool.not_eq_true', Bool.or_eq_true, pathCopied, decide_eq_true_eq] at h
          obtain ⟨hlocal, hpath⟩ := h
          simp only [startAbility, hm, Bool.false_eq_true, if_false, Manager.copyWant, Option.map_some,
            Manager.copiedWant, helem, strdup_eq, hbundle, Option.any_none, Bool.and_false, hlocal,
            queryAbilitySvcInfo, hmini, memdup_memdup]
          refine startAbilityInfo_path cfg env' _ (fun hreads => ?_) _ _ _ _ _
          rcases hpath with hpath | hpath
          · rw [hreads] at hpath
            cases hpath
          · exact hpath

end SingleTask

/-! ### What shows the difference -/

/-- Remote starts work and no start on this device does. -/
def remoteOnly : Env where
  queryAbilityInfo _ := { bundleName := none, srcPath := none }
  abilityCallback := some fun _ => paramCheckError
  dmsInterface := true

/-- The bundle manager knows the ability of one want only. -/
def knowsOnly (want : Want) : Env where
  queryAbilityInfo x :=
    if x = want then { bundleName := some (cstr "x"), srcPath := some (cstr "p") }
    else { bundleName := none, srcPath := none }

/-- The caller of a remote start, of the bundle it starts. -/
def remoteCaller (bundleName : CString) : Manager :=
  { abilityList := [{ appName := bundleName, token := 5, state := .background }] }

theorem startRemoteAbility_caller {cfg : Config} (hdms : cfg.dmsEnabled = true) (bundleName : CString)
    (want : Want) : (Manager.startRemoteAbility cfg remoteOnly (remoteCaller bundleName) want).2.remoteStarts =
      [(want, bundleName)] := by
  simp [Manager.startRemoteAbility, hdms, remoteOnly, remoteCaller, AbilityList.getByTaskId]

namespace SingleTask

variable {cfg : Config}

/-- On this device nothing is started then. -/
theorem startAbility_remoteOnly {want : Want} {bundleName : CString}
    (hwant : want.element = some { bundleName := some bundleName }) :
    (startAbility cfg remoteOnly (remoteCaller bundleName) (some want)).2.remoteStarts = [] := by
  simp only [startAbility, remoteCaller, hwant, Bool.false_eq_true, if_false, Option.any_none,
    Bool.and_false]
  by_cases hmini : cfg.miniBms = true
  · simp [queryAbilitySvcInfo, hmini, remoteOnly, BMSHelper.isNativeApp, isValidAbility]
  · simp only [queryAbilitySvcInfo, hmini, if_false, Bool.false_eq_true, startAbilityInfo, Manager.getTopAbility, AbilityList.getTopAbility,
      List.head?_cons]
    split
    · rfl
    · split
      · simp [updateRecord, AbilityList.getByName, launcherToken, schedulerLifecycle,
          AbilityList.get]
      · rfl

/-- Over the launcher, while a token is pending, a start shows its path. -/
def pendingLauncher : Manager := { abilityList := [launcherRecord none], pendingToken := 1 }

theorem startAbility_pendingLauncher {want : Want} {element : ElementName} {bundleName : CString}
    (hwant : want.element = some element) (hbundle : element.bundleName = some bundleName)
    (hlocal : isRemote cfg want = false) (hmini : ¬ cfg.miniBms = true)
    (hreads : readsPath bundleName = true) :
    (startAbility cfg .working pendingLauncher (some want)).2.pendingRecord.bind (·.appPath) =
      want.data.map CString.read := by
  simp only [readsPath, Bool.and_eq_true, Bool.not_eq_true', decide_eq_true_eq] at hreads
  obtain ⟨hempty, hlauncher⟩ := hreads
  simp only [isRemote, hwant, Option.any_some] at hlocal
  have hname : bundleName ≠ launcherBundleName := by
    intro e
    rw [e] at hlauncher
    exact absurd hlauncher (by decide)
  have hlen : ¬ bundleName.bytes.length = 0 := fun e => hempty (List.length_eq_zero_iff.mp e)
  simp only [startAbility, pendingLauncher, hwant, hbundle, hlocal, Bool.false_eq_true, if_false,
    queryAbilitySvcInfo, hmini, startAbilityInfo, hlen, Manager.getTopAbility,
    AbilityList.getTopAbility, List.head?_cons, hlauncher]
  have hresponse : (!Env.working.heapIsNativeApp && !checkResponse .working bundleName) = false := rfl
  have hcond : ¬ ((launcherRecord none).state ≠ .stop ∧ (launcherRecord none).token ≠ launcherToken) := by
    decide
  have hother : AbilityList.getByName [launcherRecord none] bundleName = none := by
    simp [AbilityList.getByName, launcherRecord, hname.symm]
  simp only [hresponse, hcond, Bool.false_eq_true, if_false, preCheckStartAbility, hother]
  cases want.data with
  | none => rfl
  | some d => exact (AbilityRecord.setWantData_keeps ..).1

theorem startAbility_remote {env : Env} {m : Manager} (hm : m.isAppScheduling = false) {want : Want}
    {element : ElementName} {bundleName : CString} (hwant : want.element = some element)
    (hbundle : element.bundleName = some bundleName) (hremote : isRemote cfg want = true) :
    startAbility cfg env m (some want) =
      Manager.startRemoteAbility cfg env { m with isAppScheduling := false } want := by
  simp only [isRemote, hwant, Option.any_some] at hremote
  simp only [startAbility, hm, Bool.false_eq_true, if_false, hwant, hbundle, hremote, if_true]

/-- With nothing listed, an ability that the bundle manager does not know is told from one
it knows by the error. -/
theorem startAbility_knowsOnly {want known : Want} {element : ElementName} {bundleName : CString}
    (hwant : want.element = some element) (hbundle : element.bundleName = some bundleName)
    (hlocal : isRemote cfg want = false) (hmini : cfg.miniBms = true) :
    (startAbility cfg (knowsOnly known) {} (some want)).1 =
      if want = known then paramNullError else paramCheckError := by
  simp only [isRemote, hwant, Option.any_some] at hlocal
  simp only [startAbility, hwant, hbundle, hlocal, Bool.false_eq_true, if_false, queryAbilitySvcInfo,
    hmini, if_true]
  by_cases hknown : want = known
  · simp only [knowsOnly, hknown, if_true]
    rfl
  · simp only [knowsOnly, hknown, if_false]
    rfl

theorem startAbility_keeps_iff (env : Env) (want : Option Want) :
    (∀ env' (m : Manager), m.isAppScheduling = false →
      startAbility cfg env' m (Manager.copyWant env want) = startAbility cfg env' m want) ↔
    startCopied cfg env readsPath false want = true := by
  refine ⟨fun hkeeps => ?_, fun h env' m hm => startAbility_copied hm h⟩
  cases want with
  | none => rfl
  | some want =>
    cases hwant : want.element with
    | none => simp [startCopied, hwant]
    | some element =>
      cases hbundle : element.bundleName with
      | none => simp [startCopied, hwant, hbundle]
      | some bundleName =>
        simp only [Manager.copyWant, Option.map_some] at hkeeps
        have hcopy : (Manager.copiedWant env want).element = some { bundleName := some bundleName } := by
          simp [Manager.copiedWant, hwant, hbundle]
        have hcopyLocal : isRemote cfg (Manager.copiedWant env want) = false := by
          simp [isRemote, hcopy]
        have hlocal : isRemote cfg want = false := by
          cases hremote : isRemote cfg want with
          | false => rfl
          | true =>
            have hdms : cfg.dmsEnabled = true := by
              simp only [isRemote, Bool.and_eq_true] at hremote
              exact hremote.1
            have heq := hkeeps remoteOnly (remoteCaller bundleName) rfl
            rw [startAbility_remote rfl hwant hbundle hremote] at heq
            have hstarts := congrArg (·.2.remoteStarts) heq
            simp only [startAbility_remoteOnly hcopy] at hstarts
            exact nomatch hstarts.trans (startRemoteAbility_caller hdms bundleName want)
        simp only [startCopied, Option.all_some, hwant, Option.bind_some, hbundle]
        by_cases hmini : cfg.miniBms = true
        · have heq := congrArg (·.1) (hkeeps (knowsOnly want) {} rfl)
          simp only [startAbility_knowsOnly hcopy rfl hcopyLocal hmini,
            startAbility_knowsOnly hwant hbundle hlocal hmini, if_true] at heq
          rw [if_pos hmini, wholeCopied_iff]
          refine Decidable.byContradiction fun hne => ?_
          rw [if_neg hne] at heq
          exact absurd heq (by decide)
        · simp only [if_neg hmini, hlocal, Bool.not_false, Bool.true_and, Bool.true_or, Bool.and_true,
            Bool.or_eq_true, Bool.not_eq_true']
          by_cases hreads : readsPath bundleName = true
          · have heq := congrArg (·.2.pendingRecord.bind (·.appPath))
              (hkeeps .working pendingLauncher rfl)
            simp only [startAbility_pendingLauncher hcopy rfl hcopyLocal hmini hreads,
              startAbility_pendingLauncher hwant hbundle hlocal hmini hreads] at heq
            exact .inr (decide_eq_true heq)
          · exact .inl (by simpa using hreads)

/-- The forced stop of a bundle reads its name only. -/
theorem forceStop_copied {env env' : Env} {m : Manager} (want : Option Want)
    (hm : m.isAppScheduling = false) :
    forceStop env' m (Manager.copyWant env want) = forceStop env' m want := by
  have hname : ((Manager.copyWant env want).bind (·.element)).bind (·.bundleName) =
      (want.bind (·.element)).bind (·.bundleName) := by
    cases want with
    | none => rfl
    | some want =>
      simp only [Manager.copyWant, Option.map_some, Option.bind_some, Manager.copiedWant]
      cases want.element <;> rfl
  simp only [forceStop, hm, Bool.false_eq_true, if_false, hname]

/-- The calls that a deferral keeps as they are. -/
def kept (cfg : Config) (env : Env) : Call → Bool
  | .startAbility want => startCopied cfg env readsPath false want
  | .terminateAll excludedBundleName => nameFits excludedBundleName
  | _ => true

theorem deferralKeeps_iff (env : Env) (c : Call) :
    (operations cfg).DeferralKeeps env c ↔ kept cfg env c = true := by
  rw [(operations_defers cfg).deferralKeeps_iff]
  cases c with
  | startAbility want => exact startAbility_keeps_iff env want
  | terminateAll excluded => exact terminateAll_keeps_iff rfl env excluded
  | forceStop want => exact iff_of_true (fun _ _ hm => forceStop_copied want hm) rfl
  | terminateAbility token =>
    refine iff_of_true (fun env' m _ => ?_) rfl
    simp [Operations.dispatch, Operations.call, Call.stored, Manager.deferredOperation]
  | terminateMission mission =>
    refine iff_of_true (fun env' m _ => ?_) rfl
    simp [Operations.dispatch, Operations.call, Call.stored, Manager.deferredOperation]
  | forceStopBundle token =>
    refine iff_of_true (fun env' m _ => ?_) rfl
    simp [Operations.dispatch, Operations.call, Call.stored, Manager.deferredOperation]

end SingleTask

namespace MultiTasks

variable {cfg : Config}

def readsPath (bundleName : CString) : Bool := bundleName.bytes ≠ []

theorem updateWant_copied {env : Env} {want : Want} (hmission : want.mission = env.heapMission) :
    updateWant (Manager.copiedWant env want) = updateWant want := by
  funext r
  simp only [updateWant, Manager.copiedWant, AbilityRecord.setWantData, memdup_memdup, hmission]

theorem startAbility_copied {env env' : Env} {m : Manager}
    (hm : m.isAppScheduling = false) {want : Option Want}
    (h : startCopied cfg env readsPath true want = true) :
    startAbility cfg env' m (Manager.copyWant env want) = startAbility cfg env' m want := by
  cases want with
  | none => rfl
  | some want =>
    cases helem : want.element with
    | none => simp [startAbility, hm, Manager.copyWant, Manager.copiedWant, helem]
    | some element =>
      cases hbundle : element.bundleName with
      | none => simp [startAbility, hm, Manager.copyWant, Manager.copiedWant, helem, hbundle]
      | some bundleName =>
        simp only [startCopied, Option.all_some, helem, Option.bind_some, hbundle] at h
        by_cases hmini : cfg.miniBms = true
        · rw [if_pos hmini, wholeCopied_iff] at h
          rw [Manager.copyWant, Option.map_some, h]
        · rw [if_neg hmini] at h
          simp only [isRemote, helem, Option.any_some, Bool.not_true, Bool.false_or,
            Bool.and_eq_true, Bool.not_eq_true', Bool.or_eq_true, pathCopied, decide_eq_true_eq] at h
          obtain ⟨⟨hlocal, hpath⟩, hmission⟩ := h
          have hinfo : ∀ m, startAbilityInfo cfg env' m
              { bundleName := some bundleName
                path := (memdup want.data want.dataLength).map CString.read
                data := memdup want.data want.dataLength, dataLength := want.dataLength
                isNativeApp := env'.heapIsNativeApp, mission := want.mission } =
            startAbilityInfo cfg env' m
              { bundleName := some bundleName, path := want.data.map CString.read
                data := memdup want.data want.dataLength, dataLength := want.dataLength
                isNativeApp := env'.heapIsNativeApp, mission := want.mission } := by
            intro m
            rcases hpath with hpath | hpath
            · have hempty : bundleName.bytes.length = 0 := by simpa [readsPath] using hpath
              simp only [startAbilityInfo, if_pos hempty]
            · rw [hpath]
          have hcopy : (Manager.copiedWant env want).element = some { bundleName := some bundleName } := by
            simp [Manager.copiedWant, helem, hbundle]
          simp only [startAbility, hm, Bool.false_eq_true, if_false, Manager.copyWant, Option.map_some,
            hcopy, helem, hbundle, Option.any_none, Bool.and_false, hlocal, updateWant_copied hmission,
            queryAbilitySvcInfo, hmini]
          simp only [Manager.copiedWant, memdup_memdup, ← hmission, hinfo]

theorem startAbility_remote {env : Env} {m : Manager} (hm : m.isAppScheduling = false) {want : Want}
    {element : ElementName} {bundleName : CString} (hwant : want.element = some element)
    (hbundle : element.bundleName = some bundleName) (hremote : isRemote cfg want = true) :
    startAbility cfg env m (some want) =
      Manager.startRemoteAbility cfg env { m with isAppScheduling := false } want := by
  simp only [isRemote, hwant, Option.any_some] at hremote
  simp only [startAbility, hm, Bool.false_eq_true, if_false, hwant, hbundle, hremote, if_true]

/-- On this device nothing is started then. -/
theorem startAbility_remoteOnly {want : Want} {bundleName : CString}
    (hwant : want.element = some { bundleName := some bundleName }) :
    (startAbility cfg remoteOnly (remoteCaller bundleName) (some want)).2.remoteStarts = [] := by
  simp [startAbility, remoteCaller, hwant, AbilityList.getByName, Manager.getTopAbility,
    AbilityList.getTopAbility]

/-- With nothing listed, an ability that the bundle manager does not know leaves the manager
free, and one that it knows does not. -/
theorem startAbility_knowsOnly {want known : Want} {element : ElementName} {bundleName : CString}
    (hwant : want.element = some element) (hbundle : element.bundleName = some bundleName)
    (hlocal : isRemote cfg want = false) (hmini : cfg.miniBms = true) :
    (startAbility cfg (knowsOnly known) {} (some want)).2.isAppScheduling = decide (want = known) := by
  simp only [isRemote, hwant, Option.any_some] at hlocal
  simp only [startAbility, hwant, hbundle, hlocal, Bool.false_eq_true, if_false, queryAbilitySvcInfo,
    hmini, if_true]
  by_cases hknown : want = known
  · simp only [knowsOnly, hknown, if_true]
    rfl
  · simp only [knowsOnly, hknown, if_false]
    rfl

/-- The startup bundle is this one, and it may be native. -/
def startsUp (bundleName : CString) : Env :=
  { Env.working with bms := { startupBundleName := some bundleName }, heapIsNativeApp := true }

/-- With nothing listed and a token pending, a native ability is listed with its path. -/
theorem preCheckStartAbility_listed (env : Env) {m : Manager} (hnil : m.abilityList = [])
    (hp : m.pendingToken ≠ 0) (info : AbilitySvcInfo) (bundleName : CString)
    (hnative : info.isNativeApp = true) :
    ∃ record, (preCheckStartAbility cfg env m info bundleName).2.abilityList = [record] ∧
      record.appPath = info.path := by
  have hname : m.abilityList.getByName bundleName = none := by
    rw [hnil]
    rfl
  have hcheck : ¬ (info.path.isNone && !info.isNativeApp) = true := by simp [hnative]
  obtain ⟨mission, k, hmission⟩ := generateMission_eq m info
  simp only [preCheckStartAbility, hcheck, hname, ne_eq, hp, not_false_eq_true, if_true, hmission]
  obtain ⟨sent, hadd⟩ := Manager.add_eq cfg { m with nextMission := k }
    (newRecord info bundleName m.pendingToken mission)
  refine ⟨newRecord info bundleName m.pendingToken mission, ?_, (AbilityRecord.setWantData_keeps ..).1⟩
  have hevict : AbilityList.evict cfg.abilityListCapacity [] = [] :=
    List.sublist_nil.mp (AbilityList.evict_sublist _ _)
  rw [hadd, if_neg hp]
  show (AbilityList.add cfg.abilityListCapacity m.abilityList _).1 = _
  rw [hnil, AbilityList.add_of_fresh (by rw [hevict]; rfl), hevict]

/-- While a token is pending, the start of the first ability shows its path. -/
theorem startAbility_startsUp {want : Want} {element : ElementName} {bundleName : CString}
    (hwant : want.element = some element) (hbundle : element.bundleName = some bundleName)
    (hlocal : isRemote cfg want = false) (hmini : ¬ cfg.miniBms = true)
    (hreads : readsPath bundleName = true) :
    (startAbility cfg (startsUp bundleName) { pendingToken := 1 } (some want)).2.abilityList.head?.bind
      (·.appPath) = want.data.map CString.read := by
  simp only [readsPath, decide_eq_true_eq] at hreads
  simp only [isRemote, hwant, Option.any_some] at hlocal
  have hlen : ¬ bundleName.bytes.length = 0 := fun e => hreads (List.length_eq_zero_iff.mp e)
  have hstartup : ¬ bundleName ≠ (startsUp bundleName).bms.getStartupBundleName := fun e => e rfl
  have hnone (m : Manager) : Manager.getTopAbility { m with abilityList := [] } = none := rfl
  simp only [startAbility, hwant, hbundle, hlocal, Bool.false_eq_true, if_false, queryAbilitySvcInfo,
    hmini, startAbilityInfo, hlen, Manager.getTopAbility, AbilityList.getTopAbility, List.head?_nil,
    AbilityList.getByName, List.find?_nil, hstartup]
  generalize want.data.map CString.read = path
  obtain ⟨record, heq, hpath⟩ := preCheckStartAbility_listed (startsUp bundleName)
    (m := { isAppScheduling := true, pendingToken := 1 }) rfl (by decide)
    { bundleName := some bundleName, path := path, data := memdup want.data want.dataLength,
      dataLength := want.dataLength, isNativeApp := true, mission := want.mission } bundleName rfl
  exact (congrArg (fun l => l.head?.bind (·.appPath)) heq).trans hpath

/-- A launcher's record of another name than this one. -/
def permanentRecord (bundleName : CString) : AbilityRecord :=
  { appName := ⟨1 :: bundleName.bytes, by simp [bundleName.noNul]⟩, token := launcherToken
    abilityData := some { wantDataSize := 5 } }

theorem permanentRecord_ne (bundleName : CString) :
    (permanentRecord bundleName).appName ≠ bundleName := by
  intro e
  have hlen := congrArg (·.bytes.length) e
  simp [permanentRecord] at hlen

/-- An ability of the bundle below the top, of no mission in particular. -/
def listedBelow (bundleName : CString) : Manager :=
  { abilityList := [permanentRecord bundleName,
      { appName := bundleName, token := 1, mission := uint32Max }] }

theorem updateWant_mission (want : Want) {r : AbilityRecord} (h : r.mission = uint32Max) :
    (updateWant want r).mission = want.mission := by
  unfold updateWant
  split
  · rfl
  · next hmission =>
    rw [Decidable.not_not] at hmission
    rw [(AbilityRecord.setWantData_keeps ..).2, h, hmission]

/-- A start of a listed ability shows its mission. -/
theorem startAbility_listedBelow {want : Want} {element : ElementName} {bundleName : CString}
    (hwant : want.element = some element) (hbundle : element.bundleName = some bundleName)
    (hlocal : isRemote cfg want = false) :
    (startAbility cfg .working (listedBelow bundleName) (some want)).2.abilityList.head?.map
      (·.mission) = some want.mission := by
  simp only [isRemote, hwant, Option.any_some] at hlocal
  have hname : (listedBelow bundleName).abilityList.getByName bundleName =
      some { appName := bundleName, token := 1, mission := uint32Max } := by
    simp [listedBelow, AbilityList.getByName, permanentRecord_ne]
  have hlock : ¬ (listedBelow bundleName).isAppScheduling = true := Bool.false_ne_true
  have htop : Manager.getTopAbility { listedBelow bundleName with isAppScheduling := true } =
      some (permanentRecord bundleName) := rfl
  have htoken : ¬ (permanentRecord bundleName).token = 1 := show ¬ launcherToken = 1 by decide
  simp only [startAbility, hwant, hbundle, hlocal, Bool.false_eq_true, if_false, hname, htop, hlock,
    htoken]
  have hupdated : (updateWant want
      { appName := bundleName, token := 1, mission := uint32Max }).token = 1 := (updateWant_keeps ..).1
  have hmission := updateWant_mission want
    (r := { appName := bundleName, token := 1, mission := uint32Max }) rfl
  have hmodify : (listedBelow bundleName).abilityList.modify 1 (updateWant want) =
      [permanentRecord bundleName,
        updateWant want { appName := bundleName, token := 1, mission := uint32Max }] := rfl
  revert hupdated hmission hmodify
  generalize updateWant want { appName := bundleName, token := 1, mission := uint32Max } = record
  intro hupdated hmission hmodify
  have hmove : (AbilityList.moveToTop cfg.abilityListCapacity
      ((listedBelow bundleName).abilityList.modify 1 (updateWant want)) 1).1 =
        [record, permanentRecord bundleName] := by
    have hget : AbilityList.get [permanentRecord bundleName, record] 1 = some record := by
      simp [AbilityList.get, htoken, hupdated]
    have herase : AbilityList.erase [permanentRecord bundleName, record] 1 =
        [permanentRecord bundleName] := by
      rw [AbilityList.erase_below _ htoken, ← hupdated, AbilityList.erase_top]
    rw [hmodify, AbilityList.moveToTop, hget, herase]
    exact AbilityList.add_permanent _ _ rfl (by rw [hupdated]; exact htoken)
  refine (congrArg (fun l => l.head?.map (·.mission)) (Eq.trans ?_ hmove)).trans
    (congrArg some hmission)
  rfl

/-- A forced stop hands its data on, and an empty one is not handed on by the copy. -/
def stopCopied (want : Option Want) : Bool :=
  want.all fun want => (want.element.bind (·.bundleName)).isNone || want.data.isNone ||
    want.dataLength ≠ 0

theorem handWant_copied {env : Env} {want : Want} (h : want.data.isNone ∨ want.dataLength ≠ 0) :
    handWant (Manager.copiedWant env want) = handWant want := by
  funext r
  have hdata : (memdup want.data want.dataLength).isSome = want.data.isSome := by
    unfold memdup
    rcases h with h | h
    · rw [Option.isNone_iff_eq_none.mp h]
      split <;> rfl
    · rw [if_neg h]
      cases want.data <;> rfl
  simp only [handWant, Manager.copiedWant, AbilityRecord.setWantData, memdup_memdup, hdata]

theorem terminateAbilityWant_congr {env : Env} {m : Manager} {token : UInt16} {want want' : Want}
    (h : handWant want = handWant want') :
    terminateAbilityWant cfg env m token (some want) =
      terminateAbilityWant cfg env m token (some want') := by
  simp only [terminateAbilityWant, handToNewTop, h]

theorem forceStop_copied {env env' : Env} {m : Manager} {want : Option Want}
    (hm : m.isAppScheduling = false) (h : stopCopied want = true) :
    forceStop cfg env' m (Manager.copyWant env want) = forceStop cfg env' m want := by
  cases want with
  | none => rfl
  | some want =>
    simp only [forceStop, hm, Bool.false_eq_true, if_false, Manager.copyWant, Option.map_some,
      Option.bind_some]
    cases helem : want.element with
    | none => simp [Manager.copiedWant, helem]
    | some element =>
      cases hbundle : element.bundleName with
      | none => simp [Manager.copiedWant, helem, hbundle]
      | some bundleName =>
        simp only [stopCopied, Option.all_some, helem, Option.bind_some, hbundle, Option.isNone_some,
          Bool.false_or, Bool.or_eq_true, decide_eq_true_eq] at h
        have hcopy : (Manager.copiedWant env want).element = some { bundleName := some bundleName } := by
          simp [Manager.copiedWant, helem, hbundle]
        simp only [hcopy, Option.bind_some, hbundle]
        split
        · rfl
        · exact terminateAbilityWant_congr (handWant_copied h)

/-- A record of the bundle over a launcher's record with data. -/
def stoppedOver (bundleName : CString) : Manager :=
  { abilityList := [{ appName := bundleName, token := 1 }, permanentRecord bundleName] }

/-- The lists in which a terminate of that record leaves the two. -/
theorem get_terminated (cfg : Config) (bundleName : CString) (m : Manager) :
    (if AbilityList.isPermanentAbility { appName := bundleName, token := 1 } then
        (Manager.add cfg { m with abilityList := [] } { appName := bundleName, token := 1 }).add cfg
          (permanentRecord bundleName)
      else Manager.add cfg { m with abilityList := [permanentRecord bundleName] }
        { appName := bundleName, token := 1, isTerminated := true }).abilityList.get launcherToken =
      some (permanentRecord bundleName) := by
  have htoken : (permanentRecord bundleName).token ≠ 1 := show launcherToken ≠ 1 by decide
  split
  · next hperm =>
    have hevict : AbilityList.evict cfg.abilityListCapacity [] = [] :=
      List.sublist_nil.mp (AbilityList.evict_sublist _ _)
    have hfresh : AbilityList.get (AbilityList.evict cfg.abilityListCapacity []) 1 = none := by
      rw [hevict]
      rfl
    have hadd := AbilityList.add_of_fresh (r := { appName := bundleName, token := 1 }) hfresh
    rw [hevict] at hadd
    have hadd' := AbilityList.add_permanent cfg.abilityListCapacity (permanentRecord bundleName)
      hperm htoken.symm
    show AbilityList.get (AbilityList.add cfg.abilityListCapacity
      (AbilityList.add cfg.abilityListCapacity [] _).1 _).1 _ = _
    rw [hadd, hadd']
    exact AbilityList.get_top (r := permanentRecord bundleName) _
  · have hadd := AbilityList.add_permanent cfg.abilityListCapacity (r := permanentRecord bundleName)
      { appName := bundleName, token := 1, isTerminated := true } rfl htoken
    show AbilityList.get (AbilityList.add cfg.abilityListCapacity [permanentRecord bundleName] _).1 _ = _
    rw [hadd]
    rfl

theorem handWant_token (want : Want) (r : AbilityRecord) : (handWant want r).token = r.token :=
  (handWant_keeps r want).1

/-- A forced stop shows what it hands to the record below. -/
theorem forceStop_stoppedOver {want : Want} {element : ElementName} {bundleName : CString}
    (hwant : want.element = some element) (hbundle : element.bundleName = some bundleName) :
    (forceStop cfg .working (stoppedOver bundleName) (some want)).2.abilityList.get launcherToken =
      some (handWant want (permanentRecord bundleName)) := by
  have hname : (stoppedOver bundleName).abilityList.getByName bundleName =
      some { appName := bundleName, token := 1 } := AbilityList.getByName_top (r := { appName := bundleName, token := 1 }) _
  have hlock : ¬ (stoppedOver bundleName).isAppScheduling = true := Bool.false_ne_true
  have htop : Manager.getTopAbility { stoppedOver bundleName with isAppScheduling := true } =
      some { appName := bundleName, token := 1 } := rfl
  have hpop : (stoppedOver bundleName).abilityList.popAbility = [permanentRecord bundleName] := rfl
  have hlen : ¬ (stoppedOver bundleName).abilityList.length = 1 := show ¬ 2 = 1 by decide
  have hpop' : AbilityList.popAbility [permanentRecord bundleName] = [] := rfl
  simp only [forceStop, hlock, Bool.false_eq_true, if_false, Option.bind_some, hwant, hbundle, hname,
    terminateAbilityWant, htop, hlen, false_and, ne_eq, not_true_eq_false, hpop]
  have htop' : Manager.getTopAbility { stoppedOver bundleName with
      isAppScheduling := true, abilityList := [permanentRecord bundleName] } =
      some (permanentRecord bundleName) := rfl
  simp only [htop', hpop']
  rw [Manager.sendMsgToAbilityThread_none rfl]
  have hget := get_terminated cfg bundleName
    { stoppedOver bundleName with isAppScheduling := true }
  refine (AbilityList.get_modify (handWant_token want) _).trans ?_
  rw [hget]
  rfl

theorem startAbility_keeps_iff (env : Env) (want : Option Want) :
    (∀ env' (m : Manager), m.isAppScheduling = false →
      startAbility cfg env' m (Manager.copyWant env want) = startAbility cfg env' m want) ↔
    startCopied cfg env readsPath true want = true := by
  refine ⟨fun hkeeps => ?_, fun h env' m hm => startAbility_copied hm h⟩
  cases want with
  | none => rfl
  | some want =>
    cases hwant : want.element with
    | none => simp [startCopied, hwant]
    | some element =>
      cases hbundle : element.bundleName with
      | none => simp [startCopied, hwant, hbundle]
      | some bundleName =>
        simp only [Manager.copyWant, Option.map_some] at hkeeps
        have hcopy : (Manager.copiedWant env want).element = some { bundleName := some bundleName } := by
          simp [Manager.copiedWant, hwant, hbundle]
        have hcopyLocal : isRemote cfg (Manager.copiedWant env want) = false := by
          simp [isRemote, hcopy]
        have hlocal : isRemote cfg want = false := by
          cases hremote : isRemote cfg want with
          | false => rfl
          | true =>
            have hdms : cfg.dmsEnabled = true := by
              simp only [isRemote, Bool.and_eq_true] at hremote
              exact hremote.1
            have heq := hkeeps remoteOnly (remoteCaller bundleName) rfl
            rw [startAbility_remote rfl hwant hbundle hremote] at heq
            have hstarts := congrArg (·.2.remoteStarts) heq
            simp only [startAbility_remoteOnly hcopy] at hstarts
            exact nomatch hstarts.trans (startRemoteAbility_caller hdms bundleName want)
        simp only [startCopied, Option.all_some, hwant, Option.bind_some, hbundle]
        by_cases hmini : cfg.miniBms = true
        · have heq := congrArg (·.2.isAppScheduling) (hkeeps (knowsOnly want) {} rfl)
          simp only [startAbility_knowsOnly hcopy rfl hcopyLocal hmini,
            startAbility_knowsOnly hwant hbundle hlocal hmini, decide_true, decide_eq_true_eq] at heq
          rw [if_pos hmini, wholeCopied_iff]
          exact heq
        · have hmission := congrArg (·.2.abilityList.head?.map (·.mission))
            (hkeeps .working (listedBelow bundleName) rfl)
          simp only [startAbility_listedBelow hcopy rfl hcopyLocal,
            startAbility_listedBelow hwant hbundle hlocal, Option.some.injEq] at hmission
          simp only [if_neg hmini, hlocal, Bool.not_false, Bool.true_and, Bool.not_true, Bool.false_or,
            Bool.and_eq_true, Bool.or_eq_true, Bool.not_eq_true', decide_eq_true_eq]
          refine ⟨?_, hmission.symm⟩
          by_cases hreads : readsPath bundleName = true
          · have heq := congrArg (·.2.abilityList.head?.bind (·.appPath))
              (hkeeps (startsUp bundleName) { pendingToken := 1 } rfl)
            simp only [startAbility_startsUp hcopy rfl hcopyLocal hmini hreads,
              startAbility_startsUp hwant hbundle hlocal hmini hreads] at heq
            exact .inr (decide_eq_true heq)
          · exact .inl (by simpa using hreads)

theorem forceStop_keeps_iff (env : Env) (want : Option Want) :
    (∀ env' (m : Manager), m.isAppScheduling = false →
      forceStop cfg env' m (Manager.copyWant env want) = forceStop cfg env' m want) ↔
    stopCopied want = true := by
  refine ⟨fun hkeeps => ?_, fun h env' m hm => forceStop_copied hm h⟩
  cases want with
  | none => rfl
  | some want =>
    cases hwant : want.element with
    | none => simp [stopCopied, hwant]
    | some element =>
      cases hbundle : element.bundleName with
      | none => simp [stopCopied, hwant, hbundle]
      | some bundleName =>
        simp only [Manager.copyWant, Option.map_some] at hkeeps
        have hcopy : (Manager.copiedWant env want).element = some { bundleName := some bundleName } := by
          simp [Manager.copiedWant, hwant, hbundle]
        have heq := congrArg (·.2.abilityList.get launcherToken)
          (hkeeps .working (stoppedOver bundleName) rfl)
        simp only [forceStop_stoppedOver hcopy rfl, forceStop_stoppedOver hwant hbundle,
          Option.some.injEq] at heq
        simp only [stopCopied, Option.all_some, hwant, Option.bind_some, hbundle, Option.isNone_some,
          Bool.false_or, Bool.or_eq_true, decide_eq_true_eq]
        refine Decidable.byContradiction fun hlost => ?_
        rw [not_or, Decidable.not_not] at hlost
        obtain ⟨hdata, hzero⟩ := hlost
        obtain ⟨d, hd⟩ := Option.ne_none_iff_exists'.mp fun e => hdata (Option.isNone_iff_eq_none.mpr e)
        -- the copy has no data, so the old length stays; the want sets it to 0
        have hsize := congrArg (fun r => r.abilityData.map (·.wantDataSize)) heq
        simp [handWant, Manager.copiedWant, hd, hzero, memdup, AbilityRecord.setWantData,
          permanentRecord] at hsize

/-- The calls that a deferral keeps as they are. -/
def kept (cfg : Config) (env : Env) : Call → Bool
  | .startAbility want => startCopied cfg env readsPath true want
  | .forceStop want => stopCopied want
  | .terminateAll excludedBundleName => nameFits excludedBundleName
  | _ => true

theorem deferralKeeps_iff (env : Env) (c : Call) :
    (operations cfg).DeferralKeeps env c ↔ kept cfg env c = true := by
  rw [(operations_defers cfg).deferralKeeps_iff]
  cases c with
  | startAbility want => exact startAbility_keeps_iff env want
  | terminateAll excluded => exact terminateAll_keeps_iff rfl env excluded
  | forceStop want => exact forceStop_keeps_iff env want
  | terminateAbility token =>
    refine iff_of_true (fun env' m _ => ?_) rfl
    simp [Operations.dispatch, Operations.call, Call.stored, Manager.deferredOperation]
  | terminateMission mission =>
    refine iff_of_true (fun env' m _ => ?_) rfl
    simp [Operations.dispatch, Operations.call, Call.stored, Manager.deferredOperation]
  | forceStopBundle token =>
    refine iff_of_true (fun env' m _ => ?_) rfl
    simp [Operations.dispatch, Operations.call, Call.stored, Manager.deferredOperation]

end MultiTasks

/-! ## Both builds -/

end AbilityLite.Slite
