import AbilityLite.Slite.AbilityList

/-
  `AbilityRecordManager`: its state, and the member functions that are the same
  in the two builds. The functions that `_MINI_MULTI_TASKS_` splits are in
  `SingleTask` and `MultiTasks`.

  The record list is changed by operations that delete records. Deleting a record
  deletes its thread and the thread's queue with it, so messages still in that
  queue are gone (`release`).
-/

namespace AbilityLite.Slite

/-- The commands of `AmsCommand` that the slite service handles, and every other number a deferred
operation may carry. -/
inductive AmsCommand where
  | startAbility
  | terminateAbility
  | terminateApp
  | terminateAppByBundleName
  | terminateMission
  | terminateAll
  | other (msgId : UInt16)
  deriving DecidableEq, Repr

structure AbilityOperation where
  msgId : AmsCommand
  want : Option Want
  token : UInt64
  deriving DecidableEq, Repr

/-- The manager, with what it has sent and not heard of again. `nativeAbility` is
the state of the installed native launcher ability. `fault` records that the code
used a null pointer or a deleted record: the source's behaviour is undefined from
there on. -/
structure Manager where
  isAppScheduling : Bool := false
  abilityOperation : List AbilityOperation := []
  abilityList : AbilityList := []
  pendingToken : UInt16 := 0
  pendingRecord : Option AbilityRecord := none
  nativeAbility : Option SliteAbilityState := none
  curTask : Option Nat := none
  nextToken : UInt16 := launcherToken
  nextMission : UInt32 := 0
  cleanAbilityDataFlag : Bool := false
  sent : List SliteAbilityInnerMsg := []
  remoteStarts : List (Want × CString) := []
  notifications : List Notification := []
  fault : Bool := false
  deriving DecidableEq, Repr

namespace Manager

def crash (m : Manager) : Manager := { m with fault := true }

def notify (m : Manager) (n : Notification) : Manager :=
  { m with notifications := m.notifications ++ [n] }

def getTopAbility (m : Manager) : Option AbilityRecord := m.abilityList.getTopAbility

theorem getTopAbility_cons {m : Manager} {r : AbilityRecord} {l : AbilityList}
    (h : m.abilityList = r :: l) : m.getTopAbility = some r := by
  simp [getTopAbility, h, AbilityList.getTopAbility]

theorem getTopAbility_nil {m : Manager} (h : m.abilityList = []) : m.getTopAbility = none := by
  simp [getTopAbility, h, AbilityList.getTopAbility]

/-- Change the listed record with a token. -/
def modify (m : Manager) (token : UInt16) (f : AbilityRecord → AbilityRecord) : Manager :=
  { m with abilityList := m.abilityList.modify token f }

/-- A thread is gone, and the messages in its queue with it. The native threads share one queue,
which the source does not delete: what it still holds for a native thread that is gone is dropped
here. -/
def release (m : Manager) (token : UInt16) : Manager :=
  { m with sent := m.sent.filter fun msg => msg.token ≠ token }

def releaseAll (m : Manager) (deleted : List AbilityRecord) : Manager :=
  deleted.foldl (fun m r => m.release r.token) m

theorem releaseAll_eq (m : Manager) (deleted : List AbilityRecord) :
    m.releaseAll deleted =
      { m with sent := m.sent.filter fun msg => deleted.all fun r => msg.token ≠ r.token } := by
  induction deleted generalizing m with
  | nil =>
    have h : m.sent.filter (fun _ => true) = m.sent := List.filter_eq_self.mpr fun _ _ => rfl
    simp [releaseAll, h]
  | cons r deleted ih =>
    simp only [releaseAll, List.foldl_cons] at ih ⊢
    rw [ih]
    simp [release, List.filter_filter, Bool.and_comm]

/-- `abilityList_.Add`. -/
def add (cfg : Config) (m : Manager) (r : AbilityRecord) : Manager :=
  let (l, deleted) := m.abilityList.add cfg.abilityListCapacity r
  { m.releaseAll deleted with abilityList := l }

/-- `Add` lists a new record with the token: none of that token is left once there is
room. -/
def takes (cfg : Config) (m : Manager) (token : UInt16) : Bool :=
  ((m.abilityList.evict cfg.abilityListCapacity).get token).isNone

theorem add_eq (cfg : Config) (m : Manager) (r : AbilityRecord) :
    ∃ s, m.add cfg r =
      { m with abilityList := (m.abilityList.add cfg.abilityListCapacity r).1, sent := s } :=
  ⟨_, by simp only [add, releaseAll_eq]; rfl⟩

theorem add_subset (cfg : Config) (m : Manager) (r : AbilityRecord) :
    ∀ x ∈ (m.add cfg r).abilityList, x = r ∨ x ∈ m.abilityList := by
  intro x hx
  have hsub := (AbilityList.evict_sublist cfg.abilityListCapacity m.abilityList).subset
  obtain ⟨s, hadd⟩ := add_eq cfg m r
  rw [hadd] at hx
  cases hg : (m.abilityList.evict cfg.abilityListCapacity).get r.token with
  | none =>
    simp only [AbilityList.add_of_fresh hg] at hx
    exact (List.mem_cons.mp hx).imp_right fun hx => hsub hx
  | some y =>
    have hlisted : ((m.abilityList.evict cfg.abilityListCapacity).get r.token).isSome := by
      rw [hg]
      rfl
    simp only [AbilityList.add_of_listed hlisted] at hx
    exact .inr (hsub hx)

theorem add_room {cfg : Config} {m : Manager} {r : AbilityRecord}
    (hroom : m.abilityList.length < cfg.abilityListCapacity)
    (hfresh : m.abilityList.get r.token = none) :
    m.add cfg r = { m with abilityList := r :: m.abilityList } := by
  have hroom' : ¬ cfg.abilityListCapacity ≤ m.abilityList.length := Nat.not_le_of_lt hroom
  simp only [add, AbilityList.add, if_neg hroom', hfresh, Option.isNone_none, if_true, releaseAll,
    List.foldl_nil]

/-- A new record goes on top; what it takes the room of is below the old top, and so no
message to the old top is lost. -/
theorem add_over {cfg : Config} (hcap : 3 ≤ cfg.abilityListCapacity) {m : Manager}
    {top r : AbilityRecord} {l : AbilityList} (hl : m.abilityList = top :: l)
    (hd : (m.abilityList.map (·.token)).Nodup)
    (hbound : m.abilityList.length ≤ cfg.abilityListCapacity)
    (hfresh : m.abilityList.get r.token = none) (hsent : ∀ msg ∈ m.sent, msg.token = top.token) :
    ∃ l', m.add cfg r = { m with abilityList := r :: top :: l' } ∧ l'.Sublist l ∧
      (r :: top :: l').length ≤ cfg.abilityListCapacity := by
  obtain ⟨l', hl', hsub⟩ := AbilityList.evict_cons hcap top l
  rw [← hl] at hl'
  have hfresh' : (m.abilityList.evict cfg.abilityListCapacity).get r.token = none := by
    rw [AbilityList.get_eq_none] at hfresh ⊢
    exact fun x hx => hfresh x ((AbilityList.evict_sublist _ _).subset hx)
  refine ⟨l', ?_, hsub, ?_⟩
  · have hkeep : m.sent.filter (fun msg =>
        (m.abilityList.add cfg.abilityListCapacity r).2.all fun d => msg.token ≠ d.token) =
        m.sent := by
      rw [List.filter_eq_self]
      intro msg hmsg
      rw [List.all_eq_true]
      intro d hdel
      have hdl : d ∈ l := by
        rw [AbilityList.add_deleted] at hdel
        split at hdel
        · next hfull =>
          rw [hl] at hdel hfull
          refine AbilityList.popBottomAbility_deleted ?_ d hdel
          simp only [List.length_cons] at hfull
          omega
        · cases hdel
      rw [hsent msg hmsg]
      rw [hl, List.map_cons, List.nodup_cons] at hd
      simp only [ne_eq, decide_eq_true_eq]
      exact fun e => hd.1 (List.mem_map.mpr ⟨d, hdl, e.symm⟩)
    have hlist := AbilityList.add_of_fresh hfresh'
    rw [hl'] at hlist
    simp only [add, releaseAll_eq, hkeep, hlist]
  · have hlen := AbilityList.evict_length (Nat.le_of_succ_le hcap) hbound
    rw [hl'] at hlen
    simp only [List.length_cons] at hlen ⊢
    omega

/-- Making room in the list would delete the record with the token. -/
def evicts (cfg : Config) (m : Manager) (token : UInt16) : Bool :=
  cfg.abilityListCapacity ≤ m.abilityList.length &&
    m.abilityList.popBottomAbility.2.any (·.token = token)

/-- With room for three, making room never deletes the record on top. -/
theorem evicts_top {cfg : Config} (hcap : 3 ≤ cfg.abilityListCapacity) {m : Manager}
    {r : AbilityRecord} {l : AbilityList} (hl : m.abilityList = r :: l)
    (hfresh : ∀ x ∈ l, x.token ≠ r.token) : m.evicts cfg r.token = false := by
  simp only [evicts, hl, Bool.and_eq_false_imp, decide_eq_true_eq, List.any_eq_false]
  intro hfull d hd
  have hlen : 2 ≤ l.length := by
    rw [List.length_cons] at hfull
    omega
  exact hfresh d (AbilityList.popBottomAbility_deleted hlen d hd)

def erase (m : Manager) (token : UInt16) : Manager :=
  { m with abilityList := m.abilityList.erase token }

def moveToTop (cfg : Config) (m : Manager) (token : UInt16) : Manager :=
  let (l, deleted) := m.abilityList.moveToTop cfg.abilityListCapacity token
  { m.releaseAll deleted with abilityList := l }

theorem moveToTop_none {cfg : Config} {m : Manager} {token : UInt16}
    (h : m.abilityList.get token = none) : m.moveToTop cfg token = m := by
  simp only [moveToTop, AbilityList.moveToTop, h, releaseAll, List.foldl_nil]

theorem moveToTop_some {cfg : Config} {m : Manager} {token : UInt16} {r : AbilityRecord}
    (h : m.abilityList.get token = some r) : m.moveToTop cfg token = (m.erase token).add cfg r := by
  simp only [moveToTop, AbilityList.moveToTop, h, add, erase, releaseAll_eq]

theorem moveToTop_subset (cfg : Config) (m : Manager) (token : UInt16) :
    ∀ x ∈ (m.moveToTop cfg token).abilityList, x ∈ m.abilityList := by
  intro x hx
  cases h : m.abilityList.get token with
  | none =>
    rw [moveToTop_none h] at hx
    exact hx
  | some r =>
    rw [moveToTop_some h] at hx
    rcases add_subset cfg _ r x hx with rfl | hx
    · exact (AbilityList.get_eq_some h).1
    · exact (AbilityList.erase_sublist _ _).subset hx

/-- A listed record comes to the top. -/
theorem moveToTop_listed {cfg : Config} {m : Manager} {token : UInt16} {r : AbilityRecord}
    (hd : (m.abilityList.map (·.token)).Nodup)
    (hbound : m.abilityList.length ≤ cfg.abilityListCapacity) (h : m.abilityList.get token = some r) :
    m.moveToTop cfg token = { m with abilityList := r :: m.abilityList.erase token } := by
  obtain ⟨hmem, rfl⟩ := AbilityList.get_eq_some h
  have hlen : (m.abilityList.erase r.token).length + 1 = m.abilityList.length :=
    Nat.sub_one_add_one_eq_of_pos (List.length_pos_of_mem hmem) ▸
      congrArg (· + 1) (List.length_eraseP_of_mem hmem (by simp))
  have hroom : ¬ cfg.abilityListCapacity ≤ (m.abilityList.erase r.token).length := by omega
  have hfresh : AbilityList.get (m.abilityList.erase r.token) r.token = none :=
    AbilityList.get_eq_none.mpr fun x hx => (AbilityList.mem_erase hd hx).2
  simp only [moveToTop, AbilityList.moveToTop, h, AbilityList.add, if_neg hroom, hfresh,
    Option.isNone_none, if_true, releaseAll, List.foldl_nil]

/-! ## Sending -/

/-- `CreateWant`: the want of a lifecycle message. -/
def createWant (r : AbilityRecord) : Want :=
  let want : Want :=
    { element := some { bundleName := strdup (some r.appName) }
      appPath := strdup r.appPath
      mission := r.mission }
  match r.abilityData with
  | some d => want.setWantData d.wantData d.wantDataSize
  | none => want

/-- The message `SendMsgToAbilityThread` builds for a state. -/
def innerMsg (state : SliteAbilityState) (r : AbilityRecord) : SliteAbilityInnerMsg :=
  match state with
  | .initial =>
    { token := r.token, msgId := .create, want := some (createWant r)
      hasSavedData := !r.isTerminated && r.abilitySavedData.isSome }
  | .foreground => { token := r.token, msgId := .foreground, want := some (createWant r) }
  | .background => { token := r.token, msgId := .background }
  | .uninitialized =>
    { token := r.token, msgId := .destroy
      hasSavedData := !r.isTerminated && r.abilitySavedData.isSome }
  | .unknown => { token := r.token, msgId := .unknown }

theorem innerMsg_token (st : SliteAbilityState) (r : AbilityRecord) :
    (innerMsg st r).token = r.token := by
  cases st <;> rfl

theorem innerMsg_requested (st : SliteAbilityState) (r : AbilityRecord) :
    (innerMsg st r).msgId.requested = st := by
  cases st <;> rfl

/-- `SendMsgToAbilityThread`. -/
def sendMsgToAbilityThread (env : Env) (m : Manager) (state : SliteAbilityState)
    (r : AbilityRecord) : ErrCode × Manager :=
  if r.abilityThread.isNone then (paramNullError, m)
  else
    let msg := innerMsg state r
    if env.messageQueuePut r.token msg.msgId then (errOk, { m with sent := m.sent ++ [msg] })
    else (ipcRequestError, m)

theorem sendMsgToAbilityThread_thread {env : Env} (hacc : env.Accepts) (m : Manager)
    {r : AbilityRecord} (hthread : r.abilityThread.isSome) (state : SliteAbilityState) :
    m.sendMsgToAbilityThread env state r =
      (errOk, { m with sent := m.sent ++ [innerMsg state r] }) := by
  have hn : ¬ r.abilityThread.isNone := by
    simpa [Option.isSome_iff_ne_none] using hthread
  simp only [sendMsgToAbilityThread, if_neg hn, hacc _ _, if_true]

theorem sendMsgToAbilityThread_none {env : Env} {m : Manager} {r : AbilityRecord}
    (hthread : r.abilityThread = none) (state : SliteAbilityState) :
    m.sendMsgToAbilityThread env state r = (paramNullError, m) := by
  simp only [sendMsgToAbilityThread, hthread, Option.isNone_none, if_true]

/-- A send puts its message in flight or does nothing. -/
theorem sendMsgToAbilityThread_eq (env : Env) (m : Manager) (state : SliteAbilityState)
    (r : AbilityRecord) :
    ∃ s, (m.sendMsgToAbilityThread env state r).2 = { m with sent := s } := by
  unfold sendMsgToAbilityThread
  split
  · exact ⟨m.sent, rfl⟩
  · simp only
    split
    · exact ⟨_, rfl⟩
    · exact ⟨m.sent, rfl⟩

/-- `SetAbilityStateAndNotify`. -/
def setAbilityStateAndNotify (m : Manager) (token : UInt16) (state : AbilityRecordState) :
    Manager :=
  match m.abilityList.get token with
  | none => m
  | some r =>
    (m.modify token fun r => { r with state := state }).notify (.stateChanged r.appName state)

theorem setAbilityStateAndNotify_eq (m : Manager) (token : UInt16) (state : AbilityRecordState) :
    ∃ n, m.setAbilityStateAndNotify token state =
      { m with
        abilityList := m.abilityList.modify token fun r => { r with state := state }
        notifications := n } := by
  unfold setAbilityStateAndNotify
  cases h : m.abilityList.get token with
  | none => exact ⟨m.notifications, by simp only [AbilityList.modify_eq_self h]⟩
  | some r => exact ⟨_, rfl⟩

/-! ## Records and tokens -/

/-- `DeleteAbilityThread`. -/
def deleteAbilityThread (m : Manager) (r : AbilityRecord) : Manager :=
  if r.abilityThread.isSome then
    (m.release r.token).modify r.token fun r => { r with abilityThread := none }
  else m

/-- `DeleteRecordInfo`. -/
def deleteRecordInfo (m : Manager) (token : UInt16) : Manager :=
  match m.abilityList.get token with
  | none => m
  | some r => ((m.deleteAbilityThread r).erase token).notify (.cleanup r.appName)

theorem deleteRecordInfo_none {m : Manager} {token : UInt16} (h : m.abilityList.get token = none) :
    m.deleteRecordInfo token = m := by
  simp only [deleteRecordInfo, h]

theorem deleteRecordInfo_some {m : Manager} {token : UInt16} {r : AbilityRecord}
    (hd : (m.abilityList.map (·.token)).Nodup) (h : m.abilityList.get token = some r) :
    m.deleteRecordInfo token =
      { m with
        abilityList := m.abilityList.erase token
        sent := if r.abilityThread.isSome then m.sent.filter (·.token ≠ token) else m.sent
        notifications := m.notifications ++ [.cleanup r.appName] } := by
  have ht := (AbilityList.get_eq_some h).2
  subst ht
  simp only [deleteRecordInfo, h, deleteAbilityThread]
  split
  · simp only [release, modify, erase, notify, Manager.mk.injEq, true_and, and_true]
    exact AbilityList.erase_modify (fun _ => rfl) hd
  · simp [erase, notify]

/-- The record that `CreateAppTask` leaves once its thread runs. -/
def started (env : Env) (r : AbilityRecord) : AbilityRecord :=
  { r with
    abilityThread := some (if r.isNativeApp then .nativeCreator else .jsCreator)
    taskId := env.appTaskId r.token
    state := .stop }

/-- `GenerateMission`. -/
def generateMission (m : Manager) : UInt32 × Manager :=
  let mission := if m.nextMission = uint32Max then 0 else m.nextMission
  (mission, { m with nextMission := mission + 1 })

/-! ## Remote starts -/

/-- `StartRemoteAbility`. -/
def startRemoteAbility (cfg : Config) (env : Env) (m : Manager) (want : Want) :
    ErrCode × Manager :=
  if cfg.dmsEnabled then
    if env.dmsInterface then
      match m.abilityList.getByTaskId m.curTask with
      | none => (paramNullError, m)
      | some r =>
        (env.startRemote want r.appName,
          { m with remoteStarts := m.remoteStarts ++ [(want, r.appName)] })
    else (cfg.ecInvalid, m)
  else (paramNullError, m)

theorem startRemoteAbility_eq (cfg : Config) (env : Env) (m : Manager) (want : Want) :
    ∃ rs, (startRemoteAbility cfg env m want).2 = { m with remoteStarts := rs } := by
  unfold startRemoteAbility
  split
  · split
    · split
      · exact ⟨_, rfl⟩
      · exact ⟨_, rfl⟩
    · exact ⟨_, rfl⟩
  · exact ⟨_, rfl⟩

/-! ## Deferred operations -/

/-- The copy `CopyWant` makes: the element keeps its bundle name only, and `mission` is
whatever the allocated memory held. -/
def copiedWant (env : Env) (want : Want) : Want :=
  { element := want.element.map fun e => { bundleName := strdup e.bundleName }
    data := memdup want.data want.dataLength
    dataLength := want.dataLength
    appPath := strdup want.appPath
    mission := env.heapMission }

/-- `CopyWant`. -/
def copyWant (env : Env) (want : Option Want) : Option Want := want.map (copiedWant env)

/-- The operation that `AddAbilityOperation` records. -/
def deferredOperation (env : Env) (msgId : AmsCommand) (want : Option Want) (token : UInt64) :
    AbilityOperation :=
  { msgId := msgId, want := copyWant env want, token := token }

/-- `AddAbilityOperation`. -/
def addAbilityOperation (env : Env) (m : Manager) (msgId : AmsCommand) (want : Option Want)
    (token : UInt64) : ErrCode × Manager :=
  (errOk, { m with
    abilityOperation := m.abilityOperation ++ [deferredOperation env msgId want token] })

/-! ## Terminating everything -/

/-- The want in which a busy manager packs the argument of `TerminateAll`. -/
def excludedWant (excludedBundleName : Option CString) : Want :=
  match excludedBundleName with
  | none => { data := none, dataLength := 0 }
  | some s => { data := some s.buffer, dataLength := UInt16.ofNat s.buffer.length }

/-- `TerminateAll`. -/
def terminateAll (env : Env) (m : Manager) (excludedBundleName : Option CString) :
    ErrCode × Manager :=
  if m.isAppScheduling then
    m.addAbilityOperation env .terminateAll (some (excludedWant excludedBundleName)) 0
  else
    let (ret, l, deleted) := m.abilityList.popAllAbility excludedBundleName
    let m := deleted.foldl (fun m r => m.notify (.cleanup r.appName)) (m.releaseAll deleted)
    (ret, { m with abilityList := l, isAppScheduling := false })

/-- Of each record that is deleted it is told once. -/
theorem foldl_notify (m : Manager) (deleted : List AbilityRecord) :
    deleted.foldl (fun m r => m.notify (.cleanup r.appName)) m =
      { m with notifications := m.notifications ++ deleted.map fun r => .cleanup r.appName } := by
  induction deleted generalizing m with
  | nil => simp
  | cons r deleted ih =>
    rw [List.foldl_cons, ih, List.map_cons]
    simp [notify]

theorem foldl_notify_eq (m : Manager) (deleted : List AbilityRecord) :
    ∃ n, deleted.foldl (fun m r => m.notify (.cleanup r.appName)) m = { m with notifications := n } :=
  ⟨_, foldl_notify m deleted⟩

end Manager

/-- The operations that a request or a deferred operation is dispatched to. Each
build has its own. -/
structure Operations where
  startAbility : Env → Manager → Option Want → ErrCode × Manager
  terminateAbility : Env → Manager → UInt16 → ErrCode × Manager
  terminateMission : Env → Manager → UInt32 → ErrCode × Manager
  forceStopBundle : Env → Manager → UInt16 → ErrCode × Manager
  forceStop : Env → Manager → Option Want → ErrCode × Manager
  terminateAll : Env → Manager → Option CString → ErrCode × Manager

section
variable (ops : Operations)

/-- The `switch` of `RunOperation`. A `TERMINATE_ALL` without a want is a null
dereference. -/
def Operations.dispatch (env : Env) (m : Manager) (operation : AbilityOperation) :
    ErrCode × Manager :=
  match operation.msgId with
  | .startAbility => ops.startAbility env m operation.want
  | .terminateAbility => ops.terminateAbility env m operation.token.toUInt16
  | .terminateApp => ops.forceStopBundle env m operation.token.toUInt16
  | .terminateMission => ops.terminateMission env m operation.token.toUInt32
  | .terminateAppByBundleName => ops.forceStop env m operation.want
  | .terminateAll =>
    match operation.want with
    | none => (errOk, m.crash)
    | some want => ops.terminateAll env m (want.data.map CString.read)
  | .other _ => (errOk, m)

/-- `RunOperation`, at most `fuel` operations deep; `envs i` answers the `i`-th
operation executed. -/
def Operations.runOperationFuel : Nat → (Nat → Env) → Manager → ErrCode × Manager
  | 0, _, m => (errOk, m)
  | fuel + 1, envs, m =>
    match m.abilityOperation with
    | [] => (errOk, { m with isAppScheduling := false })
    | operation :: rest =>
      if m.isAppScheduling then (errOk, m)
      else
        let (ret, m) := ops.dispatch (envs 0) { m with abilityOperation := rest } operation
        if ret ≠ errOk then
          Operations.runOperationFuel fuel (fun i => envs (i + 1)) { m with isAppScheduling := false }
        else if m.isAppScheduling then (ret, m)
        else Operations.runOperationFuel fuel (fun i => envs (i + 1)) m

/-- An executed start may defer a terminate of its own, and nothing else defers
anything: this bounds the operations a drain can execute. -/
def AbilityOperation.weight (o : AbilityOperation) : Nat :=
  if o.msgId = .startAbility then 2 else 1

def queueWeight (q : List AbilityOperation) : Nat := q.foldr (fun o n => o.weight + n) 0

/-- `RunOperation`. -/
def Operations.runOperation (envs : Nat → Env) (m : Manager) : ErrCode × Manager :=
  ops.runOperationFuel (queueWeight m.abilityOperation + 1) envs m

end

end AbilityLite.Slite
