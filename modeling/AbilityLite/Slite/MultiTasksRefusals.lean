import AbilityLite.Slite.MultiTasksPermanent

/-
  Refused requests of the multi-task build.

  The checks that come first refuse a request before anything is done. The last ones
  (the path of a new application, the send to the old top, the new top of a
  terminate) come after the list was reordered, the top marked and `pendingToken`
  reserved, and nothing is taken back. `leavesTrace` says which refusals these are, in
  every state a run can reach.
-/

namespace AbilityLite.Slite.MultiTasks
open Manager AbilityList

/-! ## Lists of a run -/

/-- No token is listed twice, and the list is no longer than its capacity. -/
structure Tidy (cfg : Config) (l : AbilityList) : Prop where
  nodup : (l.map (·.token)).Nodup
  bounded : l.length ≤ cfg.abilityListCapacity

namespace Tidy
variable {cfg : Config} {l l' : AbilityList}

theorem sublist (h : Tidy cfg l) (hsub : l'.Sublist l) : Tidy cfg l' :=
  ⟨h.nodup.sublist (hsub.map _), Nat.le_trans hsub.length_le h.bounded⟩

theorem modify (h : Tidy cfg l) (token : UInt16) {f : AbilityRecord → AbilityRecord}
    (hf : ∀ r, (f r).token = r.token) : Tidy cfg (l.modify token f) := by
  refine ⟨?_, ?_⟩
  · rw [modify_tokens hf]
    exact h.nodup
  · rw [AbilityList.modify, List.length_map]
    exact h.bounded

theorem add (hcap : 3 ≤ cfg.abilityListCapacity) {m : Manager} (h : Tidy cfg m.abilityList)
    (r : AbilityRecord) : Tidy cfg (m.add cfg r).abilityList := by
  have hsub := evict_sublist cfg.abilityListCapacity m.abilityList
  obtain ⟨s, hadd⟩ := add_eq cfg m r
  rw [hadd]
  cases hg : (m.abilityList.evict cfg.abilityListCapacity).get r.token with
  | some x =>
    have hl := add_of_listed (show Option.isSome _ = true by rw [hg]; rfl)
    exact h.sublist (hl ▸ hsub)
  | none =>
    have hlen := evict_length (Nat.le_of_succ_le hcap) h.bounded
    simp only [add_of_fresh hg]
    refine ⟨?_, hlen⟩
    rw [List.map_cons, List.nodup_cons]
    refine ⟨fun hmem => ?_, h.nodup.sublist (hsub.map _)⟩
    obtain ⟨x, hx, hxt⟩ := List.mem_map.mp hmem
    exact get_eq_none.mp hg x hx hxt

theorem moveToTop (hcap : 3 ≤ cfg.abilityListCapacity) {m : Manager} (h : Tidy cfg m.abilityList)
    (token : UInt16) : Tidy cfg (m.moveToTop cfg token).abilityList := by
  cases hg : m.abilityList.get token with
  | none =>
    rw [moveToTop_none hg]
    exact h
  | some r =>
    rw [moveToTop_some hg]
    exact add hcap (m := m.erase token) (h.sublist (erase_sublist _ _)) r

theorem deleteRecordInfo {m : Manager} (h : Tidy cfg m.abilityList) (token : UInt16) :
    Tidy cfg (m.deleteRecordInfo token).abilityList := by
  cases hg : m.abilityList.get token with
  | none =>
    rw [deleteRecordInfo_none hg]
    exact h
  | some r =>
    rw [deleteRecordInfo_some h.nodup hg]
    exact h.sublist (erase_sublist _ _)

end Tidy

section
variable {cfg : Config} {env : Env} {m : Manager}

theorem sendMsgToAbilityThread_same (env : Env) (m : Manager) (state : SliteAbilityState)
    (r : AbilityRecord) : (m.sendMsgToAbilityThread env state r).2.abilityList = m.abilityList := by
  obtain ⟨s, hs⟩ := sendMsgToAbilityThread_eq env m state r
  rw [hs]

theorem Tidy.markTop (h : Tidy cfg m.abilityList) (env : Env) (top : AbilityRecord) :
    Tidy cfg (markTop env m top).abilityList := by
  unfold MultiTasks.markTop
  split
  · exact h.modify top.token fun _ => rfl
  · exact h

theorem Tidy.createAppTask (h : Tidy cfg m.abilityList) (env : Env) (r : AbilityRecord)
    (listed : Bool) : Tidy cfg (createAppTask env m r listed).2.abilityList := by
  have hlisted {f : AbilityRecord → AbilityRecord} (hf : ∀ r, (f r).token = r.token) :
      Tidy cfg (if listed then m.modify r.token f else m).abilityList := by
    split
    · exact h.modify r.token hf
    · exact h
  by_cases hinit : env.initAbilityThread r.token = errOk
  · simp only [MultiTasks.createAppTask, hinit, ne_eq, not_true_eq_false, if_false, schedulerLifecycle]
    have hstarted := hlisted (f := started env) fun _ => rfl
    split
    · exact hstarted
    · rw [sendMsgToAbilityThread_same]
      exact hstarted
  · rw [createAppTask_failed hinit]
    exact hlisted fun _ => rfl

theorem Tidy.preCheckStartAbility (hcap : 3 ≤ cfg.abilityListCapacity) (h : Tidy cfg m.abilityList)
    (env : Env) (info : AbilitySvcInfo) (bundleName : CString) :
    Tidy cfg (preCheckStartAbility cfg env m info bundleName).2.abilityList := by
  unfold MultiTasks.preCheckStartAbility
  split
  · exact h
  · split
    · split
      · split <;> exact h
      · exact h.moveToTop hcap _
    · obtain ⟨token, k, htoken⟩ : ∃ token k,
          (if m.pendingToken ≠ 0 then (m.pendingToken, m) else generateToken m) =
            (token, { m with nextToken := k }) := by
        split
        · exact ⟨m.pendingToken, m.nextToken, rfl⟩
        · exact ⟨_, _, rfl⟩
      obtain ⟨mission, k', hmission⟩ := generateMission_eq { m with nextToken := k } info
      simp only [htoken, hmission]
      have hadded := Tidy.add hcap (m := { m with nextToken := k, nextMission := k' }) h
        (newRecord info bundleName token mission)
      split
      · have hcreated := hadded.createAppTask env (newRecord info bundleName token mission)
          (Manager.takes cfg { m with nextToken := k, nextMission := k' } token)
        split
        · exact hcreated.sublist (erase_sublist _ _)
        · exact hcreated
      · exact hadded

theorem Tidy.startAbilityInfo (hcap : 3 ≤ cfg.abilityListCapacity) (h : Tidy cfg m.abilityList)
    (env : Env) (info : AbilitySvcInfo) :
    Tidy cfg (startAbilityInfo cfg env m info).2.abilityList := by
  unfold MultiTasks.startAbilityInfo
  split
  · exact h
  · split
    · exact h
    · split
      · split
        · exact h
        · exact h.preCheckStartAbility hcap env info _
      · next top htop =>
        split
        · exact h
        · split
          · split
            · exact h.createAppTask env top true
            · exact h
          · refine Tidy.preCheckStartAbility hcap ?_ env info _
            show Tidy cfg ((MultiTasks.markTop env m top).sendMsgToAbilityThread env .background top).2.abilityList
            rw [sendMsgToAbilityThread_same]
            exact h.markTop env top

theorem Tidy.startAbility (hcap : 3 ≤ cfg.abilityListCapacity) (h : Tidy cfg m.abilityList)
    (env : Env) (want : Option Want) : Tidy cfg (startAbility cfg env m want).2.abilityList := by
  cases hlock : m.isAppScheduling with
  | true =>
    simp only [MultiTasks.startAbility, hlock, if_true]
    exact h
  | false =>
    have hcases := startAbility_cases cfg env hlock want
    generalize MultiTasks.startAbility cfg env m want = x at hcases ⊢
    cases hcases with
    | ends ret remote hnone => exact h
    | bringsUp w r top hmem htop hne hup =>
      rw [sendMsgToAbilityThread_same]
      refine Tidy.markTop (Tidy.moveToTop hcap ?_ _) env top
      exact h.modify r.token fun r => (updateWant_keeps w r).1
    | startsNew w bundleName info happ hbundle hname hquery =>
      exact Tidy.startAbilityInfo (m := { m with isAppScheduling := true }) hcap h env _

theorem Tidy.terminateAbilityWant (hcap : 3 ≤ cfg.abilityListCapacity) (h : Tidy cfg m.abilityList)
    (env : Env) (token : UInt16) (want : Option Want) :
    Tidy cfg (terminateAbilityWant cfg env m token want).2.abilityList := by
  unfold MultiTasks.terminateAbilityWant
  split
  · exact h
  · next top htop =>
    split
    · exact h
    · split
      · split
        · exact h
        · split
          · exact h
          · exact h.deleteRecordInfo token
      · have hpop : Tidy cfg m.abilityList.popAbility := h.sublist (List.tail_sublist _)
        simp only
        split
        · exact hpop
        · next newTop hnew =>
          rw [sendMsgToAbilityThread_same]
          have hswap : Tidy cfg (if isPermanentAbility top then
              (({ m with abilityList := m.abilityList.popAbility.popAbility } : Manager).add cfg top).add
                cfg newTop
              else ({ m with abilityList := m.abilityList.popAbility } : Manager).add cfg
                { top with isTerminated := true }).abilityList := by
            split
            · exact Tidy.add hcap (Tidy.add hcap (hpop.sublist (List.tail_sublist _)) top) newTop
            · exact Tidy.add hcap hpop _
          cases want with
          | none => exact hswap
          | some want => exact hswap.modify newTop.token fun r => (handWant_keeps r want).1

theorem Tidy.terminateAbility (hcap : 3 ≤ cfg.abilityListCapacity) (h : Tidy cfg m.abilityList)
    (env : Env) (token : UInt16) : Tidy cfg (terminateAbility cfg env m token).2.abilityList := by
  unfold MultiTasks.terminateAbility
  split
  · exact h
  · exact Tidy.terminateAbilityWant (m := { m with isAppScheduling := true }) hcap h env token none

theorem Tidy.terminateEach (hcap : 3 ≤ cfg.abilityListCapacity) (h : Tidy cfg m.abilityList)
    (env : Env) (topToken : UInt16) (tokens : List UInt16) :
    Tidy cfg (terminateEach cfg env topToken m tokens).abilityList := by
  induction tokens generalizing m with
  | nil => exact h
  | cons token tokens ih =>
    refine ih ?_
    show Tidy cfg (Manager.abilityList (if token ≠ topToken then _ else _))
    split
    · exact h.terminateAbility hcap env token
    · exact h

theorem Tidy.terminateAll (h : Tidy cfg m.abilityList) (env : Env) (excludedBundleName : Option CString) :
    Tidy cfg (terminateAll env m excludedBundleName).2.abilityList := by
  unfold Manager.terminateAll
  split
  · exact h
  · exact h.sublist (popAllAbility_sublist _ _)

theorem Tidy.launchNext (hcap : 3 ≤ cfg.abilityListCapacity) (h : Tidy cfg m.abilityList) (env : Env) :
    Tidy cfg (launchNext cfg env m).abilityList := by
  unfold MultiTasks.launchNext
  split
  · split
    · exact h
    · next record hrecord =>
      have hcreated := h.createAppTask env record true
      simp only
      split
      · have herased := hcreated.sublist (erase_sublist _
          (MultiTasks.createAppTask env m record true).2.pendingToken)
        split
        · exact herased
        · next top htop =>
          show Tidy cfg (startAbilityRecord cfg env _ top).2.abilityList
          unfold startAbilityRecord
          split
          · exact herased
          · exact Tidy.startAbility hcap herased env _
      · exact hcreated
  · split
    · exact h
    · next top htop =>
      have hcreated := h.createAppTask env top true
      simp only
      split
      · exact hcreated.sublist (erase_sublist _ _)
      · exact hcreated

theorem Tidy.setAbilityStateAndNotify (h : Tidy cfg m.abilityList) (token : UInt16)
    (state : AbilityRecordState) : Tidy cfg (m.setAbilityStateAndNotify token state).abilityList := by
  obtain ⟨n, hn⟩ := setAbilityStateAndNotify_eq m token state
  rw [hn]
  exact h.modify token fun _ => rfl

theorem Tidy.onDestroyDone (hcap : 3 ≤ cfg.abilityListCapacity) (h : Tidy cfg m.abilityList) (env : Env)
    (token : UInt16) : Tidy cfg (onDestroyDone cfg env m token).abilityList := by
  rw [onDestroyDone_eq]
  have hset := h.setAbilityStateAndNotify token .stop
  simp only
  split
  · exact hset
  · refine Tidy.launchNext hcap ?_ env
    split
    · exact hset.deleteRecordInfo token
    · unfold Manager.deleteAbilityThread
      split
      · exact hset.modify _ fun _ => rfl
      · exact hset

theorem Tidy.dispatch (hcap : 3 ≤ cfg.abilityListCapacity) (h : Tidy cfg m.abilityList) (env : Env)
    (o : AbilityOperation) : Tidy cfg ((operations cfg).dispatch env m o).2.abilityList := by
  unfold Operations.dispatch
  cases o.msgId with
  | startAbility => exact h.startAbility hcap env _
  | terminateAbility => exact h.terminateAbility hcap env _
  | terminateApp =>
    simp only [operations, forceStopBundle]
    split
    · exact h
    · split
      · exact h
      · split
        · exact Tidy.terminateAbilityWant (m := { m with isAppScheduling := true }) hcap h env _ none
        · refine Tidy.onDestroyDone hcap ?_ env _
          exact h.modify _ fun _ => rfl
  | terminateMission =>
    simp only [operations, terminateMission]
    split
    · exact h
    · split
      · exact h
      · exact h.terminateEach hcap env _ _
  | terminateAppByBundleName =>
    simp only [operations, forceStop]
    split
    · exact h
    · split
      · exact h
      · split
        · exact h
        · exact Tidy.terminateAbilityWant (m := { m with isAppScheduling := true }) hcap h env _ _
  | terminateAll =>
    simp only
    split
    · exact h
    · exact h.terminateAll env _
  | other _ => exact h

/-- Every step of a run keeps the list tidy. -/
theorem tidy_keeps (hcap : 3 ≤ cfg.abilityListCapacity) :
    Keeps (multiTasks cfg) ⟨fun _ _ _ => True, fun _ _ _ _ => True⟩
      fun _ m => Tidy cfg m.abilityList where
  queue _ h := h
  enter r h := by
    unfold Request.enter
    split <;> exact h
  flag _ h := h
  defers := operations_defers cfg
  operation env m o h hlock hwf _ _ := by
    have ht := h.dispatch hcap env o
    exact ⟨dispatch_wellFormed hlock hwf o, fun _ => ht, fun _ => ht⟩
  answer := by
    intro rs m i msg left _ _ h
    rcases leaveSavedData_eq m msg left with heq | heq
    · rw [heq]
      exact h
    · rw [heq]
      exact h.modify msg.token fun _ => rfl
  foreground env m token h hwf _ :=
    ⟨h.setAbilityStateAndNotify token .foreground,
      wellFormed_of_queue hwf (setAbilityStateAndNotify_queue m token _)⟩
  reply envs m token state hstate h hwf _ := by
    refine ⟨?_, schedulerLifecycleDone_wellFormed hstate hwf⟩
    cases state with
    | foreground => exact absurd rfl hstate
    | initial =>
      simp only [schedulerLifecycleDone, multiTasks, onCreateDone, schedulerLifecycle]
      split
      · exact h.setAbilityStateAndNotify token .inited
      · rw [sendMsgToAbilityThread_same]
        exact h.setAbilityStateAndNotify token .inited
    | background =>
      have hset := h.setAbilityStateAndNotify token .background
      simp only [schedulerLifecycleDone, multiTasks, onBackgroundDone]
      split
      · exact hset
      · rw [sendMsgToAbilityThread_same]
        exact hset.modify token fun _ => rfl
    | uninitialized => exact h.onDestroyDone hcap (envs 0) token
    | unknown => exact h

end

/-! ## Refusals -/

/-- The list with its records, the pending token and the messages sent are as before. -/
structure NoTrace (m m' : Manager) : Prop where
  list : m'.abilityList = m.abilityList
  pending : m'.pendingToken = m.pendingToken
  sent : m'.sent = m.sent

theorem NoTrace.refl (m : Manager) : NoTrace m m := ⟨rfl, rfl, rfl⟩

theorem NoTrace.locked (m m' : Manager) (b : Bool) :
    NoTrace { m with isAppScheduling := b } m' ↔ NoTrace m m' :=
  ⟨fun h => ⟨h.list, h.pending, h.sent⟩, fun h => ⟨h.list, h.pending, h.sent⟩⟩

/-- Taking over from the top marks it, reaches it with a message or reserves another token. -/
def takeoverLeaves (env : Env) (m : Manager) (top : AbilityRecord) : Bool :=
  (needToBeTerminated env top.appName && !top.isTerminated) ||
    (top.abilityThread.isSome && env.messageQueuePut top.token .background) ||
      (generateToken m).1 ≠ m.pendingToken

/-- A new record that is launched at once and fails takes another one with it: the one
whose place it took, or the one that has its token. -/
def newRecordLeaves (cfg : Config) (m : Manager) (info : AbilitySvcInfo) (bundleName : CString) : Bool :=
  (info.path.isSome || info.isNativeApp) && (m.abilityList.getByName bundleName).isNone &&
    (cfg.abilityListCapacity ≤ m.abilityList.length ||
      (m.abilityList.get (generateToken m).1).isSome)

/-- A refused start of a new application over the top. -/
def newAppLeaves (cfg : Config) (env : Env) (m : Manager) (info : AbilitySvcInfo) : Bool :=
  info.bundleName.any fun bundleName => bundleName.bytes.length ≠ 0 &&
    m.getTopAbility.any fun top =>
      (info.isNativeApp || checkResponse env bundleName) && bundleName ≠ top.appName &&
        (takeoverLeaves env m top || newRecordLeaves cfg (generateToken m).2 info bundleName)

/-- A refused terminate of the top: nothing is below it, or it was marked or moved, the
ability below got the data of the want, or its token was reserved. -/
def terminateLeaves (m : Manager) (token : UInt16) (want : Option Want) : Bool :=
  m.getTopAbility.any fun top => token = top.token &&
    !(m.abilityList.length = 1 && isPermanentAbility top) &&
      match m.abilityList.tail.head? with
      | none => true
      | some next => isPermanentAbility top || !top.isTerminated || m.pendingToken ≠ next.token ||
        want.any fun want => handWant want next ≠ next

/-- A refused operation that leaves a trace. -/
def leavesTrace (cfg : Config) (env : Env) (m : Manager) (o : AbilityOperation) : Bool :=
  match o.msgId with
  | .startAbility => comesUp cfg env m o.want ||
      (newApp cfg env m o.want).any fun app => newAppLeaves cfg env m app.2
  | .terminateAbility => terminateLeaves m o.token.toUInt16 none
  | .terminateAppByBundleName =>
      ((o.want.bind (·.element)).bind (·.bundleName)).any fun bundleName =>
        (m.abilityList.getByName bundleName).any fun r => terminateLeaves m r.token o.want
  | _ => false

section
variable {cfg : Config} {env : Env} {m : Manager}

theorem sendMsgToAbilityThread_sent (env : Env) (m : Manager) (r : AbilityRecord) :
    (m.sendMsgToAbilityThread env .background r).2.sent = m.sent ↔
      (r.abilityThread.isSome && env.messageQueuePut r.token .background) = false := by
  unfold sendMsgToAbilityThread
  cases hthread : r.abilityThread with
  | none => simp
  | some thread =>
    cases hput : env.messageQueuePut r.token .background with
    | false => simp [innerMsg, hput]
    | true => simp [innerMsg, hput]

/-- A new record goes over a list with room for it, and is erased again. -/
theorem erase_new_eq {r : AbilityRecord} {f : AbilityRecord → AbilityRecord}
    (hf : ∀ r, (f r).token = r.token) {l : AbilityList} (hfresh : l.get r.token = none) :
    AbilityList.erase (AbilityList.modify (r :: l) r.token f) r.token = l := by
  rw [modify_cons, if_pos rfl, modify_eq_self hfresh, ← hf r]
  exact erase_top (r := f r) l

theorem erase_length_lt {l : AbilityList} {token : UInt16} (h : (l.get token).isSome) :
    (l.erase token).length < l.length := by
  obtain ⟨r, hr, ht⟩ := get_isSome.mp h
  have hlen : (l.erase token).length = l.length - 1 := List.length_eraseP_of_mem hr (by simpa using ht)
  have hpos := List.length_pos_of_mem hr
  omega

/-- The launch of a new record that fails: the record is erased again, unless it was not
listed for another with its token. -/
theorem launchNew_refused (hcap : 3 ≤ cfg.abilityListCapacity) (h : Tidy cfg m.abilityList)
    (hp : m.pendingToken = 0) {k : UInt16} {k' : UInt32} {record : AbilityRecord} :
    let n : Manager := { m with nextToken := k, nextMission := k' }
    let x := if (n.add cfg record).pendingToken = 0 then
        if (createAppTask env (n.add cfg record) record (n.takes cfg record.token)).1 ≠ errOk then
          (createApptaskError,
            (createAppTask env (n.add cfg record) record (n.takes cfg record.token)).2.erase record.token)
        else (errOk, (createAppTask env (n.add cfg record) record (n.takes cfg record.token)).2)
      else (errOk, n.add cfg record)
    x.1 ≠ errOk →
      ((decide (cfg.abilityListCapacity ≤ m.abilityList.length) ||
          (m.abilityList.get record.token).isSome) = true ∧ x.2.abilityList.length < m.abilityList.length) ∨
      ((decide (cfg.abilityListCapacity ≤ m.abilityList.length) ||
          (m.abilityList.get record.token).isSome) = false ∧ NoTrace m x.2) := by
  intro n x hret
  have hn : n.abilityList = m.abilityList := rfl
  have hsub := evict_sublist cfg.abilityListCapacity m.abilityList
  obtain ⟨s, hadd⟩ := add_eq cfg n record
  have hp' : (n.add cfg record).pendingToken = 0 := by rw [hadd]; exact hp
  have hinit : env.initAbilityThread record.token ≠ errOk := by
    intro hinit
    refine hret ?_
    simp only [x, if_pos hp', createAppTask, hinit, ne_eq, not_true_eq_false, if_false]
  have hx : x = (createApptaskError, (if n.takes cfg record.token then
      (n.add cfg record).modify record.token fun r => { r with abilityThread := none }
      else n.add cfg record).erase record.token) := by
    simp only [x, if_pos hp', createAppTask_failed hinit, if_pos hinit]
  rw [hx]
  cases hg : (m.abilityList.evict cfg.abilityListCapacity).get record.token with
  | some y =>
    -- the record is not listed, and the one with its token goes
    have htakes : n.takes cfg record.token = false := by rw [takes, hn, hg]; rfl
    have hsome : (AbilityList.get (m.abilityList.evict cfg.abilityListCapacity) record.token).isSome := by
      rw [hg]
      rfl
    have hl : (n.add cfg record).abilityList = m.abilityList.evict cfg.abilityListCapacity := by
      rw [hadd]
      exact add_of_listed hsome
    obtain ⟨z, hz, hzt⟩ := get_isSome.mp hsome
    refine .inl ⟨by rw [Bool.or_eq_true]; exact .inr (get_isSome.mpr ⟨z, hsub.subset hz, hzt⟩), ?_⟩
    simp only [htakes, Bool.false_eq_true, if_false, Manager.erase, hl]
    exact Nat.lt_of_lt_of_le (erase_length_lt hsome) hsub.length_le
  | none =>
    have htakes : n.takes cfg record.token = true := by rw [takes, hn, hg]; rfl
    by_cases hfull : cfg.abilityListCapacity ≤ m.abilityList.length
    · have hl : (n.add cfg record).abilityList = record :: m.abilityList.evict cfg.abilityListCapacity := by
        rw [hadd]
        exact add_of_fresh hg
      refine .inl ⟨by simp [hfull], ?_⟩
      simp only [htakes, if_true, Manager.erase, Manager.modify, hl]
      rw [erase_new_eq (f := fun r => { r with abilityThread := none }) (fun _ => rfl) hg]
      exact Nat.lt_of_lt_of_le (evict_length (Nat.le_of_succ_le hcap) h.bounded) hfull
    · have hevict : m.abilityList.evict cfg.abilityListCapacity = m.abilityList := by
        rw [evict, if_neg hfull]
      rw [hevict] at hg
      have hroom : n.add cfg record = { n with abilityList := record :: n.abilityList } :=
        add_room (Nat.lt_of_not_le hfull) hg
      refine .inr ⟨by simp [hfull, hg], ?_, ?_, ?_⟩
      · simp only [htakes, if_true, Manager.erase, Manager.modify, hroom]
        exact erase_new_eq (f := fun r => { r with abilityThread := none }) (fun _ => rfl) hg
      · simp only [htakes, if_true, Manager.erase, Manager.modify, hroom]
        rfl
      · simp only [htakes, if_true, Manager.erase, Manager.modify, hroom]
        rfl

/-- A refused new application leaves the list shorter, or nothing. -/
theorem preCheckStartAbility_refused (hcap : 3 ≤ cfg.abilityListCapacity) (h : Tidy cfg m.abilityList)
    {info : AbilitySvcInfo} {bundleName : CString}
    (hret : (preCheckStartAbility cfg env m info bundleName).1 ≠ errOk) :
    (newRecordLeaves cfg m info bundleName = true ∧
      (preCheckStartAbility cfg env m info bundleName).2.abilityList.length < m.abilityList.length) ∨
    (newRecordLeaves cfg m info bundleName = false ∧
      NoTrace m (preCheckStartAbility cfg env m info bundleName).2) := by
  revert hret
  unfold preCheckStartAbility
  by_cases hpath : (info.path.isNone && !info.isNativeApp) = true
  · have hleaves : newRecordLeaves cfg m info bundleName = false := by
      have hpath' : (info.path.isSome || info.isNativeApp) = false := by
        cases hi : info.isNativeApp <;> cases hs : info.path <;> simp_all
      simp only [newRecordLeaves, hpath', Bool.false_and]
    rw [if_pos hpath]
    exact fun _ => .inr ⟨hleaves, NoTrace.refl m⟩
  · have hpath' : (info.path.isSome || info.isNativeApp) = true := by
      cases hi : info.isNativeApp <;> cases hs : info.path <;> simp_all
    rw [if_neg hpath]
    cases hcur : m.abilityList.getByName bundleName with
    | some cur =>
      have hleaves : newRecordLeaves cfg m info bundleName = false := by
        simp only [newRecordLeaves, hcur, Option.isNone_some, Bool.and_false, Bool.false_and]
      simp only
      split
      · split
        · exact fun _ => .inr ⟨hleaves, rfl, rfl, rfl⟩
        · exact fun hret => absurd rfl hret
      · exact fun hret => absurd rfl hret
    | none =>
      simp only
      by_cases hp : m.pendingToken = 0
      · have hgen : generateToken m = ((generateToken m).1, { m with
            nextToken := (generateToken m).2.nextToken }) := rfl
        simp only [hp, ne_eq, not_true_eq_false, if_false]
        rw [hgen]
        simp only
        have hleaves : newRecordLeaves cfg m info bundleName =
            (decide (cfg.abilityListCapacity ≤ m.abilityList.length) ||
              (m.abilityList.get (generateToken m).1).isSome) := by
          simp only [newRecordLeaves, hpath', hcur, Option.isNone_none, Bool.true_and]
        rw [hleaves]
        generalize (generateToken m).1 = token
        generalize (generateToken m).2.nextToken = k
        obtain ⟨mission, k', hmission⟩ := generateMission_eq { m with nextToken := k } info
        simp only [hmission]
        obtain ⟨ht, -, -⟩ := newRecord_spec info bundleName token mission
        generalize newRecord info bundleName token mission = record at ht ⊢
        subst ht
        exact launchNew_refused hcap h hp
      · have htoken : (if m.pendingToken ≠ 0 then (m.pendingToken, m) else generateToken m) =
            (m.pendingToken, m) := if_pos hp
        obtain ⟨mission, k', hmission⟩ := generateMission_eq m info
        have hp' (record : AbilityRecord) : (({ m with nextMission := k' } : Manager).add cfg record).pendingToken ≠ 0 := by
          obtain ⟨s, hadd⟩ := add_eq cfg { m with nextMission := k' } record
          rw [hadd]
          exact hp
        simp only [htoken, hmission, if_neg (hp' _)]
        exact fun hret => absurd rfl hret

theorem markTop_list (h : Tidy cfg m.abilityList) {top : AbilityRecord} {below : AbilityList}
    (hl : m.abilityList = top :: below) :
    (markTop env m top).abilityList = m.abilityList ↔
      (needToBeTerminated env top.appName && !top.isTerminated) = false := by
  have hd := h.nodup
  rw [hl] at hd
  unfold markTop
  cases needToBeTerminated env top.appName with
  | false => simp
  | true =>
    simp only [if_true, Manager.modify, hl, modify_top hd, List.cons.injEq, and_true, Bool.true_and,
      Bool.not_eq_false']
    refine ⟨fun e => ?_, fun e => ?_⟩
    · rw [← e]
    · cases top
      simp only at e
      rw [e]

theorem takeover_noTrace (h : Tidy cfg m.abilityList) {top : AbilityRecord} {below : AbilityList}
    (hl : m.abilityList = top :: below) {n : Manager}
    (hlist : n.abilityList = (markTop env m top).abilityList)
    (hpending : n.pendingToken = (generateToken m).1)
    (hsent : n.sent = ((markTop env m top).sendMsgToAbilityThread env .background top).2.sent) :
    NoTrace m n ↔ takeoverLeaves env m top = false := by
  have hmarked : (markTop env m top).sent = m.sent := by
    unfold markTop
    split <;> rfl
  have hsame := sendMsgToAbilityThread_sent env (markTop env m top) top
  rw [hmarked] at hsame
  simp only [takeoverLeaves, Bool.or_eq_false_iff, decide_eq_false_iff_not, ne_eq, Decidable.not_not]
  refine ⟨fun ht => ⟨⟨?_, ?_⟩, ?_⟩, fun hleaves => ?_⟩
  · exact (markTop_list h hl).mp (hlist.symm.trans ht.list)
  · exact hsame.mp (hsent.symm.trans ht.sent)
  · exact hpending.symm.trans ht.pending
  · obtain ⟨⟨hmark, hsend⟩, htoken⟩ := hleaves
    exact ⟨hlist.trans ((markTop_list h hl).mpr hmark), hpending.trans htoken,
      hsent.trans (hsame.mpr hsend)⟩

theorem newRecordLeaves_marked (env : Env) (top : AbilityRecord) {n n' : Manager}
    (hl : n.abilityList = m.abilityList) (hl' : n'.abilityList = (markTop env m top).abilityList)
    (hnext : n'.nextToken = n.nextToken) (info : AbilitySvcInfo) (bundleName : CString) :
    newRecordLeaves cfg n' info bundleName = newRecordLeaves cfg n info bundleName := by
  have hgen : (generateToken n').1 = (generateToken n).1 := by
    simp only [generateToken, hnext]
  obtain ⟨f, -, hmark, hf⟩ := markTop_eq env m top
  have hlist : n'.abilityList = n.abilityList.modify top.token f := by rw [hl', hmark, hl]
  simp only [newRecordLeaves, hgen, hlist, getByName_modify fun r => (hf r).2.2.2,
    get_modify fun r => (hf r).1, Option.isNone_map, Option.isSome_map]
  rw [AbilityList.modify, List.length_map]

/-- A refusal of a new application that has taken over from the top. -/
theorem preCheckStartAbility_takeover (hcap : 3 ≤ cfg.abilityListCapacity) (h : Tidy cfg m.abilityList)
    {top : AbilityRecord} {below : AbilityList} (hl : m.abilityList = top :: below) {n : Manager}
    (hlist : n.abilityList = (markTop env m top).abilityList)
    (hpending : n.pendingToken = (generateToken m).1)
    (hsent : n.sent = ((markTop env m top).sendMsgToAbilityThread env .background top).2.sent)
    (hnext : n.nextToken = (generateToken m).2.nextToken) {info : AbilitySvcInfo} {bundleName : CString}
    (hret : (preCheckStartAbility cfg env n info bundleName).1 ≠ errOk) :
    NoTrace m (preCheckStartAbility cfg env n info bundleName).2 ↔
      takeoverLeaves env m top = false ∧
        newRecordLeaves cfg (generateToken m).2 info bundleName = false := by
  have htidy : Tidy cfg n.abilityList := hlist ▸ h.markTop env top
  have hmarked : newRecordLeaves cfg n info bundleName =
      newRecordLeaves cfg (generateToken m).2 info bundleName :=
    newRecordLeaves_marked (m := m) (n := (generateToken m).2) env top rfl hlist hnext info bundleName
  have htaken := takeover_noTrace h hl hlist hpending hsent
  rcases preCheckStartAbility_refused hcap htidy hret with ⟨hleaves, hlt⟩ | ⟨hleaves, hnone⟩
  · rw [hmarked] at hleaves
    have hlength : n.abilityList.length = m.abilityList.length := by
      obtain ⟨f, -, hmark, -⟩ := markTop_eq env m top
      rw [hlist, hmark, AbilityList.modify, List.length_map]
    refine ⟨fun ht => ?_, fun hfalse => ?_⟩
    · rw [ht.list, hlength] at hlt
      exact absurd hlt (Nat.lt_irrefl _)
    · rw [hfalse.2] at hleaves
      cases hleaves
  · rw [hmarked] at hleaves
    rw [and_iff_left hleaves, ← htaken]
    exact ⟨fun ht => ⟨hnone.list.symm.trans ht.list, hnone.pending.symm.trans ht.pending,
        hnone.sent.symm.trans ht.sent⟩,
      fun ht => ⟨hnone.list.trans ht.list, hnone.pending.trans ht.pending, hnone.sent.trans ht.sent⟩⟩

theorem startAbilityInfo_refused (hcap : 3 ≤ cfg.abilityListCapacity) (h : Tidy cfg m.abilityList)
    {info : AbilitySvcInfo} (hret : (startAbilityInfo cfg env m info).1 ≠ errOk) :
    NoTrace m (startAbilityInfo cfg env m info).2 ↔ newAppLeaves cfg env m info = false := by
  revert hret
  unfold startAbilityInfo newAppLeaves
  cases hbundle : info.bundleName with
  | none => exact fun _ => iff_of_true ⟨rfl, rfl, rfl⟩ rfl
  | some bundleName =>
    simp only [Option.any_some]
    by_cases hempty : bundleName.bytes.length = 0
    · simp only [hempty, if_true, ne_eq, not_true_eq_false, decide_false, Bool.false_and, iff_true]
      exact fun _ => ⟨rfl, rfl, rfl⟩
    · simp only [ne_eq, hempty, if_false, not_false_eq_true, decide_true, Bool.true_and]
      by_cases hnil : m.abilityList = []
      · simp only [getTopAbility_nil hnil, Option.any_none, iff_true]
        split
        · exact fun _ => ⟨rfl, rfl, rfl⟩
        · intro hret
          rcases preCheckStartAbility_refused hcap h hret with ⟨-, hlt⟩ | ⟨-, hnone⟩
          · rw [hnil] at hlt
            exact absurd hlt (Nat.not_lt_zero _)
          · exact hnone
      · obtain ⟨top, below, hl⟩ := List.exists_cons_of_ne_nil hnil
        simp only [getTopAbility_cons hl, Option.any_some]
        by_cases hresponse : (!info.isNativeApp && !checkResponse env bundleName) = true
        · have hresponse' : (info.isNativeApp || checkResponse env bundleName) = false := by
            cases hn : info.isNativeApp <;> cases hc : checkResponse env bundleName <;> simp_all
          simp only [hresponse, if_true, hresponse', Bool.false_and, iff_true]
          exact fun _ => ⟨rfl, rfl, rfl⟩
        · have hresponse' : (info.isNativeApp || checkResponse env bundleName) = true := by
            cases hn : info.isNativeApp <;> cases hc : checkResponse env bundleName <;> simp_all
          rw [if_neg hresponse]
          by_cases hname : bundleName = top.appName
          · rw [if_pos hname]
            split
            · exact fun hret => absurd rfl hret
            · exact fun hret => absurd rfl hret
          · simp only [hname, if_false, hresponse', not_false_eq_true, decide_true, Bool.true_and,
              Bool.or_eq_false_iff]
            obtain ⟨sent, hsent⟩ := sendMsgToAbilityThread_eq env (markTop env m top) .background top
            have hs : sent = ((markTop env m top).sendMsgToAbilityThread env .background top).2.sent := by
              rw [hsent]
            have hgen : generateToken { markTop env m top with sent := sent } =
                ((generateToken m).1, { markTop env m top with
                  sent := sent, nextToken := (generateToken m).2.nextToken }) := by
              simp only [generateToken, markTop_nextToken]
            rw [hsent, hgen]
            intro hret
            refine preCheckStartAbility_takeover hcap h hl ?_ ?_ ?_ ?_ hret
            · rfl
            · rfl
            · exact hs
            · rfl

/-- What brings up a listed ability is not new. -/
theorem comesUp_of_newApp {want : Option Want} {app : CString × AbilitySvcInfo}
    (h : newApp cfg env m want = some app) : comesUp cfg env m want = false := by
  unfold newApp at h
  cases want with
  | none => cases h
  | some want =>
    simp only at h
    cases helem : want.element with
    | none => simp only [comesUp, Option.bind_some, helem, Option.any_none]
    | some element =>
      simp only [helem] at h
      cases hbundle : element.bundleName with
      | none => simp only [comesUp, Option.bind_some, helem, hbundle, Option.any_some, Option.any_none]
      | some bundleName =>
        simp only [hbundle] at h
        split at h
        · cases h
        · split at h
          · cases h
          · next hlisted =>
            have hname : m.abilityList.getByName bundleName = none := by simpa using hlisted
            simp only [comesUp, Option.bind_some, helem, hbundle, Option.any_some, hname,
              Option.any_none, Bool.and_false]

theorem markTop_tokens (env : Env) (m : Manager) (top : AbilityRecord) :
    (markTop env m top).abilityList.map (·.token) = m.abilityList.map (·.token) := by
  unfold markTop
  split
  · exact modify_tokens fun _ => rfl
  · rfl

theorem startAbility_refused (hcap : 3 ≤ cfg.abilityListCapacity) (h : Tidy cfg m.abilityList)
    (hlock : m.isAppScheduling = false) {want : Option Want}
    (hret : (startAbility cfg env m want).1 ≠ errOk) :
    NoTrace m (startAbility cfg env m want).2 ↔
      (comesUp cfg env m want ||
        (newApp cfg env m want).any fun app => newAppLeaves cfg env m app.2) = false := by
  have hcases := startAbility_cases cfg env hlock want
  generalize startAbility cfg env m want = x at hcases hret ⊢
  cases hcases with
  | ends ret remote hnone =>
    rw [hnone.1, hnone.2]
    exact iff_of_true ⟨rfl, rfl, rfl⟩ rfl
  | bringsUp w r top hmem htop hne hup =>
    rw [hup, Bool.true_or]
    refine iff_of_false (fun ht => hne ?_) (by decide)
    obtain ⟨below, hl⟩ := List.head?_eq_some_iff.mp htop
    have hmod : Tidy cfg (m.abilityList.modify r.token (updateWant w)) :=
      h.modify r.token fun r => (updateWant_keeps w r).1
    have hget : (m.abilityList.modify r.token (updateWant w)).get r.token = some (updateWant w r) := by
      rw [get_modify fun r => (updateWant_keeps w r).1, get_of_mem h.nodup hmem]
      simp
    -- the list starts with the ability brought up
    have htokens := congrArg (List.map (·.token)) ht.list
    rw [sendMsgToAbilityThread_same, markTop_tokens, moveToTop_listed hmod.nodup hmod.bounded hget, hl,
      List.map_cons, List.map_cons, List.cons.injEq] at htokens
    exact htokens.1.symm.trans (updateWant_keeps w r).1
  | startsNew w bundleName info happ hbundle hname hquery =>
    rw [comesUp_of_newApp happ, happ, Option.any_some, Bool.false_or]
    exact (NoTrace.locked m _ true).symm.trans
      (startAbilityInfo_refused (m := { m with isAppScheduling := true }) hcap h hret)

theorem sendMsgToAbilityThread_refused {state : SliteAbilityState} {r : AbilityRecord}
    (hret : (m.sendMsgToAbilityThread env state r).1 ≠ errOk) :
    (m.sendMsgToAbilityThread env state r).2 = m := by
  revert hret
  unfold sendMsgToAbilityThread
  split
  · exact fun _ => rfl
  · simp only
    split
    · exact fun hret => absurd rfl hret
    · exact fun _ => rfl

/-- A terminate of the top whose last send fails. -/
theorem terminateTop_refused (h : Tidy cfg m.abilityList) {top next : AbilityRecord} {rest : AbilityList}
    (hl : m.abilityList = top :: next :: rest) (want : Option Want)
    (hret : (Manager.sendMsgToAbilityThread env
      { handToNewTop { m with abilityList := afterTerminate top next rest } next.token want with
        pendingToken := next.token } .background top).1 ≠ errOk) :
    NoTrace m (Manager.sendMsgToAbilityThread env
      { handToNewTop { m with abilityList := afterTerminate top next rest } next.token want with
        pendingToken := next.token } .background top).2 ↔
      (isPermanentAbility top || !top.isTerminated || m.pendingToken ≠ next.token ||
        want.any fun want => handWant want next ≠ next) = false := by
  have hd := h.nodup
  rw [hl] at hd
  rw [sendMsgToAbilityThread_refused hret]
  obtain ⟨next', hlist, htoken, hsame⟩ : ∃ next' : AbilityRecord,
      (handToNewTop { m with abilityList := afterTerminate top next rest } next.token want).abilityList =
        afterTerminate top next' rest ∧ next'.token = next.token ∧
      (next' = next ↔ (want.any fun want => handWant want next ≠ next) = false) := by
    cases want with
    | none => exact ⟨next, rfl, rfl, by simp⟩
    | some want =>
      exact ⟨handWant want next, afterTerminate_modify hd, (handWant_keeps next want).1, by simp⟩
  have hsent : (handToNewTop { m with abilityList := afterTerminate top next rest } next.token
      want).sent = m.sent := by
    cases want <;> rfl
  by_cases hperm : isPermanentAbility top = true
  · refine iff_of_false (fun ht => ?_) (by simp [hperm])
    have hchanged := hlist.symm.trans ht.list
    rw [afterTerminate, if_pos hperm, hl, List.cons.injEq] at hchanged
    rw [List.map_cons, List.nodup_cons, List.map_cons] at hd
    exact hd.1 (List.mem_cons.mpr (.inl (hchanged.1 ▸ htoken)))
  · have hafter : afterTerminate top next' rest = { top with isTerminated := true } :: next' :: rest :=
      if_neg hperm
    rw [hafter] at hlist
    simp only [Bool.eq_false_iff.mpr hperm, Bool.false_or, Bool.or_eq_false_iff, Bool.not_eq_false',
      decide_eq_false_iff_not, ne_eq, Decidable.not_not]
    refine ⟨fun ht => ?_, fun hsame' => ?_⟩
    · have hkept := hlist.symm.trans ht.list
      rw [hl, List.cons.injEq, List.cons.injEq] at hkept
      exact ⟨⟨by rw [← hkept.1], ht.pending.symm⟩, hsame.mp hkept.2.1⟩
    · obtain ⟨⟨hmark, hpending⟩, hwant⟩ := hsame'
      refine ⟨?_, hpending.symm, hsent⟩
      refine hlist.trans ?_
      rw [hl, hsame.mpr hwant, List.cons.injEq]
      refine ⟨?_, rfl⟩
      cases top
      simp only at hmark
      rw [hmark]

theorem terminateAbilityWant_refused (h : Tidy cfg m.abilityList) {token : UInt16} {want : Option Want}
    (hret : (terminateAbilityWant cfg env m token want).1 ≠ errOk) :
    NoTrace m (terminateAbilityWant cfg env m token want).2 ↔ terminateLeaves m token want = false := by
  revert hret
  unfold terminateAbilityWant terminateLeaves
  by_cases hnil : m.abilityList = []
  · simp only [getTopAbility_nil hnil, Option.any_none, iff_true]
    exact fun _ => ⟨rfl, rfl, rfl⟩
  · obtain ⟨top, below, hl⟩ := List.exists_cons_of_ne_nil hnil
    simp only [getTopAbility_cons hl, Option.any_some]
    by_cases honly : m.abilityList.length = 1 ∧ isPermanentAbility top
    · rw [if_pos honly]
      exact fun hret => absurd rfl hret
    · rw [if_neg honly]
      by_cases htoken : token = top.token
      · subst htoken
        have honly' : (decide (m.abilityList.length = 1) && isPermanentAbility top) = false := by
          simpa using honly
        have hpop : m.abilityList.popAbility = below := by rw [hl]; rfl
        have htail : m.abilityList.tail = below := by rw [hl]; rfl
        simp only [ne_eq, not_true_eq_false, if_false, hpop, htail, honly', decide_true, Bool.not_false,
          Bool.true_and]
        cases below with
        | nil =>
          exact fun _ => iff_of_false (fun ht => hnil ht.list.symm) (by simp)
        | cons next rest =>
          have htop : getTopAbility { m with abilityList := next :: rest } = some next := rfl
          have hpop' : AbilityList.popAbility (next :: rest) = rest := rfl
          simp only [htop, hpop', terminateTop_swap h.nodup h.bounded hl, List.head?_cons]
          intro hret
          exact terminateTop_refused h hl want hret
      · rw [if_pos htoken]
        simp only [htoken, decide_false, Bool.false_and, iff_true]
        split
        · exact fun _ => ⟨rfl, rfl, rfl⟩
        · split
          · exact fun _ => ⟨rfl, rfl, rfl⟩
          · exact fun hret => absurd rfl hret

/-- In a tidy list, a refused operation leaves no trace but where `leavesTrace` says. -/
theorem dispatch_refused (hcap : 3 ≤ cfg.abilityListCapacity) (h : Tidy cfg m.abilityList)
    (hlock : m.isAppScheduling = false) {o : AbilityOperation} (hall : o.msgId ≠ .terminateAll)
    (hret : ((operations cfg).dispatch env m o).1 ≠ errOk) :
    NoTrace m ((operations cfg).dispatch env m o).2 ↔ leavesTrace cfg env m o = false := by
  have hterminate {token : UInt16} {want : Option Want}
      (hret : (terminateAbilityWant cfg env { m with isAppScheduling := true } token want).1 ≠ errOk) :
      NoTrace m (terminateAbilityWant cfg env { m with isAppScheduling := true } token want).2 ↔
        terminateLeaves m token want = false :=
    (NoTrace.locked m _ true).symm.trans
      (terminateAbilityWant_refused (m := { m with isAppScheduling := true }) h hret)
  revert hret
  unfold Operations.dispatch leavesTrace
  cases hid : o.msgId with
  | startAbility => exact fun hret => startAbility_refused hcap h hlock hret
  | terminateAbility =>
    simp only [operations, terminateAbility, hlock, Bool.false_eq_true, if_false]
    exact hterminate
  | terminateApp =>
    simp only [operations, forceStopBundle, hlock, Bool.false_eq_true, if_false, iff_true]
    by_cases hnil : m.abilityList = []
    · have htop : getTopAbility { m with isAppScheduling := true } = none := getTopAbility_nil hnil
      simp only [htop]
      exact fun hret => absurd rfl hret
    · obtain ⟨top, below, hl⟩ := List.exists_cons_of_ne_nil hnil
      have htop : getTopAbility { m with isAppScheduling := true } = some top := getTopAbility_cons hl
      simp only [htop]
      split
      · next htoken =>
        refine fun hret => (hterminate hret).mpr ?_
        simp only [terminateLeaves, getTopAbility_cons hl, Option.any_some,
          decide_eq_false fun e => htoken (Eq.symm e), Bool.false_and]
      · exact fun hret => absurd rfl hret
  | terminateMission =>
    simp only [operations, terminateMission, hlock, Bool.false_eq_true, if_false, iff_true]
    split
    · exact fun _ => NoTrace.refl m
    · exact fun hret => absurd rfl hret
  | terminateAppByBundleName =>
    simp only [operations, forceStop, hlock, Bool.false_eq_true, if_false]
    cases hbundle : (o.want.bind (·.element)).bind (·.bundleName) with
    | none => exact fun _ => iff_of_true ⟨rfl, rfl, rfl⟩ rfl
    | some bundleName =>
      simp only [Option.any_some]
      cases m.abilityList.getByName bundleName with
      | none => exact fun _ => iff_of_true ⟨rfl, rfl, rfl⟩ rfl
      | some r => exact hterminate
  | terminateAll => exact absurd hid hall
  | other _ =>
    simp only [iff_true]
    exact fun hret => absurd rfl hret

end

theorem Booted.tidy {cfg : Config} (hcap : 3 ≤ cfg.abilityListCapacity) {s : System}
    (h : Booted cfg s) : Tidy cfg s.manager.abilityList ∧ s.manager.QueueWellFormed := by
  obtain ⟨hg, hwf⟩ := h.guarded hcap
  exact ⟨⟨hg.shape.nodup, hg.shape.bounded⟩, hwf⟩

/-- A step that needs to meet no condition. -/
theorem meets_trivial (build : Build) (s : System) (e : Event) :
    s.meets build ⟨fun _ _ _ => True, fun _ _ _ _ => True⟩ e := by
  have hdrain (fuel : Nat) (envs : Nat → Env) (m : Manager) :
      build.operations.drainMeets (fun _ _ _ => True) fuel envs m := by
    induction fuel generalizing envs m with
    | zero => trivial
    | succ fuel ih =>
      unfold Operations.drainMeets
      split
      · trivial
      · exact ⟨trivial, fun _ => ih _ _⟩
  cases e with
  | request r envs => exact fun _ _ _ => ⟨trivial, fun _ => hdrain _ _ _⟩
  | answer i left => trivial
  | reply envs => exact fun _ _ _ => ⟨trivial, fun _ => hdrain _ _ _⟩
  | setCleanAbilityDataFlag flag => trivial

/-- What a refused operation leaves is what `leavesTrace` says. -/
def refusals (cfg : Config) : Condition where
  operation env m o := o.msgId ≠ .terminateAll → ((operations cfg).dispatch env m o).1 ≠ errOk →
    (NoTrace m ((operations cfg).dispatch env m o).2 ↔ leavesTrace cfg env m o = false)
  reply _ _ _ _ := True

/-- In any state that a run of the multi-task build reaches, each operation that a step
executes, for a request or a deferred one, and that is refused leaves the list, the
pending token and the messages sent as they were if and only if it is not one of those
of `leavesTrace`. -/
theorem multiTasks_refusals {cfg : Config} (hcap : 3 ≤ cfg.abilityListCapacity) {s : System}
    (h : Reached (System.next (multiTasks cfg)) (fun _ _ => True) (Booted cfg) s) (e : Event) :
    s.meets (multiTasks cfg) (refusals cfg) e := by
  have k := tidy_keeps hcap
  have hreached := h.mono fun s e _ => meets_trivial (multiTasks cfg) s e
  have hs := k.reached (fun _ h => h.tidy hcap) hreached
  refine k.meets ?_ ?_ hs (meets_trivial (multiTasks cfg) s e)
  · exact fun env m o h hlock _ _ hall hret => dispatch_refused hcap h hlock hall hret
  · exact fun _ _ _ _ _ _ => trivial

/-- No ability's queue takes a message. -/
def fullQueues : Env := { Env.working with messageQueuePut := fun _ _ => false }

/-- The bundle manager knows no ability. -/
def noAbilities : Env := { Env.working with queryAbilityInfo := fun _ => { bundleName := none, srcPath := none } }

/-- An application is started over the launcher and comes to the front. -/
def applicationInFront : List Event :=
  answered 2 ++ [.request (startOf (cstr "a")) fun _ => .working] ++ answered 4

/-- Two starts are refused with an application in front: that of the launcher, which cannot reach the
application, and that of one the bundle manager does not know. -/
theorem multiTasks_refusals_starts :
    ∃ s, run (System.next (multiTasks roomy)) roomySystem applicationInFront = some s ∧
      s.manager.isAppScheduling = false ∧
      ((startOf launcherBundleName).call (multiTasks roomy) fullQueues s.manager).map (·.1) =
        some ipcRequestError ∧
      ((startOf (cstr "b")).call (multiTasks roomy) noAbilities s.manager).map (·.1) =
        some paramCheckError ∧
      s.meets (multiTasks roomy) (refusals roomy) (.request (startOf launcherBundleName) fun _ => fullQueues) ∧
      s.meets (multiTasks roomy) (refusals roomy) (.request (startOf (cstr "b")) fun _ => noAbilities) := by
  have h : (run (System.next (multiTasks roomy)) roomySystem applicationInFront).map
      (fun s => (s.manager.isAppScheduling,
        ((startOf launcherBundleName).call (multiTasks roomy) fullQueues s.manager).map (·.1),
        ((startOf (cstr "b")).call (multiTasks roomy) noAbilities s.manager).map (·.1))) =
      some (false, some ipcRequestError, some paramCheckError) := by decide
  obtain ⟨s, hs, h⟩ := Option.map_eq_some_iff.mp h
  simp only [Prod.mk.injEq] at h
  obtain ⟨hlock, hlauncher, hunknown⟩ := h
  have hreached : Reached (System.next (multiTasks roomy)) (fun _ _ => True) (Booted roomy) s :=
    .of_run (.init roomySystem_booted) applicationInFront hs
  exact ⟨s, hs, hlock, hlauncher, hunknown, multiTasks_refusals (by decide) hreached _,
    multiTasks_refusals (by decide) hreached _⟩

/-- With an application in front of the launcher, a start of the launcher that cannot reach
the application is refused and leaves the launcher on top. -/
theorem multiTasks_refusedStart_reorders : Booted roomy roomySystem ∧
    ∃ s x, run (System.next (multiTasks roomy)) roomySystem applicationInFront = some s ∧
      s.manager.isAppScheduling = false ∧
      (startOf launcherBundleName).call (multiTasks roomy) fullQueues s.manager = some x ∧
      x.1 = ipcRequestError ∧ ¬ NoTrace s.manager x.2 := by
  have h : (run (System.next (multiTasks roomy)) roomySystem applicationInFront).map
      (fun s => (s.manager.isAppScheduling, s.manager.abilityList.map (·.token),
        ((startOf launcherBundleName).call (multiTasks roomy) fullQueues s.manager).map
          fun x => (x.1, x.2.abilityList.map (·.token)))) =
      some (false, [1, 0], some (ipcRequestError, [0, 1])) := by decide
  obtain ⟨s, hs, h⟩ := Option.map_eq_some_iff.mp h
  simp only [Prod.mk.injEq] at h
  obtain ⟨hlock, htokens, h⟩ := h
  obtain ⟨x, hx, h⟩ := Option.map_eq_some_iff.mp h
  rw [Prod.mk.injEq] at h
  refine ⟨roomySystem_booted, s, x, hs, hlock, hx, h.1, fun ht => ?_⟩
  rw [ht.list, htokens] at h
  exact absurd h.2 (by decide)

end AbilityLite.Slite.MultiTasks
