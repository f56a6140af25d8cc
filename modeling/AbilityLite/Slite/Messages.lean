import AbilityLite.Slite.MultiTasksRuns

/-
  The lifecycle messages in flight are ones that the ability they are for answers.

  1. `Sends` is what a function of the manager does with the messages: those that it
     leaves it has found, or they are answerable. It composes, and every function of
     either build is shown to do no more;
  2. a drain, a request and a reply do no more either, and neither does the ability
     that takes a message.
-/

namespace AbilityLite.Slite

/-- The message asks for a state, and has the want that creating an ability or bringing it to the
foreground needs. -/
def SliteAbilityInnerMsg.Answerable (msg : SliteAbilityInnerMsg) : Prop :=
  msg.msgId ≠ .unknown ∧ (msg.msgId = .create ∨ msg.msgId = .foreground → msg.want ≠ none)

instance (msg : SliteAbilityInnerMsg) : Decidable msg.Answerable :=
  inferInstanceAs (Decidable (_ ∧ _))

theorem Manager.innerMsg_answerable {state : SliteAbilityState} (hstate : state ≠ .unknown)
    (r : AbilityRecord) : (innerMsg state r).Answerable := by
  cases state with
  | unknown => exact absurd rfl hstate
  | initial | foreground =>
    exact ⟨fun h => (by cases h), fun _ h => (by cases h)⟩
  | background | uninitialized =>
    exact ⟨fun h => (by cases h), fun h => (by rcases h with h | h <;> cases h)⟩

/-- The messages left were there, or are answerable. -/
def Sends (m m' : Manager) : Prop := ∀ msg ∈ m'.sent, msg ∈ m.sent ∨ msg.Answerable

namespace Sends
open Manager
variable {m m' m'' : Manager}

theorem refl (m : Manager) : Sends m m := fun _ hmsg => .inl hmsg

theorem trans (h : Sends m m') (h' : Sends m' m'') : Sends m m'' := by
  intro msg hmsg
  rcases h' msg hmsg with hmsg | hmsg
  · exact h msg hmsg
  · exact .inr hmsg

theorem of_subset (h : m'.sent ⊆ m.sent) : Sends m m' := fun _ hmsg => .inl (h hmsg)

/-- Nothing is sent. -/
theorem of_eq (h : m'.sent = m.sent) : Sends m m' := of_subset (h ▸ List.Subset.refl _)

theorem of_append {msg : SliteAbilityInnerMsg} (hmsg : msg.Answerable) (h : m'.sent = m.sent ++ [msg]) :
    Sends m m' := by
  intro msg' hmsg'
  rw [h] at hmsg'
  rcases List.mem_append.mp hmsg' with hmsg' | hmsg'
  · exact .inl hmsg'
  · exact .inr (List.mem_singleton.mp hmsg' ▸ hmsg)

theorem release (m : Manager) (token : UInt16) : Sends m (m.release token) :=
  of_subset List.filter_sublist.subset

theorem releaseAll (m : Manager) (deleted : List AbilityRecord) : Sends m (m.releaseAll deleted) := by
  rw [releaseAll_eq]
  exact of_subset List.filter_sublist.subset

theorem add (cfg : Config) (m : Manager) (r : AbilityRecord) : Sends m (m.add cfg r) :=
  releaseAll m _

theorem moveToTop (cfg : Config) (m : Manager) (token : UInt16) : Sends m (m.moveToTop cfg token) :=
  releaseAll m _

theorem send (env : Env) (m : Manager) {state : SliteAbilityState} (hstate : state ≠ .unknown)
    (r : AbilityRecord) : Sends m (m.sendMsgToAbilityThread env state r).2 := by
  unfold sendMsgToAbilityThread
  split
  · exact refl m
  · dsimp only
    split
    · exact of_append (innerMsg_answerable hstate r) rfl
    · exact refl m

theorem setAbilityStateAndNotify (m : Manager) (token : UInt16) (state : AbilityRecordState) :
    Sends m (m.setAbilityStateAndNotify token state) := by
  obtain ⟨n, hn⟩ := setAbilityStateAndNotify_eq m token state
  rw [hn]
  exact refl m

theorem deleteAbilityThread (m : Manager) (r : AbilityRecord) : Sends m (m.deleteAbilityThread r) := by
  unfold Manager.deleteAbilityThread
  split
  · exact release m r.token
  · exact refl m

theorem deleteRecordInfo (m : Manager) (token : UInt16) : Sends m (m.deleteRecordInfo token) := by
  unfold Manager.deleteRecordInfo
  split
  · exact refl m
  · next r _ => exact deleteAbilityThread m r

theorem generateMission (m : Manager) : Sends m m.generateMission.2 := refl m

theorem startRemoteAbility (cfg : Config) (env : Env) (m : Manager) (want : Want) :
    Sends m (startRemoteAbility cfg env m want).2 := by
  obtain ⟨rs, hrs⟩ := startRemoteAbility_eq cfg env m want
  rw [hrs]
  exact refl m

theorem terminateAll (env : Env) (m : Manager) (excludedBundleName : Option CString) :
    Sends m (terminateAll env m excludedBundleName).2 := by
  unfold Manager.terminateAll
  split
  · exact refl m
  · obtain ⟨n, hn⟩ := foldl_notify_eq
      (m.releaseAll (m.abilityList.popAllAbility excludedBundleName).2.2)
      (m.abilityList.popAllAbility excludedBundleName).2.2
    simp only [hn]
    exact releaseAll m _

/-- A step over a list sends if each of its steps does. -/
theorem foldl {α : Type} {f : Manager → α → Manager} (hf : ∀ m a, Sends m (f m a)) (l : List α)
    (m : Manager) : Sends m (l.foldl f m) := by
  induction l generalizing m with
  | nil => exact refl m
  | cons a l ih => exact (hf m a).trans (ih (f m a))

end Sends

/-! ## The multi-task build -/

namespace MultiTasks
open Manager

variable (cfg : Config)

theorem markTop_sends (env : Env) (m : Manager) (top : AbilityRecord) : Sends m (markTop env m top) := by
  unfold markTop
  split <;> exact .refl m

theorem schedulerLifecycle_sends (env : Env) (m : Manager) (token : UInt16) {state : SliteAbilityState}
    (hstate : state ≠ .unknown) : Sends m (schedulerLifecycle env m token state).2 := by
  unfold schedulerLifecycle
  split
  · exact .refl m
  · next r _ => exact .send env m hstate r

theorem createAppTask_sends (env : Env) (m : Manager) (r : AbilityRecord) (listed : Bool) :
    Sends m (createAppTask env m r listed).2 := by
  have hlisted {f : AbilityRecord → AbilityRecord} :
      Sends m (if listed then m.modify r.token f else m) := by
    split <;> exact .refl m
  unfold createAppTask
  dsimp only
  split
  · exact hlisted
  · exact hlisted.trans (schedulerLifecycle_sends env _ r.token (by simp))

theorem preCheckStartAbility_sends (env : Env) (m : Manager) (info : AbilitySvcInfo)
    (bundleName : CString) : Sends m (preCheckStartAbility cfg env m info bundleName).2 := by
  -- a new record is listed, and launched where no other launch is pending
  have hnew : ∀ (m₁ : Manager) (r : AbilityRecord) (listed : Bool) (token : UInt16), Sends m m₁ →
      Sends m (if (m₁.add cfg r).pendingToken = 0 then
        (if (createAppTask env (m₁.add cfg r) r listed).1 ≠ errOk then
          (createApptaskError, (createAppTask env (m₁.add cfg r) r listed).2.erase token)
        else (errOk, (createAppTask env (m₁.add cfg r) r listed).2)) else (errOk, m₁.add cfg r)).2 := by
    intro m₁ r listed token h₁
    have hadded : Sends m (m₁.add cfg r) := h₁.trans (.add cfg m₁ r)
    have hcreated := hadded.trans (createAppTask_sends env (m₁.add cfg r) r listed)
    split
    · split
      · exact hcreated
      · exact hcreated
    · exact hadded
  unfold preCheckStartAbility
  split
  · exact .refl m
  · split
    · next curRecord _ =>
      split
      · split <;> exact .refl m
      · exact .moveToTop cfg m curRecord.token
    · by_cases hp : m.pendingToken ≠ 0
      · obtain ⟨mission, k, hmission⟩ := generateMission_eq m info
        simp only [if_pos hp, hmission]
        exact hnew _ _ _ _ (.refl m)
      · obtain ⟨mission, k, hmission⟩ := generateMission_eq (generateToken m).2 info
        simp only [if_neg hp, hmission]
        exact hnew _ _ _ _ (.refl m)

theorem startAbilityInfo_sends (env : Env) (m : Manager) (info : AbilitySvcInfo) :
    Sends m (startAbilityInfo cfg env m info).2 := by
  unfold startAbilityInfo
  split
  · exact .refl m
  · next bundleName _ =>
    split
    · exact .refl m
    · split
      · split
        · exact .refl m
        · exact preCheckStartAbility_sends cfg env m info bundleName
      · next top _ =>
        split
        · exact .refl m
        · split
          · split
            · exact createAppTask_sends env m top true
            · exact .refl m
          · -- the top is asked to leave before anything is known of the new application
            have hsent : Sends m ((markTop env m top).sendMsgToAbilityThread env .background top).2 :=
              (markTop_sends env m top).trans (.send env _ (by simp) top)
            exact hsent.trans (preCheckStartAbility_sends cfg env _ info bundleName)

theorem startAbility_sends (env : Env) (m : Manager) (want : Option Want) :
    Sends m (startAbility cfg env m want).2 := by
  unfold startAbility
  split
  · exact .refl m
  · split
    · exact .refl m
    · next want =>
      split
      · exact .refl m
      · split
        · exact .refl m
        · split
          · exact .startRemoteAbility cfg env _ want
          · dsimp only
            split
            · next r top _ _ =>
              split
              · exact .refl m
              · split
                · exact .refl m
                · have hmoved : Sends m ((({ m with isAppScheduling := true } : Manager).modify r.token
                      (updateWant want)).moveToTop cfg r.token) := .moveToTop cfg _ r.token
                  have hmarked := hmoved.trans (markTop_sends env _ top)
                  exact hmarked.trans (.send env _ (by simp) top)
            · split
              · exact .refl m
              · exact startAbilityInfo_sends cfg env { m with isAppScheduling := true } _

theorem startAbilityRecord_sends (env : Env) (m : Manager) (r : AbilityRecord) :
    Sends m (startAbilityRecord cfg env m r).2 := by
  unfold startAbilityRecord
  split
  · exact .refl m
  · exact startAbility_sends cfg env m _

theorem handToNewTop_sends (m : Manager) (newTopToken : UInt16) (want : Option Want) :
    Sends m (handToNewTop m newTopToken want) := by
  unfold handToNewTop
  split <;> exact .refl m

theorem terminateAbilityWant_sends (env : Env) (m : Manager) (token : UInt16) (want : Option Want) :
    Sends m (terminateAbilityWant cfg env m token want).2 := by
  unfold terminateAbilityWant
  split
  · exact .refl m
  · next top _ =>
    split
    · exact .refl m
    · split
      · split
        · exact .refl m
        · split
          · exact .refl m
          · exact .deleteRecordInfo m token
      · dsimp only
        split
        · exact .refl m
        · next newTop _ =>
          refine Sends.trans ?_ (.send env _ (by simp) top)
          refine Sends.trans ?_ (handToNewTop_sends _ newTop.token want)
          split
          · have hswapped := Sends.add cfg
              ({ m with abilityList := m.abilityList.popAbility.popAbility } : Manager) top
            exact hswapped.trans (.add cfg _ newTop)
          · exact .add cfg ({ m with abilityList := m.abilityList.popAbility } : Manager) _

theorem terminateAbility_sends (env : Env) (m : Manager) (token : UInt16) :
    Sends m (terminateAbility cfg env m token).2 := by
  unfold terminateAbility
  split
  · exact .refl m
  · exact terminateAbilityWant_sends cfg env { m with isAppScheduling := true } token none

theorem terminateMission_sends (env : Env) (m : Manager) (mission : UInt32) :
    Sends m (terminateMission cfg env m mission).2 := by
  unfold terminateMission
  split
  · exact .refl m
  · split
    · exact .refl m
    · refine .foldl (fun m token => ?_) _ m
      split
      · exact terminateAbility_sends cfg env m token
      · exact .refl m

theorem forceStop_sends (env : Env) (m : Manager) (want : Option Want) :
    Sends m (forceStop cfg env m want).2 := by
  unfold forceStop
  split
  · exact .refl m
  · dsimp only
    split
    · exact .refl m
    · split
      · exact .refl m
      · exact terminateAbilityWant_sends cfg env { m with isAppScheduling := true } _ want

theorem launchNext_sends (env : Env) (m : Manager) : Sends m (launchNext cfg env m) := by
  unfold launchNext
  split
  · split
    · exact .refl m
    · next record _ =>
      have hcreated := createAppTask_sends env m record true
      dsimp only
      split
      · split
        · exact hcreated
        · exact hcreated.trans (startAbilityRecord_sends cfg env _ _)
      · exact hcreated
  · split
    · exact .refl m
    · next top _ =>
      have hcreated := createAppTask_sends env m top true
      dsimp only
      split <;> exact hcreated

theorem onDestroyDone_sends (env : Env) (m : Manager) (token : UInt16) :
    Sends m (onDestroyDone cfg env m token) := by
  rw [onDestroyDone_eq]
  have hset := Sends.setAbilityStateAndNotify m token .stop
  dsimp only
  split
  · exact hset
  · next r _ =>
    refine hset.trans (Sends.trans ?_ (launchNext_sends cfg env _))
    split
    · exact .deleteRecordInfo _ token
    · exact .deleteAbilityThread _ r

theorem forceStopBundle_sends (env : Env) (m : Manager) (token : UInt16) :
    Sends m (forceStopBundle cfg env m token).2 := by
  unfold forceStopBundle
  split
  · exact .refl m
  · dsimp only
    split
    · exact .refl m
    · split
      · exact terminateAbilityWant_sends cfg env { m with isAppScheduling := true } token none
      · exact onDestroyDone_sends cfg env (({ m with isAppScheduling := true } : Manager).modify token
          fun r => { r with isTerminated := true }) token

theorem onBackgroundDone_sends (env : Env) (m : Manager) (token : UInt16) :
    Sends m (onBackgroundDone env m token) := by
  have hset := Sends.setAbilityStateAndNotify m token .background
  unfold onBackgroundDone
  dsimp only
  split
  · exact hset
  · exact hset.trans (.send env _ (by simp) _)

end MultiTasks

/-! ## The single-task build -/

namespace SingleTask
open Manager

variable (cfg : Config)

theorem schedulerAbilityLifecycle_sends (m : Manager) (want : Want) (state : SliteAbilityState) :
    Sends m (schedulerAbilityLifecycle m want state) := by
  cases state with
  | foreground => exact .of_append ⟨fun h => (by cases h), fun _ h => (by cases h)⟩ rfl
  | background =>
    exact .of_append ⟨fun h => (by cases h), fun h => (by rcases h with h | h <;> cases h)⟩ rfl
  | unknown | uninitialized | initial => exact .refl m

theorem scheduleLifecycleInner_sends (env : Env) (m : Manager) (r : AbilityRecord)
    {state : SliteAbilityState} (hstate : state ≠ .unknown) :
    Sends m (scheduleLifecycleInner env m r state).2 := by
  unfold scheduleLifecycleInner
  split
  · exact .send env m hstate r
  · split
    · exact .refl m
    · exact schedulerAbilityLifecycle_sends m (launcherWant r) state

theorem schedulerLifecycle_sends (env : Env) (m : Manager) (token : UInt16) {state : SliteAbilityState}
    (hstate : state ≠ .unknown) : Sends m (schedulerLifecycle env m token state).2 := by
  unfold schedulerLifecycle
  split
  · exact .refl m
  · next r _ => exact scheduleLifecycleInner_sends env m r hstate

theorem createAppTask_sends (env : Env) (m : Manager) (r : AbilityRecord) (listed : Bool) :
    Sends m (createAppTask cfg env m r listed).2 := by
  -- the launcher is asked to leave, or without one the application is created at once
  have hlaunched : ∀ m₁ : Manager, Sends m m₁ → Sends m (if m₁.nativeAbility.isSome then
      (if (schedulerLifecycle env m₁ launcherToken .background).1 ≠ errOk then
        (schedulerLifecycleError, (schedulerLifecycle env m₁ launcherToken .background).2)
      else (errOk, (schedulerLifecycle env m₁ launcherToken .background).2))
      else (errOk, (schedulerLifecycle env m₁ r.token .initial).2)).2 := by
    intro m₁ h₁
    have hback := h₁.trans (schedulerLifecycle_sends env m₁ launcherToken
      (show SliteAbilityState.background ≠ .unknown by simp))
    split
    · split
      · exact hback
      · exact hback
    · exact h₁.trans (schedulerLifecycle_sends env m₁ r.token (by simp))
  unfold createAppTask
  dsimp only
  split
  · exact .refl m
  · refine hlaunched _ (Sends.trans (.of_eq ?_) (.add cfg _ _))
    repeat' split
    all_goals rfl

theorem updateRecord_sends (m : Manager) (info : AbilitySvcInfo) (bundleName : CString) :
    Sends m (updateRecord m info bundleName) := by
  unfold updateRecord
  split
  · exact .refl m
  · split <;> exact .refl m

theorem preCheckStartAbility_sends (env : Env) (m : Manager) (info : AbilitySvcInfo)
    (bundleName : CString) : Sends m (preCheckStartAbility cfg env m info bundleName).2 := by
  unfold preCheckStartAbility
  split
  · exact .refl m
  · split
    · split
      · exact .refl m
      · split
        · exact schedulerLifecycle_sends env m launcherToken (by simp)
        · exact .refl m
    · split
      · exact .refl m
      · have hadded : Sends m ((generateToken m).2.add cfg
            (newRecord env info bundleName (generateToken m).1)) := .add cfg (generateToken m).2 _
        have hcreated := hadded.trans (createAppTask_sends cfg env _
          (newRecord env info bundleName (generateToken m).1)
          ((generateToken m).2.takes cfg (generateToken m).1))
        dsimp only
        split
        · split
          · exact hcreated.trans (.release _ _)
          · exact hcreated
        · exact hcreated

theorem terminateAbilityWant_sends (env : Env) (m : Manager) (token : UInt16) :
    Sends m (terminateAbilityWant env m token).2 := by
  unfold terminateAbilityWant
  split
  · exact .refl m
  · next top _ =>
    split
    · dsimp only
      split
      · exact schedulerLifecycle_sends env { m with isAppScheduling := false } launcherToken (by simp)
      · exact .refl m
    · split
      · exact .deleteRecordInfo { m with isAppScheduling := false } token
      · exact scheduleLifecycleInner_sends env
          (m.modify top.token fun r => { r with isTerminated := true }) _ (by simp)

theorem terminateAbility_sends (env : Env) (m : Manager) (token : UInt16) :
    Sends m (terminateAbility env m token).2 := by
  unfold terminateAbility
  split
  · exact .refl m
  · exact terminateAbilityWant_sends env { m with isAppScheduling := true } token

theorem terminateMission_sends (env : Env) (m : Manager) (mission : UInt32) :
    Sends m (terminateMission env m mission).2 := by
  unfold terminateMission
  split
  · exact .refl m
  · split
    · exact .refl m
    · refine .foldl (fun m token => ?_) _ m
      split
      · exact terminateAbility_sends env m token
      · exact .refl m

theorem forceStop_sends (env : Env) (m : Manager) (want : Option Want) :
    Sends m (forceStop env m want).2 := by
  unfold forceStop
  split
  · exact .refl m
  · dsimp only
    split
    · exact .refl m
    · split
      · exact terminateAbilityWant_sends env { m with isAppScheduling := true } 0
      · split
        · exact .refl m
        · exact terminateAbilityWant_sends env { m with isAppScheduling := true } _

theorem startAbilityInfo_sends (env : Env) (m : Manager) (info : AbilitySvcInfo) :
    Sends m (startAbilityInfo cfg env m info).2 := by
  unfold startAbilityInfo
  split
  · exact .refl m
  · next bundleName _ =>
    split
    · exact .refl m
    · split
      · exact .refl m
      · next top _ =>
        -- the application in front is asked again, or leaves first, or the new one comes at once
        split
        · have hupdated := updateRecord_sends m info bundleName
          dsimp only
          split
          · exact hupdated.trans (scheduleLifecycleInner_sends env _ top (by simp))
          · exact hupdated.trans (schedulerLifecycle_sends env _ launcherToken (by simp))
        · split
          · exact .refl m
          · split
            · split
              · split
                · exact schedulerLifecycle_sends env m launcherToken (by simp)
                · exact preCheckStartAbility_sends cfg env m _ bundleName
              · have hterminated : Sends m (terminateAbility env m top.token).2 :=
                  terminateAbility_sends env m top.token
                exact hterminated.trans (preCheckStartAbility_sends cfg env
                  { (generateToken (terminateAbility env m top.token).2).2 with
                    pendingToken := (generateToken (terminateAbility env m top.token).2).1 } _ bundleName)
            · exact preCheckStartAbility_sends cfg env m _ bundleName

theorem startAbility_sends (env : Env) (m : Manager) (want : Option Want) :
    Sends m (startAbility cfg env m want).2 := by
  unfold startAbility
  split
  · exact .refl m
  · split
    · exact .refl m
    · next want =>
      split
      · exact .refl m
      · split
        · exact .refl m
        · split
          · exact .startRemoteAbility cfg env _ want
          · split
            · exact .refl m
            · exact startAbilityInfo_sends cfg env { m with isAppScheduling := true } _

theorem forceStopBundle_sends (env : Env) (m : Manager) (token : UInt16) :
    Sends m (forceStopBundle env m token).2 := by
  unfold forceStopBundle
  split
  · exact .refl m
  · dsimp only
    split
    · exact .refl m
    · split
      · exact .refl m
      · split
        · exact schedulerLifecycle_sends env { m with isAppScheduling := true } launcherToken (by simp)
        · exact .refl m

theorem onBackgroundDone_sends (env : Env) (m : Manager) (token : UInt16) :
    Sends m (onBackgroundDone env m token) := by
  have hset := Sends.setAbilityStateAndNotify m token .background
  unfold onBackgroundDone
  dsimp only
  split
  · exact hset
  · next top _ =>
    split
    · split
      · exact hset.trans (schedulerLifecycle_sends env _ launcherToken (by simp))
      · exact hset
    · split
      · have hcomes : Sends m (if top.state = .stop then
            (scheduleLifecycleInner env (m.setAbilityStateAndNotify token .background) top .initial).2
            else (scheduleLifecycleInner env (m.setAbilityStateAndNotify token .background) top
              .foreground).2) := by
          split
          · exact hset.trans (scheduleLifecycleInner_sends env _ top (by simp))
          · exact hset.trans (scheduleLifecycleInner_sends env _ top (by simp))
        revert hcomes
        generalize (if top.state = .stop then
            (scheduleLifecycleInner env (m.setAbilityStateAndNotify token .background) top .initial).2
            else (scheduleLifecycleInner env (m.setAbilityStateAndNotify token .background) top
              .foreground).2) = m₁
        intro hcomes
        split
        · split <;> exact hcomes
        · exact hcomes
      · exact hset

theorem onDestroyDone_sends (env : Env) (m : Manager) (token : UInt16) :
    Sends m (onDestroyDone cfg env m token) := by
  have hset := Sends.setAbilityStateAndNotify m token .stop
  have hdeleted := hset.trans (.deleteRecordInfo (m.setAbilityStateAndNotify token .stop) token)
  unfold onDestroyDone
  dsimp only
  split
  · exact hset
  · split
    · split
      · exact hdeleted.trans (schedulerLifecycle_sends env _ launcherToken (by simp))
      · split
        · exact hdeleted
        · next record _ =>
          have hcreated := hdeleted.trans (createAppTask_sends cfg env _ record false)
          split
          · split
            · exact hcreated.trans (schedulerLifecycle_sends env (Manager.crash _) launcherToken (by simp))
            · exact hcreated.trans (schedulerLifecycle_sends env _ launcherToken (by simp))
          · exact hcreated
    · exact hdeleted

theorem onForegroundDone_sends (env : Env) (m : Manager) (token : UInt16) :
    Sends m (onForegroundDone cfg env m token) := by
  have hset := Sends.setAbilityStateAndNotify m token .foreground
  unfold onForegroundDone
  dsimp only
  split
  · exact hset
  · next top _ =>
    split
    · split
      · exact hset
      · split
        · exact hset
        · split
          · split
            · exact hset.trans (onDestroyDone_sends cfg env _ top.token)
            · split
              · exact hset.trans (.deleteRecordInfo _ top.token)
              · split
                · exact hset.trans (scheduleLifecycleInner_sends env _ top (by simp))
                · exact hset
          · exact hset
    · exact hset

end SingleTask

/-! ## Requests and replies -/

/-- Every function of a build that is dispatched to sends only answerable messages. -/
structure Build.AllSend (build : Build) : Prop where
  dispatch : ∀ env m o, Sends m (build.operations.dispatch env m o).2
  created : ∀ env m token, Sends m (build.onCreateDone env m token)
  foreground : ∀ env m token, Sends m (build.onForegroundDone env m token)
  background : ∀ env m token, Sends m (build.onBackgroundDone env m token)
  destroyed : ∀ env m token, Sends m (build.onDestroyDone env m token)

/-- What `TERMINATE_ALL` is dispatched to is the same in the two builds. -/
theorem dispatchAll_sends (env : Env) (m : Manager) (want : Option Want) :
    Sends m (match want with
      | none => (errOk, m.crash)
      | some want => Manager.terminateAll env m (want.data.map CString.read)).2 := by
  split
  · exact .refl m
  · exact .terminateAll env m _

theorem multiTasks_allSend (cfg : Config) : (multiTasks cfg).AllSend where
  dispatch env m o := by
    unfold Operations.dispatch
    cases o.msgId with
    | startAbility => exact MultiTasks.startAbility_sends cfg env m o.want
    | terminateAbility => exact MultiTasks.terminateAbility_sends cfg env m _
    | terminateApp => exact MultiTasks.forceStopBundle_sends cfg env m _
    | terminateMission => exact MultiTasks.terminateMission_sends cfg env m _
    | terminateAppByBundleName => exact MultiTasks.forceStop_sends cfg env m o.want
    | terminateAll => exact dispatchAll_sends env m o.want
    | other _ => exact .refl m
  created env m token :=
    (Sends.setAbilityStateAndNotify m token .inited).trans
      (MultiTasks.schedulerLifecycle_sends env _ token (by simp))
  foreground _ m token := .setAbilityStateAndNotify m token .foreground
  background env m token := MultiTasks.onBackgroundDone_sends env m token
  destroyed env m token := MultiTasks.onDestroyDone_sends cfg env m token

theorem singleTask_allSend (cfg : Config) : (singleTask cfg).AllSend where
  dispatch env m o := by
    unfold Operations.dispatch
    cases o.msgId with
    | startAbility => exact SingleTask.startAbility_sends cfg env m o.want
    | terminateAbility => exact SingleTask.terminateAbility_sends env m _
    | terminateApp => exact SingleTask.forceStopBundle_sends env m _
    | terminateMission => exact SingleTask.terminateMission_sends env m _
    | terminateAppByBundleName => exact SingleTask.forceStop_sends env m o.want
    | terminateAll => exact dispatchAll_sends env m o.want
    | other _ => exact .refl m
  created env m token :=
    (Sends.setAbilityStateAndNotify m token .inited).trans
      (SingleTask.schedulerLifecycle_sends env _ token (by simp))
  foreground env m token := SingleTask.onForegroundDone_sends cfg env m token
  background env m token := SingleTask.onBackgroundDone_sends env m token
  destroyed env m token := SingleTask.onDestroyDone_sends cfg env m token

namespace Build.AllSend
variable {build : Build} (h : build.AllSend)
include h

/-- A drain sends what the operations that it executes send. -/
theorem drain (fuel : Nat) (envs : Nat → Env) (m : Manager) :
    Sends m (build.operations.runOperationFuel fuel envs m).2 := by
  induction fuel generalizing envs m with
  | zero => exact .refl m
  | succ fuel ih =>
    cases hq : m.abilityOperation with
    | nil =>
      rw [Operations.runOperationFuel_nil _ hq]
      exact .refl m
    | cons o rest =>
      cases hlock : m.isAppScheduling with
      | true =>
        simp only [Operations.runOperationFuel, hq, hlock, if_true]
        exact .refl m
      | false =>
        rw [Operations.runOperationFuel_cons _ hq hlock]
        have hfirst : Sends m (build.operations.dispatch (envs 0) { m with abilityOperation := rest } o).2 :=
          h.dispatch (envs 0) { m with abilityOperation := rest } o
        dsimp only
        split
        · exact hfirst.trans (ih _ (Manager.unlock _))
        · exact hfirst

theorem request (envs : Nat → Env) (m : Manager) (r : Request) :
    Sends m (serviceMessageHandle build envs m r).2 := by
  unfold serviceMessageHandle
  cases hcall : r.call build (envs 0) m with
  | none => exact .refl m
  | some x =>
    have hentered : Sends m (r.enter m) := by
      unfold Request.enter
      split <;> exact .refl m
    rw [Request.call_eq_dispatch, Option.map_eq_some_iff] at hcall
    obtain ⟨o, _, rfl⟩ := hcall
    have hcalled := hentered.trans (h.dispatch (envs 0) (r.enter m) o)
    dsimp only
    split
    · exact hcalled.trans (h.drain _ _ (Manager.unlock _))
    · exact hcalled

theorem reply (envs : Nat → Env) (m : Manager) (token : UInt16) (state : SliteAbilityState) :
    Sends m (schedulerLifecycleDone build envs m token state) := by
  cases state with
  | initial => exact h.created (envs 0) m token
  | foreground =>
    exact (h.foreground (envs 0) m token).trans
      (h.drain _ _ (build.onForegroundDone (envs 0) m token).unlock)
  | background => exact h.background (envs 0) m token
  | uninitialized => exact h.destroyed (envs 0) m token
  | unknown => exact .refl m

end Build.AllSend
end AbilityLite.Slite
