import AbilityLite.Slite.Invariant
import AbilityLite.Slite.SingleTaskRuns

/-
  Operations of the single-task build that overlap.

  One operation or reply sends at most one message (`Calls`), and an operation that
  gives the lock back sends none, so between two handled messages a free manager has
  nothing in flight. Two steps are otherwise: terminating the launcher resumes the
  application under it with the lock already given back, and the launcher's
  foreground reply, which gives the lock back, may first send to the application on
  top or to the launcher again.
-/

namespace AbilityLite.Slite.SingleTask
open Manager AbilityList

/-! ## What a call sends -/

/-- A call keeps the lock, sends at most one message, and none when it is refused. -/
structure Calls (m : Manager) (x : ErrCode × Manager) : Prop where
  lock : x.2.isAppScheduling = m.isAppScheduling
  queue : m.QueueWellFormed → x.2.QueueWellFormed
  sent : x.2.sent.length ≤ m.sent.length + 1
  refused : x.1 ≠ errOk → x.2.sent.length ≤ m.sent.length

namespace Calls
variable {m m' : Manager}

/-- Nothing is sent. -/
theorem of_eq {ret : ErrCode} (hlock : m'.isAppScheduling = m.isAppScheduling)
    (hqueue : m'.abilityOperation = m.abilityOperation) (hsent : m'.sent.length ≤ m.sent.length) :
    Calls m (ret, m') := by
  refine ⟨hlock, fun h => ?_, Nat.le_succ_of_le hsent, fun _ => hsent⟩
  show ∀ o ∈ m'.abilityOperation, o.WellFormed
  rw [hqueue]
  exact h

theorem refl (m : Manager) (ret : ErrCode) : Calls m (ret, m) :=
  of_eq rfl rfl (Nat.le_refl _)

/-- The result of a call is dropped. -/
theorem dropResult {x : ErrCode × Manager} (h : Calls m x) : Calls m (errOk, x.2) :=
  ⟨h.lock, h.queue, h.sent, fun hne => absurd rfl hne⟩

/-- A step that sends nothing, and then a call. -/
theorem after {x : ErrCode × Manager} (h : Calls m' x)
    (hlock : m'.isAppScheduling = m.isAppScheduling)
    (hqueue : m.QueueWellFormed → m'.QueueWellFormed) (hsent : m'.sent.length ≤ m.sent.length) :
    Calls m x :=
  ⟨h.lock.trans hlock, fun hq => h.queue (hqueue hq),
    Nat.le_trans h.sent (Nat.succ_le_succ hsent), fun hne => Nat.le_trans (h.refused hne) hsent⟩

end Calls

theorem release_sent (m : Manager) (token : UInt16) :
    (m.release token).sent.length ≤ m.sent.length := List.length_filter_le _ _

theorem add_calls (cfg : Config) (m : Manager) (r : AbilityRecord) (ret : ErrCode) :
    Calls m (ret, m.add cfg r) := by
  refine Calls.of_eq ?_ ?_ ?_
  · simp only [Manager.add, releaseAll_eq]
  · simp only [Manager.add, releaseAll_eq]
  · simp only [Manager.add, releaseAll_eq]
    exact List.length_filter_le _ _

theorem deleteRecordInfo_sent (m : Manager) (token : UInt16) :
    (m.deleteRecordInfo token).sent.length ≤ m.sent.length := by
  unfold deleteRecordInfo
  split
  · exact Nat.le_refl _
  · next r _ =>
    unfold deleteAbilityThread
    split
    · exact release_sent m r.token
    · exact Nat.le_refl _

theorem deleteRecordInfo_keeps (m : Manager) (token : UInt16) :
    (m.deleteRecordInfo token).isAppScheduling = m.isAppScheduling ∧
      (m.deleteRecordInfo token).abilityOperation = m.abilityOperation := by
  unfold deleteRecordInfo
  split
  · exact ⟨rfl, rfl⟩
  · unfold deleteAbilityThread
    split <;> exact ⟨rfl, rfl⟩

theorem setAbilityStateAndNotify_sent (m : Manager) (token : UInt16) (state : AbilityRecordState) :
    (m.setAbilityStateAndNotify token state).sent.length ≤ m.sent.length := by
  obtain ⟨n, hn⟩ := setAbilityStateAndNotify_eq m token state
  exact Nat.le_of_eq (congrArg (fun m => m.sent.length) hn)

theorem setAbilityStateAndNotify_calls (m : Manager) (token : UInt16) (state : AbilityRecordState)
    (ret : ErrCode) : Calls m (ret, m.setAbilityStateAndNotify token state) := by
  obtain ⟨n, hn⟩ := setAbilityStateAndNotify_eq m token state
  rw [hn]
  exact Calls.of_eq rfl rfl (Nat.le_refl _)

theorem scheduleLifecycleInner_calls (env : Env) (m : Manager) (r : AbilityRecord)
    (state : SliteAbilityState) : Calls m (scheduleLifecycleInner env m r state) := by
  unfold scheduleLifecycleInner
  split
  · unfold sendMsgToAbilityThread
    split
    · exact Calls.refl m errOk
    · simp only
      split
      · exact ⟨rfl, id, by simp, fun hne => absurd rfl hne⟩
      · exact Calls.refl m errOk
  · split
    · exact Calls.refl m paramNullError
    · unfold schedulerAbilityLifecycle
      split
      · exact ⟨rfl, id, by simp, fun hne => absurd rfl hne⟩
      · exact ⟨rfl, id, by simp, fun hne => absurd rfl hne⟩
      · exact Calls.refl m errOk

theorem schedulerLifecycle_calls (env : Env) (m : Manager) (token : UInt16)
    (state : SliteAbilityState) : Calls m (schedulerLifecycle env m token state) := by
  unfold schedulerLifecycle
  split
  · exact Calls.refl m paramNullError
  · exact scheduleLifecycleInner_calls env m _ state

theorem createAppTask_calls (cfg : Config) (env : Env) (m : Manager) (r : AbilityRecord)
    (listed : Bool) : Calls m (createAppTask cfg env m r listed) := by
  unfold createAppTask
  simp only
  split
  · exact Calls.refl m _
  · obtain ⟨m₁, hm₁, h₁⟩ : ∃ m₁ : Manager,
        (if listed && (if listed then m.modify r.token (started env) else m).evicts cfg r.token
          then (if listed then m.modify r.token (started env) else m).crash
          else (if listed then m.modify r.token (started env) else m)) = m₁ ∧
        Calls m (errOk, m₁) := by
      refine ⟨_, rfl, ?_⟩
      split <;> split <;> exact Calls.of_eq rfl rfl (Nat.le_refl _)
    rw [hm₁]
    have h₂ := add_calls cfg m₁ (started env r) errOk
    have key : ∀ {x : ErrCode × Manager}, Calls (m₁.add cfg (started env r)) x → Calls m x := by
      intro x hx
      refine hx.after (h₂.lock.trans h₁.lock) (fun hq => h₂.queue (h₁.queue hq)) ?_
      have hs₁ : m₁.sent.length ≤ m.sent.length := by
        rw [← hm₁]
        split <;> split <;> exact Nat.le_refl _
      refine Nat.le_trans ?_ hs₁
      simp only [Manager.add, releaseAll_eq]
      exact List.length_filter_le _ _
    split
    · have hcall := schedulerLifecycle_calls env (m₁.add cfg (started env r)) launcherToken .background
      split
      · next hret => exact key ⟨hcall.lock, hcall.queue, hcall.sent, fun _ => hcall.refused hret⟩
      · exact key hcall.dropResult
    · exact key (schedulerLifecycle_calls env _ r.token .initial).dropResult

theorem preCheckStartAbility_calls (cfg : Config) (env : Env) (m : Manager) (info : AbilitySvcInfo)
    (bundleName : CString) : Calls m (preCheckStartAbility cfg env m info bundleName) := by
  unfold preCheckStartAbility
  split
  · exact Calls.refl m paramNullError
  · split
    · split
      · exact Calls.refl m errOk
      · split
        · exact (schedulerLifecycle_calls env m launcherToken .background).dropResult
        · exact Calls.refl m errOk
    · split
      · exact Calls.of_eq rfl rfl (Nat.le_refl _)
      · simp only
        have h₁ := add_calls cfg (generateToken m).2 (newRecord env info bundleName (generateToken m).1)
          errOk
        have h₂ := createAppTask_calls cfg env
          ((generateToken m).2.add cfg (newRecord env info bundleName (generateToken m).1))
          (newRecord env info bundleName (generateToken m).1)
          ((generateToken m).2.takes cfg (generateToken m).1)
        have hs₁ : ((generateToken m).2.add cfg
            (newRecord env info bundleName (generateToken m).1)).sent.length ≤ m.sent.length := by
          simp only [Manager.add, releaseAll_eq]
          exact List.length_filter_le _ _
        replace h₂ := h₂.after (m := m) h₁.lock h₁.queue hs₁
        split
        · next hret =>
          have h₃ := h₂.refused hret
          split
          · exact ⟨h₂.lock, h₂.queue, Nat.le_trans (release_sent _ _) h₂.sent,
              fun _ => Nat.le_trans (release_sent _ _) h₃⟩
          · exact ⟨h₂.lock, h₂.queue, h₂.sent, fun _ => h₃⟩
        · exact h₂.dropResult

/-! ## Operations -/

/-- A call, or an end of the operation that sends nothing. -/
def Ends (m : Manager) (x : ErrCode × Manager) : Prop :=
  Calls m x ∨ (x.2.sent.length ≤ m.sent.length ∧ (m.QueueWellFormed → x.2.QueueWellFormed))

theorem startAbilityInfo_ends (cfg : Config) (env : Env) {m : Manager}
    (hlock : m.isAppScheduling = true) (info : AbilitySvcInfo) :
    Ends m (startAbilityInfo cfg env m info) := by
  unfold startAbilityInfo
  split
  · exact .inr ⟨Nat.le_refl _, id⟩
  · next bundleName hbundle =>
    split
    · exact .inr ⟨Nat.le_refl _, id⟩
    · split
      · exact .inr ⟨Nat.le_refl _, id⟩
      · next top htop =>
        split
        · -- start launcher
          have hupdate : Calls m (errOk, updateRecord m info bundleName) := by
            unfold updateRecord
            split
            · exact Calls.refl m errOk
            · split
              · exact Calls.refl m errOk
              · exact Calls.of_eq rfl rfl (Nat.le_refl _)
          have hsent : (updateRecord m info bundleName).sent.length ≤ m.sent.length := by
            unfold updateRecord
            split
            · exact Nat.le_refl _
            · split <;> exact Nat.le_refl _
          simp only
          split
          · exact .inl ((scheduleLifecycleInner_calls env _ top .background).dropResult.after
              hupdate.lock hupdate.queue hsent)
          · exact .inl ((schedulerLifecycle_calls env _ launcherToken .foreground).dropResult.after
              hupdate.lock hupdate.queue hsent)
        · split
          · exact .inr ⟨Nat.le_refl _, id⟩
          · split
            · split
              · split
                · exact .inl (schedulerLifecycle_calls env m launcherToken .background).dropResult
                · exact .inl (preCheckStartAbility_calls cfg env m _ bundleName)
              · -- js to js: the terminate is deferred, as the lock is held
                have hterm : terminateAbility env m top.token =
                    m.addAbilityOperation env .terminateAbility none top.token.toUInt64 := by
                  simp only [terminateAbility, hlock, if_true]
                simp only [hterm]
                refine .inl ((preCheckStartAbility_calls cfg env _ _ bundleName).after rfl ?_
                  (Nat.le_refl _))
                intro hq o ho
                rcases List.mem_append.mp ho with ho | ho
                · exact hq o ho
                · rw [List.mem_singleton.mp ho]
                  intro hid
                  cases hid
            · exact .inl (preCheckStartAbility_calls cfg env m _ bundleName)

/-- Nothing is in flight while the manager is free, and at most one message or reply while
it is locked. -/
def OneAtATime (rs : List (UInt16 × SliteAbilityState)) (m : Manager) : Prop :=
  (inFlight rs m).length ≤ if m.isAppScheduling then 1 else 0

theorem OneAtATime.free {rs : List (UInt16 × SliteAbilityState)} {m : Manager}
    (h : OneAtATime rs m) (hlock : m.isAppScheduling = false) : m.sent = [] ∧ rs = [] := by
  simpa [OneAtATime, hlock, inFlight] using h

section
variable {m : Manager}

/-- An operation that ends with nothing sent leaves the manager as it may be. -/
theorem leaves_free {x : ErrCode × Manager} (hqueue : x.2.QueueWellFormed) (hsent : x.2.sent = []) :
    Leaves (OneAtATime []) x := by
  refine ⟨hqueue, fun _ => ?_, fun _ => ?_⟩
  · simp [OneAtATime, inFlight, Manager.unlock, hsent]
  · simp [OneAtATime, inFlight, hsent]

theorem Calls.leaves {x : ErrCode × Manager} (h : Calls m x) (hlock : m.isAppScheduling = true)
    (hwf : m.QueueWellFormed) (hsent : m.sent = []) : Leaves (OneAtATime []) x := by
  have hl : x.2.isAppScheduling = true := h.lock.trans hlock
  refine ⟨h.queue hwf, fun hx => ?_, fun _ => ?_⟩
  · rcases hx with hret | hfree
    · have hnone := h.refused hret
      simpa [OneAtATime, inFlight, Manager.unlock, hsent] using hnone
    · rw [hl] at hfree
      cases hfree
  · have hone := h.sent
    simpa [OneAtATime, inFlight, hl, hsent] using hone

theorem Ends.leaves {x : ErrCode × Manager} (h : Ends m x) (hlock : m.isAppScheduling = true)
    (hwf : m.QueueWellFormed) (hsent : m.sent = []) : Leaves (OneAtATime []) x := by
  rcases h with h | ⟨hnone, hqueue⟩
  · exact h.leaves hlock hwf hsent
  · rw [hsent, List.length_nil, Nat.le_zero, List.length_eq_zero_iff] at hnone
    exact leaves_free (hqueue hwf) hnone

theorem startAbility_leaves (cfg : Config) (env : Env) (hlock : m.isAppScheduling = false)
    (hwf : m.QueueWellFormed) (hsent : m.sent = []) (want : Option Want) :
    Leaves (OneAtATime []) (startAbility cfg env m want) := by
  simp only [startAbility, hlock, Bool.false_eq_true, if_false]
  split
  · exact leaves_free hwf hsent
  · next want =>
    split
    · exact leaves_free hwf hsent
    · split
      · exact leaves_free hwf hsent
      · split
        · obtain ⟨remote, hremote⟩ :=
            startRemoteAbility_eq cfg env { m with isAppScheduling := false } want
          exact leaves_free (by rw [hremote]; exact hwf) (by rw [hremote]; exact hsent)
        · split
          · exact leaves_free hwf hsent
          · exact (startAbilityInfo_ends cfg env (m := { m with isAppScheduling := true }) rfl
              _).leaves rfl hwf hsent

/-- Terminating the launcher resumes the application on top, which is in the background. -/
def resumesTop (m : Manager) : Bool :=
  m.getTopAbility.any fun top => top.token ≠ launcherToken && top.state = .background

theorem terminateAbilityWant_leaves (env : Env) {token : UInt16} (hlock : m.isAppScheduling = true)
    (hwf : m.QueueWellFormed) (hsent : m.sent = [])
    (hok : token = launcherToken → resumesTop m = false) :
    Leaves (OneAtATime []) (terminateAbilityWant env m token) := by
  unfold terminateAbilityWant
  split
  · exact leaves_free hwf hsent
  · next top htop =>
    split
    · next htoken =>
      have hstay : ¬ (top.token ≠ token ∧ top.state = .background) := by
        simpa [resumesTop, htop, htoken] using hok htoken
      simp only
      rw [if_neg hstay]
      exact leaves_free hwf hsent
    · split
      · obtain ⟨-, hqueue⟩ := deleteRecordInfo_keeps { m with isAppScheduling := false } token
        have hnone := deleteRecordInfo_sent { m with isAppScheduling := false } token
        refine leaves_free ?_ ?_
        · show ∀ o ∈ ({ m with isAppScheduling := false }.deleteRecordInfo token).abilityOperation,
            o.WellFormed
          rw [hqueue]
          exact hwf
        · refine List.length_eq_zero_iff.mp (Nat.le_zero.mp (Nat.le_trans hnone ?_))
          exact Nat.le_of_eq (congrArg List.length hsent)
      · have hcall := scheduleLifecycleInner_calls env
          (m.modify top.token fun r => { r with isTerminated := true })
          { top with isTerminated := true } .background
        exact hcall.leaves hlock hwf hsent

theorem terminateAbility_leaves (env : Env) {token : UInt16} (hlock : m.isAppScheduling = false)
    (hwf : m.QueueWellFormed) (hsent : m.sent = [])
    (hok : token = launcherToken → resumesTop m = false) :
    Leaves (OneAtATime []) (terminateAbility env m token) := by
  simp only [terminateAbility, hlock, Bool.false_eq_true, if_false]
  exact terminateAbilityWant_leaves env (m := { m with isAppScheduling := true }) rfl hwf hsent hok

/-- One round of `TerminateMission`: an ability that is not on top goes, and nothing is sent. -/
theorem terminateAbility_below_top (env : Env) {token : UInt16} (hlock : m.isAppScheduling = false)
    (hwf : m.QueueWellFormed) (hsent : m.sent = []) {top : AbilityRecord}
    (htop : m.getTopAbility = some top) (htoken : token ≠ top.token)
    (hok : token = launcherToken → resumesTop m = false) :
    let m' := (terminateAbility env m token).2
    m'.isAppScheduling = false ∧ m'.QueueWellFormed ∧ m'.sent = [] ∧
      m'.getTopAbility = some top := by
  have htop' : Manager.getTopAbility { m with isAppScheduling := true } = some top := htop
  simp only [terminateAbility, hlock, Bool.false_eq_true, if_false, terminateAbilityWant, htop']
  split
  · next hlauncher =>
    have hstay : ¬ (top.token ≠ token ∧ top.state = .background) := by
      simpa [resumesTop, htop, hlauncher] using hok hlauncher
    rw [if_neg hstay]
    exact ⟨rfl, hwf, hsent, htop⟩
  · obtain ⟨hfree, hqueue⟩ := deleteRecordInfo_keeps { m with isAppScheduling := false } token
    have hnone := deleteRecordInfo_sent { m with isAppScheduling := false } token
    refine ⟨hfree, ?_, ?_, ?_⟩
    · show ∀ o ∈ ({ m with isAppScheduling := false }.deleteRecordInfo token).abilityOperation,
        o.WellFormed
      rw [hqueue]
      exact hwf
    · refine List.length_eq_zero_iff.mp (Nat.le_zero.mp (Nat.le_trans hnone ?_))
      exact Nat.le_of_eq (congrArg List.length hsent)
    · obtain ⟨rest, hl⟩ := List.head?_eq_some_iff.mp htop
      have hne : top.token ≠ token := fun e => htoken e.symm
      unfold deleteRecordInfo
      split
      · exact htop
      · next r hr =>
        have hr' : r.token = token := (get_eq_some hr).2
        unfold deleteAbilityThread
        split
        · refine getTopAbility_cons (l := AbilityList.erase (AbilityList.modify rest r.token
            fun r => { r with abilityThread := none }) token) ?_
          simp only [Manager.erase, Manager.notify, Manager.modify, Manager.release, hl, modify_cons]
          rw [if_neg (hr' ▸ hne), erase_below _ hne]
        · refine getTopAbility_cons (l := AbilityList.erase rest token) ?_
          simp only [Manager.erase, Manager.notify, hl]
          exact erase_below _ hne

theorem terminateEach_leaves (env : Env) {top : AbilityRecord} (tokens : List UInt16) {m : Manager}
    (hlock : m.isAppScheduling = false) (hwf : m.QueueWellFormed) (hsent : m.sent = [])
    (htop : m.getTopAbility = some top) (hok : launcherToken ∈ tokens → resumesTop m = false) :
    (terminateEach env top.token m tokens).QueueWellFormed ∧
      (terminateEach env top.token m tokens).sent = [] := by
  induction tokens generalizing m with
  | nil => exact ⟨hwf, hsent⟩
  | cons token tokens ih =>
    simp only [terminateEach, List.foldl_cons] at ih ⊢
    split
    · next htoken =>
      obtain ⟨hlock', hwf', hsent', htop'⟩ := terminateAbility_below_top env hlock hwf hsent htop
        htoken fun e => hok (e ▸ List.mem_cons_self)
      refine ih hlock' hwf' hsent' htop' fun hmem => ?_
      simpa [resumesTop, htop, htop'] using hok (List.mem_cons_of_mem token hmem)
    · exact ih hlock hwf hsent htop fun hmem => hok (List.mem_cons_of_mem token hmem)

theorem terminateMission_leaves (env : Env) (hlock : m.isAppScheduling = false)
    (hwf : m.QueueWellFormed) (hsent : m.sent = []) {mission : UInt32}
    (hok : launcherToken ∈ m.abilityList.getAbilityList mission → resumesTop m = false) :
    Leaves (OneAtATime []) (terminateMission env m mission) := by
  simp only [terminateMission, hlock, Bool.false_eq_true, if_false]
  split
  · exact leaves_free hwf hsent
  · next top htop =>
    obtain ⟨hwf', hsent'⟩ := terminateEach_leaves env _ hlock hwf hsent htop hok
    exact leaves_free hwf' hsent'

theorem forceStopBundle_leaves (env : Env) (hlock : m.isAppScheduling = false)
    (hwf : m.QueueWellFormed) (hsent : m.sent = []) (token : UInt16) :
    Leaves (OneAtATime []) (forceStopBundle env m token) := by
  simp only [forceStopBundle, hlock, Bool.false_eq_true, if_false]
  split
  · exact leaves_free hwf hsent
  · have hl : ({ m with isAppScheduling := true } : Manager).isAppScheduling = true := rfl
    split
    · exact (Calls.refl { m with isAppScheduling := true } paramNullError).leaves hl hwf hsent
    · split
      · exact (schedulerLifecycle_calls env { m with isAppScheduling := true } launcherToken
          .foreground).leaves hl hwf hsent
      · exact (Calls.refl { m with isAppScheduling := true } errOk).leaves hl hwf hsent

/-- The bundle that a forced stop names. -/
def stoppedBundle (want : Option Want) : Option CString := (want.bind (·.element)).bind (·.bundleName)

/-- A forced stop of the launcher, by the ending of its name or by its record's. -/
def stopsLauncher (m : Manager) (want : Option Want) : Bool :=
  (stoppedBundle want).any fun bundleName =>
    isLauncher bundleName || (m.abilityList.getByName bundleName).any (·.token = launcherToken)

theorem forceStop_leaves (env : Env) (hlock : m.isAppScheduling = false)
    (hwf : m.QueueWellFormed) (hsent : m.sent = []) {want : Option Want}
    (hok : stopsLauncher m want = true → resumesTop m = false) :
    Leaves (OneAtATime []) (forceStop env m want) := by
  simp only [forceStop, hlock, Bool.false_eq_true, if_false]
  cases hbundle : (want.bind (·.element)).bind (·.bundleName) with
  | none => exact leaves_free hwf hsent
  | some bundleName =>
    simp only
    split
    · next hlauncher =>
      refine terminateAbilityWant_leaves env (m := { m with isAppScheduling := true }) rfl hwf hsent
        fun _ => hok ?_
      simp [stopsLauncher, stoppedBundle, hbundle, hlauncher]
    · split
      · exact leaves_free hwf hsent
      · next r hr =>
        refine terminateAbilityWant_leaves env (m := { m with isAppScheduling := true }) rfl hwf hsent
          fun htoken => hok ?_
        have hr' : m.abilityList.getByName bundleName = some r := hr
        simp [stopsLauncher, stoppedBundle, hbundle, hr', htoken]

theorem terminateAll_leaves (env : Env) (hlock : m.isAppScheduling = false)
    (hwf : m.QueueWellFormed) (hsent : m.sent = []) (excludedBundleName : Option CString) :
    Leaves (OneAtATime []) (terminateAll env m excludedBundleName) := by
  simp only [terminateAll, hlock, Bool.false_eq_true, if_false]
  generalize m.abilityList.popAllAbility excludedBundleName = popped
  obtain ⟨ret, l, deleted⟩ := popped
  simp only
  rw [releaseAll_eq]
  obtain ⟨n, hn⟩ := foldl_notify_eq _ deleted
  rw [hn]
  exact leaves_free hwf (by simp [hsent])

end

/-! ## Replies -/

/-- The launcher's foreground reply finds an application in front, or one in the background
that is to be destroyed: it sends again before the lock is given back. -/
def launcherReplySends (m : Manager) (token : UInt16) (state : SliteAbilityState) : Bool :=
  state = .foreground && token = launcherToken && m.nativeAbility = some .foreground &&
    m.getTopAbility.any fun top => top.token ≠ launcherToken &&
      (top.state = .foreground || (top.state = .background && top.isTerminated))

theorem onCreateDone_calls (env : Env) (m : Manager) (token : UInt16) :
    Calls m (errOk, onCreateDone env m token) := by
  have hset := setAbilityStateAndNotify_calls m token .inited errOk
  refine (schedulerLifecycle_calls env _ token .foreground).dropResult.after hset.lock hset.queue ?_
  exact setAbilityStateAndNotify_sent m token .inited

theorem onBackgroundDone_calls (env : Env) (m : Manager) (token : UInt16) :
    Calls m (errOk, onBackgroundDone env m token) := by
  have hset := setAbilityStateAndNotify_calls m token .background errOk
  have hsent := setAbilityStateAndNotify_sent m token .background
  unfold onBackgroundDone
  revert hset hsent
  generalize m.setAbilityStateAndNotify token .background = m₁
  intro hset hsent
  have key {x : ErrCode × Manager} (hx : Calls m₁ x) : Calls m x :=
    hx.after hset.lock hset.queue hsent
  simp only
  split
  · exact hset
  · next top htop =>
    split
    · split
      · exact key (schedulerLifecycle_calls env m₁ launcherToken .foreground).dropResult
      · exact hset
    · split
      · obtain ⟨m₂, hm₂, h₂⟩ : ∃ m₂ : Manager, (if top.state = .stop then
            (scheduleLifecycleInner env m₁ top .initial).2
            else (scheduleLifecycleInner env m₁ top .foreground).2) = m₂ ∧ Calls m₁ (errOk, m₂) := by
          refine ⟨_, rfl, ?_⟩
          split
          · exact (scheduleLifecycleInner_calls env m₁ top .initial).dropResult
          · exact (scheduleLifecycleInner_calls env m₁ top .foreground).dropResult
        rw [hm₂]
        split
        · split
          · exact key ⟨h₂.lock, h₂.queue, h₂.sent, h₂.refused⟩
          · exact key ⟨h₂.lock, h₂.queue, h₂.sent, h₂.refused⟩
        · exact key h₂
      · exact hset

theorem onDestroyDone_calls (cfg : Config) (env : Env) (m : Manager) (token : UInt16) :
    Calls m (errOk, onDestroyDone cfg env m token) := by
  have hset := setAbilityStateAndNotify_calls m token .stop errOk
  have hsent := setAbilityStateAndNotify_sent m token .stop
  unfold onDestroyDone
  revert hset hsent
  generalize m.setAbilityStateAndNotify token .stop = m₁
  intro hset hsent
  have hdel : Calls m₁ (errOk, m₁.deleteRecordInfo token) := by
    obtain ⟨hlock, hqueue⟩ := deleteRecordInfo_keeps m₁ token
    exact Calls.of_eq hlock hqueue (deleteRecordInfo_sent m₁ token)
  have key {x : ErrCode × Manager} (hx : Calls (m₁.deleteRecordInfo token) x) : Calls m x :=
    (hx.after hdel.lock hdel.queue (deleteRecordInfo_sent m₁ token)).after hset.lock hset.queue hsent
  simp only
  split
  · exact hset
  · split
    · split
      · exact key (schedulerLifecycle_calls env _ launcherToken .foreground).dropResult
      · split
        · exact key (Calls.refl _ errOk)
        · next record _ =>
          have hcreate := createAppTask_calls cfg env (m₁.deleteRecordInfo token) record false
          revert hcreate
          generalize createAppTask cfg env (m₁.deleteRecordInfo token) record false = x
          intro hcreate
          split
          · next hret =>
            -- nothing was sent, and the launcher is brought back
            have hnone := hcreate.refused hret
            split
            · have hback := (schedulerLifecycle_calls env x.2.crash launcherToken .foreground).dropResult
              have hback' := hback.after (m := m₁.deleteRecordInfo token) hcreate.lock hcreate.queue hnone
              exact key ⟨hback'.lock, hback'.queue, hback'.sent, hback'.refused⟩
            · have hback := (schedulerLifecycle_calls env x.2 launcherToken .foreground).dropResult
              have hback' := hback.after (m := m₁.deleteRecordInfo token) hcreate.lock hcreate.queue hnone
              exact key ⟨hback'.lock, hback'.queue, hback'.sent, hback'.refused⟩
          · have hdone := hcreate.dropResult
            exact key ⟨hdone.lock, hdone.queue, hdone.sent, hdone.refused⟩
    · exact key (Calls.refl _ errOk)

/-- A foreground reply sends nothing, but for the launcher's in the two cases. -/
theorem onForegroundDone_sent (cfg : Config) (env : Env) {m : Manager} {token : UInt16}
    (hok : launcherReplySends m token .foreground = false) :
    (onForegroundDone cfg env m token).sent.length ≤ m.sent.length ∧
      (m.QueueWellFormed → (onForegroundDone cfg env m token).QueueWellFormed) := by
  obtain ⟨n, hn⟩ := setAbilityStateAndNotify_eq m token .foreground
  unfold onForegroundDone
  have hstay : (m.setAbilityStateAndNotify token .foreground).sent.length ≤ m.sent.length ∧
      (m.QueueWellFormed → (m.setAbilityStateAndNotify token .foreground).QueueWellFormed) :=
    ⟨setAbilityStateAndNotify_sent m token .foreground,
      (setAbilityStateAndNotify_calls m token .foreground errOk).queue⟩
  simp only
  split
  · exact hstay
  · next top htop =>
    split
    · next htoken =>
      split
      · exact hstay
      · next nativeState hnative =>
        split
        · exact hstay
        · next hfront =>
          split
          · next hne =>
            -- an application on top is as the reply found it
            have hfound : m.getTopAbility = some top := by
              rw [hn] at htop
              simp only [Manager.getTopAbility, AbilityList.getTopAbility, AbilityList.modify,
                List.head?_map, Option.map_eq_some_iff] at htop
              obtain ⟨r, hr, rfl⟩ := htop
              by_cases hrt : r.token = token
              · exact absurd (by simp [hrt, htoken]) hne
              · simpa [Manager.getTopAbility, AbilityList.getTopAbility, hrt] using hr
            have hnative' : m.nativeAbility = some .foreground := by
              have hf : nativeState = .foreground := Decidable.not_not.mp hfront
              rw [hn] at hnative
              exact hnative.trans (congrArg some hf)
            have hstates : top.state ≠ .foreground ∧
                (top.state = .background → top.isTerminated = false) := by
              simpa [launcherReplySends, htoken, hnative', hfound, hne] using hok
            rw [if_neg hstates.1]
            split
            · obtain ⟨-, hqueue⟩ :=
                deleteRecordInfo_keeps (m.setAbilityStateAndNotify token .foreground) top.token
              refine ⟨Nat.le_trans (deleteRecordInfo_sent _ _) hstay.1, fun hq => ?_⟩
              show ∀ o ∈ ((m.setAbilityStateAndNotify token .foreground).deleteRecordInfo
                top.token).abilityOperation, o.WellFormed
              rw [hqueue]
              exact hstay.2 hq
            · next hback =>
              rw [if_neg (by simp [hstates.2 (Decidable.not_not.mp hback)])]
              exact hstay
          · exact hstay
    · exact hstay

/-! ## Runs -/

/-- No step terminates the launcher over an application in the background, and no foreground
reply of the launcher sends. -/
def overlapCondition : Condition where
  operation _ m o :=
    (o.msgId = .terminateAbility → o.token.toUInt16 = launcherToken → resumesTop m = false) ∧
    (o.msgId = .terminateMission →
      launcherToken ∈ m.abilityList.getAbilityList o.token.toUInt32 → resumesTop m = false) ∧
    (o.msgId = .terminateAppByBundleName → stopsLauncher m o.want = true → resumesTop m = false)
  reply _ m token state := launcherReplySends m token state = false

theorem dispatch_leaves (cfg : Config) (env : Env) {m : Manager} {o : AbilityOperation}
    (hlock : m.isAppScheduling = false) (hwf : m.QueueWellFormed) (ho : o.WellFormed)
    (hsent : m.sent = []) (hok : overlapCondition.operation env m o) :
    Leaves (OneAtATime []) ((operations cfg).dispatch env m o) := by
  obtain ⟨hterm, hmission, hstop⟩ := hok
  unfold Operations.dispatch
  cases hid : o.msgId with
  | startAbility => exact startAbility_leaves cfg env hlock hwf hsent _
  | terminateAbility => exact terminateAbility_leaves env hlock hwf hsent (hterm hid)
  | terminateApp => exact forceStopBundle_leaves env hlock hwf hsent _
  | terminateMission => exact terminateMission_leaves env hlock hwf hsent (hmission hid)
  | terminateAppByBundleName => exact forceStop_leaves env hlock hwf hsent (hstop hid)
  | terminateAll =>
    obtain ⟨want, hwant⟩ := Option.isSome_iff_exists.mp (ho hid)
    simp only [hwant]
    exact terminateAll_leaves env hlock hwf hsent _
  | other _ => exact leaves_free hwf hsent

/-- A handled reply that the lock outlives. -/
theorem OneAtATime.handled {rs : List (UInt16 × SliteAbilityState)} {m m' : Manager}
    {x : UInt16 × SliteAbilityState} (h : OneAtATime (x :: rs) m) (hcalls : Calls m (errOk, m')) :
    OneAtATime rs m' := by
  have hlock : m'.isAppScheduling = m.isAppScheduling := hcalls.lock
  have hsent : m'.sent.length ≤ m.sent.length + 1 := hcalls.sent
  simp only [OneAtATime, inFlight, List.length_append, List.length_map, List.length_cons] at h ⊢
  rw [hlock]
  omega

/-- What one step may send, over whole runs. -/
theorem oneAtATime_keeps (cfg : Config) :
    Keeps (singleTask cfg) overlapCondition OneAtATime where
  queue _ h := h
  enter r h := by
    unfold Request.enter
    split <;> exact h
  flag _ h := h
  defers := operations_defers cfg
  operation env m o h hlock hwf ho hok := by
    obtain ⟨hsent, rfl⟩ := h.free hlock
    exact dispatch_leaves cfg env hlock hwf ho hsent hok
  answer := by
    intro rs m i msg left hmsg _ h
    have hi : i < m.sent.length := (List.getElem?_eq_some_iff.mp hmsg).1
    have hlen : (m.sent.eraseIdx i).length = m.sent.length - 1 := List.length_eraseIdx_of_lt hi
    have hlock : (leaveSavedData m msg left).isAppScheduling = m.isAppScheduling := by
      unfold leaveSavedData
      split <;> rfl
    simp only [OneAtATime, inFlight, List.length_append, List.length_map, List.length_cons,
      List.length_nil, hlen, hlock] at h ⊢
    omega
  foreground := by
    intro rs env m token h hwf hok
    obtain ⟨hsent, hqueue⟩ := onForegroundDone_sent cfg env hok
    refine ⟨?_, hqueue hwf⟩
    -- the reply was all there was, and nothing takes its place
    have hrest : m.sent.length + rs.length ≤ 0 := by
      simp only [OneAtATime, inFlight, List.length_append, List.length_map, List.length_cons] at h
      split at h <;> omega
    have hsent' : (onForegroundDone cfg env m token).sent.length + rs.length ≤ 0 :=
      Nat.le_trans (Nat.add_le_add_right hsent _) hrest
    show (inFlight rs (onForegroundDone cfg env m token).unlock).length ≤ 0
    simpa [inFlight, Manager.unlock] using hsent'
  reply := by
    intro rs envs m token state hstate h hwf _
    cases state with
    | foreground => exact absurd rfl hstate
    | initial => exact ⟨h.handled (onCreateDone_calls _ m token), (onCreateDone_calls _ m token).queue hwf⟩
    | background =>
      exact ⟨h.handled (onBackgroundDone_calls _ m token), (onBackgroundDone_calls _ m token).queue hwf⟩
    | uninitialized =>
      exact ⟨h.handled (onDestroyDone_calls cfg _ m token),
        (onDestroyDone_calls cfg _ m token).queue hwf⟩
    | unknown => exact ⟨h.handled (Calls.refl m errOk), hwf⟩

/-- Operations do not overlap in a run of the single-task build whose steps meet
`overlapCondition`, from a launcher that was started before its native ability was
installed. -/
theorem singleTask_noOverlap {cfg : Config} {s : System}
    (h : Reached (System.next (singleTask cfg)) (fun s e => s.meets (singleTask cfg) overlapCondition e)
      (fun s => Booted cfg s ∧ s.quiet) s) : s.noOverlap := by
  have hinit : ∀ s, Booted cfg s ∧ s.quiet → OneAtATime s.replies s.manager ∧
      s.manager.QueueWellFormed := by
    rintro s ⟨hbooted, hsent, hreplies⟩
    refine ⟨?_, fun o ho => hbooted.settled.wellFormed o ho⟩
    simp [OneAtATime, inFlight, hsent, hreplies]
  obtain ⟨hone, -⟩ := (oneAtATime_keeps cfg).reached hinit h
  exact fun hlock => hone.free hlock

theorem start_overlap_meets : idleSystem.meets (singleTask { abilityListCapacity := 3 })
    overlapCondition (.request (startOf (cstr "a")) fun _ => .working) := by
  intro _ o ho
  obtain rfl := Option.some.inj ho
  exact ⟨⟨(fun h => nomatch h), (fun h => nomatch h), fun h => nomatch h⟩,
    fun h => absurd h (by decide)⟩

theorem singleTask_noOverlap_after_start :
    ∃ s, System.next (singleTask { abilityListCapacity := 3 }) idleSystem
        (.request (startOf (cstr "a")) fun _ => .working) = some s ∧ s.noOverlap :=
  ⟨_, rfl, singleTask_noOverlap
    (.step (.init ⟨idleSystem_booted, by decide⟩) start_overlap_meets rfl)⟩

/-- An application is started and terminated: the launcher comes back to the front, its reply
has the application destroyed, and the lock is given back. -/
def terminateEvents : List Event :=
  let answered : List Event := [.answer 0 {}, .reply fun _ => .working]
  [.request (startOf (cstr "a")) fun _ => .working] ++ answered ++ answered ++ answered ++
    [.request (.terminateAbility 1) fun _ => .working] ++ answered ++ answered

/-- Terminating an application leaves its destroy in flight while the manager is free. -/
theorem singleTask_terminate_overlaps :
    ∃ s, Reached (System.next (singleTask { abilityListCapacity := 3 })) (fun _ _ => True)
      (Booted { abilityListCapacity := 3 }) s ∧ ¬ s.noOverlap := by
  have h : (run (System.next (singleTask { abilityListCapacity := 3 })) idleSystem
      terminateEvents).map (fun s => decide s.noOverlap) = some false := by decide
  obtain ⟨s, hs, hoverlap⟩ := Option.map_eq_some_iff.mp h
  exact ⟨s, Reached.of_run (.init idleSystem_booted) _ hs, of_decide_eq_false hoverlap⟩

end AbilityLite.Slite.SingleTask
