import AbilityLite.Slite.Invariant
import AbilityLite.Slite.MultiTasksRuns

/-
  Application threads of the multi-task build.

  Whatever strands a switch, at most one ability has a thread (`Threads`): the
  manager is free and only the top may have one, or a switch is under way, or the
  lock is held for ever with nobody running. What breaks this is a forced stop of
  the top while a token is pending that is not that of the ability below: the
  pending ability is launched where it is, and the next launch finds it running.
-/

namespace AbilityLite.Slite.MultiTasks
open Manager AbilityList

/-! ## The invariant -/

/-- Nobody has a thread and nothing is in flight. -/
structure Halted (rs : List (UInt16 × SliteAbilityState)) (m : Manager) : Prop where
  noReplies : rs = []
  noSent : m.sent = []
  noThread : ∀ r ∈ m.abilityList, r.abilityThread = none

/-- Free with only the top running, in a switch, or locked for ever. -/
inductive Threads (cfg : Config) (rs : List (UInt16 × SliteAbilityState)) (m : Manager) : Prop
  | free (hlock : m.isAppScheduling = false) (h : Idle cfg rs m)
  | switching (hlock : m.isAppScheduling = true) (h : Busy cfg rs m)
  | halted (hlock : m.isAppScheduling = true) (h : Halted rs m)

/-- At most one listed ability has a thread. -/
def AtMostOneThread (l : AbilityList) : Prop :=
  ∀ r ∈ l, ∀ r' ∈ l, r.abilityThread.isSome → r'.abilityThread.isSome → r = r'

section
variable {cfg : Config} {rs : List (UInt16 × SliteAbilityState)} {m : Manager}

theorem OnlyThread.atMostOne {l : AbilityList} {token : UInt16} (h : OnlyThread token l)
    (hd : (l.map (·.token)).Nodup) : AtMostOneThread l := by
  have key : ∀ r ∈ l, r.abilityThread.isSome → r.token = token := by
    intro r hr hthread
    refine Decidable.byContradiction fun hne => ?_
    rw [h r hr hne] at hthread
    cases hthread
  intro r hr r' hr' ht ht'
  have hget := get_of_mem hd hr
  rw [(key r hr ht).trans (key r' hr' ht').symm, get_of_mem hd hr', Option.some.injEq] at hget
  exact hget.symm

theorem Idle.onlyThread (h : Idle cfg rs m) {top : AbilityRecord} {rest : AbilityList}
    (hl : m.abilityList = top :: rest) : OnlyThread top.token m.abilityList := by
  intro r hr hne
  rw [hl] at hr
  rcases List.mem_cons.mp hr with rfl | hr
  · exact absurd rfl hne
  · exact h.thread_below hl r hr

theorem Busy.onlyThread (h : Busy cfg rs m) : ∃ token, OnlyThread token m.abilityList := by
  obtain ⟨-, x, -, hphase⟩ := h
  rcases hphase with ⟨-, hl⟩ | ⟨-, he⟩
  · exact ⟨x.1, hl.onlyThread⟩
  · exact ⟨x.1, he.onlyThread⟩

theorem Threads.atMostOne (h : Threads cfg rs m) : AtMostOneThread m.abilityList := by
  cases h with
  | free _ h =>
    cases hl : m.abilityList with
    | nil => exact fun r hr => absurd hr List.not_mem_nil
    | cons top rest =>
      rw [← hl]
      exact (h.onlyThread hl).atMostOne h.shape.nodup
  | switching _ h =>
    obtain ⟨token, honly⟩ := h.onlyThread
    exact honly.atMostOne h.shape.nodup
  | halted _ h =>
    intro r hr r' _ ht
    rw [h.noThread r hr] at ht
    cases ht

/-! ## Operations -/

theorem threads_of_settles {x : ErrCode × Manager} (h : Settles (Idle cfg rs) (Busy cfg rs) m x)
    (hwf : m.QueueWellFormed) : Leaves (Threads cfg rs) x := by
  obtain ⟨hqueue, hgoes, hstops⟩ := h
  refine ⟨?_, fun hx => .free rfl (hgoes hx), fun hx => ?_⟩
  · exact wellFormed_of_queue hwf hqueue
  · have hlock : x.2.isAppScheduling = true := by
      simp only [goesOn, not_or, Bool.not_eq_false] at hx
      exact hx.2
    exact .switching hlock (hstops hx)

/-- An operation that succeeds and leaves the manager as it may be. -/
theorem Threads.leaves {m' : Manager} (h : Threads cfg rs m') (hqueue : m'.QueueWellFormed) :
    Leaves (Threads cfg rs) (errOk, m') := by
  refine ⟨hqueue, fun hx => ?_, fun _ => h⟩
  have hlock : m'.isAppScheduling = false := hx.resolve_left fun hne => hne rfl
  rw [show (errOk, m').2.unlock = m' from Manager.unlock_eq hlock]
  exact h

/-- An operation that succeeds and keeps the lock with nobody running. -/
theorem leaves_halted {m' : Manager} (hqueue : m'.QueueWellFormed)
    (hlock : m'.isAppScheduling = true) (h : Halted rs m') : Leaves (Threads cfg rs) (errOk, m') :=
  (Threads.halted hlock h).leaves hqueue

/-- An operation that gives the lock back with nobody running. -/
theorem leaves_idle {x : ErrCode × Manager} (hqueue : x.2.QueueWellFormed) (hx : goesOn x)
    (h : Idle cfg rs x.2) : Leaves (Threads cfg rs) x :=
  ⟨hqueue, fun _ => .free rfl (h.locked false), fun hn => absurd hx hn⟩

/-- The launch of the pending ability of a list leaves it where it is, below the top. -/
def launchesBuried (env : Env) (pendingToken : UInt16) (l : AbilityList) : Bool :=
  pendingToken ≠ 0 && env.initAbilityThread pendingToken = errOk &&
    (l.tail.map (·.token)).contains pendingToken

/-- The launch at the end of a destroy, with nobody running. -/
theorem launchNext_threads {env : Env} (hacc : env.Accepts) (hs : Shape cfg m) (hsent : m.sent = [])
    (hnone : ∀ r ∈ m.abilityList, r.abilityThread = none) (hlock : m.isAppScheduling = true)
    (hok : launchesBuried env m.pendingToken m.abilityList = false) :
    Threads cfg [] (launchNext cfg env m) ∧
      (launchNext cfg env m).abilityOperation = m.abilityOperation := by
  have hhalted : Halted [] m := ⟨rfl, hsent, hnone⟩
  cases hl : m.abilityList with
  | nil =>
    rcases launchNext_nil cfg env hl with heq | heq
    · rw [heq]
      exact ⟨.halted hlock hhalted, rfl⟩
    · rw [heq]
      exact ⟨.halted hlock ⟨rfl, hsent, hnone⟩, rfl⟩
  | cons next rest =>
    by_cases hpending : m.pendingToken = 0 ∨ m.pendingToken = next.token
    · -- the top is launched
      have hland : Landed cfg m next rest := ⟨hs, hl, hl ▸ hnone, hsent, hpending⟩
      by_cases hinit : env.initAbilityThread next.token = errOk
      · obtain ⟨hb, hlock', hq⟩ := launchNext_created hacc hland hinit
        exact ⟨.switching (hlock'.trans hlock) hb, hq⟩
      · by_cases hrest : m.pendingToken = 0 ∨ rest ≠ []
        · obtain ⟨hi, hlock', hq⟩ := launchNext_failed hacc hland hinit hrest
          exact ⟨.free hlock' hi, hq⟩
        · -- it was the only one, and the lock stays
          obtain ⟨hp, hrest⟩ := not_or.mp hrest
          obtain rfl := Decidable.not_not.mp hrest
          rw [launchNext_lastFailed_eq hacc hland hinit hp]
          exact ⟨.halted hlock ⟨rfl, hsent, fun r hr => absurd hr List.not_mem_nil⟩, rfl⟩
    · -- the pending ability is not on top
      obtain ⟨hp, hne⟩ := not_or.mp hpending
      unfold launchNext
      rw [if_pos hp]
      cases hget : m.abilityList.get m.pendingToken with
      | none => exact ⟨.halted hlock hhalted, rfl⟩
      | some r =>
        obtain ⟨hmem, hrt⟩ := get_eq_some hget
        have hinit : env.initAbilityThread r.token ≠ errOk := by
          intro hinit
          have hbelow : r ∈ rest := by
            rw [hl] at hmem
            refine (List.mem_cons.mp hmem).resolve_left fun e => ?_
            exact hne (hrt.symm.trans (congrArg _ e))
          rw [hrt] at hinit
          have hnot : ∀ x ∈ rest, x.token ≠ m.pendingToken := by
            simpa [launchesBuried, hp, hinit, hl] using hok
          exact hnot r hbelow hrt
        have hcreate : createAppTask env m r true = (env.initAbilityThread r.token,
            m.modify r.token fun r => { r with abilityThread := none }) := by
          simp only [createAppTask, ne_eq, hinit, not_false_eq_true, if_true]
        -- it is dropped, and the start of the top finds the top on top
        have hsub : ((m.abilityList.modify r.token fun r => { r with abilityThread := none }).erase
            m.pendingToken) = m.abilityList.erase m.pendingToken := by
          rw [hrt]
          exact erase_modify (fun _ => rfl) hs.nodup
        have hlist : m.abilityList.erase m.pendingToken = next :: AbilityList.erase rest m.pendingToken := by
          rw [hl]
          exact erase_below rest fun e => hne e.symm
        have hstart := startAbilityRecord_top cfg env
          (m := { m with
            abilityList := m.abilityList.erase m.pendingToken
            isAppScheduling := false }) hlist rfl (hs.data next (by simp [hl]))
        have htop : Manager.getTopAbility
            { m with abilityList := m.abilityList.erase m.pendingToken } = some next :=
          getTopAbility_cons hlist
        refine ⟨.free ?_ (Idle.of_noThread ?_ rfl ?_ ?_), ?_⟩
        all_goals simp only [hcreate, ne_eq, hinit, not_false_eq_true, if_true, Manager.erase,
          Manager.modify, hsub, htop, hstart]
        · exact hs.sublist (erase_sublist _ _) rfl
        · exact hsent
        · exact fun x hx => hnone x ((erase_sublist _ _).subset hx)

/-- A forced stop of the top that launches the pending ability where it is. -/
def forceStopLaunchesBuried (env : Env) (m : Manager) (token : UInt16) : Bool :=
  m.getTopAbility.any (·.token = token) && launchesBuried env m.pendingToken m.abilityList.tail

theorem forceStopBundle_threads {env : Env} (hacc : env.Accepts) (h : Idle cfg rs m)
    (hlock : m.isAppScheduling = false) (hwf : m.QueueWellFormed) {token : UInt16}
    (hok : forceStopLaunchesBuried env m token = false) :
    Leaves (Threads cfg rs) (forceStopBundle cfg env m token) := by
  by_cases hnil : m.abilityList = []
  · have htop : getTopAbility { m with isAppScheduling := true } = none := getTopAbility_nil hnil
    simp only [forceStopBundle, hlock, Bool.false_eq_true, if_false, htop]
    refine leaves_halted hwf rfl ⟨h.noReplies, h.noSent, fun r hr => ?_⟩
    exact absurd hr (by simp [Manager.crash, hnil])
  · obtain ⟨top, rest, hl⟩ := List.exists_cons_of_ne_nil hnil
    by_cases htoken : top.token = token
    · subst htoken
      obtain ⟨m', heq, hs', hsent', htokens, hnone, -, hp', hlock', hq'⟩ :=
        forceStopBundle_top_eq env h hlock hl
      have hok' : launchesBuried env m'.pendingToken m'.abilityList = false := by
        rw [← hok]
        simp only [forceStopLaunchesBuried, getTopAbility_cons hl, Option.any_some, decide_true,
          Bool.true_and, launchesBuried, hp', hl, List.tail_cons, List.map_tail, htokens]
      obtain ⟨hthreads, hq⟩ := launchNext_threads hacc hs' hsent' hnone hlock' hok'
      have hrs := h.noReplies
      subst hrs
      rw [heq]
      refine hthreads.leaves ?_
      exact wellFormed_of_queue hwf (hq.trans hq')
    · rw [forceStopBundle_below hlock hl htoken]
      exact threads_of_settles (terminateAbilityWant_settles hacc (h.locked true) rfl token none) hwf

/-! ## Starts that strand -/

/-- The bundle manager gives a path for every application that is not native. -/
theorem queryAbilitySvcInfo_path {env : Env} (hbms : cfg.miniBms = true) {bundleName : CString}
    {want : Want} {info : AbilitySvcInfo} (h : queryAbilitySvcInfo cfg env bundleName want = .ok info) :
    ¬ (info.path.isNone && !info.isNativeApp) = true := by
  unfold queryAbilitySvcInfo at h
  rw [if_pos hbms] at h
  split at h
  · cases h
    simp
  · simp only at h
    split at h
    · next hvalid =>
      cases h
      unfold isValidAbility at hvalid
      split at hvalid
      · next hpath => simp [strdup, hpath]
      · cases hvalid
    · cases h

/-- The token that the next start of an application takes is not the launcher's and not
listed, as before the counter wraps. -/
def freshToken (m : Manager) : Prop :=
  (generateToken m).1 ≠ launcherToken ∧ m.abilityList.get (generateToken m).1 = none

instance (m : Manager) : Decidable (freshToken m) := inferInstanceAs (Decidable (_ ∧ _))

/-- A new record that has to wait for a pending token: with nobody running it waits for ever. -/
theorem preCheckStartAbility_halted {env : Env} (hrs : rs = []) (hsent : m.sent = [])
    (hnone : ∀ r ∈ m.abilityList, r.abilityThread = none) (hlock : m.isAppScheduling = true)
    (hwf : m.QueueWellFormed) (hpending : m.pendingToken ≠ 0) {info : AbilitySvcInfo}
    {bundleName : CString} (hpath : ¬ (info.path.isNone && !info.isNativeApp) = true)
    (hname : m.abilityList.getByName bundleName = none) :
    Leaves (Threads cfg rs) (preCheckStartAbility cfg env m info bundleName) := by
  unfold preCheckStartAbility
  simp only [if_neg hpath, hname, if_pos hpending]
  obtain ⟨mission, k, hmission⟩ := generateMission_eq m info
  simp only [hmission]
  obtain ⟨-, hrth, -⟩ := newRecord_spec info bundleName m.pendingToken mission
  generalize newRecord info bundleName m.pendingToken mission = record at hrth ⊢
  have hadd : ({ m with nextMission := k } : Manager).add cfg record =
      { m with
        nextMission := k
        abilityList := (m.abilityList.add cfg.abilityListCapacity record).1
        sent := [] } := by
    simp only [Manager.add, releaseAll_eq, hsent, List.filter_nil]
  rw [hadd]
  simp only [if_neg hpending]
  refine leaves_halted hwf hlock ⟨hrs, rfl, fun r hr => ?_⟩
  have hevict : ∀ x ∈ m.abilityList.evict cfg.abilityListCapacity, x.abilityThread = none :=
    fun x hx => hnone x ((evict_sublist _ _).subset hx)
  cases hg : (m.abilityList.evict cfg.abilityListCapacity).get record.token with
  | none =>
    simp only [add_of_fresh hg] at hr
    rcases List.mem_cons.mp hr with rfl | hr
    · exact hrth
    · exact hevict r hr
  | some y =>
    simp only [add_of_listed (show Option.isSome _ = true by rw [hg]; rfl)] at hr
    exact hevict r hr

/-- A start over a top without a thread, or of the first ability while a token is pending. -/
theorem startAbilityInfo_halted {env : Env} (h : Idle cfg rs m)
    (hlock : m.isAppScheduling = true) (hwf : m.QueueWellFormed) {bundleName : CString}
    {info : AbilitySvcInfo} (hbundle : info.bundleName = some bundleName)
    (hname : m.abilityList.getByName bundleName = none)
    (hpath : ¬ (info.path.isNone && !info.isNativeApp) = true)
    (htoken : (generateToken m).1 ≠ launcherToken)
    (hfirst : m.getTopAbility = none → m.pendingToken ≠ 0)
    (hover : ∀ top, m.getTopAbility = some top → top.abilityThread = none) :
    Leaves (Threads cfg rs) (startAbilityInfo cfg env m info) := by
  unfold startAbilityInfo
  simp only [hbundle]
  split
  · exact leaves_idle hwf (.inr rfl) (h.locked false)
  · cases htop : m.getTopAbility with
    | none =>
      simp only
      have hnil : m.abilityList = [] := List.head?_eq_none_iff.mp htop
      split
      · exact leaves_idle hwf (.inl (show paramCheckError ≠ errOk by decide)) h
      · exact preCheckStartAbility_halted h.noReplies h.noSent
          (fun r hr => absurd hr (by simp [hnil])) hlock hwf (hfirst htop) hpath hname
    | some top =>
      simp only
      have hhalt := hover top htop
      obtain ⟨rest, hl⟩ := List.head?_eq_some_iff.mp htop
      have hother : bundleName ≠ top.appName := by
        intro e
        rw [hl, e, getByName_top] at hname
        cases hname
      rw [if_neg hother]
      split
      · exact leaves_idle hwf (.inl (show paramCheckError ≠ errOk by decide)) h
      · obtain ⟨f, hf, hmark, hkeeps⟩ := markTop_eq env m top
        rw [hmark, sendMsgToAbilityThread_none hhalt]
        refine preCheckStartAbility_halted
          (m := { m with
            abilityList := m.abilityList.modify top.token f
            nextToken := (generateToken m).2.nextToken
            pendingToken := (generateToken m).1 })
          h.noReplies h.noSent ?_ hlock hwf htoken hpath ?_
        · intro r hr
          obtain ⟨x, hx, rfl⟩ := List.mem_map.mp hr
          have hnone : x.abilityThread = none := by
            rw [hl] at hx
            rcases List.mem_cons.mp hx with rfl | hx
            · exact hhalt
            · exact h.thread_below hl x hx
          split
          · rw [(hkeeps x).2.1]
            exact hnone
          · exact hnone
        · show AbilityList.getByName (m.abilityList.modify top.token f) bundleName = none
          rw [getByName_modify fun r => (hkeeps r).2.2.2, hname]
          rfl

theorem startAbility_threads {env : Env} (hcap : 3 ≤ cfg.abilityListCapacity)
    (hbms : cfg.miniBms = true) (hacc : env.Accepts) (hasked : env.AnswersAsked)
    (h : Idle cfg rs m) (hlock : m.isAppScheduling = false) (hwf : m.QueueWellFormed)
    {want : Option Want} (hfresh : (newApp cfg env m want).isSome → freshToken m) :
    Leaves (Threads cfg rs) (startAbility cfg env m want) := by
  have hcases := startAbility_cases cfg env hlock want
  generalize startAbility cfg env m want = x at hcases ⊢
  cases hcases with
  | ends ret remote hnone => exact leaves_idle hwf (.inr rfl) (h.congr rfl rfl rfl rfl)
  | bringsUp w r top hmem htop hne hup =>
    obtain ⟨rest, hl⟩ := List.head?_eq_some_iff.mp htop
    exact threads_of_settles
      (bringUp_settles hacc (h.locked true) rfl hl (get_of_mem h.shape.nodup hmem) hne w) hwf
  | startsNew w bundleName info happ hbundle hname hquery =>
    obtain ⟨htoken, hnew⟩ := hfresh (by rw [happ]; rfl)
    have hanswer := queryAbilitySvcInfo_bundleName hasked hbundle hquery
    have hpath := queryAbilitySvcInfo_path hbms hquery
    cases htop : m.getTopAbility with
    | none =>
      by_cases hp : m.pendingToken = 0
      · refine threads_of_settles (m := { m with isAppScheduling := true })
          (startAbilityInfo_settles hcap hacc (h.locked true) rfl hanswer hname fun _ => ?_) hwf
        have htop' : Manager.getTopAbility { m with isAppScheduling := true } = none := htop
        rw [htop']
        exact fun _ => hp
      · refine startAbilityInfo_halted (h.locked true) rfl hwf hanswer hname hpath htoken
          (fun _ => hp) fun top htop' => ?_
        rw [show m.getTopAbility = some top from htop'] at htop
        cases htop
    | some top =>
      by_cases hthread : top.abilityThread = none
      · refine startAbilityInfo_halted (h.locked true) rfl hwf hanswer hname hpath htoken
          (fun htop' => ?_) fun top' htop' => ?_
        · rw [show m.getTopAbility = none from htop'] at htop
          cases htop
        · rw [show m.getTopAbility = some top' from htop', Option.some.injEq] at htop
          exact htop ▸ hthread
      · refine threads_of_settles (m := { m with isAppScheduling := true })
          (startAbilityInfo_settles hcap hacc (h.locked true) rfl hanswer hname fun _ => ?_) hwf
        have htop' : Manager.getTopAbility { m with isAppScheduling := true } = some top := htop
        have hpath' : (info.path.isNone && !info.isNativeApp) = false := Bool.eq_false_iff.mpr hpath
        have hthread' : top.abilityThread.isNone = false := by
          simpa [Option.isSome_iff_ne_none] using hthread
        have htake : cannotTakeOver m top info = false := by
          simp [cannotTakeOver, hpath', hthread', htoken, hnew]
        rw [htop']
        exact fun _ => htake

end

/-! ## Where `CreateAppTask` is called -/

/-- The stopped top that a start calls `CreateAppTask` on, when the bundle manager answers with
its name. The other call of a start is on a record that it has just made. -/
def restartedTop (cfg : Config) (env : Env) (m : Manager) (want : Option Want) :
    Option AbilityRecord :=
  (newApp cfg env m want).bind fun app => m.getTopAbility.filter fun top =>
    app.2.bundleName = some top.appName && top.state = .stop

/-- The record that a forced stop of the top calls `CreateAppTask` on. -/
def forceStopLaunches (m : Manager) (token : UInt16) : Option AbilityRecord :=
  (m.getTopAbility.filter (·.token = token)).bind fun _ =>
    destroyLaunches (m.modify token fun r => { r with isTerminated := true }) token

/-- `CreateAppTask` is called on no record that has a thread. -/
def createsOnce (cfg : Config) : Condition where
  operation env m o :=
    (o.msgId = .startAbility → ∀ r ∈ restartedTop cfg env m o.want, r.abilityThread = none) ∧
    (o.msgId = .terminateApp → ∀ r ∈ forceStopLaunches m o.token.toUInt16, r.abilityThread = none)
  reply _ m token state :=
    state = .uninitialized → ∀ r ∈ destroyLaunches m token, r.abilityThread = none

theorem launched_noThread {m : Manager} (hnone : ∀ r ∈ m.abilityList, r.abilityThread = none) :
    ∀ r ∈ launched m, r.abilityThread = none := by
  intro r hr
  unfold launched at hr
  split at hr
  · exact hnone r (get_eq_some hr).1
  · exact hnone r (List.mem_of_head? hr)

/-! ## Runs -/

/-- The steps of a run keep to one thread when every queue takes its messages, the bundle
manager answers for the bundle it is asked for, new tokens are new, and no forced stop
launches a buried ability. -/
def threadCondition (cfg : Config) : Condition where
  operation env m o := env.Accepts ∧ env.AnswersAsked ∧
    (o.msgId = .startAbility → (newApp cfg env m o.want).isSome → freshToken m) ∧
    (o.msgId = .terminateApp → forceStopLaunchesBuried env m o.token.toUInt16 = false)
  reply env _ _ _ := env.Accepts

section
variable {cfg : Config} {rs : List (UInt16 × SliteAbilityState)} {m : Manager}

theorem dispatch_threads (hcap : 3 ≤ cfg.abilityListCapacity) (hbms : cfg.miniBms = true) {env : Env}
    (h : Idle cfg rs m) (hlock : m.isAppScheduling = false) (hwf : m.QueueWellFormed)
    {o : AbilityOperation} (ho : o.WellFormed) (hok : (threadCondition cfg).operation env m o) :
    Leaves (Threads cfg rs) ((operations cfg).dispatch env m o) := by
  obtain ⟨hacc, hasked, hstart, hstop⟩ := hok
  unfold Operations.dispatch
  cases hid : o.msgId with
  | startAbility => exact startAbility_threads hcap hbms hacc hasked h hlock hwf (hstart hid)
  | terminateAbility => exact threads_of_settles (terminateAbility_settles hacc h hlock _) hwf
  | terminateApp => exact forceStopBundle_threads hacc h hlock hwf (hstop hid)
  | terminateMission => exact threads_of_settles (terminateMission_settles h hlock _) hwf
  | terminateAppByBundleName => exact threads_of_settles (forceStop_settles hacc h hlock _) hwf
  | terminateAll =>
    obtain ⟨want, hwant⟩ := Option.isSome_iff_exists.mp (ho hid)
    simp only [hwant]
    exact threads_of_settles (terminateAll_settles h hlock _) hwf
  | other _ => exact threads_of_settles (settles_idle rfl (.inr hlock) h) hwf

/-- The reply to a destroy, in a switch. -/
theorem onDestroyDone_threads {env : Env} (hacc : env.Accepts) (hs : Shape cfg m)
    (hsent : m.sent = []) (hlock : m.isAppScheduling = true) {token : UInt16} (h : Leaving m token) :
    Threads cfg [] (onDestroyDone cfg env m token) ∧
      (onDestroyDone cfg env m token).abilityOperation = m.abilityOperation ∧
      ∀ r ∈ destroyLaunches m token, r.abilityThread = none := by
  obtain ⟨r, hr, -, next, rest, hnext, hpending⟩ := h.listed
  obtain ⟨m', hm', hlaunched, hs', hsent', htokens, hnone, -, hp', hlock', hq'⟩ :=
    onDestroyDone_released env hs hsent hr h.onlyThread
  have hok : launchesBuried env m'.pendingToken m'.abilityList = false := by
    rw [hnext, List.map_cons] at htokens
    have hd := hs'.nodup
    rw [htokens, List.nodup_cons] at hd
    rcases hpending with hp | hp
    · simp [launchesBuried, hp', hp]
    · have hnot : (rest.map (·.token)).contains next.token = false := by
        simpa using hd.1
      simp only [launchesBuried, hp', hp, List.map_tail, htokens, List.tail_cons, hnot, Bool.and_false]
  obtain ⟨hthreads, hq⟩ := launchNext_threads hacc hs' hsent' hnone (hlock'.trans hlock) hok
  rw [hm', hlaunched]
  exact ⟨hthreads, hq.trans hq', launched_noThread hnone⟩

end

/-- The invariant over whole runs. -/
theorem threads_keeps {cfg : Config} (hcap : 3 ≤ cfg.abilityListCapacity)
    (hbms : cfg.miniBms = true) : Keeps (multiTasks cfg) (threadCondition cfg) (Threads cfg) where
  queue q h := by
    cases h with
    | free hlock h => exact .free hlock (h.congr rfl rfl rfl rfl)
    | switching hlock h => exact .switching hlock (h.congr rfl rfl rfl rfl)
    | halted hlock h => exact .halted hlock ⟨h.noReplies, h.noSent, h.noThread⟩
  enter r h := by
    unfold Request.enter
    split
    · cases h with
      | free hlock h => exact .free hlock (h.congr rfl rfl rfl rfl)
      | switching hlock h => exact .switching hlock (h.congr rfl rfl rfl rfl)
      | halted hlock h => exact .halted hlock ⟨h.noReplies, h.noSent, h.noThread⟩
    · exact h
  flag b h := by
    cases h with
    | free hlock h => exact .free hlock (h.congr rfl rfl rfl rfl)
    | switching hlock h => exact .switching hlock (h.congr rfl rfl rfl rfl)
    | halted hlock h => exact .halted hlock ⟨h.noReplies, h.noSent, h.noThread⟩
  defers := operations_defers cfg
  operation env m o h hlock hwf ho hok := by
    cases h with
    | free _ h => exact dispatch_threads hcap hbms h hlock hwf ho hok
    | switching hlock' _ => simp [hlock'] at hlock
    | halted hlock' _ => simp [hlock'] at hlock
  answer left hmsg _ h := by
    cases h with
    | free _ h =>
      rw [h.noSent] at hmsg
      cases hmsg
    | switching hlock h => exact .switching ((leaveSavedData_lock _ _ _).1.trans hlock) (h.answered left hmsg)
    | halted _ h =>
      rw [h.noSent] at hmsg
      cases hmsg
  foreground env m token h hwf _ := by
    cases h with
    | free _ h => exact absurd h.noReplies (List.cons_ne_nil _ _)
    | switching _ h =>
      obtain ⟨hidle, hqueue, -⟩ := h.foreground
      refine ⟨.free rfl (hidle.locked false), ?_⟩
      exact wellFormed_of_queue hwf hqueue
    | halted _ h => exact absurd h.noReplies (List.cons_ne_nil _ _)
  reply envs m token state hstate h hwf hacc := by
    cases h with
    | free _ h => exact absurd h.noReplies (List.cons_ne_nil _ _)
    | halted _ h => exact absurd h.noReplies (List.cons_ne_nil _ _)
    | switching hlock hb =>
      obtain ⟨hsent, rfl, hphase⟩ := hb.reply
      cases state with
      | foreground => exact absurd rfl hstate
      | initial =>
        obtain ⟨hb', hl, hq⟩ := onCreateDone_spec hacc hb.shape hsent (hphase.entering (.inl rfl))
        exact ⟨.switching (hl.trans hlock) hb', wellFormed_of_queue hwf hq⟩
      | background =>
        obtain ⟨hb', hl, hq⟩ := onBackgroundDone_spec hacc hb.shape hsent (hphase.leaving (.inl rfl))
        exact ⟨.switching (hl.trans hlock) hb', wellFormed_of_queue hwf hq⟩
      | uninitialized =>
        obtain ⟨ht, hq, -⟩ := onDestroyDone_threads hacc hb.shape hsent hlock (hphase.leaving (.inr rfl))
        exact ⟨ht, wellFormed_of_queue hwf hq⟩
      | unknown => rcases hphase with ⟨h | h, -⟩ | ⟨h | h, -⟩ <;> cases h

theorem Booted.threads {cfg : Config} (hcap : 3 ≤ cfg.abilityListCapacity) {s : System}
    (h : Booted cfg s) : Threads cfg s.replies s.manager ∧ s.manager.QueueWellFormed := by
  have hs := h.settled hcap
  refine ⟨?_, hs.wellFormed⟩
  cases hs with
  | idle hlock _ hidle => exact .free hlock hidle
  | busy hlock _ hb => exact .switching hlock hb

theorem newApp_eq_some {cfg : Config} {env : Env} {m : Manager} {want : Option Want}
    {bundleName : CString} {info : AbilitySvcInfo}
    (h : newApp cfg env m want = some (bundleName, info)) :
    ∃ w, w.element.bind (·.bundleName) = some bundleName ∧
      m.abilityList.getByName bundleName = none ∧
      queryAbilitySvcInfo cfg env bundleName w = .ok info := by
  unfold newApp at h
  cases want with
  | none => cases h
  | some want =>
    simp only at h
    cases helem : want.element with
    | none => simp [helem] at h
    | some element =>
      simp only [helem] at h
      cases hbundle : element.bundleName with
      | none => simp [hbundle] at h
      | some name =>
        simp only [hbundle] at h
        split at h
        · cases h
        · split at h
          · cases h
          · next hlisted =>
            cases hquery : queryAbilitySvcInfo cfg env name want with
            | error e => simp [hquery] at h
            | ok info' =>
              simp only [hquery, Option.some.injEq, Prod.mk.injEq] at h
              obtain ⟨rfl, rfl⟩ := h
              refine ⟨want, ?_, by simpa using hlisted, hquery⟩
              rw [helem, Option.bind_some, hbundle]

/-- The stopped top of the bundle's name is never what a start brings up. -/
theorem restartedTop_eq_none {cfg : Config} {env : Env} (hasked : env.AnswersAsked) (m : Manager)
    (want : Option Want) : restartedTop cfg env m want = none := by
  unfold restartedTop
  cases happ : newApp cfg env m want with
  | none => rfl
  | some app =>
    obtain ⟨bundleName, info⟩ := app
    obtain ⟨w, hw, hname, hquery⟩ := newApp_eq_some happ
    have hbundle := queryAbilitySvcInfo_bundleName hasked hw hquery
    rw [Option.bind_some, Option.filter_eq_none_iff]
    intro top htop
    obtain ⟨rest, hl⟩ := List.head?_eq_some_iff.mp htop
    have hother : bundleName ≠ top.appName := by
      intro e
      rw [hl, e, getByName_top] at hname
      cases hname
    simp [hbundle, hother]

theorem forceStopLaunches_noThread {cfg : Config} {rs : List (UInt16 × SliteAbilityState)}
    {m : Manager} (h : Idle cfg rs m) (token : UInt16) :
    ∀ r ∈ forceStopLaunches m token, r.abilityThread = none := by
  intro r hr
  unfold forceStopLaunches at hr
  rw [Option.mem_def, Option.bind_eq_some_iff] at hr
  obtain ⟨top, htop, hr⟩ := hr
  rw [Option.filter_eq_some_iff] at htop
  obtain ⟨htop, htoken⟩ := htop
  obtain rfl : top.token = token := by simpa using htoken
  obtain ⟨rest, hl⟩ := List.head?_eq_some_iff.mp htop
  have hd := h.shape.nodup
  rw [hl] at hd
  have hmark := modify_top (f := fun r : AbilityRecord => { r with isTerminated := true }) hd
  rw [← hl] at hmark
  have hs : Shape cfg (m.modify top.token fun r => { r with isTerminated := true }) :=
    h.shape.modify top.token (f := fun r => { r with isTerminated := true }) rfl (fun _ => rfl)
      (fun _ hr => hr) rfl
  have honly : OnlyThread top.token (m.abilityList.modify top.token
      fun r => { r with isTerminated := true }) := by
    rw [hmark]
    intro x hx hxt
    rcases List.mem_cons.mp hx with rfl | hx
    · exact absurd rfl hxt
    · exact h.thread_below hl x hx
  have hget : (m.abilityList.modify top.token fun r => { r with isTerminated := true }).get top.token =
      some { top with isTerminated := true } := by
    rw [hmark]
    exact get_top (r := { top with isTerminated := true }) rest
  obtain ⟨m', -, hlaunched, -, -, -, hnone, -⟩ :=
    onDestroyDone_released .working hs h.noSent hget honly
  rw [hlaunched] at hr
  exact launched_noThread hnone r hr

/-- In a run of the multi-task build with the bundle manager whose steps meet
`threadCondition`, at most one ability has a thread and `CreateAppTask` is called on none that
has. -/
theorem multiTasks_oneThread {cfg : Config} (hcap : 3 ≤ cfg.abilityListCapacity)
    (hbms : cfg.miniBms = true) {s : System}
    (h : Reached (System.next (multiTasks cfg))
      (fun s e => s.meets (multiTasks cfg) (threadCondition cfg) e) (Booted cfg) s) :
    AtMostOneThread s.manager.abilityList ∧
      ∀ e, s.meets (multiTasks cfg) (threadCondition cfg) e →
        s.meets (multiTasks cfg) (createsOnce cfg) e := by
  have k := threads_keeps hcap hbms
  have hs := k.reached (fun _ h => h.threads hcap) h
  refine ⟨hs.1.atMostOne, fun e hok => k.meets ?_ ?_ hs hok⟩
  · intro rs env m o h hlock _ hok
    cases h with
    | free _ hidle =>
      refine ⟨fun _ r hr => ?_, fun _ => forceStopLaunches_noThread hidle _⟩
      rw [restartedTop_eq_none hok.2.1] at hr
      cases hr
    | switching hlock' _ => simp [hlock'] at hlock
    | halted hlock' _ => simp [hlock'] at hlock
  · intro rs env m token state h hacc hstate
    subst hstate
    cases h with
    | free _ h => exact absurd h.noReplies (List.cons_ne_nil _ _)
    | halted _ h => exact absurd h.noReplies (List.cons_ne_nil _ _)
    | switching hlock hb =>
      obtain ⟨hsent, -, hphase⟩ := hb.reply
      exact (onDestroyDone_threads hacc hb.shape hsent hlock (hphase.leaving (.inr rfl))).2.2

/-- `threadCondition`, evaluated. -/
def threadCheck (cfg : Config) : Check where
  operation m o := decide
    ((o.msgId = .startAbility → (newApp cfg .working m o.want).isSome → freshToken m) ∧
      (o.msgId = .terminateApp → forceStopLaunchesBuried .working m o.token.toUInt16 = false))
  reply _ _ _ := true

theorem threadCheck_sound (cfg : Config) : (threadCheck cfg).Sound (threadCondition cfg) where
  operation _ _ h := ⟨working_accepts, working_answersAsked, of_decide_eq_true h⟩
  reply _ _ _ _ := working_accepts

/-- The second of two starts is deferred, and in the end its application is in front. -/
theorem multiTasks_oneThread_twoStarts :
    ∃ s, run (System.next (multiTasks roomy)) roomySystem twoStarts = some s ∧
      s.manager.abilityList.map (·.abilityThread) = [some .jsCreator, none, none] ∧
      AtMostOneThread s.manager.abilityList ∧
      ∀ e, s.meets (multiTasks roomy) (threadCondition roomy) e →
        s.meets (multiTasks roomy) (createsOnce roomy) e := by
  have h : (roomySystem.runPasses (multiTasks roomy) (threadCheck roomy) twoStarts).map
      (fun s => s.manager.abilityList.map (·.abilityThread)) =
      some [some .jsCreator, none, none] := by decide
  obtain ⟨s, hs, hthreads⟩ := Option.map_eq_some_iff.mp h
  exact ⟨s, run_of_runIf _ hs, hthreads, multiTasks_oneThread (by decide) rfl
    ((threadCheck_sound roomy).reached twoStarts_works (.init roomySystem_booted) hs)⟩

/-! ## A buried launch -/

/-- Two applications are started over the launcher, and a third cannot be created. -/
def failedThirdEvents : List Event :=
  let start (name : String) := Event.request (startOf (cstr name)) fun _ => .working
  answered 2 ++ [start "a"] ++ answered 4 ++ [start "b"] ++ answered 4 ++
    [start "c"] ++ answered 1 ++ [.answer 0 {}, .reply fun _ => noThreads]

/-- Then the second is terminated, which leaves the first one's token pending, the launcher is
brought to the top and stopped by force, and the first comes to the foreground below the
second. -/
def buriedLaunchEvents : List Event :=
  failedThirdEvents ++
    [.request (.terminateAbility 2) fun _ => .working,
      .request (startOf launcherBundleName) fun _ => .working,
      .request (.terminateApp 0) fun _ => .working] ++ answered 2

/-- A forced stop of the second then calls `CreateAppTask` on the first, which runs. -/
theorem multiTasks_buriedLaunch_createsTwice : Booted roomy roomySystem ∧
    ∃ s, run (System.next (multiTasks roomy)) roomySystem buriedLaunchEvents = some s ∧
      ¬ s.meets (multiTasks roomy) (createsOnce roomy)
        (.request (.terminateApp 2) fun _ => .working) := by
  have h : (run (System.next (multiTasks roomy)) roomySystem buriedLaunchEvents).map
      (fun s => (s.manager.isAppScheduling,
        (forceStopLaunches s.manager 2).map (·.abilityThread))) =
      some (false, some (some .jsCreator)) := by decide
  obtain ⟨s, hs, hbad⟩ := Option.map_eq_some_iff.mp h
  refine ⟨roomySystem_booted, s, hs, fun hmeets => ?_⟩
  rw [Prod.mk.injEq, Option.map_eq_some_iff] at hbad
  obtain ⟨hlock, r, hr, hthread⟩ := hbad
  have hnone := (hmeets hlock _ rfl).1.2 rfl r hr
  rw [hthread] at hnone
  cases hnone

end AbilityLite.Slite.MultiTasks
