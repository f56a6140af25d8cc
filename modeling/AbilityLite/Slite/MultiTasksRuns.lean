import AbilityLite.Slite.Scheduling

/-
  Runs of the multi-task build.

  A switch is a chain in which exactly one message or reply is in flight: the old
  top goes to the background and is destroyed (`Leaving`), then the new top is
  created and comes to the front (`Entering`). Between switches nothing is in
  flight and only the top may have a thread (`Idle`). What breaks the chain is a
  start over a top without a thread, a forced stop that leaves nothing to go on
  with, and a failed launch at the end of a destroy; runs without these strand no
  request.
-/

namespace AbilityLite.Slite.MultiTasks
open Manager AbilityList

/-! ## The record list -/

/-- What holds of the records between any two operations or replies. -/
structure Shape (cfg : Config) (m : Manager) : Prop where
  nodup : (m.abilityList.map (·.token)).Nodup
  bounded : m.abilityList.length ≤ cfg.abilityListCapacity
  data : ∀ r ∈ m.abilityList, r.abilityData.isSome
  noFault : m.fault = false

/-- Only the record with the token may have a thread. -/
def OnlyThread (token : UInt16) (l : AbilityList) : Prop :=
  ∀ r ∈ l, r.token ≠ token → r.abilityThread = none

/-- Nothing in flight, and nobody but the top has a thread. -/
structure Idle (cfg : Config) (rs : List (UInt16 × SliteAbilityState)) (m : Manager) : Prop where
  shape : Shape cfg m
  noReplies : rs = []
  noSent : m.sent = []
  below : ∀ r ∈ m.abilityList.tail, r.abilityThread = none
  pending : ∀ r ∈ m.abilityList.head?, r.abilityThread.isSome → m.pendingToken = 0

/-- The list that `OnDestroyDone` leaves of the one it finds. -/
def withoutDestroyed (l : AbilityList) (r : AbilityRecord) : AbilityList :=
  if r.isTerminated then l.erase r.token else l

/-- The ability of `token` is on its way to the background and to be destroyed, and the
next top is known. -/
structure Leaving (m : Manager) (token : UInt16) : Prop where
  listed : ∃ r, m.abilityList.get token = some r ∧ r.abilityThread.isSome ∧
    ∃ next rest, withoutDestroyed m.abilityList r = next :: rest ∧
      (m.pendingToken = 0 ∨ m.pendingToken = next.token)
  onlyThread : OnlyThread token m.abilityList

/-- The ability of `token` is the top and on its way to the foreground. -/
structure Entering (m : Manager) (token : UInt16) : Prop where
  top : ∃ r, m.getTopAbility = some r ∧ r.token = token ∧ r.abilityThread.isSome
  onlyThread : OnlyThread token m.abilityList
  noPending : m.pendingToken = 0

/-- What the one message or reply in flight is about. -/
def Phase (m : Manager) (x : UInt16 × SliteAbilityState) : Prop :=
  ((x.2 = .background ∨ x.2 = .uninitialized) ∧ Leaving m x.1) ∨
    ((x.2 = .initial ∨ x.2 = .foreground) ∧ Entering m x.1)

structure Busy (cfg : Config) (rs : List (UInt16 × SliteAbilityState)) (m : Manager) : Prop where
  shape : Shape cfg m
  one : ∃ x, inFlight rs m = [x] ∧ Phase m x

namespace Shape
variable {cfg : Config} {m : Manager}

/-- Only the list and the fault flag matter to the shape. -/
theorem of_list (h : Shape cfg m) {m' : Manager} {l : AbilityList} (hl : m'.abilityList = l)
    (hsub : (l.map (·.token)).Sublist (m.abilityList.map (·.token)))
    (hdata : ∀ r ∈ l, r.abilityData.isSome) (hfault : m'.fault = m.fault) : Shape cfg m' := by
  subst hl
  refine ⟨h.nodup.sublist hsub, ?_, hdata, hfault.trans h.noFault⟩
  have hlen := hsub.length_le
  rw [List.length_map, List.length_map] at hlen
  exact Nat.le_trans hlen h.bounded

theorem sublist (h : Shape cfg m) {m' : Manager} (hl : m'.abilityList.Sublist m.abilityList)
    (hfault : m'.fault = m.fault) : Shape cfg m' :=
  h.of_list rfl (hl.map _) (fun r hr => h.data r (hl.subset hr)) hfault

/-- A change to a record that keeps its token and its data. -/
theorem modify (h : Shape cfg m) {m' : Manager} (token : UInt16)
    {f : AbilityRecord → AbilityRecord} (hl : m'.abilityList = m.abilityList.modify token f)
    (hf : ∀ r, (f r).token = r.token) (hdata : ∀ r, r.abilityData.isSome → (f r).abilityData.isSome)
    (hfault : m'.fault = m.fault) : Shape cfg m' := by
  have htokens : ((m.abilityList.modify token f).map (·.token)).Sublist
      (m.abilityList.map (·.token)) := (modify_tokens hf).symm ▸ List.Sublist.refl _
  refine h.of_list hl htokens ?_ hfault
  intro r hr
  obtain ⟨x, hx, rfl⟩ := List.mem_map.mp hr
  split
  · exact hdata x (h.data x hx)
  · exact h.data x hx

end Shape

theorem setAbilityStateAndNotify_spec {cfg : Config} {m : Manager} (h : Shape cfg m)
    (token : UInt16) (state : AbilityRecordState) :
    ∃ n, m.setAbilityStateAndNotify token state =
        { m with
          abilityList := m.abilityList.modify token fun r => { r with state := state }
          notifications := n } ∧
      Shape cfg (m.setAbilityStateAndNotify token state) := by
  obtain ⟨n, hn⟩ := setAbilityStateAndNotify_eq m token state
  refine ⟨n, hn, ?_⟩
  rw [hn]
  exact h.modify _ rfl (fun _ => rfl) (fun _ hr => hr) rfl

/-! ## Destroying and launching -/

/-- After `OnDestroyDone` has let go of the ability nobody has a thread. -/
structure Released (cfg : Config) (m m' : Manager) (r : AbilityRecord) : Prop where
  shape : Shape cfg m'
  tokens : m'.abilityList.map (·.token) = (withoutDestroyed m.abilityList r).map (·.token)
  noThread : ∀ x ∈ m'.abilityList, x.abilityThread = none
  states : ∀ x ∈ m'.abilityList, ∃ y ∈ m.abilityList, y.token = x.token ∧ y.state = x.state
  noSent : m'.sent = []
  pending : m'.pendingToken = m.pendingToken
  lock : m'.isAppScheduling = m.isAppScheduling
  queue : m'.abilityOperation = m.abilityOperation

theorem destroyed_spec {cfg : Config} {m : Manager} (h : Shape cfg m) (hsent : m.sent = [])
    {token : UInt16} {r : AbilityRecord} (hr : m.abilityList.get token = some r)
    (honly : OnlyThread token m.abilityList) :
    Released cfg m (if r.isTerminated then m.deleteRecordInfo token else m.deleteAbilityThread r) r := by
  obtain ⟨hmem, rfl⟩ := get_eq_some hr
  split
  · next hterm =>
    have hl : withoutDestroyed m.abilityList r = m.abilityList.erase r.token := by
      rw [withoutDestroyed, if_pos hterm]
    rw [deleteRecordInfo_some h.nodup hr]
    refine ⟨h.sublist (erase_sublist _ _) rfl, by rw [hl], ?_, ?_, by simp [hsent], rfl, rfl, rfl⟩
    · intro x hx
      obtain ⟨hx, hxt⟩ := mem_erase h.nodup hx
      exact honly x hx hxt
    · exact fun x hx => ⟨x, (mem_erase h.nodup hx).1, rfl, rfl⟩
  · next hterm =>
    have hl : withoutDestroyed m.abilityList r = m.abilityList := by
      rw [withoutDestroyed, if_neg hterm]
    unfold deleteAbilityThread
    split
    · refine ⟨h.modify _ rfl (fun _ => rfl) (fun _ hx => hx) rfl, ?_, ?_, ?_,
        by simp [release, Manager.modify, hsent], rfl, rfl, rfl⟩
      · rw [hl]
        exact modify_tokens fun _ => rfl
      · intro x hx
        obtain ⟨y, hy, rfl⟩ := List.mem_map.mp hx
        split
        · rfl
        · next hne => exact honly y hy (by simpa using hne)
      · intro x hx
        obtain ⟨y, hy, rfl⟩ := List.mem_map.mp hx
        refine ⟨y, hy, ?_⟩
        split <;> exact ⟨rfl, rfl⟩
    · next hthread =>
      refine ⟨h, by rw [hl], ?_, fun x hx => ⟨x, hx, rfl, rfl⟩, hsent, rfl, rfl, rfl⟩
      intro x hx
      by_cases hxt : x.token = r.token
      · have hx' := get_of_mem h.nodup hx
        rw [hxt, hr, Option.some.injEq] at hx'
        simpa [← hx'] using hthread
      · exact honly x hx hxt

theorem createAppTask_top {env : Env} (hacc : env.Accepts) {m : Manager} {next : AbilityRecord}
    {rest : AbilityList} (hl : m.abilityList = next :: rest)
    (hd : (m.abilityList.map (·.token)).Nodup) :
    createAppTask env m next true =
      if env.initAbilityThread next.token = errOk then
        (errOk, { m with
          abilityList := started env next :: rest
          sent := m.sent ++ [innerMsg .initial (started env next)] })
      else (env.initAbilityThread next.token,
        { m with abilityList := { next with abilityThread := none } :: rest }) := by
  rw [hl] at hd
  unfold createAppTask
  by_cases hinit : env.initAbilityThread next.token = errOk
  · have hm : m.modify next.token (started env) = { m with abilityList := started env next :: rest } := by
      simp only [Manager.modify, hl, modify_top hd]
    simp only [hinit, ne_eq, not_true_eq_false, if_false, if_true, hm, schedulerLifecycle]
    have hg : AbilityList.get (started env next :: rest) next.token = some (started env next) :=
      get_top (r := started env next) rest
    simp only [hg]
    rw [sendMsgToAbilityThread_thread hacc _ rfl]
  · simp only [hinit, ne_eq, not_false_eq_true, if_true, if_false, Manager.modify, hl,
      modify_top hd]

theorem startAbilityRecord_top (cfg : Config) (env : Env) {m : Manager} {top : AbilityRecord}
    {rest : AbilityList} (hl : m.abilityList = top :: rest) (hlock : m.isAppScheduling = false)
    (hdata : top.abilityData.isSome) : startAbilityRecord cfg env m top = (errOk, m) := by
  have hdata' : ¬ top.abilityData.isNone := by simpa [Option.isSome_iff_ne_none] using hdata
  have hname : m.abilityList.getByName top.appName = some top := hl ▸ getByName_top rest
  have htop : getTopAbility { m with isAppScheduling := true } = some top := getTopAbility_cons hl
  have hunlock := Manager.unlock_eq hlock
  simp only [startAbilityRecord, if_neg hdata', startAbility, hlock, Bool.false_eq_true, if_false,
    recordWant, Option.any_none, Bool.and_false, hname, htop, if_true]
  exact congrArg _ hunlock

/-- What `OnDestroyDone` does once the ability it is about is gone. -/
def launchNext (cfg : Config) (env : Env) (m : Manager) : Manager :=
  if m.pendingToken ≠ 0 then
    match m.abilityList.get m.pendingToken with
    | none => m
    | some record =>
      let (ret, m) := createAppTask env m record true
      if ret ≠ errOk then
        let m := m.erase m.pendingToken
        match m.getTopAbility with
        | none => m
        | some topRecord =>
          { (startAbilityRecord cfg env { m with isAppScheduling := false } topRecord).2 with
            pendingToken := 0 }
      else { m with pendingToken := 0 }
  else
    match m.getTopAbility with
    | none => m.crash
    | some topAbilityRecord =>
      let (ret, m) := createAppTask env m topAbilityRecord true
      if ret ≠ errOk then { m.erase topAbilityRecord.token with isAppScheduling := false } else m

/-- The record that `CreateAppTask` is called on there. -/
def launched (m : Manager) : Option AbilityRecord :=
  if m.pendingToken ≠ 0 then m.abilityList.get m.pendingToken else m.getTopAbility

/-- The record that `OnDestroyDone` calls `CreateAppTask` on. -/
def destroyLaunches (m : Manager) (token : UInt16) : Option AbilityRecord :=
  let m := m.setAbilityStateAndNotify token .stop
  match m.abilityList.get token with
  | none => none
  | some r => launched (if r.isTerminated then m.deleteRecordInfo token else m.deleteAbilityThread r)

theorem onDestroyDone_eq {cfg : Config} {env : Env} {m : Manager} {token : UInt16} :
    onDestroyDone cfg env m token =
      let m := m.setAbilityStateAndNotify token .stop
      match m.abilityList.get token with
      | none => m
      | some r => launchNext cfg env
        (if r.isTerminated then m.deleteRecordInfo token else m.deleteAbilityThread r) := rfl

/-- Nobody has a thread and the next top is known. -/
structure Landed (cfg : Config) (m : Manager) (next : AbilityRecord) (rest : AbilityList) : Prop where
  shape : Shape cfg m
  list : m.abilityList = next :: rest
  noThread : ∀ x ∈ next :: rest, x.abilityThread = none
  noSent : m.sent = []
  pending : m.pendingToken = 0 ∨ m.pendingToken = next.token

section
variable {cfg : Config} {m : Manager} {next : AbilityRecord} {rest : AbilityList}

theorem launchNext_created_eq {env : Env} (hacc : env.Accepts) (h : Landed cfg m next rest)
    (hinit : env.initAbilityThread next.token = errOk) : launchNext cfg env m =
      { m with
        abilityList := started env next :: rest
        sent := m.sent ++ [innerMsg .initial (started env next)]
        pendingToken := 0 } := by
  have hcreate := createAppTask_top hacc h.list h.shape.nodup
  rw [if_pos hinit] at hcreate
  unfold launchNext
  by_cases hp : m.pendingToken = 0
  · simp only [getTopAbility_cons h.list, hcreate, ne_eq, not_true_eq_false, if_false, hp]
  · have hp' := h.pending.resolve_left hp
    have hg : m.abilityList.get m.pendingToken = some next := by
      rw [hp', h.list]
      exact get_top rest
    simp only [ne_eq, hp, not_false_eq_true, if_true, hg, hcreate, not_true_eq_false, if_false]

/-- The next ability comes to the foreground when its thread can be created. -/
theorem launchNext_created {env : Env} (hacc : env.Accepts) (h : Landed cfg m next rest)
    (hinit : env.initAbilityThread next.token = errOk) :
    Busy cfg [] (launchNext cfg env m) ∧
      (launchNext cfg env m).isAppScheduling = m.isAppScheduling ∧
      (launchNext cfg env m).abilityOperation = m.abilityOperation := by
  rw [launchNext_created_eq hacc h hinit]
  refine ⟨⟨h.shape.of_list rfl ?_ ?_ rfl, (next.token, .initial), ?_, .inr ⟨.inl rfl, ?_⟩⟩,
    rfl, rfl⟩
  · rw [h.list]
    exact List.Sublist.refl _
  · intro x hx
    rcases List.mem_cons.mp hx with rfl | hx
    · exact h.shape.data next (by simp [h.list])
    · exact h.shape.data x (by simp [h.list, hx])
  · simp only [inFlight, h.noSent, List.nil_append, List.map_cons, List.map_nil, List.append_nil,
      innerMsg_requested]
    rfl
  · refine ⟨⟨started env next, rfl, rfl, rfl⟩, ?_, rfl⟩
    intro x hx hxt
    rcases List.mem_cons.mp hx with rfl | hx
    · exact absurd rfl hxt
    · exact h.noThread x (List.mem_cons_of_mem _ hx)

theorem launchNext_failed_eq {env : Env} (hacc : env.Accepts) (h : Landed cfg m next rest)
    (hinit : env.initAbilityThread next.token ≠ errOk) (hrest : m.pendingToken = 0 ∨ rest ≠ []) :
    launchNext cfg env m =
      { m with abilityList := rest, pendingToken := 0, isAppScheduling := false } := by
  have hcreate := createAppTask_top hacc h.list h.shape.nodup
  rw [if_neg hinit] at hcreate
  have herase : AbilityList.erase ({ next with abilityThread := none } :: rest) next.token = rest :=
    erase_top (r := { next with abilityThread := none }) rest
  unfold launchNext
  by_cases hp : m.pendingToken = 0
  · simp only [hp, ne_eq, not_true_eq_false, if_false, getTopAbility_cons h.list, hcreate, hinit,
      not_false_eq_true, if_true, Manager.erase, herase]
  · have hp' := h.pending.resolve_left hp
    have hg : m.abilityList.get m.pendingToken = some next := by
      rw [hp', h.list]
      exact get_top rest
    obtain ⟨top, rest', hr⟩ := List.exists_cons_of_ne_nil (hrest.resolve_left hp)
    have htop : Manager.getTopAbility { m with abilityList := rest } = some top :=
      getTopAbility_cons hr
    have hstart := startAbilityRecord_top cfg env
      (m := { m with abilityList := rest, isAppScheduling := false }) hr rfl
      (h.shape.data top (by simp [h.list, hr]))
    simp only [ne_eq, hp, not_false_eq_true, if_true, hg, hcreate, hinit, Manager.erase]
    rw [hp', herase]
    simp only [htop, ← hp', hstart]

/-- Otherwise it is dropped and the manager is free, unless nothing else is listed. -/
theorem launchNext_failed {env : Env} (hacc : env.Accepts) (h : Landed cfg m next rest)
    (hinit : env.initAbilityThread next.token ≠ errOk) (hrest : m.pendingToken = 0 ∨ rest ≠ []) :
    Idle cfg [] (launchNext cfg env m) ∧ (launchNext cfg env m).isAppScheduling = false ∧
      (launchNext cfg env m).abilityOperation = m.abilityOperation := by
  rw [launchNext_failed_eq hacc h hinit hrest]
  refine ⟨⟨h.shape.sublist ?_ rfl, rfl, h.noSent, ?_, fun _ _ _ => rfl⟩, rfl, rfl⟩
  · rw [h.list]
    exact List.sublist_cons_self next rest
  · intro x hx
    exact h.noThread x (List.mem_cons_of_mem _ (List.mem_of_mem_tail hx))

/-- With nothing else listed the lock stays. -/
theorem launchNext_lastFailed_eq {env : Env} (hacc : env.Accepts) (h : Landed cfg m next [])
    (hinit : env.initAbilityThread next.token ≠ errOk) (hp : m.pendingToken ≠ 0) :
    launchNext cfg env m = { m with abilityList := [] } := by
  have hp' := h.pending.resolve_left hp
  have hget : m.abilityList.get m.pendingToken = some next := by
    rw [hp', h.list]
    exact get_top []
  have hcreate := createAppTask_top hacc h.list h.shape.nodup
  rw [if_neg hinit] at hcreate
  have herase : AbilityList.erase [{ next with abilityThread := none }] next.token = [] :=
    erase_top (r := { next with abilityThread := none }) []
  unfold launchNext
  rw [if_pos hp]
  simp only [hget, hcreate, ne_eq, hinit, not_false_eq_true, if_true, Manager.erase]
  rw [hp', herase]
  simp only [Manager.getTopAbility, AbilityList.getTopAbility, List.head?_nil, ← hp']

/-- Nor is there anything to launch when nothing is listed. -/
theorem launchNext_nil (cfg : Config) (env : Env) {m : Manager} (h : m.abilityList = []) :
    launchNext cfg env m = m ∨ launchNext cfg env m = m.crash := by
  have hget : m.abilityList.get m.pendingToken = none := by rw [h]; rfl
  unfold launchNext
  split
  · rw [hget]
    exact .inl rfl
  · rw [getTopAbility_nil h]
    exact .inr rfl

end

/-- What `OnDestroyDone` launches from: the ability is gone or has stopped. -/
theorem onDestroyDone_released (env : Env) {cfg : Config} {m : Manager} (h : Shape cfg m)
    (hsent : m.sent = []) {token : UInt16} {r : AbilityRecord}
    (hr : m.abilityList.get token = some r) (honly : OnlyThread token m.abilityList) :
    ∃ m', onDestroyDone cfg env m token = launchNext cfg env m' ∧
      destroyLaunches m token = launched m' ∧ Shape cfg m' ∧ m'.sent = [] ∧
      m'.abilityList.map (·.token) = (withoutDestroyed m.abilityList r).map (·.token) ∧
      (∀ x ∈ m'.abilityList, x.abilityThread = none) ∧
      (∀ x ∈ m'.abilityList, x.state = .stop ∨
        ∃ y ∈ m.abilityList, y.token ≠ token ∧ y.token = x.token ∧ y.state = x.state) ∧
      m'.pendingToken = m.pendingToken ∧ m'.isAppScheduling = m.isAppScheduling ∧
      m'.abilityOperation = m.abilityOperation := by
  obtain ⟨n, hn, hs⟩ := setAbilityStateAndNotify_spec h token .stop
  have hrt := (get_eq_some hr).2
  have hr' : (m.setAbilityStateAndNotify token .stop).abilityList.get token =
      some { r with state := .stop } := by
    rw [hn]
    refine (get_modify (f := fun r => { r with state := .stop }) (fun _ => rfl) token).trans ?_
    simp only [hr, Option.map_some, hrt, if_true]
  have honly' : OnlyThread token (m.setAbilityStateAndNotify token .stop).abilityList := by
    rw [hn]
    intro x hx hxt
    obtain ⟨y, hy, rfl⟩ := List.mem_map.mp hx
    by_cases hyt : (y.token == token) = true
    · simp only [hyt, if_true] at hxt
      exact absurd (by simpa using hyt) hxt
    · simp only [hyt] at hxt ⊢
      exact honly y hy hxt
  have hrel := destroyed_spec hs (by rw [hn]; exact hsent) hr' honly'
  refine ⟨_, ?_, ?_, hrel.shape, hrel.noSent, hrel.tokens.trans ?_, hrel.noThread, ?_,
    hrel.pending.trans (by rw [hn]), hrel.lock.trans (by rw [hn]), hrel.queue.trans (by rw [hn])⟩
  · rw [onDestroyDone_eq]
    simp only [hr']
  · simp only [destroyLaunches, hr']
  · unfold withoutDestroyed
    rw [hn]
    simp only [hrt]
    split
    · rw [erase_modify (f := fun r => { r with state := .stop }) (fun _ => rfl) h.nodup]
    · exact modify_tokens fun _ => rfl
  · intro x hx
    obtain ⟨y, hy, hyt, hys⟩ := hrel.states x hx
    rw [hn] at hy
    obtain ⟨z, hz, rfl⟩ := List.mem_map.mp hy
    by_cases hzt : (z.token == token) = true
    · simp only [hzt, if_true] at hys
      exact .inl hys.symm
    · simp only [hzt] at hyt hys
      exact .inr ⟨z, hz, by simpa using hzt, hyt, hys⟩

/-- The destroyed ability's place is taken by the next one. -/
theorem onDestroyDone_landed (env : Env) {cfg : Config} {m : Manager} (h : Shape cfg m)
    (hsent : m.sent = []) {token : UInt16} {r : AbilityRecord}
    (hr : m.abilityList.get token = some r) (honly : OnlyThread token m.abilityList)
    {next : AbilityRecord} {rest : AbilityList} (hl : withoutDestroyed m.abilityList r = next :: rest)
    (hpending : m.pendingToken = 0 ∨ m.pendingToken = next.token) :
    ∃ m' next' rest', onDestroyDone cfg env m token = launchNext cfg env m' ∧
      Landed cfg m' next' rest' ∧ next'.token = next.token ∧ rest'.length = rest.length ∧
      m'.pendingToken = m.pendingToken ∧ m'.isAppScheduling = m.isAppScheduling ∧
      m'.abilityOperation = m.abilityOperation := by
  obtain ⟨m', hm', -, hs', hsent', htokens, hnone, -, hp', hlock', hq'⟩ :=
    onDestroyDone_released env h hsent hr honly
  rw [hl, List.map_cons] at htokens
  obtain ⟨next', rest', hl', hnext, hrest⟩ := List.map_eq_cons_iff.mp htokens
  refine ⟨m', next', rest', hm', ⟨hs', hl', hl' ▸ hnone, hsent', ?_⟩, hnext, ?_, hp', hlock', hq'⟩
  · rw [hp', hnext]
    exact hpending
  · rw [← List.length_map (f := fun r : AbilityRecord => r.token), hrest, List.length_map]

/-! ## Terminating -/

namespace Idle
variable {cfg : Config} {rs : List (UInt16 × SliteAbilityState)} {m : Manager}

/-- Idleness looks at the list, the pending token, the messages and the fault flag. -/
theorem congr (h : Idle cfg rs m) {m' : Manager} (hl : m'.abilityList = m.abilityList)
    (hp : m'.pendingToken = m.pendingToken) (hs : m'.sent = m.sent) (hf : m'.fault = m.fault) :
    Idle cfg rs m' :=
  ⟨h.shape.sublist (hl ▸ List.Sublist.refl _) hf, h.noReplies, hs.trans h.noSent,
    by rw [hl]; exact h.below, by rw [hl, hp]; exact h.pending⟩

theorem locked (h : Idle cfg rs m) (b : Bool) : Idle cfg rs { m with isAppScheduling := b } :=
  h.congr rfl rfl rfl rfl

/-- A record below the top has no thread. -/
theorem thread_below (h : Idle cfg rs m) {top : AbilityRecord} {rest : AbilityList}
    (hl : m.abilityList = top :: rest) : ∀ r ∈ rest, r.abilityThread = none := by
  have hb := h.below
  rwa [hl, List.tail_cons] at hb

theorem ne_top (h : Idle cfg rs m) {top : AbilityRecord} {rest : AbilityList}
    (hl : m.abilityList = top :: rest) : ∀ r ∈ rest, r.token ≠ top.token := by
  have hd := h.shape.nodup
  rw [hl, List.map_cons, List.nodup_cons] at hd
  exact fun r hr e => hd.1 (List.mem_map.mpr ⟨r, hr, e⟩)

/-- While the top runs no token is pending. -/
theorem pending_top (h : Idle cfg rs m) {top : AbilityRecord} {rest : AbilityList}
    (hl : m.abilityList = top :: rest) (hthread : top.abilityThread.isSome) : m.pendingToken = 0 :=
  h.pending top (by rw [hl]; rfl) hthread

/-- Records below the top go away, and nothing else changes. -/
theorem shrink (h : Idle cfg rs m) {top : AbilityRecord} {rest rest' : AbilityList}
    (hl : m.abilityList = top :: rest) (hsub : rest'.Sublist rest) {m' : Manager}
    (hl' : m'.abilityList = top :: rest') (hp : m'.pendingToken = m.pendingToken)
    (hs : m'.sent = []) (hf : m'.fault = m.fault) : Idle cfg rs m' := by
  refine ⟨h.shape.sublist (by rw [hl, hl']; exact hsub.cons_cons top) hf, h.noReplies, hs, ?_, ?_⟩
  · rw [hl', List.tail_cons]
    exact fun r hr => h.thread_below hl r (hsub.subset hr)
  · rw [hl', hp]
    intro r hr hthread
    cases hr
    exact h.pending_top hl hthread

/-- Nobody has a thread. -/
theorem of_noThread {m' : Manager} (hs : Shape cfg m') (hrs : rs = [])
    (hsent : m'.sent = []) (hnone : ∀ r ∈ m'.abilityList, r.abilityThread = none) :
    Idle cfg rs m' := by
  refine ⟨hs, hrs, hsent, fun r hr => hnone r (List.mem_of_mem_tail hr), ?_⟩
  intro r hr hthread
  rw [hnone r (List.mem_of_mem_head? hr)] at hthread
  cases hthread

end Idle

section
variable {cfg : Config} {rs : List (UInt16 × SliteAbilityState)}

theorem settles_idle {m : Manager} {x : ErrCode × Manager}
    (hqueue : x.2.abilityOperation = m.abilityOperation) (hx : goesOn x) (h : Idle cfg rs x.2) :
    Settles (Idle cfg rs) (Busy cfg rs) m x :=
  ⟨hqueue, fun _ => h.congr rfl rfl rfl rfl, fun hn => absurd hx hn⟩

theorem settles_busy {m m' : Manager} (hqueue : m'.abilityOperation = m.abilityOperation)
    (hlock : m'.isAppScheduling = true) (h : Busy cfg rs m') :
    Settles (Idle cfg rs) (Busy cfg rs) m (errOk, m') := by
  refine ⟨hqueue, fun hx => ?_, fun _ => h⟩
  rcases hx with hx | hx
  · exact absurd rfl hx
  · rw [hlock] at hx
    cases hx

/-- One message to the old top is on its way: what a switch starts with. -/
theorem busy_leaving {m : Manager} (hs : Shape cfg m) (hrs : rs = []) (top : AbilityRecord)
    (hsent : m.sent = [innerMsg .background top]) (h : Leaving m top.token) : Busy cfg rs m := by
  refine ⟨hs, (top.token, .background), ?_, .inl ⟨.inl rfl, h⟩⟩
  simp [inFlight, hsent, hrs, innerMsg_token, innerMsg_requested]

theorem handWant_keeps (r : AbilityRecord) (want : Want) :
    (handWant want r).token = r.token ∧ (handWant want r).abilityThread = r.abilityThread ∧
      (r.abilityData.isSome → (handWant want r).abilityData.isSome) := by
  unfold handWant AbilityRecord.setWantData
  split
  · split <;> simp
  · simp

theorem terminateAbility_below_top {m : Manager} (h : Idle cfg rs m) {top : AbilityRecord}
    {rest : AbilityList} (hl : m.abilityList = top :: rest) {token : UInt16}
    (htoken : token ≠ top.token) :
    Idle cfg rs (m.deleteRecordInfo token) ∧
      (m.deleteRecordInfo token).abilityOperation = m.abilityOperation ∧
      (m.deleteRecordInfo token).pendingToken = m.pendingToken ∧
      ∃ rest', (m.deleteRecordInfo token).abilityList = top :: rest' ∧ rest'.Sublist rest := by
  cases hg : m.abilityList.get token with
  | none =>
    rw [deleteRecordInfo_none hg]
    exact ⟨h, rfl, rfl, rest, hl, List.Sublist.refl rest⟩
  | some r =>
    rw [deleteRecordInfo_some h.shape.nodup hg]
    have hl' : m.abilityList.erase token = top :: rest.erase token := by
      rw [hl]
      exact erase_below rest fun e => htoken e.symm
    refine ⟨h.shrink hl (erase_sublist rest token) hl' rfl ?_ rfl, rfl, rfl, _, hl',
      erase_sublist rest token⟩
    simp [h.noSent]

/-- The list with the top and the record below it changed places, or the top marked for
its removal, as a terminate of the top leaves it. -/
def afterTerminate (top next : AbilityRecord) (rest : AbilityList) : AbilityList :=
  if isPermanentAbility top then next :: top :: rest
  else { top with isTerminated := true } :: next :: rest

theorem leaving_afterTerminate {m : Manager} {top next : AbilityRecord} {rest : AbilityList}
    (hl : m.abilityList = afterTerminate top next rest) (hthread : top.abilityThread.isSome)
    (hnone : ∀ r ∈ next :: rest, r.abilityThread = none) (hne : next.token ≠ top.token)
    (hp : m.pendingToken = next.token) : Leaving m top.token := by
  unfold afterTerminate at hl
  split at hl
  · refine ⟨⟨top, ?_, hthread, next, if top.isTerminated then rest else top :: rest, ?_, .inr hp⟩, ?_⟩
    · simp [hl, AbilityList.get, hne]
    · rw [withoutDestroyed, hl]
      split
      · rw [erase_below _ hne, erase_top]
      · rfl
    · rw [hl]
      intro r hr hrt
      rcases List.mem_cons.mp hr with rfl | hr
      · exact hnone r List.mem_cons_self
      · rcases List.mem_cons.mp hr with rfl | hr
        · exact absurd rfl hrt
        · exact hnone r (List.mem_cons_of_mem _ hr)
  · refine ⟨⟨{ top with isTerminated := true }, ?_, hthread, next, rest, ?_, .inr hp⟩, ?_⟩
    · rw [hl]
      exact get_top (r := { top with isTerminated := true }) _
    · rw [withoutDestroyed, hl, if_pos rfl]
      exact erase_top (r := { top with isTerminated := true }) _
    · rw [hl]
      intro r hr hrt
      rcases List.mem_cons.mp hr with rfl | hr
      · exact absurd rfl hrt
      · exact hnone r hr

theorem terminateTop_swap {m : Manager} (hd : (m.abilityList.map (·.token)).Nodup)
    (hbound : m.abilityList.length ≤ cfg.abilityListCapacity) {top next : AbilityRecord}
    {rest : AbilityList} (hl : m.abilityList = top :: next :: rest) :
    (if isPermanentAbility top then
        (({ m with abilityList := rest } : Manager).add cfg top).add cfg next
      else ({ m with abilityList := next :: rest } : Manager).add cfg { top with isTerminated := true }) =
      { m with abilityList := afterTerminate top next rest } := by
  rw [hl] at hbound hd
  simp only [List.length_cons] at hbound
  simp only [List.map_cons, List.nodup_cons, List.mem_cons, List.mem_map, not_or, not_exists,
    not_and] at hd
  obtain ⟨⟨hne, htop⟩, hnext, -⟩ := hd
  unfold afterTerminate
  split
  · have hadd : ({ m with abilityList := rest } : Manager).add cfg top =
        { m with abilityList := top :: rest } :=
      add_room (by simp only; omega) (get_eq_none.mpr htop)
    rw [hadd]
    refine add_room (by simp only [List.length_cons]; omega) (get_eq_none.mpr ?_)
    intro r hr
    rcases List.mem_cons.mp hr with rfl | hr
    · exact hne
    · exact hnext r hr
  · refine add_room (by simp only [List.length_cons]; omega) (get_eq_none.mpr ?_)
    intro r hr
    rcases List.mem_cons.mp hr with rfl | hr
    · exact fun e => hne e.symm
    · exact htop r hr

theorem afterTerminate_modify {top next : AbilityRecord} {rest : AbilityList}
    {f : AbilityRecord → AbilityRecord}
    (hd : ((top :: next :: rest).map (·.token)).Nodup) :
    (afterTerminate top next rest).modify next.token f = afterTerminate top (f next) rest := by
  simp only [List.map_cons, List.nodup_cons, List.mem_cons, List.mem_map, not_or, not_exists,
    not_and] at hd
  obtain ⟨⟨hne, -⟩, hnext, -⟩ := hd
  have hrest : rest.modify next.token f = rest := modify_eq_self (get_eq_none.mpr hnext)
  unfold afterTerminate
  split
  · simp only [modify_cons, if_true, hrest, if_neg hne]
  · simp only [modify_cons, if_true, hrest, if_neg hne]

theorem noThread_afterTerminate {top next : AbilityRecord} {rest : AbilityList}
    (htop : top.abilityThread = none) (hrest : ∀ r ∈ next :: rest, r.abilityThread = none) :
    ∀ r ∈ afterTerminate top next rest, r.abilityThread = none := by
  unfold afterTerminate
  split
  · intro r hr
    rcases List.mem_cons.mp hr with rfl | hr
    · exact hrest r List.mem_cons_self
    · rcases List.mem_cons.mp hr with rfl | hr
      · exact htop
      · exact hrest r (List.mem_cons_of_mem _ hr)
  · intro r hr
    rcases List.mem_cons.mp hr with rfl | hr
    · exact htop
    · exact hrest r hr

theorem shape_afterTerminate {m : Manager} (h : Idle cfg rs m) {top next next' : AbilityRecord}
    {rest : AbilityList} (hl : m.abilityList = top :: next :: rest) (ht : next'.token = next.token)
    (hdata : next'.abilityData.isSome) {m' : Manager}
    (hl' : m'.abilityList = afterTerminate top next' rest) (hf : m'.fault = m.fault) :
    Shape cfg m' := by
  have hd := h.shape.nodup
  have hb := h.shape.bounded
  rw [hl] at hd hb
  have hdr : ∀ r ∈ top :: next' :: rest, r.abilityData.isSome := by
    intro r hr
    rcases List.mem_cons.mp hr with rfl | hr
    · exact h.shape.data r (by simp [hl])
    · rcases List.mem_cons.mp hr with rfl | hr
      · exact hdata
      · exact h.shape.data r (by simp [hl, hr])
  unfold afterTerminate at hl'
  split at hl'
  · have hperm : (next' :: top :: rest).Perm (top :: next' :: rest) := List.Perm.swap ..
    refine ⟨?_, ?_, ?_, hf.trans h.shape.noFault⟩
    · rw [hl', (hperm.map _).nodup_iff]
      simpa [ht] using hd
    · rw [hl']
      simpa using hb
    · rw [hl']
      exact fun r hr => hdr r (hperm.mem_iff.mp hr)
  · refine ⟨?_, ?_, ?_, hf.trans h.shape.noFault⟩
    · rw [hl']
      simpa [ht] using hd
    · rw [hl']
      simpa using hb
    · rw [hl']
      intro r hr
      rcases List.mem_cons.mp hr with rfl | hr
      · exact hdr top List.mem_cons_self
      · exact hdr r (List.mem_cons_of_mem _ hr)

theorem terminateAbilityWant_settles {env : Env} (hacc : env.Accepts) {m : Manager}
    (h : Idle cfg rs m) (hlock : m.isAppScheduling = true) (token : UInt16) (want : Option Want) :
    Settles (Idle cfg rs) (Busy cfg rs) m (terminateAbilityWant cfg env m token want) := by
  unfold terminateAbilityWant
  by_cases hnil : m.abilityList = []
  · simp only [getTopAbility_nil hnil]
    exact settles_idle rfl (.inr rfl) (h.locked false)
  · obtain ⟨top, below, hl⟩ := List.exists_cons_of_ne_nil hnil
    simp only [getTopAbility_cons hl]
    split
    · exact settles_idle rfl (.inr rfl) (h.locked false)
    · split
      · next htoken =>
        split
        · exact settles_idle rfl (.inr rfl) (h.locked false)
        · split
          · exact settles_idle rfl (.inr rfl) (h.locked false)
          · obtain ⟨hi, hq, -⟩ := terminateAbility_below_top h hl htoken
            exact settles_idle hq (.inr rfl) (hi.locked false)
      · have hpop : m.abilityList.popAbility = below := by rw [hl]; rfl
        rw [hpop]
        cases below with
        | nil =>
          refine settles_idle rfl (.inr rfl) (Idle.of_noThread ?_ h.noReplies h.noSent ?_)
          · exact h.shape.sublist (List.nil_sublist _) rfl
          · exact fun r hr => absurd hr List.not_mem_nil
        | cons next rest =>
          have hne := h.ne_top hl next List.mem_cons_self
          have hnone := h.thread_below hl
          have htop : Manager.getTopAbility { m with abilityList := next :: rest } = some next := rfl
          have hpop' : AbilityList.popAbility (next :: rest) = rest := rfl
          simp only [htop, hpop', terminateTop_swap h.shape.nodup h.shape.bounded hl]
          obtain ⟨next', ht', hth', hdata', hlist'⟩ : ∃ next', next'.token = next.token ∧
              next'.abilityThread = none ∧ next'.abilityData.isSome ∧
              handToNewTop { m with abilityList := afterTerminate top next rest } next.token want =
                { m with abilityList := afterTerminate top next' rest } := by
            have hdata := h.shape.data next (by simp [hl])
            cases want with
            | none => exact ⟨next, rfl, hnone next List.mem_cons_self, hdata, rfl⟩
            | some want =>
              obtain ⟨ht, hth, hd⟩ := handWant_keeps next want
              refine ⟨handWant want next, ht, hth.trans (hnone next List.mem_cons_self), hd hdata, ?_⟩
              simp only [handToNewTop, Manager.modify, afterTerminate_modify (hl ▸ h.shape.nodup)]
          rw [hlist']
          have hs {m' : Manager} (hl' : m'.abilityList = afterTerminate top next' rest)
              (hf : m'.fault = m.fault) : Shape cfg m' := shape_afterTerminate h hl ht' hdata' hl' hf
          by_cases hthread : top.abilityThread.isSome
          · rw [sendMsgToAbilityThread_thread hacc _ hthread]
            refine settles_busy rfl hlock (busy_leaving (hs rfl rfl) h.noReplies top ?_ ?_)
            · simp [h.noSent]
            · refine leaving_afterTerminate rfl hthread ?_ (by rw [ht']; exact hne) ht'.symm
              intro r hr
              rcases List.mem_cons.mp hr with rfl | hr
              · exact hth'
              · exact hnone r (List.mem_cons_of_mem _ hr)
          · have hthread : top.abilityThread = none := by simpa using hthread
            rw [sendMsgToAbilityThread_none hthread]
            refine settles_idle rfl (.inl (show paramNullError ≠ errOk by decide))
              (Idle.of_noThread (hs rfl rfl) h.noReplies h.noSent ?_)
            refine noThread_afterTerminate hthread fun r hr => ?_
            rcases List.mem_cons.mp hr with rfl | hr
            · exact hth'
            · exact hnone r (List.mem_cons_of_mem _ hr)

theorem terminateAbility_settles {env : Env} (hacc : env.Accepts) {m : Manager}
    (h : Idle cfg rs m) (hlock : m.isAppScheduling = false) (token : UInt16) :
    Settles (Idle cfg rs) (Busy cfg rs) m (terminateAbility cfg env m token) := by
  simp only [terminateAbility, hlock, Bool.false_eq_true, if_false]
  exact terminateAbilityWant_settles hacc (h.locked true) rfl token none

/-- Terminating an ability that is not on top leaves the lock free and the top where
it is. -/
theorem terminateAbility_below (env : Env) {m : Manager} (h : Idle cfg rs m)
    (hlock : m.isAppScheduling = false) {top : AbilityRecord} {rest : AbilityList}
    (hl : m.abilityList = top :: rest) {token : UInt16} (htop : token ≠ top.token) :
    let m' := (terminateAbility cfg env m token).2
    Idle cfg rs m' ∧ m'.isAppScheduling = false ∧ m'.abilityOperation = m.abilityOperation ∧
      m'.pendingToken = m.pendingToken ∧ ∃ rest', m'.abilityList = top :: rest' ∧ rest'.Sublist rest := by
  have hsame := List.Sublist.refl rest
  simp only [terminateAbility, hlock, Bool.false_eq_true, if_false, terminateAbilityWant,
    getTopAbility_cons (m := { m with isAppScheduling := true }) hl]
  split
  · exact ⟨h.locked false, rfl, rfl, rfl, rest, hl, hsame⟩
  · split
    · exact ⟨h.locked false, rfl, rfl, rfl, rest, hl, hsame⟩
    · split
      · exact ⟨h.locked false, rfl, rfl, rfl, rest, hl, hsame⟩
      · obtain ⟨hi, hq, hp, rest', hl', hsub⟩ := terminateAbility_below_top (h.locked true) hl htop
        exact ⟨hi.locked false, rfl, hq, hp, rest', hl', hsub⟩

theorem terminateEach_below (env : Env) (tokens : List UInt16) {m : Manager} (h : Idle cfg rs m)
    (hlock : m.isAppScheduling = false) {top : AbilityRecord} {rest : AbilityList}
    (hl : m.abilityList = top :: rest) :
    let m' := terminateEach cfg env top.token m tokens
    Idle cfg rs m' ∧ m'.isAppScheduling = false ∧ m'.abilityOperation = m.abilityOperation ∧
      m'.pendingToken = m.pendingToken ∧ ∃ rest', m'.abilityList = top :: rest' ∧ rest'.Sublist rest := by
  induction tokens generalizing m rest with
  | nil => exact ⟨h, hlock, rfl, rfl, rest, hl, List.Sublist.refl rest⟩
  | cons token tokens ih =>
    simp only [terminateEach, List.foldl_cons] at ih ⊢
    split
    · next htop =>
      obtain ⟨h', hlock', hq', hp', rest', hl', hsub'⟩ :=
        terminateAbility_below env h hlock hl htop
      obtain ⟨hs, hlock'', hq'', hp'', rest'', hl'', hsub''⟩ := ih h' hlock' hl'
      exact ⟨hs, hlock'', hq''.trans hq', hp''.trans hp', rest'', hl'', hsub''.trans hsub'⟩
    · exact ih h hlock hl

theorem terminateMission_settles {env : Env} {m : Manager} (h : Idle cfg rs m)
    (hlock : m.isAppScheduling = false) (mission : UInt32) :
    Settles (Idle cfg rs) (Busy cfg rs) m (terminateMission cfg env m mission) := by
  simp only [terminateMission, hlock, Bool.false_eq_true, if_false]
  by_cases hnil : m.abilityList = []
  · simp only [getTopAbility_nil hnil]
    exact settles_idle rfl (.inr hlock) h
  · obtain ⟨top, rest, hl⟩ := List.exists_cons_of_ne_nil hnil
    simp only [getTopAbility_cons hl]
    obtain ⟨hi, hlock', hq, -⟩ := terminateEach_below env
      (m.abilityList.getAbilityList mission) h hlock hl
    exact settles_idle hq (.inr hlock') hi

theorem forceStop_settles {env : Env} (hacc : env.Accepts) {m : Manager} (h : Idle cfg rs m)
    (hlock : m.isAppScheduling = false) (want : Option Want) :
    Settles (Idle cfg rs) (Busy cfg rs) m (forceStop cfg env m want) := by
  simp only [forceStop, hlock, Bool.false_eq_true, if_false]
  split
  · exact settles_idle rfl (.inr rfl) (h.locked false)
  · split
    · exact settles_idle rfl (.inr rfl) (h.locked false)
    · exact terminateAbilityWant_settles hacc (h.locked true) rfl _ want

theorem terminateAll_settles {env : Env} {m : Manager} (h : Idle cfg rs m)
    (hlock : m.isAppScheduling = false) (excludedBundleName : Option CString) :
    Settles (Idle cfg rs) (Busy cfg rs) m (terminateAll env m excludedBundleName) := by
  simp only [terminateAll, hlock, Bool.false_eq_true, if_false]
  by_cases hnil : m.abilityList = []
  · rw [hnil, popAllAbility_nil]
    exact settles_idle rfl (.inr rfl) (h.congr hnil.symm rfl rfl rfl)
  · obtain ⟨top, rest, hl⟩ := List.exists_cons_of_ne_nil hnil
    rw [hl, popAllAbility_cons]
    simp only
    rw [releaseAll_eq]
    obtain ⟨n, hn⟩ := foldl_notify_eq _ (rest.filter fun r => !reserved excludedBundleName r)
    rw [hn]
    refine settles_idle rfl (.inr rfl) (h.shrink hl List.filter_sublist rfl rfl ?_ rfl)
    simp [h.noSent]

/-! ## Forced stops -/

/-- A forced stop leaves nothing to go on with: it stops the only ability, or the token
that is pending is not that of the ability below, or that one cannot be launched and
nothing else is listed. -/
def forceStopStrands (env : Env) (m : Manager) (token : UInt16) : Bool :=
  match m.abilityList with
  | [] => true
  | [top] => top.token = token
  | top :: next :: rest =>
    top.token = token && m.pendingToken ≠ 0 &&
      (m.pendingToken ≠ next.token || (env.initAbilityThread next.token ≠ errOk && rest.isEmpty))

/-- A forced stop of the top goes straight to the launch at the end of its destroy. -/
theorem forceStopBundle_top_eq (env : Env) {m : Manager} (h : Idle cfg rs m)
    (hlock : m.isAppScheduling = false) {top : AbilityRecord} {rest : AbilityList}
    (hl : m.abilityList = top :: rest) :
    ∃ m', forceStopBundle cfg env m top.token = (errOk, launchNext cfg env m') ∧ Shape cfg m' ∧
      m'.sent = [] ∧ m'.abilityList.map (·.token) = rest.map (·.token) ∧
      (∀ x ∈ m'.abilityList, x.abilityThread = none) ∧
      (∀ x ∈ m'.abilityList, x.state = .stop ∨
        ∃ y ∈ rest, y.token = x.token ∧ y.state = x.state) ∧
      m'.pendingToken = m.pendingToken ∧ m'.isAppScheduling = true ∧
      m'.abilityOperation = m.abilityOperation := by
  have hd := h.shape.nodup
  rw [hl] at hd
  have htopm : getTopAbility { m with isAppScheduling := true } = some top := getTopAbility_cons hl
  -- the top is marked and handled as destroyed
  have hmark : ({ m with isAppScheduling := true } : Manager).modify top.token
      (fun r => { r with isTerminated := true }) =
      { m with
        isAppScheduling := true
        abilityList := { top with isTerminated := true } :: rest } := by
    simp only [Manager.modify, hl, modify_top hd]
  have hs : Shape cfg { m with
      isAppScheduling := true
      abilityList := { top with isTerminated := true } :: rest } := by
    refine h.shape.modify top.token (f := fun r => { r with isTerminated := true })
      ?_ (fun _ => rfl) (fun _ hr => hr) rfl
    rw [hl, modify_top hd]
  have honly : OnlyThread top.token ({ top with isTerminated := true } :: rest) := by
    intro r hr hrt
    rcases List.mem_cons.mp hr with rfl | hr
    · exact absurd rfl hrt
    · exact h.thread_below hl r hr
  obtain ⟨m', hm', -, hs', hsent', htokens, hnone, hstates, hp', hlock', hq'⟩ :=
    onDestroyDone_released env (r := { top with isTerminated := true }) hs h.noSent
      (get_top (r := { top with isTerminated := true }) _) honly
  have herase : withoutDestroyed ({ top with isTerminated := true } :: rest)
      { top with isTerminated := true } = rest :=
    erase_top (r := { top with isTerminated := true }) rest
  refine ⟨m', ?_, hs', hsent', htokens.trans (by rw [herase]), hnone, fun x hx => ?_, hp', hlock', hq'⟩
  · simp only [forceStopBundle, hlock, Bool.false_eq_true, if_false, htopm, ne_eq, not_true_eq_false,
      hmark, hm']
  · refine (hstates x hx).imp_right ?_
    rintro ⟨y, hy, hyt, hyx, hys⟩
    rcases List.mem_cons.mp hy with rfl | hy
    · exact absurd rfl hyt
    · exact ⟨y, hy, hyx, hys⟩

theorem forceStopBundle_below {env : Env} {m : Manager} (hlock : m.isAppScheduling = false)
    {top : AbilityRecord} {rest : AbilityList} (hl : m.abilityList = top :: rest) {token : UInt16}
    (htoken : top.token ≠ token) : forceStopBundle cfg env m token =
      terminateAbilityWant cfg env { m with isAppScheduling := true } token none := by
  have htopm : getTopAbility { m with isAppScheduling := true } = some top := getTopAbility_cons hl
  simp only [forceStopBundle, hlock, Bool.false_eq_true, if_false, htopm, if_pos htoken]

theorem forceStopBundle_settles {env : Env} (hacc : env.Accepts) {m : Manager}
    (h : Idle cfg rs m) (hlock : m.isAppScheduling = false) {token : UInt16}
    (hok : forceStopStrands env m token = false) :
    Settles (Idle cfg rs) (Busy cfg rs) m (forceStopBundle cfg env m token) := by
  by_cases hnil : m.abilityList = []
  · simp [forceStopStrands, hnil] at hok
  · obtain ⟨top, below, hl⟩ := List.exists_cons_of_ne_nil hnil
    by_cases htoken : top.token = token
    · subst htoken
      cases below with
      | nil => simp [forceStopStrands, hl] at hok
      | cons next rest =>
        obtain ⟨m', heq, hs', hsent', htokens, hnone, -, hp', hlock', hq'⟩ :=
          forceStopBundle_top_eq env h hlock hl
        obtain ⟨next', rest', hl', hnext, hrest'⟩ := List.map_eq_cons_iff.mp htokens
        have hok' : m.pendingToken ≠ 0 → m.pendingToken = next.token ∧
            (env.initAbilityThread next.token = errOk ∨ rest ≠ []) := by
          intro hp
          simp only [forceStopStrands, hl, decide_true, Bool.true_and, ne_eq, hp, not_false_eq_true,
            Bool.or_eq_false_iff, decide_eq_false_iff_not, Decidable.not_not, Bool.and_eq_false_imp,
            decide_eq_true_eq, List.isEmpty_eq_false_iff] at hok
          refine ⟨hok.1, ?_⟩
          by_cases hinit : env.initAbilityThread next.token = errOk
          · exact .inl hinit
          · exact .inr (hok.2 hinit)
        have hland : Landed cfg m' next' rest' := by
          refine ⟨hs', hl', hl' ▸ hnone, hsent', ?_⟩
          rw [hp', hnext]
          exact (Decidable.em _).imp_right fun hp => (hok' hp).1
        have hrs := h.noReplies
        subst hrs
        rw [heq]
        by_cases hinit : env.initAbilityThread next'.token = errOk
        · obtain ⟨hb, hl', hq⟩ := launchNext_created hacc hland hinit
          exact settles_busy (hq.trans hq') (hl'.trans hlock') hb
        · have hrest : m'.pendingToken = 0 ∨ rest' ≠ [] := by
            rw [hp']
            refine (Decidable.em _).imp_right fun hp => ?_
            have hne := (hok' hp).2.resolve_left fun e => hinit (congrArg env.initAbilityThread hnext |>.trans e)
            rintro rfl
            exact hne (List.map_eq_nil_iff.mp hrest'.symm)
          obtain ⟨hi, hl', hq⟩ := launchNext_failed hacc hland hinit hrest
          exact settles_idle (hq.trans hq') (.inr hl') hi
    · rw [forceStopBundle_below hlock hl htoken]
      exact terminateAbilityWant_settles hacc (h.locked true) rfl token none

/-! ## Starting -/

/-- The application that a start needs a new record for, as the bundle manager
describes it. -/
def newApp (cfg : Config) (env : Env) (m : Manager) (want : Option Want) :
    Option (CString × AbilitySvcInfo) :=
  match want with
  | none => none
  | some want =>
    match want.element with
    | none => none
    | some element =>
      match element.bundleName with
      | none => none
      | some bundleName =>
        if cfg.dmsEnabled && element.deviceId.any (·.bytes ≠ []) then none
        else if (m.abilityList.getByName bundleName).isSome then none
        else
          match queryAbilitySvcInfo cfg env bundleName want with
          | .error _ => none
          | .ok info => some (bundleName, info)

/-- A new record cannot take over from the top: the top has no thread to tell, there is
nothing to run, or the new token is not new. -/
def cannotTakeOver (m : Manager) (top : AbilityRecord) (info : AbilitySvcInfo) : Bool :=
  top.abilityThread.isNone || (info.path.isNone && !info.isNativeApp) ||
    (generateToken m).1 = launcherToken || (m.abilityList.get (generateToken m).1).isSome

/-- A start that leaves nothing in flight to go on with, now or after the switch: the
first ability while a token is pending, or one that cannot take over from the top. -/
def startStrands (cfg : Config) (env : Env) (m : Manager) (want : Option Want) : Bool :=
  (newApp cfg env m want).any fun app =>
    app.1.bytes.length ≠ 0 &&
      match m.getTopAbility with
      | none => app.1 = env.bms.getStartupBundleName && m.pendingToken ≠ 0
      | some top => (app.2.isNativeApp || checkResponse env app.1) && cannotTakeOver m top app.2

theorem generateMission_eq (m : Manager) (info : AbilitySvcInfo) :
    ∃ mission k, (if info.mission = uint32Max then m.generateMission else (info.mission, m)) =
      (mission, { m with nextMission := k }) := by
  split
  · exact ⟨_, _, rfl⟩
  · exact ⟨_, m.nextMission, rfl⟩

theorem newRecord_spec (info : AbilitySvcInfo) (bundleName : CString) (token : UInt16)
    (mission : UInt32) :
    (newRecord info bundleName token mission).token = token ∧
      (newRecord info bundleName token mission).abilityThread = none ∧
      (newRecord info bundleName token mission).abilityData.isSome := by
  unfold newRecord AbilityRecord.setWantData
  split <;> exact ⟨rfl, rfl, rfl⟩

theorem newRecord_unmarked (info : AbilitySvcInfo) (bundleName : CString) (token : UInt16)
    (mission : UInt32) : (newRecord info bundleName token mission).isTerminated = false := by
  unfold newRecord AbilityRecord.setWantData
  split <;> rfl

/-- The first ability is launched at once, or nothing is listed. -/
theorem preCheckStartAbility_first_eq {env : Env} (hcap : 3 ≤ cfg.abilityListCapacity)
    (hacc : env.Accepts) {m : Manager} (hnil : m.abilityList = []) (hp : m.pendingToken = 0)
    (info : AbilitySvcInfo) (bundleName : CString) :
    preCheckStartAbility cfg env m info bundleName = (paramNullError, m) ∨
      ∃ record counter k, (record.token = (generateToken m).1 ∧ record.isTerminated = false) ∧
        record.abilityThread = none ∧ record.abilityData.isSome ∧
        (preCheckStartAbility cfg env m info bundleName =
            (errOk, { m with
              nextToken := counter
              nextMission := k
              abilityList := [started env record]
              sent := m.sent ++ [innerMsg .initial (started env record)] }) ∨
          preCheckStartAbility cfg env m info bundleName =
            (createApptaskError, { m with nextToken := counter, nextMission := k, abilityList := [] })) := by
  unfold preCheckStartAbility
  split
  · exact .inl rfl
  · refine .inr ?_
    have hname : m.abilityList.getByName bundleName = none := by rw [hnil]; rfl
    have hp' : ¬ m.pendingToken ≠ 0 := fun e => e hp
    simp only [hname, if_neg hp']
    have hm₁ : (generateToken m).2 = { m with nextToken := (generateToken m).2.nextToken } := rfl
    generalize (generateToken m).1 = token
    rw [hm₁]
    generalize (generateToken m).2.nextToken = counter
    obtain ⟨mission, k, hmission⟩ := generateMission_eq { m with nextToken := counter } info
    simp only [hmission]
    obtain ⟨ht, hth, hdata⟩ := newRecord_spec info bundleName token mission
    have hmark := newRecord_unmarked info bundleName token mission
    generalize newRecord info bundleName token mission = record at ht hth hdata hmark ⊢
    subst ht
    have hlist : ({ m with nextToken := counter, nextMission := k } : Manager).add cfg record =
        { m with nextToken := counter, nextMission := k, abilityList := [record] } := by
      have hadd := add_room (m := { m with nextToken := counter, nextMission := k })
        (r := record)
        (show m.abilityList.length < cfg.abilityListCapacity by rw [hnil, List.length_nil]; omega)
        (by simp only [hnil]; rfl)
      simpa only [hnil] using hadd
    have htakes : ({ m with nextToken := counter, nextMission := k } : Manager).takes cfg
        record.token = true := by
      have he : AbilityList.evict cfg.abilityListCapacity [] = [] :=
        List.sublist_nil.mp (evict_sublist cfg.abilityListCapacity [])
      simp only [takes, hnil, he]
      rfl
    simp only [hlist, htakes]
    rw [if_pos hp]
    have hcreate := createAppTask_top hacc
      (m := { m with nextToken := counter, nextMission := k, abilityList := [record] })
      rfl (by simp)
    rw [hcreate]
    refine ⟨record, counter, k, ⟨rfl, hmark⟩, hth, hdata, ?_⟩
    by_cases hinit : env.initAbilityThread record.token = errOk
    · simp only [hinit, if_true, ne_eq, not_true_eq_false, if_false]
      exact .inl trivial
    · simp only [hinit, if_false, ne_eq, not_false_eq_true, if_true, Manager.erase]
      have herase : AbilityList.erase [{ record with abilityThread := none }] record.token = [] :=
        erase_top (r := { record with abilityThread := none }) []
      rw [herase]
      exact .inr rfl

theorem preCheckStartAbility_first {env : Env} (hcap : 3 ≤ cfg.abilityListCapacity)
    (hacc : env.Accepts) {m : Manager} (h : Idle cfg rs m) (hnil : m.abilityList = [])
    (hlock : m.isAppScheduling = true) (hp : m.pendingToken = 0) (info : AbilitySvcInfo)
    (bundleName : CString) :
    Settles (Idle cfg rs) (Busy cfg rs) m (preCheckStartAbility cfg env m info bundleName) := by
  rcases preCheckStartAbility_first_eq hcap hacc hnil hp info bundleName with
    heq | ⟨record, counter, k, -, hth, hdata, heq | heq⟩
  · rw [heq]
    exact settles_idle rfl (.inl (show paramNullError ≠ errOk by decide)) h
  · rw [heq]
    refine settles_busy rfl hlock ⟨⟨by simp, by simp only [List.length_singleton]; omega, ?_,
      h.shape.noFault⟩, (record.token, .initial), ?_, .inr ⟨.inl rfl, ⟨_, rfl, rfl, rfl⟩, ?_, hp⟩⟩
    · intro x hx
      rw [List.mem_singleton.mp hx]
      exact hdata
    · simp only [inFlight, h.noSent, h.noReplies, List.nil_append, List.map_cons, List.map_nil,
        List.append_nil, innerMsg_requested]
      rfl
    · intro x hx hxt
      rw [List.mem_singleton.mp hx] at hxt
      exact absurd rfl hxt
  · rw [heq]
    exact settles_idle rfl (.inl (show createApptaskError ≠ errOk by decide))
      (h.congr hnil.symm rfl rfl rfl)

/-- The top as `markTop` leaves it. -/
def marked (env : Env) (top : AbilityRecord) : AbilityRecord :=
  if needToBeTerminated env top.appName then { top with isTerminated := true } else top

theorem marked_keeps (env : Env) (top : AbilityRecord) :
    (marked env top).token = top.token ∧ (marked env top).appName = top.appName ∧
      (marked env top).abilityThread = top.abilityThread ∧
      (marked env top).abilityData = top.abilityData := by
  unfold marked
  split <;> exact ⟨rfl, rfl, rfl, rfl⟩

theorem markTop_eq (env : Env) (m : Manager) (top : AbilityRecord) :
    ∃ f : AbilityRecord → AbilityRecord, f top = marked env top ∧
      markTop env m top = { m with abilityList := m.abilityList.modify top.token f } ∧
      ∀ r, (f r).token = r.token ∧ (f r).abilityThread = r.abilityThread ∧
        (f r).abilityData = r.abilityData ∧ (f r).appName = r.appName := by
  unfold markTop marked
  split
  · exact ⟨fun r => { r with isTerminated := true }, rfl, rfl, fun _ => ⟨rfl, rfl, rfl, rfl⟩⟩
  · refine ⟨id, rfl, ?_, fun _ => ⟨rfl, rfl, rfl, rfl⟩⟩
    have hl : m.abilityList.modify top.token id = m.abilityList := by
      simp [AbilityList.modify]
    rw [hl]

/-- A new record goes on top of a top that has been told to go to the background. -/
theorem preCheckStartAbility_over_eq (env : Env) (hcap : 3 ≤ cfg.abilityListCapacity) {m : Manager}
    (hs : Shape cfg m) {top top' : AbilityRecord} {rest : AbilityList}
    (hl : m.abilityList = top :: rest) (ht : top'.token = top.token)
    (hsent : m.sent = [innerMsg .background top']) (hp : m.pendingToken ≠ 0)
    (hfresh : m.abilityList.get m.pendingToken = none) {bundleName : CString}
    (hname : m.abilityList.getByName bundleName = none) {info : AbilitySvcInfo}
    (hpath : ¬ (info.path.isNone && !info.isNativeApp) = true) :
    ∃ record k rest', record.token = m.pendingToken ∧ record.abilityThread = none ∧
      record.abilityData.isSome ∧ record.state = .stop ∧ rest'.Sublist rest ∧
      (record :: top :: rest').length ≤ cfg.abilityListCapacity ∧
      preCheckStartAbility cfg env m info bundleName =
        (errOk, { m with nextMission := k, abilityList := record :: top :: rest' }) := by
  unfold preCheckStartAbility
  simp only [if_neg hpath, hname, if_pos hp]
  obtain ⟨mission, k, hmission⟩ := generateMission_eq m info
  simp only [hmission]
  obtain ⟨hrt, hrth, hdata⟩ := newRecord_spec info bundleName m.pendingToken mission
  have hstop : (newRecord info bundleName m.pendingToken mission).state = .stop := rfl
  generalize newRecord info bundleName m.pendingToken mission = record at hrt hrth hdata hstop ⊢
  obtain ⟨rest', hadd, hsub, hlen⟩ := add_over hcap (m := { m with nextMission := k }) (r := record)
    hl hs.nodup hs.bounded (hrt ▸ hfresh) (by simp [hsent, innerMsg_token, ht])
  rw [hadd]
  simp only [if_neg hp]
  exact ⟨record, k, rest', hrt, hrth, hdata, hstop, hsub, hlen, rfl⟩

theorem preCheckStartAbility_over {rs : List (UInt16 × SliteAbilityState)} (env : Env) (hcap : 3 ≤ cfg.abilityListCapacity) {m : Manager}
    (hs : Shape cfg m) (hrs : rs = []) (hlock : m.isAppScheduling = true) {top top' : AbilityRecord}
    {rest : AbilityList} (hl : m.abilityList = top :: rest) (ht : top'.token = top.token)
    (hsent : m.sent = [innerMsg .background top']) (hthread : top.abilityThread.isSome)
    (hnone : ∀ r ∈ rest, r.abilityThread = none) (hp : m.pendingToken ≠ 0)
    (hfresh : m.abilityList.get m.pendingToken = none) {bundleName : CString}
    (hname : m.abilityList.getByName bundleName = none) {info : AbilitySvcInfo}
    (hpath : ¬ (info.path.isNone && !info.isNativeApp) = true) :
    Settles (Idle cfg rs) (Busy cfg rs) m (preCheckStartAbility cfg env m info bundleName) := by
  obtain ⟨record, k, rest', hrt, hrth, hdata, -, hsub, hlen, heq⟩ :=
    preCheckStartAbility_over_eq env hcap hs hl ht hsent hp hfresh hname hpath
  rw [heq]
  have hnew : record.token ≠ top.token := fun e =>
    get_eq_none.mp hfresh top (by simp [hl]) (e.symm.trans hrt)
  have hsub' : (top :: rest').Sublist m.abilityList := hl ▸ hsub.cons_cons top
  refine settles_busy rfl hlock ⟨⟨?_, hlen, ?_, hs.noFault⟩, (top.token, .background), ?_,
    .inl ⟨.inl rfl, ?_⟩⟩
  · rw [List.map_cons, List.nodup_cons]
    refine ⟨?_, hs.nodup.sublist (hsub'.map _)⟩
    rintro hmem
    obtain ⟨x, hx, hxt⟩ := List.mem_map.mp hmem
    exact get_eq_none.mp hfresh x (hsub'.subset hx) (hxt.trans hrt)
  · intro r hr
    rcases List.mem_cons.mp hr with rfl | hr
    · exact hdata
    · exact hs.data r (hsub'.subset hr)
  · simp [inFlight, hsent, hrs, innerMsg_token, innerMsg_requested, ht]
  · refine ⟨⟨top, ?_, hthread, record, if top.isTerminated then rest' else top :: rest', ?_,
      .inr hrt.symm⟩, ?_⟩
    · simp [AbilityList.get, hnew]
    · unfold withoutDestroyed
      split
      · rw [erase_below _ hnew, erase_top]
      · rfl
    · intro r hr hrt'
      rcases List.mem_cons.mp hr with rfl | hr
      · exact hrth
      · rcases List.mem_cons.mp hr with rfl | hr
        · exact absurd rfl hrt'
        · exact hnone r (hsub.subset hr)

/-- A start over a top that runs tells it to go to the background and reserves a new token. -/
theorem startAbilityInfo_over_eq {env : Env} (hacc : env.Accepts) {m : Manager} (h : Idle cfg rs m)
    {top : AbilityRecord} {rest : AbilityList} (hl : m.abilityList = top :: rest)
    {bundleName : CString} {info : AbilitySvcInfo} (hbundle : info.bundleName = some bundleName)
    (hempty : ¬ bundleName.bytes.length = 0)
    (hallowed : ¬ (!info.isNativeApp && !checkResponse env bundleName) = true)
    (hname : m.abilityList.getByName bundleName = none) (hthread : top.abilityThread.isSome)
    (hfresh : m.abilityList.get (generateToken m).1 = none) :
    ∃ m₁, startAbilityInfo cfg env m info = preCheckStartAbility cfg env m₁ info bundleName ∧
      Shape cfg m₁ ∧ m₁.abilityList = marked env top :: rest ∧ m₁.sent = [innerMsg .background top] ∧
      m₁.pendingToken = (generateToken m).1 ∧ m₁.abilityList.get m₁.pendingToken = none ∧
      m₁.abilityList.getByName bundleName = none ∧ m₁.isAppScheduling = m.isAppScheduling ∧
      m₁.abilityOperation = m.abilityOperation := by
  have hother : bundleName ≠ top.appName := by
    intro e
    rw [hl, e, getByName_top] at hname
    cases hname
  obtain ⟨f, hf, hmark, hkeeps⟩ := markTop_eq env m top
  have hl' : m.abilityList.modify top.token f = marked env top :: rest := by
    rw [hl, modify_top (hl ▸ h.shape.nodup), hf]
  refine ⟨{ m with
      abilityList := m.abilityList.modify top.token f
      sent := m.sent ++ [innerMsg .background top]
      nextToken := (generateToken m).2.nextToken
      pendingToken := (generateToken m).1 }, ?_, ?_, hl', by simp [h.noSent], rfl, ?_, ?_, rfl, rfl⟩
  · simp only [startAbilityInfo, hbundle, if_neg hempty, getTopAbility_cons hl, if_neg hallowed,
      if_neg hother]
    rw [hmark, sendMsgToAbilityThread_thread hacc _ hthread]
    rfl
  · exact h.shape.modify _ rfl (fun r => (hkeeps r).1)
      (fun r hr => by rw [(hkeeps r).2.2.1]; exact hr) rfl
  · exact (get_modify (fun r => (hkeeps r).1) _).trans ((congrArg _ hfresh).trans rfl)
  · show AbilityList.getByName (m.abilityList.modify top.token f) bundleName = none
    rw [getByName_modify fun r => (hkeeps r).2.2.2, hname]
    rfl

/-- A start that brings up a record of its own. -/
theorem startAbilityInfo_settles {env : Env} (hcap : 3 ≤ cfg.abilityListCapacity)
    (hacc : env.Accepts) {m : Manager} (h : Idle cfg rs m) (hlock : m.isAppScheduling = true)
    {bundleName : CString} {info : AbilitySvcInfo} (hbundle : info.bundleName = some bundleName)
    (hname : m.abilityList.getByName bundleName = none)
    (hok : bundleName.bytes.length ≠ 0 → match m.getTopAbility with
      | none => bundleName = env.bms.getStartupBundleName → m.pendingToken = 0
      | some top => (info.isNativeApp || checkResponse env bundleName) = true →
        cannotTakeOver m top info = false) :
    Settles (Idle cfg rs) (Busy cfg rs) m (startAbilityInfo cfg env m info) := by
  by_cases hempty : bundleName.bytes.length = 0
  · simp only [startAbilityInfo, hbundle, if_pos hempty]
    exact settles_idle rfl (.inr rfl) (h.locked false)
  · replace hok := hok hempty
    by_cases hnil : m.abilityList = []
    · simp only [startAbilityInfo, hbundle, if_neg hempty, getTopAbility_nil hnil] at hok ⊢
      split
      · exact settles_idle rfl (.inl (show paramCheckError ≠ errOk by decide)) h
      · next hstartup =>
        exact preCheckStartAbility_first hcap hacc h hnil hlock
          (hok (by simpa using hstartup)) info bundleName
    · obtain ⟨top, rest, hl⟩ := List.exists_cons_of_ne_nil hnil
      simp only [getTopAbility_cons hl] at hok
      by_cases hresponse : (!info.isNativeApp && !checkResponse env bundleName) = true
      · simp only [startAbilityInfo, hbundle, if_neg hempty, getTopAbility_cons hl, if_pos hresponse]
        exact settles_idle rfl (.inl (show paramCheckError ≠ errOk by decide)) h
      · have hresponse' : (info.isNativeApp || checkResponse env bundleName) = true := by
          cases hn : info.isNativeApp <;> cases hc : checkResponse env bundleName <;>
            simp_all
        have htake := hok hresponse'
        simp only [cannotTakeOver, Bool.or_eq_false_iff, decide_eq_false_iff_not] at htake
        obtain ⟨⟨⟨hthread, hpath⟩, hzero⟩, hfresh⟩ := htake
        have hthread' : top.abilityThread.isSome := by
          rw [← Option.not_isNone, hthread]
          rfl
        have hfresh' : m.abilityList.get (generateToken m).1 = none := by
          simpa [Option.isSome_iff_ne_none] using hfresh
        obtain ⟨m₁, heq, hs, hl', hsent, hp, hnew, hname', hlock', hqueue⟩ :=
          startAbilityInfo_over_eq hacc h hl hbundle hempty hresponse hname hthread' hfresh'
        obtain ⟨ht, -, hth, -⟩ := marked_keeps env top
        have hover := preCheckStartAbility_over env hcap hs h.noReplies
          (hlock'.trans hlock) hl' ht.symm hsent (by rw [hth]; exact hthread') (h.thread_below hl)
          (by rw [hp]; exact hzero) hnew hname' (by rw [hpath]; exact Bool.false_ne_true)
        rw [heq]
        exact ⟨hover.1.trans hqueue, hover.2⟩

theorem updateWant_keeps (want : Want) (r : AbilityRecord) :
    (updateWant want r).token = r.token ∧ (updateWant want r).abilityThread = r.abilityThread ∧
      (updateWant want r).abilityData.isSome := by
  unfold updateWant AbilityRecord.setWantData
  split <;> split <;> exact ⟨rfl, rfl, rfl⟩

/-- The manager once a start has brought a listed record up over the top. -/
theorem broughtUp_eq {env : Env} {m : Manager} (h : Idle cfg rs m) {top r : AbilityRecord}
    {rest : AbilityList} (hl : m.abilityList = top :: rest) (hr : m.abilityList.get r.token = some r)
    (hne : top.token ≠ r.token) (want : Want) :
    markTop env ((m.modify r.token (updateWant want)).moveToTop cfg r.token) top =
      { m with abilityList := updateWant want r :: marked env top :: rest.erase r.token } := by
  have hf : ∀ x, (updateWant want x).token = x.token := fun x => (updateWant_keeps want x).1
  have hd := h.shape.nodup
  have hget : (m.modify r.token (updateWant want)).abilityList.get r.token =
      some (updateWant want r) := by
    refine (get_modify hf _).trans ?_
    rw [hr, Option.map_some, if_pos rfl]
  have hmove := moveToTop_listed (m := m.modify r.token (updateWant want))
    (by rw [Manager.modify, modify_tokens hf]; exact hd)
    (by rw [Manager.modify, AbilityList.modify, List.length_map]; exact h.shape.bounded) hget
  have herase : (m.modify r.token (updateWant want)).abilityList.erase r.token =
      top :: rest.erase r.token := by
    refine (erase_modify hf hd).trans ?_
    rw [hl, erase_below _ hne]
  rw [hmove, herase]
  obtain ⟨f, hftop, hmark, -⟩ := markTop_eq env
    { m.modify r.token (updateWant want) with
      abilityList := updateWant want r :: top :: rest.erase r.token } top
  rw [hmark]
  have hrest : AbilityList.modify (rest.erase r.token) top.token f = rest.erase r.token := by
    refine modify_eq_self (get_eq_none.mpr fun x hx => ?_)
    exact h.ne_top hl x ((erase_sublist rest r.token).subset hx)
  have hne' : ¬ (updateWant want r).token = top.token := by rw [hf]; exact fun e => hne e.symm
  simp only [modify_cons, if_neg hne', if_true, hftop, hrest, Manager.modify]

/-- A start of a listed ability that is not on top. -/
theorem bringUp_settles {env : Env} (hacc : env.Accepts) {m : Manager} (h : Idle cfg rs m)
    (hlock : m.isAppScheduling = true) {top r : AbilityRecord} {rest : AbilityList}
    (hl : m.abilityList = top :: rest) (hr : m.abilityList.get r.token = some r)
    (hne : top.token ≠ r.token) (want : Want) :
    Settles (Idle cfg rs) (Busy cfg rs) m
      ((markTop env ((m.modify r.token (updateWant want)).moveToTop cfg r.token) top).sendMsgToAbilityThread
        env .background top) := by
  rw [broughtUp_eq h hl hr hne want]
  obtain ⟨ht, hth, hdata⟩ := updateWant_keeps want r
  obtain ⟨htm, -, hthm, hdatam⟩ := marked_keeps env top
  have hmem : r ∈ rest := by
    have hm := (get_eq_some hr).1
    rw [hl] at hm
    exact (List.mem_cons.mp hm).resolve_left fun e => hne (congrArg _ e).symm
  have hnone := h.thread_below hl
  have hnone' : ∀ x ∈ updateWant want r :: rest.erase r.token, x.abilityThread = none := by
    intro x hx
    rcases List.mem_cons.mp hx with rfl | hx
    · exact hth.trans (hnone r hmem)
    · exact hnone x ((erase_sublist rest r.token).subset hx)
  have hs {m' : Manager}
      (hl' : m'.abilityList = updateWant want r :: marked env top :: rest.erase r.token)
      (hf : m'.fault = m.fault) : Shape cfg m' := by
    have hd := h.shape.nodup
    have hb := h.shape.bounded
    have hdr := h.shape.data
    rw [hl] at hd hb hdr
    simp only [List.map_cons, List.nodup_cons, List.length_cons] at hd hb
    have hlen := List.length_eraseP_of_mem (p := fun x => x.token == r.token) hmem (by simp)
    have hpos := List.length_pos_of_mem hmem
    refine ⟨?_, ?_, ?_, hf.trans h.shape.noFault⟩
    · rw [hl', List.map_cons, List.map_cons, List.nodup_cons, List.nodup_cons, ht, htm]
      refine ⟨?_, fun hx => hd.1 (((erase_sublist rest r.token).map _).subset hx),
        hd.2.sublist ((erase_sublist rest r.token).map _)⟩
      simp only [List.mem_cons, List.mem_map, not_or, not_exists, not_and]
      exact ⟨fun e => hne e.symm, fun x hx => (mem_erase hd.2 hx).2⟩
    · simp only [hl', List.length_cons, AbilityList.erase]
      omega
    · rw [hl']
      intro x hx
      rcases List.mem_cons.mp hx with rfl | hx
      · exact hdata
      · rcases List.mem_cons.mp hx with rfl | hx
        · rw [hdatam]
          exact hdr top List.mem_cons_self
        · exact hdr x (List.mem_cons_of_mem _ ((erase_sublist rest r.token).subset hx))
  by_cases hthread : top.abilityThread.isSome
  · rw [sendMsgToAbilityThread_thread hacc _ hthread]
    refine settles_busy rfl hlock ⟨hs rfl rfl, (top.token, .background), ?_, .inl ⟨.inl rfl, ?_⟩⟩
    · simp [inFlight, h.noSent, h.noReplies, innerMsg_token, innerMsg_requested]
    · refine ⟨⟨marked env top, ?_, by rw [hthm]; exact hthread, updateWant want r,
        if (marked env top).isTerminated then rest.erase r.token
          else marked env top :: rest.erase r.token, ?_, .inl (h.pending_top hl hthread)⟩, ?_⟩
      · simp [AbilityList.get, ht, htm, hne.symm]
      · have hne' : (updateWant want r).token ≠ (marked env top).token := by
          rw [ht, htm]
          exact hne.symm
        unfold withoutDestroyed
        split
        · rw [erase_below _ hne', erase_top]
        · rfl
      · intro x hx hxt
        rcases List.mem_cons.mp hx with rfl | hx
        · exact hnone' _ List.mem_cons_self
        · rcases List.mem_cons.mp hx with rfl | hx
          · exact absurd htm hxt
          · exact hnone' x (List.mem_cons_of_mem _ hx)
  · have hthread : top.abilityThread = none := by simpa using hthread
    rw [sendMsgToAbilityThread_none hthread]
    refine settles_idle rfl (.inl (show paramNullError ≠ errOk by decide))
      (Idle.of_noThread (hs rfl rfl) h.noReplies h.noSent ?_)
    intro x hx
    rcases List.mem_cons.mp hx with rfl | hx
    · exact hnone' _ List.mem_cons_self
    · rcases List.mem_cons.mp hx with rfl | hx
      · exact hthm.trans hthread
      · exact hnone' x (List.mem_cons_of_mem _ hx)

/-- A start finds its ability listed below the top, and may bring it up. -/
def comesUp (cfg : Config) (env : Env) (m : Manager) (want : Option Want) : Bool :=
  (want.bind (·.element)).any fun element => element.bundleName.any fun bundleName =>
    !(cfg.dmsEnabled && element.deviceId.any (·.bytes ≠ [])) &&
      (m.abilityList.getByName bundleName).any fun r =>
        m.getTopAbility.any (·.token ≠ r.token) && (r.isNativeApp || checkResponse env bundleName)

/-- What a start that is executed comes to. -/
inductive StartCase (cfg : Config) (env : Env) (m : Manager) (want : Option Want) :
    ErrCode × Manager → Prop
  /-- It is refused, finds its ability on top or is for another device. -/
  | ends (ret : ErrCode) (remoteStarts : List (Want × CString))
    (hnone : comesUp cfg env m want = false ∧ newApp cfg env m want = none) :
    StartCase cfg env m want (ret, { m with isAppScheduling := false, remoteStarts := remoteStarts })
  /-- Its ability is listed below the top and comes up over it. -/
  | bringsUp (w : Want) (r top : AbilityRecord) (hmem : r ∈ m.abilityList)
    (htop : m.getTopAbility = some top) (hne : top.token ≠ r.token)
    (hup : comesUp cfg env m want = true) :
    StartCase cfg env m want
      ((markTop env ((({ m with isAppScheduling := true } : Manager).modify r.token
        (updateWant w)).moveToTop cfg r.token) top).sendMsgToAbilityThread env .background top)
  /-- Its ability is not listed and the bundle manager knows it. -/
  | startsNew (w : Want) (bundleName : CString) (info : AbilitySvcInfo)
    (happ : newApp cfg env m want = some (bundleName, info))
    (hbundle : w.element.bind (·.bundleName) = some bundleName)
    (hname : m.abilityList.getByName bundleName = none)
    (hquery : queryAbilitySvcInfo cfg env bundleName w = .ok info) :
    StartCase cfg env m want (startAbilityInfo cfg env { m with isAppScheduling := true }
      { info with
        data := memdup w.data w.dataLength
        dataLength := w.dataLength
        mission := w.mission })

theorem startAbility_cases (cfg : Config) (env : Env) {m : Manager}
    (hlock : m.isAppScheduling = false) (want : Option Want) :
    StartCase cfg env m want (startAbility cfg env m want) := by
  simp only [startAbility, hlock, Bool.false_eq_true, if_false]
  cases want with
  | none => exact .ends _ m.remoteStarts ⟨rfl, rfl⟩
  | some want =>
    simp only
    cases helem : want.element with
    | none =>
      exact .ends _ m.remoteStarts ⟨by simp only [comesUp, Option.bind_some, helem, Option.any_none],
        by simp only [newApp, helem]⟩
    | some element =>
      simp only
      cases hbundle : element.bundleName with
      | none =>
        exact .ends _ m.remoteStarts ⟨by simp only [comesUp, Option.bind_some, helem, hbundle,
          Option.any_some, Option.any_none], by simp only [newApp, helem, hbundle]⟩
      | some bundleName =>
        simp only
        split
        · next hremote' =>
          obtain ⟨remote, hremote⟩ :=
            startRemoteAbility_eq cfg env { m with isAppScheduling := false } want
          have hx : startRemoteAbility cfg env { m with isAppScheduling := false } want =
              ((startRemoteAbility cfg env { m with isAppScheduling := false } want).1,
                { m with isAppScheduling := false, remoteStarts := remote }) :=
            Prod.ext rfl hremote
          rw [hx]
          refine .ends _ remote ⟨?_, by simp only [newApp, helem, hbundle, if_pos hremote']⟩
          simp only [comesUp, Option.bind_some, helem, hbundle, Option.any_some, hremote', Bool.not_true,
            Bool.false_and]
        · next hlocal =>
          split
          · next r top hname htop =>
            have htop' : m.getTopAbility = some top := htop
            have hlisted : newApp cfg env m (some want) = none := by
              simp only [newApp, helem, hbundle, if_neg hlocal, hname, Option.isSome_some, if_true]
            split
            · next heq =>
              refine .ends _ m.remoteStarts ⟨?_, hlisted⟩
              simp only [comesUp, Option.bind_some, helem, hbundle, Option.any_some, hname, htop', heq,
                ne_eq, not_true_eq_false, decide_false, Bool.false_and, Bool.and_false]
            · next hne =>
              split
              · next hresponse =>
                refine .ends _ m.remoteStarts ⟨?_, hlisted⟩
                have hresponse' : (r.isNativeApp || checkResponse env bundleName) = false := by
                  cases hn : r.isNativeApp <;> cases hc : checkResponse env bundleName <;> simp_all
                simp only [comesUp, Option.bind_some, helem, hbundle, Option.any_some, hname,
                  hresponse', Bool.and_false]
              · next hresponse =>
                refine .bringsUp want r top (getByName_eq_some hname).1 htop hne ?_
                have hresponse' : (r.isNativeApp || checkResponse env bundleName) = true := by
                  cases hn : r.isNativeApp <;> cases hc : checkResponse env bundleName <;> simp_all
                simp only [comesUp, Option.bind_some, helem, hbundle, hname, htop', Option.any_some,
                  hresponse', Bool.and_true, hne, ne_eq, not_false_eq_true, decide_true]
                rw [Bool.eq_false_iff.mpr hlocal]
                rfl
          · next hnew =>
            have hname : m.abilityList.getByName bundleName = none := by
              cases hname : m.abilityList.getByName bundleName with
              | none => rfl
              | some r =>
                have hnil : m.abilityList ≠ [] := by
                  intro e
                  rw [e] at hname
                  cases hname
                obtain ⟨top, rest, hl⟩ := List.exists_cons_of_ne_nil hnil
                exact absurd (getTopAbility_cons hl) (hnew r top hname)
            cases hquery : queryAbilitySvcInfo cfg env bundleName want with
            | error e =>
              refine .ends _ m.remoteStarts ⟨?_, ?_⟩
              · simp only [comesUp, Option.bind_some, helem, hbundle, Option.any_some, hname,
                  Option.any_none, Bool.and_false]
              · simp only [newApp, helem, hbundle, if_neg hlocal, hname, Option.isSome_none,
                  Bool.false_eq_true, if_false, hquery]
            | ok info =>
              refine .startsNew want bundleName info ?_ ?_ hname hquery
              · simp only [newApp, helem, hbundle, if_neg hlocal, hname, Option.isSome_none,
                  Bool.false_eq_true, if_false, hquery]
              · rw [helem, Option.bind_some, hbundle]

theorem startAbility_settles {env : Env} (hcap : 3 ≤ cfg.abilityListCapacity) (hacc : env.Accepts)
    (hasked : env.AnswersAsked) {m : Manager} (h : Idle cfg rs m)
    (hlock : m.isAppScheduling = false) {want : Option Want}
    (hok : startStrands cfg env m want = false) :
    Settles (Idle cfg rs) (Busy cfg rs) m (startAbility cfg env m want) := by
  have hcases := startAbility_cases cfg env hlock want
  generalize startAbility cfg env m want = x at hcases ⊢
  cases hcases with
  | ends ret remote hnone => exact settles_idle rfl (.inr rfl) (h.congr rfl rfl rfl rfl)
  | bringsUp w r top hmem htop hne hup =>
    obtain ⟨rest, hl⟩ := List.head?_eq_some_iff.mp htop
    exact bringUp_settles hacc (h.locked true) rfl hl (get_of_mem h.shape.nodup hmem) hne w
  | startsNew w bundleName info happ hbundle hname hquery =>
    have hanswer := queryAbilitySvcInfo_bundleName hasked hbundle hquery
    refine startAbilityInfo_settles hcap hacc (h.locked true) rfl hanswer hname fun hempty => ?_
    rw [startStrands, happ, Option.any_some] at hok
    simp only [ne_eq, hempty, not_false_eq_true, decide_true, Bool.true_and] at hok
    have htop : Manager.getTopAbility { m with isAppScheduling := true } = m.getTopAbility := rfl
    rw [htop]
    cases hm : m.getTopAbility with
    | none =>
      rw [hm] at hok
      intro hstartup
      simpa [hstartup] using hok
    | some top =>
      rw [hm] at hok
      intro hresponse
      simp only [hresponse, Bool.true_and] at hok
      exact hok

end

/-! ## Replies -/

/-- A change to a record that leaves alone what the phases look at. -/
structure KeepsPhase (f : AbilityRecord → AbilityRecord) : Prop where
  token : ∀ r, (f r).token = r.token
  thread : ∀ r, (f r).abilityThread = r.abilityThread
  terminated : ∀ r, (f r).isTerminated = r.isTerminated
  data : ∀ r, (f r).abilityData = r.abilityData

section
variable {m m' : Manager} (token : UInt16) {f : AbilityRecord → AbilityRecord}

theorem KeepsPhase.at (hf : KeepsPhase f) :
    KeepsPhase fun r => if r.token == token then f r else r := by
  refine ⟨fun r => ?_, fun r => ?_, fun r => ?_, fun r => ?_⟩ <;> split
  all_goals first | rfl | simp only [hf.token, hf.thread, hf.terminated, hf.data]

theorem OnlyThread.modify {l : AbilityList} {y : UInt16} (h : OnlyThread y l) (hf : KeepsPhase f) : OnlyThread y (l.modify token f) := by
  intro r hr hrt
  obtain ⟨x, hx, rfl⟩ := List.mem_map.mp hr
  rw [(hf.at token).thread x]
  rw [(hf.at token).token x] at hrt
  exact h x hx hrt

theorem Leaving.modify {y : UInt16} (h : Leaving m y) (hf : KeepsPhase f)
    (hl : m'.abilityList = m.abilityList.modify token f) (hp : m'.pendingToken = m.pendingToken) :
    Leaving m' y := by
  obtain ⟨⟨r, hr, hthread, next, rest, hnext, hpending⟩, honly⟩ := h
  have hg := hf.at token
  refine ⟨⟨if r.token == token then f r else r, ?_, by rw [hg.thread r]; exact hthread,
    if next.token == token then f next else next, AbilityList.modify rest token f, ?_, ?_⟩, ?_⟩
  · rw [hl, get_modify hf.token, hr]
    simp
  · have herase : ∀ t, AbilityList.erase (m.abilityList.modify token f) t =
        AbilityList.modify (m.abilityList.erase t) token f := by
      intro t
      unfold AbilityList.erase AbilityList.modify
      rw [List.eraseP_map]
      congr 2
      funext x
      exact congrArg (· == t) (hg.token x)
    unfold withoutDestroyed at hnext ⊢
    rw [hl, hg.terminated r, hg.token r, herase]
    split
    · next hterm =>
      rw [if_pos hterm] at hnext
      rw [hnext]
      rfl
    · next hterm =>
      rw [if_neg hterm] at hnext
      rw [hnext]
      rfl
  · rw [hp, hg.token next]
    exact hpending
  · rw [hl]
    exact honly.modify token hf

theorem Entering.modify {y : UInt16} (h : Entering m y) (hf : KeepsPhase f)
    (hl : m'.abilityList = m.abilityList.modify token f) (hp : m'.pendingToken = m.pendingToken) :
    Entering m' y := by
  obtain ⟨⟨r, hr, ht, hthread⟩, honly, hpending⟩ := h
  have hg := hf.at token
  refine ⟨⟨if r.token == token then f r else r, ?_, (hg.token r).trans ht,
    by rw [hg.thread r]; exact hthread⟩, ?_, hp.trans hpending⟩
  · unfold Manager.getTopAbility AbilityList.getTopAbility AbilityList.modify at *
    rw [hl, List.head?_map, hr]
    rfl
  · rw [hl]
    exact honly.modify token hf

theorem Phase.modify {x : UInt16 × SliteAbilityState} (h : Phase m x) (hf : KeepsPhase f)
    (hl : m'.abilityList = m.abilityList.modify token f) (hp : m'.pendingToken = m.pendingToken) :
    Phase m' x :=
  h.imp (.imp_right fun h => h.modify token hf hl hp) (.imp_right fun h => h.modify token hf hl hp)

end

section
variable {cfg : Config} {rs : List (UInt16 × SliteAbilityState)} {m : Manager}

/-- The reply being handled is the one thing in flight. -/
theorem Busy.reply {x : UInt16 × SliteAbilityState} (h : Busy cfg (x :: rs) m) :
    m.sent = [] ∧ rs = [] ∧ Phase m x := by
  obtain ⟨-, y, hy, hphase⟩ := h
  unfold inFlight at hy
  rw [List.append_eq_singleton_iff] at hy
  rcases hy with ⟨hsent, hrs⟩ | ⟨-, hrs⟩
  · rw [List.cons.injEq] at hrs
    obtain ⟨rfl, rfl⟩ := hrs
    exact ⟨List.map_eq_nil_iff.mp hsent, rfl, hphase⟩
  · cases hrs

/-- The message being answered is the one thing in flight. -/
theorem Busy.answer {i : Nat} {msg : SliteAbilityInnerMsg} (hmsg : m.sent[i]? = some msg)
    (h : Busy cfg rs m) :
    m.sent.eraseIdx i = [] ∧ rs = [] ∧ Phase m (msg.token, msg.msgId.requested) := by
  obtain ⟨-, y, hy, hphase⟩ := h
  unfold inFlight at hy
  rw [List.append_eq_singleton_iff] at hy
  rcases hy with ⟨hsent, -⟩ | ⟨hsent, hrs⟩
  · rw [List.map_eq_nil_iff.mp hsent] at hmsg
    cases hmsg
  · obtain ⟨x, hx, rfl⟩ := List.map_eq_singleton_iff.mp hsent
    rw [hx] at hmsg ⊢
    cases i with
    | zero =>
      cases hmsg
      exact ⟨rfl, hrs, hphase⟩
    | succ i => cases hmsg

theorem Phase.entering {token : UInt16} {state : SliteAbilityState} (h : Phase m (token, state))
    (hstate : state = .initial ∨ state = .foreground) : Entering m token := by
  rcases h with ⟨h, -⟩ | ⟨-, h⟩
  · rcases hstate with rfl | rfl <;> rcases h with h | h <;> cases h
  · exact h

theorem Phase.leaving {token : UInt16} {state : SliteAbilityState} (h : Phase m (token, state))
    (hstate : state = .background ∨ state = .uninitialized) : Leaving m token := by
  rcases h with ⟨-, h⟩ | ⟨h, -⟩
  · exact h
  · rcases hstate with rfl | rfl <;> rcases h with h | h <;> cases h

/-- Handled as part of a switch: the lock and the queue stay. -/
theorem settled_busy {m' : Manager} (hlock : m'.isAppScheduling = m.isAppScheduling)
    (hqueue : m'.abilityOperation = m.abilityOperation) (hl : m.isAppScheduling = true)
    (hq : ∀ o ∈ m.abilityOperation, o.WellFormed) (h : Busy cfg rs m') :
    Settled (Idle cfg rs) (Busy cfg rs) m' :=
  .busy (hlock.trans hl) (hqueue ▸ hq) h

/-- `OnCreateDone` brings the created ability to the front. -/
theorem onCreateDone_spec {env : Env} (hacc : env.Accepts) (hs : Shape cfg m) (hsent : m.sent = [])
    {token : UInt16} (h : Entering m token) :
    Busy cfg [] (onCreateDone env m token) ∧
      (onCreateDone env m token).isAppScheduling = m.isAppScheduling ∧
      (onCreateDone env m token).abilityOperation = m.abilityOperation := by
  obtain ⟨n, hn, hs'⟩ := setAbilityStateAndNotify_spec hs token .inited
  have h' : Entering (m.setAbilityStateAndNotify token .inited) token :=
    h.modify token (f := fun r => { r with state := .inited })
      ⟨fun _ => rfl, fun _ => rfl, fun _ => rfl, fun _ => rfl⟩ (by rw [hn]) (by rw [hn])
  obtain ⟨r, hr, ht, hthread⟩ := h'.top
  have hget := get_of_mem hs'.nodup (List.mem_of_head? hr)
  rw [ht] at hget
  have heq : onCreateDone env m token =
      { m.setAbilityStateAndNotify token .inited with
        sent := (m.setAbilityStateAndNotify token .inited).sent ++ [innerMsg .foreground r] } := by
    simp only [onCreateDone, schedulerLifecycle, hget]
    rw [sendMsgToAbilityThread_thread hacc _ hthread]
  rw [heq]
  refine ⟨⟨hs'.sublist (List.Sublist.refl _) rfl, (token, .foreground), ?_, .inr ⟨.inr rfl, ?_⟩⟩,
    by rw [hn], by rw [hn]⟩
  · have hsent' : (m.setAbilityStateAndNotify token .inited).sent = [] := by
      rw [hn]
      exact hsent
    simp [inFlight, hsent', innerMsg_token, innerMsg_requested, ht]
  · exact ⟨⟨r, hr, ht, hthread⟩, h'.onlyThread, h'.noPending⟩

/-- `OnBackgroundDone` has the ability destroyed. -/
theorem onBackgroundDone_spec {env : Env} (hacc : env.Accepts) (hs : Shape cfg m)
    (hsent : m.sent = []) {token : UInt16} (h : Leaving m token) :
    Busy cfg [] (onBackgroundDone env m token) ∧
      (onBackgroundDone env m token).isAppScheduling = m.isAppScheduling ∧
      (onBackgroundDone env m token).abilityOperation = m.abilityOperation := by
  obtain ⟨n, hn, hs'⟩ := setAbilityStateAndNotify_spec hs token .background
  have h' : Leaving (m.setAbilityStateAndNotify token .background) token :=
    h.modify token (f := fun r => { r with state := .background })
      ⟨fun _ => rfl, fun _ => rfl, fun _ => rfl, fun _ => rfl⟩ (by rw [hn]) (by rw [hn])
  have hsent' : (m.setAbilityStateAndNotify token .background).sent = [] := by
    rw [hn]
    exact hsent
  obtain ⟨r, hr, hthread, -⟩ := h'.listed
  have ht := (get_eq_some hr).2
  obtain ⟨saved, heq⟩ : ∃ saved, onBackgroundDone env m token =
      { m.setAbilityStateAndNotify token .background with
        abilityList := (m.setAbilityStateAndNotify token .background).abilityList.modify token
          fun r => { r with abilitySavedData := saved }
        sent := (m.setAbilityStateAndNotify token .background).sent ++
          [innerMsg .uninitialized { r with abilitySavedData := saved }] } := by
    simp only [onBackgroundDone, hr]
    generalize (if (!r.isTerminated && r.abilitySavedData.isNone) = true then some {}
      else Option.map AbilitySavedData.reset r.abilitySavedData) = saved
    exact ⟨saved, congrArg Prod.snd (sendMsgToAbilityThread_thread hacc _
      (r := { r with abilitySavedData := saved }) hthread .uninitialized)⟩
  rw [heq]
  have hkeeps : KeepsPhase fun r : AbilityRecord => { r with abilitySavedData := saved } :=
    ⟨fun _ => rfl, fun _ => rfl, fun _ => rfl, fun _ => rfl⟩
  refine ⟨⟨hs'.modify _ rfl (fun _ => rfl) (fun _ hr => hr) rfl, (token, .uninitialized), ?_,
    .inl ⟨.inr rfl, h'.modify token hkeeps rfl rfl⟩⟩, by rw [hn], by rw [hn]⟩
  simp [inFlight, hsent', innerMsg_token, innerMsg_requested, ht]

/-- The reply to a destroy that strands: the ability to go on with cannot be launched
while operations are deferred, or with nothing else listed to come back to. -/
def replyStrands (env : Env) (m : Manager) (token : UInt16) (state : SliteAbilityState) : Bool :=
  state = .uninitialized && (m.abilityList.get token).any fun r =>
    match withoutDestroyed m.abilityList r with
    | [] => false
    | next :: rest => env.initAbilityThread next.token ≠ errOk &&
        (!m.abilityOperation.isEmpty || (m.pendingToken ≠ 0 && rest.isEmpty))

/-- `OnDestroyDone` launches the ability to go on with, or frees the manager. -/
theorem onDestroyDone_settled {env : Env} (hacc : env.Accepts) (hs : Shape cfg m)
    (hsent : m.sent = []) (hlock : m.isAppScheduling = true)
    (hq : ∀ o ∈ m.abilityOperation, o.WellFormed) {token : UInt16} (h : Leaving m token)
    (hok : replyStrands env m token .uninitialized = false) :
    Settled (Idle cfg []) (Busy cfg []) (onDestroyDone cfg env m token) := by
  obtain ⟨r, hr, -, next, rest, hnext, hpending⟩ := h.listed
  obtain ⟨m', next', rest', hm', hland, ht', hlen', hp', hlock', hq'⟩ :=
    onDestroyDone_landed env hs hsent hr h.onlyThread hnext hpending
  rw [hm']
  by_cases hinit : env.initAbilityThread next'.token = errOk
  · obtain ⟨hb, hl, hqueue⟩ := launchNext_created hacc hland hinit
    exact settled_busy (hl.trans hlock') (hqueue.trans hq') hlock hq hb
  · have hok' : m.abilityOperation = [] ∧ (m.pendingToken = 0 ∨ rest ≠ []) := by
      have hinit' : env.initAbilityThread next.token ≠ errOk := ht' ▸ hinit
      simp only [replyStrands, hr, Option.any_some, hnext, decide_true, Bool.true_and, ne_eq, hinit',
        not_false_eq_true, Bool.or_eq_false_iff, Bool.not_eq_false', List.isEmpty_iff,
        Bool.and_eq_false_iff, decide_eq_false_iff_not, Decidable.not_not,
        List.isEmpty_eq_false_iff] at hok
      exact hok
    have hrest : m'.pendingToken = 0 ∨ rest' ≠ [] := by
      rw [hp']
      refine hok'.2.imp_right fun hne e => ?_
      exact hne (List.length_eq_zero_iff.mp (hlen' ▸ by simp [e]))
    obtain ⟨hi, hl, hqueue⟩ := launchNext_failed hacc hland hinit hrest
    exact .idle hl ((hqueue.trans hq').trans hok'.1) hi

end

/-! ## Runs -/

/-- The steps of a run strand nothing when every queue takes its messages, the bundle
manager answers for the bundle it is asked for, and no start, forced stop or destroy breaks
the chain. -/
def condition (cfg : Config) : Condition where
  operation env m o := env.Accepts ∧ env.AnswersAsked ∧
    (o.msgId = .startAbility → startStrands cfg env m o.want = false) ∧
    (o.msgId = .terminateApp → forceStopStrands env m o.token.toUInt16 = false)
  reply env m token state := env.Accepts ∧ replyStrands env m token state = false

theorem dispatch_settles {cfg : Config} {rs : List (UInt16 × SliteAbilityState)}
    (hcap : 3 ≤ cfg.abilityListCapacity) {env : Env} {m : Manager} (h : Idle cfg rs m)
    (hlock : m.isAppScheduling = false) {o : AbilityOperation} (hwf : o.WellFormed)
    (hok : (condition cfg).operation env m o) :
    Settles (Idle cfg rs) (Busy cfg rs) m ((operations cfg).dispatch env m o) := by
  obtain ⟨hacc, hasked, hstart, hstop⟩ := hok
  unfold Operations.dispatch
  cases hid : o.msgId with
  | startAbility => exact startAbility_settles hcap hacc hasked h hlock (hstart hid)
  | terminateAbility => exact terminateAbility_settles hacc h hlock _
  | terminateApp => exact forceStopBundle_settles hacc h hlock (hstop hid)
  | terminateMission => exact terminateMission_settles h hlock _
  | terminateAppByBundleName => exact forceStop_settles hacc h hlock _
  | terminateAll =>
    obtain ⟨want, hwant⟩ := Option.isSome_iff_exists.mp (hwf hid)
    simp only [hwant]
    exact terminateAll_settles h hlock _
  | other _ => exact settles_idle rfl (.inr hlock) h

theorem operations_defers (cfg : Config) : (operations cfg).Defers where
  startAbility _ _ _ h := by simp only [operations, startAbility, h, if_true]
  terminateAbility _ _ _ h := by simp only [operations, terminateAbility, h, if_true]
  terminateMission _ _ _ h := by simp only [operations, terminateMission, h, if_true]
  forceStopBundle _ _ _ h := by simp only [operations, forceStopBundle, h, if_true]
  forceStop _ _ _ h := by simp only [operations, forceStop, h, if_true]
  terminateAll _ _ _ h := by simp only [operations, terminateAll, h, if_true]

/-- Busyness looks at the list, the pending token, the messages and the fault flag. -/
theorem Busy.congr {cfg : Config} {rs : List (UInt16 × SliteAbilityState)} {m m' : Manager}
    (h : Busy cfg rs m) (hl : m'.abilityList = m.abilityList)
    (hp : m'.pendingToken = m.pendingToken) (hs : m'.sent = m.sent) (hf : m'.fault = m.fault) :
    Busy cfg rs m' := by
  obtain ⟨hshape, x, hx, hphase⟩ := h
  refine ⟨hshape.sublist (hl ▸ List.Sublist.refl _) hf, x, ?_, ?_⟩
  · unfold inFlight at hx ⊢
    rw [hs]
    exact hx
  · refine hphase.modify 0 (f := id) ⟨fun _ => rfl, fun _ => rfl, fun _ => rfl, fun _ => rfl⟩
      ?_ hp
    rw [hl]
    simp [AbilityList.modify]

section
variable {cfg : Config} {rs : List (UInt16 × SliteAbilityState)}

/-- The answered message is a reply now. -/
theorem Busy.answered {m : Manager} {i : Nat} {msg : SliteAbilityInnerMsg}
    (left : AbilitySavedData) (hmsg : m.sent[i]? = some msg) (hb : Busy cfg rs m) :
    Busy cfg (rs ++ [(msg.token, msg.msgId.requested)])
      { leaveSavedData m msg left with sent := m.sent.eraseIdx i } := by
  obtain ⟨hsent, hrs, hphase⟩ := hb.answer hmsg
  have hs := hb.shape
  subst hrs
  have hflight (m' : Manager) (hm' : m'.sent = m.sent.eraseIdx i) :
      inFlight ([] ++ [(msg.token, msg.msgId.requested)]) m' =
        [(msg.token, msg.msgId.requested)] := by
    simp [inFlight, hm', hsent]
  rcases leaveSavedData_eq m msg left with heq | heq
  · rw [heq]
    exact ⟨hs.sublist (List.Sublist.refl _) rfl, _, hflight _ rfl,
      hphase.modify 0 (f := id) ⟨fun _ => rfl, fun _ => rfl, fun _ => rfl, fun _ => rfl⟩
        (by simp [AbilityList.modify]) rfl⟩
  · rw [heq]
    refine ⟨hs.modify _ rfl (fun _ => rfl) (fun _ hr => hr) rfl, _, hflight _ rfl, ?_⟩
    exact hphase.modify msg.token
      (f := fun r => { r with abilitySavedData := r.abilitySavedData.map fun _ => left })
      ⟨fun _ => rfl, fun _ => rfl, fun _ => rfl, fun _ => rfl⟩ rfl rfl

theorem leaveSavedData_lock (m : Manager) (msg : SliteAbilityInnerMsg) (left : AbilitySavedData) :
    (leaveSavedData m msg left).isAppScheduling = m.isAppScheduling ∧
      (leaveSavedData m msg left).abilityOperation = m.abilityOperation := by
  unfold leaveSavedData
  split <;> exact ⟨rfl, rfl⟩

theorem answer_settled {m : Manager} {i : Nat} {msg : SliteAbilityInnerMsg}
    (left : AbilitySavedData) (hmsg : m.sent[i]? = some msg)
    (h : Settled (Idle cfg rs) (Busy cfg rs) m) :
    Settled (Idle cfg (rs ++ [(msg.token, msg.msgId.requested)]))
      (Busy cfg (rs ++ [(msg.token, msg.msgId.requested)]))
      { leaveSavedData m msg left with sent := m.sent.eraseIdx i } := by
  cases h with
  | idle _ _ h =>
    rw [h.noSent] at hmsg
    cases hmsg
  | busy hlock hqueue hb =>
    obtain ⟨hl, hq⟩ := leaveSavedData_lock m msg left
    refine .busy (hl.trans hlock) ?_ (hb.answered left hmsg)
    show ∀ o ∈ (leaveSavedData m msg left).abilityOperation, o.WellFormed
    rw [hq]
    exact hqueue

/-- A switch ends when its last reply is handled: the ability of the reply is on top, in
front. -/
theorem Busy.foreground {m : Manager} {token : UInt16} (hb : Busy cfg ((token, .foreground) :: rs) m) :
    Idle cfg rs (onForegroundDone m token) ∧
      (onForegroundDone m token).abilityOperation = m.abilityOperation ∧
      ∃ r, (onForegroundDone m token).getTopAbility = some r ∧ r.token = token ∧
        r.abilityThread.isSome := by
  obtain ⟨hsent, hrs, hphase⟩ := hb.reply
  obtain ⟨n, hn, hs⟩ := setAbilityStateAndNotify_spec hb.shape token .foreground
  have h' : Entering (m.setAbilityStateAndNotify token .foreground) token :=
    (hphase.entering (.inr rfl)).modify token (f := fun r => { r with state := .foreground })
      ⟨fun _ => rfl, fun _ => rfl, fun _ => rfl, fun _ => rfl⟩ (by rw [hn]) (by rw [hn])
  obtain ⟨r, hr, ht, hthread⟩ := h'.top
  obtain ⟨rest, hl⟩ := List.head?_eq_some_iff.mp hr
  refine ⟨⟨hs, hrs, (by rw [onForegroundDone, hn]; exact hsent), ?_, fun _ _ _ => h'.noPending⟩,
    by rw [onForegroundDone, hn], r, hr, ht, hthread⟩
  intro x hx
  unfold onForegroundDone at hx
  have hd := hs.nodup
  rw [hl] at hx hd
  rw [List.map_cons, List.nodup_cons] at hd
  refine h'.onlyThread x (hl ▸ List.mem_cons_of_mem r hx) fun e => hd.1 ?_
  exact List.mem_map.mpr ⟨x, hx, e.trans ht.symm⟩

theorem onForegroundDone_spec {m : Manager} {token : UInt16}
    (h : Settled (Idle cfg ((token, .foreground) :: rs)) (Busy cfg ((token, .foreground) :: rs)) m) :
    Idle cfg rs (onForegroundDone m token) ∧
      (onForegroundDone m token).abilityOperation = m.abilityOperation := by
  cases h with
  | idle _ _ h => exact absurd h.noReplies (List.cons_ne_nil _ _)
  | busy _ _ hb => exact ⟨hb.foreground.1, hb.foreground.2.1⟩

theorem reply_settled {envs : Nat → Env} {m : Manager} {token : UInt16} {state : SliteAbilityState}
    (hstate : state ≠ .foreground)
    (h : Settled (Idle cfg ((token, state) :: rs)) (Busy cfg ((token, state) :: rs)) m)
    (hok : (condition cfg).reply (envs 0) m token state) :
    Settled (Idle cfg rs) (Busy cfg rs) (schedulerLifecycleDone (multiTasks cfg) envs m token state) := by
  obtain ⟨hacc, hok⟩ := hok
  cases h with
  | idle _ _ h => exact absurd h.noReplies (List.cons_ne_nil _ _)
  | busy hlock hqueue hb =>
    obtain ⟨hsent, rfl, hphase⟩ := hb.reply
    cases state with
    | foreground => exact absurd rfl hstate
    | initial =>
      obtain ⟨hb', hl, hq⟩ := onCreateDone_spec hacc hb.shape hsent (hphase.entering (.inl rfl))
      exact settled_busy hl hq hlock hqueue hb'
    | background =>
      obtain ⟨hb', hl, hq⟩ := onBackgroundDone_spec hacc hb.shape hsent (hphase.leaving (.inl rfl))
      exact settled_busy hl hq hlock hqueue hb'
    | uninitialized =>
      exact onDestroyDone_settled hacc hb.shape hsent hlock hqueue (hphase.leaving (.inr rfl)) hok
    | unknown => rcases hphase with ⟨h | h, -⟩ | ⟨h | h, -⟩ <;> cases h

end

/-- How the multi-task build keeps its lock. -/
def discipline (cfg : Config) (hcap : 3 ≤ cfg.abilityListCapacity) :
    Discipline (multiTasks cfg) (condition cfg) where
  Idle := Idle cfg
  Busy := Busy cfg
  idle_queue _ h := h.congr rfl rfl rfl rfl
  idle_unlock h := h.locked false
  idle_enter r h := by
    unfold Request.enter
    split <;> exact h.congr rfl rfl rfl rfl
  busy_defer r _ h := by
    unfold Request.enter
    split <;> exact h.congr rfl rfl rfl rfl
  idle_flag _ h := h.congr rfl rfl rfl rfl
  busy_flag _ h := h.congr rfl rfl rfl rfl
  defers := operations_defers cfg
  operation _ _ _ h hlock hwf hok := dispatch_settles hcap h hlock hwf hok
  answer left hmsg h := answer_settled left hmsg h
  foreground _ _ _ h _ := onForegroundDone_spec h
  reply _ _ _ _ hstate h hok := reply_settled hstate h hok

/-- The launcher has been started. -/
def Booted (cfg : Config) (s : System) : Prop :=
  s.replies = [] ∧ ∃ env, env.Accepts ∧ env.AnswersAsked ∧
    (startAbility cfg env {} (some (launcherWant env))).1 = errOk ∧
    s.manager = startLauncher cfg env {}

theorem Idle.empty (cfg : Config) : Idle cfg [] {} := by
  refine Idle.of_noThread ⟨List.nodup_nil, Nat.zero_le _, ?_, rfl⟩ rfl rfl ?_
  · intro r hr
    cases hr
  · intro r hr
    cases hr

theorem startStrands_empty (cfg : Config) (env : Env) (want : Option Want) :
    startStrands cfg env {} want = false := by
  unfold startStrands
  rw [Option.any_eq_false]
  intro app _
  simp [Manager.getTopAbility, AbilityList.getTopAbility]

theorem Booted.settled {cfg : Config} (hcap : 3 ≤ cfg.abilityListCapacity) {s : System}
    (h : Booted cfg s) : Settled (Idle cfg s.replies) (Busy cfg s.replies) s.manager := by
  obtain ⟨hrs, env, hacc, hasked, hret, hm⟩ := h
  obtain ⟨hqueue, hgo, hstay⟩ :=
    startAbility_settles hcap hacc hasked (Idle.empty cfg) rfl (startStrands_empty cfg env _)
  have hm' : s.manager = (startAbility cfg env {} (some (launcherWant env))).2 := hm
  rw [hrs, hm']
  by_cases hx : goesOn (startAbility cfg env {} (some (launcherWant env)))
  · have hlock := hx.resolve_left fun e => e hret
    exact .idle hlock hqueue (Manager.unlock_eq hlock ▸ hgo hx)
  · have hlock : (startAbility cfg env {} (some (launcherWant env))).2.isAppScheduling = true := by
      simp only [goesOn, not_or, Bool.not_eq_false] at hx
      exact hx.2
    refine .busy hlock ?_ (hstay hx)
    rw [hqueue]
    intro o ho
    cases ho

/-- No request is stranded in a run of the multi-task build whose steps meet `condition`,
with room for three records. -/
theorem multiTasks_noneStranded {cfg : Config} (hcap : 3 ≤ cfg.abilityListCapacity) {s : System}
    (h : Reached (System.next (multiTasks cfg)) (fun s e => s.meets (multiTasks cfg) (condition cfg) e)
      (Booted cfg) s) : s.noneStranded ∧ s.manager.fault = false := by
  have hs := (discipline cfg hcap).reached (fun _ h => h.settled hcap) h
  cases hs with
  | idle hlock hqueue h => exact ⟨fun _ => ⟨hlock, hqueue⟩, h.shape.noFault⟩
  | busy _ _ hb =>
    refine ⟨?_, hb.shape.noFault⟩
    rintro ⟨hsent, hreplies⟩
    obtain ⟨x, hx, -⟩ := hb.one
    simp [inFlight, hsent, hreplies] at hx

/-! ### Two starts -/

theorem working_accepts : Env.working.Accepts := fun _ _ => rfl

theorem working_answersAsked : Env.working.AnswersAsked := fun _ _ => rfl

/-- A configuration with room for eight. -/
def roomy : Config := { abilityListCapacity := 8 }

/-- The launcher on its way to the foreground, with room for eight. -/
def roomySystem : System where
  manager := startLauncher roomy .working {}

theorem roomySystem_booted : Booted roomy roomySystem :=
  ⟨rfl, .working, working_accepts, working_answersAsked, by decide, rfl⟩

/-- The next message is answered and the reply handled, `n` times. -/
def answered (n : Nat) : List Event :=
  (List.replicate n [Event.answer 0 {}, .reply fun _ => .working]).flatten

theorem answered_works (n : Nat) : ∀ e ∈ answered n, e.Works := by
  intro e he
  obtain ⟨l, hl, he⟩ := List.mem_flatten.mp he
  rw [List.eq_of_mem_replicate hl] at he
  rcases List.mem_cons.mp he with rfl | he
  · trivial
  · rw [List.mem_singleton.mp he]
    rfl

/-- An application is started over the launcher and at once another one, which waits until the
first is in front. -/
def twoStarts : List Event :=
  answered 2 ++ [.request (startOf (cstr "a")) fun _ => .working,
    .request (startOf (cstr "b")) fun _ => .working] ++ answered 8

theorem twoStarts_works : ∀ e ∈ twoStarts, e.Works := by
  intro e he
  rcases List.mem_append.mp he with he | he
  · rcases List.mem_append.mp he with he | he
    · exact answered_works 2 e he
    · rcases List.mem_cons.mp he with rfl | he
      · rfl
      · rw [List.mem_singleton.mp he]
        rfl
  · exact answered_works 8 e he

/-- `condition`, evaluated. -/
def strandsCheck (cfg : Config) : Check where
  operation m o := decide
    ((o.msgId = .startAbility → startStrands cfg .working m o.want = false) ∧
      (o.msgId = .terminateApp → forceStopStrands .working m o.token.toUInt16 = false))
  reply m token state := !replyStrands .working m token state

theorem strandsCheck_sound (cfg : Config) : (strandsCheck cfg).Sound (condition cfg) where
  operation _ _ h := ⟨working_accepts, working_answersAsked, of_decide_eq_true h⟩
  reply _ _ _ h := ⟨working_accepts, (Bool.not_eq_true' _).mp h⟩

theorem multiTasks_noneStranded_twoStarts :
    ∃ s, run (System.next (multiTasks roomy)) roomySystem twoStarts = some s ∧ s.quiet ∧
      s.manager.abilityList.map (·.token) = [2, 1, 0] ∧ s.noneStranded ∧ s.manager.fault = false := by
  have h : (roomySystem.runPasses (multiTasks roomy) (strandsCheck roomy) twoStarts).map
      (fun s => (decide s.quiet, s.manager.abilityList.map (·.token))) =
      some (true, [2, 1, 0]) := by decide
  obtain ⟨s, hs, h⟩ := Option.map_eq_some_iff.mp h
  rw [Prod.mk.injEq, decide_eq_true_eq] at h
  exact ⟨s, run_of_runIf _ hs, h.1, h.2, multiTasks_noneStranded (by decide)
    ((strandsCheck_sound roomy).reached twoStarts_works (.init roomySystem_booted) hs)⟩

/-! ### A launch that fails -/

/-- The launcher has been started and is on its way to the foreground. -/
def startedSystem : System where
  manager := startLauncher { abilityListCapacity := 3 } .working {}

theorem startedSystem_booted : Booted { abilityListCapacity := 3 } startedSystem :=
  ⟨rfl, .working, working_accepts, working_answersAsked, by decide, rfl⟩

/-- No thread can be created. -/
def noThreads : Env := { Env.working with initAbilityThread := fun _ => memoryMallocError }

/-- A start is deferred while the launcher comes up and run when it has; another is deferred
while the launcher is sent away, and then the application cannot be created. -/
def strandingEvents : List Event :=
  let request := Event.request (startOf (cstr "a")) fun _ => .working
  let reply := Event.reply fun _ => .working
  [.answer 0 {}, reply, .answer 0 {}, request, reply, .answer 0 {}, reply, .answer 0 {}, request,
    .reply fun _ => noThreads]

/-- A launch that fails strands the start that was deferred during the switch. -/
theorem multiTasks_failedLaunch_strands :
    ∃ s, Reached (System.next (multiTasks { abilityListCapacity := 3 })) (fun _ _ => True)
      (Booted { abilityListCapacity := 3 }) s ∧ ¬ s.noneStranded := by
  have h : (run (System.next (multiTasks { abilityListCapacity := 3 })) startedSystem
      strandingEvents).map (fun s => decide s.noneStranded) = some false := by decide
  obtain ⟨s, hs, hstranded⟩ := Option.map_eq_some_iff.mp h
  exact ⟨s, Reached.of_run (.init startedSystem_booted) _ hs, of_decide_eq_false hstranded⟩

end AbilityLite.Slite.MultiTasks
