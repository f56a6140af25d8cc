import AbilityLite.Slite.Scheduling

/-
  Runs of the single-task build.

  The record list is always a stack of applications over the launcher, each with
  its thread (`Stacked`), and while `isAppScheduling` is held something in flight
  drives the switch that will release it (`Driven`): a launcher message, or one to
  the application on top. Three branches hold the lock with nothing sent
  (`startKeepsLock`, `forceStopKeepsLock`); runs that do not take them strand no
  request.
-/

namespace AbilityLite.Slite.SingleTask
open Manager AbilityList

/-! ## The record list -/

/-- The changes made to a record leave who it is and its thread. -/
structure SameIdentity (r r' : AbilityRecord) : Prop where
  token : r'.token = r.token
  abilityThread : r'.abilityThread = r.abilityThread
  appName : r'.appName = r.appName

theorem sameIdentity_setWantData (r : AbilityRecord) (data : Option (List UInt8))
    (len : UInt16) : SameIdentity r (r.setWantData data len) := by
  unfold AbilityRecord.setWantData
  split <;> exact ⟨rfl, rfl, rfl⟩

/-- Applications with a thread over the launcher, with distinct tokens. -/
inductive Stacked : AbilityList → Prop
  | launcher (r : AbilityRecord) (htoken : r.token = launcherToken)
      (hname : isLauncher r.appName = true) : Stacked [r]
  | app (r : AbilityRecord) (l : AbilityList) (htoken : r.token ≠ launcherToken)
      (hthread : r.abilityThread.isSome) (hfresh : ∀ x ∈ l, x.token ≠ r.token) (hl : Stacked l) :
      Stacked (r :: l)

namespace Stacked

theorem nodup {l : AbilityList} (h : Stacked l) : (l.map (·.token)).Nodup := by
  induction h with
  | launcher r => simp
  | app r l _ _ hfresh _ ih =>
    rw [List.map_cons, List.nodup_cons]
    refine ⟨fun hmem => ?_, ih⟩
    obtain ⟨x, hx, hxt⟩ := List.mem_map.mp hmem
    exact hfresh x hx hxt

theorem launcher_mem {l : AbilityList} (h : Stacked l) : ∃ r ∈ l, r.token = launcherToken := by
  induction h with
  | launcher r htoken _ => exact ⟨r, List.mem_singleton.mpr rfl, htoken⟩
  | app r l _ _ _ _ ih =>
    obtain ⟨x, hx, hxt⟩ := ih
    exact ⟨x, List.mem_cons_of_mem r hx, hxt⟩

theorem get_launcher {l : AbilityList} (h : Stacked l) : ∃ r, get l launcherToken = some r :=
  Option.isSome_iff_exists.mp (get_isSome.mpr h.launcher_mem)

/-- Every record but the launcher's has a thread. -/
theorem thread {l : AbilityList} (h : Stacked l) {r : AbilityRecord} (hr : r ∈ l)
    (htoken : r.token ≠ launcherToken) : r.abilityThread.isSome := by
  induction h with
  | launcher x hx _ =>
    obtain rfl := List.mem_singleton.mp hr
    exact absurd hx htoken
  | app x l _ hthread _ _ ih =>
    rcases List.mem_cons.mp hr with rfl | hr
    · exact hthread
    · exact ih hr

/-- An application that is listed is not below the launcher. -/
theorem top_ne_launcher {r : AbilityRecord} {l : AbilityList} (h : Stacked (r :: l))
    {x : AbilityRecord} (hx : x ∈ r :: l) (htoken : x.token ≠ launcherToken) :
    r.token ≠ launcherToken := by
  cases h with
  | launcher _ ht _ =>
    obtain rfl := List.mem_singleton.mp hx
    exact absurd ht htoken
  | app _ _ ht _ _ _ => exact ht

/-- A record under a name that is not the launcher's is not the launcher. -/
theorem token_ne_launcher {l : AbilityList} (h : Stacked l) {r : AbilityRecord} (hr : r ∈ l)
    (hname : isLauncher r.appName = false) : r.token ≠ launcherToken := by
  induction h with
  | launcher x _ hx =>
    obtain rfl := List.mem_singleton.mp hr
    rw [hx] at hname
    cases hname
  | app x l htoken _ _ _ ih =>
    rcases List.mem_cons.mp hr with rfl | hr
    · exact htoken
    · exact ih hr

/-- Removing applications keeps the stack. -/
theorem sublist {l l' : AbilityList} (h : Stacked l) (hsub : l'.Sublist l)
    (hmem : ∃ r ∈ l', r.token = launcherToken) : Stacked l' := by
  induction h generalizing l' with
  | launcher r htoken hname =>
    rcases hsub with _ | ⟨_, hsub⟩ | ⟨_, hsub⟩
    · rw [List.sublist_nil.mp hsub] at hmem
      simp at hmem
    · rw [List.sublist_nil.mp hsub]
      exact .launcher r htoken hname
  | app r l htoken hthread hfresh hl ih =>
    rcases hsub with _ | ⟨_, hsub⟩ | ⟨_, hsub⟩
    · exact ih hsub hmem
    · obtain ⟨x, hx, hxt⟩ := hmem
      rcases List.mem_cons.mp hx with rfl | hx
      · exact absurd hxt htoken
      · exact .app r _ htoken hthread (fun y hy => hfresh y (hsub.subset hy)) (ih hsub ⟨x, hx, hxt⟩)

/-- A change to a record that is none to the stack. -/
theorem modify {l : AbilityList} (h : Stacked l) {token : UInt16}
    {f : AbilityRecord → AbilityRecord} (hf : ∀ r, SameIdentity r (f r)) :
    Stacked (AbilityList.modify l token f) := by
  have hg : ∀ r, SameIdentity r (if r.token = token then f r else r) := by
    intro r
    split
    · exact hf r
    · exact ⟨rfl, rfl, rfl⟩
  induction h with
  | launcher r htoken hname =>
    rw [modify_cons]
    exact .launcher _ ((hg r).token.trans htoken) ((hg r).appName ▸ hname)
  | app r l htoken hth hfresh hl ih =>
    rw [modify_cons]
    refine .app _ _ (by rw [(hg r).token]; exact htoken) (by rw [(hg r).abilityThread]; exact hth)
      ?_ ih
    intro x hx
    obtain ⟨y, hy, rfl⟩ := List.mem_map.mp hx
    have hy' : (if (y.token == token) = true then f y else y).token = y.token := by
      simpa using (hg y).token
    rw [(hg r).token, hy']
    exact hfresh y hy

theorem erase {l : AbilityList} (h : Stacked l) {token : UInt16} (htoken : token ≠ launcherToken) :
    Stacked (AbilityList.erase l token) := by
  obtain ⟨r, hr, hrt⟩ := h.launcher_mem
  refine h.sublist (List.eraseP_sublist ..) ⟨r, ?_, hrt⟩
  refine (List.mem_eraseP_of_neg ?_).mpr hr
  simp only [hrt, beq_iff_eq]
  exact fun e => htoken e.symm

/-- The launcher is at the bottom. -/
theorem bottom {l : AbilityList} (h : Stacked l) :
    ∃ apps r, l = apps ++ [r] ∧ r.token = launcherToken := by
  induction h with
  | launcher r htoken _ => exact ⟨[], r, rfl, htoken⟩
  | app r l _ _ _ _ ih =>
    obtain ⟨apps, x, rfl, hx⟩ := ih
    exact ⟨r :: apps, x, rfl, hx⟩

theorem evict {l : AbilityList} (h : Stacked l) (capacity : Nat) :
    Stacked (AbilityList.evict capacity l) := by
  obtain ⟨apps, r, rfl, hr⟩ := h.bottom
  refine h.sublist (evict_sublist capacity _) ⟨r, ?_, hr⟩
  unfold AbilityList.evict
  split
  · rw [popBottomAbility_concat, if_pos (by simp [isPermanentAbility, hr])]
    simp
  · simp

/-- Adding an application keeps the stack, and an application is on top. -/
theorem add {l : AbilityList} (h : Stacked l) (capacity : Nat) {r : AbilityRecord}
    (htoken : r.token ≠ launcherToken) (hthread : r.abilityThread.isSome) :
    Stacked (AbilityList.add capacity l r).1 ∧
      ∃ x l', (AbilityList.add capacity l r).1 = x :: l' ∧ x.token ≠ launcherToken := by
  have he := h.evict capacity
  cases hg : get (AbilityList.evict capacity l) r.token with
  | none =>
    rw [add_of_fresh hg]
    exact ⟨.app r _ htoken hthread (get_eq_none.mp hg) he, r, _, rfl, htoken⟩
  | some y =>
    rw [add_of_listed (by rw [hg]; rfl)]
    refine ⟨he, ?_⟩
    cases hl : AbilityList.evict capacity l with
    | nil => exact absurd (hl ▸ he) (by rintro ⟨⟩)
    | cons x l' =>
      obtain ⟨hy, hyt⟩ := get_eq_some hg
      exact ⟨x, l', rfl, (hl ▸ he).top_ne_launcher (hl ▸ hy) (hyt ▸ htoken)⟩

theorem filter_tail {r : AbilityRecord} {l : AbilityList} (h : Stacked (r :: l))
    (excludedBundleName : Option CString) :
    Stacked (r :: l.filter (reserved excludedBundleName)) := by
  cases h with
  | launcher _ ht hname => exact .launcher r ht hname
  | app _ _ htoken hthread hfresh hl =>
    obtain ⟨x, hx, hxt⟩ := hl.launcher_mem
    refine .app r _ htoken hthread (fun y hy => hfresh y (List.mem_filter.mp hy).1) ?_
    refine hl.sublist List.filter_sublist ⟨x, List.mem_filter.mpr ⟨hx, ?_⟩, hxt⟩
    simp [reserved, isPermanentAbility, hxt]

end Stacked

/-! ## The manager -/

/-- What holds of the manager between any two operations or replies. -/
structure Shape (m : Manager) : Prop where
  stacked : Stacked m.abilityList
  native : m.nativeAbility.isSome
  noPending : m.pendingToken = 0
  counter : m.nextToken ≠ 0xFFFF
  noFault : m.fault = false

/-- A message or reply of `token` in `state` keeps the switch going when the record
on top is the one with token `top`. -/
def drives (top : UInt16) (x : UInt16 × SliteAbilityState) : Prop :=
  (x.1 = launcherToken ∧ (x.2 = .foreground ∨ x.2 = .background ∧ top ≠ launcherToken)) ∨
    (x.1 = top ∧ top ≠ launcherToken ∧ x.2 ≠ .unknown)

/-- Something in flight will release the lock. -/
def Driven (rs : List (UInt16 × SliteAbilityState)) (m : Manager) : Prop :=
  ∃ r, m.getTopAbility = some r ∧ ∃ x ∈ inFlight rs m, drives r.token x

def Busy (rs : List (UInt16 × SliteAbilityState)) (m : Manager) : Prop := Shape m ∧ Driven rs m

/-- `m'` is `m` with one more message to the launcher, and the launcher's ability in
the state of that message. -/
def toLauncher (m : Manager) (s : SliteAbilityState) (msg : SliteAbilityInnerMsg) : Manager :=
  { m with nativeAbility := some s, sent := m.sent ++ [msg] }

theorem Shape.toLauncher {m : Manager} (h : Shape m) (s : SliteAbilityState)
    (msg : SliteAbilityInnerMsg) : Shape (toLauncher m s msg) :=
  ⟨h.stacked, rfl, h.noPending, h.counter, h.noFault⟩

theorem Shape.queued {m : Manager} (h : Shape m) (msg : SliteAbilityInnerMsg) :
    Shape { m with sent := m.sent ++ [msg] } :=
  ⟨h.stacked, h.native, h.noPending, h.counter, h.noFault⟩

theorem Shape.unlock {m : Manager} (h : Shape m) : Shape m.unlock :=
  ⟨h.stacked, h.native, h.noPending, h.counter, h.noFault⟩

theorem Shape.locked {m : Manager} (h : Shape m) (b : Bool) :
    Shape { m with isAppScheduling := b } :=
  ⟨h.stacked, h.native, h.noPending, h.counter, h.noFault⟩

theorem Shape.modify {m : Manager} (h : Shape m) (token : UInt16)
    {f : AbilityRecord → AbilityRecord} (hf : ∀ r, SameIdentity r (f r)) :
    Shape (m.modify token f) :=
  ⟨h.stacked.modify hf, h.native, h.noPending, h.counter, h.noFault⟩

theorem Shape.top {m : Manager} (h : Shape m) : ∃ r l, m.abilityList = r :: l := by
  cases hl : m.abilityList with
  | nil => exact absurd (hl ▸ h.stacked) (by rintro ⟨⟩)
  | cons r l => exact ⟨r, l, rfl⟩

/-! ## Sending -/

/-- A lifecycle call on the launcher reaches it. -/
theorem schedulerLifecycle_launcher (env : Env) {m : Manager} (h : Shape m)
    {st : SliteAbilityState} (hst : st = .foreground ∨ st = .background) :
    ∃ msg, schedulerLifecycle env m launcherToken st = (errOk, toLauncher m st msg) ∧
      msg.token = launcherToken ∧ msg.msgId.requested = st := by
  obtain ⟨r, hr⟩ := h.stacked.get_launcher
  have hrt : ¬ r.token ≠ launcherToken := fun hne => hne (get_eq_some hr).2
  have hn : ¬ m.nativeAbility.isNone := by simpa [Option.isSome_iff_ne_none] using h.native
  simp only [schedulerLifecycle, hr, scheduleLifecycleInner, if_neg hrt, if_neg hn]
  rcases hst with rfl | rfl
  · exact ⟨_, rfl, rfl, rfl⟩
  · exact ⟨_, rfl, rfl, rfl⟩

/-- A lifecycle call on an application with a thread is queued for it. -/
theorem scheduleLifecycleInner_app {env : Env} (hacc : env.Accepts) (m : Manager)
    {r : AbilityRecord} (htoken : r.token ≠ launcherToken) (hthread : r.abilityThread.isSome)
    (st : SliteAbilityState) :
    scheduleLifecycleInner env m r st = (errOk, { m with sent := m.sent ++ [innerMsg st r] }) := by
  simp only [scheduleLifecycleInner, if_pos htoken, sendMsgToAbilityThread_thread hacc m hthread]

/-- Every lifecycle call on a listed application is queued for it. -/
theorem schedulerLifecycle_app {env : Env} (hacc : env.Accepts) {m : Manager} (h : Shape m)
    {token : UInt16} (htoken : token ≠ launcherToken) {r : AbilityRecord}
    (hr : m.abilityList.get token = some r) (st : SliteAbilityState) :
    schedulerLifecycle env m token st = (errOk, { m with sent := m.sent ++ [innerMsg st r] }) := by
  obtain ⟨hmem, rfl⟩ := get_eq_some hr
  simp only [schedulerLifecycle, hr]
  exact scheduleLifecycleInner_app hacc m htoken (h.stacked.thread hmem htoken) st

variable {rs : List (UInt16 × SliteAbilityState)}

theorem driven_foreground {m : Manager} (h : Shape m) {msg : SliteAbilityInnerMsg}
    (htoken : msg.token = launcherToken) (hreq : msg.msgId.requested = .foreground) :
    Driven rs (toLauncher m .foreground msg) := by
  obtain ⟨r, l, hl⟩ := h.top
  refine ⟨r, getTopAbility_cons hl, _,
    mem_inFlight_sent rfl, ?_⟩
  exact .inl ⟨htoken, .inl hreq⟩

theorem driven_background {m : Manager} {r : AbilityRecord} {l : AbilityList}
    (hl : m.abilityList = r :: l) (hr : r.token ≠ launcherToken) {msg : SliteAbilityInnerMsg}
    (htoken : msg.token = launcherToken) (hreq : msg.msgId.requested = .background) :
    Driven rs (toLauncher m .background msg) := by
  refine ⟨r, getTopAbility_cons hl, _,
    mem_inFlight_sent rfl, ?_⟩
  exact .inl ⟨htoken, .inr ⟨hreq, hr⟩⟩

theorem driven_top {m : Manager} {r x : AbilityRecord} {l : AbilityList}
    (hl : m.abilityList = r :: l) (hr : r.token ≠ launcherToken) (hx : x.token = r.token)
    {s : SliteAbilityState} (hst : s ≠ .unknown) :
    Driven rs { m with sent := m.sent ++ [innerMsg s x] } := by
  refine ⟨r, getTopAbility_cons hl, _, mem_inFlight_sent rfl, ?_⟩
  rw [innerMsg_token, innerMsg_requested]
  exact .inr ⟨hx, hr, hst⟩

/-! ## Operations -/

/-- An operation settles when the list keeps its shape and, unless the manager goes
on, something in flight drives the switch. -/
theorem settles_of {m : Manager} {x : ErrCode × Manager}
    (hqueue : x.2.abilityOperation = m.abilityOperation) (hs : Shape x.2)
    (h : goesOn x ∨ Driven rs x.2) : Settles Shape (Busy rs) m x := by
  refine ⟨hqueue, fun _ => hs.unlock, fun hx => ⟨hs, ?_⟩⟩
  rcases h with h | h
  · exact absurd h hx
  · exact h

theorem deleteRecordInfo_spec {m : Manager} (h : Shape m) {token : UInt16}
    (htoken : token ≠ launcherToken) :
    Shape (m.deleteRecordInfo token) ∧
      (m.deleteRecordInfo token).abilityOperation = m.abilityOperation ∧
      (m.deleteRecordInfo token).isAppScheduling = m.isAppScheduling ∧
      (m.deleteRecordInfo token).abilityList = m.abilityList.erase token ∧
      ∀ msg ∈ m.sent, msg.token ≠ token → msg ∈ (m.deleteRecordInfo token).sent := by
  cases hg : m.abilityList.get token with
  | none =>
    rw [deleteRecordInfo_none hg]
    refine ⟨h, rfl, rfl, ?_, fun _ hmsg _ => hmsg⟩
    exact (List.eraseP_of_forall_not fun r hr => by simpa using get_eq_none.mp hg r hr).symm
  | some r =>
    rw [deleteRecordInfo_some h.stacked.nodup hg]
    refine ⟨⟨h.stacked.erase htoken, h.native, h.noPending, h.counter, h.noFault⟩, rfl, rfl, rfl, ?_⟩
    intro msg hmsg hne
    simp only
    split
    · exact List.mem_filter.mpr ⟨hmsg, by simpa using hne⟩
    · exact hmsg

theorem terminateAbilityWant_settles {env : Env} (hacc : env.Accepts) {m : Manager} (h : Shape m)
    (token : UInt16) : Settles Shape (Busy rs) m (terminateAbilityWant env m token) := by
  obtain ⟨r, l, hl⟩ := h.top
  unfold terminateAbilityWant
  simp only [getTopAbility_cons hl]
  split
  · -- the launcher: the lock is released whether or not the application resumes
    split
    · obtain ⟨msg, hmsg, -, -⟩ := schedulerLifecycle_launcher env
        (h.locked false) (.inr rfl)
      simp only [hmsg]
      exact settles_of rfl ((h.locked false).toLauncher _ _) (.inl (.inr rfl))
    · exact settles_of rfl (h.locked false) (.inl (.inr rfl))
  · next htoken =>
    split
    · obtain ⟨hs, hq, -⟩ := deleteRecordInfo_spec (h.locked false) htoken
      exact settles_of hq hs (.inl (.inl (by simp [errOk])))
    · next htop =>
      obtain rfl : token = r.token := by simpa using htop
      have hm := h.modify r.token (f := fun r => { r with isTerminated := true })
        fun _ => ⟨rfl, rfl, rfl⟩
      have hthread := h.stacked.thread (r := r) (by simp [hl]) htoken
      rw [scheduleLifecycleInner_app hacc _ (r := { r with isTerminated := true }) htoken hthread]
      have hl' := modify_cons r l r.token fun r => { r with isTerminated := true }
      rw [if_pos rfl, ← hl] at hl'
      exact settles_of rfl (hm.queued _) (.inr (driven_top (r := { r with isTerminated := true })
        hl' htoken rfl (s := .background) (by decide)))

theorem terminateAbility_settles {env : Env} (hacc : env.Accepts) {m : Manager} (h : Shape m)
    (hlock : m.isAppScheduling = false) (token : UInt16) :
    Settles Shape (Busy rs) m (terminateAbility env m token) := by
  simp only [terminateAbility, hlock, Bool.false_eq_true, if_false]
  exact terminateAbilityWant_settles hacc (h.locked true) token

/-- Terminating an ability that is not on top leaves the lock free and the top where
it is. -/
theorem terminateAbility_below (env : Env) {m : Manager} (h : Shape m)
    (hlock : m.isAppScheduling = false) {r : AbilityRecord} {l : AbilityList}
    (hl : m.abilityList = r :: l) {token : UInt16} (htop : token ≠ r.token) :
    let m' := (terminateAbility env m token).2
    Shape m' ∧ m'.isAppScheduling = false ∧ m'.abilityOperation = m.abilityOperation ∧
      ∃ l', m'.abilityList = r :: l' := by
  simp only [terminateAbility, hlock, Bool.false_eq_true, if_false, terminateAbilityWant,
    getTopAbility_cons (m := { m with isAppScheduling := true }) hl]
  split
  · split
    · obtain ⟨msg, hmsg, -, -⟩ := schedulerLifecycle_launcher env
        (h.locked false) (.inr rfl)
      simp only [hmsg]
      exact ⟨(h.locked false).toLauncher _ _, rfl, rfl, l, hl⟩
    · exact ⟨h.locked false, rfl, rfl, l, hl⟩
  · next htoken =>
    obtain ⟨hs, hq, hlock', hlist, -⟩ := deleteRecordInfo_spec (h.locked false) htoken
    refine ⟨hs, hlock', hq, l.eraseP (·.token == token), hlist.trans ?_⟩
    simp only [AbilityList.erase, hl]
    exact List.eraseP_cons_of_neg (by simpa using fun e => htop e.symm)

theorem terminateEach_below (env : Env) (tokens : List UInt16) {m : Manager} (h : Shape m)
    (hlock : m.isAppScheduling = false) {r : AbilityRecord} {l : AbilityList}
    (hl : m.abilityList = r :: l) :
    let m' := terminateEach env r.token m tokens
    Shape m' ∧ m'.isAppScheduling = false ∧ m'.abilityOperation = m.abilityOperation := by
  induction tokens generalizing m l with
  | nil => exact ⟨h, hlock, rfl⟩
  | cons token tokens ih =>
    simp only [terminateEach, List.foldl_cons] at ih ⊢
    split
    · next htop =>
      obtain ⟨h', hlock', hq', l', hl'⟩ := terminateAbility_below env h hlock hl htop
      obtain ⟨hs, hlock'', hq''⟩ := ih h' hlock' hl'
      exact ⟨hs, hlock'', hq''.trans hq'⟩
    · exact ih h hlock hl

theorem terminateMission_settles {env : Env} {m : Manager} (h : Shape m)
    (hlock : m.isAppScheduling = false) (mission : UInt32) :
    Settles Shape (Busy rs) m (terminateMission env m mission) := by
  obtain ⟨r, l, hl⟩ := h.top
  simp only [terminateMission, hlock, Bool.false_eq_true, if_false, getTopAbility_cons hl]
  obtain ⟨hs, hlock', hq⟩ := terminateEach_below env
    (m.abilityList.getAbilityList mission) h hlock hl
  exact settles_of hq hs (.inl (.inr hlock'))

/-- A forced stop finds the launcher in front and keeps the lock. -/
def forceStopKeepsLock (m : Manager) (token : UInt16) : Bool :=
  token ≠ launcherToken && (m.abilityList.get launcherToken).any (·.state = .foreground)

theorem forceStopBundle_settles {env : Env} {m : Manager} (h : Shape m)
    (hlock : m.isAppScheduling = false) {token : UInt16} (hok : forceStopKeepsLock m token = false) :
    Settles Shape (Busy rs) m (forceStopBundle env m token) := by
  simp only [forceStopBundle, hlock, Bool.false_eq_true, if_false]
  split
  · exact settles_of rfl (h.locked false) (.inl (.inr rfl))
  · next htoken =>
    obtain ⟨r, hr⟩ := h.stacked.get_launcher
    have hstate : r.state ≠ .foreground := by simpa [forceStopKeepsLock, htoken, hr] using hok
    simp only [hr, if_pos hstate]
    obtain ⟨msg, hmsg, ht, hreq⟩ := schedulerLifecycle_launcher env
      (h.locked true) (.inl rfl)
    rw [hmsg]
    exact settles_of rfl ((h.locked true).toLauncher _ _)
      (.inr (driven_foreground (h.locked true) ht hreq))

theorem forceStop_settles {env : Env} (hacc : env.Accepts) {m : Manager} (h : Shape m)
    (hlock : m.isAppScheduling = false) (want : Option Want) :
    Settles Shape (Busy rs) m (forceStop env m want) := by
  simp only [forceStop, hlock, Bool.false_eq_true, if_false]
  split
  · exact settles_of rfl (h.locked false) (.inl (.inr rfl))
  · split
    · exact terminateAbilityWant_settles hacc (h.locked true) 0
    · split
      · exact settles_of rfl (h.locked false) (.inl (.inr rfl))
      · exact terminateAbilityWant_settles hacc (h.locked true) _

theorem terminateAll_settles {env : Env} {m : Manager} (h : Shape m)
    (hlock : m.isAppScheduling = false) (excludedBundleName : Option CString) :
    Settles Shape (Busy rs) m (terminateAll env m excludedBundleName) := by
  obtain ⟨r, l, hl⟩ := h.top
  simp only [terminateAll, hlock, Bool.false_eq_true, if_false, hl, popAllAbility_cons]
  rw [releaseAll_eq]
  obtain ⟨n, hn⟩ := foldl_notify_eq _ (l.filter fun r => !reserved excludedBundleName r)
  rw [hn]
  refine settles_of rfl ⟨?_, h.native, h.noPending, h.counter, h.noFault⟩ (.inl (.inr rfl))
  exact (hl ▸ h.stacked).filter_tail excludedBundleName

/-! ## Starting -/

/-- Creating the task of an application puts it on top and sends the launcher to the
background. -/
theorem createAppTask_driven {cfg : Config} {env : Env} {m : Manager} {r : AbilityRecord}
    {listed : Bool} (h : Shape (if listed then m.modify r.token (started env) else m))
    (htoken : r.token ≠ launcherToken) (hinit : env.initAbilityThread r.token = errOk)
    (hevict : listed = true → (m.modify r.token (started env)).evicts cfg r.token = false) :
    ∃ m', createAppTask cfg env m r listed = (errOk, m') ∧
      m'.abilityOperation = m.abilityOperation ∧ Shape m' ∧ Driven rs m' := by
  obtain ⟨m₁, hm₁, hq₁, hs₁⟩ : ∃ m₁ : Manager,
      (if listed && (if listed then m.modify r.token (started env) else m).evicts cfg r.token
        then (if listed then m.modify r.token (started env) else m).crash
        else (if listed then m.modify r.token (started env) else m)) = m₁ ∧
      m₁.abilityOperation = m.abilityOperation ∧ Shape m₁ := by
    cases listed with
    | false => exact ⟨m, rfl, rfl, h⟩
    | true =>
      refine ⟨m.modify r.token (started env), ?_, rfl, h⟩
      simp [hevict rfl]
  obtain ⟨sent, hadd⟩ := add_eq cfg m₁ (started env r)
  obtain ⟨hstack, x, l', hl', hx⟩ := hs₁.stacked.add cfg.abilityListCapacity (r := started env r)
    htoken rfl
  have hs₂ : Shape (m₁.add cfg (started env r)) := by
    rw [hadd]
    exact ⟨hstack, hs₁.native, hs₁.noPending, hs₁.counter, hs₁.noFault⟩
  obtain ⟨msg, hmsg, ht, hreq⟩ := schedulerLifecycle_launcher env hs₂ (.inr rfl)
  refine ⟨toLauncher (m₁.add cfg (started env r)) .background msg, ?_, ?_, hs₂.toLauncher _ _, ?_⟩
  · simp only [createAppTask, hinit, ne_eq, not_true_eq_false, if_false, hm₁, hs₂.native, if_true,
      hmsg]
  · rw [toLauncher, hadd]
    exact hq₁
  · refine driven_background (l := l') (r := x) ?_ hx ht hreq
    rw [hadd]
    exact hl'

theorem createAppTask_fails {cfg : Config} {env : Env} {m : Manager} {r : AbilityRecord}
    {listed : Bool} (hinit : env.initAbilityThread r.token ≠ errOk) :
    createAppTask cfg env m r listed = (env.initAbilityThread r.token, m) := by
  simp only [createAppTask, if_pos hinit]

theorem generateToken_ne {m : Manager} (h : m.nextToken ≠ 0xFFFF) :
    (generateToken m).1 ≠ launcherToken ∧ (generateToken m).1 ≠ 0xFFFF := by
  have h' : m.nextToken.toNat ≠ 65535 := fun e => h (UInt16.toNat_inj.mp e)
  have hlt := m.nextToken.toNat_lt
  simp only [generateToken, launcherToken, ne_eq, ← UInt16.toNat_inj, UInt16.toNat_add]
  split
  · decide
  · next hc =>
    have hc' : m.nextToken.toNat ≠ 65534 := fun e => hc (by rw [e]; rfl)
    simp only [UInt16.reduceToNat]
    omega

theorem newRecord_token (env : Env) (info : AbilitySvcInfo) (bundleName : CString) (token : UInt16) :
    (newRecord env info bundleName token).token = token := by
  unfold newRecord AbilityRecord.setWantData
  split <;> rfl

/-- A new application is created and put on top, or nothing is listed for it. -/
theorem preCheckStartAbility_new {cfg : Config} (hcap : 3 ≤ cfg.abilityListCapacity) {env : Env}
    {m : Manager} (h : Shape m) {info : AbilitySvcInfo} (hpath : info.path.isSome)
    {bundleName : CString} (hnew : m.abilityList.getByName bundleName = none) :
    Settles Shape (Busy rs) m (preCheckStartAbility cfg env m info bundleName) := by
  obtain ⟨htoken, hcounter⟩ := generateToken_ne h.counter
  have hpath' : ¬ info.path.isNone := by simpa [Option.isSome_iff_ne_none] using hpath
  have hpend : ¬ m.pendingToken ≠ 0 := fun e => e h.noPending
  simp only [preCheckStartAbility, if_neg hpath', hnew, if_neg hpend]
  have hm₁ : Shape (generateToken m).2 := ⟨h.stacked, h.native, h.noPending, hcounter, h.noFault⟩
  have hq₁ : (generateToken m).2.abilityOperation = m.abilityOperation := rfl
  revert htoken hm₁ hq₁
  generalize (generateToken m).1 = token, (generateToken m).2 = m₁
  intro htoken hm₁ hq₁
  have hrt := newRecord_token env info bundleName token
  generalize newRecord env info bundleName token = record at hrt ⊢
  subst hrt
  obtain ⟨sent, hadd⟩ := add_eq cfg m₁ record
  have hevict := hm₁.stacked.evict cfg.abilityListCapacity
  -- the list after `Add`: with the new record in front, or as it was but for the room made
  have hlist : (m₁.takes cfg record.token = true ∧ (∀ x ∈ m₁.abilityList.evict
        cfg.abilityListCapacity, x.token ≠ record.token) ∧
      (m₁.add cfg record).abilityList = record :: m₁.abilityList.evict cfg.abilityListCapacity) ∨
      (m₁.takes cfg record.token = false ∧
        (m₁.add cfg record).abilityList = m₁.abilityList.evict cfg.abilityListCapacity) := by
    cases hg : (m₁.abilityList.evict cfg.abilityListCapacity).get record.token with
    | none =>
      refine .inl ⟨by simp [takes, hg], get_eq_none.mp hg, ?_⟩
      rw [hadd]
      exact add_of_fresh hg
    | some x =>
      refine .inr ⟨by simp [takes, hg], ?_⟩
      rw [hadd]
      exact add_of_listed (by rw [hg]; rfl)
  by_cases hinit : env.initAbilityThread record.token = errOk
  · -- the thread runs: the record is on top, or the listed record of that token is
    have key : ∃ m', createAppTask cfg env (m₁.add cfg record) record (m₁.takes cfg record.token) =
        (errOk, m') ∧ m'.abilityOperation = (m₁.add cfg record).abilityOperation ∧ Shape m' ∧
        Driven rs m' := by
      refine createAppTask_driven ?_ htoken hinit ?_
      · rcases hlist with ⟨htakes, hfresh, hl⟩ | ⟨htakes, hl⟩
        · rw [htakes, if_pos rfl]
          refine ⟨?_, by rw [hadd]; exact hm₁.native, by rw [hadd]; exact hm₁.noPending,
            by rw [hadd]; exact hm₁.counter, by rw [hadd]; exact hm₁.noFault⟩
          simp only [Manager.modify, hl, modify_cons, if_true]
          rw [modify_eq_self (get_eq_none.mpr hfresh)]
          exact .app _ _ htoken rfl hfresh hevict
        · rw [htakes, if_neg Bool.false_ne_true, hadd]
          refine ⟨?_, hm₁.native, hm₁.noPending, hm₁.counter, hm₁.noFault⟩
          rw [hadd] at hl
          exact hl ▸ hevict
      · intro htakes
        rcases hlist with ⟨-, hfresh, hl⟩ | ⟨htakes', -⟩
        · refine evicts_top hcap (r := started env record)
            (l := m₁.abilityList.evict cfg.abilityListCapacity) ?_ hfresh
          simp only [Manager.modify, hl, modify_cons, if_true]
          rw [modify_eq_self (get_eq_none.mpr hfresh)]
        · rw [htakes] at htakes'
          cases htakes'
    obtain ⟨m', hm', hq', hs', hd⟩ := key
    rw [hm']
    simp only [ne_eq, not_true_eq_false, if_false]
    refine settles_of ?_ hs' (.inr hd)
    rw [hq', hadd]
    exact hq₁
  · rw [createAppTask_fails hinit]
    simp only [ne_eq, hinit, not_false_eq_true, if_true, if_false]
    refine settles_of ?_ ?_ (.inl (.inl (show createApptaskError ≠ errOk by decide)))
    · rw [hadd]
      exact hq₁
    · rw [hadd]
      refine ⟨?_, hm₁.native, hm₁.noPending, hm₁.counter, hm₁.noFault⟩
      rw [hadd] at hlist
      rcases hlist with ⟨-, -, hl⟩ | ⟨-, hl⟩
      · simp only at hl
        simp only [Manager.erase, hl, AbilityList.erase, List.eraseP_cons_of_pos, beq_self_eq_true]
        exact hevict
      · simp only at hl
        simp only [Manager.erase, hl]
        exact hevict.erase htoken

/-- The application that a start goes on to launch, with its path: none when the start
is refused, is for another device or is for the launcher. -/
def startedApp (cfg : Config) (env : Env) (want : Option Want) :
    Option (CString × Option CString) :=
  match want with
  | none => none
  | some want =>
    match want.element with
    | none => none
    | some element =>
      match element.bundleName with
      | none => none
      | some bundleName =>
        if cfg.dmsEnabled && element.deviceId.any (·.bytes ≠ []) then none
        else
          match queryAbilitySvcInfo cfg env bundleName want with
          | .error _ => none
          | .ok info =>
            match info.bundleName with
            | none => none
            | some bundleName =>
              if bundleName.bytes.length = 0 ∨ isLauncher bundleName ∨
                  (!info.isNativeApp && !checkResponse env bundleName) then none
              else some (bundleName, info.path)

/-- A start finds another application on top and not stopped, or finds its own
application listed and not in the background. -/
def findsAppInTheWay (m : Manager) (bundleName : CString) (path : Option CString) : Bool :=
  m.getTopAbility.any fun top =>
    (top.state ≠ .stop && top.token ≠ launcherToken && bundleName ≠ top.appName) ||
      (path.isSome && (m.abilityList.getByName bundleName).any (·.state ≠ .background))

/-- A start that keeps the lock with nothing sent. -/
def startKeepsLock (cfg : Config) (env : Env) (m : Manager) (want : Option Want) : Bool :=
  (startedApp cfg env want).any fun app => findsAppInTheWay m app.1 app.2

theorem findsAppInTheWay_other {m : Manager} {top : AbilityRecord} {l : AbilityList}
    (hl : m.abilityList = top :: l) (hstate : top.state ≠ .stop)
    (htoken : top.token ≠ launcherToken) {bundleName : CString} (hname : bundleName ≠ top.appName)
    (path : Option CString) : findsAppInTheWay m bundleName path = true := by
  simp [findsAppInTheWay, getTopAbility_cons hl, hstate, htoken, hname]

theorem findsAppInTheWay_listed {m : Manager} {top : AbilityRecord} {l : AbilityList}
    (hl : m.abilityList = top :: l) {bundleName : CString} {r : AbilityRecord}
    (hr : m.abilityList.getByName bundleName = some r) (hstate : r.state ≠ .background)
    (path : CString) : findsAppInTheWay m bundleName (some path) = true := by
  simp [findsAppInTheWay, getTopAbility_cons hl, hr, hstate]

theorem preCheckStartAbility_settles {cfg : Config} (hcap : 3 ≤ cfg.abilityListCapacity) {env : Env}
    {m : Manager} (h : Shape m) (info : AbilitySvcInfo) {bundleName : CString}
    (hlauncher : isLauncher bundleName = false)
    (hok : findsAppInTheWay m bundleName info.path = false) :
    Settles Shape (Busy rs) m (preCheckStartAbility cfg env m info bundleName) := by
  cases hpath : info.path with
  | none =>
    simp only [preCheckStartAbility, hpath, Option.isNone_none, if_true]
    exact settles_of rfl h (.inl (.inl (show paramNullError ≠ errOk by decide)))
  | some path =>
    cases hname : m.abilityList.getByName bundleName with
    | none => exact preCheckStartAbility_new hcap h (by rw [hpath]; rfl) hname
    | some r =>
      obtain ⟨top, l, hl⟩ := h.top
      have hstate : r.state = .background := Decidable.byContradiction fun hne => by
        rw [hpath, findsAppInTheWay_listed hl hname hne] at hok
        cases hok
      simp only [preCheckStartAbility, hpath, Option.isNone_some, Bool.false_eq_true, if_false,
        hname, hstate, reduceCtorEq, if_true]
      obtain ⟨msg, hmsg, ht, hreq⟩ := schedulerLifecycle_launcher env h (.inr rfl)
      rw [hmsg]
      obtain ⟨hr, hrn⟩ := getByName_eq_some hname
      have hne := h.stacked.token_ne_launcher hr (hrn ▸ hlauncher)
      have htop := (hl ▸ h.stacked).top_ne_launcher (hl ▸ hr) hne
      exact settles_of rfl (h.toLauncher _ _) (.inr (driven_background hl htop ht hreq))

theorem updateRecord_spec {m : Manager} (h : Shape m) (info : AbilitySvcInfo)
    (bundleName : CString) :
    Shape (updateRecord m info bundleName) ∧
      (updateRecord m info bundleName).abilityOperation = m.abilityOperation ∧
      (updateRecord m info bundleName).abilityList.map (·.token) = m.abilityList.map (·.token) := by
  unfold updateRecord
  split
  · exact ⟨h, rfl, rfl⟩
  · split
    · exact ⟨h, rfl, rfl⟩
    · exact ⟨h.modify _ fun r => sameIdentity_setWantData r _ _, rfl,
        modify_tokens fun r => (sameIdentity_setWantData r _ _).token⟩

/-- The condition of `startKeepsLock`, once the ability has been looked up. -/
def infoKeepsLock (env : Env) (m : Manager) (info : AbilitySvcInfo) : Prop :=
  ∃ bundleName, info.bundleName = some bundleName ∧
    ¬ (bundleName.bytes.length = 0 ∨ isLauncher bundleName ∨
      (!info.isNativeApp && !checkResponse env bundleName)) ∧
    findsAppInTheWay m bundleName info.path = true

/-- A start of the launcher goes through the application on top, or brings the launcher
to the front directly. -/
theorem startLauncherInfo_settles {env : Env} (hacc : env.Accepts) {m : Manager} (h : Shape m)
    {top : AbilityRecord} {l : AbilityList} (hl : m.abilityList = top :: l) (info : AbilitySvcInfo)
    (bundleName : CString) :
    Settles Shape (Busy rs) m
      (let m := updateRecord m info bundleName
        if top.token ≠ launcherToken ∧ top.state ≠ .background then
          (errOk, (scheduleLifecycleInner env m top .background).2)
        else (errOk, (schedulerLifecycle env m launcherToken .foreground).2)) := by
  obtain ⟨hs, hq, htokens⟩ := updateRecord_spec h info bundleName
  simp only
  split
  · next htop =>
    have hthread := h.stacked.thread (r := top) (by simp [hl]) htop.1
    rw [scheduleLifecycleInner_app hacc _ htop.1 hthread]
    obtain ⟨x, l', hl'⟩ := hs.top
    have hx : top.token = x.token := by
      rw [hl', hl, List.map_cons, List.map_cons, List.cons.injEq] at htokens
      exact htokens.1.symm
    exact settles_of hq (hs.queued _)
      (.inr (driven_top (s := .background) hl' (hx ▸ htop.1) hx (by decide)))
  · obtain ⟨msg, hmsg, ht, hreq⟩ := schedulerLifecycle_launcher env hs (.inl rfl)
    rw [hmsg]
    exact settles_of hq (hs.toLauncher _ _) (.inr (driven_foreground hs ht hreq))

theorem startAbilityInfo_settles {cfg : Config} (hcap : 3 ≤ cfg.abilityListCapacity) {env : Env}
    (hacc : env.Accepts) {m : Manager} (h : Shape m) {info : AbilitySvcInfo}
    (hok : ¬ infoKeepsLock env m info) :
    Settles Shape (Busy rs) m (startAbilityInfo cfg env m info) := by
  obtain ⟨top, l, hl⟩ := h.top
  unfold startAbilityInfo
  cases hname : info.bundleName with
  | none => exact settles_of rfl (h.locked false) (.inl (.inr rfl))
  | some bundleName =>
    simp only [getTopAbility_cons hl]
    split
    · exact settles_of rfl (h.locked false) (.inl (.inr rfl))
    · next hlen =>
      split
      · exact startLauncherInfo_settles hacc h hl info bundleName
      · next hlauncher =>
        split
        · exact settles_of rfl (h.locked false) (.inl (.inr rfl))
        · next hcheck =>
          have hok' : findsAppInTheWay m bundleName info.path = false :=
            Bool.eq_false_iff.mpr fun hf =>
              hok ⟨bundleName, hname, not_or.mpr ⟨hlen, not_or.mpr ⟨hlauncher, hcheck⟩⟩, hf⟩
          have hpre : Settles Shape (Busy rs) m (preCheckStartAbility cfg env m
              { info with isNativeApp := false } bundleName) :=
            preCheckStartAbility_settles hcap h { info with isNativeApp := false }
              (by simpa using hlauncher) hok'
          split
          · next hrun =>
            split
            · split
              · obtain ⟨msg, hmsg, ht, hreq⟩ := schedulerLifecycle_launcher env h (.inr rfl)
                rw [hmsg]
                exact settles_of rfl (h.toLauncher _ _) (.inr (driven_background hl hrun.2 ht hreq))
              · exact hname ▸ hpre
            · next hne =>
              rw [findsAppInTheWay_other hl hrun.1 hrun.2 hne] at hok'
              cases hok'
          · exact hpre

theorem startAbility_settles {cfg : Config} (hcap : 3 ≤ cfg.abilityListCapacity) {env : Env}
    (hacc : env.Accepts) {m : Manager} (h : Shape m) (hlock : m.isAppScheduling = false)
    {want : Option Want} (hok : startKeepsLock cfg env m want = false) :
    Settles Shape (Busy rs) m (startAbility cfg env m want) := by
  simp only [startAbility, hlock, Bool.false_eq_true, if_false]
  cases want with
  | none => exact settles_of rfl (h.locked false) (.inl (.inr rfl))
  | some want =>
    simp only
    cases helem : want.element with
    | none => exact settles_of rfl (h.locked false) (.inl (.inr rfl))
    | some element =>
      simp only
      cases hname : element.bundleName with
      | none => exact settles_of rfl (h.locked false) (.inl (.inr rfl))
      | some bundleName =>
        simp only
        split
        · obtain ⟨remote, hm⟩ := startRemoteAbility_eq cfg env { m with isAppScheduling := false } want
          have hq := congrArg Manager.abilityOperation hm
          have hl := congrArg Manager.isAppScheduling hm
          refine settles_of hq ?_ (.inl (.inr hl))
          rw [hm]
          exact ⟨h.stacked, h.native, h.noPending, h.counter, h.noFault⟩
        · next hlocal =>
          cases hquery : queryAbilitySvcInfo cfg env bundleName want with
          | error e => exact settles_of rfl (h.locked false) (.inl (.inr rfl))
          | ok info =>
            refine startAbilityInfo_settles hcap hacc (h.locked true) ?_
            rintro ⟨name, hn, hchecks, hway⟩
            simp only at hn hchecks hway
            have happ : startedApp cfg env (some want) = some (name, info.path) := by
              simp only [startedApp, helem, hname, if_neg hlocal, hquery, hn, if_neg hchecks]
            rw [startKeepsLock, happ, Option.any_some] at hok
            exact Bool.false_ne_true (hok.symm.trans hway)

/-! ## Replies -/

/-- The driving message or reply is another one than the reply being handled. -/
theorem Driven.tail {m : Manager} {x : UInt16 × SliteAbilityState} (h : Driven (x :: rs) m)
    (hx : ∀ r, m.getTopAbility = some r → ¬ drives r.token x) : Driven rs m := by
  obtain ⟨r, hr, y, hy, hd⟩ := h
  refine ⟨r, hr, y, ?_, hd⟩
  simp only [inFlight, List.mem_append, List.mem_cons] at hy ⊢
  rcases hy with hy | rfl | hy
  · exact .inl hy
  · exact absurd hd (hx r hr)
  · exact .inr hy

/-- What drives the switch stays when the top keeps its token and the messages to it
and to the launcher stay. -/
theorem Driven.transport {m m' : Manager} (h : Driven rs m)
    (htop : m'.getTopAbility.map (·.token) = m.getTopAbility.map (·.token))
    (hsent : ∀ msg ∈ m.sent, (msg.token = launcherToken ∨
      m.getTopAbility.map (·.token) = some msg.token) → msg ∈ m'.sent) : Driven rs m' := by
  obtain ⟨r, hr, y, hy, hd⟩ := h
  rw [hr, Option.map_some, Option.map_eq_some_iff] at htop
  obtain ⟨r', hr', ht⟩ := htop
  refine ⟨r', hr', y, ?_, ht ▸ hd⟩
  simp only [inFlight, List.mem_append, List.mem_map] at hy ⊢
  rcases hy with ⟨msg, hmsg, rfl⟩ | hy
  · refine .inl ⟨msg, hsent msg hmsg ?_, rfl⟩
    rcases hd with ⟨hl, -⟩ | ⟨ht', -⟩
    · exact .inl hl
    · exact .inr (by rw [hr, Option.map_some]; exact congrArg some ht'.symm)
  · exact .inr hy

theorem not_drives {top : UInt16} {x : UInt16 × SliteAbilityState}
    (hlauncher : x.1 = launcherToken → x.2 ≠ .foreground ∧ (x.2 = .background → top = launcherToken))
    (htop : x.1 = top → top = launcherToken) : ¬ drives top x := by
  rintro (⟨h₁, h₂ | ⟨h₂, h₃⟩⟩ | ⟨h₁, h₂, -⟩)
  · exact (hlauncher h₁).1 h₂
  · exact h₃ ((hlauncher h₁).2 h₂)
  · exact h₂ (htop h₁)

/-- What a reply handler keeps. -/
structure Handles (m m' : Manager) : Prop where
  shape : Shape m'
  lock : m'.isAppScheduling = m.isAppScheduling
  queue : m'.abilityOperation = m.abilityOperation

theorem setAbilityStateAndNotify_spec {m : Manager} (h : Shape m) (token : UInt16)
    (state : AbilityRecordState) :
    Handles m (m.setAbilityStateAndNotify token state) ∧
      (m.setAbilityStateAndNotify token state).sent = m.sent ∧
      (m.setAbilityStateAndNotify token state).abilityList.map (·.token) =
        m.abilityList.map (·.token) := by
  obtain ⟨n, hn⟩ := setAbilityStateAndNotify_eq m token state
  rw [hn]
  refine ⟨⟨⟨h.stacked.modify fun _ => ⟨rfl, rfl, rfl⟩, h.native, h.noPending, h.counter, h.noFault⟩,
    rfl, rfl⟩, rfl, modify_tokens fun _ => rfl⟩

theorem getTopAbility_tokens {m m' : Manager}
    (h : m'.abilityList.map (·.token) = m.abilityList.map (·.token)) :
    m'.getTopAbility.map (·.token) = m.getTopAbility.map (·.token) := by
  simp only [Manager.getTopAbility, AbilityList.getTopAbility, ← List.head?_map, h]

/-- A reply that is neither the launcher's nor that of the application on top drives
nothing, and what drives the switch stays when nothing of either is dropped. -/
theorem Driven.other {m m' : Manager} {token : UInt16} {state : SliteAbilityState}
    (h : Driven ((token, state) :: rs) m) (htoken : token ≠ launcherToken)
    (htop : m.getTopAbility.map (·.token) ≠ some token)
    (htop' : m'.getTopAbility.map (·.token) = m.getTopAbility.map (·.token))
    (hsent : ∀ msg ∈ m.sent, msg.token ≠ token → msg ∈ m'.sent) : Driven rs m' := by
  refine (h.tail fun r hr => not_drives (fun e => absurd e htoken) fun e => ?_).transport htop' ?_
  · exact absurd (by rw [hr, Option.map_some, ← e]) htop
  · intro msg hmsg hkind
    refine hsent msg hmsg fun e => ?_
    rcases hkind with hl | ht
    · exact htoken (e ▸ hl)
    · exact htop (e ▸ ht)

/-- `OnCreateDone` brings the created application to the front. -/
theorem onCreateDone_spec {env : Env} (hacc : env.Accepts) {m : Manager} (h : Shape m)
    (token : UInt16) :
    Handles m (onCreateDone env m token) ∧
      (Driven ((token, .initial) :: rs) m → Driven rs (onCreateDone env m token)) := by
  obtain ⟨⟨hs, hlock, hq⟩, hsent, htokens⟩ := setAbilityStateAndNotify_spec h token .inited
  unfold onCreateDone
  revert hs hlock hq hsent htokens
  generalize m.setAbilityStateAndNotify token .inited = m₁
  intro hs hlock hq hsent htokens
  have htop := getTopAbility_tokens htokens
  obtain ⟨r, l, hl⟩ := hs.top
  by_cases htoken : token = launcherToken
  · subst htoken
    obtain ⟨msg, hmsg, ht, hreq⟩ := schedulerLifecycle_launcher env hs (.inl rfl)
    rw [hmsg]
    exact ⟨⟨hs.toLauncher _ _, hlock, hq⟩, fun _ => driven_foreground hs ht hreq⟩
  · by_cases hr : token = r.token
    · subst hr
      rw [schedulerLifecycle_app hacc hs htoken (hl ▸ get_top l)]
      exact ⟨⟨hs.queued _, hlock, hq⟩, fun _ => driven_top hl htoken rfl (by decide)⟩
    · have hnt : m.getTopAbility.map (·.token) ≠ some token := by
        rw [← htop, getTopAbility_cons hl, Option.map_some, ne_eq, Option.some.injEq]
        exact fun e => hr e.symm
      cases hg : m₁.abilityList.get token with
      | none =>
        have hm : (schedulerLifecycle env m₁ token .foreground).2 = m₁ := by
          simp only [schedulerLifecycle, hg]
        rw [hm]
        exact ⟨⟨hs, hlock, hq⟩, fun hd => hd.other htoken hnt htop fun msg hmsg _ => hsent ▸ hmsg⟩
      | some x =>
        rw [schedulerLifecycle_app hacc hs htoken hg]
        exact ⟨⟨hs.queued _, hlock, hq⟩, fun hd => hd.other htoken hnt htop fun msg hmsg _ =>
          List.mem_append_left _ (hsent ▸ hmsg)⟩

/-- `OnBackgroundDone` hands over between the application on top and the launcher. -/
theorem onBackgroundDone_spec {env : Env} (hacc : env.Accepts) {m : Manager} (h : Shape m)
    (token : UInt16) :
    Handles m (onBackgroundDone env m token) ∧
      (Driven ((token, .background) :: rs) m → Driven rs (onBackgroundDone env m token)) := by
  obtain ⟨⟨hs, hlock, hq⟩, hsent, htokens⟩ := setAbilityStateAndNotify_spec h token .background
  unfold onBackgroundDone
  revert hs hlock hq hsent htokens
  generalize m.setAbilityStateAndNotify token .background = m₁
  intro hs hlock hq hsent htokens
  have htop := getTopAbility_tokens htokens
  obtain ⟨r, l, hl⟩ := hs.top
  have htop' : m.getTopAbility.map (·.token) = some r.token := by
    rw [← htop, getTopAbility_cons hl, Option.map_some]
  simp only [getTopAbility_cons hl]
  split
  · -- an application: the launcher comes to the front if the application is on top
    next htoken =>
    split
    · obtain ⟨msg, hmsg, ht, hreq⟩ := schedulerLifecycle_launcher env hs (.inl rfl)
      rw [hmsg]
      exact ⟨⟨hs.toLauncher _ _, hlock, hq⟩, fun _ => driven_foreground hs ht hreq⟩
    · next hr =>
      refine ⟨⟨hs, hlock, hq⟩, fun hd => hd.other htoken ?_ htop fun msg hmsg _ => hsent ▸ hmsg⟩
      rw [htop', ne_eq, Option.some.injEq]
      exact hr
  · next htoken =>
    have htoken : token = launcherToken := by simpa using htoken
    subst htoken
    split
    · -- the launcher: the application on top goes on
      next hr =>
      have hthread := hs.stacked.thread (r := r) (by simp [hl]) hr
      obtain ⟨st, hst, hm₂⟩ : ∃ st, st ≠ SliteAbilityState.unknown ∧
          (if r.state = .stop then (scheduleLifecycleInner env m₁ r .initial).2
            else (scheduleLifecycleInner env m₁ r .foreground).2) =
            { m₁ with sent := m₁.sent ++ [innerMsg st r] } := by
        simp only [scheduleLifecycleInner_app hacc m₁ hr hthread]
        split
        · exact ⟨.initial, by decide, rfl⟩
        · exact ⟨.foreground, by decide, rfl⟩
      rw [hm₂]
      have hs₂ := hs.queued (innerMsg st r)
      split
      · -- the launcher's data is cleared as well
        obtain ⟨x, hx⟩ := hs.stacked.get_launcher
        have hmod := hs₂.modify launcherToken
          fun r => sameIdentity_setWantData r none 0
        simp only [hx]
        refine ⟨⟨⟨hmod.stacked, hs.native, hs.noPending, hs.counter, hs.noFault⟩, hlock, hq⟩,
          fun _ => ?_⟩
        have hd : Driven rs _ := driven_top (x := r) hl hr rfl hst
        refine hd.transport (getTopAbility_tokens ?_) fun _ hmsg _ => hmsg
        exact modify_tokens fun r => (sameIdentity_setWantData r none 0).token
      · exact ⟨⟨hs₂, hlock, hq⟩, fun _ => driven_top hl hr rfl hst⟩
    · next hr =>
      have hr : r.token = launcherToken := by simpa using hr
      refine ⟨⟨hs, hlock, hq⟩, fun hd => (hd.tail fun x hx => ?_).transport htop
        fun msg hmsg _ => hsent ▸ hmsg⟩
      rw [hx, Option.map_some, Option.some.injEq, hr] at htop'
      exact not_drives (fun _ => ⟨by decide, fun _ => htop'⟩) fun _ => htop'

/-- `OnDestroyDone` brings the launcher back when the application on top is gone. -/
theorem onDestroyDone_spec (rs : List (UInt16 × SliteAbilityState)) (cfg : Config) (env : Env) {m : Manager} (h : Shape m)
    (token : UInt16) :
    Handles m (onDestroyDone cfg env m token) ∧
      (Driven ((token, .uninitialized) :: rs) m → Driven rs (onDestroyDone cfg env m token)) := by
  obtain ⟨⟨hs, hlock, hq⟩, hsent, htokens⟩ := setAbilityStateAndNotify_spec h token .stop
  unfold onDestroyDone
  revert hs hlock hq hsent htokens
  generalize m.setAbilityStateAndNotify token .stop = m₁
  intro hs hlock hq hsent htokens
  have htop := getTopAbility_tokens htokens
  obtain ⟨r, l, hl⟩ := hs.top
  have htop' : m.getTopAbility.map (·.token) = some r.token := by
    rw [← htop, getTopAbility_cons hl, Option.map_some]
  simp only
  split
  · next htoken =>
    refine ⟨⟨hs, hlock, hq⟩, fun hd => (hd.tail fun x hx => ?_).transport htop
      fun msg hmsg _ => hsent ▸ hmsg⟩
    rw [hx, Option.map_some, Option.some.injEq] at htop'
    exact not_drives (fun _ => ⟨(fun e => nomatch e), fun e => nomatch e⟩) fun e => e ▸ htoken
  · next htoken =>
    obtain ⟨hs₂, hq₂, hlock₂, hlist₂, hsent₂⟩ := deleteRecordInfo_spec hs htoken
    split
    · have hpend : (m₁.deleteRecordInfo token).pendingToken = 0 := hs₂.noPending
      simp only [hpend, if_true]
      obtain ⟨msg, hmsg, ht, hreq⟩ := schedulerLifecycle_launcher env hs₂ (.inl rfl)
      rw [hmsg]
      exact ⟨⟨hs₂.toLauncher _ _, hlock₂.trans hlock, hq₂.trans hq⟩,
        fun _ => driven_foreground hs₂ ht hreq⟩
    · next hr =>
      simp only [getTopAbility_cons hl, Option.any_some, decide_eq_true_eq] at hr
      refine ⟨⟨hs₂, hlock₂.trans hlock, hq₂.trans hq⟩, fun hd => hd.other htoken ?_ ?_ ?_⟩
      · rw [htop', ne_eq, Option.some.injEq]
        exact hr
      · have hl₂ : (m₁.deleteRecordInfo token).abilityList = r :: AbilityList.erase l token := by
          rw [hlist₂, hl, AbilityList.erase]
          exact List.eraseP_cons_of_neg (by simpa using hr)
        rw [htop', getTopAbility_cons hl₂, Option.map_some]
      · exact fun msg hmsg hne => hsent₂ msg (hsent ▸ hmsg) hne

/-- `OnForegroundDone` keeps the shape; the lock is released after it. -/
theorem onForegroundDone_spec {cfg : Config} {env : Env} (hacc : env.Accepts) {m : Manager}
    (h : Shape m) (token : UInt16) :
    Shape (onForegroundDone cfg env m token) ∧
      (onForegroundDone cfg env m token).abilityOperation = m.abilityOperation := by
  obtain ⟨⟨hs, -, hq⟩, -, -⟩ := setAbilityStateAndNotify_spec h token .foreground
  unfold onForegroundDone
  revert hs hq
  generalize m.setAbilityStateAndNotify token .foreground = m₁
  intro hs hq
  obtain ⟨r, l, hl⟩ := hs.top
  obtain ⟨nativeState, hnative⟩ := Option.isSome_iff_exists.mp hs.native
  simp only [getTopAbility_cons hl, hnative]
  split
  · split
    · exact ⟨hs, hq⟩
    · split
      · next hr =>
        split
        · obtain ⟨⟨hs', -, hq'⟩, -⟩ := onDestroyDone_spec [] cfg env hs r.token
          exact ⟨hs', hq'.trans hq⟩
        · split
          · obtain ⟨hs', hq', -⟩ := deleteRecordInfo_spec hs hr
            exact ⟨hs', hq'.trans hq⟩
          · split
            · have hthread := hs.stacked.thread (r := r) (by simp [hl]) hr
              rw [scheduleLifecycleInner_app hacc _ hr hthread]
              exact ⟨hs.queued _, hq⟩
            · exact ⟨hs, hq⟩
      · exact ⟨hs, hq⟩
  · exact ⟨hs, hq⟩

/-! ## Runs -/

/-- The steps of a run strand nothing when every queue takes its messages, no start
and no forced stop keeps the lock with nothing sent. -/
def condition (cfg : Config) : Condition where
  operation env m o := env.Accepts ∧
    (o.msgId = .startAbility → startKeepsLock cfg env m o.want = false) ∧
    (o.msgId = .terminateApp → forceStopKeepsLock m o.token.toUInt16 = false)
  reply env _ _ _ := env.Accepts

theorem dispatch_settles {cfg : Config} (hcap : 3 ≤ cfg.abilityListCapacity) {env : Env}
    {m : Manager} (h : Shape m) (hlock : m.isAppScheduling = false) {o : AbilityOperation}
    (hwf : o.WellFormed) (hok : (condition cfg).operation env m o) :
    Settles Shape (Busy rs) m ((operations cfg).dispatch env m o) := by
  obtain ⟨hacc, hstart, hstop⟩ := hok
  unfold Operations.dispatch
  cases hid : o.msgId with
  | startAbility => exact startAbility_settles hcap hacc h hlock (hstart hid)
  | terminateAbility => exact terminateAbility_settles hacc h hlock _
  | terminateApp => exact forceStopBundle_settles h hlock (hstop hid)
  | terminateMission => exact terminateMission_settles h hlock _
  | terminateAppByBundleName => exact forceStop_settles hacc h hlock _
  | terminateAll =>
    obtain ⟨want, hwant⟩ := Option.isSome_iff_exists.mp (hwf hid)
    simp only [hwant]
    exact terminateAll_settles h hlock _
  | other _ => exact settles_of rfl h (.inl (.inr hlock))

theorem operations_defers (cfg : Config) : (operations cfg).Defers where
  startAbility _ _ _ h := by simp only [operations, startAbility, h, if_true]
  terminateAbility _ _ _ h := by simp only [operations, terminateAbility, h, if_true]
  terminateMission _ _ _ h := by simp only [operations, terminateMission, h, if_true]
  forceStopBundle _ _ _ h := by simp only [operations, forceStopBundle, h, if_true]
  forceStop _ _ _ h := by simp only [operations, forceStop, h, if_true]
  terminateAll _ _ _ h := by simp only [operations, terminateAll, h, if_true]

theorem Busy.shape {m : Manager} (h : Settled Shape (Busy rs) m) : Shape m := by
  cases h with
  | idle _ _ h => exact h
  | busy _ _ h => exact h.1

/-- An answer leaves the list as it was but for saved data, and what it takes from the
messages it adds to the replies. -/
theorem answer_settled {m : Manager} {i : Nat} {msg : SliteAbilityInnerMsg} (left : AbilitySavedData)
    (hmsg : m.sent[i]? = some msg) (h : Settled Shape (Busy rs) m) :
    Settled Shape (Busy (rs ++ [(msg.token, msg.msgId.requested)]))
      { leaveSavedData m msg left with sent := m.sent.eraseIdx i } := by
  have hspec : Shape { leaveSavedData m msg left with sent := m.sent.eraseIdx i } ∧
      (leaveSavedData m msg left).isAppScheduling = m.isAppScheduling ∧
      (leaveSavedData m msg left).abilityOperation = m.abilityOperation ∧
      (leaveSavedData m msg left).abilityList.map (·.token) = m.abilityList.map (·.token) := by
    have hs := Busy.shape h
    rcases leaveSavedData_eq m msg left with heq | heq
    · rw [heq]
      exact ⟨⟨hs.stacked, hs.native, hs.noPending, hs.counter, hs.noFault⟩, rfl, rfl, rfl⟩
    · rw [heq]
      refine ⟨⟨hs.stacked.modify fun _ => ⟨rfl, rfl, rfl⟩, hs.native, hs.noPending, hs.counter,
        hs.noFault⟩, rfl, rfl, modify_tokens fun _ => rfl⟩
  obtain ⟨hs, hlock, hq, htokens⟩ := hspec
  cases h with
  | idle hl hqueue _ => exact .idle (hlock.trans hl) (hq.trans hqueue) hs
  | busy hl hqueue hb =>
    refine .busy (hlock.trans hl) (by simpa [hq] using hqueue) ⟨hs, ?_⟩
    obtain ⟨-, r, hr, y, hy, hd⟩ := hb
    have htop : ({ leaveSavedData m msg left with sent := m.sent.eraseIdx i } :
        Manager).getTopAbility.map (·.token) = some r.token := by
      refine (getTopAbility_tokens (m := m) htokens).trans ?_
      rw [hr, Option.map_some]
    obtain ⟨r', hr', ht⟩ := Option.map_eq_some_iff.mp htop
    refine ⟨r', hr', y, ?_, ht ▸ hd⟩
    simp only [inFlight, List.mem_append, List.mem_map, List.mem_singleton] at hy ⊢
    rcases hy with ⟨x, hx, rfl⟩ | hy
    · rcases mem_answered hmsg hx with rfl | hx
      · exact .inr (.inr rfl)
      · exact .inl ⟨x, hx, rfl⟩
    · exact .inr (.inl hy)

/-- A handled reply that is not of the foreground leaves the manager as settled as it
was. -/
theorem Handles.settled {m m' : Manager} {x : UInt16 × SliteAbilityState} (hh : Handles m m')
    (hd : Driven (x :: rs) m → Driven rs m') (h : Settled Shape (Busy (x :: rs)) m) :
    Settled Shape (Busy rs) m' := by
  cases h with
  | idle hl hq _ => exact .idle (hh.lock.trans hl) (hh.queue.trans hq) hh.shape
  | busy hl hq hb => exact .busy (hh.lock.trans hl) (hh.queue ▸ hq) ⟨hh.shape, hd hb.2⟩

/-- How the single-task build keeps its lock. -/
def discipline (cfg : Config) (hcap : 3 ≤ cfg.abilityListCapacity) :
    Discipline (singleTask cfg) (condition cfg) where
  Idle _ := Shape
  Busy := Busy
  idle_queue _ h := ⟨h.stacked, h.native, h.noPending, h.counter, h.noFault⟩
  idle_unlock h := h.unlock
  idle_enter r h := by
    unfold Request.enter
    split <;> exact ⟨h.stacked, h.native, h.noPending, h.counter, h.noFault⟩
  busy_defer r _ h := by
    unfold Request.enter
    split <;> exact ⟨⟨h.1.stacked, h.1.native, h.1.noPending, h.1.counter, h.1.noFault⟩, h.2⟩
  idle_flag _ h := ⟨h.stacked, h.native, h.noPending, h.counter, h.noFault⟩
  busy_flag _ h := ⟨⟨h.1.stacked, h.1.native, h.1.noPending, h.1.counter, h.1.noFault⟩, h.2⟩
  defers := operations_defers cfg
  operation _ _ _ h hlock hwf hok := dispatch_settles hcap h hlock hwf hok
  answer left hmsg h := answer_settled left hmsg h
  foreground env m token h hacc := onForegroundDone_spec hacc (Busy.shape h) token
  reply envs m token state hstate h hacc := by
    have hs := Busy.shape h
    cases state with
    | foreground => exact absurd rfl hstate
    | initial =>
      obtain ⟨hh, hd⟩ := onCreateDone_spec hacc hs token
      exact hh.settled hd h
    | background =>
      obtain ⟨hh, hd⟩ := onBackgroundDone_spec hacc hs token
      exact hh.settled hd h
    | uninitialized =>
      obtain ⟨hh, hd⟩ := onDestroyDone_spec _ cfg (envs 0) hs token
      exact hh.settled hd h
    | unknown =>
      refine Handles.settled ⟨hs, rfl, rfl⟩ (fun hd => hd.tail fun r _ => ?_) h
      rintro (⟨-, h₂ | ⟨h₂, -⟩⟩ | ⟨-, -, h₃⟩)
      · cases h₂
      · cases h₂
      · exact h₃ rfl

/-- The launcher has been started, and its native ability installed before or after. -/
def Booted (cfg : Config) (s : System) : Prop :=
  s.replies = [] ∧ ∃ env taskId native,
    s.manager = startLauncher cfg env taskId { nativeAbility := some native } ∨
      s.manager = { startLauncher cfg env taskId {} with nativeAbility := some native }

theorem launcher_stacked (taskId : Option Nat) : Stacked [launcherRecord taskId] :=
  .launcher _ rfl (show isLauncher launcherBundleName = true by decide)

theorem add_launcher (cfg : Config) (taskId : Option Nat) (native : Option SliteAbilityState) :
    ∃ sent, ({ nativeAbility := native } : Manager).add cfg (launcherRecord taskId) =
      { abilityList := [launcherRecord taskId], nativeAbility := native, sent := sent } := by
  obtain ⟨sent, hadd⟩ := add_eq cfg { nativeAbility := native } (launcherRecord taskId)
  have hl : (AbilityList.add cfg.abilityListCapacity [] (launcherRecord taskId)).1 =
      [launcherRecord taskId] := by
    have he : AbilityList.evict cfg.abilityListCapacity [] = [] := by
      unfold AbilityList.evict
      split <;> rfl
    rw [add_of_fresh (by rw [he]; rfl), he]
  exact ⟨sent, by rw [hadd, hl]⟩

theorem Booted.settled {cfg : Config} {s : System} (h : Booted cfg s) :
    Settled Shape (Busy s.replies) s.manager := by
  obtain ⟨-, env, taskId, native, hm | hm⟩ := h
  · obtain ⟨sent, hadd⟩ := add_launcher cfg taskId (some native)
    have heq : s.manager = toLauncher
        { abilityList := [launcherRecord taskId], nativeAbility := some native, sent := sent }
        .foreground { token := launcherToken, msgId := .foreground,
                      want := some (launcherWant (launcherRecord taskId)) } := by
      rw [hm]
      simp only [startLauncher, AbilityList.get, List.find?_nil, Option.isSome_none,
        Bool.false_eq_true, if_false, hadd]
      rfl
    rw [heq]
    exact .idle rfl rfl ⟨launcher_stacked taskId, rfl, rfl, show launcherToken ≠ 0xFFFF by decide, rfl⟩
  · obtain ⟨sent, hadd⟩ := add_launcher cfg taskId none
    have heq : s.manager =
        { abilityList := [launcherRecord taskId], nativeAbility := some native, sent := sent } := by
      rw [hm]
      simp only [startLauncher, AbilityList.get, List.find?_nil, Option.isSome_none,
        Bool.false_eq_true, if_false, hadd]
      rfl
    rw [heq]
    exact .idle rfl rfl ⟨launcher_stacked taskId, rfl, rfl, show launcherToken ≠ 0xFFFF by decide, rfl⟩

/-- No request is stranded in a run of the single-task build whose steps meet
`condition`, with room for three records. -/
theorem singleTask_noneStranded {cfg : Config} (hcap : 3 ≤ cfg.abilityListCapacity) {s : System}
    (h : Reached (System.next (singleTask cfg)) (fun s e => s.meets (singleTask cfg) (condition cfg) e)
      (Booted cfg) s) : s.noneStranded ∧ s.manager.fault = false := by
  have hs := (discipline cfg hcap).reached (fun _ h => h.settled) h
  refine ⟨?_, (Busy.shape hs).noFault⟩
  rintro ⟨hsent, hreplies⟩
  cases hs with
  | idle hlock hqueue _ => exact ⟨hlock, hqueue⟩
  | busy _ _ hb =>
    -- the lock is held, so something would have to be in flight
    obtain ⟨-, r, -, x, hx, -⟩ := hb
    simp [inFlight, hsent, hreplies] at hx

/-- The launcher in front and nothing in flight. -/
def idleSystem : System where
  manager :=
    { startLauncher { abilityListCapacity := 3 } .working none {} with nativeAbility := some .initial }

theorem idleSystem_booted : Booted { abilityListCapacity := 3 } idleSystem :=
  ⟨rfl, .working, none, .initial, .inr rfl⟩

/-- A start of an application from the launcher, its queue working. -/
theorem start_meets : idleSystem.meets (singleTask { abilityListCapacity := 3 })
    (condition { abilityListCapacity := 3 }) (.request (startOf (cstr "a")) fun _ => .working) := by
  intro _ o ho
  obtain rfl := Option.some.inj ho
  exact ⟨⟨fun _ _ => rfl, fun _ => by decide, fun h => nomatch h⟩, fun h => absurd h (by decide)⟩

theorem singleTask_noneStranded_after_start :
    ∃ s, System.next (singleTask { abilityListCapacity := 3 }) idleSystem
        (.request (startOf (cstr "a")) fun _ => .working) = some s ∧
      s.noneStranded ∧ s.manager.fault = false :=
  ⟨_, rfl, singleTask_noneStranded (Nat.le_refl 3)
    (.step (.init idleSystem_booted) start_meets rfl)⟩

/-- A forced stop while the launcher is in front strands every later request. -/
theorem singleTask_forceStop_strands :
    ∃ s, Reached (System.next (singleTask { abilityListCapacity := 3 })) (fun _ _ => True)
      (Booted { abilityListCapacity := 3 }) s ∧ ¬ s.noneStranded := by
  have h : (run (System.next (singleTask { abilityListCapacity := 3 })) idleSystem
      [.request (.terminateApp 1) fun _ => .working, .request (startOf (cstr "a")) fun _ => .working]).map
      (fun s => decide s.noneStranded) = some false := by decide
  obtain ⟨s, hs, hstranded⟩ := Option.map_eq_some_iff.mp h
  exact ⟨s, Reached.of_run (.init idleSystem_booted) _ hs, of_decide_eq_false hstranded⟩

end AbilityLite.Slite.SingleTask
