import AbilityLite.Slite.MultiTasksRefusals

/-
  What one operation of the multi-task build leaves, and a drain of the queue.

  1. `TerminateMission` goes through the tokens it collected, each with the lock that the one
     before gave back; what is left is a filter of the list: `terminateMission_filters`;
  2. no operation that finds the lock free touches the queue (`dispatch_queue`), and
     it uses a null pointer where `crashes` says so (`dispatch_fault`);
  3. so `RunOperation` takes the operations from the front, each once, and comes back unless one of
     them crashes: `runOperation_drains_iff`.
-/

namespace AbilityLite.Slite.MultiTasks
open Manager AbilityList

/-! ## Terminating a mission -/

section
variable {m : Manager} {top : AbilityRecord} {below : AbilityList}

theorem getAbilityList_eq (l : AbilityList) (mission : UInt32) :
    getAbilityList l mission = ((l.filter (·.mission == mission)).map (·.token)).reverse := by
  have hacc (result : List UInt16) :
      l.foldl (fun result r => if r.mission == mission then r.token :: result else result) result =
        ((l.filter (·.mission == mission)).map (·.token)).reverse ++ result := by
    induction l generalizing result with
    | nil => rfl
    | cons r l ih =>
      rw [List.foldl_cons, ih]
      cases hr : r.mission == mission
      · simp [hr]
      · simp [hr]
  rw [getAbilityList, hacc, List.append_nil]

/-- With distinct tokens, `Erase` is a filter. -/
theorem erase_eq_filter {l : AbilityList} (hd : (l.map (·.token)).Nodup) (token : UInt16) :
    erase l token = l.filter (·.token ≠ token) := by
  induction l with
  | nil => rfl
  | cons r l ih =>
    simp only [List.map_cons, List.nodup_cons] at hd
    by_cases hr : r.token = token
    · subst hr
      have hkeep : l.filter (·.token ≠ r.token) = l := by
        rw [List.filter_eq_self]
        intro x hx
        exact decide_eq_true fun e => hd.1 (List.mem_map.mpr ⟨x, hx, e⟩)
      rw [erase_top, List.filter_cons_of_neg (by simp), hkeep]
    · rw [erase_below l hr, List.filter_cons_of_pos (by simpa using hr), ih hd.2]

/-- `TerminateAbility` deletes this record when it is not on top. -/
def goes (top r : AbilityRecord) : Prop := r.token ≠ top.token ∧ isPermanentAbility r = false

instance (top : AbilityRecord) : DecidablePred (goes top) :=
  fun _ => inferInstanceAs (Decidable (_ ∧ _))

/-- The manager after the records `rs` have been terminated from the background. -/
structure Cleaned (m : Manager) (top : AbilityRecord) (rs : List AbilityRecord) (m' : Manager) :
    Prop where
  lock : m'.isAppScheduling = false
  queue : m'.abilityOperation = m.abilityOperation
  list : m'.abilityList =
    m.abilityList.filter fun x => ¬ (goes top x ∧ x.token ∈ rs.map (·.token))
  notified : m'.notifications =
    m.notifications ++ (rs.filter (goes top ·)).map fun r => .cleanup r.appName

theorem Cleaned.none (top : AbilityRecord) (hlock : m.isAppScheduling = false) :
    Cleaned m top [] m :=
  ⟨hlock, rfl, (List.filter_eq_self.mpr fun _ _ => by simp).symm, by simp⟩

/-- One more record is terminated. -/
theorem Cleaned.step (cfg : Config) (env : Env) {m' : Manager} {rs : List AbilityRecord} {r : AbilityRecord}
    (hl : m.abilityList = top :: below) (hd : (m.abilityList.map (·.token)).Nodup)
    (h : Cleaned m top rs m') (hr : r ∈ m.abilityList) (hfresh : r.token ∉ rs.map (·.token)) :
    Cleaned m top (rs ++ [r])
      (if r.token ≠ top.token then (terminateAbility cfg env m' r.token).2 else m') := by
  have hd' : (m'.abilityList.map (·.token)).Nodup := by
    rw [h.list]
    exact hd.sublist (List.filter_sublist.map _)
  have hr' : r ∈ m'.abilityList := by
    rw [h.list]
    exact List.mem_filter.mpr ⟨hr, by simp [hfresh]⟩
  -- of the records of the list only `r` itself has its token
  have honly : ∀ x ∈ m.abilityList, x.token = r.token → x = r := by
    intro x hx e
    have hxr := get_of_mem hd hx
    rw [e, get_of_mem hd hr, Option.some.injEq] at hxr
    exact hxr.symm
  -- a record that stays adds nothing to what was deleted before
  have hstays (hgoes : ¬ goes top r) : Cleaned m top (rs ++ [r]) m' := by
    refine ⟨h.lock, h.queue, h.list.trans (List.filter_congr fun x hx => ?_), ?_⟩
    · by_cases e : x.token = r.token
      · have hxr := honly x hx e
        subst hxr
        simp [hgoes]
      · simp [e]
    · rw [h.notified, List.filter_append, List.filter_cons_of_neg (by simpa using hgoes)]
      simp
  by_cases htop : r.token = top.token
  · rw [if_neg (not_not_intro htop)]
    exact hstays fun hgoes => hgoes.1 htop
  · rw [if_pos htop]
    -- the top has not been touched, and `r` is below it: the list has two records
    have htop' : ∃ rest, m'.abilityList = top :: rest := by
      rw [h.list, hl, List.filter_cons_of_pos (by simp [goes])]
      exact ⟨_, rfl⟩
    obtain ⟨rest, hl'⟩ := htop'
    have hlen : ¬ (m'.abilityList.length = 1 ∧ isPermanentAbility top = true) := by
      rintro ⟨hone, -⟩
      rw [hl', List.length_cons, Nat.add_eq_right, List.length_eq_zero_iff] at hone
      rw [hl', hone, List.mem_singleton] at hr'
      exact htop (congrArg _ hr')
    have hg := get_of_mem hd' hr'
    simp only [terminateAbility, h.lock, Bool.false_eq_true, if_false, terminateAbilityWant,
      getTopAbility_cons (m := { m' with isAppScheduling := true }) hl', if_neg hlen, ne_eq, htop,
      not_false_eq_true, if_true, hg]
    cases hperm : isPermanentAbility r with
    | true =>
      simp only [if_true]
      have hsame := hstays fun hgoes => by simp [hgoes.2] at hperm
      exact ⟨rfl, hsame.queue, hsame.list, hsame.notified⟩
    | false =>
      have hgoes : goes top r := ⟨htop, hperm⟩
      simp only [Bool.false_eq_true, if_false]
      rw [deleteRecordInfo_some (m := { m' with isAppScheduling := true }) hd' hg]
      refine ⟨rfl, h.queue, ?_, ?_⟩
      · simp only
        rw [erase_eq_filter hd', h.list, List.filter_filter]
        refine List.filter_congr fun x hx => ?_
        by_cases e : x.token = r.token
        · have hxr := honly x hx e
          subst hxr
          simp [hgoes]
        · simp [e]
      · simp only
        rw [h.notified, List.filter_append, List.map_append, List.append_assoc]
        simp [hgoes]

theorem Cleaned.foldl (cfg : Config) (env : Env) (hl : m.abilityList = top :: below)
    (hd : (m.abilityList.map (·.token)).Nodup) (rs : List AbilityRecord) {before : List AbilityRecord}
    {m' : Manager} (h : Cleaned m top before m') (hrs : ∀ r ∈ rs, r ∈ m.abilityList)
    (hdistinct : ((before ++ rs).map (·.token)).Nodup) :
    Cleaned m top (before ++ rs) (terminateEach cfg env top.token m' (rs.map (·.token))) := by
  induction rs generalizing before m' with
  | nil =>
    rw [List.append_nil]
    exact h
  | cons r rs ih =>
    have hfresh : r.token ∉ before.map (·.token) := by
      rw [List.map_append, List.map_cons, List.nodup_append] at hdistinct
      exact fun hmem => hdistinct.2.2 _ hmem _ (List.mem_cons_self ..) rfl
    have hstep := h.step cfg env hl hd (hrs r (List.mem_cons_self ..)) hfresh
    have hassoc : before ++ r :: rs = (before ++ [r]) ++ rs := by simp
    rw [hassoc] at hdistinct ⊢
    exact ih hstep (fun x hx => hrs x (List.mem_cons_of_mem _ hx)) hdistinct

/-- Below the top, `TerminateMission` deletes this record. -/
def closes (mission : UInt32) (r : AbilityRecord) : Bool :=
  r.mission == mission && !isPermanentAbility r

/-- `TerminateMission` deletes the records of the mission that are neither on top nor permanent, the
last one first, tells of each of them once, and leaves everything else as it was. -/
theorem terminateMission_filters (cfg : Config) (env : Env) (m : Manager) (top : AbilityRecord)
    (below : AbilityList) (hl : m.abilityList = top :: below)
    (hd : (m.abilityList.map (·.token)).Nodup) (hlock : m.isAppScheduling = false)
    (mission : UInt32) :
    let x := terminateMission cfg env m mission
    x.1 = errOk ∧ x.2.isAppScheduling = false ∧ x.2.abilityOperation = m.abilityOperation ∧
      x.2.abilityList = top :: below.filter (!closes mission ·) ∧
      x.2.notifications =
        m.notifications ++ (below.filter (closes mission)).reverse.map fun r => .cleanup r.appName := by
  simp only [terminateMission, hlock, Bool.false_eq_true, if_false, getTopAbility_cons hl]
  refine ⟨trivial, ?_⟩
  let rs := (m.abilityList.filter (·.mission == mission)).reverse
  have htokens : getAbilityList m.abilityList mission = rs.map (·.token) := by
    rw [getAbilityList_eq, List.map_reverse]
  have hmem : ∀ r ∈ rs, r ∈ m.abilityList := fun r hr =>
    (List.mem_filter.mp (List.mem_reverse.mp hr)).1
  have hdistinct : (rs.map (·.token)).Nodup := by
    rw [List.map_reverse]
    exact (List.reverse_perm _).nodup_iff.mpr (hd.sublist (List.filter_sublist.map _))
  have hclean := (Cleaned.none top hlock).foldl cfg env hl hd rs hmem hdistinct
  rw [List.nil_append, ← htokens] at hclean
  -- a listed record is among those of the mission by its token, and only the top has the top's
  have hmission : ∀ x ∈ m.abilityList, (x.token ∈ rs.map (·.token) ↔ x.mission = mission) := by
    intro x hx
    constructor
    · intro hxrs
      obtain ⟨r, hr, e⟩ := List.mem_map.mp hxrs
      have hxr := get_of_mem hd (hmem r hr)
      rw [e, get_of_mem hd hx, Option.some.injEq] at hxr
      subst hxr
      simpa using (List.mem_filter.mp (List.mem_reverse.mp hr)).2
    · intro e
      have hx' : x ∈ m.abilityList.filter (·.mission == mission) :=
        List.mem_filter.mpr ⟨hx, by simp [e]⟩
      exact List.mem_map.mpr ⟨x, List.mem_reverse.mpr hx', rfl⟩
  have hbelow : ∀ x ∈ below, x.token ≠ top.token := by
    intro x hx e
    rw [hl, List.map_cons, List.nodup_cons] at hd
    exact hd.1 (List.mem_map.mpr ⟨x, hx, e⟩)
  have hsub : ∀ x ∈ below, x ∈ m.abilityList := fun x hx => hl ▸ List.mem_cons_of_mem _ hx
  refine ⟨hclean.lock, hclean.queue, hclean.list.trans ?_, hclean.notified.trans ?_⟩
  · rw [hl, List.filter_cons_of_pos (by simp [goes])]
    congr 1
    refine List.filter_congr fun x hx => ?_
    rw [Bool.eq_iff_iff]
    simp [goes, closes, hbelow x hx, hmission x (hsub x hx), or_comm]
  · have hgone : below.filter (fun x => decide (goes top x) && (x.mission == mission)) =
        below.filter (closes mission) :=
      List.filter_congr fun x hx => by
        rw [Bool.eq_iff_iff]
        simp [goes, closes, hbelow x hx, and_comm]
    rw [List.filter_reverse, List.filter_filter, hl, List.filter_cons_of_neg (by simp [goes]), hgone]

/-- Of the four abilities of one mission, the top and the launcher stay. -/
theorem terminateMission_filters_four :
    let cfg : Config := { abilityListCapacity := 8 }
    let m : Manager := { abilityList := [{ appName := cstr "c", token := 3, mission := 7 },
      { appName := cstr "b", token := 2, mission := 7 }, { appName := cstr "a", token := 1, mission := 7 },
      { appName := launcherBundleName, token := launcherToken, mission := 7 }] }
    (terminateMission cfg Env.working m 7).2.notifications = [.cleanup (cstr "a"), .cleanup (cstr "b")] :=
  (terminateMission_filters _ Env.working _ _ _ rfl (by decide) rfl 7).2.2.2.2.trans (by decide)

end

/-! ## Null pointers -/

section fault
variable (cfg : Config) (env : Env) (m : Manager)

@[simp] theorem add_fault (r : AbilityRecord) : (m.add cfg r).fault = m.fault := by
  obtain ⟨s, h⟩ := add_eq cfg m r
  rw [h]

@[simp] theorem moveToTop_fault (token : UInt16) : (m.moveToTop cfg token).fault = m.fault := by
  simp only [Manager.moveToTop, releaseAll_eq]

@[simp] theorem sendMsgToAbilityThread_fault (state : SliteAbilityState) (r : AbilityRecord) :
    (m.sendMsgToAbilityThread env state r).2.fault = m.fault := by
  obtain ⟨s, h⟩ := sendMsgToAbilityThread_eq env m state r
  rw [h]

@[simp] theorem schedulerLifecycle_fault (token : UInt16) (state : SliteAbilityState) :
    (schedulerLifecycle env m token state).2.fault = m.fault := by
  unfold schedulerLifecycle
  split
  · rfl
  · exact sendMsgToAbilityThread_fault env m state _

@[simp] theorem setAbilityStateAndNotify_fault (token : UInt16) (state : AbilityRecordState) :
    (m.setAbilityStateAndNotify token state).fault = m.fault := by
  obtain ⟨n, hn⟩ := setAbilityStateAndNotify_eq m token state
  rw [hn]

@[simp] theorem deleteAbilityThread_fault (r : AbilityRecord) :
    (m.deleteAbilityThread r).fault = m.fault := by
  unfold Manager.deleteAbilityThread
  split <;> rfl

@[simp] theorem deleteRecordInfo_fault (token : UInt16) :
    (m.deleteRecordInfo token).fault = m.fault := by
  unfold Manager.deleteRecordInfo
  split
  · rfl
  · exact deleteAbilityThread_fault m _

@[simp] theorem markTop_fault (top : AbilityRecord) : (markTop env m top).fault = m.fault := by
  unfold markTop
  split <;> rfl

@[simp] theorem handToNewTop_fault (token : UInt16) (want : Option Want) :
    (handToNewTop m token want).fault = m.fault := by
  cases want <;> rfl

@[simp] theorem createAppTask_fault (r : AbilityRecord) (listed : Bool) :
    (createAppTask env m r listed).2.fault = m.fault := by
  unfold createAppTask
  by_cases hinit : env.initAbilityThread r.token = errOk
  · simp only [hinit, ne_eq, not_true_eq_false, if_false, schedulerLifecycle_fault]
    split <;> rfl
  · simp only [hinit, ne_eq, not_false_eq_true, if_true]
    split <;> rfl

@[simp] theorem terminateAbilityWant_fault (token : UInt16) (want : Option Want) :
    (terminateAbilityWant cfg env m token want).2.fault = m.fault := by
  unfold terminateAbilityWant
  split
  · rfl
  · split
    · rfl
    · split
      · split
        · rfl
        · split
          · rfl
          · exact deleteRecordInfo_fault m token
      · simp only
        split
        · rfl
        · simp only [sendMsgToAbilityThread_fault, handToNewTop_fault]
          split <;> simp

/-- `PreCheckStartAbility` finds the application listed but not stopped and no token pending: it
erases a record that it did not make. -/
def preCheckCrashes (m : Manager) (info : AbilitySvcInfo) (bundleName : CString) : Bool :=
  (info.path.isSome || info.isNativeApp) && m.pendingToken = 0 &&
    (m.abilityList.getByName bundleName).any (·.state ≠ .stop)

theorem preCheckCrashes_congr {m m' : Manager} (hp : m'.pendingToken = m.pendingToken)
    {bundleName : CString} (hstopped : (m'.abilityList.getByName bundleName).any (·.state ≠ .stop) =
      (m.abilityList.getByName bundleName).any (·.state ≠ .stop)) (info : AbilitySvcInfo) :
    preCheckCrashes m' info bundleName = preCheckCrashes m info bundleName := by
  unfold preCheckCrashes
  rw [hstopped, hp]

theorem preCheckStartAbility_fault (info : AbilitySvcInfo) (bundleName : CString) :
    (preCheckStartAbility cfg env m info bundleName).2.fault =
      (m.fault || preCheckCrashes m info bundleName) := by
  unfold preCheckStartAbility preCheckCrashes
  split
  · next hpath =>
    rw [Bool.and_eq_true, Bool.not_eq_true', Option.isNone_iff_eq_none] at hpath
    simp [hpath.1, hpath.2]
  · next hpath =>
    have hpath' : (info.path.isSome || info.isNativeApp) = true := by
      cases hp : info.path <;> cases hn : info.isNativeApp <;> simp_all
    rw [hpath', Bool.true_and]
    split
    · next r hname =>
      rw [hname, Option.any_some]
      by_cases hstop : r.state = .stop
      · simp [hstop]
      · by_cases hp : m.pendingToken = 0
        · simp [hstop, hp, Manager.crash]
        · simp [hstop, hp]
    · next hname =>
      rw [hname, Option.any_none, Bool.and_false, Bool.or_false]
      obtain ⟨token, m', htoken, hm'⟩ : ∃ token m',
          (if m.pendingToken ≠ 0 then (m.pendingToken, m) else generateToken m) = (token, m') ∧
            m'.fault = m.fault := by
        split
        · exact ⟨_, _, rfl, rfl⟩
        · exact ⟨_, _, rfl, rfl⟩
      obtain ⟨mission, k, hmission⟩ := generateMission_eq m' info
      simp only [htoken, hmission]
      split
      · split
        · simp [Manager.erase, hm']
        · simp [hm']
      · simp [hm']

/-- A start of an application that is not on top comes to that. -/
def startInfoCrashes (env : Env) (m : Manager) (info : AbilitySvcInfo) : Bool :=
  info.bundleName.any fun bundleName => bundleName.bytes.length ≠ 0 &&
    match m.getTopAbility with
    | none => bundleName = env.bms.getStartupBundleName && preCheckCrashes m info bundleName
    | some topRecord =>
      (info.isNativeApp || checkResponse env bundleName) && bundleName ≠ topRecord.appName &&
        preCheckCrashes { m with pendingToken := (generateToken m).1 } info bundleName

/-- Marking the top changes no state. -/
theorem markTop_stopped (topRecord : AbilityRecord) (bundleName : CString) :
    ((markTop env m topRecord).abilityList.getByName bundleName).any (·.state ≠ .stop) =
      (m.abilityList.getByName bundleName).any (·.state ≠ .stop) := by
  unfold markTop
  split
  · have hname := getByName_modify (l := m.abilityList)
      (f := fun r => { r with isTerminated := true }) (fun _ => rfl) topRecord.token bundleName
    simp only [Manager.modify, hname]
    cases m.abilityList.getByName bundleName with
    | none => rfl
    | some r =>
      simp only [Option.map_some, Option.any_some]
      split <;> rfl
  · rfl

theorem startAbilityInfo_fault (info : AbilitySvcInfo) :
    (startAbilityInfo cfg env m info).2.fault = (m.fault || startInfoCrashes env m info) := by
  unfold startAbilityInfo startInfoCrashes
  cases info.bundleName with
  | none => simp
  | some bundleName =>
    simp only [Option.any_some]
    by_cases hempty : bundleName.bytes.length = 0
    · simp [hempty]
    · simp only [hempty, if_false, ne_eq, not_false_eq_true, decide_true, Bool.true_and]
      cases htop : m.getTopAbility with
      | none =>
        by_cases hboot : bundleName = env.bms.getStartupBundleName
        · simp [hboot, preCheckStartAbility_fault]
        · simp [hboot]
      | some topRecord =>
        simp only
        by_cases hresponse : (!info.isNativeApp && !checkResponse env bundleName) = true
        · rw [if_pos hresponse]
          rw [← Bool.not_or, Bool.not_eq_true'] at hresponse
          simp [hresponse]
        · rw [if_neg hresponse]
          rw [← Bool.not_or, Bool.not_eq_true', Bool.not_eq_false] at hresponse
          rw [hresponse, Bool.true_and]
          by_cases hname : bundleName = topRecord.appName
          · simp only [hname, if_true, not_true_eq_false, decide_false, Bool.false_and,
              Bool.or_false]
            split
            · exact createAppTask_fault env m topRecord true
            · rfl
          · obtain ⟨s, hsend⟩ :=
              sendMsgToAbilityThread_eq env (markTop env m topRecord) .background topRecord
            have hnext : (generateToken (markTop env m topRecord)).1 = (generateToken m).1 := by
              simp only [generateToken, markTop_nextToken]
            simp only [hname, if_false, not_false_eq_true, decide_true, Bool.true_and, hsend,
              preCheckStartAbility_fault]
            refine (congrArg (_ || ·) (preCheckCrashes_congr ?_ ?_ info)).trans
              (congrArg (· || _) (markTop_fault env m topRecord))
            · exact hnext
            · exact markTop_stopped env m topRecord bundleName

/-- A start of an application that the bundle manager knows. -/
def startCrashes (cfg : Config) (env : Env) (m : Manager) (want : Option Want) : Bool :=
  (newApp cfg env m want).any fun app =>
    startInfoCrashes env m app.2

theorem startAbility_fault (hlock : m.isAppScheduling = false) (want : Option Want) :
    (startAbility cfg env m want).2.fault = (m.fault || startCrashes cfg env m want) := by
  have hcases := startAbility_cases cfg env hlock want
  unfold startCrashes
  generalize startAbility cfg env m want = x at hcases ⊢
  cases hcases with
  | ends ret remote hnone => simp [hnone.2]
  | bringsUp w r top hmem htop hne hup =>
    have hnone : newApp cfg env m want = none := by
      cases happ : newApp cfg env m want with
      | none => rfl
      | some app => exact absurd (comesUp_of_newApp happ) (by simp [hup])
    rw [hnone, Option.any_none, Bool.or_false, sendMsgToAbilityThread_fault, markTop_fault,
      moveToTop_fault]
    rfl
  | startsNew w bundleName info happ hbundle hname hquery =>
    rw [startAbilityInfo_fault, happ, Option.any_some]
    rfl

end fault

/-! ## Launching the next ability -/

/-- The lists agree in their tokens and in which records lack data. -/
def Alike (l l' : AbilityList) : Prop :=
  l'.map (fun r => (r.token, r.abilityData.isNone)) = l.map fun r => (r.token, r.abilityData.isNone)

section
variable {cfg : Config} {env : Env} {m : Manager} {l l' : AbilityList}

theorem Alike.modify (l : AbilityList) (token : UInt16) {f : AbilityRecord → AbilityRecord}
    (hf : ∀ r, (f r).token = r.token ∧ (f r).abilityData = r.abilityData) :
    Alike l (l.modify token f) := by
  unfold Alike AbilityList.modify
  rw [List.map_map]
  refine List.map_congr_left fun r _ => ?_
  simp only [Function.comp_apply]
  split
  · rw [(hf r).1, (hf r).2]
  · rfl

theorem Alike.erase (h : Alike l l') (token : UInt16) : Alike (l.erase token) (l'.erase token) := by
  unfold Alike at h ⊢
  have hmap (l : AbilityList) : (l.erase token).map (fun r => (r.token, r.abilityData.isNone)) =
      (l.map fun r => (r.token, r.abilityData.isNone)).eraseP fun p => p.1 == token := by
    rw [AbilityList.erase, List.eraseP_map]
    rfl
  rw [hmap, hmap, h]

theorem Alike.get_isSome (h : Alike l l') (token : UInt16) :
    (l'.get token).isSome = (l.get token).isSome := by
  have hmap (l : AbilityList) : (l.get token).isSome =
      (l.map fun r => (r.token, r.abilityData.isNone)).any fun p => p.1 == token := by
    rw [Bool.eq_iff_iff, AbilityList.get, List.find?_isSome, List.any_map, List.any_eq_true]
    rfl
  rw [hmap, hmap, h]

theorem Alike.top (h : Alike l l') :
    l'.head?.any (·.abilityData.isNone) = l.head?.any (·.abilityData.isNone) := by
  have hmap (l : AbilityList) : l.head?.any (·.abilityData.isNone) =
      (l.map fun r => (r.token, r.abilityData.isNone)).head?.any (·.2) := by
    cases l <;> rfl
  rw [hmap, hmap, h]

/-- Launching the next ability out of this list: there is none, or the pending one fails and the
record that is then on top has no data to be started with. -/
def launchCrashes (env : Env) (l : AbilityList) (pendingToken : UInt16) : Bool :=
  if pendingToken = 0 then l.isEmpty
  else (l.get pendingToken).isSome && env.initAbilityThread pendingToken ≠ errOk &&
    (l.erase pendingToken).head?.any (·.abilityData.isNone)

theorem launchCrashes_congr (h : Alike l l') (pendingToken : UInt16) :
    launchCrashes env l' pendingToken = launchCrashes env l pendingToken := by
  have hempty : l'.isEmpty = l.isEmpty := by
    have hlen := congrArg List.length h
    rw [List.length_map, List.length_map] at hlen
    rw [Bool.eq_iff_iff, List.isEmpty_iff_length_eq_zero, List.isEmpty_iff_length_eq_zero, hlen]
  unfold launchCrashes
  rw [hempty, h.get_isSome, (h.erase pendingToken).top]

theorem startAbilityRecord_fault {top : AbilityRecord} {rest : AbilityList}
    (hl : m.abilityList = top :: rest) (hlock : m.isAppScheduling = false) :
    (startAbilityRecord cfg env m top).2.fault = (m.fault || top.abilityData.isNone) := by
  cases hdata : top.abilityData with
  | none => simp [startAbilityRecord, hdata, Manager.crash]
  | some data =>
    rw [startAbilityRecord_top cfg env hl hlock (by simp [hdata])]
    simp

theorem launchNext_fault (cfg : Config) (env : Env) (m : Manager) :
    (launchNext cfg env m).fault = (m.fault || launchCrashes env m.abilityList m.pendingToken) := by
  unfold launchNext launchCrashes
  by_cases hp : m.pendingToken = 0
  · simp only [hp, ne_eq, not_true_eq_false, if_false, if_true]
    cases hl : m.abilityList with
    | nil => simp [getTopAbility_nil hl, Manager.crash]
    | cons top rest =>
      simp only [getTopAbility_cons hl, List.isEmpty_cons, Bool.or_false]
      split
      · exact createAppTask_fault env m top true
      · exact createAppTask_fault env m top true
  · simp only [hp, ne_eq, not_false_eq_true, if_true, if_false]
    cases hg : m.abilityList.get m.pendingToken with
    | none => simp
    | some record =>
      have ht := (get_eq_some hg).2
      by_cases hinit : env.initAbilityThread m.pendingToken = errOk
      · have hret : (createAppTask env m record true).1 = errOk := by
          simp only [createAppTask, ht, hinit, ne_eq, not_true_eq_false, if_false]
        simp [hret, hinit]
      · have hcreate : createAppTask env m record true = (env.initAbilityThread m.pendingToken,
            m.modify m.pendingToken fun r => { r with abilityThread := none }) := by
          simp only [createAppTask, ht, hinit, ne_eq, not_false_eq_true, if_true]
        simp only [hcreate, hinit, not_false_eq_true, if_true, Option.isSome_some, decide_true,
          Bool.true_and]
        have halike := (Alike.modify m.abilityList m.pendingToken
          (f := fun r => { r with abilityThread := none }) fun _ => ⟨rfl, rfl⟩).erase m.pendingToken
        rw [← halike.top]
        simp only [Manager.erase, Manager.modify, Manager.getTopAbility, AbilityList.getTopAbility]
        cases hl : (m.abilityList.modify m.pendingToken
            fun r => { r with abilityThread := none }).erase m.pendingToken with
        | nil => simp
        | cons top rest =>
          simp only [List.head?_cons, Option.any_some]
          exact startAbilityRecord_fault rfl rfl

/-! ## Deferred operations, one at a time -/

/-- `ForceStopBundle` of the ability on top launches the next one at once. -/
def forceStopCrashes (env : Env) (m : Manager) (token : UInt16) : Bool :=
  match m.abilityList with
  | [] => true
  | top :: below => top.token = token && launchCrashes env below m.pendingToken

/-- A deleted record leaves the others with their tokens and their data. -/
theorem deleteRecordInfo_alike {token : UInt16} {r : AbilityRecord}
    (hg : m.abilityList.get token = some r) :
    Alike (m.abilityList.erase token) (m.deleteRecordInfo token).abilityList ∧
      (m.deleteRecordInfo token).pendingToken = m.pendingToken := by
  have ht := (get_eq_some hg).2
  subst ht
  simp only [Manager.deleteRecordInfo, hg, Manager.deleteAbilityThread]
  split
  · exact ⟨(Alike.modify m.abilityList r.token (f := fun r => { r with abilityThread := none })
      fun _ => ⟨rfl, rfl⟩).erase r.token, rfl⟩
  · exact ⟨rfl, rfl⟩

/-- `OnDestroyDone` of an ability that was marked for termination. -/
theorem onDestroyDone_fault {token : UInt16} {r : AbilityRecord} (hg : m.abilityList.get token = some r)
    (hmarked : r.isTerminated = true) : (onDestroyDone cfg env m token).fault =
      (m.fault || launchCrashes env (m.abilityList.erase token) m.pendingToken) := by
  have ht := (get_eq_some hg).2
  subst ht
  obtain ⟨n, hn⟩ := setAbilityStateAndNotify_eq m r.token .stop
  have hstopped : (m.setAbilityStateAndNotify r.token .stop).abilityList.get r.token =
      some { r with state := .stop } := by
    rw [hn]
    simp only [get_modify (f := fun r : AbilityRecord => { r with state := .stop }) fun _ => rfl, hg,
      Option.map_some, if_true]
  obtain ⟨halike, hpending⟩ := deleteRecordInfo_alike hstopped
  simp only [onDestroyDone_eq, hstopped, hmarked, if_true, launchNext_fault, deleteRecordInfo_fault,
    setAbilityStateAndNotify_fault, launchCrashes_congr halike, hpending]
  have hlist : Alike (m.abilityList.erase r.token)
      ((m.setAbilityStateAndNotify r.token .stop).abilityList.erase r.token) := by
    rw [hn]
    exact (Alike.modify m.abilityList r.token (f := fun r => { r with state := .stop })
      fun _ => ⟨rfl, rfl⟩).erase r.token
  rw [launchCrashes_congr hlist, hn]

theorem forceStopBundle_fault (hlock : m.isAppScheduling = false) (token : UInt16) :
    (forceStopBundle cfg env m token).2.fault = (m.fault || forceStopCrashes env m token) := by
  simp only [forceStopBundle, hlock, Bool.false_eq_true, if_false]
  by_cases hnil : m.abilityList = []
  · have htop : getTopAbility { m with isAppScheduling := true } = none := getTopAbility_nil hnil
    have hcrashes : forceStopCrashes env m token = true := by simp only [forceStopCrashes, hnil]
    simp only [htop, hcrashes, Manager.crash, Bool.or_true]
  · obtain ⟨top, below, hl⟩ := List.exists_cons_of_ne_nil hnil
    have htop : getTopAbility { m with isAppScheduling := true } = some top := getTopAbility_cons hl
    have hcrashes : forceStopCrashes env m token =
        (top.token = token && launchCrashes env below m.pendingToken) := by
      simp only [forceStopCrashes, hl]
    simp only [htop, hcrashes]
    by_cases ht : top.token = token
    · subst ht
      simp only [ne_eq, not_true_eq_false, if_false, decide_true, Bool.true_and]
      have hg : (({ m with isAppScheduling := true } : Manager).modify top.token
          fun r => { r with isTerminated := true }).abilityList.get top.token =
            some { top with isTerminated := true } := by
        simp only [Manager.modify,
          get_modify (f := fun r : AbilityRecord => { r with isTerminated := true }) fun _ => rfl, hl,
          get_top, Option.map_some, if_true]
      rw [onDestroyDone_fault hg rfl]
      have halike := (Alike.modify m.abilityList top.token
        (f := fun r => { r with isTerminated := true }) fun _ => ⟨rfl, rfl⟩).erase top.token
      have hbelow : AbilityList.erase m.abilityList top.token = below := hl ▸ erase_top below
      rw [hbelow] at halike
      simp only [Manager.modify, launchCrashes_congr halike]
    · simp only [ne_eq, ht, not_false_eq_true, if_true, terminateAbilityWant_fault, decide_false,
        Bool.false_and, Bool.or_false]

/-- Terminating an ability that is not on top gives the lock back and leaves the top on top. -/
theorem terminateAbility_quiet (cfg : Config) (env : Env) {top : AbilityRecord} {below : AbilityList}
    (hlock : m.isAppScheduling = false) (hl : m.abilityList = top :: below) {token : UInt16}
    (ht : top.token ≠ token) :
    let m' := (terminateAbility cfg env m token).2
    m'.isAppScheduling = false ∧ m'.abilityOperation = m.abilityOperation ∧ m'.fault = m.fault ∧
      ∃ top' below', m'.abilityList = top' :: below' ∧ top'.token = top.token := by
  simp only [terminateAbility, hlock, Bool.false_eq_true, if_false, terminateAbilityWant,
    getTopAbility_cons (m := { m with isAppScheduling := true }) hl, ne_eq, Ne.symm ht,
    not_false_eq_true, if_true]
  split
  · exact ⟨rfl, rfl, rfl, top, below, hl, rfl⟩
  · split
    · exact ⟨rfl, rfl, rfl, top, below, hl, rfl⟩
    · next r hg =>
      split
      · exact ⟨rfl, rfl, rfl, top, below, hl, rfl⟩
      · refine ⟨rfl, deleteRecordInfo_queue { m with isAppScheduling := true } token,
          deleteRecordInfo_fault { m with isAppScheduling := true } token, ?_⟩
        obtain ⟨halike, -⟩ :=
          deleteRecordInfo_alike (m := { m with isAppScheduling := true }) hg
        have hbelow : AbilityList.erase m.abilityList token = top :: below.erase token :=
          hl ▸ erase_below below ht
        simp only [hbelow] at halike
        unfold Alike at halike
        rw [List.map_cons, List.map_eq_cons_iff] at halike
        obtain ⟨top', below', hlist, htop', -⟩ := halike
        exact ⟨top', below', hlist, congrArg Prod.fst htop'⟩

theorem terminateEach_quiet (cfg : Config) (env : Env) (tokens : List UInt16) {m : Manager}
    {top : AbilityRecord} {below : AbilityList} (hlock : m.isAppScheduling = false)
    (hl : m.abilityList = top :: below) {topToken : UInt16} (htop : top.token = topToken) :
    let m' := terminateEach cfg env topToken m tokens
    m'.abilityOperation = m.abilityOperation ∧ m'.fault = m.fault := by
  induction tokens generalizing m top below with
  | nil => exact ⟨rfl, rfl⟩
  | cons token tokens ih =>
    simp only [terminateEach, List.foldl_cons] at ih ⊢
    split
    · next ht =>
      obtain ⟨hlock', hq, hf, top', below', hl', htop'⟩ :=
        terminateAbility_quiet cfg env hlock hl (htop ▸ Ne.symm ht)
      obtain ⟨hq', hf'⟩ := ih hlock' hl' (htop'.trans htop)
      exact ⟨hq'.trans hq, hf'.trans hf⟩
    · exact ih hlock hl htop

theorem startAbility_queue (hlock : m.isAppScheduling = false) (want : Option Want) :
    (startAbility cfg env m want).2.abilityOperation = m.abilityOperation := by
  have hcases := startAbility_cases cfg env hlock want
  generalize startAbility cfg env m want = x at hcases ⊢
  cases hcases with
  | ends ret remote hnone => rfl
  | bringsUp w r top hmem htop hne hup =>
    rw [sendMsgToAbilityThread_queue, markTop_queue, moveToTop_queue]
    rfl
  | startsNew w bundleName info happ hbundle hname hquery => rw [startAbilityInfo_queue]

theorem launchNext_queue (cfg : Config) (env : Env) (m : Manager) :
    (launchNext cfg env m).abilityOperation = m.abilityOperation := by
  unfold launchNext
  split
  · split
    · rfl
    · next record hg =>
      simp only
      split
      · split
        · exact createAppTask_queue env m record true
        · next topRecord htop =>
          simp only [startAbilityRecord]
          split
          · exact createAppTask_queue env m record true
          · exact (startAbility_queue rfl _).trans (createAppTask_queue env m record true)
      · exact createAppTask_queue env m record true
  · split
    · rfl
    · next top htop =>
      simp only
      split
      · exact createAppTask_queue env m top true
      · exact createAppTask_queue env m top true

theorem onDestroyDone_queue (cfg : Config) (env : Env) (m : Manager) (token : UInt16) :
    (onDestroyDone cfg env m token).abilityOperation = m.abilityOperation := by
  rw [onDestroyDone_eq]
  simp only
  split
  · exact setAbilityStateAndNotify_queue m token .stop
  · rw [launchNext_queue]
    split
    · rw [deleteRecordInfo_queue, setAbilityStateAndNotify_queue]
    · rw [deleteAbilityThread_queue, setAbilityStateAndNotify_queue]

theorem terminateAll_eq (env : Env) (hlock : m.isAppScheduling = false)
    (excludedBundleName : Option CString) : ∃ l s n,
      (m.terminateAll env excludedBundleName).2 =
        { m with abilityList := l, sent := s, notifications := n, isAppScheduling := false } := by
  simp only [Manager.terminateAll, hlock, Bool.false_eq_true, if_false]
  generalize m.abilityList.popAllAbility excludedBundleName = x
  obtain ⟨n, hn⟩ := foldl_notify_eq (m.releaseAll x.2.2) x.2.2
  rw [hn, releaseAll_eq]
  exact ⟨_, _, _, rfl⟩

/-- The operation uses a null pointer. -/
def crashes (cfg : Config) (env : Env) (m : Manager) (o : AbilityOperation) : Bool :=
  match o.msgId with
  | .startAbility => startCrashes cfg env m o.want
  | .terminateApp => forceStopCrashes env m o.token.toUInt16
  | .terminateAll => o.want.isNone
  | _ => false

/-- An operation that finds the lock free leaves the queue alone. -/
theorem dispatch_queue (hlock : m.isAppScheduling = false) (o : AbilityOperation) (cfg : Config)
    (env : Env) :
    ((operations cfg).dispatch env m o).2.abilityOperation = m.abilityOperation := by
  obtain ⟨msgId, want, token⟩ := o
  simp only [Operations.dispatch, operations]
  cases msgId with
  | startAbility => exact startAbility_queue hlock want
  | terminateAbility =>
    simp only [terminateAbility, hlock, Bool.false_eq_true, if_false, terminateAbilityWant_queue]
  | terminateApp =>
    simp only [forceStopBundle, hlock, Bool.false_eq_true, if_false]
    split
    · rfl
    · split
      · rw [terminateAbilityWant_queue]
      · exact onDestroyDone_queue cfg env _ token.toUInt16
  | terminateMission =>
    simp only [terminateMission, hlock, Bool.false_eq_true, if_false]
    split
    · rfl
    · next top htop =>
      obtain ⟨below, hl⟩ := List.head?_eq_some_iff.mp htop
      exact (terminateEach_quiet cfg env _ hlock hl rfl).1
  | terminateAppByBundleName =>
    simp only [forceStop, hlock, Bool.false_eq_true, if_false]
    split
    · rfl
    · split
      · rfl
      · rw [terminateAbilityWant_queue]
  | terminateAll =>
    cases want with
    | none => rfl
    | some want =>
      obtain ⟨l, s, n, h⟩ := terminateAll_eq env hlock (want.data.map CString.read)
      rw [h]
  | other msgId => rfl

/-- An operation that finds the lock free uses a null pointer if `crashes` says so. -/
theorem dispatch_fault (hlock : m.isAppScheduling = false) (o : AbilityOperation) (cfg : Config)
    (env : Env) :
    ((operations cfg).dispatch env m o).2.fault = (m.fault || crashes cfg env m o) := by
  obtain ⟨msgId, want, token⟩ := o
  simp only [Operations.dispatch, operations, crashes]
  cases msgId with
  | startAbility => exact startAbility_fault cfg env m hlock want
  | terminateAbility =>
    simp only [terminateAbility, hlock, Bool.false_eq_true, if_false, terminateAbilityWant_fault,
      Bool.or_false]
  | terminateApp => exact forceStopBundle_fault hlock token.toUInt16
  | terminateMission =>
    simp only [terminateMission, hlock, Bool.false_eq_true, if_false, Bool.or_false]
    split
    · rfl
    · next top htop =>
      obtain ⟨below, hl⟩ := List.head?_eq_some_iff.mp htop
      exact (terminateEach_quiet cfg env _ hlock hl rfl).2
  | terminateAppByBundleName =>
    simp only [forceStop, hlock, Bool.false_eq_true, if_false, Bool.or_false]
    split
    · rfl
    · split
      · rfl
      · rw [terminateAbilityWant_fault]
  | terminateAll =>
    cases want with
    | none => simp [Manager.crash]
    | some want =>
      obtain ⟨l, s, n, h⟩ := terminateAll_eq env hlock (want.data.map CString.read)
      simp only [h, Option.isNone_some, Bool.or_false]
  | other msgId => simp only [Bool.or_false]

end

/-! ## Draining the queue -/

/-- The runs of `RunOperation` that return: what they execute, with the results, and what they
return. `envs i` answers the `i`-th operation; after a null pointer there is no return. -/
inductive Returns (ops : Operations) :
    (Nat → Env) → Manager → List (AbilityOperation × ErrCode) → ErrCode × Manager → Prop
  | empty {envs : Nat → Env} {m : Manager} (hqueue : m.abilityOperation = []) :
    Returns ops envs m [] (errOk, m.unlock)
  | busy {envs : Nat → Env} {m : Manager} (hqueue : m.abilityOperation ≠ [])
    (hlock : m.isAppScheduling = true) : Returns ops envs m [] (errOk, m)
  | fails {envs : Nat → Env} {m : Manager} {o : AbilityOperation} {rest : List AbilityOperation}
    {x y : ErrCode × Manager} {trace : List (AbilityOperation × ErrCode)}
    (hqueue : m.abilityOperation = o :: rest) (hlock : m.isAppScheduling = false)
    (hx : ops.dispatch (envs 0) { m with abilityOperation := rest } o = x)
    (hfault : x.2.fault = false) (hret : x.1 ≠ errOk)
    (hnext : Returns ops (fun i => envs (i + 1)) x.2.unlock trace y) :
    Returns ops envs m ((o, x.1) :: trace) y
  | stays {envs : Nat → Env} {m : Manager} {o : AbilityOperation} {rest : List AbilityOperation}
    {x : ErrCode × Manager} (hqueue : m.abilityOperation = o :: rest)
    (hlock : m.isAppScheduling = false)
    (hx : ops.dispatch (envs 0) { m with abilityOperation := rest } o = x)
    (hfault : x.2.fault = false) (hret : x.1 = errOk) (hbusy : x.2.isAppScheduling = true) :
    Returns ops envs m [(o, x.1)] x
  | goesOn {envs : Nat → Env} {m : Manager} {o : AbilityOperation} {rest : List AbilityOperation}
    {x y : ErrCode × Manager} {trace : List (AbilityOperation × ErrCode)}
    (hqueue : m.abilityOperation = o :: rest) (hlock : m.isAppScheduling = false)
    (hx : ops.dispatch (envs 0) { m with abilityOperation := rest } o = x)
    (hfault : x.2.fault = false) (hret : x.1 = errOk) (hfree : x.2.isAppScheduling = false)
    (hnext : Returns ops (fun i => envs (i + 1)) x.2 trace y) :
    Returns ops envs m ((o, x.1) :: trace) y

/-- A drain of the queue `q` that executed `trace` and left `m`. -/
structure Drained (q : List AbilityOperation) (trace : List (AbilityOperation × ErrCode))
    (m : Manager) : Prop where
  ends : m.abilityOperation = [] ∨ m.isAppScheduling = true
  inOrder : trace.map Prod.fst ++ m.abilityOperation = q
  starts : q ≠ [] → trace ≠ []
  goesOn : ∀ before o ret after, trace = before ++ (o, ret) :: after → ret ≠ errOk →
    after ≠ [] ∨ m.abilityOperation = []

section
variable {cfg : Config}

theorem Drained.empty {m : Manager} (hqueue : m.abilityOperation = []) : Drained [] [] m :=
  ⟨.inl hqueue, by rw [hqueue]; rfl, fun h => absurd rfl h, fun before o ret after h =>
    absurd h (by simp)⟩

/-- One operation in front of a drain of the others. -/
theorem Drained.cons {rest : List AbilityOperation} {trace : List (AbilityOperation × ErrCode)}
    {m : Manager} (h : Drained rest trace m) (o : AbilityOperation) (ret : ErrCode) :
    Drained (o :: rest) ((o, ret) :: trace) m := by
  refine ⟨h.ends, congrArg (o :: ·) h.inOrder, fun _ => List.cons_ne_nil _ _, ?_⟩
  intro before o' ret' after htrace hret
  cases before with
  | nil =>
    obtain ⟨-, rfl⟩ := List.cons.inj htrace
    by_cases hq : rest = []
    · right
      have hnil := h.inOrder
      rw [hq, List.append_eq_nil_iff] at hnil
      exact hnil.2
    · exact .inl (h.starts hq)
  | cons p before =>
    obtain ⟨-, htrace'⟩ := List.cons.inj htrace
    exact h.goesOn before o' ret' after htrace' hret

/-- A drain that returns has executed nothing that crashes. -/
theorem Returns.meets {envs : Nat → Env} {m : Manager} {trace : List (AbilityOperation × ErrCode)}
    {y : ErrCode × Manager} (h : Returns (operations cfg) envs m trace y)
    (hlock : m.isAppScheduling = false) (hfault : m.fault = false) (fuel : Nat) :
    (operations cfg).drainMeets (fun env m o => crashes cfg env m o = false) fuel envs m := by
  -- the result of an executed operation tells whether it crashed
  have hcrash {env : Env} {m : Manager} {rest : List AbilityOperation} {o : AbilityOperation}
      {x : ErrCode × Manager} (hlock : m.isAppScheduling = false)
      (hx : (operations cfg).dispatch env { m with abilityOperation := rest } o = x)
      (hfault : x.2.fault = false) : crashes cfg env { m with abilityOperation := rest } o = false := by
    rw [← hx, dispatch_fault (m := { m with abilityOperation := rest }) hlock, Bool.or_eq_false_iff]
      at hfault
    exact hfault.2
  induction h generalizing fuel with
  | empty hqueue =>
    cases fuel with
    | zero => trivial
    | succ fuel => simp only [Operations.drainMeets, hqueue]
  | busy hqueue hbusy =>
    rw [hlock] at hbusy
    cases hbusy
  | fails hqueue hlock hx hfault' hret hnext ih =>
    cases fuel with
    | zero => trivial
    | succ fuel =>
      simp only [Operations.drainMeets, hqueue, hx]
      exact ⟨hcrash hlock hx hfault', fun _ => ih rfl hfault' fuel⟩
  | stays hqueue hlock hx hfault' hret hbusy =>
    cases fuel with
    | zero => trivial
    | succ fuel =>
      simp only [Operations.drainMeets, hqueue, hx]
      refine ⟨hcrash hlock hx hfault', fun hgo => ?_⟩
      rcases hgo with hgo | hgo
      · exact absurd hret hgo
      · rw [hbusy] at hgo
        cases hgo
  | goesOn hqueue hlock hx hfault' hret hfree hnext ih =>
    cases fuel with
    | zero => trivial
    | succ fuel =>
      simp only [Operations.drainMeets, hqueue, hx]
      refine ⟨hcrash hlock hx hfault', fun _ => ?_⟩
      rw [Manager.unlock_eq hfree]
      exact ih hfree hfault' fuel

/-- A drain with nothing in it that crashes returns, and has gone through the queue in order. -/
theorem runOperationFuel_returns {fuel : Nat} {envs : Nat → Env} {m : Manager}
    (hlock : m.isAppScheduling = false) (hfault : m.fault = false)
    (hfuel : m.abilityOperation.length < fuel)
    (hok : (operations cfg).drainMeets (fun env m o => crashes cfg env m o = false) fuel envs m) :
    ∃ trace, Returns (operations cfg) envs m trace ((operations cfg).runOperationFuel fuel envs m) ∧
      Drained m.abilityOperation trace ((operations cfg).runOperationFuel fuel envs m).2 := by
  induction fuel generalizing envs m with
  | zero => exact absurd hfuel (Nat.not_lt_zero _)
  | succ fuel ih =>
    cases hq : m.abilityOperation with
    | nil =>
      rw [Operations.runOperationFuel_nil _ hq]
      exact ⟨[], .empty hq, .empty hq⟩
    | cons o rest =>
      rw [Operations.runOperationFuel_cons _ hq hlock]
      simp only [Operations.drainMeets, hq] at hok
      obtain ⟨hcrash, hnext⟩ := hok
      have hqueue' := dispatch_queue (m := { m with abilityOperation := rest }) hlock o cfg (envs 0)
      have hfault' := dispatch_fault (m := { m with abilityOperation := rest }) hlock o cfg (envs 0)
      rw [hcrash, Bool.or_false] at hfault'
      have hfree : ∃ x, (operations cfg).dispatch (envs 0) { m with abilityOperation := rest } o = x :=
        ⟨_, rfl⟩
      obtain ⟨x, hx⟩ := hfree
      simp only [hx] at hnext hqueue' hfault' ⊢
      have hlen : x.2.abilityOperation.length < fuel := by
        rw [hq, List.length_cons] at hfuel
        rw [hqueue']
        omega
      by_cases hgo : goesOn x
      · rw [if_pos hgo]
        obtain ⟨trace, hreturns, hdrained⟩ := ih (m := x.2.unlock) rfl (hfault'.trans hfault) hlen
          (hnext hgo)
        have hdrained' : Drained rest trace _ := hqueue' ▸ hdrained
        refine ⟨(o, x.1) :: trace, ?_, hdrained'.cons o x.1⟩
        by_cases hret : x.1 = errOk
        · have hl : x.2.isAppScheduling = false := hgo.resolve_left (not_not_intro hret)
          rw [Manager.unlock_eq hl] at hreturns ⊢
          exact .goesOn hq hlock hx (hfault'.trans hfault) hret hl hreturns
        · exact .fails hq hlock hx (hfault'.trans hfault) hret hreturns
      · rw [if_neg hgo]
        have hret : x.1 = errOk := Decidable.byContradiction fun hne => hgo (.inl hne)
        have hbusy : x.2.isAppScheduling = true := by
          cases hl : x.2.isAppScheduling with
          | true => rfl
          | false => exact absurd (.inr hl) hgo
        refine ⟨[(o, x.1)], .stays hq hlock hx (hfault'.trans hfault) hret hbusy, ?_⟩
        refine ⟨.inr hbusy, congrArg (o :: ·) hqueue', fun _ => List.cons_ne_nil _ _, ?_⟩
        intro before o' ret after htrace hret'
        cases before with
        | nil =>
          obtain ⟨hhead, -⟩ := List.cons.inj htrace
          exact absurd (hret ▸ (congrArg Prod.snd hhead).symm) hret'
        | cons p before => exact absurd (List.cons.inj htrace).2 (by simp)

/-- `RunOperation`, found free, returns exactly when nothing that it executes uses a null pointer;
then it has executed a prefix of the queue, in order and each operation once, it went on
after every failure, and it leaves the queue empty or the lock taken. -/
theorem runOperation_drains_iff (cfg : Config) (envs : Nat → Env) (m : Manager)
    (hlock : m.isAppScheduling = false) (hfault : m.fault = false) :
    (∃ trace, Returns (operations cfg) envs m trace ((operations cfg).runOperation envs m) ∧
        Drained m.abilityOperation trace ((operations cfg).runOperation envs m).2) ↔
      (operations cfg).drainMeets (fun env m o => crashes cfg env m o = false)
        (queueWeight m.abilityOperation + 1) envs m := by
  constructor
  · rintro ⟨trace, hreturns, -⟩
    exact hreturns.meets hlock hfault _
  · intro hok
    exact runOperationFuel_returns hlock hfault
      (Nat.lt_succ_of_le (length_le_queueWeight m.abilityOperation)) hok

/-- A drain of two: a refused start, and the terminate of an ability that is not listed. -/
theorem runOperation_drains_iff_two :
    let cfg : Config := { abilityListCapacity := 8 }
    let m : Manager :=
      { abilityList := [{ appName := cstr "a", token := 1 },
          { appName := launcherBundleName, token := launcherToken }]
        abilityOperation := [{ msgId := .startAbility, want := none, token := 0 },
          { msgId := .terminateAbility, want := none, token := 4 }] }
    ∃ trace, Drained m.abilityOperation trace
      ((operations cfg).runOperation (fun _ => Env.working) m).2 := by
  intro cfg m
  have hmeets : (operations cfg).drainMeets (fun env m o => crashes cfg env m o = false)
      (queueWeight m.abilityOperation + 1) (fun _ => Env.working) m :=
    ⟨rfl, fun _ => ⟨rfl, fun _ => trivial⟩⟩
  exact ((runOperation_drains_iff cfg (fun _ => Env.working) m rfl rfl).mpr hmeets).imp
    fun _ h => h.2

/-- The launcher is alone in the list and a `TERMINATE_APP` of it was deferred: its record is
deleted, nothing is left to launch, and `OnDestroyDone` reads the token of no record. -/
theorem runOperation_crashes :
    let cfg : Config := { abilityListCapacity := 8 }
    let m : Manager :=
      { abilityList := [{ appName := launcherBundleName, token := launcherToken }]
        abilityOperation := [{ msgId := .terminateApp, want := none, token := 0 }] }
    ¬ ∃ trace, Returns (operations cfg) (fun _ => Env.working) m trace
        ((operations cfg).runOperation (fun _ => Env.working) m) ∧
      Drained m.abilityOperation trace ((operations cfg).runOperation (fun _ => Env.working) m).2 := by
  rintro cfg m ⟨trace, hreturns, -⟩
  have hcrash := (hreturns.meets rfl rfl 1).1
  revert hcrash
  decide

end
end AbilityLite.Slite.MultiTasks
