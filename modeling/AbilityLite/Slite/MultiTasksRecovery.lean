import AbilityLite.Slite.MultiTasksThreads

/-
  What the multi-task build comes to rest in.

  Between switches the top is in front with its thread and every other ability has
  stopped (`AtRest`). No step but the last launch of a switch creates or stops an
  ability, so an operation that gives the lock back at once leaves the top where it
  was, and a switch that goes through ends with a new top in front. A launch that
  fails does not recover: what is restarted is the top, through a start that finds it
  on top and stops there.
-/

namespace AbilityLite.Slite.MultiTasks
open Manager AbilityList

/-- The top is in front with its thread, and every other ability has stopped. -/
def AtRest (l : AbilityList) : Prop :=
  (∀ top ∈ l.head?, top.state = .foreground ∧ top.abilityThread.isSome) ∧
    ∀ r ∈ l.tail, r.state = .stop ∧ r.abilityThread = none

instance (l : AbilityList) : Decidable (AtRest l) := by
  unfold AtRest
  exact instDecidableAnd

/-! ## Records and their states -/

/-- An ability without a thread has stopped. -/
def Stopped (l : AbilityList) : Prop := ∀ r ∈ l, r.abilityThread = none → r.state = .stop

/-- Every record is stopped, or runs and is in the state of one that was listed. -/
def Derives (l l' : AbilityList) : Prop :=
  ∀ r' ∈ l', r'.state = .stop ∨ ∃ r ∈ l, r.abilityThread = r'.abilityThread ∧ r.state = r'.state

theorem Stopped.derives {l l' : AbilityList} (h : Stopped l) (hd : Derives l l') : Stopped l' := by
  intro r' hr' hthread
  rcases hd r' hr' with hs | ⟨r, hr, ht, hs⟩
  · exact hs
  · exact hs.symm.trans (h r hr (ht.trans hthread))

namespace Derives

theorem refl (l : AbilityList) : Derives l l := fun r hr => .inr ⟨r, hr, rfl, rfl⟩

theorem of_subset {l l' : AbilityList} (h : ∀ r ∈ l', r ∈ l) : Derives l l' :=
  fun r hr => .inr ⟨r, h r hr, rfl, rfl⟩

theorem trans {l l' l'' : AbilityList} (h : Derives l l') (h' : Derives l' l'') : Derives l l'' := by
  intro r'' hr''
  rcases h' r'' hr'' with hs | ⟨r', hr', ht', hs'⟩
  · exact .inl hs
  · rcases h r' hr' with hs | ⟨r, hr, ht, hs⟩
    · exact .inl (hs'.symm.trans hs)
    · exact .inr ⟨r, hr, ht.trans ht', hs.trans hs'⟩

theorem modify (l : AbilityList) (token : UInt16) {f : AbilityRecord → AbilityRecord}
    (hf : ∀ r, (f r).abilityThread = r.abilityThread ∧ (f r).state = r.state) :
    Derives l (l.modify token f) := by
  intro r' hr'
  obtain ⟨r, hr, rfl⟩ := List.mem_map.mp hr'
  refine .inr ⟨r, hr, ?_⟩
  split
  · exact ⟨(hf r).1.symm, (hf r).2.symm⟩
  · exact ⟨rfl, rfl⟩

end Derives

theorem updateWant_derives (want : Want) (r : AbilityRecord) :
    (updateWant want r).abilityThread = r.abilityThread ∧ (updateWant want r).state = r.state := by
  unfold updateWant AbilityRecord.setWantData
  split <;> split <;> exact ⟨rfl, rfl⟩

theorem handWant_derives (want : Want) (r : AbilityRecord) :
    (handWant want r).abilityThread = r.abilityThread ∧ (handWant want r).state = r.state := by
  unfold handWant AbilityRecord.setWantData
  split
  · split <;> exact ⟨rfl, rfl⟩
  · exact ⟨rfl, rfl⟩

section
variable {cfg : Config} {rs : List (UInt16 × SliteAbilityState)} {m : Manager}

theorem deleteRecordInfo_subset (hd : (m.abilityList.map (·.token)).Nodup) (token : UInt16) :
    ∀ r ∈ (m.deleteRecordInfo token).abilityList, r ∈ m.abilityList := by
  intro r hr
  cases hg : m.abilityList.get token with
  | none => rwa [deleteRecordInfo_none hg] at hr
  | some x =>
    rw [deleteRecordInfo_some hd hg] at hr
    exact (erase_sublist _ _).subset hr

theorem sendMsgToAbilityThread_list (env : Env) (m : Manager) (state : SliteAbilityState)
    (r : AbilityRecord) : (m.sendMsgToAbilityThread env state r).2.abilityList = m.abilityList ∧
      (m.sendMsgToAbilityThread env state r).2.pendingToken = m.pendingToken := by
  unfold sendMsgToAbilityThread
  split
  · exact ⟨rfl, rfl⟩
  · simp only
    split <;> exact ⟨rfl, rfl⟩

/-! ## Operations -/

theorem handToNewTop_derives (m : Manager) (token : UInt16) (want : Option Want) :
    Derives m.abilityList (handToNewTop m token want).abilityList := by
  cases want with
  | none => exact Derives.refl _
  | some want => exact Derives.modify _ _ (handWant_derives want)

/-- The two records on top change places: none is listed that was not. -/
theorem swap_subset {top newTop : AbilityRecord} (htop : top ∈ m.abilityList)
    (hnew : newTop ∈ m.abilityList) :
    ∀ r ∈ ((({ m with abilityList := m.abilityList.popAbility.popAbility } : Manager).add cfg top).add
      cfg newTop).abilityList, r ∈ m.abilityList := by
  intro r hr
  rcases add_subset cfg _ newTop r hr with rfl | hr
  · exact hnew
  · rcases add_subset cfg _ top r hr with rfl | hr
    · exact htop
    · exact List.mem_of_mem_tail (List.mem_of_mem_tail hr)

/-- The top is listed again as terminated: no other record is new. -/
theorem relist_subset {top : AbilityRecord} :
    ∀ r ∈ (({ m with abilityList := m.abilityList.popAbility } : Manager).add cfg
      { top with isTerminated := true }).abilityList,
      r = { top with isTerminated := true } ∨ r ∈ m.abilityList :=
  fun r hr => (add_subset cfg _ { top with isTerminated := true } r hr).imp_right List.mem_of_mem_tail

theorem terminateAbilityWant_derives (env : Env) (hd : (m.abilityList.map (·.token)).Nodup)
    (token : UInt16) (want : Option Want) :
    Derives m.abilityList (terminateAbilityWant cfg env m token want).2.abilityList := by
  unfold terminateAbilityWant
  split
  · exact Derives.refl _
  · next top htop =>
    split
    · exact Derives.refl _
    · split
      · split
        · exact Derives.refl _
        · split
          · exact Derives.refl _
          · exact Derives.of_subset (deleteRecordInfo_subset hd token)
      · have hpop : ∀ r ∈ m.abilityList.popAbility, r ∈ m.abilityList :=
          fun r hr => List.mem_of_mem_tail hr
        simp only
        split
        · exact Derives.of_subset hpop
        · next newTop hnew =>
          have hmem : top ∈ m.abilityList := List.mem_of_head? htop
          have hnew' : newTop ∈ m.abilityList := hpop _ (List.mem_of_head? hnew)
          rw [(sendMsgToAbilityThread_list env _ _ _).1]
          have hswap : Derives m.abilityList (if isPermanentAbility top then
              (({ m with abilityList := m.abilityList.popAbility.popAbility } : Manager).add cfg top).add
                cfg newTop
              else ({ m with abilityList := m.abilityList.popAbility } : Manager).add cfg
                { top with isTerminated := true }).abilityList := by
            split
            · exact Derives.of_subset (swap_subset hmem hnew')
            · intro r hr
              rcases relist_subset r hr with rfl | hr
              · exact .inr ⟨top, hmem, rfl, rfl⟩
              · exact .inr ⟨r, hr, rfl, rfl⟩
          exact hswap.trans (handToNewTop_derives _ newTop.token want)

/-- The top is where it was, or nothing is listed any more, and the pending token is the same. -/
def Stays (m m' : Manager) : Prop :=
  m'.pendingToken = m.pendingToken ∧
    (m'.abilityList = [] ∨ m'.abilityList.head? = m.abilityList.head?)

theorem Stays.of_eq {m' : Manager} (hp : m'.pendingToken = m.pendingToken)
    (hl : m'.abilityList = m.abilityList) : Stays m m' := ⟨hp, .inr (congrArg _ hl)⟩

theorem head?_eq {top : AbilityRecord} {rest rest' l l' : AbilityList} (hl : l = top :: rest)
    (hl' : l' = top :: rest') : l'.head? = l.head? := by
  subst hl hl'
  rfl

/-- What an operation leaves of a list at rest: no record in another state, and the same top
when the lock is given back at once. -/
def Rests (m : Manager) (x : ErrCode × Manager) : Prop :=
  Derives m.abilityList x.2.abilityList ∧ (goesOn x → Stays m x.2)

/-- The top has a thread. -/
def TopRuns (m : Manager) : Prop := ∀ top ∈ m.getTopAbility, top.abilityThread.isSome

/-- An operation that has sent its message does not give the lock back. -/
theorem not_goesOn {m' : Manager} (hlock : m'.isAppScheduling = true) : ¬ goesOn (errOk, m') := by
  rintro (hx | hx)
  · exact absurd rfl hx
  · rw [hlock] at hx
    cases hx

theorem handToNewTop_lock (m : Manager) (token : UInt16) (want : Option Want) :
    (handToNewTop m token want).isAppScheduling = m.isAppScheduling := by
  cases want <;> rfl

theorem terminateAbilityWant_stays {env : Env} (hacc : env.Accepts) (h : Idle cfg rs m)
    (hlock : m.isAppScheduling = true) (hrun : TopRuns m) (token : UInt16) (want : Option Want)
    (hx : goesOn (terminateAbilityWant cfg env m token want)) :
    Stays m (terminateAbilityWant cfg env m token want).2 := by
  revert hx
  unfold terminateAbilityWant
  by_cases hnil : m.abilityList = []
  · simp only [getTopAbility_nil hnil]
    exact fun _ => Stays.of_eq rfl rfl
  · obtain ⟨top, below, hl⟩ := List.exists_cons_of_ne_nil hnil
    simp only [getTopAbility_cons hl]
    split
    · exact fun _ => Stays.of_eq rfl rfl
    · split
      · next htoken =>
        split
        · exact fun _ => Stays.of_eq rfl rfl
        · split
          · exact fun _ => Stays.of_eq rfl rfl
          · obtain ⟨-, -, hp, rest', hl', -⟩ := terminateAbility_below_top h hl htoken
            exact fun _ => ⟨hp, .inr (head?_eq hl hl')⟩
      · have hpop : m.abilityList.popAbility = below := by rw [hl]; rfl
        rw [hpop]
        cases below with
        | nil => exact fun _ => ⟨rfl, .inl rfl⟩
        | cons next rest =>
          have htop : Manager.getTopAbility { m with abilityList := next :: rest } = some next := rfl
          have hpop' : AbilityList.popAbility (next :: rest) = rest := rfl
          have hthread := hrun top (getTopAbility_cons hl)
          simp only [htop, hpop', terminateTop_swap h.shape.nodup h.shape.bounded hl]
          rw [sendMsgToAbilityThread_thread hacc _ hthread]
          refine fun hx => absurd hx (not_goesOn ?_)
          exact (handToNewTop_lock _ _ _).trans hlock

/-- What is below the top of a list at rest may go. -/
theorem derives_shrink {top : AbilityRecord} {rest rest' l l' : AbilityList} (hl : l = top :: rest)
    (hl' : l' = top :: rest') (hsub : rest'.Sublist rest) : Derives l l' := by
  subst hl hl'
  exact Derives.of_subset fun r hr => (hsub.cons_cons top).subset hr

theorem terminateAbilityWant_rests {env : Env} (hacc : env.Accepts) (h : Idle cfg rs m)
    (hlock : m.isAppScheduling = true) (hrun : TopRuns m) (token : UInt16) (want : Option Want) :
    Rests m (terminateAbilityWant cfg env m token want) :=
  ⟨terminateAbilityWant_derives env h.shape.nodup token want,
    terminateAbilityWant_stays hacc h hlock hrun token want⟩

theorem terminateMission_rests (env : Env) (h : Idle cfg rs m) (hlock : m.isAppScheduling = false)
    (mission : UInt32) : Rests m (terminateMission cfg env m mission) := by
  simp only [terminateMission, hlock, Bool.false_eq_true, if_false]
  by_cases hnil : m.abilityList = []
  · simp only [getTopAbility_nil hnil]
    exact ⟨Derives.refl _, fun _ => Stays.of_eq rfl rfl⟩
  · obtain ⟨top, rest, hl⟩ := List.exists_cons_of_ne_nil hnil
    simp only [getTopAbility_cons hl]
    obtain ⟨-, -, -, hp, rest', hl', hsub⟩ := terminateEach_below env
      (m.abilityList.getAbilityList mission) h hlock hl
    exact ⟨derives_shrink hl hl' hsub, fun _ => ⟨hp, .inr (head?_eq hl hl')⟩⟩

theorem terminateAll_rests (env : Env) (hlock : m.isAppScheduling = false)
    (excludedBundleName : Option CString) : Rests m (terminateAll env m excludedBundleName) := by
  simp only [terminateAll, hlock, Bool.false_eq_true, if_false]
  by_cases hnil : m.abilityList = []
  · rw [hnil, popAllAbility_nil]
    exact ⟨fun r hr => absurd hr List.not_mem_nil, fun _ => ⟨rfl, .inl rfl⟩⟩
  · obtain ⟨top, rest, hl⟩ := List.exists_cons_of_ne_nil hnil
    rw [hl, popAllAbility_cons]
    simp only
    rw [releaseAll_eq]
    obtain ⟨n, hn⟩ := foldl_notify_eq _ (rest.filter fun r => !reserved excludedBundleName r)
    rw [hn]
    exact ⟨derives_shrink hl rfl List.filter_sublist, fun _ => ⟨rfl, .inr (head?_eq hl rfl)⟩⟩

/-! ## Starts -/

theorem markTop_derives (env : Env) (m : Manager) (top : AbilityRecord) :
    Derives m.abilityList (markTop env m top).abilityList := by
  unfold markTop
  split
  · exact Derives.modify _ _ fun _ => ⟨rfl, rfl⟩
  · exact Derives.refl _

theorem moveToTop_derives (cfg : Config) (m : Manager) (token : UInt16) :
    Derives m.abilityList (m.moveToTop cfg token).abilityList :=
  Derives.of_subset fun r hr => moveToTop_subset cfg m token r hr

theorem marked_state (env : Env) (top : AbilityRecord) : (marked env top).state = top.state := by
  unfold marked
  split <;> rfl

/-- Nothing that is listed changes. -/
theorem rests_same {x : ErrCode × Manager} (hp : x.2.pendingToken = m.pendingToken)
    (hl : x.2.abilityList = m.abilityList) : Rests m x :=
  ⟨hl ▸ Derives.refl _, fun _ => Stays.of_eq hp hl⟩

theorem startAbilityInfo_rests {env : Env} (hcap : 3 ≤ cfg.abilityListCapacity) (hacc : env.Accepts)
    (h : Idle cfg rs m) (hlock : m.isAppScheduling = true) (hrun : TopRuns m)
    (hp : m.pendingToken = 0) {bundleName : CString} {info : AbilitySvcInfo}
    (hbundle : info.bundleName = some bundleName) (hname : m.abilityList.getByName bundleName = none)
    (hok : ∀ top, m.getTopAbility = some top → bundleName.bytes.length ≠ 0 →
      (info.isNativeApp || checkResponse env bundleName) = true → cannotTakeOver m top info = false) :
    Rests m (startAbilityInfo cfg env m info) := by
  by_cases hempty : bundleName.bytes.length = 0
  · simp only [startAbilityInfo, hbundle, if_pos hempty]
    exact rests_same rfl rfl
  · by_cases hnil : m.abilityList = []
    · simp only [startAbilityInfo, hbundle, if_neg hempty, getTopAbility_nil hnil]
      split
      · exact rests_same rfl rfl
      · rcases preCheckStartAbility_first_eq hcap hacc hnil hp info bundleName with
          heq | ⟨record, counter, k, -, -, -, heq | heq⟩
        · rw [heq]
          exact rests_same rfl rfl
        · rw [heq]
          refine ⟨fun r hr => ?_, fun hx => absurd hx (not_goesOn hlock)⟩
          rw [List.mem_singleton.mp hr]
          exact .inl rfl
        · rw [heq]
          exact ⟨fun r hr => absurd hr List.not_mem_nil, fun _ => ⟨rfl, .inl rfl⟩⟩
    · obtain ⟨top, rest, hl⟩ := List.exists_cons_of_ne_nil hnil
      by_cases hresponse : (!info.isNativeApp && !checkResponse env bundleName) = true
      · simp only [startAbilityInfo, hbundle, if_neg hempty, getTopAbility_cons hl, if_pos hresponse]
        exact rests_same rfl rfl
      · have hresponse' : (info.isNativeApp || checkResponse env bundleName) = true := by
          cases hn : info.isNativeApp <;> cases hc : checkResponse env bundleName <;>
            simp_all
        have htake := hok top (getTopAbility_cons hl) hempty hresponse'
        simp only [cannotTakeOver, Bool.or_eq_false_iff, decide_eq_false_iff_not] at htake
        obtain ⟨⟨⟨-, hpath⟩, hzero⟩, hfresh⟩ := htake
        have hfresh' : m.abilityList.get (generateToken m).1 = none := by
          simpa [Option.isSome_iff_ne_none] using hfresh
        obtain ⟨m₁, heq, hs, hl', hsent, hp', hnew, hname', hlock', -⟩ :=
          startAbilityInfo_over_eq hacc h hl hbundle hempty hresponse hname
            (hrun top (getTopAbility_cons hl)) hfresh'
        obtain ⟨ht, -, hth, -⟩ := marked_keeps env top
        obtain ⟨record, k, rest', -, -, -, hstop, hsub, -, heq'⟩ :=
          preCheckStartAbility_over_eq env hcap hs hl' ht.symm hsent (by rw [hp']; exact hzero) hnew
            hname' (by rw [hpath]; exact Bool.false_ne_true)
        rw [heq, heq']
        refine ⟨fun r hr => ?_, fun hx => absurd hx (not_goesOn (hlock'.trans hlock))⟩
        rcases List.mem_cons.mp hr with rfl | hr
        · exact .inl hstop
        · refine .inr ?_
          rw [hl]
          rcases List.mem_cons.mp hr with rfl | hr
          · exact ⟨top, List.mem_cons_self, hth.symm, (marked_state env top).symm⟩
          · exact ⟨r, List.mem_cons_of_mem _ (hsub.subset hr), rfl, rfl⟩

theorem startAbility_rests {env : Env} (hcap : 3 ≤ cfg.abilityListCapacity) (hacc : env.Accepts)
    (hasked : env.AnswersAsked) (h : Idle cfg rs m) (hlock : m.isAppScheduling = false)
    (hrun : TopRuns m) (hp : m.pendingToken = 0) {want : Option Want}
    (hok : startStrands cfg env m want = false) :
    Rests m (startAbility cfg env m want) := by
  have hcases := startAbility_cases cfg env hlock want
  generalize startAbility cfg env m want = x at hcases ⊢
  cases hcases with
  | ends ret remote hnone => exact rests_same rfl rfl
  | bringsUp w r top hmem htop hne hup =>
    obtain ⟨rest, hl⟩ := List.head?_eq_some_iff.mp htop
    refine ⟨?_, fun hx => ?_⟩
    · rw [(sendMsgToAbilityThread_list env _ _ _).1]
      refine ((Derives.modify _ r.token (updateWant_derives w)).trans ?_).trans (markTop_derives env _ top)
      exact moveToTop_derives cfg _ r.token
    · rw [broughtUp_eq (h.locked true) hl (get_of_mem h.shape.nodup hmem) hne w,
        sendMsgToAbilityThread_thread hacc _ (hrun top htop)] at hx
      exact absurd hx (not_goesOn rfl)
  | startsNew w bundleName info happ hbundle hname hquery =>
    have hanswer := queryAbilitySvcInfo_bundleName hasked hbundle hquery
    refine startAbilityInfo_rests (m := { m with isAppScheduling := true }) hcap hacc (h.locked true)
      rfl hrun hp hanswer hname fun top htop hempty hresponse => ?_
    rw [startStrands, happ, Option.any_some] at hok
    have htop' : m.getTopAbility = some top := htop
    simp only [ne_eq, hempty, not_false_eq_true, decide_true, Bool.true_and, htop', hresponse] at hok
    exact hok

theorem forceStop_rests {env : Env} (hacc : env.Accepts) (h : Idle cfg rs m)
    (hlock : m.isAppScheduling = false) (hrun : TopRuns m) (want : Option Want) :
    Rests m (forceStop cfg env m want) := by
  simp only [forceStop, hlock, Bool.false_eq_true, if_false]
  split
  · exact rests_same rfl rfl
  · split
    · exact rests_same rfl rfl
    · exact terminateAbilityWant_rests (m := { m with isAppScheduling := true }) hacc (h.locked true)
        rfl hrun _ want

/-! ## The invariant -/

/-- The top is in front. -/
def InFront (m : Manager) : Prop :=
  ∀ top ∈ m.getTopAbility, top.state = .foreground ∧ top.abilityThread.isSome

/-- Free with the list at rest, in a switch, or locked for ever. -/
inductive Recovers (cfg : Config) (rs : List (UInt16 × SliteAbilityState)) (m : Manager) : Prop
  | free (hlock : m.isAppScheduling = false) (h : Idle cfg rs m) (hpending : m.pendingToken = 0)
    (hstopped : Stopped m.abilityList) (hfront : InFront m)
  | switching (hlock : m.isAppScheduling = true) (h : Busy cfg rs m)
    (hstopped : Stopped m.abilityList)
  | halted (hlock : m.isAppScheduling = true) (hrs : rs = []) (hsent : m.sent = [])

theorem InFront.runs (h : InFront m) : TopRuns m := fun top htop => (h top htop).2

theorem Idle.atRest (h : Idle cfg rs m) (hstopped : Stopped m.abilityList) (hfront : InFront m) :
    AtRest m.abilityList := by
  refine ⟨hfront, fun r hr => ?_⟩
  have hthread := h.below r hr
  exact ⟨hstopped r (List.mem_of_mem_tail hr) hthread, hthread⟩

/-- An operation that settles leaves the list at rest when the lock is free. -/
theorem recovers_of_settles {x : ErrCode × Manager} (h : Settles (Idle cfg rs) (Busy cfg rs) m x)
    (hrests : Rests m x) (hwf : m.QueueWellFormed) (hpending : m.pendingToken = 0)
    (hstopped : Stopped m.abilityList) (hfront : InFront m) : Leaves (Recovers cfg rs) x := by
  obtain ⟨hqueue, hgoes, hstops⟩ := h
  obtain ⟨hderives, hstays⟩ := hrests
  have hstopped' := hstopped.derives hderives
  refine ⟨?_, fun hx => ?_, fun hx => ?_⟩
  · exact wellFormed_of_queue hwf hqueue
  · obtain ⟨hp, hl⟩ := hstays hx
    refine .free rfl (hgoes hx) (hp.trans hpending) hstopped' fun top htop => ?_
    have htop' : x.2.abilityList.head? = some top := htop
    rcases hl with hl | hl
    · rw [hl] at htop'
      cases htop'
    · exact hfront top (hl.symm.trans htop')
  · have hlock : x.2.isAppScheduling = true := by
      simp only [goesOn, not_or, Bool.not_eq_false] at hx
      exact hx.2
    exact .switching hlock (hstops hx) hstopped'

theorem Recovers.leaves {m' : Manager} (h : Recovers cfg rs m') (hqueue : m'.QueueWellFormed) :
    Leaves (Recovers cfg rs) (errOk, m') := by
  refine ⟨hqueue, fun hx => ?_, fun _ => h⟩
  have hlock : m'.isAppScheduling = false := hx.resolve_left fun hne => hne rfl
  rw [show (errOk, m').2.unlock = m' from Manager.unlock_eq hlock]
  exact h

/-! ## Launches -/

/-- The first of the tokens cannot be launched, and others are left. -/
def launchFails (env : Env) : List UInt16 → Bool
  | next :: _ :: _ => env.initAbilityThread next ≠ errOk
  | _ => false

/-- The launch at the end of a destroy, with every ability stopped. -/
theorem launchNext_recovers {env : Env} (hacc : env.Accepts) (hs : Shape cfg m) (hsent : m.sent = [])
    (hnone : ∀ r ∈ m.abilityList, r.abilityThread = none)
    (hstop : ∀ r ∈ m.abilityList, r.state = .stop) (hlock : m.isAppScheduling = true)
    (hpending : m.pendingToken = 0 ∨ ∀ next ∈ m.abilityList.head?, m.pendingToken = next.token)
    (hok : launchFails env (m.abilityList.map (·.token)) = false) :
    Recovers cfg [] (launchNext cfg env m) ∧
      (launchNext cfg env m).abilityOperation = m.abilityOperation := by
  cases hl : m.abilityList with
  | nil =>
    rcases launchNext_nil cfg env hl with heq | heq
    · rw [heq]
      exact ⟨.halted hlock rfl hsent, rfl⟩
    · rw [heq]
      exact ⟨.halted hlock rfl hsent, rfl⟩
  | cons next rest =>
    have hland : Landed cfg m next rest :=
      ⟨hs, hl, hl ▸ hnone, hsent, hpending.imp_right fun h => h next (by rw [hl]; rfl)⟩
    by_cases hinit : env.initAbilityThread next.token = errOk
    · obtain ⟨hb, hlock', hq⟩ := launchNext_created hacc hland hinit
      refine ⟨.switching (hlock'.trans hlock) hb ?_, hq⟩
      rw [launchNext_created_eq hacc hland hinit]
      intro r hr _
      rcases List.mem_cons.mp hr with rfl | hr
      · rfl
      · exact hstop r (by rw [hl]; exact List.mem_cons_of_mem _ hr)
    · -- a failed launch leaves nothing listed
      have hrest : rest = [] := by
        cases rest with
        | nil => rfl
        | cons x rest => simp [launchFails, hl, hinit] at hok
      subst hrest
      by_cases hp : m.pendingToken = 0
      · obtain ⟨hi, hlock', hq⟩ := launchNext_failed hacc hland hinit (.inl hp)
        refine ⟨.free hlock' hi ?_ ?_ ?_, hq⟩
        all_goals rw [launchNext_failed_eq hacc hland hinit (.inl hp)]
        · exact fun r hr => absurd hr List.not_mem_nil
        · exact fun top htop => absurd htop (Option.not_mem_none top)
      · rw [launchNext_lastFailed_eq hacc hland hinit hp]
        exact ⟨.halted hlock rfl hsent, rfl⟩

/-- A forced stop of the top whose place cannot be taken by the ability below. -/
def forceStopFails (env : Env) (m : Manager) (token : UInt16) : Bool :=
  m.getTopAbility.any (·.token = token) && launchFails env (m.abilityList.tail.map (·.token))

theorem forceStopBundle_recovers {env : Env} (hacc : env.Accepts) (h : Idle cfg rs m)
    (hlock : m.isAppScheduling = false) (hwf : m.QueueWellFormed) (hpending : m.pendingToken = 0)
    (hstopped : Stopped m.abilityList) (hfront : InFront m) {token : UInt16}
    (hok : forceStopFails env m token = false) :
    Leaves (Recovers cfg rs) (forceStopBundle cfg env m token) := by
  by_cases hnil : m.abilityList = []
  · have htop : getTopAbility { m with isAppScheduling := true } = none := getTopAbility_nil hnil
    have hhalted : Recovers cfg rs ({ m with isAppScheduling := true } : Manager).crash :=
      .halted rfl h.noReplies h.noSent
    simp only [forceStopBundle, hlock, Bool.false_eq_true, if_false, htop]
    exact hhalted.leaves hwf
  · obtain ⟨top, rest, hl⟩ := List.exists_cons_of_ne_nil hnil
    by_cases htoken : top.token = token
    · subst htoken
      obtain ⟨m', heq, hs', hsent', htokens, hnone, hstates, hp', hlock', hq'⟩ :=
        forceStopBundle_top_eq env h hlock hl
      have hstop : ∀ r ∈ m'.abilityList, r.state = .stop := by
        intro r hr
        rcases hstates r hr with hs | ⟨y, hy, -, hs⟩
        · exact hs
        · exact hs.symm.trans (hstopped y (by rw [hl]; exact List.mem_cons_of_mem _ hy)
            (h.thread_below hl y hy))
      have hok' : launchFails env (m'.abilityList.map (·.token)) = false := by
        rw [htokens]
        simpa [forceStopFails, getTopAbility_cons hl, hl] using hok
      obtain ⟨hrecovers, hq⟩ :=
        launchNext_recovers hacc hs' hsent' hnone hstop hlock' (.inl (hp'.trans hpending)) hok'
      have hrs := h.noReplies
      subst hrs
      rw [heq]
      refine hrecovers.leaves ?_
      exact wellFormed_of_queue hwf (hq.trans hq')
    · rw [forceStopBundle_below hlock hl htoken]
      exact recovers_of_settles (m := m) (terminateAbilityWant_settles hacc (h.locked true) rfl token none)
        (terminateAbilityWant_rests (m := { m with isAppScheduling := true }) hacc (h.locked true) rfl
          hfront.runs token none) hwf hpending hstopped hfront

/-! ## Replies -/

/-- The ability that the message or reply in flight is about has a thread. -/
theorem Phase.runs {x : UInt16 × SliteAbilityState} (h : Phase m x)
    (hd : (m.abilityList.map (·.token)).Nodup) :
    ∀ r ∈ m.abilityList, r.token = x.1 → r.abilityThread.isSome := by
  intro r hr hrt
  have hget := get_of_mem hd hr
  rw [hrt] at hget
  rcases h with ⟨-, hl⟩ | ⟨-, he⟩
  · obtain ⟨r', hr', hthread, -⟩ := hl.listed
    rw [hget, Option.some.injEq] at hr'
    exact hr' ▸ hthread
  · obtain ⟨r', hr', ht, hthread⟩ := he.top
    have hget' := get_of_mem hd (List.mem_of_head? hr')
    rw [ht, hget, Option.some.injEq] at hget'
    exact hget' ▸ hthread

/-- Running abilities alone change their state. -/
theorem Stopped.setState {l : AbilityList} {token : UInt16} (h : Stopped l)
    (hrun : ∀ r ∈ l, r.token = token → r.abilityThread.isSome) (state : AbilityRecordState) :
    Stopped (l.modify token fun r => { r with state := state }) := by
  intro r' hr'
  obtain ⟨r, hr, rfl⟩ := List.mem_map.mp hr'
  split
  · next ht =>
    intro hthread
    have hsome := hrun r hr (by simpa using ht)
    have hnone : r.abilityThread = none := hthread
    rw [hnone] at hsome
    cases hsome
  · exact h r hr

theorem setAbilityStateAndNotify_stopped {token : UInt16} (h : Stopped m.abilityList)
    (hrun : ∀ r ∈ m.abilityList, r.token = token → r.abilityThread.isSome)
    (state : AbilityRecordState) : Stopped (m.setAbilityStateAndNotify token state).abilityList := by
  obtain ⟨n, hn⟩ := setAbilityStateAndNotify_eq m token state
  rw [hn]
  exact h.setState hrun state

theorem onCreateDone_derives (env : Env) (m : Manager) (token : UInt16) :
    Derives (m.setAbilityStateAndNotify token .inited).abilityList
      (onCreateDone env m token).abilityList := by
  unfold onCreateDone schedulerLifecycle
  split
  · exact Derives.refl _
  · rw [(sendMsgToAbilityThread_list env _ _ _).1]
    exact Derives.refl _

theorem onBackgroundDone_derives (env : Env) (m : Manager) (token : UInt16) :
    Derives (m.setAbilityStateAndNotify token .background).abilityList
      (onBackgroundDone env m token).abilityList := by
  unfold onBackgroundDone
  simp only
  split
  · exact Derives.refl _
  · rw [(sendMsgToAbilityThread_list env _ _ _).1]
    exact Derives.modify _ _ fun _ => ⟨rfl, rfl⟩

/-- The reply to a destroy finds that the next ability cannot be launched. -/
def replyFails (env : Env) (m : Manager) (token : UInt16) (state : SliteAbilityState) : Bool :=
  state = .uninitialized && (m.abilityList.get token).any fun r =>
    launchFails env ((withoutDestroyed m.abilityList r).map (·.token))

theorem onDestroyDone_recovers {env : Env} (hacc : env.Accepts) (hs : Shape cfg m)
    (hsent : m.sent = []) (hlock : m.isAppScheduling = true) (hstopped : Stopped m.abilityList)
    {token : UInt16} (h : Leaving m token) (hok : replyFails env m token .uninitialized = false) :
    Recovers cfg [] (onDestroyDone cfg env m token) ∧
      (onDestroyDone cfg env m token).abilityOperation = m.abilityOperation := by
  obtain ⟨r, hr, -, next, rest, hnext, hpending⟩ := h.listed
  obtain ⟨m', hm', -, hs', hsent', htokens, hnone, hstates, hp', hlock', hq'⟩ :=
    onDestroyDone_released env hs hsent hr h.onlyThread
  have hstop : ∀ x ∈ m'.abilityList, x.state = .stop := by
    intro x hx
    rcases hstates x hx with hst | ⟨y, hy, hyt, -, hst⟩
    · exact hst
    · exact hst.symm.trans (hstopped y hy (h.onlyThread y hy hyt))
  have hhead : m'.pendingToken = 0 ∨ ∀ x ∈ m'.abilityList.head?, m'.pendingToken = x.token := by
    rw [hp']
    refine hpending.imp_right fun hp x hx => ?_
    obtain ⟨l, hl⟩ := List.head?_eq_some_iff.mp hx
    rw [hnext, hl, List.map_cons, List.map_cons, List.cons.injEq] at htokens
    exact hp.trans htokens.1.symm
  have hok' : launchFails env (m'.abilityList.map (·.token)) = false := by
    rw [htokens]
    simpa [replyFails, hr] using hok
  obtain ⟨hrecovers, hq⟩ :=
    launchNext_recovers hacc hs' hsent' hnone hstop (hlock'.trans hlock) hhead hok'
  rw [hm']
  exact ⟨hrecovers, hq.trans hq'⟩

/-- The last reply of a switch puts its ability in front. -/
theorem onForegroundDone_recovers {token : UInt16} (hb : Busy cfg ((token, .foreground) :: rs) m)
    (hstopped : Stopped m.abilityList) : Recovers cfg rs (onForegroundDone m token).unlock := by
  obtain ⟨hidle, -, r, hr, ht, hthread⟩ := hb.foreground
  obtain ⟨-, -, hphase⟩ := hb.reply
  have hrun := hphase.runs hb.shape.nodup
  obtain ⟨rest, hl⟩ := List.head?_eq_some_iff.mp hr
  refine .free rfl (hidle.locked false) (hidle.pending_top hl hthread)
    (setAbilityStateAndNotify_stopped hstopped hrun .foreground) fun top htop => ?_
  have htop' : (onForegroundDone m token).getTopAbility = some top := htop
  rw [hr, Option.some.injEq] at htop'
  subst htop'
  refine ⟨?_, hthread⟩
  have hmem := List.mem_of_head? hr
  obtain ⟨n, hn⟩ := setAbilityStateAndNotify_eq m token .foreground
  rw [onForegroundDone, hn] at hmem
  obtain ⟨x, hx, rfl⟩ := List.mem_map.mp hmem
  by_cases hxt : x.token = token
  · simp [hxt]
  · simp [hxt] at ht

end

/-! ## Runs -/

/-- The steps of a run leave the list at rest when every queue takes its messages, the bundle
manager answers for the bundle it is asked for, a new ability can take over from the top, and
no launch at the end of a destroy fails with others left. -/
def recoveryCondition (cfg : Config) : Condition where
  operation env m o := env.Accepts ∧ env.AnswersAsked ∧
    (o.msgId = .startAbility → startStrands cfg env m o.want = false) ∧
    (o.msgId = .terminateApp → forceStopFails env m o.token.toUInt16 = false)
  reply env m token state := env.Accepts ∧ replyFails env m token state = false

theorem dispatch_recovers {cfg : Config} {rs : List (UInt16 × SliteAbilityState)}
    (hcap : 3 ≤ cfg.abilityListCapacity) {env : Env} {m : Manager} (h : Idle cfg rs m)
    (hlock : m.isAppScheduling = false) (hwf : m.QueueWellFormed) (hpending : m.pendingToken = 0)
    (hstopped : Stopped m.abilityList) (hfront : InFront m) {o : AbilityOperation} (ho : o.WellFormed)
    (hok : (recoveryCondition cfg).operation env m o) :
    Leaves (Recovers cfg rs) ((operations cfg).dispatch env m o) := by
  obtain ⟨hacc, hasked, hstart, hstop⟩ := hok
  have key {x : ErrCode × Manager} (hset : Settles (Idle cfg rs) (Busy cfg rs) m x)
      (hrests : Rests m x) : Leaves (Recovers cfg rs) x :=
    recovers_of_settles hset hrests hwf hpending hstopped hfront
  unfold Operations.dispatch
  cases hid : o.msgId with
  | startAbility =>
    exact key (startAbility_settles hcap hacc hasked h hlock (hstart hid))
      (startAbility_rests hcap hacc hasked h hlock hfront.runs hpending (hstart hid))
  | terminateAbility =>
    refine key (terminateAbility_settles hacc h hlock _) ?_
    simp only [operations, terminateAbility, hlock, Bool.false_eq_true, if_false]
    exact terminateAbilityWant_rests (m := { m with isAppScheduling := true }) hacc (h.locked true) rfl
      hfront.runs _ none
  | terminateApp => exact forceStopBundle_recovers hacc h hlock hwf hpending hstopped hfront (hstop hid)
  | terminateMission => exact key (terminateMission_settles h hlock _) (terminateMission_rests env h hlock _)
  | terminateAppByBundleName =>
    exact key (forceStop_settles hacc h hlock _) (forceStop_rests hacc h hlock hfront.runs _)
  | terminateAll =>
    obtain ⟨want, hwant⟩ := Option.isSome_iff_exists.mp (ho hid)
    simp only [hwant]
    exact key (terminateAll_settles h hlock _) (terminateAll_rests env hlock _)
  | other _ => exact key (settles_idle rfl (.inr hlock) h) (rests_same rfl rfl)

theorem Recovers.congr {cfg : Config} {rs : List (UInt16 × SliteAbilityState)} {m m' : Manager}
    (h : Recovers cfg rs m) (hlock : m'.isAppScheduling = m.isAppScheduling)
    (hl : m'.abilityList = m.abilityList) (hp : m'.pendingToken = m.pendingToken)
    (hs : m'.sent = m.sent) (hf : m'.fault = m.fault) : Recovers cfg rs m' := by
  cases h with
  | free hl' h hpending hstopped hfront =>
    refine .free (hlock.trans hl') (h.congr hl hp hs hf) (hp.trans hpending) (hl ▸ hstopped) ?_
    intro top htop
    exact hfront top (by rw [Manager.getTopAbility, hl] at htop; exact htop)
  | switching hl' h hstopped =>
    exact .switching (hlock.trans hl') (h.congr hl hp hs hf) (hl ▸ hstopped)
  | halted hl' hrs hsent => exact .halted (hlock.trans hl') hrs (hs.trans hsent)

/-- The invariant over whole runs. -/
theorem recovers_keeps {cfg : Config} (hcap : 3 ≤ cfg.abilityListCapacity) :
    Keeps (multiTasks cfg) (recoveryCondition cfg) (Recovers cfg) where
  queue _ h := h.congr rfl rfl rfl rfl rfl
  enter r h := by
    unfold Request.enter
    split <;> exact h.congr rfl rfl rfl rfl rfl
  flag _ h := h.congr rfl rfl rfl rfl rfl
  defers := operations_defers cfg
  operation env m o h hlock hwf ho hok := by
    cases h with
    | free _ h hpending hstopped hfront =>
      exact dispatch_recovers hcap h hlock hwf hpending hstopped hfront ho hok
    | switching hlock' _ _ => simp [hlock'] at hlock
    | halted hlock' _ _ => simp [hlock'] at hlock
  answer := by
    intro rs m i msg left hmsg _ h
    cases h with
    | free _ h _ _ _ =>
      rw [h.noSent] at hmsg
      cases hmsg
    | switching hlock h hstopped =>
      refine .switching ((leaveSavedData_lock _ _ _).1.trans hlock) (h.answered left hmsg) ?_
      rcases leaveSavedData_eq m msg left with heq | heq
      · rw [heq]
        exact hstopped
      · rw [heq]
        exact hstopped.derives (Derives.modify _ _ fun _ => ⟨rfl, rfl⟩)
    | halted _ _ hsent =>
      rw [hsent] at hmsg
      cases hmsg
  foreground env m token h hwf _ := by
    cases h with
    | free _ h _ _ _ => exact absurd h.noReplies (List.cons_ne_nil _ _)
    | halted _ hrs _ => exact absurd hrs (List.cons_ne_nil _ _)
    | switching _ h hstopped =>
      refine ⟨onForegroundDone_recovers h hstopped, ?_⟩
      exact wellFormed_of_queue hwf h.foreground.2.1
  reply envs m token state hstate h hwf hok := by
    cases h with
    | free _ h _ _ _ => exact absurd h.noReplies (List.cons_ne_nil _ _)
    | halted _ hrs _ => exact absurd hrs (List.cons_ne_nil _ _)
    | switching hlock hb hstopped =>
      obtain ⟨hacc, hok⟩ := hok
      obtain ⟨hsent, rfl, hphase⟩ := hb.reply
      have hrun := hphase.runs hb.shape.nodup
      cases state with
      | foreground => exact absurd rfl hstate
      | initial =>
        obtain ⟨hb', hl, hq⟩ := onCreateDone_spec hacc hb.shape hsent (hphase.entering (.inl rfl))
        exact ⟨.switching (hl.trans hlock) hb'
          ((setAbilityStateAndNotify_stopped hstopped hrun .inited).derives (onCreateDone_derives _ m token)), wellFormed_of_queue hwf hq⟩
      | background =>
        obtain ⟨hb', hl, hq⟩ := onBackgroundDone_spec hacc hb.shape hsent (hphase.leaving (.inl rfl))
        exact ⟨.switching (hl.trans hlock) hb' ((setAbilityStateAndNotify_stopped hstopped hrun
          .background).derives (onBackgroundDone_derives _ m token)), wellFormed_of_queue hwf hq⟩
      | uninitialized =>
        obtain ⟨hr, hq⟩ :=
          onDestroyDone_recovers hacc hb.shape hsent hlock hstopped (hphase.leaving (.inr rfl)) hok
        exact ⟨hr, wellFormed_of_queue hwf hq⟩
      | unknown => rcases hphase with ⟨h | h, -⟩ | ⟨h | h, -⟩ <;> cases h

theorem Booted.recovers {cfg : Config} (hcap : 3 ≤ cfg.abilityListCapacity) {s : System}
    (h : Booted cfg s) : Recovers cfg s.replies s.manager ∧ s.manager.QueueWellFormed := by
  refine ⟨?_, (h.settled hcap).wellFormed⟩
  obtain ⟨hrs, env, hacc, hasked, hret, hm⟩ := h
  have hok := startStrands_empty cfg env (some (launcherWant env))
  have hrests : Rests {} (startAbility cfg env {} (some (launcherWant env))) :=
    startAbility_rests hcap hacc hasked (Idle.empty cfg) rfl
      (fun top htop => absurd htop (Option.not_mem_none top)) rfl hok
  obtain ⟨-, hgoes, hstops⟩ := recovers_of_settles
    (startAbility_settles hcap hacc hasked (Idle.empty cfg) rfl hok) hrests
    (fun o ho => absurd ho List.not_mem_nil) rfl (fun r hr => absurd hr List.not_mem_nil)
    (fun top htop => absurd htop (Option.not_mem_none top))
  have hm' : s.manager = (startAbility cfg env {} (some (launcherWant env))).2 := hm
  rw [hrs, hm']
  by_cases hx : goesOn (startAbility cfg env {} (some (launcherWant env)))
  · have hlock := hx.resolve_left fun e => e hret
    exact Manager.unlock_eq hlock ▸ hgoes hx
  · exact hstops hx

/-- With nothing in flight and the lock free, the list is at rest. -/
def Recovered (s : System) : Prop :=
  s.manager.isAppScheduling = false → s.quiet → s.manager.abilityList ≠ [] →
    AtRest s.manager.abilityList

/-- The list is at rest after every switch of a run of the multi-task build with the bundle
manager whose steps meet `recoveryCondition`. -/
theorem multiTasks_recovers {cfg : Config} (hcap : 3 ≤ cfg.abilityListCapacity) {s : System}
    (h : Reached (System.next (multiTasks cfg))
      (fun s e => s.meets (multiTasks cfg) (recoveryCondition cfg) e) (Booted cfg) s) :
    Recovered s := by
  obtain ⟨hr, -⟩ := (recovers_keeps hcap).reached (fun _ h => h.recovers hcap) h
  intro hlock _ _
  cases hr with
  | free _ h _ hstopped hfront => exact h.atRest hstopped hfront
  | switching hlock' _ _ => simp [hlock'] at hlock
  | halted hlock' _ _ => simp [hlock'] at hlock

/-- `recoveryCondition`, evaluated. -/
def recoveryCheck (cfg : Config) : Check where
  operation m o := decide
    ((o.msgId = .startAbility → startStrands cfg .working m o.want = false) ∧
      (o.msgId = .terminateApp → forceStopFails .working m o.token.toUInt16 = false))
  reply m token state := !replyFails .working m token state

theorem recoveryCheck_sound (cfg : Config) : (recoveryCheck cfg).Sound (recoveryCondition cfg) where
  operation _ _ h := ⟨working_accepts, working_answersAsked, of_decide_eq_true h⟩
  reply _ _ _ h := ⟨working_accepts, (Bool.not_eq_true' _).mp h⟩

theorem multiTasks_recovers_twoStarts :
    ∃ s, run (System.next (multiTasks roomy)) roomySystem twoStarts = some s ∧
      s.manager.isAppScheduling = false ∧ s.quiet ∧
      s.manager.abilityList.map (·.token) = [2, 1, 0] ∧ Recovered s := by
  have h : (roomySystem.runPasses (multiTasks roomy) (recoveryCheck roomy) twoStarts).map
      (fun s => (s.manager.isAppScheduling, decide s.quiet, s.manager.abilityList.map (·.token))) =
      some (false, true, [2, 1, 0]) := by decide
  obtain ⟨s, hs, h⟩ := Option.map_eq_some_iff.mp h
  simp only [Prod.mk.injEq, decide_eq_true_eq] at h
  exact ⟨s, run_of_runIf _ hs, h.1, h.2.1, h.2.2, multiTasks_recovers (by decide)
    ((recoveryCheck_sound roomy).reached twoStarts_works (.init roomySystem_booted) hs)⟩

/-- Every start is accepted and every message answered, and `CreateAppTask` fails once: the
lock is free with nothing in flight, and the top has no thread. -/
theorem multiTasks_failedThird_stuck : Booted roomy roomySystem ∧
    ∃ s, run (System.next (multiTasks roomy)) roomySystem failedThirdEvents = some s ∧
      ¬ Recovered s := by
  have h : (run (System.next (multiTasks roomy)) roomySystem failedThirdEvents).map
      (fun s => (s.manager.isAppScheduling, decide s.quiet, decide (s.manager.abilityList = []),
        decide (AtRest s.manager.abilityList))) = some (false, true, false, false) := by decide
  obtain ⟨s, hs, hbad⟩ := Option.map_eq_some_iff.mp h
  simp only [Prod.mk.injEq, decide_eq_true_eq, decide_eq_false_iff_not] at hbad
  obtain ⟨hlock, hquiet, hne, hrest⟩ := hbad
  exact ⟨roomySystem_booted, s, hs, fun hrec => hrest (hrec hlock hquiet hne)⟩

end AbilityLite.Slite.MultiTasks
