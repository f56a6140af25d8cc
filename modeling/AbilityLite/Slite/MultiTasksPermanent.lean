import AbilityLite.Slite.Invariant
import AbilityLite.Slite.MultiTasksThreads

/-
  Permanent abilities of the multi-task build.

  `IsPermanentAbility` is asked by some of the paths that remove a record and not by
  others. A run that keeps off the others loses no permanent ability (`Guarded`),
  whatever the sends and launches of its steps do: none is marked for termination,
  so no destroy removes one, and the launcher stays listed.
-/

namespace AbilityLite.Slite.MultiTasks
open Manager AbilityList

/-! ## Permanent records -/

/-- Every permanent ability of the one list is in the other. -/
def Survives (l l' : AbilityList) : Prop :=
  ∀ r ∈ l, isPermanentAbility r → ∃ r' ∈ l', r'.token = r.token ∧ r'.appName = r.appName

/-- No permanent ability is marked for termination. -/
def Unmarked (l : AbilityList) : Prop := ∀ r ∈ l, isPermanentAbility r → r.isTerminated = false

theorem isPermanentAbility_congr {r r' : AbilityRecord} (ht : r'.token = r.token)
    (hn : r'.appName = r.appName) : isPermanentAbility r' = isPermanentAbility r := by
  rw [isPermanentAbility, ht, hn, isPermanentAbility]

theorem isPermanentAbility_launcher {r : AbilityRecord} (h : r.token = launcherToken) :
    isPermanentAbility r := by
  simp [isPermanentAbility, h]

namespace Survives

theorem refl (l : AbilityList) : Survives l l := fun r hr _ => ⟨r, hr, rfl, rfl⟩

theorem of_mem {l l' : AbilityList} (h : ∀ r ∈ l, isPermanentAbility r → r ∈ l') : Survives l l' :=
  fun r hr hp => ⟨r, h r hr hp, rfl, rfl⟩

theorem trans {l l' l'' : AbilityList} (h : Survives l l') (h' : Survives l' l'') :
    Survives l l'' := by
  intro r hr hp
  obtain ⟨r', hr', ht', hn'⟩ := h r hr hp
  obtain ⟨r'', hr'', ht'', hn''⟩ := h' r' hr' ((isPermanentAbility_congr ht' hn').trans hp)
  exact ⟨r'', hr'', ht''.trans ht', hn''.trans hn'⟩

end Survives

/-! ## Making room -/

/-- Making room deletes a permanent ability: the list is full and ends with two of them. -/
def evictsPermanent (capacity : Nat) (l : AbilityList) : Bool :=
  capacity ≤ l.length && (popBottomAbility l).2.any isPermanentAbility

theorem popBottomAbility_mem {l : AbilityList} {r : AbilityRecord} (hr : r ∈ l) :
    r ∈ (popBottomAbility l).1 ∨ r ∈ (popBottomAbility l).2 := by
  obtain ⟨l, last, rfl⟩ : ∃ l' last, l = l' ++ [last] :=
    ⟨l.dropLast, l.getLast (List.ne_nil_of_mem hr), (List.dropLast_concat_getLast _).symm⟩
  simp only [popBottomAbility, List.getLast?_concat, List.dropLast_concat]
  split
  · rcases List.mem_append.mp hr with hr | hr
    · have hne := List.ne_nil_of_mem hr
      rw [← List.dropLast_concat_getLast hne] at hr
      rcases List.mem_append.mp hr with hr | hr
      · exact .inl (List.mem_append_left _ hr)
      · rw [List.getLast?_eq_some_getLast hne]
        exact .inr hr
    · exact .inl (List.mem_append_right _ hr)
  · exact List.mem_append.mp hr

theorem evict_keeps {capacity : Nat} {l : AbilityList} (h : evictsPermanent capacity l = false) :
    ∀ r ∈ l, isPermanentAbility r → r ∈ evict capacity l := by
  intro r hr hp
  unfold evict
  split
  · next hfull =>
    refine (popBottomAbility_mem hr).resolve_right fun hdel => ?_
    simp only [evictsPermanent, hfull, decide_true, Bool.true_and, List.any_eq_false] at h
    exact h r hdel hp
  · exact hr

theorem popBottomAbility_map {g : AbilityRecord → AbilityRecord}
    (hg : ∀ r, isPermanentAbility (g r) = isPermanentAbility r) (l : AbilityList) :
    (popBottomAbility (l.map g)).2 = (popBottomAbility l).2.map g := by
  simp only [popBottomAbility, List.getLast?_map]
  cases l.getLast? with
  | none => rfl
  | some last =>
    simp only [Option.map_some, hg]
    cases isPermanentAbility last with
    | true =>
      simp only [if_true, ← List.map_dropLast, List.getLast?_map]
      cases l.dropLast.getLast? <;> rfl
    | false => rfl

/-- A change to a record that keeps what makes it permanent does not change what goes. -/
theorem evictsPermanent_modify {f : AbilityRecord → AbilityRecord}
    (hf : ∀ r, isPermanentAbility (f r) = isPermanentAbility r) (capacity : Nat) (l : AbilityList)
    (token : UInt16) :
    evictsPermanent capacity (l.modify token f) = evictsPermanent capacity l := by
  have hg : ∀ r, isPermanentAbility (if r.token == token then f r else r) = isPermanentAbility r := by
    intro r
    split
    · exact hf r
    · rfl
  simp only [evictsPermanent, AbilityList.modify, List.length_map, popBottomAbility_map hg,
    List.any_map, Function.comp_def, hg]

/-! ## The invariant -/

/-- The permanent abilities of `l` are listed, the launcher among them, and none is to be
terminated. -/
structure Guarded (cfg : Config) (l : AbilityList) (m : Manager) : Prop where
  shape : Shape cfg m
  launcher : ∃ r ∈ m.abilityList, r.token = launcherToken
  unmarked : Unmarked m.abilityList
  survives : Survives l m.abilityList

namespace Guarded
variable {cfg : Config} {l : AbilityList} {m m' : Manager}

theorem step (h : Guarded cfg l m) (hs : Shape cfg m')
    (hsurvives : Survives m.abilityList m'.abilityList) (hunmarked : Unmarked m'.abilityList) :
    Guarded cfg l m' := by
  refine ⟨hs, ?_, hunmarked, h.survives.trans hsurvives⟩
  obtain ⟨r, hr, ht⟩ := h.launcher
  obtain ⟨r', hr', ht', -⟩ := hsurvives r hr (isPermanentAbility_launcher ht)
  exact ⟨r', hr', ht'.trans ht⟩

theorem congr (h : Guarded cfg l m) (hl : m'.abilityList = m.abilityList)
    (hf : m'.fault = m.fault) : Guarded cfg l m' :=
  h.step (h.shape.sublist (hl ▸ List.Sublist.refl _) hf) (hl ▸ Survives.refl _) (hl ▸ h.unmarked)

theorem locked (h : Guarded cfg l m) (b : Bool) : Guarded cfg l { m with isAppScheduling := b } :=
  h.congr rfl rfl

/-- Nothing permanent goes. -/
theorem sublist (h : Guarded cfg l m) (hsub : m'.abilityList.Sublist m.abilityList)
    (hkeep : ∀ r ∈ m.abilityList, isPermanentAbility r → r ∈ m'.abilityList)
    (hf : m'.fault = m.fault) : Guarded cfg l m' :=
  h.step (h.shape.sublist hsub hf) (.of_mem hkeep) fun r hr => h.unmarked r (hsub.subset hr)

theorem perm (h : Guarded cfg l m) (hperm : m'.abilityList.Perm m.abilityList)
    (hf : m'.fault = m.fault) : Guarded cfg l m' := by
  refine h.step ⟨?_, ?_, ?_, hf.trans h.shape.noFault⟩ ?_ ?_
  · exact (hperm.map _).nodup_iff.mpr h.shape.nodup
  · exact hperm.length_eq ▸ h.shape.bounded
  · exact fun r hr => h.shape.data r (hperm.mem_iff.mp hr)
  · exact .of_mem fun r hr _ => hperm.mem_iff.mpr hr
  · exact fun r hr => h.unmarked r (hperm.mem_iff.mp hr)

/-- A change to the record with a token that marks no permanent ability. -/
theorem modify (h : Guarded cfg l m) (token : UInt16) {f : AbilityRecord → AbilityRecord}
    (ht : ∀ r, (f r).token = r.token) (hn : ∀ r, (f r).appName = r.appName)
    (hdata : ∀ r, r.abilityData.isSome → (f r).abilityData.isSome)
    (hmark : ∀ r ∈ m.abilityList, r.token = token → isPermanentAbility r →
      r.isTerminated = false → (f r).isTerminated = false) :
    Guarded cfg l (m.modify token f) := by
  refine h.step (h.shape.modify token rfl ht hdata rfl) ?_ ?_
  · intro r hr _
    refine ⟨_, List.mem_map.mpr ⟨r, hr, rfl⟩, ?_⟩
    split
    · exact ⟨ht r, hn r⟩
    · exact ⟨rfl, rfl⟩
  · intro r' hr'
    obtain ⟨r, hr, rfl⟩ := List.mem_map.mp hr'
    split
    · next htoken =>
      intro hp
      have hp' := (isPermanentAbility_congr (ht r) (hn r)).symm.trans hp
      exact hmark r hr (by simpa using htoken) hp' (h.unmarked r hr hp')
    · exact h.unmarked r hr

/-- The record with a token goes, and it is not permanent. -/
theorem erase (h : Guarded cfg l m) {token : UInt16}
    (hnot : ∀ r ∈ m.abilityList, r.token = token → isPermanentAbility r = false)
    (hl : m'.abilityList = m.abilityList.erase token) (hf : m'.fault = m.fault) :
    Guarded cfg l m' := by
  refine h.sublist (hl ▸ erase_sublist _ _) (fun r hr hp => ?_) hf
  have hne : r.token ≠ token := by
    intro e
    rw [hnot r hr e] at hp
    cases hp
  rw [hl]
  exact (List.mem_eraseP_of_neg (by simpa using hne)).mpr hr

theorem deleteRecordInfo (h : Guarded cfg l m) {token : UInt16}
    (hnot : ∀ r ∈ m.abilityList, r.token = token → isPermanentAbility r = false) :
    Guarded cfg l (m.deleteRecordInfo token) := by
  cases hg : m.abilityList.get token with
  | none =>
    rw [deleteRecordInfo_none hg]
    exact h
  | some r =>
    rw [deleteRecordInfo_some h.shape.nodup hg]
    exact h.erase hnot rfl rfl

/-- A record is added, and what goes for it is not permanent. -/
theorem add (hcap : 3 ≤ cfg.abilityListCapacity) (h : Guarded cfg l m) {r : AbilityRecord}
    (hdata : r.abilityData.isSome) (hmark : r.isTerminated = false)
    (hroom : evictsPermanent cfg.abilityListCapacity m.abilityList = false) :
    Guarded cfg l (m.add cfg r) := by
  obtain ⟨s, hadd⟩ := add_eq cfg m r
  have hsub := evict_sublist cfg.abilityListCapacity m.abilityList
  have hkeep := evict_keeps hroom
  rw [hadd]
  cases hg : (m.abilityList.evict cfg.abilityListCapacity).get r.token with
  | some x =>
    have hl := add_of_listed (show Option.isSome _ = true by rw [hg]; rfl)
    exact h.sublist (hl ▸ hsub) (hl ▸ hkeep) rfl
  | none =>
    have hl := add_of_fresh hg
    have hlen := evict_length (Nat.le_of_succ_le hcap) h.shape.bounded
    refine h.step ⟨?_, ?_, ?_, h.shape.noFault⟩ ?_ ?_
    all_goals simp only [hl]
    · rw [List.map_cons, List.nodup_cons]
      refine ⟨fun hmem => ?_, h.shape.nodup.sublist (hsub.map _)⟩
      obtain ⟨x, hx, hxt⟩ := List.mem_map.mp hmem
      exact get_eq_none.mp hg x hx hxt
    · exact hlen
    · exact List.forall_mem_cons.mpr ⟨hdata, fun x hx => h.shape.data x (hsub.subset hx)⟩
    · exact .of_mem fun x hx hp => List.mem_cons_of_mem _ (hkeep x hx hp)
    · exact List.forall_mem_cons.mpr ⟨fun _ => hmark, fun x hx => h.unmarked x (hsub.subset hx)⟩

theorem moveToTop (h : Guarded cfg l m) (token : UInt16) : Guarded cfg l (m.moveToTop cfg token) := by
  cases hg : m.abilityList.get token with
  | none =>
    refine h.congr ?_ ?_
    all_goals simp only [Manager.moveToTop, AbilityList.moveToTop, hg, releaseAll_eq]
  | some r =>
    rw [moveToTop_listed h.shape.nodup h.shape.bounded hg]
    obtain ⟨hmem, rfl⟩ := get_eq_some hg
    refine h.perm ?_ rfl
    obtain ⟨a, l₁, l₂, -, ha, hl, herase⟩ :=
      List.exists_of_eraseP (p := fun x => x.token == r.token) hmem (beq_self_eq_true r.token)
    have hr := get_of_mem h.shape.nodup (hl ▸ List.mem_append_right l₁ List.mem_cons_self)
    have hta : a.token = r.token := by simpa using ha
    rw [hta, hg, Option.some.injEq] at hr
    subst hr
    show (r :: m.abilityList.eraseP fun x => x.token == r.token).Perm m.abilityList
    rw [herase, hl]
    exact List.perm_middle.symm

end Guarded

/-! ## Deferred operations -/

section queue
variable (cfg : Config) (env : Env) (m : Manager)

@[simp] theorem add_queue (r : AbilityRecord) : (m.add cfg r).abilityOperation = m.abilityOperation := by
  obtain ⟨s, h⟩ := add_eq cfg m r
  rw [h]

@[simp] theorem moveToTop_queue (token : UInt16) :
    (m.moveToTop cfg token).abilityOperation = m.abilityOperation := by
  simp only [Manager.moveToTop, releaseAll_eq]

@[simp] theorem sendMsgToAbilityThread_queue (state : SliteAbilityState) (r : AbilityRecord) :
    (m.sendMsgToAbilityThread env state r).2.abilityOperation = m.abilityOperation := by
  unfold sendMsgToAbilityThread
  split
  · rfl
  · simp only
    split <;> rfl

@[simp] theorem schedulerLifecycle_queue (token : UInt16) (state : SliteAbilityState) :
    (schedulerLifecycle env m token state).2.abilityOperation = m.abilityOperation := by
  unfold schedulerLifecycle
  split
  · rfl
  · exact sendMsgToAbilityThread_queue env m state _

@[simp] theorem setAbilityStateAndNotify_queue (token : UInt16) (state : AbilityRecordState) :
    (m.setAbilityStateAndNotify token state).abilityOperation = m.abilityOperation := by
  obtain ⟨n, hn⟩ := setAbilityStateAndNotify_eq m token state
  rw [hn]

@[simp] theorem deleteAbilityThread_queue (r : AbilityRecord) :
    (m.deleteAbilityThread r).abilityOperation = m.abilityOperation := by
  unfold Manager.deleteAbilityThread
  split <;> rfl

@[simp] theorem deleteRecordInfo_queue (token : UInt16) :
    (m.deleteRecordInfo token).abilityOperation = m.abilityOperation := by
  unfold Manager.deleteRecordInfo
  split
  · rfl
  · exact deleteAbilityThread_queue m _

@[simp] theorem markTop_queue (top : AbilityRecord) :
    (markTop env m top).abilityOperation = m.abilityOperation := by
  unfold markTop
  split <;> rfl

@[simp] theorem createAppTask_queue (r : AbilityRecord) (listed : Bool) :
    (createAppTask env m r listed).2.abilityOperation = m.abilityOperation := by
  unfold createAppTask
  by_cases hinit : env.initAbilityThread r.token = errOk
  · simp only [hinit, ne_eq, not_true_eq_false, if_false, schedulerLifecycle_queue]
    split <;> rfl
  · simp only [hinit, ne_eq, not_false_eq_true, if_true]
    split <;> rfl

theorem preCheckStartAbility_queue (info : AbilitySvcInfo) (bundleName : CString) :
    (preCheckStartAbility cfg env m info bundleName).2.abilityOperation = m.abilityOperation := by
  unfold preCheckStartAbility
  split
  · rfl
  · split
    · split
      · split <;> rfl
      · exact moveToTop_queue cfg m _
    · obtain ⟨token, m', htoken, hm'⟩ : ∃ token m',
          (if m.pendingToken ≠ 0 then (m.pendingToken, m) else generateToken m) = (token, m') ∧
            m'.abilityOperation = m.abilityOperation := by
        split
        · exact ⟨_, _, rfl, rfl⟩
        · exact ⟨_, _, rfl, rfl⟩
      obtain ⟨mission, k, hmission⟩ := generateMission_eq m' info
      simp only [htoken, hmission]
      split
      · split
        · simp [Manager.erase, hm']
        · simp [hm']
      · simp [hm']

theorem startAbilityInfo_queue (info : AbilitySvcInfo) :
    (startAbilityInfo cfg env m info).2.abilityOperation = m.abilityOperation := by
  unfold startAbilityInfo
  split
  · rfl
  · split
    · rfl
    · split
      · split
        · rfl
        · exact preCheckStartAbility_queue cfg env m info _
      · split
        · rfl
        · split
          · split
            · exact createAppTask_queue env m _ true
            · rfl
          · simp only [preCheckStartAbility_queue, generateToken, sendMsgToAbilityThread_queue,
              markTop_queue]

@[simp] theorem handToNewTop_queue (token : UInt16) (want : Option Want) :
    (handToNewTop m token want).abilityOperation = m.abilityOperation := by
  cases want <;> rfl

theorem terminateAbilityWant_queue (token : UInt16) (want : Option Want) :
    (terminateAbilityWant cfg env m token want).2.abilityOperation = m.abilityOperation := by
  unfold terminateAbilityWant
  split
  · rfl
  · split
    · rfl
    · split
      · split
        · rfl
        · split
          · rfl
          · exact deleteRecordInfo_queue m token
      · simp only
        split
        · rfl
        · simp only [sendMsgToAbilityThread_queue, handToNewTop_queue]
          split <;> simp

end queue

section
variable {cfg : Config} {env : Env} {m : Manager}

/-- Only a `TERMINATE_ALL` needs its want. -/
theorem addAbilityOperation_wellFormed (h : m.QueueWellFormed) {msgId : AmsCommand}
    (hid : msgId ≠ .terminateAll) (want : Option Want) (token : UInt64) :
    (m.addAbilityOperation env msgId want token).2.QueueWellFormed := by
  intro o ho
  rcases List.mem_append.mp ho with ho | ho
  · exact h o ho
  · rw [List.mem_singleton.mp ho]
    exact fun he => absurd he hid

theorem startAbility_wellFormed (h : m.QueueWellFormed) (want : Option Want) :
    (startAbility cfg env m want).2.QueueWellFormed := by
  cases hlock : m.isAppScheduling with
  | true =>
    simp only [startAbility, hlock, if_true]
    exact addAbilityOperation_wellFormed h (by decide) _ _
  | false =>
    have hcases := startAbility_cases cfg env hlock want
    generalize startAbility cfg env m want = x at hcases ⊢
    cases hcases with
    | ends ret remote hnone => exact h
    | bringsUp w r top hmem htop hne hup =>
      exact wellFormed_of_queue h (by simp [Manager.modify])
    | startsNew w bundleName info happ hbundle hname hquery =>
      exact wellFormed_of_queue h (startAbilityInfo_queue cfg env _ _)

theorem startAbilityRecord_wellFormed (h : m.QueueWellFormed) (r : AbilityRecord) :
    (startAbilityRecord cfg env m r).2.QueueWellFormed := by
  unfold startAbilityRecord
  split
  · exact h
  · exact startAbility_wellFormed h _

theorem terminateAbility_wellFormed (h : m.QueueWellFormed) (token : UInt16) :
    (terminateAbility cfg env m token).2.QueueWellFormed := by
  unfold terminateAbility
  split
  · exact addAbilityOperation_wellFormed h (by decide) _ _
  · exact wellFormed_of_queue h (terminateAbilityWant_queue cfg env _ _ _)

theorem terminateEach_wellFormed (topToken : UInt16) (tokens : List UInt16)
    (h : m.QueueWellFormed) : (terminateEach cfg env topToken m tokens).QueueWellFormed := by
  induction tokens generalizing m with
  | nil => exact h
  | cons token tokens ih =>
    refine ih ?_
    show Manager.QueueWellFormed (if token ≠ topToken then _ else _)
    split
    · exact terminateAbility_wellFormed h token
    · exact h

theorem launchNext_wellFormed (h : m.QueueWellFormed) : (launchNext cfg env m).QueueWellFormed := by
  unfold launchNext
  split
  · split
    · exact h
    · next record hrecord =>
      have hq := createAppTask_queue env m record true
      simp only
      split
      · split
        · exact wellFormed_of_queue h hq
        · next top htop =>
          refine startAbilityRecord_wellFormed ?_ top
          exact wellFormed_of_queue h hq
      · exact wellFormed_of_queue h hq
  · split
    · exact h
    · next top htop =>
      have hq := createAppTask_queue env m top true
      simp only
      split
      · exact wellFormed_of_queue h hq
      · exact wellFormed_of_queue h hq

theorem onDestroyDone_wellFormed (h : m.QueueWellFormed) (token : UInt16) :
    (onDestroyDone cfg env m token).QueueWellFormed := by
  rw [onDestroyDone_eq]
  simp only
  split
  · exact wellFormed_of_queue h (by simp)
  · refine launchNext_wellFormed (wellFormed_of_queue h ?_)
    split <;> simp

/-- No operation defers one that `RunOperation` cannot run. -/
theorem dispatch_wellFormed (hlock : m.isAppScheduling = false) (h : m.QueueWellFormed)
    (o : AbilityOperation) : ((operations cfg).dispatch env m o).2.QueueWellFormed := by
  unfold Operations.dispatch
  cases o.msgId with
  | startAbility => exact startAbility_wellFormed h _
  | terminateAbility => exact terminateAbility_wellFormed h _
  | terminateApp =>
    simp only [operations, forceStopBundle, hlock, Bool.false_eq_true, if_false]
    split
    · exact h
    · split
      · exact wellFormed_of_queue h (terminateAbilityWant_queue cfg env _ _ _)
      · refine onDestroyDone_wellFormed ?_ _
        exact wellFormed_of_queue h rfl
  | terminateMission =>
    simp only [operations, terminateMission, hlock, Bool.false_eq_true, if_false]
    split
    · exact h
    · exact terminateEach_wellFormed _ _ h
  | terminateAppByBundleName =>
    simp only [operations, forceStop, hlock, Bool.false_eq_true, if_false]
    split
    · exact h
    · split
      · exact h
      · exact wellFormed_of_queue h (terminateAbilityWant_queue cfg env _ _ _)
  | terminateAll =>
    simp only
    split
    · exact h
    · simp only [operations, terminateAll, hlock, Bool.false_eq_true, if_false]
      refine wellFormed_of_queue h ?_
      simp only [releaseAll_eq]
      rename_i want _
      generalize (m.abilityList.popAllAbility (want.data.map CString.read)).2.2 = deleted
      generalize (m.sent.filter fun msg => deleted.all fun r => msg.token ≠ r.token) = sent
      obtain ⟨n, hn⟩ := foldl_notify_eq { m with sent := sent } deleted
      rw [hn]
  | other _ => exact h

theorem schedulerLifecycleDone_wellFormed {envs : Nat → Env} {token : UInt16}
    {state : SliteAbilityState} (hstate : state ≠ .foreground) (h : m.QueueWellFormed) :
    (schedulerLifecycleDone (multiTasks cfg) envs m token state).QueueWellFormed := by
  cases state with
  | foreground => exact absurd rfl hstate
  | initial =>
    refine wellFormed_of_queue h ?_
    simp only [schedulerLifecycleDone, multiTasks, onCreateDone, schedulerLifecycle_queue,
      setAbilityStateAndNotify_queue]
  | background =>
    refine wellFormed_of_queue h ?_
    simp only [schedulerLifecycleDone, multiTasks, onBackgroundDone]
    split
    · exact setAbilityStateAndNotify_queue m token _
    · simp [Manager.modify]
  | uninitialized => exact onDestroyDone_wellFormed h token
  | unknown => exact h

end

/-! ## Terminating -/

section
variable {cfg : Config} {l : AbilityList} {m : Manager}

theorem Guarded.send (h : Guarded cfg l m) (env : Env) (state : SliteAbilityState)
    (r : AbilityRecord) : Guarded cfg l (m.sendMsgToAbilityThread env state r).2 := by
  unfold sendMsgToAbilityThread
  split
  · exact h
  · simp only
    split <;> exact h.congr rfl rfl

theorem handWant_name (want : Want) (r : AbilityRecord) :
    (handWant want r).appName = r.appName ∧ (handWant want r).isTerminated = r.isTerminated := by
  unfold handWant AbilityRecord.setWantData
  split
  · split <;> exact ⟨rfl, rfl⟩
  · exact ⟨rfl, rfl⟩

theorem Guarded.handToNewTop (h : Guarded cfg l m) (token : UInt16) (want : Option Want) :
    Guarded cfg l (handToNewTop m token want) := by
  cases want with
  | none => exact h
  | some want =>
    exact h.modify token (fun r => (handWant_keeps r want).1) (fun r => (handWant_name want r).1)
      (fun r => (handWant_keeps r want).2.2) fun r _ _ _ hm => (handWant_name want r).2.trans hm

/-- A record with the top's token is the top. -/
theorem eq_top {top : AbilityRecord} {rest : AbilityList} (hd : (m.abilityList.map (·.token)).Nodup)
    (hl : m.abilityList = top :: rest) {r : AbilityRecord} (hr : r ∈ m.abilityList)
    (ht : r.token = top.token) : r = top := by
  have hget := get_of_mem hd hr
  rw [ht, hl, get_top, Option.some.injEq] at hget
  exact hget.symm

/-- The launcher is not listed without a top, and as the only one it is the top. -/
theorem Guarded.top (h : Guarded cfg l m) : ∃ top below, m.abilityList = top :: below ∧
    (below = [] → isPermanentAbility top) := by
  obtain ⟨r, hr, ht⟩ := h.launcher
  obtain ⟨top, below, hl⟩ := List.exists_cons_of_ne_nil (List.ne_nil_of_mem hr)
  refine ⟨top, below, hl, fun hbelow => ?_⟩
  rw [hl, hbelow, List.mem_singleton] at hr
  exact isPermanentAbility_launcher (hr ▸ ht)

/-- A terminate never removes a permanent ability. -/
theorem Guarded.terminateAbilityWant (h : Guarded cfg l m) (env : Env) (token : UInt16)
    (want : Option Want) : Guarded cfg l (terminateAbilityWant cfg env m token want).2 := by
  obtain ⟨top, below, hl, honly⟩ := h.top
  simp only [MultiTasks.terminateAbilityWant, getTopAbility_cons hl]
  split
  · exact h.congr rfl rfl
  · next hmany =>
    split
    · split
      · exact h.congr rfl rfl
      · next r hr =>
        obtain ⟨hmem, rfl⟩ := get_eq_some hr
        split
        · exact h.congr rfl rfl
        · next hperm =>
          have hdel : Guarded cfg l (m.deleteRecordInfo r.token) := by
            refine h.deleteRecordInfo fun x hx hxt => ?_
            have hx' := get_of_mem h.shape.nodup hx
            rw [hxt, hr, Option.some.injEq] at hx'
            exact hx' ▸ Bool.eq_false_iff.mpr hperm
          exact hdel.congr rfl rfl
    · have hpop : m.abilityList.popAbility = below := by rw [hl]; rfl
      rw [hpop]
      cases below with
      | nil => exact absurd ⟨by rw [hl]; rfl, honly rfl⟩ hmany
      | cons next rest =>
        have htop : getTopAbility { m with abilityList := next :: rest } = some next := rfl
        have hpop' : AbilityList.popAbility (next :: rest) = rest := rfl
        have hafter : Guarded cfg l { m with abilityList := afterTerminate top next rest } := by
          by_cases hperm : isPermanentAbility top = true
          · refine h.perm ?_ rfl
            simp only [afterTerminate, if_pos hperm, hl]
            exact List.Perm.swap top next rest
          · have hd := h.shape.nodup
            rw [hl] at hd
            have hmark := h.modify top.token (f := fun r => { r with isTerminated := true })
              (fun _ => rfl) (fun _ => rfl) (fun _ hd => hd) fun r hr ht hp => by
                rw [eq_top h.shape.nodup hl hr ht] at hp
                exact absurd hp hperm
            refine hmark.congr ?_ rfl
            simp only [afterTerminate, if_neg hperm, Manager.modify, hl, modify_top hd]
        have hhanded := hafter.handToNewTop next.token want
        simp only [htop, hpop', terminateTop_swap h.shape.nodup h.shape.bounded hl]
        refine Guarded.send ?_ _ _ _
        exact hhanded.congr rfl rfl

theorem Guarded.terminateAbility (h : Guarded cfg l m) (env : Env) (token : UInt16) :
    Guarded cfg l (terminateAbility cfg env m token).2 := by
  unfold MultiTasks.terminateAbility
  split
  · exact h.congr rfl rfl
  · exact (h.locked true).terminateAbilityWant env token none

theorem Guarded.terminateEach (h : Guarded cfg l m) (env : Env) (topToken : UInt16)
    (tokens : List UInt16) : Guarded cfg l (terminateEach cfg env topToken m tokens) := by
  induction tokens generalizing m with
  | nil => exact h
  | cons token tokens ih =>
    refine ih ?_
    show Guarded cfg l (if token ≠ topToken then _ else _)
    split
    · exact h.terminateAbility env token
    · exact h

theorem Guarded.terminateAll (h : Guarded cfg l m) (env : Env) (hlock : m.isAppScheduling = false)
    (excludedBundleName : Option CString) : Guarded cfg l (terminateAll env m excludedBundleName).2 := by
  obtain ⟨top, below, hl, -⟩ := h.top
  have heq : m.abilityList.popAllAbility excludedBundleName =
      (errOk, top :: below.filter (reserved excludedBundleName),
        below.filter fun r => !reserved excludedBundleName r) := by
    rw [hl, popAllAbility_cons]
  simp only [Manager.terminateAll, hlock, Bool.false_eq_true, if_false]
  rw [heq]
  simp only
  rw [releaseAll_eq]
  obtain ⟨n, hn⟩ := foldl_notify_eq _ (below.filter fun r => !reserved excludedBundleName r)
  rw [hn]
  refine h.sublist (hl ▸ List.filter_sublist.cons_cons top) (fun r hr hp => ?_) rfl
  rw [hl] at hr
  rcases List.mem_cons.mp hr with rfl | hr
  · exact List.mem_cons_self
  · refine List.mem_cons_of_mem _ (List.mem_filter.mpr ⟨hr, ?_⟩)
    simp only [reserved, hp, Bool.true_or]

end

/-! ## Launching -/

/-- A permanent ability is to be launched and cannot be. -/
def launchLoses (env : Env) (r : Option AbilityRecord) : Bool :=
  r.any fun r => isPermanentAbility r && env.initAbilityThread r.token ≠ errOk

theorem createAppTask_failed {env : Env} {r : AbilityRecord}
    (hinit : env.initAbilityThread r.token ≠ errOk) (m : Manager) (listed : Bool) :
    createAppTask env m r listed = (env.initAbilityThread r.token,
      if listed then m.modify r.token fun r => { r with abilityThread := none } else m) := by
  simp only [createAppTask, hinit, ne_eq, not_false_eq_true, if_true]

section
variable {cfg : Config} {l : AbilityList} {m : Manager}

theorem Guarded.createAppTask (h : Guarded cfg l m) (env : Env) (r : AbilityRecord)
    (listed : Bool) : Guarded cfg l (createAppTask env m r listed).2 := by
  have hlisted {f : AbilityRecord → AbilityRecord} (hf : ∀ r, (f r).token = r.token ∧
      (f r).appName = r.appName ∧ (f r).abilityData = r.abilityData ∧
      (f r).isTerminated = r.isTerminated) :
      Guarded cfg l (if listed then m.modify r.token f else m) := by
    split
    · exact h.modify r.token (fun r => (hf r).1) (fun r => (hf r).2.1)
        (fun r hd => (hf r).2.2.1 ▸ hd) fun r _ _ _ hm => (hf r).2.2.2.trans hm
    · exact h
  by_cases hinit : env.initAbilityThread r.token = errOk
  · simp only [MultiTasks.createAppTask, hinit, ne_eq, not_true_eq_false, if_false, schedulerLifecycle]
    have hstarted := hlisted (f := started env) fun _ => ⟨rfl, rfl, rfl, rfl⟩
    split
    · exact hstarted
    · exact hstarted.send env _ _
  · rw [createAppTask_failed hinit]
    exact hlisted fun _ => ⟨rfl, rfl, rfl, rfl⟩

/-- A launch that fails erases its ability, which is not permanent. -/
theorem Guarded.erase_failed (h : Guarded cfg l m) {r : AbilityRecord} (hr : r ∈ m.abilityList)
    (hperm : isPermanentAbility r = false) :
    Guarded cfg l ((m.modify r.token fun r => { r with abilityThread := none }).erase r.token) := by
  have hfailed := h.modify r.token (f := fun r => { r with abilityThread := none }) (fun _ => rfl)
    (fun _ => rfl) (fun _ hd => hd) fun _ _ _ _ hm => hm
  refine hfailed.erase (fun x hx hxt => ?_) rfl rfl
  obtain ⟨y, hy, rfl⟩ := List.mem_map.mp hx
  have hyt : y.token = r.token := by
    split at hxt
    · exact hxt
    · exact hxt
  have hget := get_of_mem h.shape.nodup hy
  rw [hyt, get_of_mem h.shape.nodup hr, Option.some.injEq] at hget
  subst hget
  simp only [beq_self_eq_true, if_true]
  exact hperm

theorem launchLoses_eq_false {env : Env} {r : AbilityRecord}
    (h : launchLoses env (some r) = false) (hinit : env.initAbilityThread r.token ≠ errOk) :
    isPermanentAbility r = false := by
  simpa [launchLoses, hinit] using h

/-- The restart after a failed launch finds its ability on top. -/
theorem Guarded.restart (h : Guarded cfg l m) (env : Env) {top : AbilityRecord}
    (htop : m.getTopAbility = some top) :
    Guarded cfg l { (startAbilityRecord cfg env { m with isAppScheduling := false } top).2 with
      pendingToken := 0 } := by
  obtain ⟨rest, hl⟩ := List.head?_eq_some_iff.mp htop
  rw [startAbilityRecord_top cfg env (m := { m with isAppScheduling := false }) hl rfl
    (h.shape.data top (List.mem_of_head? htop))]
  exact h.congr rfl rfl

theorem Guarded.launchNext (h : Guarded cfg l m) {env : Env}
    (hok : launchLoses env (launched m) = false) : Guarded cfg l (launchNext cfg env m) := by
  unfold MultiTasks.launchNext
  unfold launched at hok
  by_cases hp : m.pendingToken = 0
  · simp only [hp, ne_eq, not_true_eq_false, if_false] at hok ⊢
    obtain ⟨top, below, hl, -⟩ := h.top
    rw [getTopAbility_cons hl] at hok
    simp only [getTopAbility_cons hl]
    by_cases hinit : env.initAbilityThread top.token = errOk
    · have hret : (MultiTasks.createAppTask env m top true).1 = errOk := by
        simp only [MultiTasks.createAppTask, hinit, ne_eq, not_true_eq_false, if_false]
      simp only [hret, not_true_eq_false, if_false]
      exact h.createAppTask env top true
    · simp only [createAppTask_failed hinit, hinit, not_false_eq_true, if_true]
      have hmem : top ∈ m.abilityList := by rw [hl]; exact List.mem_cons_self
      exact (h.erase_failed hmem (launchLoses_eq_false hok hinit)).locked false
  · simp only [hp, ne_eq, not_false_eq_true, if_true] at hok ⊢
    split
    · exact h
    · next record hrecord =>
      rw [hrecord] at hok
      obtain ⟨hmem, ht⟩ := get_eq_some hrecord
      by_cases hinit : env.initAbilityThread record.token = errOk
      · have hret : (MultiTasks.createAppTask env m record true).1 = errOk := by
          simp only [MultiTasks.createAppTask, hinit, ne_eq, not_true_eq_false, if_false]
        simp only [hret, not_true_eq_false, if_false]
        exact (h.createAppTask env record true).congr rfl rfl
      · simp only [createAppTask_failed hinit, hinit, not_false_eq_true, if_true]
        have herased := h.erase_failed hmem (launchLoses_eq_false hok hinit)
        rw [ht] at herased ⊢
        split
        · exact herased
        · next top htop => exact herased.restart env htop

theorem Guarded.deleteAbilityThread (h : Guarded cfg l m) (r : AbilityRecord) :
    Guarded cfg l (m.deleteAbilityThread r) := by
  unfold Manager.deleteAbilityThread
  split
  · have hreleased : Guarded cfg l (m.release r.token) := h.congr rfl rfl
    exact hreleased.modify r.token (fun _ => rfl) (fun _ => rfl) (fun _ hd => hd)
      fun _ _ _ _ hm => hm
  · exact h

theorem Guarded.setAbilityStateAndNotify (h : Guarded cfg l m) (token : UInt16)
    (state : AbilityRecordState) : Guarded cfg l (m.setAbilityStateAndNotify token state) := by
  obtain ⟨n, hn⟩ := setAbilityStateAndNotify_eq m token state
  rw [hn]
  have hset := h.modify token (f := fun r => { r with state := state }) (fun _ => rfl)
    (fun _ => rfl) (fun _ hd => hd) fun _ _ _ _ hm => hm
  exact hset.congr rfl rfl

theorem Guarded.onDestroyDone (h : Guarded cfg l m) {env : Env} {token : UInt16}
    (hok : launchLoses env (destroyLaunches m token) = false) :
    Guarded cfg l (onDestroyDone cfg env m token) := by
  rw [onDestroyDone_eq]
  unfold destroyLaunches at hok
  have hset := h.setAbilityStateAndNotify token .stop
  revert hset hok
  simp only
  generalize m.setAbilityStateAndNotify token .stop = m
  intro hok hset
  cases hr : m.abilityList.get token with
  | none => exact hset
  | some r =>
    simp only [hr] at hok ⊢
    refine Guarded.launchNext ?_ hok
    split
    · next hterm =>
      refine hset.deleteRecordInfo fun x hx hxt => ?_
      have hx' := get_of_mem hset.shape.nodup hx
      rw [hxt, hr, Option.some.injEq] at hx'
      subst hx'
      -- a permanent ability is never marked
      refine Bool.eq_false_iff.mpr fun hp => ?_
      rw [hset.unmarked r hx hp] at hterm
      cases hterm
    · exact hset.deleteAbilityThread r

theorem setAbilityStateAndNotify_locked (m : Manager) (b : Bool) (token : UInt16)
    (state : AbilityRecordState) :
    Manager.setAbilityStateAndNotify { m with isAppScheduling := b } token state =
      { m.setAbilityStateAndNotify token state with isAppScheduling := b } := by
  unfold Manager.setAbilityStateAndNotify
  cases m.abilityList.get token <;> rfl

theorem deleteAbilityThread_locked (m : Manager) (b : Bool) (r : AbilityRecord) :
    Manager.deleteAbilityThread { m with isAppScheduling := b } r =
      { m.deleteAbilityThread r with isAppScheduling := b } := by
  unfold Manager.deleteAbilityThread
  cases r.abilityThread.isSome <;> rfl

theorem deleteRecordInfo_locked (m : Manager) (b : Bool) (token : UInt16) :
    Manager.deleteRecordInfo { m with isAppScheduling := b } token =
      { m.deleteRecordInfo token with isAppScheduling := b } := by
  cases hg : m.abilityList.get token with
  | none => simp only [Manager.deleteRecordInfo, hg]
  | some r => simp only [Manager.deleteRecordInfo, hg, deleteAbilityThread_locked, Manager.erase, notify]

/-- The lock makes no difference to what a destroy launches. -/
theorem destroyLaunches_locked (m : Manager) (b : Bool) (token : UInt16) :
    destroyLaunches { m with isAppScheduling := b } token = destroyLaunches m token := by
  simp only [destroyLaunches, setAbilityStateAndNotify_locked, deleteRecordInfo_locked,
    deleteAbilityThread_locked]
  cases (m.setAbilityStateAndNotify token .stop).abilityList.get token with
  | none => rfl
  | some r =>
    simp only
    split <;> rfl

/-- A forced stop of a permanent top, or one whose place is to go to a permanent ability
that cannot be launched. -/
def forceStopLoses (env : Env) (m : Manager) (token : UInt16) : Bool :=
  m.getTopAbility.any (fun top => top.token = token && isPermanentAbility top) ||
    launchLoses env (forceStopLaunches m token)

theorem Guarded.forceStopBundle (h : Guarded cfg l m) {env : Env}
    (hlock : m.isAppScheduling = false) {token : UInt16}
    (hok : forceStopLoses env m token = false) :
    Guarded cfg l (forceStopBundle cfg env m token).2 := by
  obtain ⟨top, below, hl, -⟩ := h.top
  have htop : getTopAbility { m with isAppScheduling := true } = some top := getTopAbility_cons hl
  simp only [MultiTasks.forceStopBundle, hlock, Bool.false_eq_true, if_false, htop]
  split
  · exact (h.locked true).terminateAbilityWant env token none
  · next htoken =>
    obtain rfl : top.token = token := Decidable.not_not.mp htoken
    simp only [forceStopLoses, getTopAbility_cons hl, Option.any_some, decide_true, Bool.true_and,
      Bool.or_eq_false_iff, forceStopLaunches, Option.filter_some, if_true, Option.bind_some] at hok
    have hmark := (h.locked true).modify top.token (f := fun r => { r with isTerminated := true })
      (fun _ => rfl) (fun _ => rfl) (fun _ hd => hd) fun r hr ht hp => by
        rw [eq_top h.shape.nodup hl hr ht, hok.1] at hp
        cases hp
    exact hmark.onDestroyDone ((congrArg _ (destroyLaunches_locked _ true _)).trans hok.2)

end

/-! ## Starting -/

/-- A new application makes the manager lose a permanent ability: it has to make room for
the record, or has no token to reserve and erases the ability with the next one, or uses
a record it has not looked up. -/
def newLoses (cfg : Config) (env : Env) (m : Manager) (info : AbilitySvcInfo)
    (bundleName : CString) : Bool :=
  (info.path.isSome || info.isNativeApp) &&
    match m.abilityList.getByName bundleName with
    | some curRecord => curRecord.state ≠ .stop && m.pendingToken = 0
    | none =>
      evictsPermanent cfg.abilityListCapacity m.abilityList ||
        (m.pendingToken = 0 && env.initAbilityThread (generateToken m).1 ≠ errOk &&
          (m.abilityList.get (generateToken m).1).any isPermanentAbility)

section
variable {cfg : Config} {l : AbilityList} {m : Manager}

/-- A new record that cannot be launched is erased again, or the one that had its token. -/
theorem Guarded.erase_new (h : Guarded cfg l m) {env : Env} {r : AbilityRecord}
    (hroom : evictsPermanent cfg.abilityListCapacity m.abilityList = false)
    (hinit : env.initAbilityThread r.token ≠ errOk)
    (hnot : ∀ x ∈ m.abilityList, x.token = r.token → isPermanentAbility x = false) :
    Guarded cfg l ((MultiTasks.createAppTask env (m.add cfg r) r (m.takes cfg r.token)).2.erase
      r.token) := by
  obtain ⟨s, hadd⟩ := add_eq cfg m r
  have hsub := evict_sublist cfg.abilityListCapacity m.abilityList
  have hkeep := evict_keeps hroom
  rw [createAppTask_failed hinit]
  cases hg : (m.abilityList.evict cfg.abilityListCapacity).get r.token with
  | none =>
    have htakes : m.takes cfg r.token = true := by rw [takes, hg]; rfl
    have hl : (((m.add cfg r).modify r.token fun r => { r with abilityThread := none }).erase
        r.token).abilityList = m.abilityList.evict cfg.abilityListCapacity := by
      rw [hadd]
      show AbilityList.erase (AbilityList.modify (m.abilityList.add cfg.abilityListCapacity r).1
        r.token _) r.token = _
      rw [add_of_fresh hg, modify_cons, if_pos rfl, modify_eq_self hg]
      exact erase_top (r := { r with abilityThread := none }) _
    simp only [htakes, if_true]
    exact h.sublist (hl ▸ hsub) (hl ▸ hkeep) (by rw [hadd]; rfl)
  | some x =>
    have htakes : m.takes cfg r.token = false := by rw [takes, hg]; rfl
    have hl := add_of_listed (show Option.isSome _ = true by rw [hg]; rfl)
    simp only [htakes, Bool.false_eq_true, if_false]
    have hevicted : Guarded cfg l (m.add cfg r) := by
      rw [hadd]
      exact h.sublist (hl ▸ hsub) (hl ▸ hkeep) rfl
    refine hevicted.erase (fun x hx => ?_) rfl rfl
    rw [hadd] at hx
    exact hnot x (hsub.subset (hl ▸ hx))

theorem Guarded.preCheckStartAbility (hcap : 3 ≤ cfg.abilityListCapacity) (h : Guarded cfg l m)
    {env : Env} {info : AbilitySvcInfo} {bundleName : CString}
    (hok : newLoses cfg env m info bundleName = false) :
    Guarded cfg l (preCheckStartAbility cfg env m info bundleName).2 := by
  unfold MultiTasks.preCheckStartAbility
  split
  · exact h
  · next hpath =>
    have hpath' : (info.path.isSome || info.isNativeApp) = true := by
      cases hi : info.isNativeApp <;> cases hs : info.path <;> simp_all
    simp only [newLoses, hpath', Bool.true_and] at hok
    cases hcur : m.abilityList.getByName bundleName with
    | some cur =>
      simp only [hcur] at hok ⊢
      split
      · next hstate =>
        have hp : m.pendingToken ≠ 0 := by simpa [hstate] using hok
        simp only [if_neg hp]
        exact h
      · exact (h.moveToTop cur.token).congr rfl rfl
    | none =>
      simp only [hcur, Bool.or_eq_false_iff] at hok ⊢
      obtain ⟨hroom, herase⟩ := hok
      obtain ⟨token, k, htoken, hgen⟩ : ∃ token k,
          (if m.pendingToken ≠ 0 then (m.pendingToken, m) else generateToken m) =
            (token, { m with nextToken := k }) ∧
          (m.pendingToken = 0 → token = (generateToken m).1) := by
        split
        · next hp => exact ⟨m.pendingToken, m.nextToken, rfl, fun e => absurd e hp⟩
        · exact ⟨_, _, rfl, fun _ => rfl⟩
      obtain ⟨mission, k', hmission⟩ := generateMission_eq { m with nextToken := k } info
      simp only [htoken, hmission]
      obtain ⟨ht, -, hdata⟩ := newRecord_spec info bundleName token mission
      have hmark := newRecord_unmarked info bundleName token mission
      generalize newRecord info bundleName token mission = record at ht hdata hmark ⊢
      subst ht
      have hn : Guarded cfg l { m with nextToken := k, nextMission := k' } := h.congr rfl rfl
      have hadded := hn.add hcap hdata hmark hroom
      obtain ⟨s, hadd⟩ := add_eq cfg { m with nextToken := k, nextMission := k' } record
      have hp' : (({ m with nextToken := k, nextMission := k' } : Manager).add cfg record).pendingToken =
          m.pendingToken := by rw [hadd]
      simp only [hp']
      by_cases hp : m.pendingToken = 0
      · simp only [if_pos hp]
        by_cases hinit : env.initAbilityThread record.token = errOk
        · have hret : (MultiTasks.createAppTask env (({ m with nextToken := k, nextMission := k' } :
              Manager).add cfg record) record (({ m with nextToken := k, nextMission := k' } :
                Manager).takes cfg record.token)).1 = errOk := by
            simp only [MultiTasks.createAppTask, hinit, ne_eq, not_true_eq_false, if_false]
          simp only [hret, ne_eq, not_true_eq_false, if_false]
          exact hadded.createAppTask env record _
        · have hret : (MultiTasks.createAppTask env (({ m with nextToken := k, nextMission := k' } :
              Manager).add cfg record) record (({ m with nextToken := k, nextMission := k' } :
                Manager).takes cfg record.token)).1 ≠ errOk := by
            rw [createAppTask_failed hinit]
            exact hinit
          simp only [if_pos hret]
          refine hn.erase_new hroom hinit fun x hx hxt => ?_
          have hget := get_of_mem h.shape.nodup hx
          rw [hgen hp] at hxt hinit
          rw [hxt] at hget
          simpa [hp, hinit, hget] using herase
      · simp only [if_neg hp]
        exact hadded

/-- A permanent top is not marked unless its bundle is registered as temporary. -/
theorem Guarded.markTop (h : Guarded cfg l m) {env : Env} {top : AbilityRecord}
    (hsame : ∀ r ∈ m.abilityList, r.token = top.token → r.appName = top.appName)
    (hok : isPermanentAbility top → needToBeTerminated env top.appName = false) :
    Guarded cfg l (markTop env m top) := by
  unfold MultiTasks.markTop
  split
  · next htemporary =>
    refine h.modify top.token (fun _ => rfl) (fun _ => rfl) (fun _ hd => hd) fun r hr ht hp => ?_
    rw [isPermanentAbility_congr ht (hsame r hr ht)] at hp
    rw [hok hp] at htemporary
    cases htemporary
  · exact h

/-- The top is a permanent ability whose bundle is registered as a temporary one. -/
def topTemporary (env : Env) (m : Manager) : Bool :=
  m.getTopAbility.any fun top => isPermanentAbility top && needToBeTerminated env top.appName

/-- A new application takes over from the top, and the top or the new record makes the
manager lose a permanent ability. -/
def takeoverLoses (cfg : Config) (env : Env) (m : Manager) (info : AbilitySvcInfo) : Bool :=
  info.bundleName.any fun bundleName =>
    bundleName.bytes.length ≠ 0 && (info.isNativeApp || checkResponse env bundleName) &&
      m.getTopAbility.any (·.appName ≠ bundleName) &&
        (topTemporary env m ||
          newLoses cfg env { (generateToken m).2 with pendingToken := (generateToken m).1 } info
            bundleName)

/-- A start that makes the manager lose a permanent ability. -/
def startLoses (cfg : Config) (env : Env) (m : Manager) (want : Option Want) : Bool :=
  (comesUp cfg env m want && topTemporary env m) ||
    (newApp cfg env m want).any fun app => takeoverLoses cfg env m app.2

/-- Marking a record changes nothing that a new application depends on. -/
theorem newLoses_modify {m' : Manager} (token : UInt16) {f : AbilityRecord → AbilityRecord}
    (ht : ∀ r, (f r).token = r.token) (hn : ∀ r, (f r).appName = r.appName)
    (hs : ∀ r, (f r).state = r.state) (hl : m'.abilityList = m.abilityList.modify token f)
    (hp : m'.pendingToken = m.pendingToken) (hnext : m'.nextToken = m.nextToken) (env : Env)
    (info : AbilitySvcInfo) (bundleName : CString) :
    newLoses cfg env m' info bundleName = newLoses cfg env m info bundleName := by
  have hperm (r : AbilityRecord) : isPermanentAbility (f r) = isPermanentAbility r :=
    isPermanentAbility_congr (ht r) (hn r)
  have hgen : (generateToken m').1 = (generateToken m).1 := by
    simp only [generateToken, hnext]
  have hget : (m'.abilityList.get (generateToken m).1).any isPermanentAbility =
      (m.abilityList.get (generateToken m).1).any isPermanentAbility := by
    rw [hl, get_modify ht]
    cases m.abilityList.get (generateToken m).1 with
    | none => rfl
    | some r =>
      simp only [Option.map_some, Option.any_some]
      split
      · exact hperm r
      · rfl
  have hevict : evictsPermanent cfg.abilityListCapacity m'.abilityList =
      evictsPermanent cfg.abilityListCapacity m.abilityList := by
    rw [hl, evictsPermanent_modify hperm]
  simp only [newLoses, hgen, hget, hevict, hp]
  rw [hl, getByName_modify hn]
  cases m.abilityList.getByName bundleName with
  | none => rfl
  | some r =>
    simp only [Option.map_some]
    split
    · rw [hs r]
    · rfl

theorem markTop_nextToken (env : Env) (m : Manager) (top : AbilityRecord) :
    (MultiTasks.markTop env m top).nextToken = m.nextToken := by
  unfold MultiTasks.markTop
  split <;> rfl

theorem newLoses_marked (env : Env) (top : AbilityRecord) {m n n' : Manager}
    (hl : n.abilityList = m.abilityList) (hl' : n'.abilityList = (MultiTasks.markTop env m top).abilityList)
    (hp : n'.pendingToken = n.pendingToken) (hnext : n'.nextToken = n.nextToken)
    (info : AbilitySvcInfo) (bundleName : CString) :
    newLoses cfg env n' info bundleName = newLoses cfg env n info bundleName := by
  refine newLoses_modify top.token (f := fun r =>
    if needToBeTerminated env top.appName then { r with isTerminated := true } else r) ?_ ?_ ?_ ?_ hp hnext
      env info bundleName
  · intro r
    split <;> rfl
  · intro r
    split <;> rfl
  · intro r
    split <;> rfl
  · rw [hl', hl]
    unfold MultiTasks.markTop
    split
    · rfl
    · simp [AbilityList.modify]

theorem Guarded.startAbilityInfo (hcap : 3 ≤ cfg.abilityListCapacity) (h : Guarded cfg l m)
    {env : Env} {info : AbilitySvcInfo} (hok : takeoverLoses cfg env m info = false) :
    Guarded cfg l (startAbilityInfo cfg env m info).2 := by
  obtain ⟨top, below, hl, -⟩ := h.top
  unfold MultiTasks.startAbilityInfo
  split
  · exact h.locked false
  · next bundleName hbundle =>
    simp only [getTopAbility_cons hl]
    split
    · exact h.locked false
    · next hempty =>
      split
      · exact h
      · next hresponse =>
        split
        · split
          · exact h.createAppTask env top true
          · exact h.locked false
        · next hname =>
          have hresponse' : (info.isNativeApp || checkResponse env bundleName) = true := by
            cases hn : info.isNativeApp <;> cases hc : checkResponse env bundleName <;> simp_all
          simp only [takeoverLoses, hbundle, Option.any_some, ne_eq, hempty, not_false_eq_true,
            decide_true, hresponse', Bool.true_and, getTopAbility_cons hl, Bool.or_eq_false_iff,
            topTemporary, Bool.and_eq_false_imp] at hok
          obtain ⟨htemporary, hnew⟩ := hok (decide_eq_true fun e => hname e.symm)
          have hmarked : Guarded cfg l (MultiTasks.markTop env m top) :=
            h.markTop (fun r hr ht => by rw [eq_top h.shape.nodup hl hr ht]) htemporary
          obtain ⟨sent, hsent⟩ := sendMsgToAbilityThread_eq env (MultiTasks.markTop env m top) .background top
          rw [hsent]
          refine Guarded.preCheckStartAbility hcap ?_ ?_
          · exact hmarked.congr rfl rfl
          · refine Eq.trans ?_ hnew
            have hgen : generateToken { MultiTasks.markTop env m top with sent := sent } =
                ((generateToken m).1, { MultiTasks.markTop env m top with
                  sent := sent, nextToken := (generateToken m).2.nextToken }) := by
              simp only [generateToken, markTop_nextToken]
            rw [hgen]
            refine newLoses_marked (m := m) env top ?_ ?_ ?_ ?_ info bundleName
            all_goals rfl

theorem updateWant_name (want : Want) (r : AbilityRecord) :
    (updateWant want r).appName = r.appName ∧ (updateWant want r).isTerminated = r.isTerminated := by
  unfold updateWant AbilityRecord.setWantData
  split <;> split <;> exact ⟨rfl, rfl⟩

theorem Guarded.startAbility (hcap : 3 ≤ cfg.abilityListCapacity) (h : Guarded cfg l m) {env : Env}
    (hlock : m.isAppScheduling = false) {want : Option Want}
    (hok : startLoses cfg env m want = false) : Guarded cfg l (startAbility cfg env m want).2 := by
  simp only [startLoses, Bool.or_eq_false_iff] at hok
  obtain ⟨hbring, hnew⟩ := hok
  have hcases := startAbility_cases cfg env hlock want
  generalize MultiTasks.startAbility cfg env m want = x at hcases ⊢
  cases hcases with
  | ends ret remote hnone => exact h.congr rfl rfl
  | bringsUp w r top hmem htop hne hup =>
    obtain ⟨below, hl⟩ := List.head?_eq_some_iff.mp htop
    have hupdated := (h.locked true).modify r.token (fun r => (updateWant_keeps w r).1)
      (fun r => (updateWant_name w r).1) (fun r _ => (updateWant_keeps w r).2.2)
      fun r _ _ _ hm => (updateWant_name w r).2.trans hm
    refine ((hupdated.moveToTop r.token).markTop ?_ fun hp => ?_).send env .background top
    · intro x hx hxt
      obtain ⟨y, hy, rfl⟩ := List.mem_map.mp
        (moveToTop_subset cfg _ r.token x hx)
      have hkeep : (if y.token == r.token then updateWant w y else y).token = y.token ∧
          (if y.token == r.token then updateWant w y else y).appName = y.appName := by
        split
        · exact ⟨(updateWant_keeps w y).1, (updateWant_name w y).1⟩
        · exact ⟨rfl, rfl⟩
      exact hkeep.2.trans (congrArg _ (eq_top h.shape.nodup hl hy (hkeep.1.symm.trans hxt)))
    · simpa [hup, topTemporary, getTopAbility_cons hl, hp] using hbring
  | startsNew w bundleName info happ hbundle hname hquery =>
    rw [happ, Option.any_some] at hnew
    exact (h.locked true).startAbilityInfo hcap hnew

end

/-! ## Runs -/

/-- The steps of a run lose no permanent ability when no start and no forced stop does, and
no destroy ends in a launch of one that fails. -/
def permanentCondition (cfg : Config) : Condition where
  operation env m o :=
    (o.msgId = .startAbility → startLoses cfg env m o.want = false) ∧
    (o.msgId = .terminateApp → forceStopLoses env m o.token.toUInt16 = false)
  reply env m token state :=
    state = .uninitialized → launchLoses env (destroyLaunches m token) = false

theorem Guarded.dispatch {cfg : Config} {l : AbilityList} {m : Manager}
    (hcap : 3 ≤ cfg.abilityListCapacity) (h : Guarded cfg l m) {env : Env}
    (hlock : m.isAppScheduling = false) {o : AbilityOperation} (ho : o.WellFormed)
    (hok : (permanentCondition cfg).operation env m o) :
    Guarded cfg l ((operations cfg).dispatch env m o).2 := by
  obtain ⟨hstart, hstop⟩ := hok
  unfold Operations.dispatch
  cases hid : o.msgId with
  | startAbility => exact h.startAbility hcap hlock (hstart hid)
  | terminateAbility => exact h.terminateAbility env _
  | terminateApp => exact h.forceStopBundle hlock (hstop hid)
  | terminateMission =>
    obtain ⟨top, below, hl, -⟩ := h.top
    simp only [operations, terminateMission, hlock, Bool.false_eq_true, if_false, getTopAbility_cons hl]
    exact h.terminateEach env top.token _
  | terminateAppByBundleName =>
    simp only [operations, forceStop, hlock, Bool.false_eq_true, if_false]
    split
    · exact h.locked false
    · split
      · exact h.locked false
      · exact (h.locked true).terminateAbilityWant env _ _
  | terminateAll =>
    obtain ⟨want, hwant⟩ := Option.isSome_iff_exists.mp (ho hid)
    simp only [hwant]
    exact h.terminateAll env hlock _
  | other _ => exact h

theorem Guarded.onBackgroundDone {cfg : Config} {l : AbilityList} {m : Manager} (h : Guarded cfg l m)
    (env : Env) (token : UInt16) : Guarded cfg l (onBackgroundDone env m token) := by
  have hset := h.setAbilityStateAndNotify token .background
  unfold MultiTasks.onBackgroundDone
  simp only
  split
  · exact hset
  · refine Guarded.send ?_ env _ _
    exact hset.modify token (fun _ => rfl) (fun _ => rfl) (fun _ hd => hd) fun _ _ _ _ hm => hm

/-- The invariant over whole runs, whatever the manager finds locked or in flight. -/
theorem guarded_keeps {cfg : Config} (hcap : 3 ≤ cfg.abilityListCapacity) (l : AbilityList) :
    Keeps (multiTasks cfg) (permanentCondition cfg) fun _ m => Guarded cfg l m where
  queue _ h := h.congr rfl rfl
  enter r h := by
    unfold Request.enter
    split <;> exact h.congr rfl rfl
  flag _ h := h.congr rfl rfl
  defers := operations_defers cfg
  operation env m o h hlock hwf ho hok := by
    have hg := h.dispatch hcap hlock ho hok
    exact ⟨dispatch_wellFormed hlock hwf o, fun _ => hg.locked false, fun _ => hg⟩
  answer := by
    intro rs m i msg left _ _ h
    rcases leaveSavedData_eq m msg left with heq | heq
    · rw [heq]
      exact h.congr rfl rfl
    · rw [heq]
      exact (h.modify msg.token (f := fun r =>
        { r with abilitySavedData := r.abilitySavedData.map fun _ => left }) (fun _ => rfl)
          (fun _ => rfl) (fun _ hd => hd) fun _ _ _ _ hm => hm).congr rfl rfl
  foreground env m token h hwf _ :=
    ⟨(h.setAbilityStateAndNotify token .foreground).locked false,
      wellFormed_of_queue hwf (setAbilityStateAndNotify_queue m token _)⟩
  reply envs m token state hstate h hwf hok := by
    refine ⟨?_, schedulerLifecycleDone_wellFormed hstate hwf⟩
    cases state with
    | foreground => exact absurd rfl hstate
    | initial =>
      have hset := h.setAbilityStateAndNotify token .inited
      simp only [schedulerLifecycleDone, multiTasks, onCreateDone, schedulerLifecycle]
      split
      · exact hset
      · exact hset.send (envs 0) _ _
    | background => exact h.onBackgroundDone (envs 0) token
    | uninitialized => exact h.onDestroyDone (hok rfl)
    | unknown => exact h

theorem getByName_nil (bundleName : CString) : AbilityList.getByName [] bundleName = none := rfl

theorem Booted.guarded {cfg : Config} (hcap : 3 ≤ cfg.abilityListCapacity) {s : System}
    (h : Booted cfg s) : Guarded cfg [] s.manager ∧ s.manager.QueueWellFormed := by
  refine ⟨?_, (h.settled hcap).wellFormed⟩
  obtain ⟨-, env, hacc, -, hret, hm⟩ := h
  have hm' : s.manager = (startAbility cfg env {} (some (launcherWant env))).2 := hm
  rw [hm']
  revert hret
  have hlocal : ¬ (cfg.dmsEnabled && Option.any (fun d : CString => d.bytes ≠ []) none) = true := by
    simp
  cases hquery : queryAbilitySvcInfo cfg env env.bms.getStartupBundleName (launcherWant env) with
  | error e =>
    have heq : startAbility cfg env {} (some (launcherWant env)) = (paramCheckError, {}) := by
      simp only [startAbility, Bool.false_eq_true, if_false, show (launcherWant env).element =
        some { bundleName := some env.bms.getStartupBundleName } from rfl, if_neg hlocal, getByName_nil,
        hquery]
    rw [heq]
    exact fun hret => absurd hret (by decide)
  | ok info =>
    have heq : startAbility cfg env {} (some (launcherWant env)) =
        startAbilityInfo cfg env { isAppScheduling := true } { info with
          data := memdup (launcherWant env).data (launcherWant env).dataLength
          dataLength := (launcherWant env).dataLength
          mission := (launcherWant env).mission } := by
      simp only [startAbility, Bool.false_eq_true, if_false, show (launcherWant env).element =
        some { bundleName := some env.bms.getStartupBundleName } from rfl, if_neg hlocal, getByName_nil,
        hquery]
    rw [heq]
    generalize ({ info with
      data := memdup (launcherWant env).data (launcherWant env).dataLength
      dataLength := (launcherWant env).dataLength
      mission := (launcherWant env).mission } : AbilitySvcInfo) = info'
    unfold startAbilityInfo
    split
    · exact fun hret => absurd hret (by decide)
    · next bundleName hbundle =>
      split
      · exact fun hret => absurd hret (by decide)
      · have htop : getTopAbility { isAppScheduling := true } = none := rfl
        simp only [htop]
        split
        · exact fun hret => absurd hret (by decide)
        · rcases preCheckStartAbility_first_eq hcap hacc (m := { isAppScheduling := true }) rfl rfl
            info' bundleName with
            hpre | ⟨record, counter, k, ⟨ht, hmark⟩, -, hdata, hpre | hpre⟩
          · rw [hpre]
            exact fun hret => absurd hret (by decide)
          · rw [hpre]
            refine fun _ => ⟨⟨List.pairwise_singleton _ _, ?_, ?_, rfl⟩, ⟨_, List.mem_singleton_self _, ht⟩, ?_, ?_⟩
            · exact Nat.le_trans (Nat.le_add_left 1 2) hcap
            · exact List.forall_mem_singleton.mpr hdata
            · exact List.forall_mem_singleton.mpr fun _ => hmark
            · exact fun r hr => absurd hr List.not_mem_nil
          · rw [hpre]
            exact fun hret => absurd hret (show createApptaskError ≠ errOk by decide)

/-- In a run of the multi-task build whose steps meet `permanentCondition`, every permanent
ability listed at one time is listed ever after, the list is never empty and no step uses
a record that is missing. -/
theorem multiTasks_permanentSurvives {cfg : Config} (hcap : 3 ≤ cfg.abilityListCapacity)
    {s s' : System}
    (h : Reached (System.next (multiTasks cfg))
      (fun s e => s.meets (multiTasks cfg) (permanentCondition cfg) e) (Booted cfg) s)
    (h' : Reached (System.next (multiTasks cfg))
      (fun s e => s.meets (multiTasks cfg) (permanentCondition cfg) e) (· = s) s') :
    Survives s.manager.abilityList s'.manager.abilityList ∧ s'.manager.abilityList ≠ [] ∧
      s'.manager.fault = false := by
  obtain ⟨hs, hwf⟩ := (guarded_keeps hcap []).reached (fun _ h => h.guarded hcap) h
  have hinit : ∀ x, x = s → Guarded cfg s.manager.abilityList x.manager ∧ x.manager.QueueWellFormed := by
    rintro x rfl
    exact ⟨⟨hs.shape, hs.launcher, hs.unmarked, Survives.refl _⟩, hwf⟩
  obtain ⟨hs', -⟩ := (guarded_keeps hcap s.manager.abilityList).reached hinit h'
  obtain ⟨top, below, hl, -⟩ := hs'.top
  exact ⟨hs'.survives, by simp [hl], hs'.shape.noFault⟩

/-- `permanentCondition`, evaluated. -/
def permanentCheck (cfg : Config) : Check where
  operation m o := decide
    ((o.msgId = .startAbility → startLoses cfg .working m o.want = false) ∧
      (o.msgId = .terminateApp → forceStopLoses .working m o.token.toUInt16 = false))
  reply m token state := decide
    (state = .uninitialized → launchLoses .working (destroyLaunches m token) = false)

theorem permanentCheck_sound (cfg : Config) : (permanentCheck cfg).Sound (permanentCondition cfg) where
  operation _ _ h := by
    simp only [permanentCheck, decide_eq_true_eq] at h
    exact h
  reply _ _ _ h := by
    simp only [permanentCheck, decide_eq_true_eq] at h
    exact h

/-- The launcher is in front, and in the end below the two applications. -/
theorem multiTasks_permanentSurvives_twoStarts :
    ∃ s s', roomySystem.runPasses (multiTasks roomy) (permanentCheck roomy) (answered 2) = some s ∧
      run (System.next (multiTasks roomy)) roomySystem twoStarts = some s' ∧
      s.manager.abilityList.map (·.token) = [0] ∧ s'.manager.abilityList.map (·.token) = [2, 1, 0] ∧
      Survives s.manager.abilityList s'.manager.abilityList ∧ s'.manager.abilityList ≠ [] ∧
      s'.manager.fault = false := by
  have h : (roomySystem.runPasses (multiTasks roomy) (permanentCheck roomy) (answered 2)).map
      (fun s => (s.manager.abilityList.map (·.token),
        (s.runPasses (multiTasks roomy) (permanentCheck roomy) (twoStarts.drop 4)).map
          fun s' => s'.manager.abilityList.map (·.token))) = some ([0], some [2, 1, 0]) := by decide
  obtain ⟨s, hs, h⟩ := Option.map_eq_some_iff.mp h
  rw [Prod.mk.injEq] at h
  obtain ⟨s', hs', htokens⟩ := Option.map_eq_some_iff.mp h.2
  have hsound := permanentCheck_sound roomy
  have hrun : run (System.next (multiTasks roomy)) roomySystem twoStarts = some s' := by
    have hsplit : twoStarts = answered 2 ++ twoStarts.drop 4 := (List.take_append_drop 4 twoStarts).symm
    rw [hsplit, run_append _ _ (run_of_runIf _ hs)]
    exact run_of_runIf _ hs'
  exact ⟨s, s', hs, hrun, h.1, htokens, multiTasks_permanentSurvives (by decide)
    (hsound.reached (answered_works 2) (.init roomySystem_booted) hs)
    (hsound.reached (fun e he => twoStarts_works e (List.mem_of_mem_drop he)) (.init rfl) hs')⟩

/-- A forced stop of the launcher alone takes it off the list, and then uses the top of an
empty list. -/
theorem multiTasks_forceStop_losesLauncher : Booted roomy roomySystem ∧
    ∃ s s', run (System.next (multiTasks roomy)) roomySystem (answered 2) = some s ∧
      System.next (multiTasks roomy) s (.request (.terminateApp 0) fun _ => .working) = some s' ∧
      ¬ Survives s.manager.abilityList s'.manager.abilityList ∧ s'.manager.abilityList = [] ∧
      s'.manager.fault = true := by
  have h : (run (System.next (multiTasks roomy)) roomySystem (answered 2)).map
      (fun s => (s.manager.abilityList.map (·.token),
        (System.next (multiTasks roomy) s (.request (.terminateApp 0) fun _ => .working)).map
          fun s' => (s'.manager.abilityList, s'.manager.fault))) =
      some ([launcherToken], some ([], true)) := by decide
  obtain ⟨s, hs, h⟩ := Option.map_eq_some_iff.mp h
  rw [Prod.mk.injEq] at h
  obtain ⟨htokens, h⟩ := h
  obtain ⟨s', hs', h⟩ := Option.map_eq_some_iff.mp h
  rw [Prod.mk.injEq] at h
  refine ⟨roomySystem_booted, s, s', hs, hs', fun hsurvives => ?_, h.1, h.2⟩
  obtain ⟨r, hr, ht⟩ : ∃ r ∈ s.manager.abilityList, r.token = launcherToken :=
    List.mem_map.mp (htokens ▸ List.mem_cons_self)
  obtain ⟨r', hr', -⟩ := hsurvives r hr (isPermanentAbility_launcher ht)
  rw [h.1] at hr'
  cases hr'

end AbilityLite.Slite.MultiTasks
