import AbilityLite.Ams.Missions
import AbilityLite.Ams.Stopping

/-
  What AMS reads off the ends of its mission lists.

  `std::list::back` and `front` are undefined on an empty list. `reads` gives the sizes of
  the lists a function of `AbilityStackManager` reads an end of, in the state in which it
  is called; `Uses` says which of these functions the handling of a message calls, and
  in which states.

  Correspondence (C++ ↔ Lean):
    `AbilityMissionStack::GetTopPageAbility`, `AbilityMissionRecord::GetTopPageAbility`
                                                        ↔ `topPageReads`
    `GetTopMissionRecord` in `GeneratePageAbility`      ↔ the first entry of `generateReads`
    `GetTopPageAbility`, `MoveMissionRecordToTop` in `GeneratePageAbility`
                                                        ↔ its other entries
    `MoveMissionRecordToTop` in `RemovePageAbility`     ↔ `removeReads`
    `MoveMissionRecordToTop`, `IsTopMissionRecord` in `ClearAbilityStack`
                                                        ↔ `returnReads`
    `GetTopPageAbility` in `GetPrevPageAbility`         ↔ `prevReads`
    `GetBottomPageAbility` in `IsBottomPageAbility`     ↔ `bottomReads`
-/

namespace AbilityLite.Ams
open AbilityMsStatus Fallible Relation

/-- A function that looks at the ends of the mission lists. -/
inductive ListUse where
  | getTopPageAbility
  | generatePageAbility (target : AbilityInfo)
  | removePageAbility (target : Token)
  | returnFrom (bundleName : CString)
  | getPrevPageAbility (current : Token)
  | isBottomPageAbility (t : Token)

namespace AbilityMgr
variable {gen : TokenGenerate} {env : Env} {s s' : AbilityMgr} {t : Token} {id : Nat}
  {st : StackType} {status : AbilityMsStatus} {m : AbilityMissionRecord} {name : CString}
  {target : AbilityInfo} {want : Want} {bundleInfo : BundleInfo}

/-! ## The lists that are read -/

/-- The stack is asked whether it is empty first. -/
def topPageReads (l : List AbilityMissionRecord) : List Nat :=
  match l.getLast? with
  | none => []
  | some m => [l.length, m.pageAbilityRecords.length]

def generateReads (s : AbilityMgr) (target : AbilityInfo) : List Nat :=
  if target.name = none then []
  else
    let l := s.stack (targetStack target.bundleName)
    match s.getTargetMissionRecord (targetStack target.bundleName) target.bundleName with
    | none => [l.length]
    | some m => [l.length, m.pageAbilityRecords.length, l.length]

/-- The stack is read after the mission has been taken off it. -/
def removeReads (s : AbilityMgr) (t : Token) : List Nat :=
  match (s.records t).bind (·.missionRecord) with
  | none => []
  | some id =>
    match s.mission id with
    | .error _ => []
    | .ok m =>
      if (splitAt t m.pageAbilityRecords).1 = [] ∧ m.prevMissionRecord ≠ none then
        [((s.removeMissionRecord m.abilityMissionStack id).stack m.abilityMissionStack).length]
      else []

def returnReads (s : AbilityMgr) (bundleName : CString) : List Nat :=
  let st := targetStack (some bundleName)
  match s.getTargetMissionRecord st (some bundleName) with
  | none => []
  | some m =>
    match m.prevMissionRecord with
    | some _ => [(s.stack st).length]
    | none => s.topMissionStacks.toList.map fun top => (s.stack top).length

def prevReads (s : AbilityMgr) (t : Token) : List Nat :=
  match (s.records t).bind (·.missionRecord) with
  | none => topPageReads s.launcherMissionStacks
  | some id =>
    match s.mission id with
    | .error _ => []
    | .ok m =>
      if (m.getPrevPageAbility t).isSome then []
      else match m.prevMissionRecord with
        | none => topPageReads s.launcherMissionStacks
        | some prev =>
          match s.mission prev with
          | .error _ => []
          | .ok m => [m.pageAbilityRecords.length]

def bottomReads (s : AbilityMgr) (t : Token) : List Nat :=
  match (s.records t).bind (·.missionRecord) with
  | none => []
  | some id =>
    match s.mission id with
    | .error _ => []
    | .ok m => [m.pageAbilityRecords.length]

/-- The sizes of the lists a function reads an end of. -/
def reads (s : AbilityMgr) : ListUse → List Nat
  | .getTopPageAbility => s.topMissionStacks.toList.flatMap fun st => topPageReads (s.stack st)
  | .generatePageAbility target => s.generateReads target
  | .removePageAbility t => s.removeReads t
  | .returnFrom bundleName => s.returnReads bundleName
  | .getPrevPageAbility t => s.prevReads t
  | .isBottomPageAbility t => s.bottomReads t

/-- A page is brought up on a stack that has a mission, and a bundle whose mission goes back to none
is cleared away while the stack on top has a mission. -/
def Stocked (s : AbilityMgr) : ListUse → Prop
  | .generatePageAbility target =>
    target.name.isSome → s.stack (targetStack target.bundleName) ≠ []
  | .returnFrom bundleName =>
    ∀ m, s.getTargetMissionRecord (targetStack (some bundleName)) (some bundleName) = some m →
      m.prevMissionRecord = none → ∀ top, s.topMissionStacks = some top → s.stack top ≠ []
  | _ => True

/-- If a page is the bottom of a mission that goes back to another, its stack has another mission. -/
def Removable (s : AbilityMgr) (t : Token) : Prop :=
  ∀ r m, s.records t = some r → m ∈ s.allMissions → r.missionRecord = some m.id →
    m.prevMissionRecord ≠ none → ∃ m' ∈ s.stack m.abilityMissionStack, m'.id ≠ m.id

/-! ## Which of them can be empty -/

/-- No list that is read is empty. -/
def NoneEmpty (l : List Nat) : Prop := ∀ n ∈ l, 0 < n

@[simp] theorem noneEmpty_nil : NoneEmpty [] := fun _ hn => by cases hn

@[simp] theorem noneEmpty_cons {n : Nat} {l : List Nat} : NoneEmpty (n :: l) ↔ 0 < n ∧ NoneEmpty l :=
  List.forall_mem_cons

theorem Shape.pages_pos (h : s.Shape) (hm : m ∈ s.allMissions) : 0 < m.pageAbilityRecords.length :=
  List.length_pos_of_ne_nil (h.missions m hm).nonempty

theorem noneEmpty_topPage (h : s.Shape) (st : StackType) : NoneEmpty (topPageReads (s.stack st)) := by
  unfold topPageReads
  split
  · exact noneEmpty_nil
  · next m hm =>
    have hmem := List.mem_of_getLast? hm
    rw [noneEmpty_cons, noneEmpty_cons]
    exact ⟨List.length_pos_of_mem hmem, h.pages_pos (mem_all_of_stack hmem), noneEmpty_nil⟩

theorem noneEmpty_generate (h : s.Shape) :
    NoneEmpty (s.generateReads target) ↔ s.Stocked (.generatePageAbility target) := by
  unfold generateReads Stocked
  dsimp only
  split
  · next hname =>
    rw [hname]
    exact iff_of_true noneEmpty_nil fun hsome => by cases hsome
  · next hname =>
    rw [imp_iff_right (Option.isSome_iff_ne_none.mpr hname), ← List.length_pos_iff_ne_nil]
    split
    · rw [noneEmpty_cons, and_iff_left noneEmpty_nil]
    · next m hm =>
      have hpages := h.pages_pos (mem_all_of_stack (getTargetMissionRecord_mem hm).1)
      rw [noneEmpty_cons, noneEmpty_cons, noneEmpty_cons]
      exact ⟨fun hl => hl.1, fun hl => ⟨hl, hpages, hl, noneEmpty_nil⟩⟩

theorem noneEmpty_remove (hremove : s.Removable t) : NoneEmpty (s.removeReads t) := by
  unfold removeReads
  split
  · exact noneEmpty_nil
  · next id hid =>
    obtain ⟨r, hr, hrid⟩ := Option.bind_eq_some_iff.mp hid
    split
    · exact noneEmpty_nil
    · next m hm =>
      obtain ⟨hmem, rfl⟩ := mission_eq_ok hm
      split
      · next hlast =>
        obtain ⟨m', hm', hne⟩ := hremove r m hr hmem hrid hlast.2
        obtain ⟨m₁, hm₁, -⟩ := stays_dropMission m.abilityMissionStack hm' hne
        rw [stack_dropMission] at hm₁
        rw [noneEmpty_cons]
        exact ⟨List.length_pos_of_mem hm₁, noneEmpty_nil⟩
      · exact noneEmpty_nil

theorem noneEmpty_return :
    NoneEmpty (s.returnReads name) ↔ s.Stocked (.returnFrom name) := by
  unfold returnReads Stocked
  dsimp only
  split
  · next hnone =>
    exact iff_of_true noneEmpty_nil fun m hm => by rw [hnone] at hm; cases hm
  · next m hm =>
    split
    · next prev hprev =>
      refine iff_of_true ?_ fun m' hm' hnone => ?_
      · rw [noneEmpty_cons]
        exact ⟨List.length_pos_of_mem (getTargetMissionRecord_mem hm).1, noneEmpty_nil⟩
      · rw [hm] at hm'
        cases hm'
        rw [hprev] at hnone
        cases hnone
    · next hprev =>
      constructor
      · intro hpos m' _ _ top htop
        rw [htop] at hpos
        exact List.length_pos_iff_ne_nil.mp (hpos _ List.mem_cons_self)
      · intro hstock n hn
        obtain ⟨top, htop, rfl⟩ := List.mem_map.mp hn
        exact List.length_pos_iff_ne_nil.mpr (hstock m hm hprev top (Option.mem_toList.mp htop))

theorem noneEmpty_prev (h : s.Shape) : NoneEmpty (s.prevReads t) := by
  unfold prevReads
  split
  · exact noneEmpty_topPage h .launcher
  · split
    · exact noneEmpty_nil
    · split
      · exact noneEmpty_nil
      · split
        · exact noneEmpty_topPage h .launcher
        · split
          · exact noneEmpty_nil
          · next m hm =>
            rw [noneEmpty_cons]
            exact ⟨h.pages_pos (mission_eq_ok hm).1, noneEmpty_nil⟩

theorem noneEmpty_bottom (h : s.Shape) : NoneEmpty (s.bottomReads t) := by
  unfold bottomReads
  split
  · exact noneEmpty_nil
  · split
    · exact noneEmpty_nil
    · next m hm =>
      rw [noneEmpty_cons]
      exact ⟨h.pages_pos (mission_eq_ok hm).1, noneEmpty_nil⟩

/-- A function reads no empty list exactly when the stacks it needs are stocked. -/
theorem reads_iff {use : ListUse} (h : s.Shape) (hremove : ∀ t, use = .removePageAbility t → s.Removable t) :
    NoneEmpty (s.reads use) ↔ s.Stocked use := by
  cases use with
  | getTopPageAbility =>
    refine iff_of_true (fun n hn => ?_) trivial
    obtain ⟨st, -, hn⟩ := List.mem_flatMap.mp hn
    exact noneEmpty_topPage h st n hn
  | generatePageAbility target => exact noneEmpty_generate h
  | removePageAbility t => exact iff_of_true (noneEmpty_remove (hremove t rfl)) trivial
  | returnFrom name => exact noneEmpty_return
  | getPrevPageAbility t => exact iff_of_true (noneEmpty_prev h) trivial
  | isBottomPageAbility t => exact iff_of_true (noneEmpty_bottom h) trivial

/-! ## The calls the handling of a message makes -/

/-- The calls of the page part of `AbilityStartTask::Execute`. -/
inductive StartPageUses (gen : TokenGenerate) (env : Env) (want : Want) (target : AbilityInfo)
    (bundleInfo : BundleInfo) (s : AbilityMgr) : AbilityMgr → ListUse → Prop
  | top : StartPageUses gen env want target bundleInfo s s .getTopPageAbility
  | generate : StartPageUses gen env want target bundleInfo s s (.generatePageAbility target)
  /-- The page on top does not give way. -/
  | stays {t p : Token} {s₁ s₂ : AbilityMgr} {status : AbilityMsStatus}
      (hgen : s.generatePageAbility gen target want s.getTopPageAbility = .ok (some t, s₁))
      (htop : s.getTopPageAbility = some p) (hne : p ≠ t)
      (h : (s₁.modify t (·.setBundleInfo bundleInfo)).inactiveAbility env p = .ok (status, s₂))
      (hfail : status.isOk = false) :
      StartPageUses gen env want target bundleInfo s s₂ (.removePageAbility t)
  /-- The page does not start. -/
  | fails {t : Token} {s₁ s₂ : AbilityMgr} {status : AbilityMsStatus}
      (hgen : s.generatePageAbility gen target want s.getTopPageAbility = .ok (some t, s₁))
      (htop : s.getTopPageAbility = none)
      (h : (s₁.modify t (·.setBundleInfo bundleInfo)).startAbility gen env t = .ok (status, s₂))
      (hundo : undoes status) :
      StartPageUses gen env want target bundleInfo s s₂ (.removePageAbility t)

/-- The calls of `AbilityMgrHandler::StartAbility`. -/
inductive StartUses (gen : TokenGenerate) (env : Env) (want : Want) (callingUid : Int) (s : AbilityMgr) :
    AbilityMgr → ListUse → Prop
  | page {x : AbilityMgr} {use : ListUse} {e : ElementName} {bundleInfo : BundleInfo} {target : AbilityInfo}
      (helement : want.element = some e) (hbundle : env.queryBundleInfo e.bundleName = some bundleInfo)
      (htarget : env.queryAbilityInfo want = some target)
      (hvisible : checkVisiblePermission env callingUid bundleInfo.uid target.isVisible = true)
      (hpage : target.abilityType ≠ .service)
      (h : StartPageUses gen env want target bundleInfo s x use) : StartUses gen env want callingUid s x use

/-- The calls of `AbilityInactivateTask` and `AbilityStopTask`. -/
inductive TransactionUses (env : Env) (s : AbilityMgr) : TransactionState → AbilityMgr → ListUse → Prop
  | back {t : Token} {r : PageAbilityRecord} (hl : s.Listed t) (hr : s.records t = some r)
      (hpage : r.isService = false) (hnext : r.nextPageAbility = none) :
      TransactionUses env s ⟨t, .inactive⟩ (s.modify t (·.setCurrentState .inactive))
        (.getPrevPageAbility t)
  | bottom {t : Token} {r : PageAbilityRecord} (hl : s.Listed t) (hr : s.records t = some r)
      (hpage : r.isService = false) :
      TransactionUses env s ⟨t, .initial⟩ (s.modify t (·.setCurrentState .initial))
        (.isBottomPageAbility t)
  | remove {t : Token} {r : PageAbilityRecord} {bottom : Option Token} {s₁ : AbilityMgr}
      (hl : s.Listed t) (hr : s.records t = some r) (hpage : r.isService = false)
      (hbottom : (s.modify t (·.setCurrentState .initial)).bottomOf r = .ok bottom)
      (h : ExitsIf (bottom = some t ∧
        (s.modify t (·.setCurrentState .initial)).countServiceInApp r.abilityInfo.bundleName = 0)
        env t (s.modify t (·.setCurrentState .initial)) s₁) :
      TransactionUses env s ⟨t, .initial⟩ s₁ (.removePageAbility t)

/-- The calls of a task that clears a bundle away. -/
inductive ClearUses (env : Env) (bundleName : CString) (s : AbilityMgr) : AbilityMgr → ListUse → Prop
  | returnFrom {s₁ : AbilityMgr} (h : removeServiceRecords env bundleName s.serviceRecords s = .ok s₁) :
      ClearUses env bundleName s s₁ (.returnFrom bundleName)
  | top {s₁ : AbilityMgr} (h : s.clearAbilityStack env bundleName = .ok s₁) :
      ClearUses env bundleName s (s₁.removeAppRecordByName (some bundleName)) .getTopPageAbility

/-- The calls AMS makes while it handles a request. -/
inductive RequestUses (gen : TokenGenerate) (env : Env) (s : AbilityMgr) :
    Event → AbilityMgr → ListUse → Prop
  | start {want : Want} {callingUid : Int} {x : AbilityMgr} {use : ListUse}
      (h : StartUses gen env want callingUid s x use) :
      RequestUses gen env s (.startAbility want callingUid) x use
  /-- A connect starts what is not there, whatever its type. -/
  | connect {want : Want} {sid : SvcIdentity} {token : Token} {callingUid : Int} {e : ElementName}
      {x : AbilityMgr} {use : ListUse} (helement : want.element = some e)
      (hnone : s.findServiceRecordByName e.bundleName e.abilityName = none)
      (h : StartUses gen env want callingUid s x use) :
      RequestUses gen env s (.connectAbility want sid token callingUid) x use
  | terminateApp {bundleName : CString} {status : AbilityMsStatus} {s₁ x : AbilityMgr} {use : ListUse}
      (hexit : s.terminateAppProcess env (some bundleName) = .ok (status, s₁)) (hok : status.isOk = true)
      (h : ClearUses env bundleName s₁ x use) :
      RequestUses gen env s (.terminateApp bundleName) x use
  | restartApp {bundleName name : CString} {bundleInfo : BundleInfo} {x : AbilityMgr} {use : ListUse}
      (hbundle : env.queryBundleInfo (some bundleName) = some bundleInfo)
      (hname : bundleInfo.bundleName = some name) (h : ClearUses env name s x use) :
      RequestUses gen env s (.restartApp bundleName) x use
  /-- No application is left, and the launcher starts. -/
  | restartLauncher {bundleName : CString} {bundleInfo : BundleInfo} {status : AbilityMsStatus}
      {s₁ x : AbilityMgr} {use : ListUse} (hbundle : env.queryBundleInfo (some bundleName) = some bundleInfo)
      (hrestart : s.appRestartTask env bundleInfo = .ok (status, s₁))
      (hno : status.isNoActiveAbility = true) (h : StartUses gen env launcherWant systemUid s₁ x use) :
      RequestUses gen env s (.restartApp bundleName) x use
  /-- The application is kept alive. -/
  | restartKeepAlive {bundleName : CString} {bundleInfo : BundleInfo} {status : AbilityMsStatus}
      {s₁ s₂ x : AbilityMgr} {want : Want} {use : ListUse}
      (hbundle : env.queryBundleInfo (some bundleName) = some bundleInfo)
      (hrestart : s.appRestartTask env bundleInfo = .ok (status, s₁))
      (hlauncher : (status.isNoActiveAbility = false ∧ s₂ = s₁) ∨
        (status.isNoActiveAbility = true ∧ s₁.startLauncher gen env = .ok s₂))
      (hkeep : isLauncherAbility bundleInfo.bundleName = false ∧ bundleInfo.isSystemApp = true ∧
        bundleInfo.isKeepAlive = true) (hwant : keepAliveWant bundleInfo = some want)
      (h : StartUses gen env want systemUid s₂ x use) : RequestUses gen env s (.restartApp bundleName) x use

/-- The calls AMS makes while it handles a reply. -/
inductive ReplyUses (gen : TokenGenerate) (env : Env) (s : AbilityMgr) : Reply → AbilityMgr → ListUse → Prop
  | lifecycle {state : TransactionState} {x : AbilityMgr} {use : ListUse}
      (h : TransactionUses env s state x use) : ReplyUses gen env s (.lifecycleDone state) x use
  | launcher {state : TransactionState} {status : AbilityMsStatus} {s₁ x : AbilityMgr} {use : ListUse}
      (hdone : s.workerAbilityTransaction gen env state = .ok (status, s₁))
      (hno : status.isNoActiveAbility = true) (h : StartUses gen env launcherWant systemUid s₁ x use) :
      ReplyUses gen env s (.lifecycleDone state) x use

/-! ## Missions go back to missions of their stack -/

/-- Every mission of a stack that goes back goes back to another one of it. -/
def BackLinked (s : AbilityMgr) : Prop := ∀ st, Ams.Linked (s.stack st)

namespace BackLinked

theorem of_stack (h : BackLinked s) (hstack : ∀ st, s'.stack st = s.stack st) : BackLinked s' :=
  fun st => by rw [hstack]; exact h st

theorem perm (h : BackLinked s) (hstack : ∀ st, (s'.stack st).Perm (s.stack st)) : BackLinked s' :=
  fun st => (h st).perm (hstack st)

theorem moveMissionRecordToTop (h : BackLinked s) (hs : s.Shape)
    (hmove : s.moveMissionRecordToTop st id = .ok s') : BackLinked s' := by
  obtain ⟨l, hl, rfl⟩ := moveMissionRecordToTop_cases hmove
  obtain ⟨hperm, -⟩ := moveToTop_ok hl (hs.stack_ids st)
  refine h.perm fun st' => ?_
  by_cases he : st' = st
  · subst he
    rw [stack_setStack_same]
    exact hperm
  · rw [stack_setStack_ne l he]

theorem dropMission (h : BackLinked s) : BackLinked (s.dropMission st id) := linked_dropMission h

theorem setTop (h : BackLinked s) (top : Option StackType) : BackLinked { s with topMissionStacks := top } :=
  h.of_stack fun _ => stack_setTop top

theorem removePageAbility (h : BackLinked s) (hs : s.Shape) (hr : s.removePageAbility t = .ok s') :
    BackLinked s' := by
  obtain ⟨r, -, ⟨-, rfl⟩ | ⟨m, hm, -, below, above, -, ⟨-, hgone⟩ | ⟨-, s₁, hreturn, hgone⟩⟩⟩ :=
    removePageAbility_cases hs hr
  · exact h
  · have hupdate : BackLinked (s.modifyMission m.id (·.setPages below)) := by
      intro st
      rw [stack_modifyMission]
      refine (h st).update (stays_setPages below) fun m₀ hm₀ hid prev hprev => ?_
      rw [← hid]
      exact h st m₀ hm₀ prev hprev
    exact hupdate.of_stack hgone.toSameLists.stack
  · have hreturned : BackLinked s₁ := by
      cases hreturn with
      | home => exact h.dropMission.setTop _
      | back prev _ hmove => exact h.dropMission.moveMissionRecordToTop hs.dropMission hmove
    exact hreturned.of_stack hgone.toSameLists.stack

theorem returnFrom (h : BackLinked s) (hs : s.Shape) (hr : s.returnFrom name = .ok s') : BackLinked s' := by
  rcases returnFrom_cases hr with rfl | rfl | ⟨_, _, _, _, hmove⟩
  · exact h
  · exact h.setTop _
  · exact h.moveMissionRecordToTop hs hmove

theorem clearAbilityStack (h : BackLinked s) (hs : s.Shape) (hc : s.clearAbilityStack env name = .ok s') :
    BackLinked s' := by
  obtain ⟨s₁, s₂, h₁, h₂, hc⟩ := clearAbilityStack_cases hc
  have hshape₁ := hs.removeServiceRecords h₁
  have hlinked₁ : BackLinked s₁ := h.of_stack (removeServiceRecords_apart h₁).1.stack
  have hlinked₂ := hlinked₁.returnFrom hshape₁ h₂
  obtain ⟨-, rfl⟩ | ⟨m, -, -, -, hgone, -⟩ := removeMissionRecordByName_cases (hshape₁.returnFrom h₂) hc
  · exact hlinked₂
  · exact hlinked₂.dropMission.of_stack hgone.toSameLists.stack

theorem pushTopMissionRecord (h : BackLinked s) (hm : m.prevMissionRecord = none) :
    BackLinked (s.pushTopMissionRecord m) := by
  unfold AbilityMgr.pushTopMissionRecord
  dsimp only
  split
  · exact h.of_stack fun st => by cases st <;> rfl
  · intro st
    by_cases he : st = m.abilityMissionStack
    · rw [he, stack_setStack_same]
      exact (h _).concat hm
    · rw [stack_setStack_ne _ he]
      exact h st

end BackLinked

/-- A full stack is not empty either. -/
theorem stack_pushTopMissionRecord_ne : (s.pushTopMissionRecord m).stack m.abilityMissionStack ≠ [] := by
  unfold pushTopMissionRecord
  dsimp only
  split
  · next hfull =>
    intro hnil
    have hnil' : s.stack m.abilityMissionStack = [] := by
      rw [← hnil]
      cases m.abilityMissionStack <;> rfl
    rw [hnil'] at hfull
    exact absurd hfull (by decide)
  · rw [stack_setStack_same]
    exact List.append_ne_nil_of_right_ne_nil _ (List.cons_ne_nil _ _)

theorem mem_stack_pushTopMissionRecord {m' : AbilityMissionRecord} (hm : m' ∈ s.stack st) :
    m' ∈ (s.pushTopMissionRecord m).stack st := by
  unfold pushTopMissionRecord
  dsimp only
  split
  · cases st <;> exact hm
  · by_cases he : st = m.abilityMissionStack
    · subst he
      rw [stack_setStack_same]
      exact List.mem_append_left _ hm
    · rw [stack_setStack_ne _ he]
      exact hm

/-- The mission with the page that is brought up is one of a stack that has a mission. -/
structure Found (s s' : AbilityMgr) (st : StackType) (page : Option Token) (id : Nat) : Prop where
  linked : BackLinked s'
  mission : ∃ m ∈ s'.allMissions, m.id = id ∧ m.abilityMissionStack = st
  stocked : s'.stack st ≠ []
  page : ∀ t, page = some t → ∃ r, s'.records t = some r ∧ r.missionRecord = some id
  others : ∀ m ∈ s.stack st, ∃ m' ∈ s'.stack st, m'.id = m.id

theorem BackLinked.finds {top : Option PageAbilityRecord} {page : Option Token} (h : BackLinked s)
    (hs : s.Shape) (hfresh : s.records (gen.generate s.generated) = none)
    (hpage : target.abilityType ≠ .service)
    (hf : Finds gen target want top (targetStack target.bundleName) s page id s') :
    Found s s' (targetStack target.bundleName) page id := by
  cases hf with
  | @mission t id s' hnone hnew =>
    obtain ⟨hlists, r, hr, hid, -⟩ := newMission_lists hnew
    have hstack := stack_of_lists hlists
    obtain ⟨-, rfl, -⟩ := newMission_cases hnew
    refine ⟨(h.pushTopMissionRecord rfl).of_stack hstack,
      ⟨s.newMissionRecord target (targetStack target.bundleName) t, ?_, rfl, rfl⟩, ?_,
      fun p hp => (by cases hp; exact ⟨r, hr, hid⟩), fun m hm => ⟨m, ?_, rfl⟩⟩
    · rw [allMissions_of_lists hlists]
      exact mem_pushTopMissionRecord
    · rw [hstack]
      exact stack_pushTopMissionRecord_ne
    · rw [hstack]
      exact mem_stack_pushTopMissionRecord hm
  | @page m s' hm hsame hmove =>
    obtain ⟨hmem, -⟩ := getTargetMissionRecord_mem hm
    obtain ⟨hlast, hkeep⟩ := moveMissionRecordToTop_last hs hmem hmove
    refine ⟨h.moveMissionRecordToTop hs hmove, ⟨m, mem_all_of_stack (hkeep m hmem), rfl, hs.listed _ m hmem⟩,
      List.ne_nil_of_mem (hkeep m hmem), fun t ht => ?_, fun m₀ hm₀ => ⟨m₀, hkeep m₀ hm₀, rfl⟩⟩
    obtain ⟨r, hr, hid, -⟩ := (hs.missions m (mem_all_of_stack hmem)).placed t (List.mem_of_getLast? ht)
    obtain ⟨l, -, rfl⟩ := moveMissionRecordToTop_cases hmove
    exact ⟨r, by rw [records_setStack]; exact hr, hid⟩
  | @newPage m t s₁ s' hm hswitch hnew hmove =>
    obtain ⟨hmem, hmname, -⟩ := getTargetMissionRecord_mem hm
    have hshape₁ : s₁.Shape := hs.newPage hfresh (mem_all_of_stack hmem) hmname hpage hnew
    obtain ⟨-, hlists, -, ⟨r, hr, hid⟩, -⟩ := newPage_lists hnew
    have hstack (st : StackType) : s₁.stack st = updateMission m.id (·.pushPageAbility t) (s.stack st) := by
      rw [stack_of_lists hlists, stack_modifyMission]
    have hlinked₁ : BackLinked s₁ := by
      intro st
      rw [hstack]
      refine (h st).update (stays_pushPageAbility _) fun m₀ hm₀ hid prev hprev => ?_
      rw [pushPageAbility_prev] at hprev
      rw [← hid]
      exact h st m₀ hm₀ prev hprev
    have hpushed : m.pushPageAbility t ∈ s₁.stack (targetStack target.bundleName) := by
      rw [hstack]
      exact List.mem_map.mpr ⟨m, hmem, if_pos rfl⟩
    have hpid : (m.pushPageAbility t).id = m.id := (stays_pushPageAbility t).id m
    rw [← hpid] at hmove
    obtain ⟨hlast, hkeep⟩ := moveMissionRecordToTop_last hshape₁ hpushed hmove
    refine ⟨hlinked₁.moveMissionRecordToTop hshape₁ hmove,
      ⟨_, mem_all_of_stack (hkeep _ hpushed), hpid, hshape₁.listed _ _ hpushed⟩,
      List.ne_nil_of_mem (hkeep _ hpushed), fun p hp => ?_, fun m₀ hm₀ => ?_⟩
    · cases hp
      obtain ⟨l, -, rfl⟩ := moveMissionRecordToTop_cases hmove
      exact ⟨r, by rw [records_setStack]; exact hr, hid⟩
    · have hmem₀ : m₀.id ∈ (s₁.stack (targetStack target.bundleName)).map (·.id) := by
        rw [hstack, updateMission_ids (stays_pushPageAbility t)]
        exact List.mem_map.mpr ⟨m₀, hm₀, rfl⟩
      obtain ⟨m', hm', hid'⟩ := List.mem_map.mp hmem₀
      exact ⟨m', hkeep m' hm', hid'⟩

/-- The mission goes back to the one that was on top. -/
theorem Found.link {page : Option Token} (h : Found s s' st page id) (hs : s'.Shape) (hm : m ∈ s.stack st)
    (hne : id ≠ m.id) : Found s (s'.link id m) st page id := by
  have hstack (st' : StackType) : (s'.link id m).stack st' =
      updateMission id (·.setPrevMissionRecord (some m.id)) (s'.stack st') := stack_modifyMission _
  obtain ⟨m₁, hm₁, hid₁, hst₁⟩ := h.mission
  refine ⟨fun st' => ?_, ⟨m₁.setPrevMissionRecord (some m.id), ?_, hid₁, hst₁⟩, ?_, h.page, fun m₀ hm₀ => ?_⟩
  · rw [hstack]
    refine (h.linked st').update (stays_setPrevMissionRecord _) fun m₀ hm₀ hid prev hprev => ?_
    cases hprev
    have hmm : m₀ = m₁ := Keyed.eq_of_key_eq hs.ids (mem_all_of_stack hm₀) hm₁ (hid.trans hid₁.symm)
    have hst : st' = st := by rw [← hs.listed st' m₀ hm₀, hmm, hst₁]
    subst hst
    exact ⟨fun he => hne he.symm, h.others m hm⟩
  · unfold AbilityMgr.link
    rw [allMissions_modifyMission]
    exact List.mem_map.mpr ⟨m₁, hm₁, if_pos hid₁⟩
  · rw [hstack]
    unfold updateMission
    rw [ne_eq, List.map_eq_nil_iff]
    exact h.stocked
  · obtain ⟨m', hm', hid'⟩ := h.others m₀ hm₀
    have hmem : m₀.id ∈ ((s'.link id m).stack st).map (·.id) := by
      rw [hstack, updateMission_ids (stays_setPrevMissionRecord _)]
      exact List.mem_map.mpr ⟨m', hm', hid'⟩
    exact List.mem_map.mp hmem

/-- A mission of a stack that has a mission, listed or not, goes back to nothing or is not alone. -/
theorem BackLinked.removable (h : BackLinked s) (hs : s.Shape) {r : PageAbilityRecord}
    (hr : s.records t = some r) (hid : r.missionRecord = some id) (hm : ∃ m ∈ s.allMissions, m.id = id ∧
      m.abilityMissionStack = st) (hstock : s.stack st ≠ []) : s.Removable t := by
  intro r' m' hr' hm' hid' hprev
  rw [hr] at hr'
  cases hr'
  obtain ⟨m, hm, hmid, hmst⟩ := hm
  have hmm : m' = m := Keyed.eq_of_key_eq hs.ids hm' hm
    ((Option.some.inj (hid'.symm.trans hid)).trans hmid.symm)
  subst hmm
  subst hmst
  by_cases hlisted : m' ∈ s.stack m'.abilityMissionStack
  · obtain ⟨prev, hprev⟩ := Option.ne_none_iff_exists'.mp hprev
    obtain ⟨hne, m₁, hm₁, hid₁⟩ := h _ m' hlisted prev hprev
    exact ⟨m₁, hm₁, hid₁ ▸ hne⟩
  · obtain ⟨m₁, hm₁⟩ := List.exists_mem_of_ne_nil _ hstock
    refine ⟨m₁, hm₁, fun he => hlisted ?_⟩
    rw [Keyed.eq_of_key_eq hs.ids (mem_all_of_stack hm₁) hm' he] at hm₁
    exact hm₁

theorem Kept.removable (h : Kept s s') (hs : s.Removable t) : s'.Removable t := by
  intro r' m hr' hm hid hprev
  have hp := h.places t
  rw [hr', Option.map_some, eq_comm, Option.map_eq_some_iff] at hp
  obtain ⟨r, hr, hplace⟩ := hp
  rw [h.toSameLists.allMissions] at hm
  rw [h.toSameLists.stack]
  exact hs r m hr hm ((congrArg Prod.fst hplace).trans hid) hprev

theorem BackLinked.generatePageAbility {topAbility page : Option Token} (h : BackLinked s) (hs : s.Shape)
    (hfresh : s.records (gen.generate s.generated) = none) (hpage : target.abilityType ≠ .service)
    (hgen : s.generatePageAbility gen target want topAbility = .ok (page, s')) :
    BackLinked s' ∧ ∀ t, page = some t → s'.Removable t := by
  have hshape := hs.generatePageAbility hfresh hpage hgen
  obtain ⟨-, rfl, rfl⟩ | ⟨-, id, s₁, s₂, hf, hlink, rfl⟩ := generatePageAbility_cases hgen
  · exact ⟨h, fun t ht => by cases ht⟩
  · have hshape₁ := hf.shape hs hfresh hpage
    have hfound := h.finds hs hfresh hpage hf
    have hfound₂ : Found s s₂ (targetStack target.bundleName) page id := by
      rcases hlink with ⟨rfl, -⟩ | ⟨m, hm, -, hne, rfl⟩
      · exact hfound
      · exact hfound.link hshape₁ (getTopMissionRecord_mem hm) hne
    refine ⟨hfound₂.linked.setTop _, fun t ht => ?_⟩
    obtain ⟨r, hr, hid⟩ := hfound₂.page t ht
    refine (hfound₂.linked.setTop _).removable hshape hr hid hfound₂.mission ?_
    rw [stack_setTop]
    exact hfound₂.stocked

/-! ## Between two messages -/

/-- The lists have their shape, and missions go back to missions of their stack. -/
structure Ready (gen : TokenGenerate) (s : AbilityMgr) : Prop extends Sound gen s where
  linked : BackLinked s

namespace Ready
variable {t : Token}

theorem of_stack (h : Ready gen s) (hg : Goes gen env s s') (hstack : ∀ st, s'.stack st = s.stack st) :
    Ready gen s' := ⟨h.toSound.goes hg, h.linked.of_stack hstack⟩

theorem still (h : Ready gen s) (hs : Still gen env s s') : Ready gen s' :=
  h.of_stack (h.toSound.still hs) hs.kept.stack

theorem generatePageAbility {topAbility page : Option Token} (h : Ready gen s) (env : Env)
    (hpage : target.abilityType ≠ .service)
    (hgen : s.generatePageAbility gen target want topAbility = .ok (page, s')) :
    Ready gen s' ∧ ∀ t, page = some t → s'.Removable t := by
  obtain ⟨hlinked, hremovable⟩ := h.linked.generatePageAbility h.shape h.known.fresh hpage hgen
  have hgoes : Goes gen env s s' := h.toSound.generatePageAbility hpage hgen
  exact ⟨⟨h.toSound.goes hgoes, hlinked⟩, hremovable⟩

theorem removePageAbility (h : Ready gen s) (env : Env) (hs : s.removePageAbility t = .ok s') :
    Ready gen s' := by
  have hgoes : Goes gen env s s' := (Sound.refl h.toSound).removePageAbility hs
  exact ⟨h.toSound.goes hgoes, h.linked.removePageAbility h.shape hs⟩

/-- The state in which a page that was brought up is started, or the one on top asked to give way. -/
theorem brought {topAbility : Option Token} (h : Ready gen s) (env : Env)
    (hpage : target.abilityType ≠ .service)
    (hgen : s.generatePageAbility gen target want topAbility = .ok (some t, s')) :
    Ready gen (s'.modify t (·.setBundleInfo bundleInfo)) ∧
      (s'.modify t (·.setBundleInfo bundleInfo)).Removable t := by
  obtain ⟨hready, hremovable⟩ := h.generatePageAbility env hpage hgen
  have hset : Still gen env s' (s'.modify t (·.setBundleInfo bundleInfo)) :=
    .edit fun r => mild_setBundleInfo r _
  exact ⟨hready.still hset, hset.kept.removable (hremovable t rfl)⟩

theorem startPageTask (h : Ready gen s) (hpage : target.abilityType ≠ .service)
    (hs : s.startPageTask gen env want target bundleInfo = .ok (status, s')) : Ready gen s' := by
  cases startPageTask_cases hs with
  | refused hgen _ => exact (h.generatePageAbility env hpage hgen).1
  | givesWay hgen _ _ h₂ _ =>
    exact (h.brought env hpage hgen).1.still
      ((Still.inactiveAbility h₂).trans ((Still.next _).trans (.prev _)))
  | stays hgen _ _ h₂ _ h₃ =>
    exact ((h.brought env hpage hgen).1.still (Still.inactiveAbility h₂)).removePageAbility env h₃
  | starts hgen _ h₂ _ => exact (h.brought env hpage hgen).1.still (startAbility_still h₂)
  | fails hgen _ h₂ _ h₃ =>
    exact ((h.brought env hpage hgen).1.still (startAbility_still h₂)).removePageAbility env h₃

theorem stack_removeServiceRecord (hs : s.removeServiceRecord t = .ok s') (st : StackType) :
    s'.stack st = s.stack st := by
  rcases removeServiceRecord_cases hs with ⟨-, hs⟩ | ⟨-, rfl⟩
  · rw [(delete_gone hs).toSameLists.stack]
    cases st <;> rfl
  · rfl

theorem startServiceTask {waitConnect : Bool} (h : Ready gen s) (hservice : target.abilityType = .service)
    (hs : s.startServiceTask gen env want target bundleInfo waitConnect = .ok (status, s')) :
    Ready gen s' := by
  refine h.of_stack (startServiceTask_goes h.toSound hservice hs) fun st => ?_
  have hnew : (s.newService gen want target bundleInfo waitConnect).stack st = s.stack st := by
    unfold newService pushServiceRecord
    split <;> cases st <;> rfl
  obtain ⟨t, _, _, rfl⟩ | ⟨_, s₁, h₁, ⟨_, h₂⟩ | ⟨_, rfl⟩⟩ := startServiceTask_cases hs
  · rfl
  · rw [stack_removeServiceRecord h₂, (startService_still h₁).kept.stack, hnew]
  · rw [(startService_still h₁).kept.stack, hnew]

theorem startTask {waitConnect : Bool} (h : Ready gen s)
    (hs : s.startTask gen env want target bundleInfo waitConnect = .ok (status, s')) : Ready gen s' := by
  unfold AbilityMgr.startTask at hs
  split at hs
  · next hservice => exact h.startServiceTask hservice hs
  · next hpage => exact h.startPageTask hpage hs

theorem stopTask (h : Ready gen s) (hs : s.stopTask env t = .ok (status, s')) : Ready gen s' := by
  cases stopTask_cases hs with
  | unknown => exact h
  | stopped =>
    have hreach : Still gen env s (s.modify t (·.setCurrentState .initial)) := .reach _
    exact h.still hreach
  | service _ _ _ _ h₁ h₂ h₃ =>
    have hstill := h.still ((Still.reach _).trans ((Still.calm (stopAbilityDone_calm h₁)).trans h₂.still))
    have hgoes : Goes gen env _ s' := (Sound.refl hstill.toSound).removeServiceRecord h₃
    exact hstill.of_stack hgoes (stack_removeServiceRecord h₃)
  | page _ _ _ _ h₁ h₂ => exact (h.still ((Still.reach _).trans h₁.still)).removePageAbility env h₂

theorem clears (h : Ready gen s) (hs : Clears env name s s') : Ready gen s' := by
  refine ⟨h.toSound.goes (hs.goes h.toSound), ?_⟩
  obtain ⟨s₁, h₁, h₂⟩ := hs
  have hstill : Still gen env s₁ s' := (removeAppRecordByName_still _).trans h₂.still
  exact (h.linked.clearAbilityStack h.shape h₁).of_stack hstill.kept.stack

theorem appTerminateTask (h : Ready gen s) (hs : s.appTerminateTask env name = .ok (status, s')) :
    Ready gen s' := by
  cases appTerminateTask_cases hs with
  | refused => exact h
  | alone _ h₁ => exact h.clears h₁
  | exits _ hreach h₁ => exact (h.still (Still.tell rfl hreach)).clears h₁

theorem appRestartTask (h : Ready gen s) (hs : s.appRestartTask env bundleInfo = .ok (status, s')) :
    Ready gen s' := by
  obtain ⟨_, _, rfl⟩ | ⟨name, _, h₁⟩ := appRestartTask_cases hs
  · exact h
  · exact h.clears h₁

theorem terminateServiceTask (h : Ready gen s)
    (hs : s.terminateServiceTask env target = .ok (status, s')) : Ready gen s' := by
  refine h.of_stack (terminateServiceTask_goes h.toSound hs) fun st => ?_
  unfold AbilityMgr.terminateServiceTask at hs
  split at hs
  · cases hs
    rfl
  · next t ht =>
    simp only [bind_eq_ok, record_eq_ok] at hs
    obtain ⟨r, hr, hs⟩ := hs
    split at hs
    · simp only [bind_eq_ok] at hs
      obtain ⟨s₁, h₁, hs⟩ := hs
      cases hs
      exact stack_removeServiceRecord h₁ st
    · have hmem := (findServiceRecordByName_mem ht).1
      have hcalm : ReflTransGen (Calm gen env) s s' :=
        forceStopServiceAbility_calm hr (h.shape.allServices t hmem r hr) hs
      exact (Kept.calm hcalm).stack st

/-! ### Messages -/

theorem handleStartAbility {uid : Int} {code : ErrCode} (h : Ready gen s)
    (hs : s.handleStartAbility gen env want uid = .ok (code, s')) : Ready gen s' := by
  obtain rfl | ⟨_, _, _, _, _, _, _, _, h₁⟩ := handleStartAbility_cases hs
  · exact h
  · exact h.startTask h₁

theorem startLauncher (h : Ready gen s) (hs : s.startLauncher gen env = .ok s') : Ready gen s' := by
  obtain ⟨_, h₁⟩ := startLauncher_cases hs
  exact h.handleStartAbility h₁

/-- The launcher may be started after a task. -/
theorem thenLauncher {s₁ : AbilityMgr} (h : Ready gen s₁)
    (hs : (status.isNoActiveAbility = false ∧ s' = s₁) ∨
      (status.isNoActiveAbility = true ∧ s₁.startLauncher gen env = .ok s')) : Ready gen s' := by
  rcases hs with ⟨-, rfl⟩ | ⟨-, hs⟩
  · exact h
  · exact h.startLauncher hs

theorem workerAbilityTransaction {state : TransactionState} (h : Ready gen s)
    (hs : s.workerAbilityTransaction gen env state = .ok (status, s')) : Ready gen s' := by
  unfold AbilityMgr.workerAbilityTransaction at hs
  split at hs
  · have hstill : Still gen env s s' := backgroundTask_still hs
    exact h.still hstill
  · exact h.still (inactivateTask_still hs)
  · exact h.still (activateTask_still hs)
  · exact h.stopTask hs
  · cases hs
    exact h

theorem restartAppMsg (h : Ready gen s) (hs : s.restartAppMsg gen env name = .ok s') : Ready gen s' := by
  obtain ⟨_, rfl⟩ | ⟨bundleInfo, status, s₁, s₂, _, h₁, hlauncher, hkeep⟩ := restartAppMsg_cases hs
  · exact h
  have h₂ := (h.appRestartTask h₁).thenLauncher hlauncher
  rcases hkeep with ⟨_, _, _, h₃⟩ | rfl
  · obtain rfl | ⟨want, code, _, h₃⟩ := startKeepAliveApp_cases h₃
    · exact h₂
    · exact h₂.handleStartAbility h₃
  · exact h₂

theorem startAbilityMsg {uid : Int} (h : Ready gen s) (hs : s.startAbilityMsg gen env want uid = .ok s') :
    Ready gen s' := by
  obtain ⟨code, s₁, h₁, rfl⟩ := startAbilityMsg_cases hs
  have hcallback : Still gen env s₁ (s₁.startAbilityCallback env want code) := by
    unfold startAbilityCallback
    split
    · exact .refl _
    · split
      · exact .refl _
      · exact .notify
  exact (h.handleStartAbility h₁).still hcallback

theorem connectAbilityMsg {sid : SvcIdentity} {token : Token} {uid : Int} (h : Ready gen s)
    (hs : s.connectAbilityMsg gen env want sid token uid = .ok s') : Ready gen s' := by
  obtain ⟨code, s₁, h₁, hnotify⟩ := connectAbilityMsg_cases hs
  have hready : Ready gen s₁ := by
    obtain rfl | ⟨e, bundleInfo, target, s₂, _, _, _, hstart, hconnect⟩ := handleConnectAbility_cases h₁
    · exact h
    have h₂ : Ready gen s₂ := by
      rcases hstart with ⟨_, rfl⟩ | ⟨_, _, status, h₂⟩
      · exact h
      · exact h.startTask h₂
    rcases hconnect with rfl | ⟨status, h₃⟩
    · exact h₂
    · exact h₂.still (.calm (connectTask_calm h₂.toSound h₃))
  rcases hnotify with rfl | rfl
  · exact hready
  · have hnotify : Still gen env s₁ (s₁.notify env sid .connectFail) := .notify
    exact hready.still hnotify

theorem replyMsg {r : Reply} (h : Ready gen s) (hs : s.replyMsg gen env r = .ok s') : Ready gen s' := by
  cases r with
  | lifecycleDone state =>
    obtain ⟨status, s₁, h₁, hlauncher⟩ := transactionMsg_cases hs
    exact (h.workerAbilityTransaction h₁).thenLauncher hlauncher
  | connectDone sid token =>
    simp only [AbilityMgr.replyMsg, bind_eq_ok] at hs
    obtain ⟨⟨status, s₁⟩, h₁, hs⟩ := hs
    cases hs
    exact h.still (.calm (connectDoneTask_calm h₁))
  | disconnectDone token =>
    simp only [AbilityMgr.replyMsg, bind_eq_ok] at hs
    obtain ⟨⟨status, s₁⟩, h₁, hs⟩ := hs
    cases hs
    exact h.still (.calm (disconnectDoneTask_calm h.toSound h₁))

theorem requestMsg {e : Event} (h : Ready gen s) (hs : s.requestMsg gen env e = .ok s') : Ready gen s' := by
  cases e with
  | startAbility want uid => exact h.startAbilityMsg hs
  | terminateAbility token =>
    simp only [AbilityMgr.requestMsg, bind_eq_ok] at hs
    obtain ⟨⟨status, s₁⟩, h₁, hs⟩ := hs
    cases hs
    exact h.still (terminateTask_still h₁)
  | attachBundle client =>
    simp only [AbilityMgr.requestMsg, bind_eq_ok] at hs
    obtain ⟨⟨status, s₁⟩, h₁, hs⟩ := hs
    cases hs
    exact h.still (attachTask_still h₁)
  | connectAbility want sid token uid => exact h.connectAbilityMsg hs
  | disconnectAbility sid token =>
    simp only [AbilityMgr.requestMsg, bind_eq_ok] at hs
    obtain ⟨⟨status, s₁⟩, h₁, hs⟩ := hs
    cases hs
    exact h.still (.calm (disconnectTask_calm h.toSound h₁))
  | terminateService want uid =>
    obtain rfl | ⟨target, status, _, h₁⟩ := terminateServiceMsg_cases hs
    · exact h
    · exact h.terminateServiceTask h₁
  | terminateApp name =>
    simp only [AbilityMgr.requestMsg, bind_eq_ok] at hs
    obtain ⟨⟨status, s₁⟩, h₁, hs⟩ := hs
    cases hs
    exact h.appTerminateTask h₁
  | restartApp name => exact h.restartAppMsg hs
  | reply a =>
    cases hs
    exact h
  | perform a sid =>
    cases hs
    exact h

end Ready

/-! ## What every call finds -/

/-- A call is made in a state whose lists have their shape, and removes nothing that leaves its stack
without the mission it goes back to. -/
def Suits (x : AbilityMgr) (use : ListUse) : Prop :=
  x.Shape ∧ ∀ t, use = .removePageAbility t → x.Removable t

theorem Suits.reads {x : AbilityMgr} {use : ListUse} (h : Suits x use) :
    NoneEmpty (x.reads use) ↔ x.Stocked use := reads_iff h.1 h.2

theorem suits_of_shape {x : AbilityMgr} {use : ListUse} (h : x.Shape)
    (hother : ∀ t, use ≠ .removePageAbility t) : Suits x use := ⟨h, fun t ht => absurd ht (hother t)⟩

namespace Ready
variable {x : AbilityMgr} {use : ListUse}

theorem startPageUses (h : Ready gen s) (hpage : target.abilityType ≠ .service)
    (hu : StartPageUses gen env want target bundleInfo s x use) : Suits x use := by
  cases hu with
  | top => exact suits_of_shape h.shape fun t ht => by cases ht
  | generate => exact suits_of_shape h.shape fun t ht => by cases ht
  | stays hgen _ _ h₂ _ =>
    obtain ⟨hready, hremovable⟩ := h.brought env hpage hgen
    have hasked : Still gen env _ x := Still.inactiveAbility h₂
    have hkept := hasked.kept
    exact ⟨hready.shape.of_kept hkept, fun t ht => by cases ht; exact hkept.removable hremovable⟩
  | fails hgen _ h₂ _ =>
    obtain ⟨hready, hremovable⟩ := h.brought env hpage hgen
    have hkept := (startAbility_still h₂).kept
    exact ⟨hready.shape.of_kept hkept, fun t ht => by cases ht; exact hkept.removable hremovable⟩

theorem startUses {uid : Int} (h : Ready gen s) (hu : StartUses gen env want uid s x use) : Suits x use := by
  cases hu with
  | page _ _ _ _ hpage hu => exact h.startPageUses hpage hu

/-- The page that stops is on a mission of a stack. -/
theorem transactionUses {state : TransactionState} (h : Ready gen s)
    (hu : TransactionUses env s state x use) : Suits x use := by
  have hkept {t : Token} (st : State) : Kept s (s.modify t (·.setCurrentState st)) := .modify fun _ => rfl
  cases hu with
  | back => exact suits_of_shape (h.shape.of_kept (hkept _)) fun t ht => by cases ht
  | bottom => exact suits_of_shape (h.shape.of_kept (hkept _)) fun t ht => by cases ht
  | @remove t r bottom s₁ hl hr hpage _ hexit =>
    have hexited : Still gen env _ x := hexit.still
    have hkept₁ : Kept s x := (hkept _).trans hexited.kept
    refine ⟨h.shape.of_kept hkept₁, fun p hp => ?_⟩
    cases hp
    obtain ⟨st, m, hm, ht⟩ := h.shape.listed_page hl hr hpage
    obtain ⟨r', hr', hid, -⟩ := (h.shape.missions m (mem_all_of_stack hm)).placed t ht
    exact hkept₁.removable (h.linked.removable h.shape hr' hid
      ⟨m, mem_all_of_stack hm, rfl, h.shape.listed st m hm⟩ (List.ne_nil_of_mem hm))

theorem clearUses (h : Ready gen s) (hu : ClearUses env name s x use) : Suits x use := by
  cases hu with
  | returnFrom h₁ => exact suits_of_shape (h.shape.removeServiceRecords h₁) fun t ht => by cases ht
  | @top s₁ h₁ =>
    have hdrop : Still gen env s₁ (s₁.removeAppRecordByName (some name)) := removeAppRecordByName_still _
    exact suits_of_shape ((h.shape.clearAbilityStack h₁).of_kept hdrop.kept) fun t ht => by cases ht

theorem requestUses {e : Event} (h : Ready gen s) (hu : RequestUses gen env s e x use) : Suits x use := by
  cases hu with
  | start hu => exact h.startUses hu
  | connect _ _ hu => exact h.startUses hu
  | terminateApp hexit hok hu =>
    rcases terminateAppProcess_cases hexit with ⟨-, -, rfl⟩ | ⟨app, -, h₁⟩
    · exact h.clearUses hu
    · rcases appExitTransaction_reaches h₁ with ⟨-, hfail, -⟩ | ⟨hreach, -, rfl⟩
      · rw [hok] at hfail
        cases hfail
      · exact (h.still (Still.tell rfl hreach)).clearUses hu
  | restartApp _ _ hu => exact h.clearUses hu
  | restartLauncher _ h₁ _ hu => exact (h.appRestartTask h₁).startUses hu
  | restartKeepAlive _ h₁ hlauncher _ _ hu => exact ((h.appRestartTask h₁).thenLauncher hlauncher).startUses hu

theorem replyUses {r : Reply} (h : Ready gen s) (hu : ReplyUses gen env s r x use) : Suits x use := by
  cases hu with
  | lifecycle hu => exact h.transactionUses hu
  | launcher h₁ _ hu => exact (h.workerAbilityTransaction h₁).startUses hu

end Ready

end AbilityMgr

namespace System
variable {gen : TokenGenerate} {env : Env} {s : System}

theorem Happens.ready {e : Event} {s' : System} (hs : s.ams.Ready gen) (h : Happens gen env s e s') :
    s'.ams.Ready gen := by
  refine ⟨h.sound hs.toSound, ?_⟩
  cases h with
  | request h => exact (hs.requestMsg h).linked
  | requestFault => exact hs.linked
  | reply _ h => exact (hs.replyMsg h).linked
  | replyFault => exact hs.linked
  | perform => exact hs.linked.of_stack fun st => by cases st <;> rfl

theorem ready_of_reached {ok : System → Env × Event → Prop}
    (h : Reached (System.next gen) ok IsInit s) : s.ams.Ready gen := by
  have hinit : ∀ s, IsInit s → s.ams.Ready gen := by
    rintro s rfl
    refine ⟨⟨shape_init, known_init⟩, fun st m hm => ?_⟩
    cases st <;> cases hm
  have hstep : ∀ s e s', s.ams.Ready gen → ok s e → System.next gen s e = some s' → s'.ams.Ready gen := by
    rintro s ⟨env, e⟩ s' hs _ hnext
    exact (next_cases hnext).2.ready hs
  exact Reached.invariant hinit hstep h

/-- In every reachable state, and for every request or reply AMS then handles, each call reads the
ends of lists that are not empty exactly when a page is brought up on a stack with a mission, and
a bundle that goes back to none is cleared away under a top stack with a mission. -/
theorem lists_read_iff (h : Reached (System.next gen) (fun _ _ => True) IsInit s) :
    (∀ e x use, AbilityMgr.RequestUses gen env s.ams e x use →
      (AbilityMgr.NoneEmpty (x.reads use) ↔ x.Stocked use)) ∧
    ∀ r x use, AbilityMgr.ReplyUses gen env s.ams r x use →
      (AbilityMgr.NoneEmpty (x.reads use) ↔ x.Stocked use) := by
  have hready := ready_of_reached h
  exact ⟨fun e x use hu => (hready.requestUses hu).reads, fun r x use hu => (hready.replyUses hu).reads⟩

/-- The first application is up, and anything may come next. -/
theorem lists_read_second :
    ∃ s, System.next counter {} (pageEnv, startA) = some s ∧
      (∀ e x use, AbilityMgr.RequestUses counter pageEnv s.ams e x use →
        (AbilityMgr.NoneEmpty (x.reads use) ↔ x.Stocked use)) ∧
      ∀ r x use, AbilityMgr.ReplyUses counter pageEnv s.ams r x use →
        (AbilityMgr.NoneEmpty (x.reads use) ↔ x.Stocked use) := by
  have h : (System.next counter {} (pageEnv, startA)).isSome = true := by decide
  obtain ⟨s, hs⟩ := Option.isSome_iff_exists.mp h
  exact ⟨s, hs, lists_read_iff (.step (.init rfl) trivial hs)⟩

/-- The launcher starts while the page of an application is not active yet, and fails. -/
def launcherFails : List (Env × Event) :=
  [startA, .startAbility AbilityMgr.launcherWant 5].map fun e => (pageEnv, e)

/-- The first start of all reads the end of an empty stack. So does the death of an application after
the failed start of the launcher, which leaves the empty stack of the launcher on top. -/
theorem lists_read_empty :
    (∃ x use, AbilityMgr.RequestUses counter pageEnv {} startA x use ∧ 0 ∈ x.reads use) ∧
    ∃ s x use, Reached (System.next counter) (fun _ _ => True) IsInit s ∧
      AbilityMgr.RequestUses counter pageEnv s.ams (.restartApp (cstr "a")) x use ∧ 0 ∈ x.reads use := by
  constructor
  · refine ⟨{}, .generatePageAbility (pageInfo (some (cstr "a"))), .start (.page rfl rfl rfl rfl ?_ .generate), ?_⟩
    · decide
    · decide
  · have h : ((run (System.next counter) {} launcherFails).map fun s =>
        (s.ams.serviceRecords, s.ams.returnReads (cstr "a"))) = some ([], [0]) := by decide
    obtain ⟨s, hs, hstate⟩ := Option.map_eq_some_iff.mp h
    rw [Prod.mk.injEq] at hstate
    refine ⟨s, s.ams, .returnFrom (cstr "a"), Reached.of_run (.init rfl) _ hs,
      .restartApp rfl rfl (.returnFrom ?_), ?_⟩
    · rw [hstate.1]
      rfl
    · show 0 ∈ s.ams.returnReads (cstr "a")
      rw [hstate.2]
      exact List.mem_singleton.mpr rfl

end System
end AbilityLite.Ams
