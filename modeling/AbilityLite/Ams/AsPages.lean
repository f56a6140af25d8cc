import AbilityLite.Ams.Navigation

/-
  `AbilityStackManager` does not look at the type of an ability.

  `asPages` is the context with every ability made a page. A call from there leads
  where the call itself leads, with every ability made a page; so what holds for the
  missions of pages holds for missions whatever the types of their abilities are. The
  context has no services: their list is taken to be empty.
-/

namespace AbilityLite.Ams

open Fallible

def AbilityInfo.asPage (info : AbilityInfo) : AbilityInfo := { info with abilityType := .page }

def PageAbilityRecord.asPage (r : PageAbilityRecord) : PageAbilityRecord :=
  { r with abilityInfo := r.abilityInfo.asPage }

namespace AbilityMgr

def asPages (s : AbilityMgr) : AbilityMgr := { s with records := s.records.map (·.asPage) }

variable {gen : TokenGenerate} {env : Env} {s : AbilityMgr} {st : StackType} {t : Token} {id : Nat}
  {target : AbilityInfo} {want : Want}

/-! ## Records and lists -/

@[simp] theorem records_asPages : s.asPages.records t = (s.records t).map (·.asPage) := rfl

@[simp] theorem stack_asPages : s.asPages.stack st = s.stack st := by
  cases st <;> rfl

theorem record_asPages : s.asPages.record t = (s.record t).map (·.asPage) := by
  unfold record
  rw [records_asPages]
  cases s.records t <;> rfl

theorem modify_asPages {f : PageAbilityRecord → PageAbilityRecord} (hf : ∀ r, (f r).asPage = f r.asPage) :
    s.asPages.modify t f = (s.modify t f).asPages :=
  congrArg (fun m => ({ s with records := m } : AbilityMgr)) (s.records.map_modify hf).symm

theorem setStack_asPages (l : List AbilityMissionRecord) :
    s.asPages.setStack st l = (s.setStack st l).asPages := by
  cases st <;> rfl

theorem newPageAbility_asPages : s.asPages.newPageAbility gen target.asPage want =
    ((s.newPageAbility gen target want).1, (s.newPageAbility gen target want).2.asPages) :=
  congrArg (fun m => (gen.generate s.generated,
    ({ s with generated := s.generated + 1, records := m } : AbilityMgr)))
      (s.records.map_insert (·.asPage) (k := gen.generate s.generated)
        { abilityInfo := target, want := want.copy
          appRecord := (s.getAppRecordByBundleName target.bundleName).map (·.identityId) }).symm

theorem delete_asPages : s.asPages.delete t = (s.delete t).map asPages := by
  unfold delete
  rw [record_asPages]
  refine map_bind fun r => ?_
  have herase (x : AbilityMgr) : ({ x with records := s.asPages.records.erase t } : AbilityMgr) =
      ({ x with records := s.records.erase t } : AbilityMgr).asPages :=
    congrArg (fun m => ({ x with records := m } : AbilityMgr)) (s.records.map_erase _).symm
  have hr : r.asPage.appRecord = r.appRecord := rfl
  rw [hr]
  cases r.appRecord with
  | none => exact congrArg Except.ok (herase s)
  | some a =>
    dsimp only
    have happ : s.asPages.appRecord a = s.appRecord a := rfl
    rw [happ]
    cases s.appRecord a with
    | error f => rfl
    | ok app => exact congrArg Except.ok (herase (s.modifyApp a (·.clearPendingAbility t)))

theorem deletePages_asPages (ts : List Token) : deletePages ts s.asPages = (deletePages ts s).map asPages := by
  induction ts generalizing s with
  | nil => rfl
  | cons t ts ih =>
    simp only [deletePages, delete_asPages]
    exact map_bind fun s => ih

/-! ## A page is opened -/

theorem moveMissionRecordToTop_asPages :
    s.asPages.moveMissionRecordToTop st id = (s.moveMissionRecordToTop st id).map asPages := by
  unfold moveMissionRecordToTop
  rw [stack_asPages]
  cases moveToTop id (s.stack st) with
  | error f => rfl
  | ok l => exact congrArg Except.ok (setStack_asPages l)

theorem pushTopMissionRecord_asPages (m : AbilityMissionRecord) :
    s.asPages.pushTopMissionRecord m = (s.pushTopMissionRecord m).asPages := by
  unfold pushTopMissionRecord
  rw [stack_asPages]
  dsimp only
  split
  · rfl
  · exact setStack_asPages _

theorem newMission_asPages : s.asPages.newMission gen target.asPage want st =
    ((s.newMission gen target want st).1, (s.newMission gen target want st).2.1,
      (s.newMission gen target want st).2.2.asPages) := by
  unfold newMission
  rw [newPageAbility_asPages]
  generalize s.newPageAbility gen target want = x
  obtain ⟨t, s⟩ := x
  have hmodify := modify_asPages (s := { s with missions := s.missions + 1 }) (t := t)
    (f := (·.setMissionRecord s.missions)) fun _ => rfl
  have hpush := pushTopMissionRecord_asPages
    (s := ({ s with missions := s.missions + 1 } : AbilityMgr).modify t (·.setMissionRecord s.missions))
    { id := s.missions, abilityMissionStack := st, bundleName := target.bundleName,
      pageAbilityRecords := [t] }
  rw [← hmodify] at hpush
  exact congrArg (fun x => (t, s.missions, x)) hpush

theorem newPage_asPages : s.asPages.newPage gen target.asPage want id =
    ((s.newPage gen target want id).1, (s.newPage gen target want id).2.asPages) := by
  unfold newPage
  rw [newPageAbility_asPages]
  generalize s.newPageAbility gen target want = x
  obtain ⟨t, s⟩ := x
  have hmodify := modify_asPages (s := s) (t := t) (f := (·.setMissionRecord id)) fun _ => rfl
  exact congrArg (fun x => (t, x.modifyMission id (·.pushPageAbility t))) hmodify

theorem switchesStack_asPage (top : Option PageAbilityRecord) :
    switchesStack target.asPage (top.map (·.asPage)) = switchesStack target top := by
  cases top <;> rfl

theorem returnsToTop_asPage (top page : Option PageAbilityRecord) :
    returnsToTop (top.map (·.asPage)) (page.map (·.asPage)) = returnsToTop top page := by
  cases top <;> cases page <;> rfl

theorem targetPage_asPages (top : Option PageAbilityRecord) :
    s.asPages.targetPage gen target.asPage want (top.map (·.asPage)) st =
      (s.targetPage gen target want top st).map fun (t, id, s) => (t, id, s.asPages) := by
  have hmove (x : AbilityMgr) (page : Option Token) (id : Nat) :
      (x.asPages.moveMissionRecordToTop st id >>= fun x => .ok (page, id, x)) =
        (x.moveMissionRecordToTop st id >>= fun x => .ok (page, id, x)).map
          fun (t, id, s) => (t, id, s.asPages) := by
    rw [moveMissionRecordToTop_asPages]
    exact map_bind fun _ => rfl
  have hfind : s.asPages.getTargetMissionRecord st target.asPage.bundleName =
      s.getTargetMissionRecord st target.bundleName := by
    unfold getTargetMissionRecord
    rw [stack_asPages]
    rfl
  unfold targetPage
  rw [hfind, switchesStack_asPage]
  cases s.getTargetMissionRecord st target.bundleName with
  | none =>
    dsimp only
    rw [newMission_asPages]
    rfl
  | some m =>
    dsimp only
    split
    · exact hmove s m.getTopPageAbility m.id
    · rw [newPage_asPages]
      cases m.getTopPageAbility with
      | none => exact hmove (s.newPage gen target want m.id).2 _ m.id
      | some p =>
        dsimp only
        rw [record_asPages]
        refine map_bind fun r => ?_
        have hsame : r.asPage.isSamePageAbility want = r.isSamePageAbility want := rfl
        rw [hsame]
        split
        · exact hmove s (some p) m.id
        · exact hmove (s.newPage gen target want m.id).2 _ m.id

theorem generatePageAbility_asPages (topAbility : Option Token) :
    s.asPages.generatePageAbility gen target.asPage want topAbility =
      (s.generatePageAbility gen target want topAbility).map fun (t, s) => (t, s.asPages) := by
  have hrecords (x : AbilityMgr) (page : Option Token) :
      page.bind x.asPages.records = (page.bind x.records).map (·.asPage) := by
    cases page <;> rfl
  have htop : s.asPages.getTopMissionRecord (targetStack target.bundleName) =
      s.getTopMissionRecord (targetStack target.bundleName) := by
    unfold getTopMissionRecord
    rw [stack_asPages]
  have hname : target.asPage.name = target.name := rfl
  have hbundle : target.asPage.bundleName = target.bundleName := rfl
  unfold generatePageAbility
  rw [hname]
  split
  · rfl
  · dsimp only
    rw [hbundle, htop, hrecords, targetPage_asPages]
    refine map_bind fun (page, id, x) => ?_
    cases s.getTopMissionRecord (targetStack target.bundleName) with
    | none => rfl
    | some m =>
      dsimp only
      rw [hrecords, returnsToTop_asPage]
      split <;> rfl

/-! ## Pages and missions go -/

theorem removeMissionRecord_asPages :
    s.asPages.removeMissionRecord st id = (s.removeMissionRecord st id).asPages := by
  unfold removeMissionRecord
  rw [stack_asPages, setStack_asPages]

theorem removePageAbility_asPages : s.asPages.removePageAbility t = (s.removePageAbility t).map asPages := by
  unfold removePageAbility
  rw [record_asPages]
  refine map_bind fun r => ?_
  have hr : r.asPage.missionRecord = r.missionRecord := rfl
  rw [hr]
  cases r.missionRecord with
  | none => rfl
  | some id =>
    have hmission : s.asPages.mission id = s.mission id := rfl
    dsimp only
    rw [hmission]
    cases s.mission id with
    | error f => rfl
    | ok m =>
      show (deletePages _ (s.modifyMission id _).asPages >>= _) = (deletePages _ _ >>= _).map asPages
      rw [deletePages_asPages]
      refine map_bind fun x => ?_
      split
      · rw [removeMissionRecord_asPages]
        cases m.prevMissionRecord with
        | none => rfl
        | some prev =>
          dsimp only
          rw [moveMissionRecordToTop_asPages]
          exact map_bind fun _ => rfl
      · rfl

theorem returnFrom_asPages (name : CString) : s.asPages.returnFrom name = (s.returnFrom name).map asPages := by
  have hfind : s.asPages.getTargetMissionRecord (targetStack (some name)) (some name) =
      s.getTargetMissionRecord (targetStack (some name)) (some name) := by
    unfold getTargetMissionRecord
    rw [stack_asPages]
  have htop : s.asPages.topMissionStacks = s.topMissionStacks := rfl
  have his (top : StackType) : s.asPages.isTopMissionRecord top (some name) =
      s.isTopMissionRecord top (some name) := by
    unfold isTopMissionRecord
    rw [stack_asPages]
  unfold returnFrom
  dsimp only
  rw [hfind, htop]
  cases s.getTargetMissionRecord (targetStack (some name)) (some name) with
  | none => rfl
  | some m =>
    dsimp only
    cases m.prevMissionRecord with
    | some prev => exact moveMissionRecordToTop_asPages
    | none =>
      cases s.topMissionStacks with
      | none => rfl
      | some top =>
        dsimp only
        rw [his]
        split <;> rfl

theorem clearPageAbility_asPages (hservices : s.serviceRecords = []) (name : Option CString) (ts : List Token) :
    clearPageAbility env name ts s.asPages = (clearPageAbility env name ts s).map asPages := by
  induction ts generalizing s with
  | nil => rfl
  | cons t ts ih =>
    have hservices' : s.asPages.serviceRecords = [] := hservices
    -- no service, so no connection is looked at
    have hnone (x : AbilityMgr) (hx : x.serviceRecords = []) :
        clearPageAbility env name (t :: ts) x = x.delete t >>= clearPageAbility env name ts := by
      cases name with
      | none => rfl
      | some name =>
        simp only [clearPageAbility, hx, removeConnectRecords]
        rfl
    rw [hnone s hservices, hnone s.asPages hservices', delete_asPages]
    cases hdelete : s.delete t with
    | error f => rfl
    | ok x =>
      refine ih ?_
      obtain ⟨r, -, ⟨-, rfl⟩ | ⟨a, app, -, -, rfl⟩⟩ := delete_cases hdelete
      · exact hservices
      · exact hservices

theorem removeMissionRecordByName_asPages (hservices : s.serviceRecords = []) (name : Option CString) :
    removeMissionRecordByName env st name s.asPages =
      (removeMissionRecordByName env st name s).map asPages := by
  have hfind : s.asPages.getTargetMissionRecord st name = s.getTargetMissionRecord st name := by
    unfold getTargetMissionRecord
    rw [stack_asPages]
  unfold removeMissionRecordByName
  rw [hfind]
  cases s.getTargetMissionRecord st name with
  | none => rfl
  | some m =>
    show (clearPageAbility env _ _ (s.modifyMission m.id _).asPages >>= _) =
      (clearPageAbility env _ _ _ >>= _).map asPages
    rw [clearPageAbility_asPages (s := s.modifyMission m.id _) hservices]
    refine map_bind fun x => ?_
    rw [removeMissionRecord_asPages]
    rfl

theorem clearAbilityStack_asPages (hservices : s.serviceRecords = []) (name : CString) :
    s.asPages.clearAbilityStack env name = (s.clearAbilityStack env name).map asPages := by
  have hnone (x : AbilityMgr) (hx : x.serviceRecords = []) : x.clearAbilityStack env name =
      x.returnFrom name >>= removeMissionRecordByName env (targetStack (some name)) (some name) := by
    simp only [clearAbilityStack, hx, removeServiceRecords]
    rfl
  have hservices' : s.asPages.serviceRecords = [] := hservices
  rw [hnone s hservices, hnone s.asPages hservices', returnFrom_asPages]
  cases hreturn : s.returnFrom name with
  | error f => rfl
  | ok x =>
    refine removeMissionRecordByName_asPages ?_ (some name)
    rcases returnFrom_cases hreturn with rfl | rfl | ⟨m, prev, -, -, hmove⟩
    · exact hservices
    · exact hservices
    · obtain ⟨l, -, rfl⟩ := moveMissionRecordToTop_cases hmove
      rw [services_setStack]
      exact hservices

end AbilityMgr
end AbilityLite.Ams
