import AbilityLite.Ams.PageAbility

/-
  Missions: the two stacks of `AbilityMgrContext`, what `AbilityStackManager` does to
  them, and the services of `AbilityConnectMission`.

  `missionRecords_.back()` and `pageAbilityRecords_.back()` of an empty list are read as
  null: that is what the node a `std::list` ends with holds, in the implementations the
  code is built with.

  Correspondence (C++ ↔ Lean):
    `AbilityMissionRecord`   ↔ `pushPageAbility`, `deletePages`, `getPrevPageAbilityIn`
    `AbilityMissionStack`    ↔ `pushTopMissionRecord` … `removeMissionRecordByName`
    `AbilityMgrContext`      ↔ `targetStack`, `stack`, `setStack`
    `AbilityStackManager`    ↔ `generatePageAbility` … `existAppInStack`
    `AbilityConnectMission`  ↔ `pushServiceRecord` … `countServiceInApp`
-/

namespace AbilityLite.Ams

/-- `LAUNCHER_BUNDLE_NAME`. -/
def launcherBundleName : CString := cstr "com.huawei.launcher"
/-- `LAUNCHER_ABILITY_NAME`. -/
def launcherAbilityName : CString := cstr "MainAbility"
/-- `ACE_ABILITY_NAME`. -/
def aceAbilityName : CString := cstr "AceAbility"

def isLauncherAbility (bundleName : Option CString) : Bool := bundleName = some launcherBundleName

def isAceAbility (abilityName : Option CString) : Bool := abilityName = some aceAbilityName

def PageAbilityRecord.isLauncherAbility (r : PageAbilityRecord) : Bool :=
  AbilityLite.Ams.isLauncherAbility r.abilityInfo.bundleName

/-- `GetTargetMissionStack`. -/
def targetStack (bundleName : Option CString) : StackType :=
  if isLauncherAbility bundleName then .launcher else .default

namespace AbilityMissionRecord

def setPages (m : AbilityMissionRecord) (pages : List Token) : AbilityMissionRecord :=
  { m with pageAbilityRecords := pages }

def setPrevMissionRecord (m : AbilityMissionRecord) (prev : Option Nat) : AbilityMissionRecord :=
  { m with prevMissionRecord := prev }

def isSameMissionRecord (m : AbilityMissionRecord) (bundleName : Option CString) : Bool :=
  bundleName.isSome && m.bundleName == bundleName

def getTopPageAbility (m : AbilityMissionRecord) : Option Token := m.pageAbilityRecords.getLast?

def getBottomPageAbility (m : AbilityMissionRecord) : Option Token := m.pageAbilityRecords.head?

/-- `PAGE_ABILITY_RECORDS_LIST_CAPACITY`. -/
def pageAbilityRecordsListCapacity : Nat := 10240

def pushPageAbility (m : AbilityMissionRecord) (t : Token) : AbilityMissionRecord :=
  if pageAbilityRecordsListCapacity ≤ m.pageAbilityRecords.length then m
  else m.setPages (m.pageAbilityRecords ++ [t])

/-- `GetPrevPageAbility`: the page below a page of the list. -/
def prevIn (t : Token) : List Token → Option Token
  | p :: q :: l => if p = t then none else if q = t then some p else prevIn t (q :: l)
  | _ => none

def getPrevPageAbility (m : AbilityMissionRecord) (t : Token) : Option Token :=
  prevIn t m.pageAbilityRecords

end AbilityMissionRecord

namespace AbilityMgr

/-! ## Mission records and the two stacks -/

def stack (s : AbilityMgr) : StackType → List AbilityMissionRecord
  | .launcher => s.launcherMissionStacks
  | .default => s.defaultMissionStacks

def setStack (s : AbilityMgr) (st : StackType) (l : List AbilityMissionRecord) : AbilityMgr :=
  match st with
  | .launcher => { s with launcherMissionStacks := l }
  | .default => { s with defaultMissionStacks := l }

/-- The mission record a pointer points to, whether a stack lists it or not. -/
def mission (s : AbilityMgr) (id : Nat) : Except Fault AbilityMissionRecord :=
  match (s.launcherMissionStacks ++ s.defaultMissionStacks ++ s.unlisted).find? (·.id = id) with
  | some m => .ok m
  | none => .error .missionRecord

def updateMission (id : Nat) (f : AbilityMissionRecord → AbilityMissionRecord)
    (l : List AbilityMissionRecord) : List AbilityMissionRecord :=
  l.map fun m => if m.id = id then f m else m

def modifyMission (s : AbilityMgr) (id : Nat) (f : AbilityMissionRecord → AbilityMissionRecord) : AbilityMgr :=
  { s with
    launcherMissionStacks := updateMission id f s.launcherMissionStacks
    defaultMissionStacks := updateMission id f s.defaultMissionStacks
    unlisted := updateMission id f s.unlisted }

/-- `MISSION_RECORD_LIST_CAPACITY`. -/
def missionRecordListCapacity : Nat := 10240

/-- `PushTopMissionRecord`; a full stack does not take the record. -/
def pushTopMissionRecord (s : AbilityMgr) (m : AbilityMissionRecord) : AbilityMgr :=
  let l := s.stack m.abilityMissionStack
  if missionRecordListCapacity ≤ l.length then { s with unlisted := s.unlisted ++ [m] }
  else s.setStack m.abilityMissionStack (l ++ [m])

def getTopMissionRecord (s : AbilityMgr) (st : StackType) : Option AbilityMissionRecord :=
  (s.stack st).getLast?

def getTargetMissionRecord (s : AbilityMgr) (st : StackType) (bundleName : Option CString) :
    Option AbilityMissionRecord :=
  (s.stack st).find? (·.isSameMissionRecord bundleName)

def isTopMissionRecord (s : AbilityMgr) (st : StackType) (bundleName : Option CString) : Bool :=
  match (s.stack st).getLast? with
  | none => false
  | some m => m.isSameMissionRecord bundleName

/-- `MoveMissionRecordToTop`. -/
def moveToTop (id : Nat) (l : List AbilityMissionRecord) :
    Except Fault (List AbilityMissionRecord) :=
  match l.find? (·.id = id) with
  | none => .error .missionRecord
  | some m =>
    if (l.getLast?.map (·.id)) = some id then .ok l else .ok (l.filter (·.id ≠ id) ++ [m])

def moveMissionRecordToTop (s : AbilityMgr) (st : StackType) (id : Nat) : Except Fault AbilityMgr := do
  let l ← moveToTop id (s.stack st)
  .ok (s.setStack st l)

/-- `RemoveMissionRecord(AbilityMissionRecord &)`: no mission of the stack goes back to it. -/
def removeMissionRecord (s : AbilityMgr) (st : StackType) (id : Nat) : AbilityMgr :=
  s.setStack st (((s.stack st).filter (·.id ≠ id)).map fun m =>
    if m.prevMissionRecord = some id then m.setPrevMissionRecord none else m)

/-- `delete missionRecord`, after its pages are gone and its stack has forgotten it. -/
def deleteMissionRecord (s : AbilityMgr) (id : Nat) : AbilityMgr :=
  { s with unlisted := s.unlisted.filter (·.id ≠ id) }

/-! ## Services -/

/-- `SERVICE_RECORDS_LIST_CAPACITY`. -/
def serviceRecordsListCapacity : Nat := 10240

def pushServiceRecord (s : AbilityMgr) (t : Token) : AbilityMgr :=
  if serviceRecordsListCapacity ≤ s.serviceRecords.length then s
  else { s with serviceRecords := s.serviceRecords ++ [t] }

/-- `FindServiceRecord(uint64_t)`. -/
def findServiceRecord (s : AbilityMgr) (t : Token) : Option Token := s.serviceRecords.find? (· = t)

/-- Whether a listed service is the ability of a bundle and a name. -/
def isService (s : AbilityMgr) (bundleName abilityName : Option CString) (t : Token) : Bool :=
  match s.records t with
  | none => false
  | some r => r.abilityInfo.bundleName == bundleName && r.abilityInfo.name == abilityName

/-- `FindServiceRecord(const char *, const char *)`. -/
def findServiceRecordByName (s : AbilityMgr) (bundleName abilityName : Option CString) : Option Token :=
  if bundleName = none ∨ abilityName = none then none
  else s.serviceRecords.find? (s.isService bundleName abilityName)

/-- `FindServiceRecord(const SvcIdentity &, uint64_t)`. -/
def findServiceRecordByClient (s : AbilityMgr) (sid : SvcIdentity) (abilityToken : Token) : Option Token :=
  s.serviceRecords.find? fun t => match s.records t with
    | none => false
    | some r => (r.getConnectRecordOf sid abilityToken).isSome

/-- `RemoveServiceRecord(uint64_t)`. -/
def removeServiceRecord (t : Token) (s : AbilityMgr) : Except Fault AbilityMgr :=
  if t ∈ s.serviceRecords then
    { s with serviceRecords := s.serviceRecords.filter (· ≠ t) }.delete t
  else .ok s

/-- The loop of `RemoveServiceRecord(const char *)`. -/
def removeServiceRecords (env : Env) (bundleName : CString) : List Token → AbilityMgr → Except Fault AbilityMgr
  | [], s => .ok s
  | t :: ts, s => do
    let r ← s.record t
    if r.abilityInfo.bundleName = some bundleName then do
      let (_, s) ← s.stopAbilityDone env t
      let s ← { s with serviceRecords := s.serviceRecords.filter (· ≠ t) }.delete t
      removeServiceRecords env bundleName ts s
    else removeServiceRecords env bundleName ts s

/-- The loop of `RemoveConnectRecordByPageToken`: an ability of the bundle is gone, and with it
its connections to the services of other bundles. -/
def removeConnectRecords (env : Env) (token : Token) (bundleName : CString) :
    List Token → AbilityMgr → Except Fault AbilityMgr
  | [], s => .ok s
  | t :: ts, s => do
    let r ← s.record t
    if r.abilityInfo.bundleName.isSome ∧ r.abilityInfo.bundleName ≠ some bundleName then do
      let s ← s.removeConnectRecordByPageToken env t token
      removeConnectRecords env token bundleName ts s
    else removeConnectRecords env token bundleName ts s

/-- `CountServiceInApp`. -/
def countServiceInApp (s : AbilityMgr) : Option CString → Nat
  | none => 0
  | some bundleName => s.serviceRecords.countP fun t => match s.records t with
    | none => false
    | some r => r.abilityInfo.bundleName = some bundleName

/-! ## Pages -/

def deletePages : List Token → AbilityMgr → Except Fault AbilityMgr
  | [], s => .ok s
  | t :: ts, s => do
    let s ← s.delete t
    deletePages ts s

/-- The pages of a mission below a page, and the page with those above it. -/
def splitAt (t : Token) (l : List Token) : List Token × List Token := l.span (· ≠ t)

def getTopPageAbility (s : AbilityMgr) : Option Token :=
  match s.topMissionStacks with
  | none => none
  | some st => (s.getTopMissionRecord st).bind (·.getTopPageAbility)

/-- A new page on a new mission on top of a stack. -/
def newMission (gen : TokenGenerate) (target : AbilityInfo) (want : Want) (st : StackType)
    (s : AbilityMgr) : Token × Nat × AbilityMgr :=
  let (t, s) := s.newPageAbility gen target want
  let id := s.missions
  let m : AbilityMissionRecord :=
    { id, abilityMissionStack := st, bundleName := target.bundleName, pageAbilityRecords := [t] }
  (t, id, ({ s with missions := id + 1 }.modify t (·.setMissionRecord id)).pushTopMissionRecord m)

/-- A new page on top of a mission. -/
def newPage (gen : TokenGenerate) (target : AbilityInfo) (want : Want) (id : Nat) (s : AbilityMgr) :
    Token × AbilityMgr :=
  let (t, s) := s.newPageAbility gen target want
  (t, (s.modify t (·.setMissionRecord id)).modifyMission id (·.pushPageAbility t))

/-- Whether `GeneratePageAbility` changes between the launcher and the other applications, where
it takes the mission of the bundle as it is. -/
def switchesStack (target : AbilityInfo) (top : Option PageAbilityRecord) : Bool :=
  match top with
  | none => true
  | some top =>
    isAceAbility target.name || top.isLauncherAbility != isLauncherAbility target.bundleName

/-- `GeneratePageAbility`, first half: the page to bring up, its mission on top of its stack. -/
def targetPage (gen : TokenGenerate) (target : AbilityInfo) (want : Want)
    (top : Option PageAbilityRecord) (st : StackType) (s : AbilityMgr) :
    Except Fault (Option Token × Nat × AbilityMgr) :=
  match s.getTargetMissionRecord st target.bundleName with
  | none =>
    let (t, id, s) := s.newMission gen target want st
    .ok (some t, id, s)
  | some m =>
    if switchesStack target top then do
      let s ← s.moveMissionRecordToTop st m.id
      .ok (m.getTopPageAbility, m.id, s)
    else
      match m.getTopPageAbility with
      | some p => do
        let r ← s.record p
        if r.isSamePageAbility want then do
          let s ← s.moveMissionRecordToTop st m.id
          .ok (some p, m.id, s)
        else do
          let (t, s) := s.newPage gen target want m.id
          let s ← s.moveMissionRecordToTop st m.id
          .ok (some t, m.id, s)
      | none => do
        let (t, s) := s.newPage gen target want m.id
        let s ← s.moveMissionRecordToTop st m.id
        .ok (some t, m.id, s)

/-- Whether the mission brought up goes back to the one that was on top: neither page is the
launcher's. -/
def returnsToTop (top page : Option PageAbilityRecord) : Bool :=
  match top, page with
  | some top, some page => !top.isLauncherAbility && !page.isLauncherAbility
  | _, _ => false

def generatePageAbility (gen : TokenGenerate) (target : AbilityInfo) (want : Want)
    (topAbility : Option Token) (s : AbilityMgr) : Except Fault (Option Token × AbilityMgr) :=
  if target.name = none then .ok (none, s)
  else do
    let st := targetStack target.bundleName
    let topMissionRecord := s.getTopMissionRecord st
    let top := topAbility.bind s.records
    let (page, id, s) ← s.targetPage gen target want top st
    let s := match topMissionRecord with
      | none => s
      | some m =>
        if returnsToTop top (page.bind s.records) ∧ id ≠ m.id then
          s.modifyMission id (·.setPrevMissionRecord (some m.id))
        else s
    .ok (page, { s with topMissionStacks := some st })

def removePageAbility (t : Token) (s : AbilityMgr) : Except Fault AbilityMgr := do
  let r ← s.record t
  match r.missionRecord with
  | none => .ok s
  | some id => do
    let m ← s.mission id
    let (below, above) := splitAt t m.pageAbilityRecords
    let s ← deletePages above (s.modifyMission id (·.setPages below))
    if below = [] then do
      let st := m.abilityMissionStack
      let s := s.removeMissionRecord st id
      let s ← match m.prevMissionRecord with
        | some prev => s.moveMissionRecordToTop st prev
        | none => .ok { s with topMissionStacks := some .launcher }
      .ok (s.deleteMissionRecord id)
    else .ok s

/-- `ClearPageAbility(AbilityConnectMission *)`: the pages of a mission go, from the bottom. -/
def clearPageAbility (env : Env) (bundleName : Option CString) : List Token → AbilityMgr → Except Fault AbilityMgr
  | [], s => .ok s
  | t :: ts, s => do
    let s ← match bundleName with
      | none => .ok s
      | some bundleName => removeConnectRecords env t bundleName s.serviceRecords s
    let s ← s.delete t
    clearPageAbility env bundleName ts s

/-- `RemoveMissionRecord(AbilityConnectMission *, const char *)`. -/
def removeMissionRecordByName (env : Env) (st : StackType) (bundleName : Option CString) (s : AbilityMgr) :
    Except Fault AbilityMgr :=
  match s.getTargetMissionRecord st bundleName with
  | none => .ok s
  | some m => do
    let s ← clearPageAbility env m.bundleName m.pageAbilityRecords
      (s.modifyMission m.id (·.setPages []))
    .ok ((s.removeMissionRecord st m.id).deleteMissionRecord m.id)

/-- The stack to show once a bundle is gone. -/
def returnFrom (bundleName : CString) (s : AbilityMgr) : Except Fault AbilityMgr :=
  let st := targetStack (some bundleName)
  match s.getTargetMissionRecord st (some bundleName) with
  | none => .ok s
  | some m =>
    match m.prevMissionRecord with
    | some prev => s.moveMissionRecordToTop st prev
    | none =>
      match s.topMissionStacks with
      | none => .ok s
      | some top =>
        if s.isTopMissionRecord top (some bundleName) then
          .ok { s with topMissionStacks := some .launcher }
        else .ok s

def clearAbilityStack (env : Env) (bundleName : CString) (s : AbilityMgr) : Except Fault AbilityMgr := do
  let s ← removeServiceRecords env bundleName s.serviceRecords s
  let s ← s.returnFrom bundleName
  s.removeMissionRecordByName env (targetStack (some bundleName)) (some bundleName)

/-- `AbilityMissionStack::FindPageAbility(uint64_t)`. -/
def findPage (t : Token) (l : List AbilityMissionRecord) : Option Token :=
  if l.any (·.pageAbilityRecords.contains t) then some t else none

/-- `FindPageAbility(uint64_t)`. -/
def findPageAbility (s : AbilityMgr) (t : Token) : Option Token :=
  match findPage t s.defaultMissionStacks with
  | some p => some p
  | none =>
    match findPage t s.launcherMissionStacks with
    | some p => some p
    | none => s.findServiceRecord t

def findServiceAbility (s : AbilityMgr) (t : Token) : Option Token := s.findServiceRecord t

/-- `GetPrevPageAbility`: the page below, else the one the mission was opened from, else the
launcher's. -/
def getPrevPageAbility (s : AbilityMgr) (current : PageAbilityRecord) (t : Token) :
    Except Fault (Option Token) := do
  let launcher := (s.getTopMissionRecord .launcher).bind (·.getTopPageAbility)
  match current.missionRecord with
  | none => .ok launcher
  | some id => do
    let m ← s.mission id
    match m.getPrevPageAbility t with
    | some p => .ok (some p)
    | none =>
      match m.prevMissionRecord with
      | some prev => do
        let m ← s.mission prev
        .ok m.getTopPageAbility
      | none => .ok launcher

def existAppInStack (s : AbilityMgr) (bundleName : Option CString) : Bool :=
  (s.getTargetMissionRecord (targetStack bundleName) bundleName).isSome

end AbilityMgr
end AbilityLite.Ams
