import AbilityLite.Ams.Steps

/-
  The shape of the mission stacks, which every operation keeps: mission records are
  distinct, no two of a stack are of one bundle, the launcher's are on the launcher's
  stack, and the pages of a mission are live records that are on it and of its bundle.
-/

namespace AbilityLite.Ams
open AbilityMsStatus Fallible Relation

/-- What of a record decides where it is listed. -/
def PageAbilityRecord.place (r : PageAbilityRecord) : Option Nat × AbilityInfo :=
  (r.missionRecord, r.abilityInfo)

theorem Mild.place {r r' : PageAbilityRecord} (h : Mild r r') : r'.place = r.place := by
  unfold PageAbilityRecord.place
  rw [h.missionRecord, h.abilityInfo]

/-- A page of a mission: a live record that is on the mission and of its bundle. -/
def OnMission (records : Store Token PageAbilityRecord) (m : AbilityMissionRecord) (t : Token) :
    Prop :=
  ∃ r, records t = some r ∧ r.missionRecord = some m.id ∧ r.isService = false ∧
    r.abilityInfo.bundleName = m.bundleName

structure MissionShape (records : Store Token PageAbilityRecord) (m : AbilityMissionRecord) :
    Prop where
  home : targetStack m.bundleName = m.abilityMissionStack
  nonempty : m.pageAbilityRecords ≠ []
  nodup : m.pageAbilityRecords.Nodup
  placed : ∀ t ∈ m.pageAbilityRecords, OnMission records m t

namespace AbilityMgr
variable {gen : TokenGenerate} {env : Env} {s s' : AbilityMgr} {t : Token} {a id : Nat}
  {st : StackType} {status : AbilityMsStatus}

def allMissions (s : AbilityMgr) : List AbilityMissionRecord :=
  s.launcherMissionStacks ++ s.defaultMissionStacks ++ s.unlisted

structure Shape (s : AbilityMgr) : Prop where
  ids : (s.allMissions.map (·.id)).Nodup
  below : ∀ m ∈ s.allMissions, m.id < s.missions ∧ ∀ p, m.prevMissionRecord = some p → p < s.missions
  missions : ∀ m ∈ s.allMissions, MissionShape s.records m
  listed : ∀ st, ∀ m ∈ s.stack st, m.abilityMissionStack = st
  names : ∀ st, ∀ m ∈ s.stack st, ∀ m' ∈ s.stack st, ∀ name, m.bundleName = some name →
    m'.bundleName = some name → m = m'
  services : ∀ t ∈ s.serviceRecords, ∃ r, s.records t = some r ∧ r.isService = true
  serviceNodup : s.serviceRecords.Nodup

/-! ## Looking at the lists -/

@[simp] theorem stack_setStack_same (l : List AbilityMissionRecord) :
    (s.setStack st l).stack st = l := by
  cases st <;> rfl

theorem stack_setTop (top : Option StackType) :
    ({ s with topMissionStacks := top } : AbilityMgr).stack st = s.stack st := by
  cases st <;> rfl

theorem stack_setStack_ne {st' : StackType} (l : List AbilityMissionRecord) (h : st' ≠ st) :
    (s.setStack st l).stack st' = s.stack st' := by
  cases st <;> cases st' <;> first | rfl | exact absurd rfl h

@[simp] theorem records_setStack (l : List AbilityMissionRecord) :
    (s.setStack st l).records = s.records := by cases st <;> rfl
@[simp] theorem unlisted_setStack (l : List AbilityMissionRecord) :
    (s.setStack st l).unlisted = s.unlisted := by cases st <;> rfl
@[simp] theorem top_setStack (l : List AbilityMissionRecord) :
    (s.setStack st l).topMissionStacks = s.topMissionStacks := by cases st <;> rfl
@[simp] theorem missions_setStack (l : List AbilityMissionRecord) :
    (s.setStack st l).missions = s.missions := by cases st <;> rfl
@[simp] theorem services_setStack (l : List AbilityMissionRecord) :
    (s.setStack st l).serviceRecords = s.serviceRecords := by cases st <;> rfl
@[simp] theorem appRecords_setStack (l : List AbilityMissionRecord) :
    (s.setStack st l).appRecords = s.appRecords := by cases st <;> rfl
@[simp] theorem sent_setStack (l : List AbilityMissionRecord) :
    (s.setStack st l).sent = s.sent := by cases st <;> rfl
@[simp] theorem generated_setStack (l : List AbilityMissionRecord) :
    (s.setStack st l).generated = s.generated := by cases st <;> rfl

@[simp] theorem stack_modifyMission (f : AbilityMissionRecord → AbilityMissionRecord) :
    (s.modifyMission id f).stack st = updateMission id f (s.stack st) := by cases st <;> rfl

theorem allMissions_modifyMission (f : AbilityMissionRecord → AbilityMissionRecord) :
    (s.modifyMission id f).allMissions = updateMission id f s.allMissions := by
  unfold allMissions updateMission
  rw [List.map_append, List.map_append]
  rfl

theorem mem_allMissions {m : AbilityMissionRecord} :
    m ∈ s.allMissions ↔ (∃ st, m ∈ s.stack st) ∨ m ∈ s.unlisted := by
  unfold allMissions
  rw [List.mem_append, List.mem_append]
  refine or_congr ⟨?_, ?_⟩ Iff.rfl
  · rintro (h | h)
    · exact ⟨.launcher, h⟩
    · exact ⟨.default, h⟩
  · rintro ⟨st, h⟩
    cases st
    · exact .inl h
    · exact .inr h

theorem mem_all_of_stack {m : AbilityMissionRecord} (h : m ∈ s.stack st) : m ∈ s.allMissions :=
  mem_allMissions.mpr (.inl ⟨st, h⟩)

/-- The page is on a mission of one of the two stacks. -/
def OnStack (s : AbilityMgr) (p : Token) : Prop := ∃ st, ∃ m ∈ s.stack st, p ∈ m.pageAbilityRecords

/-- The pages and services that can be found. -/
def Listed (s : AbilityMgr) (t : Token) : Prop :=
  (∃ st, ∃ m ∈ s.stack st, t ∈ m.pageAbilityRecords) ∨ t ∈ s.serviceRecords

theorem findPage_eq_some {l : List AbilityMissionRecord} {p : Token} :
    findPage t l = some p ↔ p = t ∧ ∃ m ∈ l, t ∈ m.pageAbilityRecords := by
  unfold findPage
  split
  · next h =>
    simp only [List.any_eq_true, List.contains_iff_mem] at h
    exact ⟨fun hp => (by cases hp; exact ⟨rfl, h⟩), fun hp => (by rw [hp.1])⟩
  · next h =>
    simp only [List.any_eq_true, List.contains_iff_mem] at h
    exact ⟨fun hp => (by cases hp), fun hp => absurd hp.2 h⟩

theorem findServiceRecord_eq_some {p : Token} :
    s.findServiceRecord t = some p ↔ p = t ∧ t ∈ s.serviceRecords := by
  unfold findServiceRecord
  constructor
  · intro h
    have hp : p = t := of_decide_eq_true (List.find?_some (p := fun q => decide (q = t)) h)
    subst hp
    exact ⟨rfl, List.mem_of_find?_eq_some h⟩
  · rintro ⟨rfl, h⟩
    cases hf : s.serviceRecords.find? (fun q => decide (q = p)) with
    | none =>
      have hno := List.find?_eq_none.mp hf p h
      rw [decide_eq_true rfl] at hno
      exact absurd rfl hno
    | some q =>
      rw [of_decide_eq_true (List.find?_some (p := fun q => decide (q = p)) hf)]

theorem findPageAbility_eq_some {p : Token} :
    s.findPageAbility t = some p ↔ p = t ∧ s.Listed t := by
  unfold findPageAbility Listed
  constructor
  · intro h
    split at h
    · next q hq =>
      cases h
      obtain ⟨hp, m, hm, ht⟩ := findPage_eq_some.mp hq
      exact ⟨hp, .inl ⟨.default, m, hm, ht⟩⟩
    · split at h
      · next q hq =>
        cases h
        obtain ⟨hp, m, hm, ht⟩ := findPage_eq_some.mp hq
        exact ⟨hp, .inl ⟨.launcher, m, hm, ht⟩⟩
      · obtain ⟨hp, ht⟩ := findServiceRecord_eq_some.mp h
        exact ⟨hp, .inr ht⟩
  · rintro ⟨rfl, h⟩
    cases hd : findPage p s.defaultMissionStacks with
    | some q => rw [(findPage_eq_some.mp hd).1]
    | none =>
      cases hl : findPage p s.launcherMissionStacks with
      | some q => rw [(findPage_eq_some.mp hl).1]
      | none =>
        rcases h with ⟨st, m, hm, ht⟩ | h
        · cases st with
          | launcher =>
            have hl' : findPage p s.launcherMissionStacks = some p :=
              findPage_eq_some.mpr ⟨rfl, m, hm, ht⟩
            rw [hl'] at hl
            cases hl
          | default =>
            have hd' : findPage p s.defaultMissionStacks = some p :=
              findPage_eq_some.mpr ⟨rfl, m, hm, ht⟩
            rw [hd'] at hd
            cases hd
        · exact findServiceRecord_eq_some.mpr ⟨rfl, h⟩

/-- A listed ability is live. -/
theorem Shape.live (h : s.Shape) (ht : s.Listed t) : ∃ r, s.records t = some r := by
  rcases ht with ⟨st, m, hm, ht⟩ | ht
  · obtain ⟨r, hr, -⟩ := (h.missions m (mem_all_of_stack hm)).placed t ht
    exact ⟨r, hr⟩
  · obtain ⟨r, hr, -⟩ := h.services t ht
    exact ⟨r, hr⟩

theorem Shape.mission_eq (h : s.Shape) {m : AbilityMissionRecord} (hm : m ∈ s.allMissions) :
    s.mission m.id = .ok m := by
  unfold mission
  have hfind : s.allMissions.find? (fun m' => decide (m'.id = m.id)) = some m :=
    Keyed.find?_key h.ids hm rfl
  unfold allMissions at hfind
  rw [hfind]

theorem mission_eq_ok {m : AbilityMissionRecord} (h : s.mission id = .ok m) :
    m ∈ s.allMissions ∧ m.id = id := by
  unfold mission at h
  split at h
  · next m' hfind =>
    cases h
    exact Keyed.key_of_find? hfind
  · cases h

/-- A page is on one mission only. -/
theorem Shape.one_mission (h : s.Shape) {m m' : AbilityMissionRecord} (hm : m ∈ s.allMissions)
    (hm' : m' ∈ s.allMissions) (ht : t ∈ m.pageAbilityRecords)
    (ht' : t ∈ m'.pageAbilityRecords) : m = m' := by
  obtain ⟨r, hr, hid, -⟩ := (h.missions m hm).placed t ht
  obtain ⟨r', hr', hid', -⟩ := (h.missions m' hm').placed t ht'
  rw [hr] at hr'
  cases hr'
  rw [hid] at hid'
  exact Keyed.eq_of_key_eq h.ids hm hm' (Option.some.inj hid')

/-- A page is no service. -/
theorem Shape.page_not_service (h : s.Shape) {m : AbilityMissionRecord} (hm : m ∈ s.allMissions)
    (ht : t ∈ m.pageAbilityRecords) : t ∉ s.serviceRecords := by
  intro hs
  obtain ⟨r, hr, -, hpage, -⟩ := (h.missions m hm).placed t ht
  obtain ⟨r', hr', hservice⟩ := h.services t hs
  rw [hr] at hr'
  cases hr'
  rw [hpage] at hservice
  cases hservice

theorem getTargetMissionRecord_mem {name : Option CString} {m : AbilityMissionRecord}
    (h : s.getTargetMissionRecord st name = some m) :
    m ∈ s.stack st ∧ m.bundleName = name ∧ name.isSome := by
  unfold getTargetMissionRecord at h
  have hmem := List.mem_of_find?_eq_some h
  have hsame : m.isSameMissionRecord name = true :=
    List.find?_some (p := fun m : AbilityMissionRecord => m.isSameMissionRecord name) h
  unfold AbilityMissionRecord.isSameMissionRecord at hsame
  rw [Bool.and_eq_true, beq_iff_eq] at hsame
  exact ⟨hmem, hsame.2, hsame.1⟩

theorem getTargetMissionRecord_none {name : Option CString}
    (h : s.getTargetMissionRecord st name = none) (hname : name.isSome) :
    ∀ m ∈ s.stack st, m.bundleName ≠ name := by
  intro m hm hmn
  have hno := List.find?_eq_none.mp h m hm
  refine hno ?_
  unfold AbilityMissionRecord.isSameMissionRecord
  rw [hname, hmn, beq_self_eq_true, Bool.and_self]

/-! ## Steps that leave the lists alone -/

structure SameLists (s s' : AbilityMgr) : Prop where
  launcher : s'.launcherMissionStacks = s.launcherMissionStacks
  default : s'.defaultMissionStacks = s.defaultMissionStacks
  unlisted : s'.unlisted = s.unlisted
  top : s'.topMissionStacks = s.topMissionStacks
  missions : s'.missions = s.missions
  services : s'.serviceRecords = s.serviceRecords

namespace SameLists

theorem refl (s : AbilityMgr) : SameLists s s := ⟨rfl, rfl, rfl, rfl, rfl, rfl⟩

theorem trans {s s' s'' : AbilityMgr} (h : SameLists s s') (h' : SameLists s' s'') : SameLists s s'' :=
  ⟨h'.1.trans h.1, h'.2.trans h.2, h'.3.trans h.3, h'.4.trans h.4, h'.5.trans h.5, h'.6.trans h.6⟩

theorem stack (h : SameLists s s') (st : StackType) : s'.stack st = s.stack st := by
  cases st
  · exact h.launcher
  · exact h.default

theorem allMissions (h : SameLists s s') : s'.allMissions = s.allMissions := by
  unfold AbilityMgr.allMissions
  rw [h.launcher, h.default, h.unlisted]

theorem onStack (h : SameLists s s') : s'.OnStack t ↔ s.OnStack t := by
  unfold OnStack
  simp only [h.stack]

theorem listed (h : SameLists s s') : s'.Listed t ↔ s.Listed t := by
  unfold Listed
  rw [h.services]
  simp only [h.stack]

end SameLists

/-- The tokens the lists mention, also those of a mission no stack took. -/
def Placed (s : AbilityMgr) (t : Token) : Prop :=
  (∃ m ∈ s.allMissions, t ∈ m.pageAbilityRecords) ∨ t ∈ s.serviceRecords

theorem OnMission.of_place {records records' : Store Token PageAbilityRecord}
    {m : AbilityMissionRecord} (h : OnMission records m t)
    (hr : ∀ r, records t = some r → ∃ r', records' t = some r' ∧ r'.place = r.place) :
    OnMission records' m t := by
  obtain ⟨r, hrec, hid, hpage, hname⟩ := h
  obtain ⟨r', hr', hplace⟩ := hr r hrec
  have hm : r'.missionRecord = r.missionRecord := congrArg Prod.fst hplace
  have hi : r'.abilityInfo = r.abilityInfo := congrArg Prod.snd hplace
  exact ⟨r', hr', hm.trans hid, by rw [PageAbilityRecord.isService, hi]; exact hpage,
    by rw [hi]; exact hname⟩

/-- The shape depends on the lists, and on where the records are that the lists mention. -/
theorem Shape.of_lists (h : s.Shape) (hl : SameLists s s')
    (hr : ∀ t, s.Placed t → ∀ r, s.records t = some r →
      ∃ r', s'.records t = some r' ∧ r'.place = r.place) : s'.Shape := by
  have hall := hl.allMissions
  refine ⟨by rw [hall]; exact h.ids, ?_, ?_, ?_, ?_, ?_, by rw [hl.services]; exact h.serviceNodup⟩
  · rw [hall, hl.missions]
    exact h.below
  · rw [hall]
    intro m hm
    have hs := h.missions m hm
    exact ⟨hs.home, hs.nonempty, hs.nodup, fun t ht =>
      OnMission.of_place (hs.placed t ht) (hr t (.inl ⟨m, hm, ht⟩))⟩
  · intro st
    rw [hl.stack]
    exact h.listed st
  · intro st
    rw [hl.stack]
    exact h.names st
  · rw [hl.services]
    intro t ht
    obtain ⟨r, hrec, hservice⟩ := h.services t ht
    obtain ⟨r', hr', hplace⟩ := hr t (.inr ht) r hrec
    have hi : r'.abilityInfo = r.abilityInfo := congrArg Prod.snd hplace
    exact ⟨r', hr', by rw [PageAbilityRecord.isService, hi]; exact hservice⟩

/-- The lists are the same, and every record is where it was. -/
structure Kept (s s' : AbilityMgr) : Prop extends SameLists s s' where
  places : ∀ t, (s'.records t).map (·.place) = (s.records t).map (·.place)

namespace Kept

theorem refl (s : AbilityMgr) : Kept s s := ⟨.refl s, fun _ => rfl⟩

theorem trans {s s' s'' : AbilityMgr} (h : Kept s s') (h' : Kept s' s'') : Kept s s'' :=
  ⟨h.toSameLists.trans h'.toSameLists, fun t => (h'.places t).trans (h.places t)⟩

theorem record (h : Kept s s') {r : PageAbilityRecord} (hr : s.records t = some r) :
    ∃ r', s'.records t = some r' ∧ r'.place = r.place := by
  have hp := h.places t
  rw [hr, Option.map_some, Option.map_eq_some_iff] at hp
  exact hp

theorem isSome (h : Kept s s') : (s'.records t).isSome = (s.records t).isSome := by
  have hp := congrArg Option.isSome (h.places t)
  rwa [Option.isSome_map, Option.isSome_map] at hp

theorem modify {f : PageAbilityRecord → PageAbilityRecord} (hf : ∀ r, (f r).place = r.place) :
    Kept s (s.modify t f) := by
  refine ⟨⟨rfl, rfl, rfl, rfl, rfl, rfl⟩, fun t' => ?_⟩
  show (s.records.modify t f t').map _ = _
  by_cases ht : t' = t
  · subst ht
    rw [Store.modify_same, Option.map_map]
    cases s.records t' with
    | none => rfl
    | some r => exact congrArg some (hf r)
  · rw [Store.modify_ne _ _ ht]

theorem send (m : Transaction) : Kept s (s.send a m) := by
  cases m with
  | lifecycle state want type =>
    have hplaces := (modify (s := s) (t := state.token) (f := (·.transact)) fun _ => rfl).places
    exact ⟨⟨rfl, rfl, rfl, rfl, rfl, rfl⟩, hplaces⟩
  | _ => exact ⟨⟨rfl, rfl, rfl, rfl, rfl, rfl⟩, fun _ => rfl⟩

theorem modifyApp (f : AppRecord → AppRecord) : Kept s (s.modifyApp a f) :=
  ⟨⟨rfl, rfl, rfl, rfl, rfl, rfl⟩, fun _ => rfl⟩

theorem calm (h : ReflTransGen (Calm gen env) s s') : Kept s s' := by
  induction h with
  | refl => exact .refl s
  | tail _ hstep ih =>
    refine ih.trans ?_
    cases hstep with
    | edit t f hf => exact modify fun r => (hf r).place
    | ask t r a m => exact send m
    | tell a m => exact send m
    | _ => exact ⟨⟨rfl, rfl, rfl, rfl, rfl, rfl⟩, fun _ => rfl⟩

end Kept

theorem Shape.of_kept (h : s.Shape) (hk : Kept s s') : s'.Shape :=
  h.of_lists hk.toSameLists fun _ _ _ hr => hk.record hr

end AbilityMgr
end AbilityLite.Ams
