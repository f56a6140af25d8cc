import AbilityLite.Ams.Stacks
import Mathlib.Data.List.TakeDrop

/-
  `GeneratePageAbility`, `RemovePageAbility` and `ClearAbilityStack`, and the operations on
  the list of services: what each leaves of the lists and of the records.
-/

namespace AbilityLite.Ams
open AbilityMsStatus Fallible Relation
namespace AbilityMgr
variable {gen : TokenGenerate} {env : Env} {s s' : AbilityMgr} {t : Token} {a id : Nat}
  {st : StackType} {status : AbilityMsStatus} {m : AbilityMissionRecord}

/-! ## Steps on the lists alone -/

theorem onlyLists_setStack (l : List AbilityMissionRecord) : OnlyLists s (s.setStack st l) := by
  cases st <;> exact ⟨rfl, rfl, rfl, rfl, rfl⟩

theorem onlyLists_modifyMission (f : AbilityMissionRecord → AbilityMissionRecord) :
    OnlyLists s (s.modifyMission id f) := ⟨rfl, rfl, rfl, rfl, rfl⟩

theorem quiet_lists (h : OnlyLists s s') : ReflTransGen (Quiet gen env) s s' := .single (.shelve h)

theorem onlyLists_removeMissionRecord : OnlyLists s (s.removeMissionRecord st id) :=
  onlyLists_setStack _

theorem pushTopMissionRecord_quiet :
    ReflTransGen (Quiet gen env) s (s.pushTopMissionRecord m) := by
  unfold pushTopMissionRecord
  dsimp only
  split
  · exact quiet_lists ⟨rfl, rfl, rfl, rfl, rfl⟩
  · exact quiet_lists (onlyLists_setStack _)

theorem moveMissionRecordToTop_quiet (h : s.moveMissionRecordToTop st id = .ok s') :
    ReflTransGen (Quiet gen env) s s' := by
  obtain ⟨l, -, rfl⟩ := moveMissionRecordToTop_cases h
  exact quiet_lists (onlyLists_setStack l)

/-! ## New pages -/

/-- The record the constructor makes. -/
def newRecord (s : AbilityMgr) (info : AbilityInfo) (want : Want) : PageAbilityRecord where
  abilityInfo := info
  want := want.copy
  appRecord := (s.getAppRecordByBundleName info.bundleName).map (·.identityId)

theorem newPageAbility_self {info : AbilityInfo} {want : Want} :
    (s.newPageAbility gen info want).2.records (gen.generate s.generated) =
      some (s.newRecord info want) :=
  Store.insert_same s.records _

/-- The mission record of a new page. -/
def newMissionRecord (s : AbilityMgr) (target : AbilityInfo) (st : StackType) (t : Token) :
    AbilityMissionRecord where
  id := s.missions
  abilityMissionStack := st
  bundleName := target.bundleName
  pageAbilityRecords := [t]

theorem newMission_cases {target : AbilityInfo} {want : Want}
    (h : s.newMission gen target want st = (t, id, s')) :
    t = gen.generate s.generated ∧ id = s.missions ∧
      ∃ s₁, s₁ = (s.newPageAbility gen target want).2 ∧
        s' = (({ s₁ with missions := id + 1 } : AbilityMgr).modify t
          (·.setMissionRecord id)).pushTopMissionRecord (s.newMissionRecord target st t) := by
  cases h
  exact ⟨rfl, rfl, _, rfl, rfl⟩

theorem newPage_cases {target : AbilityInfo} {want : Want}
    (h : s.newPage gen target want id = (t, s')) :
    t = gen.generate s.generated ∧
      ∃ s₁, s₁ = (s.newPageAbility gen target want).2 ∧
        s' = (s₁.modify t (·.setMissionRecord id)).modifyMission id (·.pushPageAbility t) := by
  cases h
  exact ⟨rfl, _, rfl, rfl⟩

/-- A page that was just created is put on its mission. -/
theorem place_quiet {s₁ : AbilityMgr} {info : AbilityInfo} {want : Want}
    (h : s₁ = (s.newPageAbility gen info want).2) (s₂ : AbilityMgr) (h₂ : OnlyLists s₁ s₂) :
    ReflTransGen (Quiet gen env) s (s₂.modify (gen.generate s.generated) (·.setMissionRecord id)) := by
  subst h
  refine (ReflTransGen.single (.create s info want)).trans ((quiet_lists h₂).trans (.single ?_))
  refine .place s₂ _ _ fun r hr => ?_
  rw [h₂.records, newPageAbility_self] at hr
  cases hr
  rfl

theorem newMission_quiet {target : AbilityInfo} {want : Want}
    (h : s.newMission gen target want st = (t, id, s')) : ReflTransGen (Quiet gen env) s s' := by
  obtain ⟨rfl, rfl, s₁, h₁, rfl⟩ := newMission_cases h
  exact (place_quiet h₁ { s₁ with missions := s.missions + 1 } ⟨rfl, rfl, rfl, rfl, rfl⟩).trans
    pushTopMissionRecord_quiet

theorem newPage_quiet {target : AbilityInfo} {want : Want}
    (h : s.newPage gen target want id = (t, s')) : ReflTransGen (Quiet gen env) s s' := by
  obtain ⟨rfl, s₁, h₁, rfl⟩ := newPage_cases h
  exact (place_quiet h₁ s₁ ⟨rfl, rfl, rfl, rfl, rfl⟩).trans (quiet_lists (onlyLists_modifyMission _))

/-- A page of a mission that is placed there while it is new. -/
theorem onMission_new {s₁ : AbilityMgr} {info : AbilityInfo} {want : Want}
    (h : s₁ = (s.newPageAbility gen info want).2) (hpage : info.abilityType ≠ .service)
    (hname : info.bundleName = m.bundleName) :
    OnMission (s₁.modify (gen.generate s.generated) (·.setMissionRecord m.id)).records m
      (gen.generate s.generated) := by
  subst h
  refine ⟨_, modify_self newPageAbility_self, rfl, ?_, hname⟩
  exact decide_eq_false hpage

theorem Shape.fresh (h : s.Shape) (hfresh : s.records t = none) : ¬ s.Placed t := by
  rintro (⟨m, hm, ht⟩ | ht)
  · obtain ⟨r, hr, -⟩ := (h.missions m hm).placed t ht
    rw [hfresh] at hr
    cases hr
  · obtain ⟨r, hr, -⟩ := h.services t ht
    rw [hfresh] at hr
    cases hr

/-- Putting a new page on a mission leaves the others in place. -/
theorem Shape.place {s₁ : AbilityMgr} {info : AbilityInfo} {want : Want} (h : s.Shape)
    (h₁ : s₁ = (s.newPageAbility gen info want).2)
    (hfresh : s.records (gen.generate s.generated) = none) :
    (s₁.modify (gen.generate s.generated) (·.setMissionRecord id)).Shape := by
  subst h₁
  refine h.of_lists ⟨rfl, rfl, rfl, rfl, rfl, rfl⟩ fun t ht r hr => ⟨r, ?_, rfl⟩
  have hne : t ≠ gen.generate s.generated := fun he => h.fresh hfresh (he ▸ ht)
  show (s.records.insert _ _).modify _ _ t = some r
  rw [Store.modify_ne _ _ hne, Store.insert_ne _ _ hne]
  exact hr

theorem Shape.moreMissions (h : s.Shape) : ({ s with missions := s.missions + 1 } : AbilityMgr).Shape := by
  refine ⟨h.ids, fun m hm => ?_, h.missions, fun st => ?_, fun st => ?_, h.services, h.serviceNodup⟩
  · exact ⟨Nat.lt_succ_of_lt (h.below m hm).1, fun p hp => Nat.lt_succ_of_lt ((h.below m hm).2 p hp)⟩
  · cases st
    · exact h.listed .launcher
    · exact h.listed .default
  · cases st
    · exact h.names .launcher
    · exact h.names .default

theorem Shape.newMission {target : AbilityInfo} {want : Want} (h : s.Shape)
    (hfresh : s.records (gen.generate s.generated) = none)
    (hnone : s.getTargetMissionRecord (targetStack target.bundleName) target.bundleName = none)
    (hpage : target.abilityType ≠ .service)
    (hs : s.newMission gen target want (targetStack target.bundleName) = (t, id, s')) : s'.Shape := by
  obtain ⟨rfl, rfl, s₁, h₁, rfl⟩ := newMission_cases hs
  have hbase : ((({ s₁ with missions := s.missions + 1 } : AbilityMgr).modify
      (gen.generate s.generated) (·.setMissionRecord s.missions))).Shape := by
    subst h₁
    exact Shape.place (s := { s with missions := s.missions + 1 }) h.moreMissions
      (rfl : _ = (({ s with missions := s.missions + 1 } : AbilityMgr).newPageAbility gen target want).2)
      hfresh
  have hnew : (s.newMissionRecord target (targetStack target.bundleName)
      (gen.generate s.generated)).id = s.missions := rfl
  refine hbase.pushTopMissionRecord ?_ ⟨?_, fun p hp => (by cases hp)⟩
    ⟨rfl, List.cons_ne_nil _ _, List.pairwise_singleton _ _, ?_⟩ ?_
  · subst h₁
    exact fun m' hm' => Nat.ne_of_lt (h.below m' hm').1
  · exact Nat.lt_succ_self s.missions
  · intro t ht
    rw [List.mem_singleton.mp ht]
    subst h₁
    refine ⟨(s.newRecord target want).setMissionRecord s.missions, ?_, rfl,
      decide_eq_false hpage, rfl⟩
    show (s.records.insert _ _).modify _ _ _ = _
    rw [Store.modify_same, Store.insert_same]
    rfl
  · subst h₁
    intro m' hm' name hname hm'name
    have hm : m' ∈ s.stack (targetStack target.bundleName) := by
      revert hm'
      show m' ∈ stack _ (targetStack target.bundleName) → _
      cases targetStack target.bundleName <;> exact id
    have hbundle : target.bundleName = some name := hname
    exact getTargetMissionRecord_none hnone (by rw [hbundle]; rfl) m' hm (hm'name.trans hbundle.symm)

theorem Shape.newPage {target : AbilityInfo} {want : Want} (h : s.Shape)
    (hfresh : s.records (gen.generate s.generated) = none) (hm : m ∈ s.allMissions)
    (hname : m.bundleName = target.bundleName) (hpage : target.abilityType ≠ .service)
    (hs : s.newPage gen target want m.id = (t, s')) : s'.Shape := by
  obtain ⟨rfl, s₁, h₁, rfl⟩ := newPage_cases hs
  have hbase : (s₁.modify (gen.generate s.generated) (·.setMissionRecord m.id)).Shape :=
    h.place h₁ hfresh
  have hmem (m' : AbilityMissionRecord) :
      m' ∈ (s₁.modify (gen.generate s.generated) (·.setMissionRecord m.id)).allMissions ↔
        m' ∈ s.allMissions := by
    subst h₁
    exact Iff.rfl
  refine hbase.modifyMission (stays_pushPageAbility _) ?_ ?_
  · intro m' hm' _ p hp
    refine (hbase.below m' hm').2 p ?_
    unfold AbilityMissionRecord.pushPageAbility at hp
    split at hp <;> exact hp
  · intro m' hm' hid
    have hmm : m' = m := Keyed.eq_of_key_eq h.ids ((hmem m').mp hm') hm hid
    subst hmm
    have hshape := hbase.missions m' hm'
    unfold AbilityMissionRecord.pushPageAbility
    split
    · exact hshape
    · refine ⟨hshape.home, List.append_ne_nil_of_right_ne_nil _ (List.cons_ne_nil _ _), ?_, ?_⟩
      · refine List.nodup_append.mpr ⟨hshape.nodup, List.pairwise_singleton _ _, ?_⟩
        intro p hp q hq hpq
        rw [List.mem_singleton.mp hq] at hpq
        exact h.fresh hfresh (.inl ⟨m', hm, hpq ▸ hp⟩)
      · intro p hp
        rcases List.mem_append.mp hp with hp | hp
        · exact hshape.placed p hp
        · rw [List.mem_singleton.mp hp]
          exact onMission_new h₁ hpage hname.symm

/-! ## Deleting -/

/-- The lists are the same, the records of some tokens are gone, and the others are where they
were. -/
structure Gone (ts : List Token) (s s' : AbilityMgr) : Prop extends SameLists s s' where
  gone : ∀ t ∈ ts, s'.records t = none
  places : ∀ t, t ∉ ts → (s'.records t).map (·.place) = (s.records t).map (·.place)

namespace Gone
variable {ts ts' : List Token}

theorem of_kept (h : Kept s s') : Gone [] s s' :=
  ⟨h.toSameLists, fun _ ht => absurd ht List.not_mem_nil, fun t _ => h.places t⟩

theorem trans {s s' s'' : AbilityMgr} (h : Gone ts s s') (h' : Gone ts' s' s'') :
    Gone (ts ++ ts') s s'' := by
  refine ⟨h.toSameLists.trans h'.toSameLists, fun t ht => ?_, fun t ht => ?_⟩
  · by_cases ht' : t ∈ ts'
    · exact h'.gone t ht'
    · have hp := h'.places t ht'
      rw [h.gone t ((List.mem_append.mp ht).resolve_right ht'), Option.map_none] at hp
      exact Option.map_eq_none_iff.mp hp
  · rw [List.mem_append, not_or] at ht
    exact (h'.places t ht.2).trans (h.places t ht.1)

/-- A record that is there was there, where it is. -/
theorem before (h : Gone ts s s') {r : PageAbilityRecord} (hr : s'.records t = some r) :
    t ∉ ts ∧ ∃ r₀, s.records t = some r₀ ∧ r.place = r₀.place := by
  have ht : t ∉ ts := fun ht => by rw [h.gone t ht] at hr; cases hr
  have hp := h.places t ht
  rw [hr, Option.map_some] at hp
  obtain ⟨r₀, hr₀, hplace⟩ := Option.map_eq_some_iff.mp hp.symm
  exact ⟨ht, r₀, hr₀, hplace.symm⟩

theorem after (h : Gone ts s s') (ht : t ∉ ts) {r : PageAbilityRecord} (hr : s.records t = some r) :
    ∃ r', s'.records t = some r' ∧ r'.place = r.place := by
  have hp := h.places t ht
  rw [hr, Option.map_some] at hp
  exact Option.map_eq_some_iff.mp hp

/-- The lists may be other ones. -/
theorem relist {x y : AbilityMgr} (h : Gone ts s s') (hl : SameLists x y)
    (hx : x.records = s.records) (hy : y.records = s'.records) : Gone ts x y := by
  refine ⟨hl, ?_, ?_⟩
  · rw [hy]
    exact h.gone
  · rw [hx, hy]
    exact h.places

/-- Records no list mentions may go. -/
theorem shape (h : Gone ts s s') (hs : s.Shape) (hts : ∀ t ∈ ts, ¬ s.Placed t) : s'.Shape :=
  hs.of_lists h.toSameLists fun t ht _ hr => h.after (fun hmem => hts t hmem ht) hr

end Gone

theorem delete_gone (h : s.delete t = .ok s') : Gone [t] s s' := by
  obtain ⟨r, hr, ⟨_, rfl⟩ | ⟨a, app, _, _, rfl⟩⟩ := delete_cases h
  all_goals
    refine ⟨⟨rfl, rfl, rfl, rfl, rfl, rfl⟩, fun t' ht' => ?_, fun t' ht' => ?_⟩
    · rw [List.mem_singleton.mp ht']
      exact Store.erase_same s.records
    · have hne : t' ≠ t := fun he => ht' (List.mem_singleton.mpr he)
      exact congrArg _ (Store.erase_ne s.records hne)

theorem delete_quiet (h : s.delete t = .ok s') : ReflTransGen (Quiet gen env) s s' :=
  .single (.delete s s' t h)

theorem deletePages_gone {ts : List Token} (h : deletePages ts s = .ok s') : Gone ts s s' := by
  induction ts generalizing s with
  | nil =>
    cases h
    exact .of_kept (.refl _)
  | cons t ts ih =>
    simp only [deletePages, bind_eq_ok] at h
    obtain ⟨s₁, h₁, h⟩ := h
    exact (delete_gone h₁).trans (ih h)

theorem deletePages_quiet {ts : List Token} (h : deletePages ts s = .ok s') :
    ReflTransGen (Quiet gen env) s s' := by
  induction ts generalizing s with
  | nil =>
    cases h
    exact .refl
  | cons t ts ih =>
    simp only [deletePages, bind_eq_ok] at h
    obtain ⟨s₁, h₁, h⟩ := h
    exact (delete_quiet h₁).trans (ih h)

/-! ## Taking a mission out -/

/-- The mission is on no stack and in no other place. -/
def dropMission (s : AbilityMgr) (st : StackType) (id : Nat) : AbilityMgr :=
  (s.removeMissionRecord st id).deleteMissionRecord id

/-- What `RemoveMissionRecord` leaves of a stack. -/
theorem mem_removeMissionRecord {m' : AbilityMissionRecord}
    (h : m' ∈ (s.removeMissionRecord st id).stack st) :
    ∃ m ∈ s.stack st, m.id ≠ id ∧ Detached m m' := by
  unfold removeMissionRecord at h
  rw [stack_setStack_same] at h
  obtain ⟨m, hm, rfl⟩ := List.mem_map.mp h
  rw [List.mem_filter, decide_eq_true_eq] at hm
  refine ⟨m, hm.1, hm.2, ?_⟩
  split
  · exact .inr rfl
  · exact .inl rfl

theorem removeMissionRecord_ids :
    (((s.stack st).filter (·.id ≠ id)).map fun m =>
      if m.prevMissionRecord = some id then m.setPrevMissionRecord none else m).map (·.id) =
        ((s.stack st).filter (·.id ≠ id)).map (·.id) := by
  rw [List.map_map]
  refine List.map_congr_left fun m _ => ?_
  simp only [Function.comp_apply]
  split <;> rfl

theorem Shape.removeMissionRecord (h : s.Shape) : (s.removeMissionRecord st id).Shape := by
  refine h.setStack ?_ fun m' hm' => ?_
  · rw [removeMissionRecord_ids]
    exact (h.stack_ids st).sublist (List.filter_sublist.map _)
  · have hremoved : m' ∈ (s.removeMissionRecord st id).stack st := by
      unfold AbilityMgr.removeMissionRecord
      rw [stack_setStack_same]
      exact hm'
    obtain ⟨m, hm, _, hd⟩ := mem_removeMissionRecord hremoved
    exact ⟨m, hm, hd⟩

theorem Shape.deleteMissionRecord (h : s.Shape) : (s.deleteMissionRecord id).Shape := by
  have hsub : (s.deleteMissionRecord id).allMissions.Sublist s.allMissions :=
    List.filter_sublist.append_left _
  refine ⟨h.ids.sublist (hsub.map _), fun m hm => h.below m (hsub.subset hm),
    fun m hm => h.missions m (hsub.subset hm), fun st => ?_, fun st => ?_, h.services, h.serviceNodup⟩
  · cases st
    · exact h.listed .launcher
    · exact h.listed .default
  · cases st
    · exact h.names .launcher
    · exact h.names .default

theorem Shape.dropMission (h : s.Shape) : (s.dropMission st id).Shape :=
  h.removeMissionRecord.deleteMissionRecord

/-- The other missions stay, perhaps with nowhere to go back to. -/
theorem mem_dropMission (h : s.Shape) (hm : m ∈ s.allMissions) {m' : AbilityMissionRecord}
    (hm' : m' ∈ (s.dropMission m.abilityMissionStack m.id).allMissions) :
    ∃ m₀ ∈ s.allMissions, m₀.id ≠ m.id ∧ Detached m₀ m' := by
  have hout : ∀ st, m' ∈ s.stack st → st ≠ m.abilityMissionStack → m'.id ≠ m.id := by
    intro st hst hne hid
    rw [Keyed.eq_of_key_eq h.ids (mem_all_of_stack hst) hm hid] at hst
    exact hne (h.listed st m hst).symm
  rcases mem_allMissions.mp hm' with ⟨st, hst⟩ | hun
  · have hst' : m' ∈ (s.removeMissionRecord m.abilityMissionStack m.id).stack st := by
      revert hst
      cases st <;> exact id
    by_cases he : st = m.abilityMissionStack
    · rw [he] at hst'
      obtain ⟨m₀, hm₀, hne, hd⟩ := mem_removeMissionRecord hst'
      exact ⟨m₀, mem_all_of_stack hm₀, hne, hd⟩
    · unfold removeMissionRecord at hst'
      rw [stack_setStack_ne _ he] at hst'
      exact ⟨m', mem_all_of_stack hst', hout st hst' he, .inl rfl⟩
  · have hun' : m' ∈ s.unlisted.filter (·.id ≠ m.id) := by
      unfold dropMission deleteMissionRecord removeMissionRecord at hun
      rw [unlisted_setStack] at hun
      exact hun
    rw [List.mem_filter, decide_eq_true_eq] at hun'
    exact ⟨m', mem_allMissions.mpr (.inr hun'.1), hun'.2, .inl rfl⟩

theorem Detached.pages {m m' : AbilityMissionRecord} (h : Detached m m') :
    m'.pageAbilityRecords = m.pageAbilityRecords := by
  rcases h with rfl | rfl <;> rfl

theorem records_dropMission : (s.dropMission st id).records = s.records := records_setStack _

theorem services_dropMission : (s.dropMission st id).serviceRecords = s.serviceRecords :=
  services_setStack _

theorem Shape.not_placed_dropMission (h : s.Shape) (hm : m ∈ s.allMissions)
    (ht : t ∈ m.pageAbilityRecords) : ¬ (s.dropMission m.abilityMissionStack m.id).Placed t := by
  rintro (⟨m', hm', ht'⟩ | ht')
  · obtain ⟨m₀, hm₀, hne, hd⟩ := mem_dropMission h hm hm'
    rw [hd.pages] at ht'
    exact hne (congrArg _ (h.one_mission hm₀ hm ht' ht))
  · rw [services_dropMission] at ht'
    exact h.page_not_service hm ht ht'

/-- A mission that is emptied first is dropped like any other. -/
theorem sameLists_dropMission {f : AbilityMissionRecord → AbilityMissionRecord} (hf : Stays f)
    (h : s.Shape) (hm : m ∈ s.allMissions) {s₁ : AbilityMgr}
    (hl : SameLists (s.modifyMission m.id f) s₁) :
    SameLists (s.dropMission m.abilityMissionStack m.id)
      (s₁.dropMission m.abilityMissionStack m.id) := by
  have hother : ∀ st, st ≠ m.abilityMissionStack →
      updateMission m.id f (s.stack st) = s.stack st := by
    refine fun st hst => updateMission_ne fun m' hm' hid => ?_
    rw [Keyed.eq_of_key_eq h.ids (mem_all_of_stack hm') hm hid] at hm'
    exact hst (h.listed st m hm').symm
  have hun : s₁.unlisted.filter (·.id ≠ m.id) = s.unlisted.filter (·.id ≠ m.id) := by
    rw [hl.unlisted]
    exact filter_updateMission hf _
  have hsame : (s₁.stack m.abilityMissionStack).filter (·.id ≠ m.id) =
      (s.stack m.abilityMissionStack).filter (·.id ≠ m.id) := by
    rw [hl.stack, stack_modifyMission]
    exact filter_updateMission hf _
  unfold dropMission removeMissionRecord deleteMissionRecord
  rw [hsame]
  cases hst : m.abilityMissionStack with
  | launcher =>
    have hd : s₁.defaultMissionStacks = s.defaultMissionStacks :=
      hl.default.trans (hother .default (by rw [hst]; exact fun h => nomatch h))
    exact ⟨rfl, hd, hun, hl.top, hl.missions, hl.services⟩
  | default =>
    have hl' : s₁.launcherMissionStacks = s.launcherMissionStacks :=
      hl.launcher.trans (hother .launcher (by rw [hst]; exact fun h => nomatch h))
    exact ⟨hl', rfl, hun, hl.top, hl.missions, hl.services⟩

/-! ## RemovePageAbility -/

theorem splitAt_eq (t : Token) (l : List Token) :
    splitAt t l = (l.takeWhile (· ≠ t), l.dropWhile (· ≠ t)) :=
  List.span_eq_takeWhile_dropWhile _ l

theorem splitAt_append (t : Token) (l : List Token) : (splitAt t l).1 ++ (splitAt t l).2 = l := by
  rw [splitAt_eq]
  exact List.takeWhile_append_dropWhile

/-- The mission a page was alone on goes, and the mission it goes back to comes up. -/
inductive Returns (s : AbilityMgr) (m : AbilityMissionRecord) : AbilityMgr → Prop
  | home (hprev : m.prevMissionRecord = none) :
      Returns s m { s.dropMission m.abilityMissionStack m.id with topMissionStacks := some .launcher }
  | back {s' : AbilityMgr} (prev : Nat) (hprev : m.prevMissionRecord = some prev)
      (h : (s.dropMission m.abilityMissionStack m.id).moveMissionRecordToTop m.abilityMissionStack
        prev = .ok s') : Returns s m s'

theorem removePageAbility_cases (h : s.Shape) (hs : s.removePageAbility t = .ok s') :
    ∃ r, s.records t = some r ∧ ((r.missionRecord = none ∧ s' = s) ∨
      ∃ m ∈ s.allMissions, r.missionRecord = some m.id ∧ ∃ below above,
        splitAt t m.pageAbilityRecords = (below, above) ∧
        ((below ≠ [] ∧ Gone above (s.modifyMission m.id (·.setPages below)) s') ∨
          (below = [] ∧ ∃ s₁, Returns s m s₁ ∧ Gone above s₁ s'))) := by
  simp only [removePageAbility, bind_eq_ok, record_eq_ok] at hs
  obtain ⟨r, hr, hs⟩ := hs
  refine ⟨r, hr, ?_⟩
  cases hid : r.missionRecord with
  | none =>
    rw [hid] at hs
    cases hs
    exact .inl ⟨rfl, rfl⟩
  | some id =>
    rw [hid] at hs
    simp only [bind_eq_ok] at hs
    obtain ⟨m, hm, s₁, h₁, hs⟩ := hs
    obtain ⟨hmem, rfl⟩ := mission_eq_ok hm
    refine .inr ⟨m, hmem, rfl, (splitAt t m.pageAbilityRecords).1,
      (splitAt t m.pageAbilityRecords).2, rfl, ?_⟩
    have hgone := deletePages_gone h₁
    split at hs
    · next hbelow =>
      refine .inr ⟨hbelow, ?_⟩
      have hlists := sameLists_dropMission (stays_setPages _) h hmem hgone.toSameLists
      cases hprev : m.prevMissionRecord with
      | none =>
        rw [hprev] at hs
        cases hs
        exact ⟨_, .home hprev, hgone.relist
          ⟨hlists.1, hlists.2, hlists.3, rfl, hlists.5, hlists.6⟩ records_dropMission
          (records_setStack _)⟩
      | some prev =>
        rw [hprev] at hs
        simp only [bind_eq_ok] at hs
        obtain ⟨s₂, h₂, hs⟩ := hs
        cases hs
        obtain ⟨l, hl, rfl⟩ := moveMissionRecordToTop_cases h₂
        have hstack : (s₁.removeMissionRecord m.abilityMissionStack m.id).stack m.abilityMissionStack =
            (s.dropMission m.abilityMissionStack m.id).stack m.abilityMissionStack := by
          rw [← hlists.stack]
          unfold dropMission
          cases m.abilityMissionStack <;> rfl
        refine ⟨(s.dropMission m.abilityMissionStack m.id).setStack m.abilityMissionStack l,
          .back prev hprev ?_, hgone.relist ?_ ?_ ?_⟩
        · rw [hstack] at hl
          unfold moveMissionRecordToTop
          rw [hl]
          rfl
        · revert hlists
          unfold dropMission
          cases m.abilityMissionStack
          · exact fun h => ⟨rfl, h.2, h.3, h.4, h.5, h.6⟩
          · exact fun h => ⟨h.1, rfl, h.3, h.4, h.5, h.6⟩
        · rw [records_setStack]
          exact records_dropMission
        · exact (records_setStack _).trans (records_setStack _)
    · next hbelow =>
      cases hs
      exact .inl ⟨hbelow, hgone⟩

theorem Returns.shape (h : s.Shape) {s₁ : AbilityMgr} (hr : Returns s m s₁) : s₁.Shape := by
  cases hr with
  | home =>
    have hd : (s.dropMission m.abilityMissionStack m.id).Shape := h.dropMission
    refine ⟨hd.ids, hd.below, hd.missions, fun st => ?_, fun st => ?_, hd.services, hd.serviceNodup⟩
    · cases st
      · exact hd.listed .launcher
      · exact hd.listed .default
    · cases st
      · exact hd.names .launcher
      · exact hd.names .default
  | back prev _ hmove => exact h.dropMission.moveMissionRecordToTop hmove

theorem placed_setStack {l : List AbilityMissionRecord} (hl : l.Perm (s.stack st)) :
    (s.setStack st l).Placed t ↔ s.Placed t := by
  unfold Placed
  rw [services_setStack]
  simp only [(allMissions_setStack hl).mem_iff]

theorem Returns.not_placed (h : s.Shape) (hm : m ∈ s.allMissions) (ht : t ∈ m.pageAbilityRecords)
    {s₁ : AbilityMgr} (hr : Returns s m s₁) : ¬ s₁.Placed t := by
  have hd := h.not_placed_dropMission hm ht
  cases hr with
  | home => exact hd
  | back prev _ hmove =>
    obtain ⟨l, hl, rfl⟩ := moveMissionRecordToTop_cases hmove
    rw [placed_setStack (moveToTop_ok hl (h.dropMission.stack_ids _)).1]
    exact hd

theorem Shape.keepBelow (h : s.Shape) (hm : m ∈ s.allMissions) {below above : List Token}
    (hsplit : splitAt t m.pageAbilityRecords = (below, above)) (hbelow : below ≠ []) :
    (s.modifyMission m.id (·.setPages below)).Shape ∧
      ∀ p ∈ above, ¬ (s.modifyMission m.id (·.setPages below)).Placed p := by
  have happ := splitAt_append t m.pageAbilityRecords
  rw [hsplit] at happ
  have hshape := h.missions m hm
  have hnodup := hshape.nodup
  rw [← happ, List.nodup_append] at hnodup
  refine ⟨h.modifyMission (stays_setPages below) ?_ ?_, ?_⟩
  · exact fun m' hm' _ => (h.below m' hm').2
  · intro m' hm' hid
    rw [Keyed.eq_of_key_eq h.ids hm' hm hid]
    refine ⟨hshape.home, hbelow, hnodup.1, fun p hp => hshape.placed p ?_⟩
    rw [← happ]
    exact List.mem_append_left _ hp
  · intro p hp
    have hpm : p ∈ m.pageAbilityRecords := by
      rw [← happ]
      exact List.mem_append_right _ hp
    rintro (⟨m', hm', hp'⟩ | hp')
    · rw [allMissions_modifyMission] at hm'
      obtain ⟨m₀, hm₀, ⟨hid, rfl⟩ | ⟨hid, rfl⟩⟩ := mem_updateMission hm'
      · exact hnodup.2.2 p hp' p hp rfl
      · exact hid (congrArg _ (h.one_mission hm₀ hm hp' hpm))
    · exact h.page_not_service hm hpm hp'

theorem Shape.removePageAbility (h : s.Shape) (hs : s.removePageAbility t = .ok s') : s'.Shape := by
  obtain ⟨r, _, ⟨_, rfl⟩ | ⟨m, hm, _, below, above, hsplit, ⟨hbelow, hgone⟩ | ⟨_, s₁, hr, hgone⟩⟩⟩ :=
    removePageAbility_cases h hs
  · exact h
  · obtain ⟨hshape, hout⟩ := h.keepBelow hm hsplit hbelow
    exact hgone.shape hshape hout
  · refine hgone.shape (hr.shape h) fun p hp => hr.not_placed h hm ?_
    rw [← splitAt_append t m.pageAbilityRecords, hsplit]
    exact List.mem_append_right _ hp

theorem removePageAbility_quiet (hs : s.removePageAbility t = .ok s') :
    ReflTransGen (Quiet gen env) s s' := by
  simp only [removePageAbility, bind_eq_ok, record_eq_ok] at hs
  obtain ⟨r, _, hs⟩ := hs
  split at hs
  · cases hs
    exact .refl
  · next id _ =>
    simp only [bind_eq_ok] at hs
    obtain ⟨m, _, s₁, h₁, hs⟩ := hs
    have hpages : ReflTransGen (Quiet gen env) s s₁ :=
      (quiet_lists (onlyLists_modifyMission _)).trans (deletePages_quiet h₁)
    have hremove : ReflTransGen (Quiet gen env) s₁ (s₁.removeMissionRecord m.abilityMissionStack id) :=
      quiet_lists onlyLists_removeMissionRecord
    refine hpages.trans ?_
    split at hs
    · refine hremove.trans ?_
      split at hs
      · simp only [bind_eq_ok] at hs
        obtain ⟨s₂, h₂, hs⟩ := hs
        cases hs
        exact (moveMissionRecordToTop_quiet h₂).trans (quiet_lists ⟨rfl, rfl, rfl, rfl, rfl⟩)
      · cases hs
        exact quiet_lists ⟨rfl, rfl, rfl, rfl, rfl⟩
    · cases hs
      exact .refl

/-! ## Services -/

/-- Every one of the tokens that is live is a service. -/
def AllServices (s : AbilityMgr) (ts : List Token) : Prop :=
  ∀ t ∈ ts, ∀ r, s.records t = some r → r.isService = true

theorem Shape.allServices (h : s.Shape) : s.AllServices s.serviceRecords := by
  intro t ht r hr
  obtain ⟨r', hr', hservice⟩ := h.services t ht
  rw [hr] at hr'
  cases hr'
  exact hservice

theorem isService_of_place {r r' : PageAbilityRecord} (h : r'.place = r.place) :
    r'.isService = r.isService := by
  have hi : r'.abilityInfo = r.abilityInfo := congrArg Prod.snd h
  unfold PageAbilityRecord.isService
  rw [hi]

theorem AllServices.gone {ts ts' : List Token} (h : s.AllServices ts) (hg : Gone ts' s s') :
    s'.AllServices ts := by
  intro t ht r hr
  obtain ⟨_, r₀, hr₀, hplace⟩ := hg.before hr
  rw [isService_of_place hplace]
  exact h t ht r₀ hr₀

/-- A service is on no mission. -/
theorem Shape.service_off_missions (h : s.Shape) {r : PageAbilityRecord}
    (hr : s.records t = some r) (hservice : r.isService = true) :
    ∀ m ∈ s.allMissions, t ∉ m.pageAbilityRecords := by
  intro m hm ht
  obtain ⟨r', hr', _, hpage, _⟩ := (h.missions m hm).placed t ht
  rw [hr] at hr'
  cases hr'
  rw [hservice] at hpage
  cases hpage

/-- A service that is taken off the list and deleted. -/
theorem Shape.dropService (h : s.Shape) {r : PageAbilityRecord} (hr : s.records t = some r)
    (hservice : r.isService = true)
    (hs : { s with serviceRecords := s.serviceRecords.filter (· ≠ t) }.delete t = .ok s') :
    s'.Shape := by
  refine (delete_gone hs).shape ?_ ?_
  · refine ⟨h.ids, h.below, h.missions, fun st => ?_, fun st => ?_, ?_, ?_⟩
    · cases st
      · exact h.listed .launcher
      · exact h.listed .default
    · cases st
      · exact h.names .launcher
      · exact h.names .default
    · exact fun p hp => h.services p (List.mem_filter.mp hp).1
    · exact h.serviceNodup.sublist List.filter_sublist
  · rintro p hp (⟨m, hm, ht⟩ | ht)
    · rw [List.mem_singleton.mp hp] at ht
      exact h.service_off_missions hr hservice m hm ht
    · have hne := of_decide_eq_true (List.mem_filter.mp ht).2
      exact hne (List.mem_singleton.mp hp)

theorem dropService_quiet
    (hs : { s with serviceRecords := s.serviceRecords.filter (· ≠ t) }.delete t = .ok s') :
    ReflTransGen (Quiet gen env) s s' := by
  have hlist : ReflTransGen (Quiet gen env) s
      { s with serviceRecords := s.serviceRecords.filter (· ≠ t) } :=
    quiet_lists ⟨rfl, rfl, rfl, rfl, rfl⟩
  exact hlist.trans (delete_quiet hs)

theorem removeServiceRecord_cases (hs : s.removeServiceRecord t = .ok s') :
    (t ∈ s.serviceRecords ∧
      { s with serviceRecords := s.serviceRecords.filter (· ≠ t) }.delete t = .ok s') ∨
      (t ∉ s.serviceRecords ∧ s' = s) := by
  unfold removeServiceRecord at hs
  split at hs
  · next ht => exact .inl ⟨ht, hs⟩
  · next ht =>
    cases hs
    exact .inr ⟨ht, rfl⟩

theorem Shape.removeServiceRecord (h : s.Shape) (hs : s.removeServiceRecord t = .ok s') :
    s'.Shape := by
  rcases removeServiceRecord_cases hs with ⟨ht, hs⟩ | ⟨_, rfl⟩
  · obtain ⟨r, hr, hservice⟩ := h.services t ht
    exact h.dropService hr hservice hs
  · exact h

theorem removeServiceRecord_quiet (hs : s.removeServiceRecord t = .ok s') :
    ReflTransGen (Quiet gen env) s s' := by
  rcases removeServiceRecord_cases hs with ⟨_, hs⟩ | ⟨_, rfl⟩
  · exact dropService_quiet hs
  · exact .refl

/-- One round of the loop of `RemoveServiceRecord(const char *)`: a service of another bundle is
passed over, one of the bundle is stopped, taken off the list and deleted. -/
theorem removeServiceRecords_cons {name : CString} {ts : List Token}
    (hs : removeServiceRecords env name (t :: ts) s = .ok s') :
    ∃ r, s.records t = some r ∧
      ((r.abilityInfo.bundleName ≠ some name ∧ removeServiceRecords env name ts s = .ok s') ∨
        (r.abilityInfo.bundleName = some name ∧ ∃ status s₁ s₂,
          s.stopAbilityDone env t = .ok (status, s₁) ∧
          { s₁ with serviceRecords := s₁.serviceRecords.filter (· ≠ t) }.delete t = .ok s₂ ∧
          removeServiceRecords env name ts s₂ = .ok s')) := by
  simp only [removeServiceRecords, bind_eq_ok, record_eq_ok] at hs
  obtain ⟨r, hr, hs⟩ := hs
  refine ⟨r, hr, ?_⟩
  split at hs
  · next hname =>
    simp only [bind_eq_ok] at hs
    obtain ⟨⟨status, s₁⟩, h₁, s₂, h₂, hs⟩ := hs
    exact .inr ⟨hname, status, s₁, s₂, h₁, h₂, hs⟩
  · next hname => exact .inl ⟨hname, hs⟩

/-- What is left of the services and of the records when a bundle's services are removed. -/
theorem removeServiceRecords_shape {name : CString} {ts : List Token} (h : s.Shape)
    (hts : s.AllServices ts) (hs : removeServiceRecords env name ts s = .ok s') :
    s'.Shape ∧ ReflTransGen (Quiet gen env) s s' := by
  induction ts generalizing s with
  | nil =>
    cases hs
    exact ⟨h, .refl⟩
  | cons t ts ih =>
    obtain ⟨r, hr, ⟨_, hs⟩ | ⟨_, status, s₁, s₂, h₁, h₂, hs⟩⟩ := removeServiceRecords_cons hs
    · exact ih h (fun t' ht' => hts t' (List.mem_cons_of_mem _ ht')) hs
    · have hcalm : ReflTransGen (Calm gen env) s s₁ := stopAbilityDone_calm h₁
      have hkept := Kept.calm hcalm
      obtain ⟨r₁, hr₁, hplace⟩ := hkept.record hr
      have hservice : r₁.isService = true := by
        rw [isService_of_place hplace]
        exact hts t List.mem_cons_self r hr
      have hnext : s₂.AllServices ts := by
        have h₀ : s.AllServices ts := fun t' ht' => hts t' (List.mem_cons_of_mem _ ht')
        have h₁' := h₀.gone (Gone.of_kept hkept)
        exact AllServices.gone (s := { s₁ with serviceRecords := s₁.serviceRecords.filter (· ≠ t) })
          h₁' (delete_gone h₂)
      obtain ⟨hshape, hquiet⟩ := ih ((h.of_kept hkept).dropService hr₁ hservice h₂) hnext hs
      exact ⟨hshape, (Calm.quiet hcalm).trans ((dropService_quiet h₂).trans hquiet)⟩

/-! ## ClearAbilityStack -/

theorem AllServices.calm {ts : List Token} (h : s.AllServices ts)
    (hc : ReflTransGen (Calm gen env) s s') : s'.AllServices ts := h.gone (.of_kept (.calm hc))

theorem removeConnectRecords_calm {token : Token} {name : CString} {ts : List Token}
    (hts : s.AllServices ts) (hs : removeConnectRecords env token name ts s = .ok s') :
    ReflTransGen (Calm gen env) s s' := by
  induction ts generalizing s with
  | nil =>
    cases hs
    exact .refl
  | cons t ts ih =>
    have htail : s.AllServices ts := fun t' ht' => hts t' (List.mem_cons_of_mem _ ht')
    simp only [removeConnectRecords, bind_eq_ok, record_eq_ok] at hs
    obtain ⟨r, hr, hs⟩ := hs
    split at hs
    · simp only [bind_eq_ok] at hs
      obtain ⟨s₁, h₁, hs⟩ := hs
      have hcalm : ReflTransGen (Calm gen env) s s₁ :=
        removeConnectRecordByPageToken_calm hr (hts t List.mem_cons_self r hr) h₁
      exact hcalm.trans (ih (htail.calm hcalm) hs)
    · exact ih htail hs

/-- One page of `ClearPageAbility`: its connections go, then it. -/
theorem clearPageAbility_cons {name : Option CString} {ts : List Token}
    (hsv : s.AllServices s.serviceRecords)
    (hs : clearPageAbility env name (t :: ts) s = .ok s') :
    ∃ s₁ s₂, (∀ gen, ReflTransGen (Calm gen env) s s₁) ∧ s₁.delete t = .ok s₂ ∧
      clearPageAbility env name ts s₂ = .ok s' := by
  cases name with
  | none =>
    simp only [clearPageAbility, bind_eq_ok] at hs
    obtain ⟨_, h₁, s₂, h₂, hs⟩ := hs
    cases h₁
    exact ⟨_, s₂, fun _ => .refl, h₂, hs⟩
  | some name =>
    simp only [clearPageAbility, bind_eq_ok] at hs
    obtain ⟨s₁, h₁, s₂, h₂, hs⟩ := hs
    exact ⟨s₁, s₂, fun _ => removeConnectRecords_calm hsv h₁, h₂, hs⟩

theorem clearPageAbility_gone {name : Option CString} {ts : List Token}
    (hsv : s.AllServices s.serviceRecords) (hs : clearPageAbility env name ts s = .ok s') :
    Gone ts s s' := by
  induction ts generalizing s with
  | nil =>
    cases hs
    exact .of_kept (.refl _)
  | cons t ts ih =>
    obtain ⟨s₁, s₂, h₁, h₂, hs⟩ := clearPageAbility_cons hsv hs
    have hkept := Kept.calm (h₁ ⟨fun n => n, fun _ _ h => h⟩)
    have hg : Gone ([] ++ [t]) s s₂ := (Gone.of_kept hkept).trans (delete_gone h₂)
    have hsv₂ : s₂.AllServices s₂.serviceRecords := by
      rw [hg.services]
      exact hsv.gone hg
    exact hg.trans (ih hsv₂ hs)

theorem clearPageAbility_quiet {name : Option CString} {ts : List Token}
    (hsv : s.AllServices s.serviceRecords) (hs : clearPageAbility env name ts s = .ok s') :
    ReflTransGen (Quiet gen env) s s' := by
  induction ts generalizing s with
  | nil =>
    cases hs
    exact .refl
  | cons t ts ih =>
    obtain ⟨s₁, s₂, h₁, h₂, hs⟩ := clearPageAbility_cons hsv hs
    have hg : Gone ([] ++ [t]) s s₂ := (Gone.of_kept (.calm (h₁ gen))).trans (delete_gone h₂)
    have hsv₂ : s₂.AllServices s₂.serviceRecords := by
      rw [hg.services]
      exact hsv.gone hg
    exact (Calm.quiet (h₁ gen)).trans ((delete_quiet h₂).trans (ih hsv₂ hs))

/-- The mission of a bundle, if it has one, is dropped with its pages. -/
theorem removeMissionRecordByName_cases {name : Option CString} (h : s.Shape)
    (hs : s.removeMissionRecordByName env st name = .ok s') :
    (s.getTargetMissionRecord st name = none ∧ s' = s) ∨
      ∃ m ∈ s.allMissions, s.getTargetMissionRecord st name = some m ∧ m.abilityMissionStack = st ∧
        Gone m.pageAbilityRecords (s.dropMission m.abilityMissionStack m.id) s' ∧
        ∃ s₁, clearPageAbility env m.bundleName m.pageAbilityRecords
          (s.modifyMission m.id (·.setPages [])) = .ok s₁ ∧ s' = s₁.dropMission st m.id := by
  unfold removeMissionRecordByName at hs
  cases hm : s.getTargetMissionRecord st name with
  | none =>
    rw [hm] at hs
    cases hs
    exact .inl ⟨rfl, rfl⟩
  | some m =>
    rw [hm] at hs
    simp only [bind_eq_ok] at hs
    obtain ⟨s₁, h₁, hs⟩ := hs
    cases hs
    obtain ⟨hmem, _, _⟩ := getTargetMissionRecord_mem hm
    have hst : m.abilityMissionStack = st := h.listed st m hmem
    have hall := mem_all_of_stack hmem
    have hsv : (s.modifyMission m.id (·.setPages [])).AllServices
        (s.modifyMission m.id (·.setPages [])).serviceRecords := h.allServices
    have hgone := clearPageAbility_gone hsv h₁
    subst hst
    refine .inr ⟨m, hall, rfl, rfl, hgone.relist ?_ records_dropMission records_dropMission,
      s₁, h₁, rfl⟩
    exact sameLists_dropMission (stays_setPages []) h hall hgone.toSameLists

theorem Shape.removeMissionRecordByName {name : Option CString} (h : s.Shape)
    (hs : s.removeMissionRecordByName env st name = .ok s') : s'.Shape := by
  obtain ⟨_, rfl⟩ | ⟨m, hm, _, _, hgone, _⟩ := removeMissionRecordByName_cases h hs
  · exact h
  · exact hgone.shape h.dropMission fun t ht => h.not_placed_dropMission hm ht

theorem removeMissionRecordByName_quiet {name : Option CString} (h : s.Shape)
    (hs : s.removeMissionRecordByName env st name = .ok s') : ReflTransGen (Quiet gen env) s s' := by
  obtain ⟨_, rfl⟩ | ⟨m, hm, _, _, _, s₁, h₁, rfl⟩ := removeMissionRecordByName_cases h hs
  · exact .refl
  · have hempty : ReflTransGen (Quiet gen env) s (s.modifyMission m.id (·.setPages [])) :=
      quiet_lists (onlyLists_modifyMission _)
    have hclear : ReflTransGen (Quiet gen env) (s.modifyMission m.id (·.setPages [])) s₁ :=
      clearPageAbility_quiet h.allServices h₁
    have hremove : ReflTransGen (Quiet gen env) s₁ (s₁.removeMissionRecord st m.id) :=
      quiet_lists onlyLists_removeMissionRecord
    exact hempty.trans (hclear.trans (hremove.trans (quiet_lists ⟨rfl, rfl, rfl, rfl, rfl⟩)))

theorem Shape.setTop (h : s.Shape) (top : Option StackType) :
    ({ s with topMissionStacks := top } : AbilityMgr).Shape := by
  refine ⟨h.ids, h.below, h.missions, fun st => ?_, fun st => ?_, h.services, h.serviceNodup⟩
  · cases st
    · exact h.listed .launcher
    · exact h.listed .default
  · cases st
    · exact h.names .launcher
    · exact h.names .default

/-- What is shown once a bundle is gone: what was shown, the mission its mission goes back to, or
the launcher. -/
theorem returnFrom_cases {name : CString} (hs : s.returnFrom name = .ok s') :
    s' = s ∨ s' = { s with topMissionStacks := some .launcher } ∨
      ∃ m prev, s.getTargetMissionRecord (targetStack (some name)) (some name) = some m ∧
        m.prevMissionRecord = some prev ∧
        s.moveMissionRecordToTop (targetStack (some name)) prev = .ok s' := by
  unfold returnFrom at hs
  dsimp only at hs
  split at hs
  · cases hs
    exact .inl rfl
  · next m hm =>
    split at hs
    · next prev hprev => exact .inr (.inr ⟨m, prev, hm, hprev, hs⟩)
    · split at hs
      · cases hs
        exact .inl rfl
      · split at hs
        · cases hs
          exact .inr (.inl rfl)
        · cases hs
          exact .inl rfl

theorem Shape.returnFrom {name : CString} (h : s.Shape) (hs : s.returnFrom name = .ok s') :
    s'.Shape := by
  rcases returnFrom_cases hs with rfl | rfl | ⟨_, _, _, _, hmove⟩
  · exact h
  · exact h.setTop _
  · exact h.moveMissionRecordToTop hmove

theorem returnFrom_quiet {name : CString} (hs : s.returnFrom name = .ok s') :
    ReflTransGen (Quiet gen env) s s' := by
  rcases returnFrom_cases hs with rfl | rfl | ⟨_, _, _, _, hmove⟩
  · exact .refl
  · exact quiet_lists ⟨rfl, rfl, rfl, rfl, rfl⟩
  · exact moveMissionRecordToTop_quiet hmove

theorem clearAbilityStack_cases {name : CString} (hs : s.clearAbilityStack env name = .ok s') :
    ∃ s₁ s₂, removeServiceRecords env name s.serviceRecords s = .ok s₁ ∧ s₁.returnFrom name = .ok s₂ ∧
      s₂.removeMissionRecordByName env (targetStack (some name)) (some name) = .ok s' := by
  simp only [clearAbilityStack, bind_eq_ok] at hs
  obtain ⟨s₁, h₁, s₂, h₂, hs⟩ := hs
  exact ⟨s₁, s₂, h₁, h₂, hs⟩

theorem clearAbilityStack_shape {name : CString} (h : s.Shape)
    (hs : s.clearAbilityStack env name = .ok s') : s'.Shape ∧ ReflTransGen (Quiet gen env) s s' := by
  obtain ⟨s₁, s₂, h₁, h₂, hs⟩ := clearAbilityStack_cases hs
  obtain ⟨hshape₁, hquiet₁⟩ := removeServiceRecords_shape h h.allServices h₁
  have hshape₂ := hshape₁.returnFrom h₂
  exact ⟨hshape₂.removeMissionRecordByName hs,
    hquiet₁.trans ((returnFrom_quiet h₂).trans (removeMissionRecordByName_quiet hshape₂ hs))⟩

/-! ## GeneratePageAbility -/

/-- How `GeneratePageAbility` finds the page to bring up: on a new mission, on top of the mission of
the bundle as it is, or as a new page of that mission. -/
inductive Finds (gen : TokenGenerate) (target : AbilityInfo) (want : Want)
    (top : Option PageAbilityRecord) (st : StackType) (s : AbilityMgr) :
    Option Token → Nat → AbilityMgr → Prop
  | mission {t : Token} {id : Nat} {s' : AbilityMgr}
      (hnone : s.getTargetMissionRecord st target.bundleName = none)
      (h : s.newMission gen target want st = (t, id, s')) : Finds gen target want top st s (some t) id s'
  | page {m : AbilityMissionRecord} {s' : AbilityMgr}
      (hm : s.getTargetMissionRecord st target.bundleName = some m)
      (hsame : switchesStack target top = true ∨
        ∃ p r, m.getTopPageAbility = some p ∧ s.records p = some r ∧ r.isSamePageAbility want = true)
      (h : s.moveMissionRecordToTop st m.id = .ok s') :
      Finds gen target want top st s m.getTopPageAbility m.id s'
  | newPage {m : AbilityMissionRecord} {t : Token} {s₁ s' : AbilityMgr}
      (hm : s.getTargetMissionRecord st target.bundleName = some m)
      (hstack : switchesStack target top = false) (h₁ : s.newPage gen target want m.id = (t, s₁))
      (h : s₁.moveMissionRecordToTop st m.id = .ok s') : Finds gen target want top st s (some t) m.id s'

theorem targetPage_cases {target : AbilityInfo} {want : Want} {top : Option PageAbilityRecord}
    {page : Option Token} (h : s.targetPage gen target want top st = .ok (page, id, s')) :
    Finds gen target want top st s page id s' := by
  unfold targetPage at h
  cases hm : s.getTargetMissionRecord st target.bundleName with
  | none =>
    rw [hm] at h
    cases h
    exact .mission hm rfl
  | some m =>
    rw [hm] at h
    dsimp only at h
    split at h
    · next hswitch =>
      simp only [bind_eq_ok] at h
      obtain ⟨s₁, h₁, h⟩ := h
      cases h
      exact .page hm (.inl hswitch) h₁
    · next hswitch =>
      rw [Bool.not_eq_true] at hswitch
      split at h
      · next p hp =>
        simp only [bind_eq_ok, record_eq_ok] at h
        obtain ⟨r, hr, h⟩ := h
        split at h
        · next hsame =>
          simp only [bind_eq_ok] at h
          obtain ⟨s₁, h₁, h⟩ := h
          cases h
          rw [← hp]
          exact .page hm (.inr ⟨p, r, hp, hr, hsame⟩) h₁
        · simp only [bind_eq_ok] at h
          obtain ⟨s₁, h₁, h⟩ := h
          cases h
          exact .newPage hm hswitch rfl h₁
      · simp only [bind_eq_ok] at h
        obtain ⟨s₁, h₁, h⟩ := h
        cases h
        exact .newPage hm hswitch rfl h₁

/-- The mission brought up may go back to the one that was on top. -/
def link (id : Nat) (m : AbilityMissionRecord) (s : AbilityMgr) : AbilityMgr :=
  s.modifyMission id (·.setPrevMissionRecord (some m.id))

theorem generatePageAbility_cases {target : AbilityInfo} {want : Want} {topAbility : Option Token}
    {page : Option Token} (h : s.generatePageAbility gen target want topAbility = .ok (page, s')) :
    (target.name = none ∧ page = none ∧ s' = s) ∨
      (target.name.isSome ∧ ∃ id s₁ s₂,
        Finds gen target want (topAbility.bind s.records) (targetStack target.bundleName) s page id s₁ ∧
        ((s₂ = s₁ ∧ ∀ m, s.getTopMissionRecord (targetStack target.bundleName) = some m →
            ¬ (returnsToTop (topAbility.bind s.records) (page.bind s₁.records) = true ∧ id ≠ m.id)) ∨
          ∃ m, s.getTopMissionRecord (targetStack target.bundleName) = some m ∧
            returnsToTop (topAbility.bind s.records) (page.bind s₁.records) = true ∧ id ≠ m.id ∧
            s₂ = s₁.link id m) ∧
        s' = { s₂ with topMissionStacks := some (targetStack target.bundleName) }) := by
  unfold generatePageAbility at h
  split at h
  · next hname =>
    cases h
    exact .inl ⟨hname, rfl, rfl⟩
  · next hname =>
    simp only [bind_eq_ok] at h
    obtain ⟨⟨page', id, s₁⟩, h₁, h⟩ := h
    cases h
    refine .inr ⟨Option.ne_none_iff_isSome.mp hname, id, s₁, _, targetPage_cases h₁, ?_, rfl⟩
    dsimp only
    split
    · next hnone =>
      refine .inl ⟨rfl, fun m hm => ?_⟩
      rw [hnone] at hm
      cases hm
    · next m hm =>
      split
      · next hback => exact .inr ⟨m, hm, hback.1, hback.2, rfl⟩
      · next hback =>
        refine .inl ⟨rfl, fun m' hm' => ?_⟩
        rw [hm] at hm'
        cases hm'
        exact hback

theorem Finds.shape {target : AbilityInfo} {want : Want} {top : Option PageAbilityRecord}
    {page : Option Token} (h : s.Shape) (hfresh : s.records (gen.generate s.generated) = none)
    (hpage : target.abilityType ≠ .service)
    (hf : Finds gen target want top (targetStack target.bundleName) s page id s') : s'.Shape := by
  cases hf with
  | mission hnone hnew => exact h.newMission hfresh hnone hpage hnew
  | page hm _ hmove => exact h.moveMissionRecordToTop hmove
  | newPage hm _ hnew hmove =>
    obtain ⟨hmem, hname, _⟩ := getTargetMissionRecord_mem hm
    exact (h.newPage hfresh (mem_all_of_stack hmem) hname hpage hnew).moveMissionRecordToTop hmove

theorem Finds.quiet {target : AbilityInfo} {want : Want} {top : Option PageAbilityRecord}
    {page : Option Token} (hf : Finds gen target want top st s page id s') :
    ReflTransGen (Quiet gen env) s s' := by
  cases hf with
  | mission hnone hnew => exact newMission_quiet hnew
  | page hm _ hmove => exact moveMissionRecordToTop_quiet hmove
  | newPage hm _ hnew hmove => exact (newPage_quiet hnew).trans (moveMissionRecordToTop_quiet hmove)

theorem Finds.missions {target : AbilityInfo} {want : Want} {top : Option PageAbilityRecord}
    {page : Option Token} (hf : Finds gen target want top st s page id s') :
    s.missions ≤ s'.missions := by
  cases hf with
  | mission hnone hnew =>
    obtain ⟨_, rfl, s₁, rfl, rfl⟩ := newMission_cases hnew
    unfold pushTopMissionRecord
    dsimp only
    split
    · exact Nat.le_succ _
    · refine Nat.le_trans (Nat.le_succ _) (Nat.le_of_eq (Eq.trans ?_ (missions_setStack _).symm))
      rfl
  | page hm _ hmove =>
    obtain ⟨l, _, rfl⟩ := moveMissionRecordToTop_cases hmove
    exact Nat.le_of_eq (missions_setStack l).symm
  | newPage hm _ hnew hmove =>
    obtain ⟨_, s₁, rfl, rfl⟩ := newPage_cases hnew
    obtain ⟨l, _, rfl⟩ := moveMissionRecordToTop_cases hmove
    refine Nat.le_of_eq (Eq.trans ?_ (missions_setStack l).symm)
    rfl

theorem Shape.link (h : s.Shape) (hm : m.id < s.missions) : (s.link id m).Shape := by
  refine h.modifyMission (stays_setPrevMissionRecord _) (fun m' _ _ p hp => ?_) fun m' hm' _ => ?_
  · cases hp
    exact hm
  · have hshape := h.missions m' hm'
    exact ⟨hshape.home, hshape.nonempty, hshape.nodup, hshape.placed⟩

theorem getTopMissionRecord_mem (h : s.getTopMissionRecord st = some m) : m ∈ s.stack st :=
  List.mem_of_getLast? h

theorem Shape.generatePageAbility {target : AbilityInfo} {want : Want} {topAbility page : Option Token}
    (h : s.Shape) (hfresh : s.records (gen.generate s.generated) = none)
    (hpage : target.abilityType ≠ .service)
    (hs : s.generatePageAbility gen target want topAbility = .ok (page, s')) : s'.Shape := by
  obtain ⟨_, _, rfl⟩ | ⟨_, id, s₁, s₂, hf, hlink, rfl⟩ := generatePageAbility_cases hs
  · exact h
  · have h₁ := hf.shape h hfresh hpage
    rcases hlink with ⟨rfl, _⟩ | ⟨m, hm, _, _, rfl⟩
    · exact h₁.setTop _
    · have hbelow := (h.below m (mem_all_of_stack (getTopMissionRecord_mem hm))).1
      exact (h₁.link (Nat.lt_of_lt_of_le hbelow hf.missions)).setTop _

theorem Finds.onStack {target : AbilityInfo} {want : Want} {top : Option PageAbilityRecord}
    {page : Option Token} {p : Token} (h : s.Shape)
    (hf : Finds gen target want top st s page id s') (hp : s.OnStack p) : s'.OnStack p := by
  cases hf with
  | mission hnone hnew =>
    obtain ⟨_, rfl, s₁, rfl, rfl⟩ := newMission_cases hnew
    exact onStack_pushTop hp
  | page hm _ hmove => exact (onStack_moveToTop (h.stack_ids _) hmove).mpr hp
  | newPage hm _ hnew hmove =>
    obtain ⟨_, s₁, rfl, rfl⟩ := newPage_cases hnew
    refine (onStack_moveToTop ?_ hmove).mpr (onStack_modifyMission (fun m => mem_pushPageAbility) hp)
    rw [stack_modifyMission, updateMission_ids (stays_pushPageAbility _)]
    exact h.stack_ids st

/-- No page leaves the stacks when one is brought up. -/
theorem generatePageAbility_onStack {target : AbilityInfo} {want : Want} {topAbility page : Option Token}
    {p : Token} (h : s.Shape) (hs : s.generatePageAbility gen target want topAbility = .ok (page, s'))
    (hp : s.OnStack p) : s'.OnStack p := by
  obtain ⟨_, _, rfl⟩ | ⟨_, id, s₁, s₂, hf, hlink, rfl⟩ := generatePageAbility_cases hs
  · exact hp
  · refine (onStack_setTop _).mpr ?_
    have h₁ := hf.onStack h hp
    rcases hlink with ⟨rfl, _⟩ | ⟨m, _, _, _, rfl⟩
    · exact h₁
    · exact onStack_modifyMission (fun _ ht => ht) h₁

theorem generatePageAbility_quiet {target : AbilityInfo} {want : Want}
    {topAbility page : Option Token}
    (hs : s.generatePageAbility gen target want topAbility = .ok (page, s')) :
    ReflTransGen (Quiet gen env) s s' := by
  obtain ⟨_, _, rfl⟩ | ⟨_, id, s₁, s₂, hf, hlink, rfl⟩ := generatePageAbility_cases hs
  · exact .refl
  · refine hf.quiet.trans (.trans ?_ (quiet_lists (s := s₂) ⟨rfl, rfl, rfl, rfl, rfl⟩))
    rcases hlink with ⟨rfl, _⟩ | ⟨m, _, _, _, rfl⟩
    · exact .refl
    · exact quiet_lists (onlyLists_modifyMission _)

end AbilityMgr
end AbilityLite.Ams
