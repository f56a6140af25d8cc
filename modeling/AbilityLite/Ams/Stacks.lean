import AbilityLite.Ams.Shape

/-
  What the operations on missions and services do to the lists: each keeps their shape,
  and is quiet for the pages that stay.
-/

namespace AbilityLite.Ams
open AbilityMsStatus Fallible Relation
namespace AbilityMgr
variable {gen : TokenGenerate} {env : Env} {s s' : AbilityMgr} {t : Token} {a id : Nat}
  {st : StackType} {status : AbilityMsStatus} {m : AbilityMissionRecord}

/-! ## One stack among the others -/

/-- The missions that are not on a stack. -/
def rest (s : AbilityMgr) : StackType → List AbilityMissionRecord
  | .launcher => s.defaultMissionStacks ++ s.unlisted
  | .default => s.launcherMissionStacks ++ s.unlisted

theorem allMissions_perm (st : StackType) : s.allMissions.Perm (s.stack st ++ s.rest st) := by
  unfold allMissions
  cases st with
  | launcher =>
    rw [List.append_assoc]
    exact .refl _
  | default =>
    refine (List.perm_append_comm.append_right _).trans ?_
    rw [List.append_assoc]
    exact .refl _

@[simp] theorem rest_setStack (l : List AbilityMissionRecord) : (s.setStack st l).rest st = s.rest st := by
  cases st <;> rfl

theorem allMissions_setStack {l : List AbilityMissionRecord} (hl : l.Perm (s.stack st)) :
    (s.setStack st l).allMissions.Perm s.allMissions := by
  refine (allMissions_perm st).trans ?_
  rw [stack_setStack_same, rest_setStack]
  exact (hl.append_right _).trans (allMissions_perm st).symm

theorem mem_rest (h : m ∈ s.rest st) : m ∈ s.allMissions :=
  (allMissions_perm st).mem_iff.mpr (List.mem_append.mpr (.inr h))

theorem Shape.stack_ids (h : s.Shape) (st : StackType) : ((s.stack st).map (·.id)).Nodup := by
  have hnodup := ((allMissions_perm st).map (·.id)).nodup_iff.mp h.ids
  rw [List.map_append, List.nodup_append] at hnodup
  exact hnodup.1

/-- A mission that is changed in nothing but where it goes back to, and that to nowhere. -/
def Detached (m m' : AbilityMissionRecord) : Prop :=
  m' = m ∨ m' = m.setPrevMissionRecord none

theorem Detached.id_eq {m m' : AbilityMissionRecord} (h : Detached m m') : m'.id = m.id := by
  rcases h with rfl | rfl <;> rfl

theorem Detached.bundleName {m m' : AbilityMissionRecord} (h : Detached m m') :
    m'.bundleName = m.bundleName := by
  rcases h with rfl | rfl <;> rfl

theorem Detached.stack {m m' : AbilityMissionRecord} (h : Detached m m') :
    m'.abilityMissionStack = m.abilityMissionStack := by
  rcases h with rfl | rfl <;> rfl

theorem Detached.shape {records : Store Token PageAbilityRecord} {m m' : AbilityMissionRecord}
    (h : Detached m m') (hm : MissionShape records m) : MissionShape records m' := by
  rcases h with rfl | rfl
  · exact hm
  · exact ⟨hm.home, hm.nonempty, hm.nodup, hm.placed⟩

/-- A stack may lose missions and be put in another order. -/
theorem Shape.setStack {l : List AbilityMissionRecord} (h : s.Shape) (hids : (l.map (·.id)).Nodup)
    (hl : ∀ m' ∈ l, ∃ m ∈ s.stack st, Detached m m') : (s.setStack st l).Shape := by
  have hmem : ∀ m' ∈ (s.setStack st l).allMissions,
      ∃ m ∈ s.allMissions, Detached m m' := by
    intro m' hm'
    have hm'' := (allMissions_perm st).mem_iff.mp hm'
    rw [stack_setStack_same, rest_setStack, List.mem_append] at hm''
    rcases hm'' with hm'' | hm''
    · obtain ⟨m, hm, hd⟩ := hl m' hm''
      exact ⟨m, mem_all_of_stack hm, hd⟩
    · exact ⟨m', mem_rest hm'', .inl rfl⟩
  refine ⟨?_, ?_, ?_, ?_, ?_, ?_, ?_⟩
  · refine ((allMissions_perm st).map (·.id)).nodup_iff.mpr ?_
    have hnodup := ((allMissions_perm (s := s) st).map (·.id)).nodup_iff.mp h.ids
    rw [List.map_append, List.nodup_append] at hnodup
    rw [stack_setStack_same, rest_setStack, List.map_append, List.nodup_append]
    refine ⟨hids, hnodup.2.1, ?_⟩
    intro i hi j hj
    obtain ⟨m', hm', rfl⟩ := List.mem_map.mp hi
    obtain ⟨m, hm, hd⟩ := hl m' hm'
    rw [hd.id_eq]
    exact hnodup.2.2 _ (List.mem_map.mpr ⟨m, hm, rfl⟩) _ hj
  · intro m' hm'
    rw [missions_setStack]
    obtain ⟨m, hm, hd⟩ := hmem m' hm'
    obtain ⟨hid, hprev⟩ := h.below m hm
    refine ⟨by rw [hd.id_eq]; exact hid, ?_⟩
    rcases hd with rfl | rfl
    · exact hprev
    · exact fun p hp => (by cases hp)
  · intro m' hm'
    rw [records_setStack]
    obtain ⟨m, hm, hd⟩ := hmem m' hm'
    exact hd.shape (h.missions m hm)
  · intro st' m' hm'
    by_cases hst : st' = st
    · subst hst
      rw [stack_setStack_same] at hm'
      obtain ⟨m, hm, hd⟩ := hl m' hm'
      rw [hd.stack]
      exact h.listed _ m hm
    · rw [stack_setStack_ne l hst] at hm'
      exact h.listed st' m' hm'
  · intro st' m₁ h₁ m₂ h₂ name hn₁ hn₂
    by_cases hst : st' = st
    · subst hst
      rw [stack_setStack_same] at h₁ h₂
      obtain ⟨n₁, hm₁, hd₁⟩ := hl m₁ h₁
      obtain ⟨n₂, hm₂, hd₂⟩ := hl m₂ h₂
      have hn : n₁ = n₂ := h.names _ n₁ hm₁ n₂ hm₂ name (hd₁.bundleName ▸ hn₁) (hd₂.bundleName ▸ hn₂)
      refine Keyed.eq_of_key_eq hids h₁ h₂ ?_
      rw [hd₁.id_eq, hd₂.id_eq, hn]
    · rw [stack_setStack_ne l hst] at h₁ h₂
      exact h.names st' m₁ h₁ m₂ h₂ name hn₁ hn₂
  · rw [services_setStack, records_setStack]
    exact h.services
  · rw [services_setStack]
    exact h.serviceNodup

/-! ## Bringing a mission to the top -/

/-- A mission that is brought up is the last of its stack, and the others follow as they were. -/
theorem moveToTop_eq {l l' : List AbilityMissionRecord} (h : moveToTop id l = .ok l')
    (hids : (l.map (·.id)).Nodup) : ∃ m ∈ l, m.id = id ∧ l' = l.filter (·.id ≠ id) ++ [m] := by
  unfold moveToTop at h
  split at h
  · cases h
  · next m hfind =>
    obtain ⟨hm, hid⟩ := Keyed.key_of_find? hfind
    refine ⟨m, hm, hid, ?_⟩
    split at h
    · next hlast =>
      cases h
      rw [Option.map_eq_some_iff] at hlast
      obtain ⟨m', hm', hid'⟩ := hlast
      have hmm : m' = m := Keyed.eq_of_key_eq hids (List.mem_of_getLast? hm') hm (hid'.trans hid.symm)
      subst hmm
      exact (Keyed.filter_append_getLast hids hm' hid).symm
    · cases h
      rfl

/-- What moving a mission to the top gives: the same missions, it the last of them. -/
theorem moveToTop_ok {l l' : List AbilityMissionRecord} (h : moveToTop id l = .ok l')
    (hids : (l.map (·.id)).Nodup) :
    l'.Perm l ∧ ∃ m ∈ l, m.id = id ∧ l'.getLast? = some m ∧ (l.getLast? = some m → l' = l) := by
  obtain ⟨m, hm, hid, rfl⟩ := moveToTop_eq h hids
  exact ⟨Keyed.filter_append_perm hids hm hid, m, hm, hid, List.getLast?_concat,
    fun hlast => Keyed.filter_append_getLast hids hlast hid⟩

theorem moveMissionRecordToTop_cases (h : s.moveMissionRecordToTop st id = .ok s') :
    ∃ l, moveToTop id (s.stack st) = .ok l ∧ s' = s.setStack st l := by
  simp only [moveMissionRecordToTop, bind_eq_ok] at h
  obtain ⟨l, hl, h⟩ := h
  cases h
  exact ⟨l, hl, rfl⟩

theorem Shape.moveMissionRecordToTop (h : s.Shape) (hs : s.moveMissionRecordToTop st id = .ok s') :
    s'.Shape := by
  obtain ⟨l, hl, rfl⟩ := moveMissionRecordToTop_cases hs
  obtain ⟨hperm, -⟩ := moveToTop_ok hl (h.stack_ids st)
  exact h.setStack ((hperm.map _).nodup_iff.mpr (h.stack_ids st))
    fun m hm => ⟨m, hperm.mem_iff.mp hm, .inl rfl⟩

theorem mem_moveToTop (hids : ((s.stack st).map (·.id)).Nodup)
    (hs : s.moveMissionRecordToTop st id = .ok s') : m ∈ s'.allMissions ↔ m ∈ s.allMissions := by
  obtain ⟨l, hl, rfl⟩ := moveMissionRecordToTop_cases hs
  exact (allMissions_setStack (moveToTop_ok hl hids).1).mem_iff

theorem onStack_moveToTop (hids : ((s.stack st).map (·.id)).Nodup)
    (hs : s.moveMissionRecordToTop st id = .ok s') :
    s'.OnStack t ↔ s.OnStack t := by
  obtain ⟨l, hl, rfl⟩ := moveMissionRecordToTop_cases hs
  have hperm := (moveToTop_ok hl hids).1
  refine exists_congr fun st' => ?_
  by_cases he : st' = st
  · rw [he, stack_setStack_same]
    simp only [hperm.mem_iff]
  · rw [stack_setStack_ne _ he]

theorem onStack_setTop (top : Option StackType) :
    ({ s with topMissionStacks := top } : AbilityMgr).OnStack t ↔ s.OnStack t := by
  unfold OnStack
  simp only [stack_setTop]

/-! ## Changing a mission -/

/-- A change that leaves a mission where it is. -/
structure Stays (f : AbilityMissionRecord → AbilityMissionRecord) : Prop where
  id : ∀ m, (f m).id = m.id
  stack : ∀ m, (f m).abilityMissionStack = m.abilityMissionStack
  bundleName : ∀ m, (f m).bundleName = m.bundleName

theorem stays_setPages (pages : List Token) : Stays (·.setPages pages) := ⟨fun _ => rfl, fun _ => rfl, fun _ => rfl⟩

theorem stays_setPrevMissionRecord (prev : Option Nat) : Stays (·.setPrevMissionRecord prev) :=
  ⟨fun _ => rfl, fun _ => rfl, fun _ => rfl⟩

theorem stays_pushPageAbility (t : Token) : Stays (·.pushPageAbility t) := by
  have hpush (m : AbilityMissionRecord) : m.pushPageAbility t = m ∨
      m.pushPageAbility t = m.setPages (m.pageAbilityRecords ++ [t]) := by
    unfold AbilityMissionRecord.pushPageAbility
    split
    · exact .inl rfl
    · exact .inr rfl
  refine ⟨fun m => ?_, fun m => ?_, fun m => ?_⟩ <;>
    rcases hpush m with h | h <;> rw [h] <;> rfl

theorem updateMission_ids {f : AbilityMissionRecord → AbilityMissionRecord} (hf : Stays f)
    (l : List AbilityMissionRecord) : (updateMission id f l).map (·.id) = l.map (·.id) := by
  unfold updateMission
  rw [List.map_map]
  refine List.map_congr_left fun m _ => ?_
  simp only [Function.comp_apply]
  split
  · exact hf.id m
  · rfl

theorem mem_updateMission {f : AbilityMissionRecord → AbilityMissionRecord}
    {l : List AbilityMissionRecord} {m' : AbilityMissionRecord} (h : m' ∈ updateMission id f l) :
    ∃ m ∈ l, (m.id = id ∧ m' = f m) ∨ (m.id ≠ id ∧ m' = m) := by
  obtain ⟨m, hm, rfl⟩ := List.mem_map.mp h
  refine ⟨m, hm, ?_⟩
  split
  · next hid => exact .inl ⟨hid, rfl⟩
  · next hid => exact .inr ⟨hid, rfl⟩

/-- A change that takes no page from a mission. -/
theorem onStack_modifyMission {f : AbilityMissionRecord → AbilityMissionRecord}
    (hf : ∀ m, t ∈ m.pageAbilityRecords → t ∈ (f m).pageAbilityRecords) (h : s.OnStack t) :
    (s.modifyMission id f).OnStack t := by
  obtain ⟨st, m, hm, ht⟩ := h
  refine ⟨st, _, by rw [stack_modifyMission]; exact List.mem_map_of_mem hm, ?_⟩
  split
  · exact hf m ht
  · exact ht

theorem mem_pushPageAbility {p : Token} (h : t ∈ m.pageAbilityRecords) :
    t ∈ (m.pushPageAbility p).pageAbilityRecords := by
  unfold AbilityMissionRecord.pushPageAbility
  split
  · exact h
  · exact List.mem_append_left _ h

theorem updateMission_ne {f : AbilityMissionRecord → AbilityMissionRecord}
    {l : List AbilityMissionRecord} (h : ∀ m ∈ l, m.id ≠ id) : updateMission id f l = l := by
  unfold updateMission
  refine (List.map_congr_left fun m hm => ?_).trans (List.map_id l)
  rw [if_neg (h m hm)]
  rfl

/-- A mission that is taken out may be changed before. -/
theorem filter_updateMission {f : AbilityMissionRecord → AbilityMissionRecord} (hf : Stays f)
    (l : List AbilityMissionRecord) :
    (updateMission id f l).filter (·.id ≠ id) = l.filter (·.id ≠ id) := by
  induction l with
  | nil => rfl
  | cons m l ih =>
    unfold updateMission at ih ⊢
    rw [List.map_cons]
    by_cases hid : m.id = id
    · rw [if_pos hid, List.filter_cons_of_neg (by simpa [hf.id] using hid),
        List.filter_cons_of_neg (by simpa using hid)]
      exact ih
    · rw [if_neg hid, List.filter_cons_of_pos (by simpa using hid),
        List.filter_cons_of_pos (by simpa using hid), ih]

theorem Shape.modifyMission {f : AbilityMissionRecord → AbilityMissionRecord} (h : s.Shape)
    (hf : Stays f)
    (hprev : ∀ m ∈ s.allMissions, m.id = id → ∀ p, (f m).prevMissionRecord = some p → p < s.missions)
    (hshape : ∀ m ∈ s.allMissions, m.id = id → MissionShape s.records (f m)) :
    (s.modifyMission id f).Shape := by
  have hmem : ∀ m' ∈ (s.modifyMission id f).allMissions,
      ∃ m ∈ s.allMissions, (m.id = id ∧ m' = f m) ∨ (m.id ≠ id ∧ m' = m) := by
    intro m' hm'
    rw [allMissions_modifyMission] at hm'
    exact mem_updateMission hm'
  refine ⟨?_, ?_, ?_, ?_, ?_, h.services, h.serviceNodup⟩
  · rw [allMissions_modifyMission, updateMission_ids hf]
    exact h.ids
  · intro m' hm'
    obtain ⟨m, hm, ⟨hid, rfl⟩ | ⟨_, rfl⟩⟩ := hmem m' hm'
    · exact ⟨by rw [hf.id]; exact (h.below m hm).1, hprev m hm hid⟩
    · exact h.below m' hm
  · intro m' hm'
    obtain ⟨m, hm, ⟨hid, rfl⟩ | ⟨_, rfl⟩⟩ := hmem m' hm'
    · exact hshape m hm hid
    · exact h.missions m' hm
  · intro st m' hm'
    rw [stack_modifyMission] at hm'
    obtain ⟨m, hm, ⟨_, rfl⟩ | ⟨_, rfl⟩⟩ := mem_updateMission hm'
    · rw [hf.stack]
      exact h.listed st m hm
    · exact h.listed st m' hm
  · intro st m₁ h₁ m₂ h₂ name hn₁ hn₂
    rw [stack_modifyMission] at h₁ h₂
    obtain ⟨n₁, hm₁, hc₁⟩ := mem_updateMission h₁
    obtain ⟨n₂, hm₂, hc₂⟩ := mem_updateMission h₂
    have hb₁ : m₁.bundleName = n₁.bundleName := by
      rcases hc₁ with ⟨_, rfl⟩ | ⟨_, rfl⟩
      · exact hf.bundleName n₁
      · rfl
    have hb₂ : m₂.bundleName = n₂.bundleName := by
      rcases hc₂ with ⟨_, rfl⟩ | ⟨_, rfl⟩
      · exact hf.bundleName n₂
      · rfl
    have hn : n₁ = n₂ := h.names st n₁ hm₁ n₂ hm₂ name (hb₁ ▸ hn₁) (hb₂ ▸ hn₂)
    subst hn
    rcases hc₁ with ⟨hid₁, rfl⟩ | ⟨hid₁, rfl⟩ <;> rcases hc₂ with ⟨hid₂, rfl⟩ | ⟨hid₂, rfl⟩
    · rfl
    · exact absurd hid₁ hid₂
    · exact absurd hid₂ hid₁
    · rfl

/-! ## Creating -/

theorem newPageAbility_records {info : AbilityInfo} {want : Want}
    (hfresh : s.records (gen.generate s.generated) = none) {r : PageAbilityRecord}
    (hr : s.records t = some r) : (s.newPageAbility gen info want).2.records t = some r := by
  show s.records.insert _ _ t = some r
  rw [Store.insert_ne _ _ (fun ht => by rw [ht, hfresh] at hr; cases hr)]
  exact hr

theorem Shape.newPageAbility {info : AbilityInfo} {want : Want} (h : s.Shape)
    (hfresh : s.records (gen.generate s.generated) = none) :
    (s.newPageAbility gen info want).2.Shape :=
  h.of_lists ⟨rfl, rfl, rfl, rfl, rfl, rfl⟩
    fun _ _ r hr => ⟨r, newPageAbility_records hfresh hr, rfl⟩

/-- A mission may be added on top of its stack, or kept aside when the stack is full. -/
theorem Shape.pushTopMissionRecord (h : s.Shape) (hid : ∀ m' ∈ s.allMissions, m'.id ≠ m.id)
    (hbelow : m.id < s.missions ∧ ∀ p, m.prevMissionRecord = some p → p < s.missions)
    (hshape : MissionShape s.records m)
    (hname : ∀ m' ∈ s.stack m.abilityMissionStack, ∀ name, m.bundleName = some name →
      m'.bundleName ≠ some name) : (s.pushTopMissionRecord m).Shape := by
  have hids : ((s.allMissions ++ [m]).map (·.id)).Nodup := by
    rw [List.map_append, List.nodup_append]
    refine ⟨h.ids, List.pairwise_singleton _ _, fun i hi j hj => ?_⟩
    obtain ⟨m', hm', rfl⟩ := List.mem_map.mp hi
    rw [List.map_singleton, List.mem_singleton] at hj
    rw [hj]
    exact hid m' hm'
  have hmem : ∀ m' ∈ s.allMissions ++ [m], (m'.id < s.missions ∧
      ∀ p, m'.prevMissionRecord = some p → p < s.missions) ∧ MissionShape s.records m' := by
    intro m' hm'
    rcases List.mem_append.mp hm' with hm' | hm'
    · exact ⟨h.below m' hm', h.missions m' hm'⟩
    · rw [List.mem_singleton] at hm'
      subst hm'
      exact ⟨hbelow, hshape⟩
  unfold AbilityMgr.pushTopMissionRecord
  dsimp only
  split
  · have hall : ({ s with unlisted := s.unlisted ++ [m] } : AbilityMgr).allMissions =
        s.allMissions ++ [m] := by
      unfold allMissions
      rw [List.append_assoc _ s.unlisted]
    refine ⟨by rw [hall]; exact hids, ?_, ?_, fun st => ?_, fun st => ?_, h.services, h.serviceNodup⟩
    · rw [hall]
      exact fun m' hm' => (hmem m' hm').1
    · rw [hall]
      exact fun m' hm' => (hmem m' hm').2
    · cases st
      · exact h.listed .launcher
      · exact h.listed .default
    · cases st
      · exact h.names .launcher
      · exact h.names .default
  · have hperm : (s.setStack m.abilityMissionStack
        (s.stack m.abilityMissionStack ++ [m])).allMissions.Perm (s.allMissions ++ [m]) := by
      refine (allMissions_perm m.abilityMissionStack).trans ?_
      rw [stack_setStack_same, rest_setStack, List.append_assoc]
      refine (List.perm_append_comm.append_left _).trans ?_
      rw [← List.append_assoc]
      exact (allMissions_perm m.abilityMissionStack).symm.append_right _
    refine ⟨(hperm.map _).nodup_iff.mpr hids, fun m' hm' => ?_, fun m' hm' => ?_, ?_, ?_, ?_, ?_⟩
    · rw [missions_setStack]
      exact (hmem m' (hperm.mem_iff.mp hm')).1
    · rw [records_setStack]
      exact (hmem m' (hperm.mem_iff.mp hm')).2
    · intro st m' hm'
      by_cases hst : st = m.abilityMissionStack
      · rw [hst, stack_setStack_same, List.mem_append, List.mem_singleton] at hm'
        rcases hm' with hm' | rfl
        · rw [hst]
          exact h.listed _ m' hm'
        · exact hst.symm
      · rw [stack_setStack_ne _ hst] at hm'
        exact h.listed st m' hm'
    · intro st m₁ h₁ m₂ h₂ name hn₁ hn₂
      by_cases hst : st = m.abilityMissionStack
      · rw [hst, stack_setStack_same, List.mem_append, List.mem_singleton] at h₁ h₂
        rcases h₁ with h₁ | rfl <;> rcases h₂ with h₂ | rfl
        · exact h.names _ m₁ h₁ m₂ h₂ name hn₁ hn₂
        · exact absurd hn₁ (hname m₁ h₁ name hn₂)
        · exact absurd hn₂ (hname m₂ h₂ name hn₁)
        · rfl
      · rw [stack_setStack_ne _ hst] at h₁ h₂
        exact h.names st m₁ h₁ m₂ h₂ name hn₁ hn₂
    · rw [services_setStack, records_setStack]
      exact h.services
    · rw [services_setStack]
      exact h.serviceNodup

theorem mem_pushTop {m' : AbilityMissionRecord} (h : m' ∈ (s.pushTopMissionRecord m).allMissions) :
    m' = m ∨ m' ∈ s.allMissions := by
  unfold AbilityMgr.pushTopMissionRecord at h
  dsimp only at h
  split at h
  · rcases mem_allMissions.mp h with ⟨st, hst⟩ | hun
    · refine .inr (mem_allMissions.mpr (.inl ⟨st, ?_⟩))
      cases st <;> exact hst
    · rcases List.mem_append.mp hun with hun | hun
      · exact .inr (mem_allMissions.mpr (.inr hun))
      · exact .inl (List.mem_singleton.mp hun)
  · have hmem := (allMissions_perm m.abilityMissionStack).mem_iff.mp h
    rw [stack_setStack_same, rest_setStack] at hmem
    rcases List.mem_append.mp hmem with hmem | hmem
    · rcases List.mem_append.mp hmem with hmem | hmem
      · exact .inr (mem_all_of_stack hmem)
      · exact .inl (List.mem_singleton.mp hmem)
    · exact .inr (mem_rest hmem)

/-- A mission on top of its stack hides none of the others. -/
theorem onStack_pushTop (h : s.OnStack t) : (s.pushTopMissionRecord m).OnStack t := by
  obtain ⟨st, m', hm', ht⟩ := h
  unfold AbilityMgr.pushTopMissionRecord
  dsimp only
  split
  · refine ⟨st, m', ?_, ht⟩
    cases st <;> exact hm'
  · refine ⟨st, m', ?_, ht⟩
    by_cases hst : st = m.abilityMissionStack
    · rw [hst, stack_setStack_same]
      exact List.mem_append_left _ (hst ▸ hm')
    · rw [stack_setStack_ne _ hst]
      exact hm'

/-- A mission that its stack takes. -/
theorem onStack_pushTop_new (hroom : (s.stack m.abilityMissionStack).length < missionRecordListCapacity)
    (ht : t ∈ m.pageAbilityRecords) : (s.pushTopMissionRecord m).OnStack t := by
  unfold AbilityMgr.pushTopMissionRecord
  dsimp only
  rw [if_neg (Nat.not_le_of_lt hroom)]
  refine ⟨m.abilityMissionStack, m, ?_, ht⟩
  rw [stack_setStack_same]
  exact List.mem_append_right _ (List.mem_singleton_self _)

end AbilityMgr
end AbilityLite.Ams
