import AbilityLite.Ams.AsPages
import AbilityLite.Ams.Clearing
import Mathlib.Data.List.Nodup

/-
  The mission stacks over whole sequences of `GeneratePageAbility`, `RemovePageAbility` and
  `ClearAbilityStack`, from the empty context.

  The lists have the shape `Shape` says. What is added here: every mission has a bundle
  name and goes back to another mission of its stack, every page is on a mission, and no
  call runs into a deleted object. `Shape` is about missions of pages; what it says carries
  over to abilities of every type, whose types no call looks at (`asPages`).
-/

namespace AbilityLite.Ams
open AbilityMsStatus Fallible Relation

/-! ## Where missions go back to -/

/-- Every mission of a stack that goes back goes back to another one of it. -/
def Linked (l : List AbilityMissionRecord) : Prop :=
  ∀ m ∈ l, ∀ prev, m.prevMissionRecord = some prev → prev ≠ m.id ∧ ∃ m' ∈ l, m'.id = prev

namespace Linked
variable {l l' : List AbilityMissionRecord} {m : AbilityMissionRecord} {id : Nat}

theorem perm (h : Linked l) (hperm : l'.Perm l) : Linked l' := by
  intro m hm prev hprev
  obtain ⟨hne, m', hm', hid⟩ := h m (hperm.mem_iff.mp hm) prev hprev
  exact ⟨hne, m', hperm.mem_iff.mpr hm', hid⟩

theorem concat (h : Linked l) (hm : m.prevMissionRecord = none) : Linked (l ++ [m]) := by
  intro m₁ hm₁ prev hprev
  rcases List.mem_append.mp hm₁ with hm₁ | hm₁
  · obtain ⟨hne, m', hm', hid⟩ := h m₁ hm₁ prev hprev
    exact ⟨hne, m', List.mem_append_left _ hm', hid⟩
  · rw [List.mem_singleton.mp hm₁, hm] at hprev
    cases hprev

/-- A mission may be changed if it goes back to another one of the stack afterwards. -/
theorem update {f : AbilityMissionRecord → AbilityMissionRecord} (hf : AbilityMgr.Stays f) (h : Linked l)
    (hprev : ∀ m ∈ l, m.id = id → ∀ prev, (f m).prevMissionRecord = some prev →
      prev ≠ id ∧ ∃ m' ∈ l, m'.id = prev) : Linked (AbilityMgr.updateMission id f l) := by
  have hstay : ∀ prev, (∃ m' ∈ l, m'.id = prev) → ∃ m' ∈ AbilityMgr.updateMission id f l, m'.id = prev := by
    rintro prev ⟨m', hm', hid⟩
    have hmem : prev ∈ (AbilityMgr.updateMission id f l).map (·.id) := by
      rw [AbilityMgr.updateMission_ids hf]
      exact List.mem_map.mpr ⟨m', hm', hid⟩
    exact List.mem_map.mp hmem
  intro m hm prev hp
  obtain ⟨m₀, hm₀, ⟨hid, rfl⟩ | ⟨_, rfl⟩⟩ := AbilityMgr.mem_updateMission hm
  · obtain ⟨hne, hex⟩ := hprev m₀ hm₀ hid prev hp
    exact ⟨by rw [hf.id, hid]; exact hne, hstay prev hex⟩
  · obtain ⟨hne, hex⟩ := h m hm₀ prev hp
    exact ⟨hne, hstay prev hex⟩

/-- `RemoveMissionRecord` clears what went back to the mission it takes out. -/
theorem remove (h : Linked l) : Linked ((l.filter (·.id ≠ id)).map fun m =>
    if m.prevMissionRecord = some id then m.setPrevMissionRecord none else m) := by
  intro m hm prev hprev
  obtain ⟨m₀, hm₀, rfl⟩ := List.mem_map.mp hm
  rw [List.mem_filter] at hm₀
  split at hprev
  · cases hprev
  · next hother =>
    rw [if_neg hother]
    obtain ⟨hne, m', hm', rfl⟩ := h m₀ hm₀.1 prev hprev
    refine ⟨hne, _, List.mem_map.mpr ⟨m', List.mem_filter.mpr ⟨hm', ?_⟩, rfl⟩, ?_⟩
    · exact decide_eq_true fun he => hother (by rw [hprev, he])
    · split <;> rfl

end Linked

namespace AbilityMgr
variable {gen : TokenGenerate} {env : Env} {s s' s₁ s₂ : AbilityMgr} {t : Token} {a id : Nat}
  {st : StackType} {m : AbilityMissionRecord} {name : CString}

/-! ## Without processes -/

/-- There is no process, and no page is in one. -/
structure NoProcess (s : AbilityMgr) : Prop where
  apps : s.appRecords = []
  pages : ∀ t r, s.records t = some r → r.appRecord = none

namespace NoProcess

theorem of_records (h : NoProcess s) (happs : s'.appRecords = s.appRecords)
    (hrecords : ∀ t r, s'.records t = some r → ∃ r₀, s.records t = some r₀ ∧ r.appRecord = r₀.appRecord) :
    NoProcess s' := by
  refine ⟨happs.trans h.apps, fun t r hr => ?_⟩
  obtain ⟨r₀, hr₀, he⟩ := hrecords t r hr
  exact he.trans (h.pages t r₀ hr₀)

theorem setStack (h : NoProcess s) (l : List AbilityMissionRecord) : NoProcess (s.setStack st l) := by
  refine h.of_records (appRecords_setStack l) fun t r hr => ⟨r, ?_, rfl⟩
  rw [← hr, records_setStack]

theorem moveMissionRecordToTop (h : NoProcess s) (hs : s.moveMissionRecordToTop st id = .ok s') :
    NoProcess s' := by
  obtain ⟨l, _, rfl⟩ := moveMissionRecordToTop_cases hs
  exact h.setStack l

theorem delete (h : NoProcess s) (hs : s.delete t = .ok s') : NoProcess s' := by
  obtain ⟨r, hr, ⟨_, rfl⟩ | ⟨a, _, ha, _, _⟩⟩ := delete_cases hs
  · refine ⟨h.apps, fun t' r' hr' => ?_⟩
    exact h.pages t' r' (Store.erase_cases hr').2
  · rw [h.pages t r hr] at ha
    cases ha

theorem delete_isSome (h : NoProcess s) (ht : (s.records t).isSome) : ∃ s', s.delete t = .ok s' := by
  obtain ⟨r, hr⟩ := Option.isSome_iff_exists.mp ht
  refine ⟨{ s with records := s.records.erase t }, ?_⟩
  simp only [AbilityMgr.delete, bind_eq_ok, record_eq_ok]
  refine ⟨r, hr, ?_⟩
  rw [h.pages t r hr]

theorem deletePages {ts : List Token} (h : NoProcess s) (hs : deletePages ts s = .ok s') : NoProcess s' := by
  induction ts generalizing s with
  | nil =>
    cases hs
    exact h
  | cons t ts ih =>
    simp only [AbilityMgr.deletePages, bind_eq_ok] at hs
    obtain ⟨s₁, h₁, hs⟩ := hs
    exact ih (h.delete h₁) hs

theorem deletePages_isSome {ts : List Token} (h : NoProcess s) (hnodup : ts.Nodup)
    (hlive : ∀ t ∈ ts, (s.records t).isSome) : ∃ s', AbilityMgr.deletePages ts s = .ok s' := by
  induction ts generalizing s with
  | nil => exact ⟨s, rfl⟩
  | cons t ts ih =>
    rw [List.nodup_cons] at hnodup
    obtain ⟨s₁, h₁⟩ := h.delete_isSome (hlive t List.mem_cons_self)
    have hgone := delete_gone h₁
    obtain ⟨s₂, h₂⟩ := ih (h.delete h₁) hnodup.2 fun t' ht' => by
      obtain ⟨r, hr⟩ := Option.isSome_iff_exists.mp (hlive t' (List.mem_cons_of_mem _ ht'))
      have hne : t' ∉ [t] := fun he => hnodup.1 (List.mem_singleton.mp he ▸ ht')
      obtain ⟨r', hr', -⟩ := hgone.after hne hr
      rw [hr']
      rfl
    refine ⟨s₂, ?_⟩
    simp only [AbilityMgr.deletePages, bind_eq_ok]
    exact ⟨s₁, h₁, h₂⟩

end NoProcess

/-- With no services there are no connections to take back. -/
theorem clearPageAbility_noServices {ts : List Token} {name : Option CString}
    (hservices : s.serviceRecords = []) : clearPageAbility env name ts s = deletePages ts s := by
  induction ts generalizing s with
  | nil => rfl
  | cons t ts ih =>
    have hskip : clearPageAbility env name (t :: ts) s = s.delete t >>= clearPageAbility env name ts := by
      cases name with
      | none => rfl
      | some name =>
        show removeConnectRecords env t name s.serviceRecords s >>= _ = _
        rw [hservices]
        rfl
    rw [hskip]
    show (s.delete t).bind _ = (s.delete t).bind _
    cases hd : s.delete t with
    | error f => rfl
    | ok s₁ => exact ih ((delete_gone hd).services.trans hservices)

theorem moveMissionRecordToTop_isSome (hm : ∃ m ∈ s.stack st, m.id = id) :
    ∃ s', s.moveMissionRecordToTop st id = .ok s' := by
  have hfind : ((s.stack st).find? (·.id = id)).isSome := by
    rw [List.find?_isSome]
    obtain ⟨m, hm, hid⟩ := hm
    exact ⟨m, hm, decide_eq_true hid⟩
  obtain ⟨m, hm⟩ := Option.isSome_iff_exists.mp hfind
  unfold moveMissionRecordToTop moveToTop
  rw [hm]
  dsimp only
  split
  · exact ⟨_, rfl⟩
  · exact ⟨_, rfl⟩

/-! ## The context between two calls -/

/-- What holds of the context besides the shape of its lists. -/
structure Settled (s : AbilityMgr) : Prop where
  named : ∀ st, ∀ m ∈ s.stack st, m.bundleName.isSome
  linked : ∀ st, Linked (s.stack st)
  unlisted : s.unlisted = []
  placed : ∀ t, (s.records t).isSome → ∃ st, ∃ m ∈ s.stack st, t ∈ m.pageAbilityRecords
  noServices : s.serviceRecords = []
  noProcess : NoProcess s

theorem Settled.on_stack (hs : Settled s) (hm : m ∈ s.allMissions) : ∃ st, m ∈ s.stack st := by
  rcases mem_allMissions.mp hm with hst | hun
  · exact hst
  · rw [hs.unlisted] at hun
    cases hun

theorem mem_dropMission_stack {st' : StackType} {m' : AbilityMissionRecord}
    (h : m' ∈ (s.dropMission st id).stack st') : ∃ m ∈ s.stack st', Detached m m' := by
  rw [stack_dropMission] at h
  by_cases hst : st' = st
  · subst hst
    obtain ⟨m, hm, -, hd⟩ := mem_removeMissionRecord h
    exact ⟨m, hm, hd⟩
  · unfold removeMissionRecord at h
    rw [stack_setStack_ne _ hst] at h
    exact ⟨m', h, .inl rfl⟩

theorem stays_dropMission (st : StackType) {st' : StackType} (hm : m ∈ s.stack st') (hne : m.id ≠ id) :
    ∃ m' ∈ (s.dropMission st id).stack st', Detached m m' := by
  rw [stack_dropMission]
  unfold removeMissionRecord
  by_cases hst : st' = st
  · subst hst
    rw [stack_setStack_same]
    refine ⟨_, List.mem_map.mpr ⟨m, List.mem_filter.mpr ⟨hm, decide_eq_true hne⟩, rfl⟩, ?_⟩
    split
    · exact .inr rfl
    · exact .inl rfl
  · rw [stack_setStack_ne _ hst]
    exact ⟨m, hm, .inl rfl⟩

theorem linked_dropMission (h : ∀ st, Linked (s.stack st)) (st' : StackType) :
    Linked ((s.dropMission st id).stack st') := by
  rw [stack_dropMission]
  unfold removeMissionRecord
  by_cases hst : st' = st
  · subst hst
    rw [stack_setStack_same]
    exact (h st').remove
  · rw [stack_setStack_ne _ hst]
    exact h st'

/-- A mission goes with its pages, and the others may be put in another order. -/
theorem Settled.drop (hs : Settled s) (h : s.Shape) (hm : m ∈ s.stack st)
    (hstack : ∀ st', (s'.stack st').Perm ((s.dropMission st m.id).stack st'))
    (hun : s'.unlisted = (s.dropMission st m.id).unlisted) (hservices : s'.serviceRecords = s.serviceRecords)
    (hrecords : ∀ t, (s'.records t).isSome → t ∉ m.pageAbilityRecords ∧ (s.records t).isSome)
    (hproc : NoProcess s') : Settled s' := by
  refine ⟨fun st' m' hm' => ?_, fun st' => ?_, ?_, fun t ht => ?_, hservices.trans hs.noServices, hproc⟩
  · obtain ⟨m₀, hm₀, hd⟩ := mem_dropMission_stack ((hstack st').mem_iff.mp hm')
    rw [hd.bundleName]
    exact hs.named st' m₀ hm₀
  · exact (linked_dropMission hs.linked st').perm (hstack st')
  · rw [hun]
    unfold dropMission deleteMissionRecord removeMissionRecord
    dsimp only
    rw [unlisted_setStack, hs.unlisted, List.filter_nil]
  · obtain ⟨hout, hlive⟩ := hrecords t ht
    obtain ⟨st', m₁, hm₁, ht₁⟩ := hs.placed t hlive
    have hne : m₁.id ≠ m.id := fun hid => hout (by
      rw [← Keyed.eq_of_key_eq h.ids (mem_all_of_stack hm₁) (mem_all_of_stack hm) hid]
      exact ht₁)
    obtain ⟨m', hm', hd⟩ := stays_dropMission st hm₁ hne
    exact ⟨st', m', (hstack st').mem_iff.mpr hm', by rw [hd.pages]; exact ht₁⟩

theorem NoProcess.modifyMission (h : NoProcess s) (f : AbilityMissionRecord → AbilityMissionRecord) :
    NoProcess (s.modifyMission id f) := ⟨h.apps, h.pages⟩

theorem NoProcess.removePageAbility (h : NoProcess s) (hs : s.removePageAbility t = .ok s') : NoProcess s' := by
  simp only [AbilityMgr.removePageAbility, bind_eq_ok] at hs
  obtain ⟨r, _, hs⟩ := hs
  split at hs
  · cases hs
    exact h
  · next id _ =>
    simp only [bind_eq_ok] at hs
    obtain ⟨m, _, s₁, h₁, hs⟩ := hs
    have hpages : NoProcess s₁ := (h.modifyMission _).deletePages h₁
    split at hs
    · have hremove : NoProcess (s₁.removeMissionRecord m.abilityMissionStack id) := hpages.setStack _
      split at hs
      · simp only [bind_eq_ok] at hs
        obtain ⟨s₂, h₂, hs⟩ := hs
        cases hs
        have hmove := hremove.moveMissionRecordToTop h₂
        exact ⟨hmove.apps, hmove.pages⟩
      · cases hs
        exact ⟨hremove.apps, hremove.pages⟩
    · cases hs
      exact hpages

theorem Settled.removePageAbility (hs : Settled s) (h : s.Shape) (hr : s.removePageAbility t = .ok s') :
    Settled s' := by
  have hproc := hs.noProcess.removePageAbility hr
  obtain ⟨r, _, ⟨_, rfl⟩ | ⟨m, hm, _, below, above, hsplit, ⟨hbelow, hgone⟩ | ⟨hbelow, s₁, hret, hgone⟩⟩⟩ :=
    removePageAbility_cases h hr
  · exact hs
  · -- The mission keeps the pages below.
    have happ := splitAt_append t m.pageAbilityRecords
    rw [hsplit] at happ
    have hstack (st : StackType) : s'.stack st = updateMission m.id (·.setPages below) (s.stack st) := by
      rw [hgone.toSameLists.stack, stack_modifyMission]
    refine ⟨fun st m' hm' => ?_, fun st => ?_, ?_, fun t' ht' => ?_, hgone.services.trans hs.noServices, hproc⟩
    · rw [hstack] at hm'
      obtain ⟨m₀, hm₀, ⟨_, rfl⟩ | ⟨_, rfl⟩⟩ := mem_updateMission hm'
      · exact hs.named st m₀ hm₀
      · exact hs.named st m' hm₀
    · rw [hstack]
      refine (hs.linked st).update (stays_setPages below) fun m₀ hm₀ hid prev hprev => ?_
      rw [← hid]
      exact hs.linked st m₀ hm₀ prev hprev
    · refine hgone.toSameLists.unlisted.trans ?_
      show updateMission _ _ s.unlisted = []
      rw [hs.unlisted]
      rfl
    · obtain ⟨r', hr'⟩ := Option.isSome_iff_exists.mp ht'
      obtain ⟨hout, r₀, hr₀, -⟩ := hgone.before hr'
      have hlive : (s.records t').isSome := by
        have hr₀' : s.records t' = some r₀ := hr₀
        rw [hr₀']
        rfl
      obtain ⟨st, m₁, hm₁, ht₁⟩ := hs.placed t' hlive
      refine ⟨st, _, by rw [hstack]; exact List.mem_map.mpr ⟨m₁, hm₁, rfl⟩, ?_⟩
      split
      · next hid =>
        have hmm : m₁ = m := Keyed.eq_of_key_eq h.ids (mem_all_of_stack hm₁) hm hid
        rw [hmm, ← happ] at ht₁
        exact (List.mem_append.mp ht₁).resolve_right hout
      · exact ht₁
  · -- The mission goes.
    have habove : above = m.pageAbilityRecords := by
      have happ := splitAt_append t m.pageAbilityRecords
      rw [hsplit, hbelow] at happ
      exact happ
    obtain ⟨st, hmst⟩ := hs.on_stack hm
    have hst : m.abilityMissionStack = st := h.listed st m hmst
    have hreturns : (∀ st', (s₁.stack st').Perm ((s.dropMission st m.id).stack st')) ∧
        s₁.unlisted = (s.dropMission st m.id).unlisted ∧ s₁.serviceRecords = s.serviceRecords ∧
        s₁.records = s.records := by
      rw [← hst]
      cases hret with
      | home =>
        exact ⟨fun st' => (by cases st' <;> exact .refl _), rfl, services_dropMission, records_dropMission⟩
      | back prev _ hmove =>
        obtain ⟨l, hl, rfl⟩ := moveMissionRecordToTop_cases hmove
        obtain ⟨hperm, -⟩ := moveToTop_ok hl (h.dropMission.stack_ids _)
        refine ⟨fun st' => ?_, unlisted_setStack l, (services_setStack l).trans services_dropMission,
          (records_setStack l).trans records_dropMission⟩
        by_cases he : st' = m.abilityMissionStack
        · rw [he, stack_setStack_same]
          exact hperm
        · rw [stack_setStack_ne l he]
    obtain ⟨hstack, hun, hservices, hrecords⟩ := hreturns
    refine hs.drop h hmst (fun st' => by rw [hgone.toSameLists.stack]; exact hstack st')
      (hgone.toSameLists.unlisted.trans hun) (hgone.toSameLists.services.trans hservices)
      (fun t' ht' => ?_) hproc
    obtain ⟨r', hr'⟩ := Option.isSome_iff_exists.mp ht'
    obtain ⟨hout, r₀, hr₀, -⟩ := hgone.before hr'
    rw [hrecords] at hr₀
    exact ⟨habove ▸ hout, by rw [hr₀]; rfl⟩

theorem Settled.setTop (hs : Settled s) (top : Option StackType) :
    Settled { s with topMissionStacks := top } := by
  refine ⟨fun st => ?_, fun st => ?_, hs.unlisted, fun t ht => ?_, hs.noServices,
    ⟨hs.noProcess.apps, hs.noProcess.pages⟩⟩
  · have h := hs.named st
    cases st <;> exact h
  · have h := hs.linked st
    cases st <;> exact h
  · obtain ⟨st, m, hm, htm⟩ := hs.placed t ht
    exact ⟨st, m, by cases st <;> exact hm, htm⟩

theorem Settled.moveMissionRecordToTop (hs : Settled s) (h : s.Shape)
    (hmove : s.moveMissionRecordToTop st id = .ok s') : Settled s' := by
  have hproc := hs.noProcess.moveMissionRecordToTop hmove
  obtain ⟨l, hl, rfl⟩ := moveMissionRecordToTop_cases hmove
  obtain ⟨hperm, -⟩ := moveToTop_ok hl (h.stack_ids st)
  have hstack (st' : StackType) : ((s.setStack st l).stack st').Perm (s.stack st') := by
    by_cases he : st' = st
    · subst he
      rw [stack_setStack_same]
      exact hperm
    · rw [stack_setStack_ne l he]
  refine ⟨fun st' m hm => hs.named st' m ((hstack st').mem_iff.mp hm),
    fun st' => (hs.linked st').perm (hstack st'), (unlisted_setStack l).trans hs.unlisted,
    fun t ht => ?_, (services_setStack l).trans hs.noServices, hproc⟩
  rw [records_setStack] at ht
  obtain ⟨st', m, hm, htm⟩ := hs.placed t ht
  exact ⟨st', m, (hstack st').mem_iff.mpr hm, htm⟩

theorem Settled.returnFrom (hs : Settled s) (h : s.Shape) (hr : s.returnFrom name = .ok s') : Settled s' := by
  rcases returnFrom_cases hr with rfl | rfl | ⟨_, _, _, _, hmove⟩
  · exact hs
  · exact hs.setTop _
  · exact hs.moveMissionRecordToTop h hmove

theorem Settled.clearAbilityStack (hs : Settled s) (h : s.Shape)
    (hc : s.clearAbilityStack env name = .ok s') : Settled s' := by
  obtain ⟨s₁, s₂, h₁, h₂, hc⟩ := clearAbilityStack_cases hc
  rw [hs.noServices] at h₁
  cases h₁
  have hs₂ := hs.returnFrom h h₂
  have hshape₂ := h.returnFrom h₂
  obtain ⟨_, rfl⟩ | ⟨m, _, htarget, hst, hgone, s₃, h₃, rfl⟩ := removeMissionRecordByName_cases hshape₂ hc
  · exact hs₂
  · have hservices : (s₂.modifyMission m.id (·.setPages [])).serviceRecords = [] := hs₂.noServices
    rw [clearPageAbility_noServices hservices] at h₃
    have hproc : NoProcess (s₃.dropMission (targetStack (some name)) m.id) := by
      have hdrop : NoProcess (s₃.removeMissionRecord (targetStack (some name)) m.id) :=
        ((hs₂.noProcess.modifyMission _).deletePages h₃).setStack _
      exact ⟨hdrop.apps, hdrop.pages⟩
    have hmst := (getTargetMissionRecord_mem htarget).1
    have hlists := hgone.toSameLists
    rw [hst] at hlists
    refine hs₂.drop hshape₂ hmst (fun st' => by rw [hlists.stack]) hlists.unlisted
      (hlists.services.trans services_dropMission) (fun t ht => ?_) hproc
    obtain ⟨r, hr⟩ := Option.isSome_iff_exists.mp ht
    obtain ⟨hout, r₀, hr₀, -⟩ := hgone.before hr
    rw [records_dropMission] at hr₀
    exact ⟨hout, by rw [hr₀]; rfl⟩

/-! ## GeneratePageAbility -/

/-- There is room for another mission on each stack, and for another page on each mission. -/
def Roomy (s : AbilityMgr) : Prop :=
  ∀ st, (s.stack st).length < missionRecordListCapacity ∧
    ∀ m ∈ s.stack st, m.pageAbilityRecords.length < AbilityMissionRecord.pageAbilityRecordsListCapacity

instance (s : AbilityMgr) : Decidable s.Roomy :=
  let roomy (st : StackType) : Prop := (s.stack st).length < missionRecordListCapacity ∧
    ∀ m ∈ s.stack st, m.pageAbilityRecords.length < AbilityMissionRecord.pageAbilityRecordsListCapacity
  decidable_of_iff (roomy .launcher ∧ roomy .default)
    ⟨fun h st => by cases st; exact h.1; exact h.2, fun h => ⟨h .launcher, h .default⟩⟩

theorem NoProcess.newRecord (h : NoProcess s) (info : AbilityInfo) (want : Want) :
    (s.newRecord info want).appRecord = none := by
  have hnone : s.getAppRecordByBundleName info.bundleName = none := by
    unfold getAppRecordByBundleName
    rw [h.apps]
    cases info.bundleName <;> rfl
  show (s.getAppRecordByBundleName info.bundleName).map _ = none
  rw [hnone]
  rfl

variable {target : AbilityInfo} {want : Want}

/-- The records after a new page: the new one, and those that were there. -/
theorem placePage_records {s₁ : AbilityMgr} (hs₁ : s₁ = (s.newPageAbility gen target want).2)
    {p : Token} {r : PageAbilityRecord}
    (hr : (s₁.modify (gen.generate s.generated) (·.setMissionRecord id)).records p = some r) :
    (p = gen.generate s.generated ∧ r.appRecord = (s.newRecord target want).appRecord) ∨
      s.records p = some r := by
  subst hs₁
  have hr' : ((s.records.insert (gen.generate s.generated) (s.newRecord target want)).modify
      (gen.generate s.generated) (·.setMissionRecord id)) p = some r := hr
  obtain ⟨r₀, hr₀, ⟨rfl, rfl⟩ | ⟨hne, rfl⟩⟩ := Store.modify_cases hr'
  · rw [Store.insert_same] at hr₀
    cases hr₀
    exact .inl ⟨rfl, rfl⟩
  · rw [Store.insert_ne _ _ hne] at hr₀
    exact .inr hr₀

/-- A new mission goes on top of its stack while there is room. -/
theorem newMission_stacks (hroom : (s.stack st).length < missionRecordListCapacity)
    (h : s.newMission gen target want st = (t, id, s')) :
    s'.stack st = s.stack st ++ [s.newMissionRecord target st t] ∧
      (∀ st', st' ≠ st → s'.stack st' = s.stack st') ∧ s'.unlisted = s.unlisted := by
  obtain ⟨hlists, -⟩ := newMission_lists h
  rw [lists_push rfl] at hlists
  have hst : (s.newMissionRecord target st t).abilityMissionStack = st := rfl
  rw [hst, if_neg (Nat.not_le_of_lt hroom)] at hlists
  have hl : s'.launcherMissionStacks = (s.listsWith (s.newMissionRecord target st t) st).1 :=
    congrArg Prod.fst hlists
  have hd : s'.defaultMissionStacks = (s.listsWith (s.newMissionRecord target st t) st).2.1 :=
    congrArg (fun l => l.2.1) hlists
  have hu : s'.unlisted = (s.listsWith (s.newMissionRecord target st t) st).2.2 :=
    congrArg (fun l => l.2.2) hlists
  cases st with
  | launcher =>
    refine ⟨hl, fun st' hne => ?_, hu⟩
    cases st' with
    | launcher => exact absurd rfl hne
    | default => exact hd
  | default =>
    refine ⟨hd, fun st' hne => ?_, hu⟩
    cases st' with
    | launcher => exact hl
    | default => exact absurd rfl hne

theorem Settled.newMission (hs : Settled s) (hname : target.bundleName.isSome)
    (hroom : (s.stack st).length < missionRecordListCapacity)
    (h : s.newMission gen target want st = (t, id, s')) : Settled s' := by
  obtain ⟨hstack, hother, hun⟩ := newMission_stacks hroom h
  have hkeep (st' : StackType) : ∀ m ∈ s.stack st', m ∈ s'.stack st' := by
    intro m hm
    by_cases he : st' = st
    · rw [he, hstack]
      exact List.mem_append_left _ (he ▸ hm)
    · rw [hother st' he]
      exact hm
  obtain ⟨rfl, rfl, s₁, hs₁, rfl⟩ := newMission_cases h
  have hpush (s₀ : AbilityMgr) (m : AbilityMissionRecord) : (s₀.pushTopMissionRecord m).records = s₀.records ∧
      (s₀.pushTopMissionRecord m).serviceRecords = s₀.serviceRecords ∧
      (s₀.pushTopMissionRecord m).appRecords = s₀.appRecords := by
    unfold pushTopMissionRecord
    dsimp only
    split
    · exact ⟨rfl, rfl, rfl⟩
    · exact ⟨records_setStack _, services_setStack _, appRecords_setStack _⟩
  obtain ⟨hrecords, hservices, happs⟩ := hpush (({ s₁ with missions := s.missions + 1 } : AbilityMgr).modify
    (gen.generate s.generated) (·.setMissionRecord s.missions))
      (s.newMissionRecord target st (gen.generate s.generated))
  have hcases {p : Token} {r : PageAbilityRecord} (hr : ((({ s₁ with missions := s.missions + 1 } :
      AbilityMgr).modify (gen.generate s.generated) (·.setMissionRecord s.missions)).pushTopMissionRecord
        (s.newMissionRecord target st (gen.generate s.generated))).records p = some r) :
      (p = gen.generate s.generated ∧ r.appRecord = (s.newRecord target want).appRecord) ∨
        s.records p = some r := by
    rw [hrecords] at hr
    exact placePage_records hs₁ hr
  refine ⟨fun st' m hm => ?_, fun st' => ?_, hun.trans hs.unlisted, fun p hp => ?_, ?_, ?_⟩
  · by_cases he : st' = st
    · rw [he, hstack] at hm
      rcases List.mem_append.mp hm with hm | hm
      · exact hs.named st m hm
      · rw [List.mem_singleton.mp hm]
        exact hname
    · rw [hother st' he] at hm
      exact hs.named st' m hm
  · by_cases he : st' = st
    · rw [he, hstack]
      exact (hs.linked st).concat rfl
    · rw [hother st' he]
      exact hs.linked st'
  · obtain ⟨r, hr⟩ := Option.isSome_iff_exists.mp hp
    rcases hcases hr with ⟨rfl, -⟩ | hold
    · exact ⟨st, _, by rw [hstack]; exact List.mem_append_right _ (List.mem_singleton.mpr rfl),
        List.mem_singleton.mpr rfl⟩
    · obtain ⟨st', m, hm, htm⟩ := hs.placed p (by rw [hold]; rfl)
      exact ⟨st', m, hkeep st' m hm, htm⟩
  · refine hservices.trans ?_
    rw [hs₁]
    exact hs.noServices
  · refine ⟨happs.trans ?_, fun p r hr => ?_⟩
    · rw [hs₁]
      exact hs.noProcess.apps
    · rcases hcases hr with ⟨-, he⟩ | hold
      · rw [he]
        exact hs.noProcess.newRecord target want
      · exact hs.noProcess.pages p r hold

theorem pushPageAbility_eq
    (hroom : m.pageAbilityRecords.length < AbilityMissionRecord.pageAbilityRecordsListCapacity) :
    m.pushPageAbility t = m.setPages (m.pageAbilityRecords ++ [t]) :=
  if_neg (Nat.not_le_of_lt hroom)

theorem pushPageAbility_prev (m : AbilityMissionRecord) (t : Token) :
    (m.pushPageAbility t).prevMissionRecord = m.prevMissionRecord := by
  unfold AbilityMissionRecord.pushPageAbility
  split <;> rfl

theorem Settled.newPage (hs : Settled s) (hm : m ∈ s.stack st)
    (hroom : m.pageAbilityRecords.length < AbilityMissionRecord.pageAbilityRecordsListCapacity)
    (h : s.newPage gen target want m.id = (t, s')) : Settled s' := by
  obtain ⟨-, hlists, -⟩ := newPage_lists h
  obtain ⟨rfl, s₁, hs₁, rfl⟩ := newPage_cases h
  have hstack (st' : StackType) : (((s₁.modify (gen.generate s.generated)
      (·.setMissionRecord m.id)).modifyMission m.id (·.pushPageAbility (gen.generate s.generated))).stack st') =
      updateMission m.id (·.pushPageAbility (gen.generate s.generated)) (s.stack st') := by
    rw [stack_of_lists hlists, stack_modifyMission]
  refine ⟨fun st' m' hm' => ?_, fun st' => ?_, ?_, fun p hp => ?_, ?_, ?_⟩
  · rw [hstack] at hm'
    obtain ⟨m₀, hm₀, ⟨_, rfl⟩ | ⟨_, rfl⟩⟩ := mem_updateMission hm'
    · rw [(stays_pushPageAbility _).bundleName]
      exact hs.named st' m₀ hm₀
    · exact hs.named st' m' hm₀
  · rw [hstack]
    refine (hs.linked st').update (stays_pushPageAbility _) fun m₀ hm₀ hid prev hprev => ?_
    rw [pushPageAbility_prev] at hprev
    rw [← hid]
    exact hs.linked st' m₀ hm₀ prev hprev
  · have hun : updateMission m.id (·.pushPageAbility (gen.generate s.generated)) s.unlisted = [] := by
      rw [hs.unlisted]
      rfl
    rw [hs₁]
    exact hun
  · obtain ⟨r, hr⟩ := Option.isSome_iff_exists.mp hp
    rcases placePage_records hs₁ hr with ⟨rfl, -⟩ | hold
    · refine ⟨st, _, by rw [hstack]; exact List.mem_map.mpr ⟨m, hm, rfl⟩, ?_⟩
      rw [if_pos rfl]
      show _ ∈ (m.pushPageAbility _).pageAbilityRecords
      rw [pushPageAbility_eq hroom]
      exact List.mem_append_right _ (List.mem_singleton.mpr rfl)
    · obtain ⟨st', m₁, hm₁, htm⟩ := hs.placed p (by rw [hold]; rfl)
      refine ⟨st', _, by rw [hstack]; exact List.mem_map.mpr ⟨m₁, hm₁, rfl⟩, ?_⟩
      split
      · exact mem_pushPageAbility htm
      · exact htm
  · rw [hs₁]
    exact hs.noServices
  · refine ⟨by rw [hs₁]; exact hs.noProcess.apps, fun p r hr => ?_⟩
    rcases placePage_records hs₁ hr with ⟨-, he⟩ | hold
    · rw [he]
      exact hs.noProcess.newRecord target want
    · exact hs.noProcess.pages p r hold

/-- A mission goes back to the one that was on top of its stack. -/
theorem Settled.link (hs : Settled s) (h : s.Shape) {m' : AbilityMissionRecord} (hm : m ∈ s.stack st)
    (hm' : m' ∈ s.stack st) (hne : m'.id ≠ m.id) : Settled (s.link m'.id m) := by
  have hstack (st' : StackType) : (s.link m'.id m).stack st' =
      updateMission m'.id (·.setPrevMissionRecord (some m.id)) (s.stack st') := stack_modifyMission _
  refine ⟨fun st' m₁ hm₁ => ?_, fun st' => ?_, ?_, fun t ht => ?_, hs.noServices, hs.noProcess.modifyMission _⟩
  · rw [hstack] at hm₁
    obtain ⟨m₀, hm₀, ⟨_, rfl⟩ | ⟨_, rfl⟩⟩ := mem_updateMission hm₁
    · exact hs.named st' m₀ hm₀
    · exact hs.named st' m₁ hm₀
  · rw [hstack]
    refine (hs.linked st').update (stays_setPrevMissionRecord _) fun m₀ hm₀ hid prev hprev => ?_
    cases hprev
    have hmm : m₀ = m' := Keyed.eq_of_key_eq h.ids (mem_all_of_stack hm₀) (mem_all_of_stack hm') hid
    have hst : st' = st := by
      rw [← h.listed st' m₀ hm₀, hmm, h.listed st m' hm']
    subst hst
    exact ⟨fun he => hne he.symm, m, hm, rfl⟩
  · show updateMission _ _ s.unlisted = []
    rw [hs.unlisted]
    rfl
  · obtain ⟨st', m₁, hm₁, htm⟩ := hs.placed t ht
    refine ⟨st', _, by rw [hstack]; exact List.mem_map.mpr ⟨m₁, hm₁, rfl⟩, ?_⟩
    split
    · exact htm
    · exact htm

theorem moveMissionRecordToTop_last (h : s.Shape) (hm : m ∈ s.stack st)
    (hs : s.moveMissionRecordToTop st m.id = .ok s') :
    (s'.stack st).getLast? = some m ∧ ∀ m₀ ∈ s.stack st, m₀ ∈ s'.stack st := by
  obtain ⟨l, hl, rfl⟩ := moveMissionRecordToTop_cases hs
  obtain ⟨hperm, m', hm', hid, hlast, -⟩ := moveToTop_ok hl (h.stack_ids st)
  rw [stack_setStack_same]
  rw [Keyed.eq_of_key_eq (h.stack_ids st) hm' hm hid] at hlast
  exact ⟨hlast, fun m₀ hm₀ => hperm.mem_iff.mpr hm₀⟩

/-- What `GeneratePageAbility` has brought up before it links the mission: a mission on top of its
stack with the page on top of it. -/
theorem Settled.finds (hs : Settled s) (h : s.Shape) (hfresh : s.records (gen.generate s.generated) = none)
    (hpage : target.abilityType ≠ .service) (hname : target.bundleName.isSome) (hroom : s.Roomy)
    {top : Option PageAbilityRecord} {page : Option Token}
    (hf : Finds gen target want top (targetStack target.bundleName) s page id s') :
    Settled s' ∧ (∃ m, (s'.stack (targetStack target.bundleName)).getLast? = some m ∧ m.id = id ∧
      m.getTopPageAbility = page) ∧
      ∀ m ∈ s.stack (targetStack target.bundleName), ∃ m' ∈ s'.stack (targetStack target.bundleName),
        m'.id = m.id := by
  cases hf with
  | @mission t id s' _ hnew =>
    have hroom' := (hroom (targetStack target.bundleName)).1
    obtain ⟨hstack, -⟩ := newMission_stacks hroom' hnew
    refine ⟨hs.newMission hname hroom' hnew, ⟨s.newMissionRecord target (targetStack target.bundleName) t, ?_, ?_, rfl⟩, fun m hm => ?_⟩
    · rw [hstack]
      exact List.getLast?_concat
    · exact (newMission_cases hnew).2.1.symm
    · exact ⟨m, by rw [hstack]; exact List.mem_append_left _ hm, rfl⟩
  | @page m s' hm _ hmove =>
    obtain ⟨hmem, -⟩ := getTargetMissionRecord_mem hm
    obtain ⟨hlast, hkeep⟩ := moveMissionRecordToTop_last h hmem hmove
    exact ⟨hs.moveMissionRecordToTop h hmove, ⟨m, hlast, rfl, rfl⟩, fun m₀ hm₀ => ⟨m₀, hkeep m₀ hm₀, rfl⟩⟩
  | @newPage m t s₁ s' hm _ hnew hmove =>
    obtain ⟨hmem, hmname, -⟩ := getTargetMissionRecord_mem hm
    have hroom' := (hroom (targetStack target.bundleName)).2 m hmem
    have hshape₁ : s₁.Shape := h.newPage hfresh (mem_all_of_stack hmem) hmname hpage hnew
    have hs₁ := hs.newPage hmem hroom' hnew
    obtain ⟨-, hlists, -⟩ := newPage_lists hnew
    have hstack : s₁.stack (targetStack target.bundleName) =
        updateMission m.id (·.pushPageAbility t) (s.stack (targetStack target.bundleName)) := by
      rw [stack_of_lists hlists, stack_modifyMission]
    have hpushed : m.pushPageAbility t ∈ s₁.stack (targetStack target.bundleName) := by
      rw [hstack]
      exact List.mem_map.mpr ⟨m, hmem, if_pos rfl⟩
    have hid : (m.pushPageAbility t).id = m.id := (stays_pushPageAbility t).id m
    rw [← hid] at hmove
    obtain ⟨hlast, hkeep⟩ := moveMissionRecordToTop_last hshape₁ hpushed hmove
    refine ⟨hs₁.moveMissionRecordToTop hshape₁ hmove, ⟨_, hlast, hid, ?_⟩, fun m₀ hm₀ => ?_⟩
    · unfold AbilityMissionRecord.getTopPageAbility
      rw [pushPageAbility_eq hroom']
      exact List.getLast?_concat
    · have hmem₀ : m₀.id ∈ (s₁.stack (targetStack target.bundleName)).map (·.id) := by
        rw [hstack, updateMission_ids (stays_pushPageAbility t)]
        exact List.mem_map.mpr ⟨m₀, hm₀, rfl⟩
      obtain ⟨m', hm', hid'⟩ := List.mem_map.mp hmem₀
      exact ⟨m', hkeep m' hm', hid'⟩

/-- After `GeneratePageAbility` the context is settled, and the page it returns is on top. -/
theorem Settled.generatePageAbility (hs : Settled s) (h : s.Shape)
    (hfresh : s.records (gen.generate s.generated) = none) (hpage : target.abilityType ≠ .service)
    (hname : target.bundleName.isSome) (hroom : s.Roomy) {topAbility page : Option Token}
    (hgen : s.generatePageAbility gen target want topAbility = .ok (page, s')) :
    Settled s' ∧ (target.name.isSome → s'.getTopPageAbility = page) := by
  obtain ⟨hnone, _, rfl⟩ | ⟨_, id, s₁, s₂, hf, hlink, rfl⟩ := generatePageAbility_cases hgen
  · exact ⟨hs, fun hsome => by rw [hnone] at hsome; cases hsome⟩
  · have hshape₁ := hf.shape h hfresh hpage
    obtain ⟨hs₁, ⟨m', hlast, hid, htop⟩, hkeep⟩ := hs.finds h hfresh hpage hname hroom hf
    have hmem' := List.mem_of_getLast? hlast
    have hboth : Settled s₂ ∧ ∃ m₂, (s₂.stack (targetStack target.bundleName)).getLast? = some m₂ ∧
        m₂.getTopPageAbility = page := by
      rcases hlink with ⟨rfl, _⟩ | ⟨m, hm, _, hne, rfl⟩
      · exact ⟨hs₁, m', hlast, htop⟩
      · obtain ⟨m₁, hm₁, hid₁⟩ := hkeep m (getTopMissionRecord_mem hm)
        have hlinked := hs₁.link hshape₁ hm₁ hmem' (by rw [hid, hid₁]; exact hne)
        rw [hid] at hlinked
        have hsame : s₁.link id m = s₁.link id m₁ := by
          unfold AbilityMgr.link
          rw [hid₁]
        rw [hsame]
        refine ⟨hlinked, m'.setPrevMissionRecord (some m₁.id), ?_, htop⟩
        show ((s₁.modifyMission id _).stack _).getLast? = _
        rw [stack_modifyMission]
        exact getLast?_updateMission hlast hid
    obtain ⟨hs₂, m₂, hlast₂, htop₂⟩ := hboth
    refine ⟨hs₂.setTop _, fun _ => ?_⟩
    unfold getTopPageAbility getTopMissionRecord
    have hstack : ({ s₂ with topMissionStacks := some (targetStack target.bundleName) } : AbilityMgr).stack
        (targetStack target.bundleName) = s₂.stack (targetStack target.bundleName) := by
      cases targetStack target.bundleName <;> rfl
    dsimp only
    rw [hstack, hlast₂, Option.bind_some, htop₂]

/-! ## No call runs into a deleted object -/

theorem Settled.live (hs : Settled s) (h : s.Shape) {r : PageAbilityRecord} (hr : s.records t = some r) :
    ∃ st, ∃ m ∈ s.stack st, t ∈ m.pageAbilityRecords ∧ r.missionRecord = some m.id := by
  obtain ⟨st, m, hm, htm⟩ := hs.placed t (by rw [hr]; rfl)
  obtain ⟨r', hr', hid, -⟩ := (h.missions m (mem_all_of_stack hm)).placed t htm
  rw [hr] at hr'
  cases hr'
  exact ⟨st, m, hm, htm, hid⟩

theorem Settled.pages_live (hm : m ∈ s.stack st) (h : s.Shape) :
    ∀ t ∈ m.pageAbilityRecords, (s.records t).isSome := by
  intro t ht
  obtain ⟨r, hr, -⟩ := (h.missions m (mem_all_of_stack hm)).placed t ht
  rw [hr]
  rfl

theorem Settled.removePageAbility_isSome (hs : Settled s) (h : s.Shape) (ht : (s.records t).isSome) :
    ∃ s', s.removePageAbility t = .ok s' := by
  obtain ⟨r, hr⟩ := Option.isSome_iff_exists.mp ht
  obtain ⟨st, m, hm, htm, hid⟩ := hs.live h hr
  have happ := splitAt_append t m.pageAbilityRecords
  have hshape := h.missions m (mem_all_of_stack hm)
  have hnodup : (splitAt t m.pageAbilityRecords).2.Nodup := by
    have hn := hshape.nodup
    rw [← happ, List.nodup_append] at hn
    exact hn.2.1
  have hproc : NoProcess (s.modifyMission m.id (·.setPages (splitAt t m.pageAbilityRecords).1)) :=
    hs.noProcess.modifyMission _
  have hlive := Settled.pages_live hm h
  -- Every page above the one removed is live and stands once, so each can be deleted.
  obtain ⟨s₁, h₁⟩ := hproc.deletePages_isSome hnodup fun p hp =>
    hlive p (by rw [← happ]; exact List.mem_append_right _ hp)
  have hstack : s₁.stack st = updateMission m.id (·.setPages (splitAt t m.pageAbilityRecords).1)
      (s.stack st) := by
    rw [(deletePages_gone h₁).toSameLists.stack, stack_modifyMission]
  have hmission := h.mission_eq (mem_all_of_stack hm)
  have hst : m.abilityMissionStack = st := h.listed st m hm
  simp only [AbilityMgr.removePageAbility, bind_eq_ok, record_eq_ok]
  by_cases hbelow : (splitAt t m.pageAbilityRecords).1 = []
  · cases hprev : m.prevMissionRecord with
    | none =>
      refine ⟨{ s₁.removeMissionRecord m.abilityMissionStack m.id with
        topMissionStacks := some .launcher }.deleteMissionRecord m.id, r, hr, ?_⟩
      rw [hid]
      simp only [bind_eq_ok]
      refine ⟨m, hmission, s₁, h₁, ?_⟩
      rw [if_pos hbelow, hprev]
      rfl
    | some prev =>
      -- The mission it goes back to is still on the stack.
      obtain ⟨hne, m', hm', hid'⟩ := hs.linked st m hm prev hprev
      have hstay : ∃ m₁ ∈ (s₁.removeMissionRecord m.abilityMissionStack m.id).stack
          m.abilityMissionStack, m₁.id = prev := by
        rw [hst]
        unfold removeMissionRecord
        rw [stack_setStack_same, hstack]
        refine ⟨_, List.mem_map.mpr ⟨m', List.mem_filter.mpr ⟨?_, decide_eq_true ?_⟩, rfl⟩, ?_⟩
        · exact List.mem_map.mpr ⟨m', hm', if_neg (by rw [hid']; exact hne)⟩
        · rw [hid']
          exact hne
        · split
          · exact hid'
          · exact hid'
      obtain ⟨s₂, h₂⟩ := moveMissionRecordToTop_isSome hstay
      refine ⟨s₂.deleteMissionRecord m.id, r, hr, ?_⟩
      rw [hid]
      simp only [bind_eq_ok]
      refine ⟨m, hmission, s₁, h₁, ?_⟩
      rw [if_pos hbelow, hprev]
      simp only [bind_eq_ok]
      exact ⟨s₂, h₂, rfl⟩
  · refine ⟨s₁, r, hr, ?_⟩
    rw [hid]
    simp only [bind_eq_ok]
    refine ⟨m, hmission, s₁, h₁, ?_⟩
    rw [if_neg hbelow]

theorem Settled.returnFrom_isSome (hs : Settled s) (name : CString) : ∃ s', s.returnFrom name = .ok s' := by
  unfold AbilityMgr.returnFrom
  dsimp only
  split
  · exact ⟨s, rfl⟩
  · next m hm =>
    split
    · next prev hprev =>
      obtain ⟨-, m', hm', hid⟩ := hs.linked _ m (getTargetMissionRecord_mem hm).1 prev hprev
      exact moveMissionRecordToTop_isSome ⟨m', hm', hid⟩
    · split
      · exact ⟨s, rfl⟩
      · split
        · exact ⟨_, rfl⟩
        · exact ⟨s, rfl⟩

theorem Settled.clearAbilityStack_isSome (hs : Settled s) (h : s.Shape) :
    ∃ s', s.clearAbilityStack env name = .ok s' := by
  obtain ⟨s₁, h₁⟩ := hs.returnFrom_isSome name
  have hs₁ := hs.returnFrom h h₁
  have hshape₁ := h.returnFrom h₁
  have hlast : ∃ s', s₁.removeMissionRecordByName env (targetStack (some name)) (some name) = .ok s' := by
    unfold AbilityMgr.removeMissionRecordByName
    cases hm : s₁.getTargetMissionRecord (targetStack (some name)) (some name) with
    | none => exact ⟨s₁, rfl⟩
    | some m =>
      have hmem := (getTargetMissionRecord_mem hm).1
      have hservices : (s₁.modifyMission m.id (·.setPages [])).serviceRecords = [] := hs₁.noServices
      have hproc : NoProcess (s₁.modifyMission m.id (·.setPages [])) := hs₁.noProcess.modifyMission _
      have hlive := Settled.pages_live hmem hshape₁
      obtain ⟨s₂, h₂⟩ := hproc.deletePages_isSome
        (hshape₁.missions m (mem_all_of_stack hmem)).nodup hlive
      dsimp only
      rw [clearPageAbility_noServices hservices, h₂]
      exact ⟨_, rfl⟩
  obtain ⟨s', hlast⟩ := hlast
  refine ⟨s', ?_⟩
  simp only [AbilityMgr.clearAbilityStack, bind_eq_ok]
  exact ⟨s, by rw [hs.noServices]; rfl, s₁, h₁, hlast⟩

theorem targetPage_isSome (gen : TokenGenerate) (h : s.Shape) (target : AbilityInfo) (want : Want)
    (top : Option PageAbilityRecord) : ∃ x, s.targetPage gen target want top st = .ok x := by
  unfold targetPage
  cases hm : s.getTargetMissionRecord st target.bundleName with
  | none => exact ⟨_, rfl⟩
  | some m =>
    obtain ⟨hmem, -⟩ := getTargetMissionRecord_mem hm
    obtain ⟨s₁, h₁⟩ := moveMissionRecordToTop_isSome ⟨m, hmem, rfl⟩
    obtain ⟨s₂, h₂⟩ : ∃ s₂, (s.newPage gen target want m.id).2.moveMissionRecordToTop st m.id = .ok s₂ := by
      refine moveMissionRecordToTop_isSome ?_
      have hids : m.id ∈ ((s.newPage gen target want m.id).2.stack st).map (·.id) := by
        have hnew : s.newPage gen target want m.id =
            ((s.newPage gen target want m.id).1, (s.newPage gen target want m.id).2) := rfl
        obtain ⟨-, hlists, -⟩ := newPage_lists hnew
        rw [stack_of_lists hlists, stack_modifyMission, updateMission_ids (stays_pushPageAbility _)]
        exact List.mem_map.mpr ⟨m, hmem, rfl⟩
      obtain ⟨m', hm', hid⟩ := List.mem_map.mp hids
      exact ⟨m', hm', hid⟩
    dsimp only
    split
    · exact ⟨_, bind_eq_ok.mpr ⟨s₁, h₁, rfl⟩⟩
    · split
      · next p hp =>
        obtain ⟨r, hr, -⟩ := (h.missions m (mem_all_of_stack hmem)).placed p (List.mem_of_getLast? hp)
        by_cases hsame : r.isSamePageAbility want = true
        · refine ⟨(some p, m.id, s₁), bind_eq_ok.mpr ⟨r, record_eq_ok.mpr hr, ?_⟩⟩
          rw [if_pos hsame]
          exact bind_eq_ok.mpr ⟨s₁, h₁, rfl⟩
        · refine ⟨(some (s.newPage gen target want m.id).1, m.id, s₂),
            bind_eq_ok.mpr ⟨r, record_eq_ok.mpr hr, ?_⟩⟩
          rw [if_neg hsame]
          exact bind_eq_ok.mpr ⟨s₂, h₂, rfl⟩
      · exact ⟨_, bind_eq_ok.mpr ⟨s₂, h₂, rfl⟩⟩

theorem generatePageAbility_isSome (h : s.Shape) (target : AbilityInfo) (want : Want)
    (topAbility : Option Token) :
    ∃ page s', s.generatePageAbility gen target want topAbility = .ok (page, s') := by
  unfold AbilityMgr.generatePageAbility
  split
  · exact ⟨none, s, rfl⟩
  · obtain ⟨⟨page, id, s₁⟩, h₁⟩ := targetPage_isSome gen h target want (topAbility.bind s.records)
    exact ⟨page, _, bind_eq_ok.mpr ⟨(page, id, s₁), h₁, rfl⟩⟩

end AbilityMgr

/-! ## Sequences of calls -/

/-- A call of `AbilityStackManager` on the context. -/
inductive StackCall where
  | generatePageAbility (target : AbilityInfo) (want : Want) (topAbility : Option Token)
  | removePageAbility (target : Token)
  | clearAbilityStack (bundleName : CString)

namespace StackCall
variable {gen : TokenGenerate} {env : Env} {s s' : AbilityMgr} {call : StackCall}

/-- What a call returns, and the context it leaves. -/
def run (gen : TokenGenerate) (env : Env) (s : AbilityMgr) :
    StackCall → Except Fault (Option Token × AbilityMgr)
  | generatePageAbility target want topAbility => s.generatePageAbility gen target want topAbility
  | removePageAbility target => do
    let s ← s.removePageAbility target
    .ok (none, s)
  | clearAbilityStack bundleName => do
    let s ← s.clearAbilityStack env bundleName
    .ok (none, s)

/-- A target is an ability with a name and a bundle name, and the lists have room for it; a page to
remove is a record that is there. -/
def Valid (s : AbilityMgr) : StackCall → Prop
  | generatePageAbility target _ _ => target.name.isSome ∧ target.bundleName.isSome ∧ s.Roomy
  | removePageAbility target => (s.records target).isSome
  | clearAbilityStack _ => True

instance (s : AbilityMgr) : (call : StackCall) → Decidable (call.Valid s)
  | generatePageAbility _ _ _ => inferInstanceAs (Decidable (_ ∧ _ ∧ _))
  | removePageAbility _ => inferInstanceAs (Decidable (_ = true))
  | clearAbilityStack _ => inferInstanceAs (Decidable True)

def next (gen : TokenGenerate) (s : AbilityMgr) (call : Env × StackCall) : Option AbilityMgr :=
  match call.2.run gen call.1 s with
  | .ok (_, s') => some s'
  | .error _ => none

/-- The call with its target made a page. -/
def asPages : StackCall → StackCall
  | generatePageAbility target want topAbility => generatePageAbility target.asPage want topAbility
  | removePageAbility target => removePageAbility target
  | clearAbilityStack bundleName => clearAbilityStack bundleName

theorem run_asPages (hservices : s.serviceRecords = []) (call : StackCall) :
    call.asPages.run gen env s.asPages = (call.run gen env s).map fun (page, s) => (page, s.asPages) := by
  cases call with
  | generatePageAbility target want topAbility => exact AbilityMgr.generatePageAbility_asPages topAbility
  | removePageAbility target =>
    show (s.asPages.removePageAbility target >>= _) = (s.removePageAbility target >>= _).map _
    rw [AbilityMgr.removePageAbility_asPages]
    exact map_bind fun _ => rfl
  | clearAbilityStack bundleName =>
    show (s.asPages.clearAbilityStack env bundleName >>= _) = (s.clearAbilityStack env bundleName >>= _).map _
    rw [AbilityMgr.clearAbilityStack_asPages hservices]
    exact map_bind fun _ => rfl

theorem valid_asPages (hvalid : call.Valid s) : call.asPages.Valid s.asPages := by
  cases call with
  | generatePageAbility target want topAbility =>
    obtain ⟨hname, hbundle, hroom⟩ := hvalid
    refine ⟨hname, hbundle, fun st => ?_⟩
    rw [AbilityMgr.stack_asPages]
    exact hroom st
  | removePageAbility target =>
    show ((s.records target).map _).isSome
    rw [Option.isSome_map]
    exact hvalid
  | clearAbilityStack bundleName => trivial

/-- What every call keeps. -/
structure Keeps (gen : TokenGenerate) (s : AbilityMgr) : Prop where
  sound : AbilityMgr.Sound gen s
  settled : AbilityMgr.Settled s

theorem Keeps.run {page : Option Token} (h : Keeps gen s) (hvalid : call.asPages.Valid s)
    (hrun : call.asPages.run gen env s = .ok (page, s')) :
    Keeps gen s' ∧ ∀ t, page = some t → s'.getTopPageAbility = some t := by
  obtain ⟨hsound, hsettled⟩ := h
  have hsound' (hshape : s'.Shape) (hquiet : ReflTransGen (AbilityMgr.Quiet gen env) s s') :
      AbilityMgr.Sound gen s' := hsound.goes (.mk hshape (AbilityMgr.Quiet.steps hquiet))
  cases call with
  | generatePageAbility target want topAbility =>
    obtain ⟨hname, hbundle, hroom⟩ := hvalid
    have hfresh := hsound.known.fresh
    have hpage : target.asPage.abilityType ≠ .service := AbilityType.noConfusion
    obtain ⟨hsettled', htop⟩ :=
      hsettled.generatePageAbility hsound.shape hfresh hpage hbundle hroom hrun
    refine ⟨⟨hsound' (hsound.shape.generatePageAbility hfresh hpage hrun)
      (AbilityMgr.generatePageAbility_quiet hrun), hsettled'⟩, fun t ht => ?_⟩
    rw [htop hname, ht]
  | removePageAbility target =>
    simp only [StackCall.asPages, StackCall.run, bind_eq_ok] at hrun
    obtain ⟨s₁, h₁, hrun⟩ := hrun
    cases hrun
    exact ⟨⟨hsound' (hsound.shape.removePageAbility h₁) (AbilityMgr.removePageAbility_quiet h₁),
      hsettled.removePageAbility hsound.shape h₁⟩, fun t ht => by cases ht⟩
  | clearAbilityStack bundleName =>
    simp only [StackCall.asPages, StackCall.run, bind_eq_ok] at hrun
    obtain ⟨s₁, h₁, hrun⟩ := hrun
    cases hrun
    obtain ⟨hshape, hquiet⟩ := AbilityMgr.clearAbilityStack_shape hsound.shape h₁
    exact ⟨⟨hsound' hshape hquiet, hsettled.clearAbilityStack hsound.shape h₁⟩, fun t ht => by cases ht⟩

theorem Keeps.run_isSome (h : Keeps gen s) (env : Env) (hvalid : call.Valid s) :
    ∃ page s', call.run gen env s = .ok (page, s') := by
  obtain ⟨hsound, hsettled⟩ := h
  cases call with
  | generatePageAbility target want topAbility =>
    exact AbilityMgr.generatePageAbility_isSome hsound.shape target want topAbility
  | removePageAbility target =>
    obtain ⟨s', hs'⟩ := hsettled.removePageAbility_isSome hsound.shape hvalid
    exact ⟨none, s', bind_eq_ok.mpr ⟨s', hs', rfl⟩⟩
  | clearAbilityStack bundleName =>
    obtain ⟨s', hs'⟩ := hsettled.clearAbilityStack_isSome hsound.shape
    exact ⟨none, s', bind_eq_ok.mpr ⟨s', hs', rfl⟩⟩

/-- The shape of the mission stacks: what a mission is like, where a page is listed, and where a mission
goes back to. -/
structure StacksShape (s : AbilityMgr) : Prop where
  ids : ((s.launcherMissionStacks ++ s.defaultMissionStacks).map (·.id)).Nodup
  nonempty : ∀ st, ∀ m ∈ s.stack st, m.pageAbilityRecords ≠ []
  names : ∀ st, ((s.stack st).map (·.bundleName)).Nodup
  launcher : ∀ st, ∀ m ∈ s.stack st, isLauncherAbility m.bundleName = true → st = .launcher
  bundle : ∀ st, ∀ m ∈ s.stack st, ∀ t ∈ m.pageAbilityRecords,
    ∃ r, s.records t = some r ∧ r.abilityInfo.bundleName = m.bundleName
  place : ∀ t r, s.records t = some r → ∃ st, ∃ m ∈ s.stack st, r.missionRecord = some m.id ∧
    m.pageAbilityRecords.count t = 1 ∧
    ∀ st', ∀ m' ∈ s.stack st', t ∈ m'.pageAbilityRecords → st' = st ∧ m' = m
  home : ∀ st, ∀ m ∈ s.stack st, m.abilityMissionStack = st
  back : ∀ st, Linked (s.stack st)

/-- The shape is the same whatever the types of the abilities are. -/
theorem StacksShape.of_asPages (h : StacksShape s.asPages) : StacksShape s := by
  have hstack (st : StackType) : s.asPages.stack st = s.stack st := AbilityMgr.stack_asPages
  obtain ⟨hids, hnonempty, hnames, hlauncher, hbundle, hplace, hhome, hback⟩ := h
  simp only [hstack] at hnonempty hnames hlauncher hbundle hplace hhome hback
  refine ⟨hids, hnonempty, hnames, hlauncher, fun st m hm t ht => ?_, fun t r hr => ?_, hhome, hback⟩
  · obtain ⟨r', hr', hname⟩ := hbundle st m hm t ht
    rw [AbilityMgr.records_asPages, Option.map_eq_some_iff] at hr'
    obtain ⟨r, hr, rfl⟩ := hr'
    exact ⟨r, hr, hname⟩
  · have hr' : s.asPages.records t = some r.asPage := by
      rw [AbilityMgr.records_asPages, hr, Option.map_some]
    exact hplace t r.asPage hr'

theorem getTopPageAbility_asPages : s.asPages.getTopPageAbility = s.getTopPageAbility := by
  unfold AbilityMgr.getTopPageAbility AbilityMgr.getTopMissionRecord
  simp only [AbilityMgr.stack_asPages]
  rfl

theorem Keeps.stacksShape (h : Keeps gen s) : StacksShape s := by
  obtain ⟨⟨hshape, -⟩, hsettled⟩ := h
  have hids : ((s.launcherMissionStacks ++ s.defaultMissionStacks).map (·.id)).Nodup := by
    have hall := hshape.ids
    unfold AbilityMgr.allMissions at hall
    rw [hsettled.unlisted, List.append_nil] at hall
    exact hall
  refine ⟨hids, fun st m hm => ?_, fun st => ?_, fun st m hm hl => ?_, fun st m hm t ht => ?_,
    fun t r hr => ?_, hshape.listed, hsettled.linked⟩
  · exact (hshape.missions m (AbilityMgr.mem_all_of_stack hm)).nonempty
  · refine List.Nodup.map_on (fun m hm m' hm' he => ?_) (List.Nodup.of_map _ (hshape.stack_ids st))
    obtain ⟨name, hname⟩ := Option.isSome_iff_exists.mp (hsettled.named st m hm)
    exact hshape.names st m hm m' hm' name hname (he ▸ hname)
  · have hhome := (hshape.missions m (AbilityMgr.mem_all_of_stack hm)).home
    rw [hshape.listed st m hm, AbilityMgr.targetStack_launcher.mpr hl] at hhome
    exact hhome.symm
  · obtain ⟨r, hr, -, -, hname⟩ := (hshape.missions m (AbilityMgr.mem_all_of_stack hm)).placed t ht
    exact ⟨r, hr, hname⟩
  · obtain ⟨st, m, hm, htm, hid⟩ := hsettled.live hshape hr
    have hall := AbilityMgr.mem_all_of_stack hm
    refine ⟨st, m, hm, hid, List.count_eq_one_of_mem (hshape.missions m hall).nodup htm,
      fun st' m' hm' htm' => ?_⟩
    have hmm : m' = m := hshape.one_mission (AbilityMgr.mem_all_of_stack hm') hall htm' htm
    subst hmm
    exact ⟨(hshape.listed st' m' hm').symm.trans (hshape.listed st m' hm), rfl⟩

theorem keeps_init : Keeps gen {} := by
  refine ⟨⟨System.shape_init, System.known_init⟩, fun st m hm => ?_, fun st m hm => ?_, rfl,
    fun t ht => ?_, rfl, ⟨rfl, fun t r hr => ?_⟩⟩
  · cases st <;> cases hm
  · cases st <;> cases hm
  · cases ht
  · cases hr

/-- What a valid call does to a context and returns, where the context with pages alone is as the
calls keep it. -/
theorem Keeps.of_run {page : Option Token} (h : Keeps gen s.asPages) (hvalid : call.Valid s)
    (hrun : call.run gen env s = .ok (page, s')) :
    Keeps gen s'.asPages ∧ ∀ t, page = some t → s'.getTopPageAbility = some t := by
  have hrun' : call.asPages.run gen env s.asPages = .ok (page, s'.asPages) := by
    rw [run_asPages (s := s) h.settled.noServices, hrun]
    rfl
  obtain ⟨hkeeps, htop⟩ := h.run (valid_asPages hvalid) hrun'
  rw [getTopPageAbility_asPages] at htop
  exact ⟨hkeeps, htop⟩

/-- From the empty context, every sequence of calls keeps the shape of the mission stacks, none runs into
a deleted object, and the page that `GeneratePageAbility` returns is the one on top. -/
theorem stacks_keep_shape
    (h : Reached (next gen) (fun s call => call.2.Valid s) (fun s => s = {}) s) :
    StacksShape s ∧ ∀ env (call : StackCall), call.Valid s →
      ∃ page s', call.run gen env s = .ok (page, s') ∧ ∀ t, page = some t → s'.getTopPageAbility = some t := by
  have hinit : ∀ s : AbilityMgr, s = {} → Keeps gen s.asPages := by
    intro s hs
    rw [hs]
    exact keeps_init
  have hstep : ∀ (s : AbilityMgr) (call : Env × StackCall) (s' : AbilityMgr), Keeps gen s.asPages →
      call.2.Valid s → next gen s call = some s' → Keeps gen s'.asPages := by
    intro s call s' hs hvalid hnext
    unfold next at hnext
    split at hnext
    · next page s₁ hrun =>
      cases hnext
      exact (hs.of_run hvalid hrun).1
    · cases hnext
  have hkeeps : Keeps gen s.asPages := Reached.invariant hinit hstep h
  refine ⟨hkeeps.stacksShape.of_asPages, fun env call hvalid => ?_⟩
  obtain ⟨page, s₁, hrun⟩ := hkeeps.run_isSome env (valid_asPages hvalid)
  rw [run_asPages (s := s) hkeeps.settled.noServices] at hrun
  cases hcall : call.run gen env s with
  | error f =>
    rw [hcall] at hrun
    cases hrun
  | ok result => exact ⟨result.1, result.2, rfl, (hkeeps.of_run hvalid hcall).2⟩

/-- The page of a bundle with a name, opened from what is on top. -/
def openPage (bundle name : CString) (topAbility : Option Token) : Env × StackCall :=
  (System.pageEnv, .generatePageAbility { System.pageInfo (some bundle) with name := some name }
    { element := some { bundleName := some bundle, abilityName := some name } } topAbility)

/-- Two applications, the second opened from the first and with two pages. -/
def twoBundles : List (Env × StackCall) :=
  [openPage (cstr "a") (cstr "a") none, openPage (cstr "b") (cstr "b") (some 0),
    openPage (cstr "b") (cstr "c") (some 1)]

/-- The first page of the second application goes, with the one above it and the mission; the first
application is on top again. -/
theorem stacks_keep_shape_first :
    ∃ s s', AbilityLite.run (next System.counter) {} twoBundles = some s ∧
      next System.counter s (System.pageEnv, .removePageAbility 1) = some s' ∧
      StacksShape s ∧ StacksShape s' ∧
      s.defaultMissionStacks.map (fun m => (m.pageAbilityRecords, m.prevMissionRecord)) =
        [([0], none), ([1, 2], some 0)] ∧
      s.getTopPageAbility = some 2 ∧ s'.getTopPageAbility = some 0 := by
  have h : (runIf (next System.counter) (fun s call => decide (call.2.Valid s)) {} twoBundles).bind (fun s =>
      (next System.counter s (System.pageEnv, .removePageAbility 1)).map fun s' =>
        ((s.records 1).isSome,
          decide (s.defaultMissionStacks.map (fun m => (m.pageAbilityRecords, m.prevMissionRecord)) =
            [([0], none), ([1, 2], some 0)]),
          decide (s.getTopPageAbility = some 2), decide (s'.getTopPageAbility = some 0))) =
      some (true, true, true, true) := by decide
  obtain ⟨s, hs, h⟩ := Option.bind_eq_some_iff.mp h
  obtain ⟨s', hs', h⟩ := Option.map_eq_some_iff.mp h
  simp only [Prod.mk.injEq, decide_eq_true_eq] at h
  obtain ⟨hpage, hmissions, htop, htop'⟩ := h
  have hreached : Reached (next System.counter) (fun s call => call.2.Valid s) (fun s => s = {}) s :=
    Reached.of_runIf (.init rfl) (fun call _ s hvalid => of_decide_eq_true hvalid) hs
  exact ⟨s, s', run_of_runIf _ hs, hs', (stacks_keep_shape hreached).1,
    (stacks_keep_shape (hreached.step (e := (System.pageEnv, .removePageAbility 1)) hpage hs')).1, hmissions, htop, htop'⟩

end StackCall
end AbilityLite.Ams
