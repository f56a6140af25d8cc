import AbilityLite.Ams.PageWants
import AbilityLite.Ams.Stopping

/-
  The links of a hand-over: the page that waits until this one gives way, and the page
  that gave way to this one.

  A link is set when a page is brought up over another and when a page goes back, and is
  used one or more replies later. Nothing clears it when the page it refers to is
  deleted. `noneDangles_of_reached` says which steps have to be left out for it never to
  dangle: a page goes while another refers to it, or a page is handed over to that its stack
  or its mission has not taken.
-/

namespace AbilityLite.Ams
open AbilityMsStatus Fallible Relation

namespace AbilityMgr
variable {gen : TokenGenerate} {env : Env} {s s' : AbilityMgr} {t p u : Token} {a id : Nat}
  {st : StackType} {status : AbilityMsStatus} {m : AbilityMissionRecord} {r : PageAbilityRecord}
  {name : CString}

/-! ## Links that are not set -/

/-- No page refers to one it did not refer to before. -/
def Ties (s s' : AbilityMgr) : Prop :=
  ∀ t r' u, s'.records t = some r' → r'.LinksTo u → ∃ r, s.records t = some r ∧ r.LinksTo u

namespace Ties

theorem of_records (h : s'.records = s.records) : Ties s s' := by
  intro t r' u hr' hlink
  rw [h] at hr'
  exact ⟨r', hr', hlink⟩

theorem trans {s s' s'' : AbilityMgr} (h : Ties s s') (h' : Ties s' s'') : Ties s s'' := by
  intro t r'' u hr'' hlink
  obtain ⟨r', hr', hlink'⟩ := h' t r'' u hr'' hlink
  exact h t r' u hr' hlink'

theorem edit {f : PageAbilityRecord → PageAbilityRecord} (hf : ∀ r u, (f r).LinksTo u → r.LinksTo u) :
    Ties s (s.modify p f) := by
  intro t r' u hr' hlink
  obtain ⟨r, hr, ⟨-, rfl⟩ | ⟨-, rfl⟩⟩ := Store.modify_cases hr'
  · exact ⟨r, hr, hf r u hlink⟩
  · exact ⟨r', hr, hlink⟩

theorem mild {f : PageAbilityRecord → PageAbilityRecord} (hf : ∀ r, Mild r (f r)) :
    Ties s (s.modify p f) :=
  .edit fun r _ => .of_same (hf r).nextPageAbility (hf r).prevPageAbility

theorem send (m : Transaction) : Ties s (s.send a m) := by
  cases m with
  | lifecycle state want type =>
    have hedit : Ties s (s.modify state.token (·.transact)) := .edit fun _ _ => .of_same rfl rfl
    exact hedit
  | _ => exact .of_records rfl

theorem create {info : AbilityInfo} {want : Want} {f : PageAbilityRecord → PageAbilityRecord}
    (hf : ∀ r u, (f r).LinksTo u → r.LinksTo u) :
    Ties s ((s.newPageAbility gen info want).2.modify (gen.generate s.generated) f) := by
  refine trans (fun t r' u hr' hlink => ?_) (.edit hf)
  rcases Store.insert_cases hr' with ⟨-, rfl⟩ | ⟨-, hr⟩
  · rcases hlink with hlink | hlink <;> cases hlink
  · exact ⟨r', hr, hlink⟩

theorem delete (h : s.delete p = .ok s') : Ties s s' := by
  have herase : s'.records = s.records.erase p := by
    obtain ⟨r, -, ⟨-, rfl⟩ | ⟨a, app, -, -, rfl⟩⟩ := delete_cases h <;> rfl
  intro t r' u hr' hlink
  rw [herase] at hr'
  exact ⟨r', (Store.erase_cases hr').2, hlink⟩

/-- What links no page to another leaves the links as they are, or clears them. -/
theorem frame : Frame gen Ties where
  refl s := .of_records rfl
  trans := trans
  same _ hrecords _ _ _ := .of_records hrecords
  edit _ _ hf := .edit hf
  send _ _ := .send _
  create _ hf := .create hf
  push := by
    intro s p
    unfold pushServiceRecord
    split <;> exact .of_records rfl
  delete h := .delete h

theorem calm (h : ReflTransGen (Calm gen env) s s') : Ties s s' := by
  induction h with
  | refl => exact .of_records rfl
  | tail _ hstep ih =>
    refine ih.trans ?_
    cases hstep with
    | edit t f hf => exact .mild hf
    | ask t r a m => exact .send m
    | tell a m => exact .send m
    | _ => exact .of_records rfl

theorem quiet (h : ReflTransGen (Quiet gen env) s s') : Ties s s' := by
  induction h with
  | refl => exact .of_records rfl
  | tail _ hstep ih =>
    refine ih.trans ?_
    cases hstep with
    | calm hcalm => exact calm (.single hcalm)
    | create info want =>
      intro t r' u hr' hlink
      rcases Store.insert_cases hr' with ⟨-, rfl⟩ | ⟨-, hr⟩
      · rcases hlink with hlink | hlink <;> cases hlink
      · exact ⟨r', hr, hlink⟩
    | place t id => exact .edit fun _ _ => .of_same rfl rfl
    | reach t r hr hservice st => exact .edit fun _ _ => .of_same rfl rfl
    | accept t r => exact .edit fun _ _ => .of_same rfl rfl
    | delete _ t hd => exact .delete hd
    | shelve hl => exact .of_records hl.records

theorem activeAbility (h : s.activeAbility env t = .ok (status, s')) : Ties s s' := by
  have hfree (x : AbilityMgr) : Ties x (x.modify t (·.freeSid)) := .edit fun _ _ => .of_same rfl rfl
  obtain ⟨r, -, ⟨-, -, rfl⟩ | ⟨-, -, rfl | rfl⟩ | ⟨-, -, s₁, ⟨_, _, -, -, -, rfl⟩, rfl⟩⟩ :=
    activeAbility_cases h
  · exact .of_records rfl
  · exact .of_records rfl
  · exact hfree _
  · exact trans (.send _) (hfree _)

theorem startAbility (h : s.startAbility gen env t = .ok (status, s')) : Ties s s' := by
  have hframe : Frame gen Ties := frame
  exact hframe.startAbility (fun _ _ => activeAbility) h

end Ties

/-! ## Links that do not dangle -/

/-- Every link refers to a page that is on one of the two stacks. -/
def NoneDangles (s : AbilityMgr) : Prop :=
  ∀ t r u, s.records t = some r → r.LinksTo u → s.OnStack u

/-- No page that stays refers to one that goes. -/
def Unreferred (s : AbilityMgr) (gone : List Token) : Prop :=
  ∀ t r u, s.records t = some r → t ∉ gone → r.LinksTo u → u ∉ gone

theorem Unreferred.ties {gone : List Token} (h : s.Unreferred gone) (hties : Ties s s') :
    s'.Unreferred gone := by
  intro t r' u hr' ht hlink
  obtain ⟨r, hr, hlink⟩ := hties t r' u hr' hlink
  exact h t r u hr ht hlink

/-- The pages of the other bundles stay on the stacks. -/
theorem clearAbilityStack_onStack (h : s.Shape) (hs : s.clearAbilityStack env name = .ok s')
    (hp : s.OnStack p) (hother : p ∉ s.pagesOf name) : s'.OnStack p := by
  obtain ⟨s₁, s₂, h₁, h₂, hs⟩ := clearAbilityStack_cases hs
  obtain ⟨hapart, -, -⟩ := removeServiceRecords_apart h₁
  have hshape₁ := h.removeServiceRecords h₁
  have hshape₂ := hshape₁.returnFrom h₂
  obtain ⟨hmem, -, -, -⟩ := returnFrom_keeps hshape₁ h₂
  have hstack (st : StackType) (m : AbilityMissionRecord) : m ∈ s₂.stack st ↔ m ∈ s.stack st := by
    rw [hmem, hapart.stack]
  have hp₂ : s₂.OnStack p := by
    obtain ⟨st, m, hm, hpm⟩ := hp
    exact ⟨st, m, (hstack st m).mpr hm, hpm⟩
  obtain ⟨-, rfl⟩ | ⟨m, hm, htarget, -, hgone, -⟩ := removeMissionRecordByName_cases hshape₂ hs
  · exact hp₂
  · refine hgone.toSameLists.onStack.mpr ((onStack_dropMission hshape₂ hm).mpr ⟨hp₂, fun hpm => hother ?_⟩)
    obtain ⟨hmem₂, hname⟩ := hshape₂.getTargetMissionRecord_eq_some.mp htarget
    unfold pagesOf
    rw [h.getTargetMissionRecord_eq_some.mpr ⟨(hstack _ m).mp hmem₂, hname⟩]
    exact hpm

namespace NoneDangles

theorem mono (h : s.NoneDangles) (hties : Ties s s') (hpages : ∀ p, s.OnStack p → s'.OnStack p) :
    s'.NoneDangles := by
  intro t r' u hr' hlink
  obtain ⟨r, hr, hlink⟩ := hties t r' u hr' hlink
  exact hpages u (h t r u hr hlink)

theorem kept (h : s.NoneDangles) (hties : Ties s s') (hk : Kept s s') : s'.NoneDangles :=
  h.mono hties fun _ hp => hk.toSameLists.onStack.mpr hp

/-- A page may refer to another that is on a stack. -/
theorem link (h : s.NoneDangles) (hu : s.OnStack u) {f : PageAbilityRecord → PageAbilityRecord}
    (hf : ∀ r v, (f r).LinksTo v → r.LinksTo v ∨ v = u) : (s.modify p f).NoneDangles := by
  have hlists : SameLists s (s.modify p f) := ⟨rfl, rfl, rfl, rfl, rfl, rfl⟩
  intro t r' v hr' hlink
  refine hlists.onStack.mpr ?_
  obtain ⟨r, hr, ⟨-, rfl⟩ | ⟨-, rfl⟩⟩ := Store.modify_cases hr'
  · rcases hf r v hlink with hlink | rfl
    · exact h t r v hr hlink
    · exact hu
  · exact h t r' v hr hlink

theorem next (h : s.NoneDangles) (hu : s.OnStack u) :
    (s.modify p (·.setNextPageAbility (some u))).NoneDangles := by
  refine h.link hu fun r v hlink => ?_
  rcases hlink with hnext | hprev
  · exact .inr (Option.some.inj hnext).symm
  · exact .inl (.inr hprev)

theorem prev (h : s.NoneDangles) (hu : s.OnStack u) :
    (s.modify p (·.setPrevPageAbility (some u))).NoneDangles := by
  refine h.link hu fun r v hlink => ?_
  rcases hlink with hnext | hprev
  · exact .inl (.inl hnext)
  · exact .inr (Option.some.inj hprev).symm

/-- Pages may go that no other page refers to. -/
theorem remove {gone : List Token} (h : s.NoneDangles) (hfree : s.Unreferred gone) (hties : Ties s s')
    (hgone : ∀ t ∈ gone, s'.records t = none) (hpages : ∀ p, s.OnStack p → p ∉ gone → s'.OnStack p) :
    s'.NoneDangles := by
  intro t r' u hr' hlink
  have ht : t ∉ gone := by
    intro ht
    rw [hgone t ht] at hr'
    cases hr'
  obtain ⟨r, hr, hlink⟩ := hties t r' u hr' hlink
  exact hpages u (h t r u hr hlink) (hfree t r u hr ht hlink)

theorem removePageAbility (h : s.NoneDangles) (hs : Sound gen s)
    (hfree : ∀ m ∈ s.allMissions, ∀ r, s.records t = some r → r.missionRecord = some m.id →
      s.Unreferred (pagesFrom m t))
    (hremove : s.removePageAbility t = .ok s') : s'.NoneDangles := by
  have hframe : Frame gen Ties := Ties.frame
  obtain ⟨r, hr, ⟨-, rfl⟩ | ⟨m, hm, hid, -⟩⟩ := removePageAbility_cases hs.shape hremove
  · exact h
  · obtain ⟨hpages, -, -, hgone⟩ := removePageAbility_pages hs.shape hm hr hid hremove
    exact h.remove (hfree m hm r hr hid) (hframe.removePageAbility hremove) hgone
      fun p hp hnot => (hpages p).mpr ⟨hp, hnot⟩

theorem removeServiceRecord (h : s.NoneDangles) (hremove : s.removeServiceRecord t = .ok s') :
    s'.NoneDangles := by
  rcases removeServiceRecord_cases hremove with ⟨-, hdelete⟩ | ⟨-, rfl⟩
  · have hlist : Ties s { s with serviceRecords := s.serviceRecords.filter (· ≠ t) } := .of_records rfl
    refine h.mono (hlist.trans (.delete hdelete)) fun p hp => ?_
    exact (delete_gone hdelete).toSameLists.onStack.mpr hp
  · exact h

theorem clearAbilityStack (h : s.NoneDangles) (hs : Sound gen s) (hfree : s.Unreferred (s.pagesOf name))
    (hclear : s.clearAbilityStack env name = .ok s') : s'.NoneDangles := by
  have hquiet : ReflTransGen (Quiet gen env) s s' := (clearAbilityStack_shape hs.shape hclear).2
  refine h.remove hfree (.quiet hquiet) ?_ fun p => clearAbilityStack_onStack hs.shape hclear
  obtain ⟨_, _, _, _, _, _, ⟨hempty, -⟩ | ⟨_, _, _, _, _, hgone, -⟩⟩ :=
    clearAbilityStack_split hs.shape hclear
  · rw [hempty]
    exact fun t ht => (by cases ht)
  · exact hgone

end NoneDangles

/-! ## The page that is brought up -/

section
variable {target : AbilityInfo} {want : Want} {bundleInfo : BundleInfo} {s₁ : AbilityMgr}

/-- There is room for a new page of the bundle: on its mission, or for its mission on the stack. -/
def HasRoom (s : AbilityMgr) (target : AbilityInfo) : Prop :=
  match s.getTargetMissionRecord (targetStack target.bundleName) target.bundleName with
  | none => (s.stack (targetStack target.bundleName)).length < missionRecordListCapacity
  | some m => m.pageAbilityRecords.length < AbilityMissionRecord.pageAbilityRecordsListCapacity

theorem hasRoom_of_none
    (hnone : s.getTargetMissionRecord (targetStack target.bundleName) target.bundleName = none)
    (hlength : (s.stack (targetStack target.bundleName)).length < missionRecordListCapacity) :
    s.HasRoom target := by
  unfold HasRoom
  rw [hnone]
  exact hlength

/-- The other records stay as they are when a page is brought up. -/
theorem Finds.others {top : Option PageAbilityRecord} {page : Option Token}
    (h : Finds gen target want top st s page id s') :
    (∀ q, q ≠ gen.generate s.generated → s'.records q = s.records q) ∧ s'.appRecords = s.appRecords := by
  have hplace (id : Nat) (q : Token) (hq : q ≠ gen.generate s.generated) :
      ((s.newPageAbility gen target want).2.modify (gen.generate s.generated)
        (·.setMissionRecord id)).records q = s.records q :=
    (Store.modify_ne _ _ hq).trans (Store.insert_ne _ _ hq)
  cases h with
  | mission _ hnew =>
    obtain ⟨rfl, rfl, _, rfl, rfl⟩ := newMission_cases hnew
    refine ⟨fun q hq => (congrFun records_pushTop q).trans (hplace _ q hq), ?_⟩
    unfold AbilityMgr.pushTopMissionRecord
    dsimp only
    split
    · rfl
    · exact (onlyLists_setStack _).appRecords
  | page _ _ hmove =>
    obtain ⟨l, -, rfl⟩ := moveMissionRecordToTop_cases hmove
    exact ⟨fun q _ => congrFun (onlyLists_setStack l).records q, (onlyLists_setStack l).appRecords⟩
  | newPage _ _ hnew hmove =>
    obtain ⟨rfl, _, rfl, rfl⟩ := newPage_cases hnew
    obtain ⟨l, -, rfl⟩ := moveMissionRecordToTop_cases hmove
    exact ⟨fun q hq => (congrFun (onlyLists_setStack l).records q).trans (hplace _ q hq),
      (onlyLists_setStack l).appRecords⟩

theorem generatePageAbility_others {topAbility page : Option Token}
    (h : s.generatePageAbility gen target want topAbility = .ok (page, s')) :
    (∀ q, q ≠ gen.generate s.generated → s'.records q = s.records q) ∧ s'.appRecords = s.appRecords := by
  obtain ⟨-, -, rfl⟩ | ⟨-, id, s₁, s₂, hf, hlink, rfl⟩ := generatePageAbility_cases h
  · exact ⟨fun _ _ => rfl, rfl⟩
  · rcases hlink with ⟨rfl, -⟩ | ⟨m, -, -, -, rfl⟩
    · exact hf.others
    · exact hf.others

/-- The page that is brought up is on a stack, if there is room where it is new. -/
theorem Finds.placed {top : Option PageAbilityRecord} (h : s.Shape) (hroom : s.HasRoom target)
    (hf : Finds gen target want top (targetStack target.bundleName) s (some t) id s') : s'.OnStack t := by
  unfold HasRoom at hroom
  generalize hpage : some t = page at hf
  cases hf with
  | mission hnone hnew =>
    obtain ⟨rfl, rfl, _, rfl, rfl⟩ := newMission_cases hnew
    cases hpage
    rw [hnone] at hroom
    exact onStack_pushTop_new hroom (List.mem_singleton_self _)
  | page hm _ hmove =>
    refine (onStack_moveToTop (h.stack_ids _) hmove).mpr ?_
    exact ⟨_, _, (getTargetMissionRecord_mem hm).1, List.mem_of_getLast? hpage.symm⟩
  | @newPage m _ _ _ hm _ hnew hmove =>
    obtain ⟨rfl, _, rfl, rfl⟩ := newPage_cases hnew
    cases hpage
    rw [hm] at hroom
    refine (onStack_moveToTop ?_ hmove).mpr ⟨targetStack target.bundleName,
      m.pushPageAbility (gen.generate s.generated), ?_, ?_⟩
    · rw [stack_modifyMission, updateMission_ids (stays_pushPageAbility _)]
      exact h.stack_ids _
    · rw [stack_modifyMission]
      refine List.mem_map.mpr ⟨m, (getTargetMissionRecord_mem hm).1, if_pos rfl⟩
    · unfold AbilityMissionRecord.pushPageAbility
      rw [if_neg (Nat.not_le_of_lt hroom)]
      exact List.mem_append_right _ (List.mem_singleton_self _)

theorem generatePageAbility_placed (hs : Sound gen s)
    (hroom : s.broughtAgain target want = none → s.HasRoom target)
    (h : s.generatePageAbility gen target want s.getTopPageAbility = .ok (some t, s')) : s'.OnStack t := by
  rcases generatePageAbility_page h with ⟨hnew, -, -⟩ | ⟨-, -, hp⟩
  · obtain ⟨-, hno, -⟩ | ⟨-, id, s₁, s₂, hf, hlink, rfl⟩ := generatePageAbility_cases h
    · cases hno
    · have hp := hf.placed hs.shape (hroom hnew)
      refine (onStack_setTop _).mpr ?_
      rcases hlink with ⟨rfl, -⟩ | ⟨m, -, -, -, rfl⟩
      · exact hp
      · exact onStack_modifyMission (fun _ ht => ht) hp
  · exact generatePageAbility_onStack hs.shape h hp

/-- The page that is brought up is the last of its mission. -/
theorem Finds.last {top : Option PageAbilityRecord} {st : StackType} (hs : Sound gen s)
    (hf : Finds gen target want top st s (some t) id s') (hm : m ∈ s'.allMissions)
    (ht : t ∈ m.pageAbilityRecords) : m.getTopPageAbility = some t := by
  have hnew {m : AbilityMissionRecord} (hm : m ∈ s.allMissions) :
      gen.generate s.generated ∉ m.pageAbilityRecords := fun ht =>
    hs.shape.fresh hs.known.fresh (.inl ⟨m, hm, ht⟩)
  generalize hpage : some t = page at hf
  cases hf with
  | mission _ hmission =>
    obtain ⟨rfl, rfl, _, rfl, rfl⟩ := newMission_cases hmission
    cases hpage
    rcases mem_pushTop hm with rfl | hm
    · rfl
    · exact absurd ht (hnew hm)
  | @page m₀ _ hm₀ _ hmove =>
    have hall := mem_all_of_stack (getTargetMissionRecord_mem hm₀).1
    have hmem := (mem_moveToTop (hs.shape.stack_ids _) hmove).mp hm
    rw [hs.shape.one_mission hmem hall ht (List.mem_of_getLast? hpage.symm)]
  | @newPage m₀ _ _ _ hm₀ _ hplace hmove =>
    obtain ⟨rfl, _, rfl, rfl⟩ := newPage_cases hplace
    cases hpage
    rw [mem_moveToTop ?_ hmove, allMissions_modifyMission] at hm
    · obtain ⟨m₁, hm₁, ⟨-, rfl⟩ | ⟨-, rfl⟩⟩ := mem_updateMission hm
      · have hpushed : m₁.pageAbilityRecords.length < AbilityMissionRecord.pageAbilityRecordsListCapacity := by
          refine Nat.lt_of_not_le fun hfull => hnew hm₁ ?_
          unfold AbilityMissionRecord.pushPageAbility at ht
          rw [if_pos hfull] at ht
          exact ht
        unfold AbilityMissionRecord.pushPageAbility
        rw [if_neg (Nat.not_le_of_lt hpushed)]
        exact List.getLast?_concat
      · exact absurd ht (hnew hm₁)
    · rw [stack_modifyMission, updateMission_ids (stays_pushPageAbility _)]
      exact hs.shape.stack_ids _

theorem generatePageAbility_last {topAbility : Option Token} (hs : Sound gen s)
    (h : s.generatePageAbility gen target want topAbility = .ok (some t, s')) (hm : m ∈ s'.allMissions)
    (ht : t ∈ m.pageAbilityRecords) : m.getTopPageAbility = some t := by
  obtain ⟨-, hno, -⟩ | ⟨-, id, s₁, s₂, hf, hlink, rfl⟩ := generatePageAbility_cases h
  · cases hno
  · rcases hlink with ⟨rfl, -⟩ | ⟨m', -, -, -, rfl⟩
    · exact hf.last hs hm ht
    · have hm' : m ∈ (s₁.link id m').allMissions := hm
      unfold AbilityMgr.link at hm'
      rw [allMissions_modifyMission] at hm'
      obtain ⟨m₁, hm₁, ⟨-, rfl⟩ | ⟨-, rfl⟩⟩ := mem_updateMission hm'
      · have hlast : m₁.getTopPageAbility = some t := hf.last hs hm₁ ht
        exact hlast
      · exact hf.last hs hm₁ ht

/-- Nothing is above the last page of a mission. -/
theorem pagesFrom_last (hnodup : m.pageAbilityRecords.Nodup)
    (hlast : t ∈ m.pageAbilityRecords → m.getTopPageAbility = some t) (hu : u ∈ pagesFrom m t) : u = t := by
  unfold pagesFrom at hu
  by_cases ht : t ∈ m.pageAbilityRecords
  · obtain ⟨below, hbelow⟩ := List.getLast?_eq_some_iff.mp (hlast ht)
    rw [hbelow] at hnodup hu
    rw [splitAt_push fun hmem => (List.nodup_append.mp hnodup).2.2 t hmem t (List.mem_singleton_self t) rfl] at hu
    exact List.mem_singleton.mp hu
  · rw [splitAt_fresh ht] at hu
    cases hu

/-! ## Starting a page -/

/-- The page gives way when it is asked to: it is active, and its process takes the transaction. -/
def GivesWay (s : AbilityMgr) (env : Env) (p : Token) : Prop :=
  ∃ r a, s.records p = some r ∧ r.currentState = .active ∧ r.appRecord = some a ∧
    env.serializes r.want = true ∧
    s.Reaches env a (.lifecycle ⟨p, .inactive⟩ r.want r.abilityInfo.abilityType)

/-- A page that is there already does not start: its process is not there and cannot be started, or
does not take the transaction. -/
def StartFails (s : AbilityMgr) (gen : TokenGenerate) (env : Env) (bundleInfo : BundleInfo)
    (t : Token) : Prop :=
  ∃ r, s.records t = some r ∧
    ((r.appRecord = none ∧ (s.startAppProcess gen env bundleInfo).1 = none) ∨
      ∃ a, r.appRecord = some a ∧ r.currentState ≠ .active ∧ ¬ (env.serializes r.want = true ∧
        s.Reaches env a (.lifecycle ⟨t, .active⟩ r.want r.abilityInfo.abilityType)))

/-- The start takes the page back that it brought up. -/
def TakesBack (s : AbilityMgr) (gen : TokenGenerate) (env : Env) (bundleInfo : BundleInfo)
    (t : Token) : Prop :=
  match s.getTopPageAbility with
  | some p => p ≠ t ∧ ¬ s.GivesWay env p
  | none => s.StartFails gen env bundleInfo t

/-- What a start of a page needs for the links: when the page on top gives way to a new page there is
room for it, and when a page that was there is taken back no other page refers to it. -/
structure StartKeeps (s : AbilityMgr) (gen : TokenGenerate) (env : Env) (want : Want)
    (target : AbilityInfo) (bundleInfo : BundleInfo) : Prop where
  room : ∀ p, s.getTopPageAbility = some p → s.GivesWay env p → s.broughtAgain target want = none →
    s.HasRoom target
  free : ∀ t, s.broughtAgain target want = some t → s.TakesBack gen env bundleInfo t → s.Unreferred [t]

theorem abilityTransaction_isOk {state : TransactionState} {w : Want} {type : AbilityType}
    (h : s.abilityTransaction env a state w type = .ok (status, s')) :
    status.isOk = true ↔ env.serializes w = true ∧ s.Reaches env a (.lifecycle state w type) := by
  constructor
  · intro hok
    simp only [abilityTransaction, transact, bind_eq_ok, appRecord_eq_ok] at h
    obtain ⟨app, happ, h⟩ := h
    split at h
    · cases h
      cases hok
    · next c hc =>
      split at h
      · next hserializes =>
        split at h
        · next hsends => exact ⟨hserializes, app, happ, by rw [hc]; rfl, hsends⟩
        · cases h
          cases hok
      · cases h
        cases hok
  · rintro ⟨hserializes, hreach⟩
    rw [Carries.abilityTransaction_sends hserializes hreach] at h
    cases h
    rfl

theorem inactiveAbility_isOk (hr : s.records p = some r) (hpage : r.isService = false)
    (h : s.inactiveAbility env p = .ok (status, s')) : status.isOk = true ↔ s.GivesWay env p := by
  simp only [inactiveAbility, bind_eq_ok, record_eq_ok] at h
  obtain ⟨r', hr', h⟩ := h
  rw [hr] at hr'
  cases hr'
  have hway : s.GivesWay env p ↔ r.currentState = .active ∧ ∃ a, r.appRecord = some a ∧
      env.serializes r.want = true ∧
      s.Reaches env a (.lifecycle ⟨p, .inactive⟩ r.want r.abilityInfo.abilityType) := by
    unfold GivesWay
    simp only [hr, Option.some.injEq]
    constructor
    · rintro ⟨_, a, rfl, hst, ha, htakes⟩
      exact ⟨hst, a, ha, htakes⟩
    · rintro ⟨hst, a, ha, htakes⟩
      exact ⟨r, a, rfl, hst, ha, htakes⟩
  rw [hway]
  split at h
  · next hrefused =>
    cases h
    exact iff_of_false (by intro h; cases h) fun hst => hrefused.1 hst.1
  · next hallowed =>
    have hst : r.currentState = .active :=
      Decidable.byContradiction fun hst => hallowed ⟨hst, of_decide_eq_false hpage⟩
    unfold transactState at h
    split at h
    · next hnone =>
      cases h
      refine iff_of_false (by intro h; cases h) ?_
      rintro ⟨-, a, ha, -⟩
      rw [hnone] at ha
      cases ha
    · next a ha =>
      rw [abilityTransaction_isOk h, ha]
      constructor
      · exact fun htakes => ⟨hst, a, rfl, htakes⟩
      · rintro ⟨-, a', ha', htakes⟩
        cases ha'
        exact htakes

theorem reaches_congr {x : Transaction} (happs : s'.appRecords = s.appRecords) :
    s'.Reaches env a x ↔ s.Reaches env a x := by
  unfold Reaches AbilityMgr.app
  rw [happs]

theorem givesWay_congr (hrecord : s'.records p = s.records p) (happs : s'.appRecords = s.appRecords) :
    s'.GivesWay env p ↔ s.GivesWay env p := by
  unfold GivesWay
  rw [hrecord]
  simp only [reaches_congr happs]

theorem startAppProcess_congr (happs : s'.appRecords = s.appRecords) (hgenerated : s'.generated = s.generated) :
    (s'.startAppProcess gen env bundleInfo).1 = (s.startAppProcess gen env bundleInfo).1 := by
  have hfind (name : Option CString) :
      s'.getAppRecordByBundleName name = s.getAppRecordByBundleName name := by
    cases name with
    | none => rfl
    | some name =>
      unfold getAppRecordByBundleName
      rw [happs]
  unfold AbilityMgr.startAppProcess
  rw [hfind, hgenerated]
  split
  · rfl
  · split
    · rfl
    · dsimp only
      split <;> rfl

/-- What makes a start fail was there before the page was brought up. -/
theorem startFails_of_undoes (hlists : OnlyLists s s₁) {s₂ : AbilityMgr}
    (h : (s₁.modify t (·.setBundleInfo bundleInfo)).startAbility gen env t = .ok (status, s₂))
    (hundo : undoes status) : s.StartFails gen env bundleInfo t := by
  simp only [startAbility, startWith, bind_eq_ok, record_eq_ok] at h
  obtain ⟨r', hr', h⟩ := h
  obtain ⟨r, hr, ⟨-, rfl⟩ | ⟨hne, -⟩⟩ := Store.modify_cases hr'
  · rw [hlists.records] at hr
    refine ⟨r, hr, ?_⟩
    have hcongr : ((s₁.modify t (·.setBundleInfo bundleInfo)).startAppProcess gen env bundleInfo).1 =
        (s.startAppProcess gen env bundleInfo).1 := startAppProcess_congr hlists.appRecords hlists.generated
    have hbundle : (r.setBundleInfo bundleInfo).bundleInfo = bundleInfo := rfl
    rw [hbundle] at h
    cases ha : r.appRecord with
    | none =>
      have ha' : (r.setBundleInfo bundleInfo).appRecord = none := ha
      rw [ha'] at h
      dsimp only at h
      split at h
      · next hstart =>
        rw [← hcongr, hstart]
        exact .inl ⟨rfl, rfl⟩
      · cases h
        rcases hundo with hundo | hundo <;> cases hundo
    | some a =>
      have ha' : (r.setBundleInfo bundleInfo).appRecord = some a := ha
      rw [ha'] at h
      simp only [bind_eq_ok] at h
      obtain ⟨⟨status₁, s₃⟩, h₁, h⟩ := h
      cases h
      simp only [activeAbility, bind_eq_ok, record_eq_ok] at h₁
      obtain ⟨r₁, hr₁, h₁⟩ := h₁
      rw [hr'] at hr₁
      cases hr₁
      refine .inr ⟨a, rfl, ?_⟩
      split at h₁
      · cases h₁
        rcases hundo with hundo | hundo <;> cases hundo
      · next hst =>
        refine ⟨hst, fun htakes => ?_⟩
        rw [ha'] at h₁
        simp only [bind_eq_ok] at h₁
        obtain ⟨⟨status₂, s₄⟩, h₂, h₁⟩ := h₁
        cases h₁
        refine not_undoes_of_ok ((abilityTransaction_isOk h₂).mpr ⟨htakes.1, ?_⟩) hundo
        exact (reaches_congr hlists.appRecords).mpr htakes.2
  · exact absurd rfl hne

/-- A page that is brought up is taken back without another page noticing. -/
theorem NoneDangles.takeBack (h : s.NoneDangles) (hs : Sound gen s) (hs₂ : Sound gen s')
    (hgen : s.generatePageAbility gen target want s.getTopPageAbility = .ok (some t, s₁))
    (hties : Ties s₁ s') (hkept : Kept s₁ s') (hfree : s.broughtAgain target want = some t → s.Unreferred [t])
    {s₂ : AbilityMgr} (hremove : s'.removePageAbility t = .ok s₂) : s₂.NoneDangles := by
  have hframe : Frame gen Ties := Ties.frame
  have hties' : Ties s s' := (hframe.generatePageAbility hgen).trans hties
  have h' : s'.NoneDangles := h.mono hties' fun p hp =>
    hkept.toSameLists.onStack.mpr (generatePageAbility_onStack hs.shape hgen hp)
  refine h'.removePageAbility hs₂ (fun m hm r hr hid q r' u hr' hq hlink hu => ?_) hremove
  -- The page is the last of its mission, so it goes alone.
  have honly : ∀ v ∈ pagesFrom m t, v = t := fun v =>
    pagesFrom_last (hs₂.shape.missions m hm).nodup fun ht =>
      generatePageAbility_last hs hgen (hkept.toSameLists.allMissions ▸ hm) ht
  have hut := honly u hu
  subst hut
  rcases generatePageAbility_page hgen with ⟨-, hnew, -⟩ | ⟨hagain, -, -⟩
  · obtain ⟨r₀, hr₀, hlink₀⟩ := hties' q r' u hr' hlink
    obtain ⟨st, m₀, hm₀, hu₀⟩ := h q r₀ u hr₀ hlink₀
    rw [hnew] at hu₀
    exact hs.shape.fresh hs.known.fresh (.inl ⟨m₀, mem_all_of_stack hm₀, hu₀⟩)
  · have hqu : q ∉ [u] := by
      rw [List.mem_singleton]
      exact fun he => hq (he ▸ hu)
    exact (hfree hagain).ties hties' q r' u hr' hqu hlink (List.mem_singleton_self u)

theorem NoneDangles.startPageTask (h : s.NoneDangles) (hs : Sound gen s)
    (hpage : target.abilityType ≠ .service) (hkeeps : s.StartKeeps gen env want target bundleInfo)
    (hstart : s.startPageTask gen env want target bundleInfo = .ok (status, s')) : s'.NoneDangles := by
  have hframe : Frame gen Ties := Ties.frame
  have hset (x : AbilityMgr) (t : Token) : Still gen env x (x.modify t (·.setBundleInfo bundleInfo)) :=
    .edit fun r => mild_setBundleInfo r _
  -- Bringing the page up sets no link and takes no page away.
  have hbrings {page : Option Token} {s₁ : AbilityMgr}
      (hgen : s.generatePageAbility gen target want s.getTopPageAbility = .ok (page, s₁)) :
      s₁.NoneDangles := h.mono (hframe.generatePageAbility hgen) fun p =>
    generatePageAbility_onStack hs.shape hgen
  have hsound {page : Option Token} {s₁ : AbilityMgr}
      (hgen : s.generatePageAbility gen target want s.getTopPageAbility = .ok (page, s₁)) :
      Sound gen s₁ :=
    have hgoes : Goes gen env s s₁ := hs.generatePageAbility hpage hgen
    hs.goes hgoes
  -- What the page on top answers does not depend on the page brought up.
  have hway {t p : Token} {s₁ s₂ : AbilityMgr} {status : AbilityMsStatus}
      (hgen : s.generatePageAbility gen target want s.getTopPageAbility = .ok (some t, s₁))
      (htop : s.getTopPageAbility = some p) (hne : p ≠ t)
      (h₂ : (s₁.modify t (·.setBundleInfo bundleInfo)).inactiveAbility env p = .ok (status, s₂)) :
      status.isOk = true ↔ s.GivesWay env p := by
    obtain ⟨st, m, hst, hlast, hm, hpl, hpm⟩ := getTopPageAbility_cases htop
    obtain ⟨r, hr, -, hp, -⟩ := (hs.shape.missions m (mem_all_of_stack hm)).placed p hpm
    have hold : p ≠ gen.generate s.generated := by
      rintro rfl
      rw [hs.known.fresh] at hr
      cases hr
    obtain ⟨hrecords, happs⟩ := generatePageAbility_others hgen
    have hrecord : (s₁.modify t (·.setBundleInfo bundleInfo)).records p = s.records p :=
      (Store.modify_ne _ _ hne).trans (hrecords p hold)
    rw [inactiveAbility_isOk (hrecord.trans hr) hp h₂]
    exact givesWay_congr hrecord happs
  cases startPageTask_cases hstart with
  | refused hgen _ => exact hbrings hgen
  | @givesWay t p s₁ s₂ _ hgen htop hne h₂ hok =>
    have hstill := (hset s₁ t).trans (Still.inactiveAbility h₂)
    have hties : Ties s₁ s₂ := Ties.trans (.mild fun r => mild_setBundleInfo r _) (hframe.inactiveAbility h₂)
    have hkept := hstill.kept.toSameLists
    have ht : s₂.OnStack t := hkept.onStack.mpr (generatePageAbility_placed hs
      (hkeeps.room p htop ((hway hgen htop hne h₂).mp hok)) hgen)
    have hp : s₂.OnStack p := by
      obtain ⟨st, m, -, -, hm, -, hpm⟩ := getTopPageAbility_cases htop
      exact hkept.onStack.mpr (generatePageAbility_onStack hs.shape hgen ⟨st, m, hm, hpm⟩)
    exact (((hbrings hgen).kept hties hstill.kept).next ht).prev hp
  | @stays t p s₁ s₂ _ _ hgen htop hne h₂ hfail hremove =>
    have hstill := (hset s₁ t).trans (Still.inactiveAbility h₂)
    have hties : Ties s₁ s₂ := Ties.trans (.mild fun r => mild_setBundleInfo r _) (hframe.inactiveAbility h₂)
    have hs₂ : Sound gen s₂ := (hsound hgen).goes ((hsound hgen).still hstill)
    refine h.takeBack hs hs₂ hgen hties hstill.kept (fun hagain => hkeeps.free t hagain ?_) hremove
    unfold TakesBack
    rw [htop]
    refine ⟨hne, fun hgives => ?_⟩
    rw [(hway hgen htop hne h₂).mpr hgives] at hfail
    cases hfail
  | @starts t s₁ s₂ _ hgen htop h₂ _ =>
    have hties : Ties s₁ s' := Ties.trans (.mild fun r => mild_setBundleInfo r _) (Ties.startAbility h₂)
    exact (hbrings hgen).kept hties ((hset s₁ t).trans (startAbility_still h₂)).kept
  | @fails t s₁ s₂ _ _ hgen htop h₂ hundo hremove =>
    have hstill := (hset s₁ t).trans (startAbility_still h₂)
    have hties : Ties s₁ s₂ := Ties.trans (.mild fun r => mild_setBundleInfo r _) (Ties.startAbility h₂)
    have hs₂ : Sound gen s₂ := (hsound hgen).goes ((hsound hgen).still hstill)
    refine h.takeBack hs hs₂ hgen hties hstill.kept (fun hagain => hkeeps.free t hagain ?_) hremove
    unfold TakesBack
    rw [htop]
    rcases generatePageAbility_page hgen with ⟨hnew, -, -⟩ | ⟨-, hlists, -⟩
    · rw [hagain] at hnew
      cases hnew
    · exact startFails_of_undoes hlists h₂ hundo

theorem NoneDangles.startTask {waitConnect : Bool} (h : s.NoneDangles) (hs : Sound gen s)
    (hkeeps : target.abilityType ≠ .service → s.StartKeeps gen env want target bundleInfo)
    (hstart : s.startTask gen env want target bundleInfo waitConnect = .ok (status, s')) :
    s'.NoneDangles := by
  unfold AbilityMgr.startTask at hstart
  split at hstart
  · next hservice =>
    have hframe : Frame gen Ties := Ties.frame
    have hnew : (s.newService gen want target bundleInfo waitConnect).NoneDangles :=
      h.mono hframe.newService fun p hp => by
        unfold AbilityMgr.newService AbilityMgr.pushServiceRecord
        split <;> exact hp
    obtain ⟨_, -, -, rfl⟩ | ⟨-, s₁, h₁, ⟨-, h₂⟩ | ⟨-, rfl⟩⟩ := startServiceTask_cases hstart
    · exact h
    · exact (hnew.kept (hframe.startService h₁) (startService_still h₁).kept).removeServiceRecord h₂
    · exact hnew.kept (hframe.startService h₁) (startService_still h₁).kept
  · next hpage => exact h.startPageTask hs hpage (hkeeps hpage) hstart

end

/-! ## The other tasks -/

namespace NoneDangles

theorem activateTask (h : s.NoneDangles) (_ : Sound gen s)
    (htask : s.activateTask env t = .ok (status, s')) : s'.NoneDangles := by
  have hframe : Frame gen Ties := Ties.frame
  have hstill : Still gen env s s' := activateTask_still htask
  exact h.kept (hframe.activateTask htask) hstill.kept

/-- A page that goes back is the next one of the page it goes back to. -/
theorem inactivateTask (h : s.NoneDangles) (hs : Sound gen s)
    (htask : s.inactivateTask gen env t = .ok (status, s')) : s'.NoneDangles := by
  have hframe : Frame gen Ties := Ties.frame
  have hkept := (inactivateTask_still htask).kept
  have hreach : Ties s (s.modify t (·.setCurrentState .inactive)) := hframe.reach
  have hreached : Kept s (s.modify t (·.setCurrentState .inactive)) := .modify fun _ => rfl
  cases inactivateTask_cases htask with
  | unknown => exact h
  | connect _ hr hservice _ h₁ =>
    have hconnect : ReflTransGen (Calm gen env) ((s.modify t (·.setCurrentState .inactive)).modify t
        (·.setConnectStatus .connecting)) s' :=
      connectAbility_calm (modify_self (modify_self hr)) hservice h₁
    exact h.kept (hreach.trans ((Ties.mild fun r => mild_setConnectStatus r _).trans (.calm hconnect))) hkept
  | service => exact h.kept hreach hkept
  | next _ _ _ _ h₁ => exact h.kept (hreach.trans ((Ties.startAbility h₁).trans hframe.next)) hkept
  | @back _ _ _ s₁ hl hr hpage _ _ h₁ =>
    have hactive : Still gen env (s.modify t (·.setCurrentState .inactive)) s₁ := .activeAbility h₁
    have hkept₁ := hreached.trans hactive.kept
    obtain ⟨st, m, hm, ht⟩ := hs.shape.listed_page hl hr hpage
    exact (h.kept (hreach.trans (Ties.activeAbility h₁)) hkept₁).next
      (hkept₁.toSameLists.onStack.mpr ⟨st, m, hm, ht⟩)
  | home _ _ _ _ _ h₁ => exact h.kept (hreach.trans (hframe.stopAbility h₁)) hkept

theorem backgroundTask (h : s.NoneDangles) (htask : s.backgroundTask t = .ok (status, s')) :
    s'.NoneDangles := by
  rcases backgroundTask_cases htask with ⟨-, rfl⟩ | ⟨-, -, rfl⟩
  · exact h
  · exact h.kept (.edit fun _ _ => .of_same rfl rfl) (.modify fun _ => rfl)

/-- A page that stops goes with the pages above it. -/
theorem stopTask (h : s.NoneDangles) (hs : Sound gen s)
    (hfree : ∀ st, ∀ m ∈ s.stack st, t ∈ m.pageAbilityRecords → s.Unreferred (pagesFrom m t))
    (htask : s.stopTask env t = .ok (status, s')) : s'.NoneDangles := by
  have hframe : Frame gen Ties := Ties.frame
  have hreach : Ties s (s.modify t (·.setCurrentState .initial)) := hframe.reach
  have hreached : Still gen env s (s.modify t (·.setCurrentState .initial)) := .reach _
  cases stopTask_cases htask with
  | unknown => exact h
  | stopped => exact h.kept hreach hreached.kept
  | service _ _ _ _ h₁ h₂ h₃ =>
    have hcalm : ReflTransGen (Calm gen env) (s.modify t (·.setCurrentState .initial)) _ :=
      stopAbilityDone_calm h₁
    have hexit : Still gen env _ _ := h₂.still
    exact ((h.kept hreach hreached.kept).kept ((Ties.calm hcalm).trans (hframe.exitsIf h₂))
      ((Kept.calm hcalm).trans hexit.kept)).removeServiceRecord h₃
  | @page r _ s₁ _ hl hr hpage _ h₁ hremove =>
    have hstill : Still gen env s s₁ := hreached.trans h₁.still
    have hties : Ties s s₁ := hreach.trans (hframe.exitsIf h₁)
    refine (h.kept hties hstill.kept).removePageAbility (hs.goes (hs.still hstill))
      (fun m hm r' hr' hid => Unreferred.ties ?_ hties) hremove
    obtain ⟨st, m', hm', ht⟩ := hs.shape.listed_page hl hr hpage
    have hall : m ∈ s.allMissions := hstill.kept.toSameLists.allMissions ▸ hm
    obtain ⟨r₀, hr₀, hid₀, -⟩ := (hs.shape.missions m' (mem_all_of_stack hm')).placed t ht
    obtain ⟨r₁, hr₁, hplace⟩ := hstill.kept.record hr₀
    rw [hr'] at hr₁
    cases hr₁
    have hsame : r'.missionRecord = r₀.missionRecord := congrArg Prod.fst hplace
    rw [hid, hid₀, Option.some.injEq] at hsame
    rw [Keyed.eq_of_key_eq hs.shape.ids hall (mem_all_of_stack hm') hsame]
    exact hfree st m' hm' ht

theorem terminateTask (h : s.NoneDangles) (_ : Sound gen s)
    (htask : s.terminateTask env t = .ok (status, s')) : s'.NoneDangles := by
  have hframe : Frame gen Ties := Ties.frame
  have hstill : Still gen env s s' := terminateTask_still htask
  obtain ⟨-, rfl⟩ | ⟨-, r, hr, ⟨hservice, h₁⟩ | ⟨-, h₁⟩⟩ := terminateTask_cases htask
  · exact h
  · have hcalm : ReflTransGen (Calm gen env) s s' := forceStopServiceAbility_calm hr hservice h₁
    exact h.kept (.calm hcalm) hstill.kept
  · exact h.kept (hframe.inactiveAbility h₁) hstill.kept

theorem clears (h : s.NoneDangles) (hs : Sound gen s) (hfree : s.Unreferred (s.pagesOf name))
    (hclears : Clears env name s s') : s'.NoneDangles := by
  have hframe : Frame gen Ties := Ties.frame
  obtain ⟨s₁, h₁, h₂⟩ := hclears
  have hremove : Still gen env s₁ (s₁.removeAppRecordByName (some name)) := removeAppRecordByName_still _
  have hresume : Still gen env (s₁.removeAppRecordByName (some name)) s' := h₂.still
  exact (h.clearAbilityStack hs hfree h₁).kept ((hframe.removeAppRecordByName _).trans
    (hframe.resumes (fun _ _ _ _ => Ties.activeAbility) h₂)) (hremove.trans hresume).kept

theorem appTerminateTask (h : s.NoneDangles) (hs : Sound gen s)
    (hfree : ¬ s.RefusesExit env name → s.Unreferred (s.pagesOf name))
    (htask : s.appTerminateTask env name = .ok (status, s')) : s'.NoneDangles := by
  cases appTerminateTask_cases htask with
  | refused => exact h
  | alone happ hclears =>
    refine h.clears hs (hfree ?_) hclears
    rintro ⟨app, happ', -⟩
    rw [happ] at happ'
    cases happ'
  | @exits app _ happ hreach hclears =>
    have hsend : Still gen env s (s.send app.identityId .appExit) := .tell rfl hreach
    refine (h.kept (.send _) hsend.kept).clears (hs.goes (hs.still hsend)) ?_ hclears
    refine Unreferred.ties ?_ (.send _)
    rw [Apart.pagesOf_eq (.send rfl)]
    refine hfree ?_
    rintro ⟨app', happ', hno⟩
    rw [happ] at happ'
    cases happ'
    exact hno hreach

theorem appRestartTask {bundleInfo : BundleInfo} (h : s.NoneDangles) (hs : Sound gen s)
    (hfree : ∀ name, bundleInfo.bundleName = some name → s.Unreferred (s.pagesOf name))
    (htask : s.appRestartTask env bundleInfo = .ok (status, s')) : s'.NoneDangles := by
  obtain ⟨-, -, rfl⟩ | ⟨name, hname, hclears⟩ := appRestartTask_cases htask
  · exact h
  · exact h.clears hs (hfree name hname) hclears

theorem attachTask {client : AbilityThreadClient} (h : s.NoneDangles) (_ : Sound gen s)
    (htask : s.attachTask env client = .ok (status, s')) : s'.NoneDangles := by
  have hframe : Frame gen Ties := Ties.frame
  have hstill : Still gen env s s' := attachTask_still htask
  exact h.kept (hframe.attachTask (fun _ _ _ _ _ => Ties.activeAbility) htask) hstill.kept

/-- The services have no links. -/
theorem calm (h : s.NoneDangles) (hcalm : ReflTransGen (Calm gen env) s s') : s'.NoneDangles :=
  h.kept (.calm hcalm) (.calm hcalm)

theorem terminateServiceTask {target : AbilityInfo} (h : s.NoneDangles) (hs : Sound gen s)
    (htask : s.terminateServiceTask env target = .ok (status, s')) : s'.NoneDangles := by
  unfold AbilityMgr.terminateServiceTask at htask
  split at htask
  · cases htask
    exact h
  · next t ht =>
    simp only [bind_eq_ok, record_eq_ok] at htask
    obtain ⟨r, hr, htask⟩ := htask
    split at htask
    · simp only [bind_eq_ok] at htask
      obtain ⟨s₁, h₁, htask⟩ := htask
      cases htask
      exact h.removeServiceRecord h₁
    · have hservice := hs.shape.allServices t (findServiceRecordByName_mem ht).1 r hr
      have hcalm : ReflTransGen (Calm gen env) s s' := forceStopServiceAbility_calm hr hservice htask
      exact h.calm hcalm

theorem notify (h : s.NoneDangles) {sid : SvcIdentity} {m : Callback} : (s.notify env sid m).NoneDangles := by
  unfold AbilityMgr.notify
  split
  · exact h
  · exact h

end NoneDangles

/-! ## The page a task acts on -/

theorem transact_error {x : Transaction} {want : Want} {noClient notSerialized notSent : AbilityMsStatus}
    {f : Fault} (h : s.transact env a x want noClient notSerialized notSent = .error f) :
    f = .appRecord := by
  simp only [transact, bind_eq_error, appRecord_eq_error] at h
  rcases h with ⟨-, rfl⟩ | ⟨app, -, h⟩
  · rfl
  split at h
  · cases h
  split at h
  · split at h <;> cases h
  · cases h

theorem transactState_error {state : State} {f : Fault} (h : s.transactState env t r state = .error f) :
    f = .appRecord := by
  unfold transactState at h
  split at h
  · cases h
  · exact transact_error h

/-- A page is made active, is stopped and goes to the background if it is there. -/
theorem activeAbility_error (h : s.activeAbility env t = .error .pageAbilityRecord) : s.records t = none := by
  simp only [activeAbility, bind_eq_error, record_eq_error, record_eq_ok] at h
  rcases h with ⟨hnone, -⟩ | ⟨r, -, h⟩
  · exact hnone
  split at h
  · cases h
  split at h
  · cases h
  · simp only [bind_eq_error] at h
    rcases h with h | ⟨_, -, h⟩
    · cases transact_error h
    · cases h

theorem toBackgroundAbility_error (h : s.toBackgroundAbility env t = .error .pageAbilityRecord) :
    s.records t = none := by
  simp only [toBackgroundAbility, bind_eq_error, record_eq_error, record_eq_ok] at h
  rcases h with ⟨hnone, -⟩ | ⟨r, -, h⟩
  · exact hnone
  split at h
  · cases h
  · cases transactState_error h

theorem stopAbility_error (h : s.stopAbility env t = .error .pageAbilityRecord) : s.records t = none := by
  simp only [stopAbility, bind_eq_error, record_eq_error, record_eq_ok] at h
  rcases h with ⟨hnone, -⟩ | ⟨r, -, h⟩
  · exact hnone
  split at h
  · cases h
  · cases transactState_error h

theorem connectAbility_error (h : s.connectAbility env t = .error .pageAbilityRecord) :
    s.records t = none := by
  simp only [AbilityMgr.connectAbility, bind_eq_error, record_eq_error, record_eq_ok] at h
  rcases h with ⟨hnone, -⟩ | ⟨r, -, h⟩
  · exact hnone
  split at h
  · cases h
  · cases transact_error h

theorem startAbility_error (h : s.startAbility gen env t = .error .pageAbilityRecord) :
    s.records t = none := by
  simp only [startAbility, startWith, bind_eq_error, record_eq_error, record_eq_ok] at h
  rcases h with ⟨hnone, -⟩ | ⟨r, -, h⟩
  · exact hnone
  split at h
  · split at h <;> cases h
  · simp only [bind_eq_error] at h
    rcases h with h | ⟨_, -, h⟩
    · exact activeAbility_error h
    · cases h

theorem mission_error {f : Fault} (h : s.mission id = .error f) : f = .missionRecord := by
  unfold mission at h
  split at h
  · cases h
  · cases h
    rfl

theorem getPrevPageAbility_error {f : Fault} (h : s.getPrevPageAbility r t = .error f) :
    f = .missionRecord := by
  unfold getPrevPageAbility at h
  dsimp only at h
  split at h
  · cases h
  simp only [bind_eq_error] at h
  rcases h with h | ⟨m, -, h⟩
  · exact mission_error h
  split at h
  · cases h
  split at h
  · simp only [bind_eq_error] at h
    rcases h with h | ⟨_, -, h⟩
    · exact mission_error h
    · cases h
  · cases h

theorem prevIn_mem {l : List Token} (h : AbilityMissionRecord.prevIn t l = some p) : p ∈ l := by
  fun_induction AbilityMissionRecord.prevIn t l with
  | case1 q l => cases h
  | case2 q l _ =>
    cases h
    exact List.mem_cons_self
  | case3 _ q l _ _ ih => exact List.mem_cons_of_mem _ (ih h)
  | case4 => cases h

/-- The page that is gone back to is a page of a mission. -/
theorem getPrevPageAbility_mem (h : s.getPrevPageAbility r t = .ok (some p)) :
    ∃ m ∈ s.allMissions, p ∈ m.pageAbilityRecords := by
  have hlauncher (htop : (s.getTopMissionRecord .launcher).bind (·.getTopPageAbility) = some p) :
      ∃ m ∈ s.allMissions, p ∈ m.pageAbilityRecords := by
    obtain ⟨m, hm, htop⟩ := Option.bind_eq_some_iff.mp htop
    exact ⟨m, mem_all_of_stack (List.mem_of_getLast? hm), List.mem_of_getLast? htop⟩
  unfold getPrevPageAbility at h
  dsimp only at h
  split at h
  · exact hlauncher (Except.ok.inj h)
  simp only [bind_eq_ok] at h
  obtain ⟨m, hm, h⟩ := h
  split at h
  · next q hq =>
    cases h
    exact ⟨m, (mission_eq_ok hm).1, prevIn_mem hq⟩
  split at h
  · simp only [bind_eq_ok] at h
    obtain ⟨m', hm', h⟩ := h
    exact ⟨m', (mission_eq_ok hm').1, List.mem_of_getLast? (Except.ok.inj h)⟩
  · exact hlauncher (Except.ok.inj h)

theorem records_modify_none {f : PageAbilityRecord → PageAbilityRecord}
    (h : (s.modify p f).records u = none) : s.records u = none :=
  (Store.modify_eq_none f).mp h

/-- What a task acts on and was deleted, the page of the task refers to. -/
theorem activateTask_error (hs : s.Shape) (h : s.activateTask env t = .error .pageAbilityRecord) :
    ∃ r u, s.records t = some r ∧ r.LinksTo u ∧ s.records u = none := by
  unfold AbilityMgr.activateTask at h
  split at h
  · cases h
  next p hp =>
  obtain ⟨rfl, hl⟩ := findPageAbility_eq_some.mp hp
  obtain ⟨r, hr⟩ := hs.live hl
  simp only [bind_eq_error, record_eq_error, record_eq_ok] at h
  rcases h with ⟨hnone, -⟩ | ⟨r', hr', h⟩
  · rw [hr] at hnone
    cases hnone
  rw [hr] at hr'
  cases hr'
  refine ⟨r, ?_⟩
  split at h
  · cases h
  split at h
  · next prev hprev =>
    simp only [bind_eq_error] at h
    rcases h with h | ⟨_, -, h⟩
    · exact ⟨prev, hr, .inr hprev, records_modify_none (toBackgroundAbility_error h)⟩
    · cases h
  split at h
  · next next hnext =>
    simp only [bind_eq_error] at h
    rcases h with h | ⟨_, -, h⟩
    · exact ⟨next, hr, .inl hnext, records_modify_none (stopAbility_error h)⟩
    · cases h
  · cases h

theorem inactivateTask_error (hs : s.Shape) (h : s.inactivateTask gen env t = .error .pageAbilityRecord) :
    ∃ r u, s.records t = some r ∧ r.LinksTo u ∧ s.records u = none := by
  unfold AbilityMgr.inactivateTask at h
  split at h
  · cases h
  next p hp =>
  obtain ⟨rfl, hl⟩ := findPageAbility_eq_some.mp hp
  obtain ⟨r, hr⟩ := hs.live hl
  have hthere : s.records p ≠ none := by
    rw [hr]
    exact Option.some_ne_none r
  simp only [bind_eq_error, record_eq_error, record_eq_ok] at h
  rcases h with ⟨hnone, -⟩ | ⟨r', hr', h⟩
  · exact absurd hnone hthere
  rw [hr] at hr'
  cases hr'
  refine ⟨r, ?_⟩
  split at h
  · split at h
    · exact absurd (records_modify_none (records_modify_none (connectAbility_error h))) hthere
    · cases h
  split at h
  · next next hnext =>
    simp only [bind_eq_error] at h
    rcases h with h | ⟨_, -, h⟩
    · exact ⟨next, hr, .inl hnext, records_modify_none (startAbility_error h)⟩
    · cases h
  simp only [bind_eq_error] at h
  rcases h with h | ⟨prev, hprev, h⟩
  · cases getPrevPageAbility_error h
  -- The page that is gone back to is there, and so is the page itself.
  split at h
  · next q =>
    simp only [bind_eq_error] at h
    rcases h with h | ⟨_, -, h⟩
    · obtain ⟨m, hm, hq⟩ := getPrevPageAbility_mem hprev
      obtain ⟨rq, hrq, -⟩ := (hs.missions m hm).placed q hq
      rw [records_modify_none (activeAbility_error h)] at hrq
      cases hrq
    · cases h
  · simp only [bind_eq_error] at h
    rcases h with h | ⟨_, -, h⟩
    · exact absurd (records_modify_none (stopAbility_error h)) hthere
    · cases h

/-! ## What a message starts and takes away -/

section
variable {want : Want} {uid : Int} {code : ErrCode}

/-- What `AbilityMgrHandler` starts as a page. -/
structure StartsAsPage (env : Env) (want : Want) (uid : Int) (target : AbilityInfo)
    (bundleInfo : BundleInfo) : Prop where
  bundle : ∃ e, want.element = some e ∧ env.queryBundleInfo e.bundleName = some bundleInfo
  found : env.queryAbilityInfo want = some target
  visible : checkVisiblePermission env uid bundleInfo.uid target.isVisible = true
  page : target.abilityType ≠ .service

/-- The page that a want starts keeps the links. -/
def WantKeeps (s : AbilityMgr) (gen : TokenGenerate) (env : Env) (want : Want) (uid : Int) : Prop :=
  ∀ target bundleInfo, StartsAsPage env want uid target bundleInfo →
    s.StartKeeps gen env want target bundleInfo

/-- The wants AMS starts while it handles a request, in the state it has come to. -/
inductive RequestStarts (gen : TokenGenerate) (env : Env) (s : AbilityMgr) :
    Event → AbilityMgr → Want → Int → Prop
  | start {want : Want} {uid : Int} : RequestStarts gen env s (.startAbility want uid) s want uid
  /-- A connect starts what is not there, whatever its type. -/
  | connect {want : Want} {sid : SvcIdentity} {token : Token} {uid : Int} {e : ElementName}
      (he : want.element = some e) (hnone : s.findServiceRecordByName e.bundleName e.abilityName = none) :
      RequestStarts gen env s (.connectAbility want sid token uid) s want uid
  /-- No application is left, and the launcher starts. -/
  | launcher {b : CString} {bundleInfo : BundleInfo} {status : AbilityMsStatus} {s₁ : AbilityMgr}
      (hb : env.queryBundleInfo (some b) = some bundleInfo)
      (hrestart : s.appRestartTask env bundleInfo = .ok (status, s₁))
      (hno : status.isNoActiveAbility = true) :
      RequestStarts gen env s (.restartApp b) s₁ launcherWant systemUid
  /-- The application is kept alive. -/
  | keepAlive {b : CString} {bundleInfo : BundleInfo} {status : AbilityMsStatus} {s₁ s₂ : AbilityMgr}
      {want : Want} (hb : env.queryBundleInfo (some b) = some bundleInfo)
      (hrestart : s.appRestartTask env bundleInfo = .ok (status, s₁))
      (hlauncher : (status.isNoActiveAbility = false ∧ s₂ = s₁) ∨
        (status.isNoActiveAbility = true ∧ s₁.startLauncher gen env = .ok s₂))
      (hkeep : isLauncherAbility bundleInfo.bundleName = false ∧ bundleInfo.isSystemApp = true ∧
        bundleInfo.isKeepAlive = true) (hwant : keepAliveWant bundleInfo = some want) :
      RequestStarts gen env s (.restartApp b) s₂ want systemUid

/-- A request keeps the links: the pages it starts do, and no page that stays refers to one of the
bundle it clears away. -/
structure RequestKeeps (gen : TokenGenerate) (env : Env) (s : AbilityMgr) (e : Event) : Prop where
  starts : ∀ x want uid, s.RequestStarts gen env e x want uid → x.WantKeeps gen env want uid
  exits : ∀ name, e = .terminateApp name → ¬ s.RefusesExit env name → s.Unreferred (s.pagesOf name)
  dies : ∀ b bundleInfo name, e = .restartApp b → env.queryBundleInfo (some b) = some bundleInfo →
    bundleInfo.bundleName = some name → s.Unreferred (s.pagesOf name)

/-- A reply keeps the links: no page that stays refers to one that goes with the page that stopped, and
the launcher, where it starts, keeps them. -/
structure ReplyKeeps (gen : TokenGenerate) (env : Env) (s : AbilityMgr) (r : Reply) : Prop where
  stops : ∀ t, r = .lifecycleDone ⟨t, .initial⟩ → ∀ st, ∀ m ∈ s.stack st, t ∈ m.pageAbilityRecords →
    s.Unreferred (pagesFrom m t)
  launcher : ∀ state status s₁, r = .lifecycleDone state →
    s.workerAbilityTransaction gen env state = .ok (status, s₁) → status.isNoActiveAbility = true →
    s₁.WantKeeps gen env launcherWant systemUid

/-! ## Messages -/

namespace NoneDangles

theorem handleStartAbility (h : s.NoneDangles) (hs : Sound gen s) (hkeeps : s.WantKeeps gen env want uid)
    (hm : s.handleStartAbility gen env want uid = .ok (code, s')) : s'.NoneDangles := by
  obtain rfl | ⟨e, target, bundleInfo, status, he, hb, ht, hvisible, h₁⟩ := handleStartAbility_cases hm
  · exact h
  · exact h.startTask hs (fun hpage => hkeeps target bundleInfo ⟨⟨e, he, hb⟩, ht, hvisible, hpage⟩) h₁

/-- The launcher may be started after a task. -/
theorem thenLauncher (h : s.NoneDangles) (hs : Sound gen s)
    (hkeeps : status.isNoActiveAbility = true → s.WantKeeps gen env launcherWant systemUid)
    (hm : (status.isNoActiveAbility = false ∧ s' = s) ∨
      (status.isNoActiveAbility = true ∧ s.startLauncher gen env = .ok s')) :
    s'.NoneDangles ∧ Sound gen s' := by
  rcases hm with ⟨-, rfl⟩ | ⟨hno, hm⟩
  · exact ⟨h, hs⟩
  · obtain ⟨_, h₁⟩ := startLauncher_cases hm
    exact ⟨h.handleStartAbility hs (hkeeps hno) h₁, hs.goes (startLauncher_goes hs hm)⟩

theorem startAbilityMsg (h : s.NoneDangles) (hs : Sound gen s) (hkeeps : s.WantKeeps gen env want uid)
    (hm : s.startAbilityMsg gen env want uid = .ok s') : s'.NoneDangles := by
  obtain ⟨code, s₁, h₁, rfl⟩ := startAbilityMsg_cases hm
  have hstarted := h.handleStartAbility hs hkeeps h₁
  unfold startAbilityCallback
  split
  · exact hstarted
  · split
    · exact hstarted
    · exact hstarted.notify

theorem connectAbilityMsg {sid : SvcIdentity} {token : Token} (h : s.NoneDangles) (hs : Sound gen s)
    (hkeeps : ∀ e, want.element = some e → s.findServiceRecordByName e.bundleName e.abilityName = none →
      s.WantKeeps gen env want uid)
    (hm : s.connectAbilityMsg gen env want sid token uid = .ok s') : s'.NoneDangles := by
  obtain ⟨code, s₁, h₁, hnotify⟩ := connectAbilityMsg_cases hm
  have hconnected : s₁.NoneDangles := by
    obtain rfl | ⟨e, bundleInfo, target, s₂, he, hb, ht, hstart, hconnect⟩ := handleConnectAbility_cases h₁
    · exact h
    obtain ⟨hstarted, hs₂⟩ : s₂.NoneDangles ∧ Sound gen s₂ := by
      rcases hstart with ⟨-, rfl⟩ | ⟨hnone, hvisible, status, h₂⟩
      · exact ⟨h, hs⟩
      · exact ⟨h.startTask hs (fun hpage => hkeeps e he hnone target bundleInfo
          ⟨⟨e, he, hb⟩, ht, hvisible, hpage⟩) h₂, hs.goes (startTask_goes hs h₂)⟩
    rcases hconnect with rfl | ⟨status, h₃⟩
    · exact hstarted
    · exact hstarted.calm (connectTask_calm hs₂ h₃)
  rcases hnotify with rfl | rfl
  · exact hconnected
  · exact hconnected.notify

theorem restartAppMsg {b : CString} (h : s.NoneDangles) (hs : Sound gen s)
    (hkeeps : s.RequestKeeps gen env (.restartApp b)) (hm : s.restartAppMsg gen env b = .ok s') :
    s'.NoneDangles := by
  obtain ⟨-, rfl⟩ | ⟨bundleInfo, status, s₁, s₂, hb, h₁, hlauncher, hkeep⟩ := restartAppMsg_cases hm
  · exact h
  have hcleared : s₁.NoneDangles :=
    h.appRestartTask hs (fun name hname => hkeeps.dies b bundleInfo name rfl hb hname) h₁
  have hs₁ : Sound gen s₁ := hs.goes (appRestartTask_goes hs h₁)
  obtain ⟨hlaunched, hs₂⟩ := hcleared.thenLauncher hs₁
    (fun hno => hkeeps.starts _ _ _ (.launcher hb h₁ hno)) hlauncher
  rcases hkeep with ⟨hother, hsystem, halive, h₃⟩ | rfl
  · obtain rfl | ⟨want, code, hwant, h₃⟩ := startKeepAliveApp_cases h₃
    · exact hlaunched
    · refine hlaunched.handleStartAbility hs₂ (hkeeps.starts _ _ _ ?_) h₃
      exact .keepAlive hb h₁ hlauncher ⟨hother, hsystem, halive⟩ hwant
  · exact hlaunched

theorem workerAbilityTransaction {state : TransactionState} (h : s.NoneDangles) (hs : Sound gen s)
    (hstops : ∀ t, state = ⟨t, .initial⟩ → ∀ st, ∀ m ∈ s.stack st, t ∈ m.pageAbilityRecords →
      s.Unreferred (pagesFrom m t))
    (htask : s.workerAbilityTransaction gen env state = .ok (status, s')) : s'.NoneDangles := by
  obtain ⟨t, st⟩ := state
  unfold AbilityMgr.workerAbilityTransaction at htask
  cases st with
  | background => exact h.backgroundTask htask
  | inactive => exact h.inactivateTask hs htask
  | active => exact h.activateTask hs htask
  | initial => exact h.stopTask hs (hstops t rfl) htask
  | uninitialized =>
    cases htask
    exact h

theorem replyMsg {r : Reply} (h : s.NoneDangles) (hs : Sound gen s) (hkeeps : s.ReplyKeeps gen env r)
    (hm : s.replyMsg gen env r = .ok s') : s'.NoneDangles := by
  cases r with
  | lifecycleDone state =>
    obtain ⟨status, s₁, h₁, hlauncher⟩ := transactionMsg_cases hm
    have hworked : s₁.NoneDangles :=
      h.workerAbilityTransaction hs (fun t hstate => hkeeps.stops t (congrArg Reply.lifecycleDone hstate)) h₁
    exact (hworked.thenLauncher (hs.goes (workerAbilityTransaction_goes hs h₁))
      (hkeeps.launcher state status s₁ rfl h₁) hlauncher).1
  | connectDone sid token =>
    simp only [AbilityMgr.replyMsg, bind_eq_ok] at hm
    obtain ⟨⟨status, s₁⟩, h₁, hm⟩ := hm
    cases hm
    have hcalm : ReflTransGen (Calm gen env) s s₁ := connectDoneTask_calm h₁
    exact h.calm hcalm
  | disconnectDone token =>
    simp only [AbilityMgr.replyMsg, bind_eq_ok] at hm
    obtain ⟨⟨status, s₁⟩, h₁, hm⟩ := hm
    cases hm
    exact h.calm (disconnectDoneTask_calm hs h₁)

theorem requestMsg {e : Event} (h : s.NoneDangles) (hs : Sound gen s) (hkeeps : s.RequestKeeps gen env e)
    (hm : s.requestMsg gen env e = .ok s') : s'.NoneDangles := by
  cases e with
  | startAbility want uid => exact h.startAbilityMsg hs (hkeeps.starts _ _ _ .start) hm
  | terminateAbility token =>
    simp only [AbilityMgr.requestMsg, bind_eq_ok] at hm
    obtain ⟨⟨status, s₁⟩, h₁, hm⟩ := hm
    cases hm
    exact h.terminateTask hs h₁
  | attachBundle client =>
    simp only [AbilityMgr.requestMsg, bind_eq_ok] at hm
    obtain ⟨⟨status, s₁⟩, h₁, hm⟩ := hm
    cases hm
    exact h.attachTask hs h₁
  | connectAbility want sid token uid =>
    exact h.connectAbilityMsg hs (fun e he hnone => hkeeps.starts _ _ _ (.connect he hnone)) hm
  | disconnectAbility sid token =>
    simp only [AbilityMgr.requestMsg, bind_eq_ok] at hm
    obtain ⟨⟨status, s₁⟩, h₁, hm⟩ := hm
    cases hm
    exact h.calm (disconnectTask_calm hs h₁)
  | terminateService want uid =>
    obtain rfl | ⟨target, status, -, h₁⟩ := terminateServiceMsg_cases hm
    · exact h
    · exact h.terminateServiceTask hs h₁
  | terminateApp name =>
    simp only [AbilityMgr.requestMsg, bind_eq_ok] at hm
    obtain ⟨⟨status, s₁⟩, h₁, hm⟩ := hm
    cases hm
    exact h.appTerminateTask hs (hkeeps.exits name rfl) h₁
  | restartApp b => exact h.restartAppMsg hs hkeeps hm
  | reply a =>
    cases hm
    exact h
  | perform a sid =>
    cases hm
    exact h

end NoneDangles
end

end AbilityMgr

namespace System
variable {gen : TokenGenerate} {env : Env} {s s' : System} {e : Event}

/-- The handling of an event takes no page away that another refers to, and hands over to no page that is
on no stack. -/
def Keeps (gen : TokenGenerate) (s : System) (env : Env) (e : Event) : Prop :=
  match e with
  | .reply a => ∀ r replies, takeFirst a s.replies = some (r, replies) → s.ams.ReplyKeeps gen env r
  | e => s.ams.RequestKeeps gen env e

/-- A request that is not a reply keeps the links; the others do nothing. -/
theorem Happens.noneDangles (h : s.ams.NoneDangles) (hs : s.ams.Sound gen) (hkeeps : s.Keeps gen env e)
    (hhappens : Happens gen env s e s') : s'.ams.NoneDangles := by
  cases hhappens with
  | request hm =>
    cases e with
    | reply a =>
      cases hm
      exact h
    | _ => exact h.requestMsg hs hkeeps hm
  | requestFault => exact h
  | reply htake hm => exact h.replyMsg hs (hkeeps _ _ htake) hm
  | replyFault => exact h
  | perform => exact h

/-- In every run whose events keep the links, each page refers only to pages that are there and are on one
of the two stacks, and the tasks of the replies act on no deleted page. -/
theorem noneDangles_of_reached
    (h : Reached (System.next gen) (fun s e => s.Keeps gen e.1 e.2) IsInit s) :
    (∀ t r u, s.ams.records t = some r → r.nextPageAbility = some u ∨ r.prevPageAbility = some u →
      s.ams.OnStack u ∧ (s.ams.records u).isSome = true) ∧
    ∀ env t, s.ams.activateTask env t ≠ .error .pageAbilityRecord ∧
      s.ams.inactivateTask gen env t ≠ .error .pageAbilityRecord := by
  have hinit : ∀ s, IsInit s → s.ams.NoneDangles ∧ s.ams.Sound gen := by
    rintro s rfl
    exact ⟨fun _ _ _ hr => (by cases hr), shape_init, known_init⟩
  have hstep : ∀ s e s', s.ams.NoneDangles ∧ s.ams.Sound gen → s.Keeps gen e.1 e.2 →
      System.next gen s e = some s' → s'.ams.NoneDangles ∧ s'.ams.Sound gen := by
    rintro s ⟨env, e⟩ s' ⟨hnone, hs⟩ hkeeps hnext
    have hhappens := (next_cases hnext).2
    exact ⟨hhappens.noneDangles hnone hs hkeeps, hhappens.sound hs⟩
  obtain ⟨hnone, hs⟩ := Reached.invariant hinit hstep h
  have hlinked (t r u) (hr : s.ams.records t = some r) (hlink : r.LinksTo u) :
      s.ams.OnStack u ∧ (s.ams.records u).isSome = true := by
    have hu := hnone t r u hr hlink
    obtain ⟨ru, hru⟩ := hs.shape.live (.inl hu)
    exact ⟨hu, Option.isSome_of_mem hru⟩
  have hthere {t r u} (hr : s.ams.records t = some r) (hlink : r.LinksTo u) :
      s.ams.records u ≠ none := by
    rw [← Option.isSome_iff_ne_none]
    exact (hlinked t r u hr hlink).2
  refine ⟨hlinked, fun env t => ⟨fun herror => ?_, fun herror => ?_⟩⟩
  · obtain ⟨r, u, hr, hlink, hgone⟩ := AbilityMgr.activateTask_error hs.shape herror
    exact hthere hr hlink hgone
  · obtain ⟨r, u, hr, hlink, hgone⟩ := AbilityMgr.inactivateTask_error hs.shape herror
    exact hthere hr hlink hgone

theorem keeps_attachBundle {client : AbilityThreadClient} : s.Keeps gen env (.attachBundle client) :=
  ⟨fun _ _ _ h => (by cases h), fun _ h => (by cases h), fun _ _ _ h => (by cases h)⟩

theorem keeps_perform {a : Nat} {sid : SvcIdentity} : s.Keeps gen env (.perform a sid) :=
  ⟨fun _ _ _ h => (by cases h), fun _ h => (by cases h), fun _ _ _ h => (by cases h)⟩

/-- A start of a new page, with room for it. -/
theorem keeps_startAbility {name : CString} {uid : Int}
    (hnew : s.ams.broughtAgain (pageInfo (some name)) (pageWant name) = none)
    (hroom : s.ams.HasRoom (pageInfo (some name))) :
    s.Keeps gen pageEnv (.startAbility (pageWant name) uid) := by
  refine ⟨?_, fun _ h => (by cases h), fun _ _ _ h => (by cases h)⟩
  rintro x want uid ⟨⟩ target bundleInfo hstarts
  have htarget : pageInfo (some name) = target := Option.some.inj hstarts.found
  subst htarget
  refine ⟨fun _ _ _ _ => hroom, fun t hagain => ?_⟩
  rw [hnew] at hagain
  cases hagain

/-- Page a comes up and hands over to b, and the two refer to each other. -/
theorem noneDangles_handOver :
    ∃ s, run (System.next counter) {} handOver = some s ∧
      (s.ams.records 0).bind (·.nextPageAbility) = some 2 ∧
      (s.ams.records 2).bind (·.prevPageAbility) = some 0 ∧
      (∀ t r u, s.ams.records t = some r → r.nextPageAbility = some u ∨ r.prevPageAbility = some u →
        s.ams.OnStack u ∧ (s.ams.records u).isSome = true) ∧
      ∀ env t, s.ams.activateTask env t ≠ .error .pageAbilityRecord ∧
        s.ams.inactivateTask counter env t ≠ .error .pageAbilityRecord := by
  have h : ((System.next counter {} (pageEnv, startA)).bind fun s₁ =>
      (run (System.next counter) s₁ ((comesUp 1).dropLast.map fun e => (pageEnv, e))).bind fun s₂ =>
        (System.next counter s₂ (pageEnv, .reply 1)).bind fun s₃ =>
          (System.next counter s₃ (pageEnv, startB)).map fun s₄ =>
            (decide ((takeFirst 1 s₂.replies).map (·.1) = some (.lifecycleDone ⟨0, .active⟩) ∧
                (s₂.ams.workerAbilityTransaction counter pageEnv ⟨0, .active⟩).toOption.map
                  (·.1.isNoActiveAbility) = some false),
              decide (s₃.ams.broughtAgain (pageInfo (some (cstr "b"))) (pageWant (cstr "b")) = none ∧
                (s₃.ams.getTargetMissionRecord .default (some (cstr "b"))).isNone = true ∧
                s₃.ams.defaultMissionStacks.length = 1),
              decide ((s₄.ams.records 0).bind (·.nextPageAbility) = some 2 ∧
                (s₄.ams.records 2).bind (·.prevPageAbility) = some 0))) =
      some (true, true, true) := by decide
  obtain ⟨s₁, h₁, h⟩ := Option.bind_eq_some_iff.mp h
  obtain ⟨s₂, h₂, h⟩ := Option.bind_eq_some_iff.mp h
  obtain ⟨s₃, h₃, h⟩ := Option.bind_eq_some_iff.mp h
  obtain ⟨s₄, h₄, h⟩ := Option.map_eq_some_iff.mp h
  simp only [Prod.mk.injEq, decide_eq_true_eq, Option.isNone_iff_eq_none] at h
  obtain ⟨⟨hreply, hno⟩, ⟨hnew, hnone, hlength⟩, hnext, hprev⟩ := h
  have hrun : run (System.next counter) {} handOver = some s₄ := by
    have hevents : handOver = (pageEnv, startA) :: (((comesUp 1).dropLast.map fun e => (pageEnv, e)) ++
        [(pageEnv, .reply 1), (pageEnv, startB)]) := rfl
    rw [hevents, run_cons _ _ h₁, run_append _ _ h₂, run_cons _ _ h₃, run_cons _ _ h₄, run_nil]
  have hfirst : Reached (System.next counter) (fun s e => s.Keeps counter e.1 e.2) IsInit s₁ := by
    refine .step (.init rfl) (keeps_startAbility ?_ ?_) h₁
    · decide
    · exact AbilityMgr.hasRoom_of_none (by decide) (by decide)
  have hup : Reached (System.next counter) (fun s e => s.Keeps counter e.1 e.2) IsInit s₂ := by
    refine hfirst.steps _ (fun p hp s => ?_) h₂
    have hevents : (comesUp 1).dropLast =
      [.attachBundle ⟨1, 7, ⟨9, 9⟩⟩, .perform 1 ⟨0, 0⟩, .perform 1 ⟨0, 0⟩] := rfl
    obtain ⟨e, he, rfl⟩ := List.mem_map.mp hp
    simp only [hevents, List.mem_cons, List.not_mem_nil, or_false, or_self] at he
    rcases he with rfl | rfl
    · exact keeps_attachBundle
    · exact keeps_perform
  have hactive : Reached (System.next counter) (fun s e => s.Keeps counter e.1 e.2) IsInit s₃ := by
    have hkeeps : s₂.Keeps counter pageEnv (.reply 1) := by
      intro r replies htake
      rw [htake, Option.map_some, Option.some.injEq] at hreply
      dsimp only at hreply
      subst hreply
      refine ⟨fun t ht => (by cases ht), fun state status s₁ hstate hdone hstatus => ?_⟩
      cases hstate
      rw [hdone] at hno
      have hfalse : status.isNoActiveAbility = false := Option.some.inj hno
      rw [hstatus] at hfalse
      cases hfalse
    exact hup.step hkeeps h₃
  have hlast : Reached (System.next counter) (fun s e => s.Keeps counter e.1 e.2) IsInit s₄ := by
    refine hactive.step (keeps_startAbility hnew ?_) h₄
    have hstack : (s₃.ams.stack (targetStack (some (cstr "b")))).length = 1 := hlength
    refine AbilityMgr.hasRoom_of_none hnone ?_
    exact hstack.trans_lt (by decide)
  obtain ⟨hlinked, hthere⟩ := noneDangles_of_reached hlast
  exact ⟨s₄, hrun, hnext, hprev, hlinked, hthere⟩

/-- b ends before a has given way to it, and the reply of a acts on the page that was deleted. -/
theorem handOver_dangles :
    ∃ s s', Reached (System.next counter) (fun _ _ => True) IsInit s ∧
      (s.ams.records 0).bind (·.nextPageAbility) = some 2 ∧ s.ams.records 2 = none ∧ ¬ s.ams.OnStack 2 ∧
      System.next counter s (pageEnv, .reply 1) = some s' ∧ s'.fault = some .pageAbilityRecord := by
  have h : ((run (System.next counter) {}
        (handOver ++ [(pageEnv, .terminateApp (cstr "b")), (pageEnv, .perform 1 ⟨0, 0⟩)])).bind fun s =>
      (System.next counter s (pageEnv, .reply 1)).map fun s' =>
        ((s.ams.records 0).bind (·.nextPageAbility), (s.ams.records 2).isNone, s'.fault)) =
      some (some 2, true, some .pageAbilityRecord) := by decide
  obtain ⟨s, hs, h⟩ := Option.bind_eq_some_iff.mp h
  obtain ⟨s', hnext, h⟩ := Option.map_eq_some_iff.mp h
  simp only [Prod.mk.injEq, Option.isNone_iff_eq_none] at h
  obtain ⟨hlink, hgone, hfault⟩ := h
  have hreached : Reached (System.next counter) (fun _ _ => True) IsInit s := Reached.of_run (.init rfl) _ hs
  refine ⟨s, s', hreached, hlink, hgone, fun hon => ?_, hnext, hfault⟩
  obtain ⟨r, hr⟩ := (sound_of_reached hreached).shape.live (.inl hon)
  rw [hgone] at hr
  cases hr

end System
end AbilityLite.Ams
