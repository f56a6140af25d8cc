import AbilityLite.Ams.HandOver

/-
  What AMS lists was listed before or is new.

  Tokens are generated, so one that is not used again can be told from a new one. Lists
  only take up what is new: a page or a service that was taken off them, or that a full
  list did not take, does not come back.
-/

namespace AbilityLite.Ams
open AbilityMsStatus Fallible Relation
namespace AbilityMgr
variable {gen : TokenGenerate} {env : Env} {s s' : AbilityMgr} {t : Token} {id : Nat} {st : StackType}
  {m : AbilityMissionRecord} {status : AbilityMsStatus}

/-- What is listed now was, or its token was generated since. -/
structure Arrives (gen : TokenGenerate) (s s' : AbilityMgr) : Prop where
  generated : s.generated ≤ s'.generated
  listed : ∀ t, s'.Listed t → s.Listed t ∨ ∃ k, s.generated ≤ k ∧ t = gen.generate k

/-- A token that was generated, and is on no list. -/
def Off (gen : TokenGenerate) (s : AbilityMgr) (t : Token) : Prop :=
  (∃ k < s.generated, t = gen.generate k) ∧ ¬ s.Listed t

theorem Step.generated (h : Step gen env s s') : s.generated ≤ s'.generated := by
  cases h with
  | quiet h =>
    cases h with
    | calm h =>
      cases h with
      | tick => exact Nat.le_succ _
      | process => exact Nat.le_succ _
      | ask t r a m => cases m <;> exact Nat.le_refl _
      | tell a m => cases m <;> exact Nat.le_refl _
      | _ => exact Nat.le_refl _
    | create => exact Nat.le_succ _
    | delete _ t hd =>
      obtain ⟨r, _, ⟨_, rfl⟩ | ⟨a, app, _, _, rfl⟩⟩ := delete_cases hd <;> exact Nat.le_refl _
    | shelve hl => exact Nat.le_of_eq hl.generated.symm
    | _ => exact Nat.le_refl _
  | ask t r a m => cases m <;> exact Nat.le_refl _
  | _ => exact Nat.le_refl _

theorem steps_generated (h : ReflTransGen (Step gen env) s s') : s.generated ≤ s'.generated := by
  induction h with
  | refl => exact Nat.le_refl _
  | tail _ hstep ih => exact Nat.le_trans ih hstep.generated

namespace Arrives

theorem refl (s : AbilityMgr) : Arrives gen s s := ⟨Nat.le_refl _, fun _ ht => .inl ht⟩

theorem trans {s s' s'' : AbilityMgr} (h : Arrives gen s s') (h' : Arrives gen s' s'') :
    Arrives gen s s'' := by
  refine ⟨Nat.le_trans h.generated h'.generated, fun t ht => ?_⟩
  obtain ht | ⟨k, hk, he⟩ := h'.listed t ht
  · exact h.listed t ht
  · exact .inr ⟨k, Nat.le_trans h.generated hk, he⟩

/-- What is off the lists stays off them. -/
theorem off (h : Arrives gen s s') (ht : s.Off gen t) : s'.Off gen t := by
  obtain ⟨⟨k, hk, he⟩, hoff⟩ := ht
  refine ⟨⟨k, Nat.lt_of_lt_of_le hk h.generated, he⟩, fun hlisted => ?_⟩
  obtain hlisted | ⟨k', hk', he'⟩ := h.listed t hlisted
  · exact hoff hlisted
  · exact absurd (gen.injective _ _ (he.symm.trans he')) (Nat.ne_of_lt (Nat.lt_of_lt_of_le hk hk'))

theorem of_listed (h : ReflTransGen (Step gen env) s s') (hlisted : ∀ t, s'.Listed t → s.Listed t) :
    Arrives gen s s' := ⟨steps_generated h, fun t ht => .inl (hlisted t ht)⟩

theorem still (h : Still gen env s s') : Arrives gen s s' :=
  .of_listed h.steps fun _ ht => h.kept.toSameLists.listed.mp ht

end Arrives

theorem listed_iff : s.Listed t ↔ s.OnStack t ∨ t ∈ s.serviceRecords := Iff.rfl

/-! ## Bringing a page up -/

/-- The pages that a change of a mission adds. -/
theorem onStack_modifyMission_cases {f : AbilityMissionRecord → AbilityMissionRecord} {p : Token → Prop}
    (hf : ∀ m, ∀ t ∈ (f m).pageAbilityRecords, t ∈ m.pageAbilityRecords ∨ p t)
    (h : (s.modifyMission id f).OnStack t) : s.OnStack t ∨ p t := by
  obtain ⟨st, m', hm', ht⟩ := h
  rw [stack_modifyMission] at hm'
  obtain ⟨m, hm, ⟨_, rfl⟩ | ⟨_, rfl⟩⟩ := mem_updateMission hm'
  · exact (hf m t ht).imp (fun ht => ⟨st, m, hm, ht⟩) fun hp => hp
  · exact .inl ⟨st, m', hm, ht⟩

theorem onStack_pushTop_cases (h : (s.pushTopMissionRecord m).OnStack t) :
    s.OnStack t ∨ t ∈ m.pageAbilityRecords := by
  obtain ⟨st, m', hm', ht⟩ := h
  unfold AbilityMgr.pushTopMissionRecord at hm'
  dsimp only at hm'
  split at hm'
  · refine .inl ⟨st, m', ?_, ht⟩
    cases st <;> exact hm'
  · by_cases hst : st = m.abilityMissionStack
    · subst hst
      rw [stack_setStack_same, List.mem_append, List.mem_singleton] at hm'
      obtain hm' | rfl := hm'
      · exact .inl ⟨_, m', hm', ht⟩
      · exact .inr ht
    · rw [stack_setStack_ne _ hst] at hm'
      exact .inl ⟨st, m', hm', ht⟩

theorem services_pushTop : (s.pushTopMissionRecord m).serviceRecords = s.serviceRecords := by
  unfold AbilityMgr.pushTopMissionRecord
  dsimp only
  split
  · rfl
  · exact services_setStack _

theorem mem_pushPageAbility_cases {p : Token} (h : t ∈ (m.pushPageAbility p).pageAbilityRecords) :
    t ∈ m.pageAbilityRecords ∨ t = p := by
  unfold AbilityMissionRecord.pushPageAbility at h
  split at h
  · exact .inl h
  · exact (List.mem_append.mp h).imp_right List.mem_singleton.mp

theorem listed_moveToTop (hids : ((s.stack st).map (·.id)).Nodup)
    (hs : s.moveMissionRecordToTop st id = .ok s') : s'.Listed t ↔ s.Listed t := by
  rw [listed_iff, listed_iff, onStack_moveToTop hids hs]
  obtain ⟨l, _, rfl⟩ := moveMissionRecordToTop_cases hs
  rw [services_setStack]

theorem Finds.arrives {target : AbilityInfo} {want : Want} {top : Option PageAbilityRecord}
    {page : Option Token} (h : s.Shape) (hf : Finds gen target want top st s page id s') (ht : s'.Listed t) :
    s.Listed t ∨ t = gen.generate s.generated := by
  cases hf with
  | mission _ hnew =>
    obtain ⟨rfl, rfl, s₁, rfl, rfl⟩ := newMission_cases hnew
    obtain hpage | hservice := listed_iff.mp ht
    · obtain hpage | hpage := onStack_pushTop_cases hpage
      · exact .inl (.inl hpage)
      · exact .inr (List.mem_singleton.mp hpage)
    · rw [services_pushTop] at hservice
      exact .inl (.inr hservice)
  | page _ _ hmove => exact .inl ((listed_moveToTop (h.stack_ids _) hmove).mp ht)
  | newPage _ _ hnew hmove =>
    obtain ⟨rfl, s₁, rfl, rfl⟩ := newPage_cases hnew
    rw [listed_moveToTop ?ids hmove] at ht
    case ids =>
      rw [stack_modifyMission, updateMission_ids (stays_pushPageAbility _)]
      exact h.stack_ids st
    obtain hpage | hservice := listed_iff.mp ht
    · obtain hpage | he := onStack_modifyMission_cases (fun _ _ => mem_pushPageAbility_cases) hpage
      · exact .inl (.inl hpage)
      · exact .inr he
    · exact .inl (.inr hservice)

theorem generatePageAbility_arrives (env : Env) {target : AbilityInfo} {want : Want}
    {topAbility page : Option Token} (h : s.Shape)
    (hs : s.generatePageAbility gen target want topAbility = .ok (page, s')) : Arrives gen s s' := by
  have hquiet : ReflTransGen (Quiet gen env) s s' := generatePageAbility_quiet hs
  refine ⟨steps_generated (Quiet.steps hquiet), fun t ht => ?_⟩
  have hfound : s.Listed t ∨ t = gen.generate s.generated := by
    obtain ⟨_, _, rfl⟩ | ⟨_, id, s₁, s₂, hf, hlink, rfl⟩ := generatePageAbility_cases hs
    · exact .inl ht
    · refine hf.arrives h ?_
      have ht₂ : s₂.Listed t := ht.imp_left (onStack_setTop _).mp
      obtain ⟨rfl, _⟩ | ⟨m, _, _, _, rfl⟩ := hlink
      · exact ht₂
      · refine ht₂.imp_left fun hpage => ?_
        have hold := onStack_modifyMission_cases (p := fun _ => False)
          (f := (·.setPrevMissionRecord (some m.id))) (fun _ _ => .inl) hpage
        exact hold.resolve_right not_false
  exact hfound.imp_right fun he => ⟨s.generated, Nat.le_refl _, he⟩

theorem newService_arrives (env : Env) {want : Want} {target : AbilityInfo} {bundleInfo : BundleInfo}
    {waitConnect : Bool} (hs : Sound gen s) (hservice : target.abilityType = .service) :
    Arrives gen s (s.newService gen want target bundleInfo waitConnect) := by
  have hgoes : Goes gen env s (s.newService gen want target bundleInfo waitConnect) := hs.newService hservice
  refine ⟨steps_generated hgoes.steps, fun t ht => ?_⟩
  unfold AbilityMgr.newService AbilityMgr.pushServiceRecord at ht
  split at ht
  · exact .inl ht
  · obtain hpage | hmem := ht
    · exact .inl (.inl hpage)
    · obtain hmem | hmem := List.mem_append.mp hmem
      · exact .inl (.inr hmem)
      · exact .inr ⟨s.generated, Nat.le_refl _, List.mem_singleton.mp hmem⟩

/-! ## Taking off -/

theorem removePageAbility_arrives (env : Env) (h : s.Shape) (hs : s.removePageAbility t = .ok s') :
    Arrives gen s s' := by
  have hquiet : ReflTransGen (Quiet gen env) s s' := removePageAbility_quiet hs
  refine .of_listed (Quiet.steps hquiet) fun p hp => ?_
  obtain ⟨r, hr, ⟨_, rfl⟩ | ⟨m, hm, hid, _⟩⟩ := removePageAbility_cases h hs
  · exact hp
  · obtain ⟨hpages, hservices, -, -⟩ := removePageAbility_pages h hm hr hid hs
    exact hp.imp (fun hpage => ((hpages p).mp hpage).1) fun hservice => hservices ▸ hservice

theorem removeServiceRecord_arrives (env : Env) (hs : s.removeServiceRecord t = .ok s') : Arrives gen s s' := by
  have hquiet : ReflTransGen (Quiet gen env) s s' := removeServiceRecord_quiet hs
  refine .of_listed (Quiet.steps hquiet) fun p hp => ?_
  obtain ⟨_, hdelete⟩ | ⟨_, rfl⟩ := removeServiceRecord_cases hs
  · have hlisted := (delete_gone hdelete).toSameLists.listed.mp hp
    exact hlisted.imp_right fun hmem => (List.mem_filter.mp hmem).1
  · exact hp

theorem clearAbilityStack_arrives {name : CString} (h : s.Shape) (hs : s.clearAbilityStack env name = .ok s') :
    Arrives gen s s' := by
  have hquiet : ReflTransGen (Quiet gen env) s s' := (clearAbilityStack_shape h hs).2
  refine .of_listed (Quiet.steps hquiet) fun p hp => ?_
  obtain ⟨s₁, s₂, h₁, h₂, h₃⟩ := clearAbilityStack_cases hs
  have hshape₁ := h.removeServiceRecords h₁
  have hshape₂ := hshape₁.returnFrom h₂
  obtain ⟨hapart, hservices₁, -⟩ := removeServiceRecords_apart h₁
  obtain ⟨hmissions, -, hservices₂, -⟩ := returnFrom_keeps hshape₁ h₂
  have hp₂ : s₂.Listed p := by
    obtain ⟨_, rfl⟩ | ⟨m, hm, _, _, hgone, _⟩ := removeMissionRecordByName_cases hshape₂ h₃
    · exact hp
    · refine (hgone.toSameLists.listed.mp hp).imp (fun hpage => ?_) fun hservice => ?_
      · exact ((onStack_dropMission hshape₂ hm).mp hpage).1
      · exact services_dropMission ▸ hservice
  refine hp₂.imp (fun hpage => ?_) fun hservice => ?_
  · obtain ⟨st, m, hm, hpm⟩ := hpage
    rw [hmissions, hapart.stack] at hm
    exact ⟨st, m, hm, hpm⟩
  · rw [hservices₂, hservices₁] at hservice
    exact hservice.1

/-! ## Tasks -/

theorem startPageTask_arrives {want : Want} {target : AbilityInfo} {bundleInfo : BundleInfo}
    (hs : Sound gen s) (hpage : target.abilityType ≠ .service)
    (h : s.startPageTask gen env want target bundleInfo = .ok (status, s')) : Arrives gen s s' := by
  -- the page that is brought up, and the state its removal may start from
  have hfound {top page : Option Token} {t : Token} {s₁ s₂ : AbilityMgr}
      (hgen : s.generatePageAbility gen target want top = .ok (page, s₁))
      (hstill : Still gen env (s₁.modify t (·.setBundleInfo bundleInfo)) s₂) :
      Arrives gen s s₂ ∧ s₂.Shape := by
    have hset : Still gen env s₁ (s₁.modify t (·.setBundleInfo bundleInfo)) :=
      .edit fun r => mild_setBundleInfo r _
    exact ⟨(generatePageAbility_arrives env hs.shape hgen).trans (.still (hset.trans hstill)),
      ((hs.generatePageAbility hpage hgen).still (hset.trans hstill)).shape⟩
  cases startPageTask_cases h with
  | refused hgen _ => exact generatePageAbility_arrives env hs.shape hgen
  | givesWay hgen _ _ h₂ _ =>
    exact (hfound hgen ((Still.inactiveAbility h₂).trans ((Still.next _).trans (.prev _)))).1
  | stays hgen _ _ h₂ _ h₃ =>
    obtain ⟨harrives, hshape⟩ := hfound hgen (.inactiveAbility h₂)
    exact harrives.trans (removePageAbility_arrives env hshape h₃)
  | starts hgen _ h₂ _ => exact (hfound hgen (startAbility_still h₂)).1
  | fails hgen _ h₂ _ h₃ =>
    obtain ⟨harrives, hshape⟩ := hfound hgen (startAbility_still h₂)
    exact harrives.trans (removePageAbility_arrives env hshape h₃)

theorem startTask_arrives {want : Want} {target : AbilityInfo} {bundleInfo : BundleInfo} {waitConnect : Bool}
    (hs : Sound gen s) (h : s.startTask gen env want target bundleInfo waitConnect = .ok (status, s')) :
    Arrives gen s s' := by
  unfold startTask at h
  split at h
  · next hservice =>
    obtain ⟨t, _, _, rfl⟩ | ⟨_, s₁, h₁, hrest⟩ := startServiceTask_cases h
    · exact .refl _
    · have hstarted : Arrives gen s s₁ :=
        (newService_arrives env hs hservice).trans (.still (startService_still h₁))
      obtain ⟨_, h₂⟩ | ⟨_, rfl⟩ := hrest
      · exact hstarted.trans (removeServiceRecord_arrives env h₂)
      · exact hstarted
  · next hpage => exact startPageTask_arrives hs hpage h

theorem stopTask_arrives (hs : Sound gen s) (h : s.stopTask env t = .ok (status, s')) : Arrives gen s s' := by
  cases stopTask_cases h with
  | unknown => exact .refl _
  | stopped =>
    have hstill : Still gen env s (s.modify t (·.setCurrentState .initial)) := .reach .initial
    exact .still hstill
  | service _ _ _ _ h₁ h₂ h₃ =>
    have hstill : Still gen env s _ := (Still.reach _).trans ((Still.calm (stopAbilityDone_calm h₁)).trans h₂.still)
    exact (Arrives.still hstill).trans (removeServiceRecord_arrives env h₃)
  | page _ _ _ _ h₁ h₂ =>
    have hstill : Still gen env s _ := (Still.reach _).trans h₁.still
    exact (Arrives.still hstill).trans (removePageAbility_arrives env (hs.shape.of_kept hstill.kept) h₂)

theorem terminateServiceTask_arrives {target : AbilityInfo} (hs : Sound gen s)
    (h : s.terminateServiceTask env target = .ok (status, s')) : Arrives gen s s' := by
  unfold terminateServiceTask at h
  split at h
  · cases h
    exact .refl _
  · next t ht =>
    simp only [bind_eq_ok, record_eq_ok] at h
    obtain ⟨r, hr, h⟩ := h
    split at h
    · simp only [bind_eq_ok] at h
      obtain ⟨s₁, h₁, h⟩ := h
      cases h
      exact removeServiceRecord_arrives env h₁
    · have hmem := (findServiceRecordByName_mem ht).1
      have hcalm : ReflTransGen (Calm gen env) s s' :=
        forceStopServiceAbility_calm hr (hs.shape.allServices t hmem r hr) h
      exact .still (.calm hcalm)

theorem Clears.arrives {name : CString} (hs : Sound gen s) (h : Clears env name s s') : Arrives gen s s' := by
  obtain ⟨s₁, h₁, h₂⟩ := h
  have hstill : Still gen env s₁ s' := (removeAppRecordByName_still _).trans h₂.still
  exact (clearAbilityStack_arrives hs.shape h₁).trans (.still hstill)

theorem appTerminateTask_arrives {name : CString} (hs : Sound gen s)
    (h : s.appTerminateTask env name = .ok (status, s')) : Arrives gen s s' := by
  cases appTerminateTask_cases h with
  | refused => exact .refl _
  | alone _ h₁ => exact h₁.arrives hs
  | exits _ hreach h₁ =>
    have htell : Still gen env s _ := Still.tell rfl hreach
    exact (Arrives.still htell).trans (h₁.arrives (hs.goes (hs.still htell)))

theorem appRestartTask_arrives {bundleInfo : BundleInfo} (hs : Sound gen s)
    (h : s.appRestartTask env bundleInfo = .ok (status, s')) : Arrives gen s s' := by
  obtain ⟨_, _, rfl⟩ | ⟨name, _, h₁⟩ := appRestartTask_cases h
  · exact .refl _
  · exact h₁.arrives hs

end AbilityMgr
end AbilityLite.Ams
