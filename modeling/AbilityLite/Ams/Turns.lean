import AbilityLite.Ams.TaskCases
import AbilityLite.Ams.System

/-
  Every message AMS handles is a chain of small steps that keeps the shape of the lists,
  and what is allocated was generated before. So both hold in every reachable state.
-/

namespace AbilityLite.Ams
open AbilityMsStatus Fallible Relation
namespace AbilityMgr
variable {gen : TokenGenerate} {env : Env} {s s' : AbilityMgr} {t : Token} {a : Nat}
  {status : AbilityMsStatus}

/-- The small steps of AMS: quiet ones, those that concern a page, and those on process records. -/
inductive Step (gen : TokenGenerate) (env : Env) : AbilityMgr → AbilityMgr → Prop
  | quiet {s s' : AbilityMgr} (h : Quiet gen env s s') : Step gen env s s'
  | reach (s : AbilityMgr) (t : Token) (st : State) : Step gen env s (s.modify t (·.setCurrentState st))
  | next (s : AbilityMgr) (t : Token) (o : Option Token) :
      Step gen env s (s.modify t (·.setNextPageAbility o))
  | prev (s : AbilityMgr) (t : Token) (o : Option Token) :
      Step gen env s (s.modify t (·.setPrevPageAbility o))
  | ask (s : AbilityMgr) (t : Token) (r : PageAbilityRecord) (a : Nat) (m : Transaction)
      (hr : s.records t = some r) (ha : r.appRecord = some a) (hm : m.token = some t)
      (hreach : s.Reaches env a m) : Step gen env s (s.send a m)
  | accept (s : AbilityMgr) (t : Token) (r : PageAbilityRecord) (hr : s.records t = some r)
      (htransacted : r.transacted = true) : Step gen env s (s.modify t (·.accept))
  | await (s : AbilityMgr) (t : Token) (r : PageAbilityRecord) (a : Nat) (hr : s.records t = some r)
      (ha : r.appRecord = none) (happ : (s.app a).isSome) : Step gen env s (s.await t a)
  | client (s : AbilityMgr) (a : Nat) (c : AbilityThreadClient) :
      Step gen env s (s.modifyApp a (·.setClient c))
  | launched (s : AbilityMgr) (a : Nat) : Step gen env s (s.modifyApp a (·.setPendingAbility none))
  | drop (s : AbilityMgr) (l : List AppRecord) (h : l.Sublist s.appRecords) :
      Step gen env s { s with appRecords := l }
  | forget (s : AbilityMgr) (t : Token) : Step gen env s (s.modify t (·.setAppRecord none))

theorem Quiet.steps (h : ReflTransGen (Quiet gen env) s s') : ReflTransGen (Step gen env) s s' :=
  ReflTransGen.mono (fun _ _ => Step.quiet) _ _ h

theorem Calm.steps (h : ReflTransGen (Calm gen env) s s') : ReflTransGen (Step gen env) s s' :=
  Quiet.steps (Calm.quiet h)

/-! ## What was generated -/

/-- Tokens and identity ids were generated, and no two process records have one id. -/
structure Known (gen : TokenGenerate) (s : AbilityMgr) : Prop where
  records : ∀ t, (s.records t).isSome → ∃ k < s.generated, t = gen.generate k
  apps : ∀ app ∈ s.appRecords, ∃ k < s.generated, app.identityId = gen.generate k
  appIds : (s.appRecords.map (·.identityId)).Nodup

/-- What is generated next is new. -/
theorem Known.fresh (h : Known gen s) : s.records (gen.generate s.generated) = none := by
  cases hr : s.records (gen.generate s.generated) with
  | none => rfl
  | some r =>
    obtain ⟨k, hk, he⟩ := h.records _ (by rw [hr]; rfl)
    exact absurd (gen.injective _ _ he) (Nat.ne_of_gt hk)

theorem Known.fresh_app (h : Known gen s) : ∀ app ∈ s.appRecords,
    app.identityId ≠ gen.generate s.generated := by
  intro app happ he
  obtain ⟨k, hk, hk'⟩ := h.apps app happ
  exact absurd (gen.injective _ _ (he.symm.trans hk')) (Nat.ne_of_gt hk)

/-- A step that allocates nothing and leaves the process records under their ids. -/
theorem Known.same (h : Known gen s) (hrecords : ∀ t, (s'.records t).isSome → (s.records t).isSome)
    (happs : (s'.appRecords.map (·.identityId)).Sublist (s.appRecords.map (·.identityId)))
    (hgenerated : s'.generated = s.generated) : Known gen s' := by
  refine ⟨fun t ht => ?_, fun app happ => ?_, h.appIds.sublist happs⟩
  · rw [hgenerated]
    exact h.records t (hrecords t ht)
  · rw [hgenerated]
    obtain ⟨app', happ', he⟩ := List.mem_map.mp (happs.subset (List.mem_map.mpr ⟨app, happ, rfl⟩))
    rw [← he]
    exact h.apps app' happ'

theorem Known.tick (h : Known gen s) : Known gen { s with generated := s.generated + 1 } := by
  refine ⟨fun t ht => ?_, fun app happ => ?_, h.appIds⟩
  · obtain ⟨k, hk, he⟩ := h.records t ht
    exact ⟨k, Nat.lt_succ_of_lt hk, he⟩
  · obtain ⟨k, hk, he⟩ := h.apps app happ
    exact ⟨k, Nat.lt_succ_of_lt hk, he⟩

theorem modifyApp_ids {f : AppRecord → AppRecord} (hf : ∀ app, (f app).identityId = app.identityId) :
    (s.modifyApp a f).appRecords.map (·.identityId) = s.appRecords.map (·.identityId) := by
  unfold modifyApp
  rw [List.map_map]
  refine List.map_congr_left fun app _ => ?_
  simp only [Function.comp_apply]
  split
  · exact hf app
  · rfl

theorem Known.modify (h : Known gen s) (f : PageAbilityRecord → PageAbilityRecord) :
    Known gen (s.modify t f) :=
  h.same (fun _ ht' => (Store.modify_isSome (m := s.records) f).symm.trans ht')
    (List.Sublist.refl _) rfl

theorem Known.modifyApp (h : Known gen s) {f : AppRecord → AppRecord}
    (hf : ∀ app, (f app).identityId = app.identityId) : Known gen (s.modifyApp a f) :=
  h.same (fun _ ht => ht) (by simp only [modifyApp_ids hf, List.Sublist.refl]) rfl

theorem clearPendingAbility_identityId (app : AppRecord) :
    (app.clearPendingAbility t).identityId = app.identityId := by
  unfold AppRecord.clearPendingAbility
  split <;> rfl

theorem Known.send (h : Known gen s) (m : Transaction) : Known gen (s.send a m) := by
  cases m with
  | lifecycle state want type =>
    exact (h.modify (t := state.token) (·.transact)).same (fun _ ht => ht) (List.Sublist.refl _) rfl
  | _ => exact h.same (fun _ ht => ht) (List.Sublist.refl _) rfl

theorem Known.calm (h : Known gen s) (hs : Calm gen env s s') : Known gen s' := by
  cases hs with
  | tick => exact h.tick
  | process bundleInfo pid hname hnone =>
    refine ⟨h.tick.records, fun app happ => ?_, ?_⟩
    · rcases List.mem_append.mp happ with happ | happ
      · exact h.tick.apps app happ
      · rw [List.mem_singleton] at happ
        rw [happ]
        exact ⟨s.generated, Nat.lt_succ_self _, rfl⟩
    · show ((s.appRecords ++ [_]).map _).Nodup
      rw [List.map_append, List.nodup_append]
      refine ⟨h.appIds, List.pairwise_singleton _ _, fun i hi j hj => ?_⟩
      obtain ⟨app, happ, rfl⟩ := List.mem_map.mp hi
      rw [List.map_singleton, List.mem_singleton] at hj
      rw [hj]
      exact h.fresh_app app happ
  | edit t f hf => exact h.modify f
  | ask t r a m => exact h.send m
  | tell a m => exact h.send m
  | callback l => exact h.same (fun _ ht => ht) (List.Sublist.refl _) rfl

theorem Known.quiet (h : Known gen s) (hs : Quiet gen env s s') : Known gen s' := by
  cases hs with
  | calm hc => exact h.calm hc
  | create info want =>
    refine ⟨fun t ht => ?_, h.tick.apps, h.appIds⟩
    by_cases he : t = gen.generate s.generated
    · exact ⟨s.generated, Nat.lt_succ_self _, he⟩
    · have ht' : (s.records.insert _ _ t).isSome = true := ht
      rw [Store.insert_ne _ _ he] at ht'
      exact h.tick.records t ht'
  | place t id => exact h.modify _
  | reach t r => exact h.modify _
  | accept t r => exact h.modify _
  | delete _ t hd =>
    obtain ⟨r, hr, ⟨_, rfl⟩ | ⟨a, app, _, _, rfl⟩⟩ := delete_cases hd
    · refine h.same (fun t' ht' => ?_) (List.Sublist.refl _) rfl
      obtain ⟨r', hr'⟩ := Option.isSome_iff_exists.mp ht'
      rw [(Store.erase_cases hr').2]
      rfl
    · have ha : Known gen (s.modifyApp a (·.clearPendingAbility t)) :=
        h.modifyApp clearPendingAbility_identityId
      refine ha.same (fun t' ht' => ?_) (List.Sublist.refl _) rfl
      obtain ⟨r', hr'⟩ := Option.isSome_iff_exists.mp ht'
      rw [show (s.modifyApp a _).records t' = s.records t' from rfl, (Store.erase_cases hr').2]
      rfl
  | shelve hl =>
    exact h.same (fun t ht => by rw [hl.records] at ht; exact ht) (by simp only [hl.appRecords, List.Sublist.refl])
      hl.generated

theorem Known.step (h : Known gen s) (hs : Step gen env s s') : Known gen s' := by
  cases hs with
  | quiet hq => exact h.quiet hq
  | reach t st => exact h.modify _
  | next t o => exact h.modify _
  | prev t o => exact h.modify _
  | ask t r a m => exact h.send m
  | accept t r => exact h.modify _
  | await t r a => exact (h.modify _).modifyApp fun _ => rfl
  | client a c => exact h.modifyApp fun _ => rfl
  | launched a => exact h.modifyApp fun _ => rfl
  | drop l hl => exact h.same (fun _ ht => ht) (hl.map _) rfl
  | forget t => exact h.modify _

theorem Known.steps (h : Known gen s) (hs : ReflTransGen (Step gen env) s s') : Known gen s' :=
  keeps (p := Known gen) (fun _ _ hstep hk => hk.step hstep) hs h

/-! ## Steps that keep the lists -/

/-- A chain of steps that leaves the lists alone. -/
structure Still (gen : TokenGenerate) (env : Env) (s s' : AbilityMgr) : Prop where
  kept : Kept s s'
  steps : ReflTransGen (Step gen env) s s'

namespace Still

theorem refl (s : AbilityMgr) : Still gen env s s := ⟨.refl s, .refl⟩

theorem trans {s s' s'' : AbilityMgr} (h : Still gen env s s') (h' : Still gen env s' s'') :
    Still gen env s s'' := ⟨h.kept.trans h'.kept, h.steps.trans h'.steps⟩

theorem calm (h : ReflTransGen (Calm gen env) s s') : Still gen env s s' := ⟨.calm h, Calm.steps h⟩

theorem edit {f : PageAbilityRecord → PageAbilityRecord} (hf : ∀ r, Mild r (f r)) :
    Still gen env s (s.modify t f) := .calm (calm_edit hf)

theorem reach (st : State) : Still gen env s (s.modify t (·.setCurrentState st)) :=
  ⟨.modify fun _ => rfl, .single (.reach s t st)⟩

theorem next (o : Option Token) : Still gen env s (s.modify t (·.setNextPageAbility o)) :=
  ⟨.modify fun _ => rfl, .single (.next s t o)⟩

theorem prev (o : Option Token) : Still gen env s (s.modify t (·.setPrevPageAbility o)) :=
  ⟨.modify fun _ => rfl, .single (.prev s t o)⟩

theorem asks {state : State} (h : s.Asks env t state s') : Still gen env s s' := by
  obtain ⟨r, a, hr, ha, hreach, rfl⟩ := h
  exact ⟨.send _, .single (.ask s t r a _ hr ha rfl hreach)⟩

theorem activeAbility (h : s.activeAbility env t = .ok (status, s')) : Still gen env s s' := by
  obtain ⟨r, _, ⟨_, _, rfl⟩ | ⟨_, _, rfl | rfl⟩ | ⟨_, _, s₁, hasks, rfl⟩⟩ := activeAbility_cases h
  · exact .refl _
  · exact .refl _
  · exact .edit mild_freeSid
  · exact (asks hasks).trans (.edit mild_freeSid)

theorem inactiveAbility (h : s.inactiveAbility env t = .ok (status, s')) : Still gen env s s' := by
  obtain ⟨r, _, ⟨_, _, rfl⟩ | ⟨_, _, rfl⟩ | ⟨_, _, hasks⟩⟩ := inactiveAbility_cases h
  · exact .refl _
  · exact .refl _
  · exact asks hasks

theorem toBackgroundAbility (h : s.toBackgroundAbility env t = .ok (status, s')) :
    Still gen env s s' := by
  obtain ⟨r, _, ⟨_, _, rfl⟩ | ⟨_, _, rfl⟩ | ⟨_, _, hasks⟩⟩ := toBackgroundAbility_cases h
  · exact .refl _
  · exact .refl _
  · exact asks hasks

theorem stopAbility (h : s.stopAbility env t = .ok (status, s')) : Still gen env s s' := by
  obtain ⟨r, _, ⟨_, _, rfl⟩ | ⟨_, _, rfl⟩ | ⟨_, _, hasks⟩⟩ := stopAbility_cases h
  · exact .refl _
  · exact .refl _
  · exact asks hasks

end Still

theorem Asks.transacted {state : State} (h : s.Asks env t state s') :
    ∃ r, s'.records t = some r ∧ r.transacted = true := by
  obtain ⟨r, a, hr, _, _, rfl⟩ := h
  exact ⟨r.transact, modify_self hr, rfl⟩

theorem activeAbility_transacted (h : s.activeAbility env t = .ok (status, s'))
    (hok : status.isOk = true) : ∃ r, s'.records t = some r ∧ r.transacted = true := by
  obtain ⟨r, _, ⟨_, hst, _⟩ | ⟨_, hst, _⟩ | ⟨_, _, s₁, hasks, rfl⟩⟩ := activeAbility_cases h
  · rw [isOk, hst] at hok
    cases hok
  · rw [isTransactError, decide_eq_true_eq] at hst
    rw [isOk, hst] at hok
    cases hok
  · obtain ⟨r₁, hr₁, htr⟩ := hasks.transacted
    exact ⟨_, modify_self hr₁, htr⟩

theorem inactiveAbility_transacted (h : s.inactiveAbility env t = .ok (status, s'))
    (hok : status.isOk = true) : ∃ r, s'.records t = some r ∧ r.transacted = true := by
  obtain ⟨r, _, ⟨_, hst, _⟩ | ⟨_, hst, _⟩ | ⟨_, _, hasks⟩⟩ := inactiveAbility_cases h
  · rw [isOk, hst] at hok
    cases hok
  · rw [isTransactError, decide_eq_true_eq] at hst
    rw [isOk, hst] at hok
    cases hok
  · exact hasks.transacted

theorem app_isSome_of_mem (app : AppRecord) (h : app ∈ s.appRecords) :
    (s.app app.identityId).isSome := by
  unfold AbilityMgr.app
  rw [List.find?_isSome]
  exact ⟨app, h, decide_eq_true rfl⟩

/-- The process record an ability waits for is there. -/
theorem startAppProcess_still {bundleInfo : BundleInfo} {o : Option Nat}
    (h : s.startAppProcess gen env bundleInfo = (o, s')) :
    Still gen env s s' ∧ s'.records = s.records ∧ ∀ a, o = some a → (s'.app a).isSome := by
  rcases startAppProcess_cases h with ⟨rfl, rfl | rfl⟩ | ⟨app, happ, rfl, rfl⟩ |
    ⟨pid, hnone, hname, rfl, rfl⟩
  · exact ⟨.refl _, rfl, fun _ h => (by cases h)⟩
  · exact ⟨.calm (.single (.tick s)), rfl, fun _ h => (by cases h)⟩
  · refine ⟨.refl _, rfl, fun a h => ?_⟩
    cases h
    exact app_isSome_of_mem app (getAppRecordByBundleName_mem happ).1
  · refine ⟨.calm (.single (.process s bundleInfo pid hname hnone)), rfl, fun a h => ?_⟩
    cases h
    exact app_isSome_of_mem { identityId := gen.generate s.generated, bundleInfo, pid }
      (List.mem_append_right _ (List.mem_singleton.mpr rfl))

theorem Kept.await : Kept s (s.await t a) := by
  have hrecord : Kept s (s.modify t fun r => (r.setAppRecord (some a)).accept) :=
    .modify fun _ => rfl
  exact hrecord.trans (.modifyApp _)

theorem startWith_still {first : Token → AbilityMgr → Result}
    (hfirst : ∀ status s₁, first t s = .ok (status, s₁) → Still gen env s s₁ ∧
      (status.isOk = true → ∃ r, s₁.records t = some r ∧ r.transacted = true))
    (h : s.startWith gen env first t = .ok (status, s')) : Still gen env s s' := by
  obtain ⟨r, hr, ⟨_, _, rfl | rfl⟩ | ⟨hnone, _, a, s₁, hstart, rfl⟩ | ⟨_, s₁, h₁, rfl⟩⟩ :=
    startWith_cases h
  · exact .refl _
  · exact .calm (.single (.tick s))
  · obtain ⟨hstill, hrecords, happ⟩ := startAppProcess_still hstart
    refine hstill.trans ⟨Kept.await, .single ?_⟩
    exact .await s₁ t r a (by rw [hrecords]; exact hr) hnone (happ a rfl)
  · obtain ⟨hstill, htransacted⟩ := hfirst status s₁ h₁
    split
    · next hok =>
      obtain ⟨r₁, hr₁, htr⟩ := htransacted hok
      exact hstill.trans ⟨.modify fun _ => rfl, .single (.accept s₁ t r₁ hr₁ htr)⟩
    · exact hstill

theorem startAbility_still (h : s.startAbility gen env t = .ok (status, s')) : Still gen env s s' :=
  startWith_still (fun _ _ h₁ => ⟨.activeAbility h₁, activeAbility_transacted h₁⟩) h

theorem startService_still (h : s.startService gen env t = .ok (status, s')) : Still gen env s s' :=
  startWith_still (fun _ _ h₁ => ⟨.inactiveAbility h₁, inactiveAbility_transacted h₁⟩) h

/-! ## What every task keeps -/

/-- The lists have their shape, and what is allocated was generated. -/
structure Sound (gen : TokenGenerate) (s : AbilityMgr) : Prop where
  shape : s.Shape
  known : Known gen s

/-- A chain of steps to a state whose lists have their shape. -/
structure Goes (gen : TokenGenerate) (env : Env) (s s' : AbilityMgr) : Prop where
  shape : s'.Shape
  steps : ReflTransGen (Step gen env) s s'

theorem Sound.goes (h : Sound gen s) (hg : Goes gen env s s') : Sound gen s' :=
  ⟨hg.shape, h.known.steps hg.steps⟩

theorem Goes.trans {s s' s'' : AbilityMgr} (h : Goes gen env s s') (h' : Goes gen env s' s'') :
    Goes gen env s s'' := ⟨h'.shape, h.steps.trans h'.steps⟩

theorem Sound.refl (h : Sound gen s) : Goes gen env s s := ⟨h.shape, .refl⟩

theorem Sound.still (h : Sound gen s) (hs : Still gen env s s') : Goes gen env s s' :=
  ⟨h.shape.of_kept hs.kept, hs.steps⟩

theorem Goes.still {s s' s'' : AbilityMgr} (h : Goes gen env s s') (hs : Still gen env s' s'') :
    Goes gen env s s'' := ⟨h.shape.of_kept hs.kept, h.steps.trans hs.steps⟩

theorem Sound.calm (h : Sound gen s) (hs : ReflTransGen (Calm gen env) s s') : Goes gen env s s' :=
  h.still (.calm hs)

theorem Sound.generatePageAbility {target : AbilityInfo} {want : Want} {topAbility page : Option Token}
    (h : Sound gen s) (hpage : target.abilityType ≠ .service)
    (hs : s.generatePageAbility gen target want topAbility = .ok (page, s')) : Goes gen env s s' :=
  ⟨h.shape.generatePageAbility h.known.fresh hpage hs, Quiet.steps (generatePageAbility_quiet hs)⟩

theorem Goes.removePageAbility {s s' s'' : AbilityMgr} (h : Goes gen env s s')
    (hs : s'.removePageAbility t = .ok s'') : Goes gen env s s'' :=
  ⟨h.shape.removePageAbility hs, h.steps.trans (Quiet.steps (removePageAbility_quiet hs))⟩

theorem Goes.removeServiceRecord {s s' s'' : AbilityMgr} (h : Goes gen env s s')
    (hs : s'.removeServiceRecord t = .ok s'') : Goes gen env s s'' :=
  ⟨h.shape.removeServiceRecord hs, h.steps.trans (Quiet.steps (removeServiceRecord_quiet hs))⟩

theorem startPageTask_goes {want : Want} {target : AbilityInfo} {bundleInfo : BundleInfo}
    (hs : Sound gen s) (hpage : target.abilityType ≠ .service)
    (h : s.startPageTask gen env want target bundleInfo = .ok (status, s')) : Goes gen env s s' := by
  have hset (t : Token) (s₁ : AbilityMgr) : Still gen env s₁ (s₁.modify t (·.setBundleInfo bundleInfo)) :=
    .edit fun r => mild_setBundleInfo r _
  cases startPageTask_cases h with
  | refused hgen _ => exact hs.generatePageAbility hpage hgen
  | givesWay hgen _ _ h₂ _ =>
    exact ((hs.generatePageAbility hpage hgen).still (hset _ _)).still
      ((Still.inactiveAbility h₂).trans ((Still.next _).trans (.prev _)))
  | stays hgen _ _ h₂ _ h₃ =>
    exact (((hs.generatePageAbility hpage hgen).still (hset _ _)).still
      (Still.inactiveAbility h₂)).removePageAbility h₃
  | starts hgen _ h₂ _ =>
    exact ((hs.generatePageAbility hpage hgen).still (hset _ _)).still (startAbility_still h₂)
  | fails hgen _ h₂ _ h₃ =>
    exact (((hs.generatePageAbility hpage hgen).still (hset _ _)).still
      (startAbility_still h₂)).removePageAbility h₃

theorem Shape.pushServiceRecord (h : s.Shape) {r : PageAbilityRecord} (hr : s.records t = some r)
    (hservice : r.isService = true) (hnew : t ∉ s.serviceRecords) : (s.pushServiceRecord t).Shape := by
  unfold AbilityMgr.pushServiceRecord
  split
  · exact h
  · refine ⟨h.ids, h.below, h.missions, fun st => ?_, fun st => ?_, fun p hp => ?_, ?_⟩
    · cases st
      · exact h.listed .launcher
      · exact h.listed .default
    · cases st
      · exact h.names .launcher
      · exact h.names .default
    · rcases List.mem_append.mp hp with hp | hp
      · exact h.services p hp
      · rw [List.mem_singleton.mp hp]
        exact ⟨r, hr, hservice⟩
    · refine List.nodup_append.mpr ⟨h.serviceNodup, List.pairwise_singleton _ _, fun p hp q hq => ?_⟩
      rw [List.mem_singleton.mp hq]
      exact fun he => hnew (he ▸ hp)

theorem Sound.newService {want : Want} {target : AbilityInfo} {bundleInfo : BundleInfo}
    {waitConnect : Bool} (h : Sound gen s) (hservice : target.abilityType = .service) :
    Goes gen env s (s.newService gen want target bundleInfo waitConnect) := by
  have hfresh := h.known.fresh
  have hcreate : Goes gen env s ((s.newPageAbility gen target want).2.modify
      (gen.generate s.generated) (setUp bundleInfo waitConnect)) :=
    Goes.still ⟨h.shape.newPageAbility hfresh, .single (.quiet (.create s target want))⟩
      (.edit (mild_setUp bundleInfo waitConnect))
  refine hcreate.trans ⟨?_, ?_⟩
  · refine hcreate.shape.pushServiceRecord (modify_self newPageAbility_self) ?_ ?_
    · unfold PageAbilityRecord.isService
      rw [(mild_setUp bundleInfo waitConnect _).abilityInfo]
      exact decide_eq_true hservice
    · exact fun hp => h.shape.fresh hfresh (.inr hp)
  · unfold AbilityMgr.newService AbilityMgr.pushServiceRecord
    split
    · exact .refl
    · exact Quiet.steps (quiet_lists ⟨rfl, rfl, rfl, rfl, rfl⟩)

theorem startServiceTask_goes {want : Want} {target : AbilityInfo} {bundleInfo : BundleInfo}
    {waitConnect : Bool} (hs : Sound gen s) (hservice : target.abilityType = .service)
    (h : s.startServiceTask gen env want target bundleInfo waitConnect = .ok (status, s')) :
    Goes gen env s s' := by
  obtain ⟨t, _, _, rfl⟩ | ⟨_, s₁, h₁, ⟨_, h₂⟩ | ⟨_, rfl⟩⟩ := startServiceTask_cases h
  · exact hs.refl
  · exact ((hs.newService hservice).still (startService_still h₁)).removeServiceRecord h₂
  · exact (hs.newService hservice).still (startService_still h₁)

theorem startTask_goes {want : Want} {target : AbilityInfo} {bundleInfo : BundleInfo}
    {waitConnect : Bool} (hs : Sound gen s)
    (h : s.startTask gen env want target bundleInfo waitConnect = .ok (status, s')) :
    Goes gen env s s' := by
  unfold startTask at h
  split at h
  · next hservice => exact startServiceTask_goes hs hservice h
  · next hpage => exact startPageTask_goes hs hpage h

theorem activateTask_still (h : s.activateTask env t = .ok (status, s')) : Still gen env s s' := by
  cases activateTask_cases h with
  | unknown => exact .refl _
  | service => exact .reach _
  | background _ _ _ _ h₁ => exact (Still.reach _).trans ((Still.toBackgroundAbility h₁).trans (.prev _))
  | stop _ _ _ _ _ h₁ => exact (Still.reach _).trans ((Still.stopAbility h₁).trans (.next _))
  | alone => exact .reach _

theorem connectAbility_still {r : PageAbilityRecord} (hr : s.records t = some r)
    (hservice : r.isService = true) (h : s.connectAbility env t = .ok (status, s')) :
    Still gen env s s' := .calm (connectAbility_calm hr hservice h)

theorem inactivateTask_still (h : s.inactivateTask gen env t = .ok (status, s')) :
    Still gen env s s' := by
  cases inactivateTask_cases h with
  | unknown => exact .refl _
  | connect _ hr hservice _ h₁ =>
    have hedit : Still gen env (s.modify t (·.setCurrentState .inactive))
        ((s.modify t (·.setCurrentState .inactive)).modify t (·.setConnectStatus .connecting)) :=
      .edit fun r => mild_setConnectStatus r _
    exact (Still.reach _).trans (hedit.trans
      (connectAbility_still (modify_self (modify_self hr)) hservice h₁))
  | service => exact .reach _
  | next _ _ _ _ h₁ => exact (Still.reach _).trans ((startAbility_still h₁).trans (.next _))
  | back _ _ _ _ _ h₁ => exact (Still.reach _).trans ((Still.activeAbility h₁).trans (.next _))
  | home _ _ _ _ _ h₁ => exact (Still.reach _).trans (Still.stopAbility h₁)

theorem backgroundTask_still (h : s.backgroundTask t = .ok (status, s')) : Still gen env s s' := by
  rcases backgroundTask_cases h with ⟨_, rfl⟩ | ⟨_, _, rfl⟩
  · exact .refl _
  · exact .reach _

theorem removeAppRecord_still (h : s.removeAppRecord a = .ok s') : Still gen env s s' := by
  obtain ⟨app, l, _, _, hsplit, _, rfl⟩ := removeAppRecord_cases h
  refine ⟨⟨⟨rfl, rfl, rfl, rfl, rfl, rfl⟩, fun _ => rfl⟩, .single (.drop s l ?_)⟩
  rw [hsplit]
  exact List.sublist_append_left l [app]

theorem Still.tell {m : Transaction} (hm : m.token = none) (hreach : s.Reaches env a m) :
    Still gen env s (s.send a m) := .calm (.single (.tell s a m hm hreach))

theorem exitApp_still (h : s.exitApp env t = .ok (status, s')) : Still gen env s s' := by
  obtain ⟨r, _, ⟨rfl, _⟩ | ⟨a, s₁, _, _, hreach, h₁, rfl⟩⟩ := exitApp_cases h
  · exact .refl _
  · exact (Still.tell rfl hreach).trans ((removeAppRecord_still h₁).trans
      ⟨.modify fun _ => rfl, .single (.forget s₁ t)⟩)

theorem ExitsIf.still {exits : Prop} (h : ExitsIf exits env t s s') : Still gen env s s' := by
  rcases h with ⟨_, status, h⟩ | ⟨_, rfl⟩
  · exact exitApp_still h
  · exact .refl _

theorem stopTask_goes (hs : Sound gen s) (h : s.stopTask env t = .ok (status, s')) :
    Goes gen env s s' := by
  cases stopTask_cases h with
  | unknown => exact hs.refl
  | stopped => exact hs.still (.reach _)
  | service _ _ _ _ h₁ h₂ h₃ =>
    exact (hs.still ((Still.reach _).trans
      ((Still.calm (stopAbilityDone_calm h₁)).trans h₂.still))).removeServiceRecord h₃
  | page _ _ _ _ h₁ h₂ => exact (hs.still ((Still.reach _).trans h₁.still)).removePageAbility h₂

theorem terminateTask_still (h : s.terminateTask env t = .ok (status, s')) : Still gen env s s' := by
  obtain ⟨_, rfl⟩ | ⟨_, r, hr, ⟨hservice, h₁⟩ | ⟨_, h₁⟩⟩ := terminateTask_cases h
  · exact .refl _
  · exact .calm (forceStopServiceAbility_calm hr hservice h₁)
  · exact .inactiveAbility h₁

theorem removeAppRecordByName_still (name : Option CString) :
    Still gen env s (s.removeAppRecordByName name) := by
  unfold removeAppRecordByName
  cases name with
  | none => exact .refl _
  | some name =>
    exact ⟨⟨⟨rfl, rfl, rfl, rfl, rfl, rfl⟩, fun _ => rfl⟩, .single (.drop s _ List.filter_sublist)⟩

theorem Resumes.still (h : Resumes env s s') : Still gen env s s' := by
  obtain ⟨_, rfl⟩ | ⟨top, status, _, h⟩ := h
  · exact .refl _
  · exact .activeAbility h

theorem Clears.goes {name : CString} (hs : Sound gen s) (h : Clears env name s s') :
    Goes gen env s s' := by
  obtain ⟨s₁, h₁, h₂⟩ := h
  obtain ⟨hshape, hquiet⟩ := clearAbilityStack_shape hs.shape h₁
  exact (Goes.mk hshape (Quiet.steps hquiet)).still ((removeAppRecordByName_still _).trans h₂.still)

theorem appTerminateTask_goes {name : CString} (hs : Sound gen s)
    (h : s.appTerminateTask env name = .ok (status, s')) : Goes gen env s s' := by
  cases appTerminateTask_cases h with
  | refused => exact hs.refl
  | alone _ h₁ => exact h₁.goes hs
  | exits _ hreach h₁ =>
    have htell := hs.still (Still.tell rfl hreach)
    exact htell.trans (h₁.goes (hs.goes htell))

theorem appRestartTask_goes {bundleInfo : BundleInfo} (hs : Sound gen s)
    (h : s.appRestartTask env bundleInfo = .ok (status, s')) : Goes gen env s s' := by
  obtain ⟨_, _, rfl⟩ | ⟨name, _, h₁⟩ := appRestartTask_cases h
  · exact hs.refl
  · exact h₁.goes hs

theorem launchPendingAbility_still (h : s.launchPendingAbility env a = .ok (status, s')) :
    Still gen env s s' := by
  obtain ⟨app, _, ⟨_, _, rfl⟩ | ⟨t, r, s₁, _, _, h₁, rfl⟩⟩ := launchPendingAbility_cases h
  · exact .refl _
  · refine Still.trans ?_ ⟨.modifyApp _, .single (.launched s₁ a)⟩
    rcases h₁ with ⟨_, h₁⟩ | ⟨_, h₁⟩
    · exact .inactiveAbility h₁
    · exact .activeAbility h₁

theorem attachTask_still {client : AbilityThreadClient}
    (h : s.attachTask env client = .ok (status, s')) : Still gen env s s' := by
  have hclient (app : AppRecord) :
      Still gen env s (s.modifyApp app.identityId (·.setClient client)) :=
    ⟨.modifyApp _, .single (.client s _ client)⟩
  cases attachTask_cases h with
  | unknown => exact .refl _
  | unwatched => exact hclient _
  | denied _ hexit h₁ =>
    rcases hexit with rfl | ⟨hreach, rfl⟩
    · exact (hclient _).trans (removeAppRecord_still h₁)
    · exact (hclient _).trans ((Still.tell rfl hreach).trans (removeAppRecord_still h₁))
  | launches _ hm hreach h₁ =>
    exact (hclient _).trans ((Still.tell hm hreach).trans (launchPendingAbility_still h₁))

/-! ## Services -/

theorem findServiceRecordByName_mem {bundleName name : Option CString}
    (h : s.findServiceRecordByName bundleName name = some t) :
    t ∈ s.serviceRecords ∧ ∃ r, s.records t = some r ∧ r.abilityInfo.bundleName = bundleName ∧
      r.abilityInfo.name = name := by
  unfold findServiceRecordByName at h
  split at h
  · cases h
  · have hmem := List.mem_of_find?_eq_some h
    have hs : s.isService bundleName name t = true := List.find?_some h
    unfold isService at hs
    split at hs
    · cases hs
    · next r hr =>
      rw [Bool.and_eq_true, beq_iff_eq, beq_iff_eq] at hs
      exact ⟨hmem, r, hr, hs.1, hs.2⟩

theorem findServiceRecordByClient_mem {sid : SvcIdentity} {token : Token}
    (h : s.findServiceRecordByClient sid token = some t) : t ∈ s.serviceRecords :=
  List.mem_of_find?_eq_some h

/-- A service whose connections are on the way out. -/
def Leaving (r : PageAbilityRecord) : Prop :=
  r.connectStatus = .disconnecting ∨ r.connectStatus = .disconnect ∨
    r.connectStatus = .stopping ∨ r.connectStatus = .stopped

/-- What a connect does with its client: it is found, or it is added. -/
def Joins (t : Token) (sid : SvcIdentity) (token : Token) (r : PageAbilityRecord)
    (s s' : AbilityMgr) : Prop :=
  ((r.getConnectRecord sid).isSome ∧ s' = s) ∨
    (r.getConnectRecord sid = none ∧ s' = s.modify t (·.pushConnectRecord ⟨sid, token, .connecting⟩))

theorem performConnectTask_cases {sid : SvcIdentity} {token : Token}
    (h : s.performConnectTask env t sid token = .ok (status, s')) :
    ∃ r, s.records t = some r ∧ ((Leaving r ∧ s' = s) ∨
      ∃ s₁, ¬ Leaving r ∧ Joins t sid token r s s₁ ∧
        ((r.connectStatus = .init ∧ r.currentState = .uninitialized ∧
            s' = s₁.modify t (·.setConnectStatus .waitConnect)) ∨
          (r.connectStatus = .init ∧ r.currentState ≠ .uninitialized ∧
            (s₁.modify t (·.setConnectStatus .connecting)).connectAbility env t = .ok (status, s')) ∨
          (r.connectStatus = .connected ∧ (s' = s₁ ∨ s₁.connectAbilityDone env t = .ok (status, s'))) ∨
          ((r.connectStatus = .waitConnect ∨ r.connectStatus = .connecting) ∧ s' = s₁))) := by
  simp only [performConnectTask, bind_eq_ok, record_eq_ok] at h
  obtain ⟨r, hr, h⟩ := h
  refine ⟨r, hr, ?_⟩
  split at h
  · next hleaving =>
    cases h
    exact .inl ⟨hleaving, rfl⟩
  · next hleaving =>
    refine .inr ?_
    have hrest (s₁ : AbilityMgr) (client : Option AbilityConnectRecord) (hjoin : Joins t sid token r s s₁)
        (hinit : r.connectStatus = .init → (if r.currentState = .uninitialized then
            .ok (.ok, s₁.modify t (·.setConnectStatus .waitConnect))
          else (s₁.modify t (·.setConnectStatus .connecting)).connectAbility env t) =
          (.ok (status, s') : Result))
        (hconnected : r.connectStatus = .connected →
          (if (client.map (·.status)).getD .connecting = .connecting then s₁.connectAbilityDone env t
            else .ok (.ok, s₁)) = (.ok (status, s') : Result))
        (hwait : r.connectStatus = .waitConnect ∨ r.connectStatus = .connecting →
          (.ok (.ok, s₁) : Result) = .ok (status, s')) :
        ∃ s₁, ¬ Leaving r ∧ Joins t sid token r s s₁ ∧
        ((r.connectStatus = .init ∧ r.currentState = .uninitialized ∧
            s' = s₁.modify t (·.setConnectStatus .waitConnect)) ∨
          (r.connectStatus = .init ∧ r.currentState ≠ .uninitialized ∧
            (s₁.modify t (·.setConnectStatus .connecting)).connectAbility env t = .ok (status, s')) ∨
          (r.connectStatus = .connected ∧ (s' = s₁ ∨ s₁.connectAbilityDone env t = .ok (status, s'))) ∨
          ((r.connectStatus = .waitConnect ∨ r.connectStatus = .connecting) ∧ s' = s₁)) := by
      refine ⟨s₁, hleaving, hjoin, ?_⟩
      cases hst : r.connectStatus with
      | init =>
        have h := hinit hst
        split at h
        · next hun =>
          cases h
          exact .inl ⟨rfl, hun, rfl⟩
        · next hun => exact .inr (.inl ⟨rfl, hun, h⟩)
      | connected =>
        have h := hconnected hst
        split at h
        · exact .inr (.inr (.inl ⟨rfl, .inr h⟩))
        · cases h
          exact .inr (.inr (.inl ⟨rfl, .inl rfl⟩))
      | waitConnect =>
        cases hwait (.inl hst)
        exact .inr (.inr (.inr ⟨.inl rfl, rfl⟩))
      | connecting =>
        cases hwait (.inr hst)
        exact .inr (.inr (.inr ⟨.inr rfl, rfl⟩))
      | disconnecting => exact absurd (.inl hst) hleaving
      | disconnect => exact absurd (.inr (.inl hst)) hleaving
      | stopping => exact absurd (.inr (.inr (.inl hst))) hleaving
      | stopped => exact absurd (.inr (.inr (.inr hst))) hleaving
    cases hc : r.getConnectRecord sid with
    | some c =>
      rw [hc] at h
      refine hrest s (some c) (.inl ⟨by rw [hc]; rfl, rfl⟩) (fun hst => ?_) (fun hst => ?_) ?_
      · rwa [hst] at h
      · rwa [hst] at h
      · rintro (hst | hst) <;> rwa [hst] at h
    | none =>
      rw [hc] at h
      refine hrest _ none (.inr ⟨hc, rfl⟩) (fun hst => ?_) (fun hst => ?_) ?_
      · rwa [hst] at h
      · rwa [hst] at h
      · rintro (hst | hst) <;> rwa [hst] at h

theorem performConnectTask_calm {sid : SvcIdentity} {token : Token} {r : PageAbilityRecord}
    (hr : s.records t = some r) (hservice : r.isService = true)
    (h : s.performConnectTask env t sid token = .ok (status, s')) :
    ReflTransGen (Calm gen env) s s' := by
  obtain ⟨r', hr', ⟨_, rfl⟩ | ⟨s₁, _, hjoin, hrest⟩⟩ := performConnectTask_cases h
  · exact .refl
  rw [hr] at hr'
  cases hr'
  have hpush : ReflTransGen (Calm gen env) s s₁ ∧ ∃ r₁, s₁.records t = some r₁ ∧ r₁.isService = true := by
    rcases hjoin with ⟨_, rfl⟩ | ⟨_, rfl⟩
    · exact ⟨.refl, r, hr, hservice⟩
    · refine ⟨calm_edit fun r => mild_pushConnectRecord r _, _, modify_self hr, ?_⟩
      unfold PageAbilityRecord.isService
      rw [(mild_pushConnectRecord r _).abilityInfo]
      exact hservice
  obtain ⟨hcalm, r₁, hr₁, hservice₁⟩ := hpush
  refine hcalm.trans ?_
  rcases hrest with ⟨_, _, rfl⟩ | ⟨_, _, h⟩ | ⟨_, rfl | h⟩ | ⟨_, rfl⟩
  · exact calm_edit fun r => mild_setConnectStatus r _
  · have hedit : ReflTransGen (Calm gen env) s₁ (s₁.modify t (·.setConnectStatus .connecting)) :=
      calm_edit fun r => mild_setConnectStatus r _
    exact hedit.trans (connectAbility_calm (modify_self hr₁) hservice₁ h)
  · exact .refl
  · exact connectAbilityDone_calm h
  · exact .refl

theorem connectTask_calm {want : Want} {sid : SvcIdentity} {token : Token} (hs : Sound gen s)
    (h : s.connectTask env want sid token = .ok (status, s')) : ReflTransGen (Calm gen env) s s' := by
  unfold connectTask at h
  split at h
  · cases h
    exact .refl
  · split at h
    · cases h
      exact .refl
    · next t ht =>
      simp only [bind_eq_ok, record_eq_ok] at h
      obtain ⟨r, hr, h⟩ := h
      split at h
      · cases h
        exact .refl
      · have hmem := (findServiceRecordByName_mem ht).1
        exact performConnectTask_calm hr (hs.shape.allServices t hmem r hr) h

theorem findServiceAbility_mem {p : Token} (h : s.findServiceAbility t = some p) :
    p = t ∧ t ∈ s.serviceRecords := findServiceRecord_eq_some.mp h

theorem connectDoneTask_calm {sid : SvcIdentity}
    (h : s.connectDoneTask env sid t = .ok (status, s')) : ReflTransGen (Calm gen env) s s' := by
  unfold connectDoneTask at h
  split at h
  · cases h
    exact .refl
  · next p hp =>
    simp only [bind_eq_ok, record_eq_ok] at h
    obtain ⟨r, _, h⟩ := h
    split at h
    · cases h
      exact .refl
    · simp only [bind_eq_ok] at h
      obtain ⟨⟨st, s₁⟩, h₁, h⟩ := h
      cases h
      exact (calm_edit fun r => mild_setServiceSid r _).trans
        ((connectAbilityDone_calm h₁).trans (calm_edit fun r => mild_setConnectStatus r _))

theorem disconnectTask_calm {sid : SvcIdentity} {token : Token} (hs : Sound gen s)
    (h : s.disconnectTask env sid token = .ok (status, s')) : ReflTransGen (Calm gen env) s s' := by
  unfold disconnectTask at h
  split at h
  · cases h
    exact .refl
  · next t ht =>
    obtain ⟨r, hr, hservice⟩ := hs.shape.services t (findServiceRecordByClient_mem ht)
    exact disconnectAbility_calm hr hservice h

theorem disconnectDoneTask_calm (hs : Sound gen s)
    (h : s.disconnectDoneTask env t = .ok (status, s')) : ReflTransGen (Calm gen env) s s' := by
  unfold disconnectDoneTask at h
  split at h
  · cases h
    exact .refl
  · next p hp =>
    obtain ⟨rfl, hmem⟩ := findServiceAbility_mem hp
    simp only [bind_eq_ok, record_eq_ok] at h
    obtain ⟨r, hr, h⟩ := h
    split at h
    · cases h
      exact .refl
    · exact disconnectAbilityDone_calm hr (hs.shape.allServices p hmem r hr) h

theorem terminateServiceTask_goes {target : AbilityInfo} (hs : Sound gen s)
    (h : s.terminateServiceTask env target = .ok (status, s')) : Goes gen env s s' := by
  unfold terminateServiceTask at h
  split at h
  · cases h
    exact hs.refl
  · next t ht =>
    simp only [bind_eq_ok, record_eq_ok] at h
    obtain ⟨r, hr, h⟩ := h
    split at h
    · simp only [bind_eq_ok] at h
      obtain ⟨s₁, h₁, h⟩ := h
      cases h
      exact hs.refl.removeServiceRecord h₁
    · have hmem := (findServiceRecordByName_mem ht).1
      exact hs.calm (forceStopServiceAbility_calm hr (hs.shape.allServices t hmem r hr) h)

/-! ## Messages -/

theorem Still.notify {sid : SvcIdentity} {m : Callback} : Still gen env s (s.notify env sid m) := by
  unfold AbilityMgr.notify
  split
  · exact .calm (.single (.callback s _))
  · exact .refl _

theorem handleStartAbility_cases {want : Want} {uid : Int} {code : ErrCode}
    (h : s.handleStartAbility gen env want uid = .ok (code, s')) :
    s' = s ∨ ∃ e target bundleInfo status, want.element = some e ∧
      env.queryBundleInfo e.bundleName = some bundleInfo ∧ env.queryAbilityInfo want = some target ∧
      checkVisiblePermission env uid bundleInfo.uid target.isVisible = true ∧
      s.startTask gen env want target bundleInfo false = .ok (status, s') := by
  unfold handleStartAbility at h
  split at h
  · cases h
    exact .inl rfl
  · next e he =>
    split at h
    · cases h
      exact .inl rfl
    · next bundleInfo hb =>
      split at h
      · cases h
        exact .inl rfl
      · next target ht =>
        simp only [bind_eq_ok, workerStartAbility] at h
        obtain ⟨⟨status, s₁⟩, h₁, h⟩ := h
        cases h
        split at h₁
        · next hvisible => exact .inr ⟨e, target, bundleInfo, status, he, hb, ht, hvisible, h₁⟩
        · cases h₁
          exact .inl rfl

theorem handleStartAbility_goes {want : Want} {uid : Int} {code : ErrCode} (hs : Sound gen s)
    (h : s.handleStartAbility gen env want uid = .ok (code, s')) : Goes gen env s s' := by
  obtain rfl | ⟨_, _, _, _, _, _, _, _, h₁⟩ := handleStartAbility_cases h
  · exact hs.refl
  · exact startTask_goes hs h₁

theorem startAbilityMsg_cases {want : Want} {uid : Int}
    (h : s.startAbilityMsg gen env want uid = .ok s') :
    ∃ code s₁, s.handleStartAbility gen env want uid = .ok (code, s₁) ∧
      s' = s₁.startAbilityCallback env want code := by
  simp only [startAbilityMsg, bind_eq_ok] at h
  obtain ⟨⟨code, s₁⟩, h₁, h⟩ := h
  cases h
  exact ⟨code, s₁, h₁, rfl⟩

theorem startAbilityMsg_goes {want : Want} {uid : Int} (hs : Sound gen s)
    (h : s.startAbilityMsg gen env want uid = .ok s') : Goes gen env s s' := by
  obtain ⟨code, s₁, h₁, rfl⟩ := startAbilityMsg_cases h
  refine (handleStartAbility_goes hs h₁).still ?_
  unfold startAbilityCallback
  split
  · exact .refl _
  · split
    · exact .refl _
    · exact .notify

theorem startLauncher_cases (h : s.startLauncher gen env = .ok s') :
    ∃ code, s.handleStartAbility gen env launcherWant systemUid = .ok (code, s') := by
  simp only [startLauncher, bind_eq_ok] at h
  obtain ⟨⟨code, s₁⟩, h₁, h⟩ := h
  cases h
  exact ⟨code, h₁⟩

theorem startKeepAliveApp_cases {bundleInfo : BundleInfo}
    (h : s.startKeepAliveApp gen env bundleInfo = .ok s') :
    s' = s ∨ ∃ want code, keepAliveWant bundleInfo = some want ∧
      s.handleStartAbility gen env want systemUid = .ok (code, s') := by
  unfold startKeepAliveApp at h
  split at h
  · cases h
    exact .inl rfl
  · next want hwant =>
    simp only [bind_eq_ok] at h
    obtain ⟨⟨code, s₁⟩, h₁, h⟩ := h
    cases h
    exact .inr ⟨want, code, hwant, h₁⟩

/-- A reply is handled by the task of the state it reports, and may start the launcher. -/
theorem transactionMsg_cases {state : TransactionState}
    (h : s.transactionMsg gen env state = .ok s') :
    ∃ status s₁, s.workerAbilityTransaction gen env state = .ok (status, s₁) ∧
      ((status.isNoActiveAbility = false ∧ s' = s₁) ∨
        (status.isNoActiveAbility = true ∧ s₁.startLauncher gen env = .ok s')) := by
  simp only [transactionMsg, bind_eq_ok] at h
  obtain ⟨⟨status, s₁⟩, h₁, h⟩ := h
  refine ⟨status, s₁, h₁, ?_⟩
  dsimp only at h
  split at h
  · next hno => exact .inr ⟨hno, h⟩
  · next hno =>
    cases h
    exact .inl ⟨Bool.eq_false_iff.mpr hno, rfl⟩

theorem workerAbilityTransaction_goes {state : TransactionState} (hs : Sound gen s)
    (h : s.workerAbilityTransaction gen env state = .ok (status, s')) : Goes gen env s s' := by
  unfold workerAbilityTransaction at h
  split at h
  · exact hs.still (backgroundTask_still h)
  · exact hs.still (inactivateTask_still h)
  · exact hs.still (activateTask_still h)
  · exact stopTask_goes hs h
  · cases h
    exact hs.refl

theorem startLauncher_goes (hs : Sound gen s) (h : s.startLauncher gen env = .ok s') :
    Goes gen env s s' := by
  obtain ⟨_, h₁⟩ := startLauncher_cases h
  exact handleStartAbility_goes hs h₁

theorem transactionMsg_goes {state : TransactionState} (hs : Sound gen s)
    (h : s.transactionMsg gen env state = .ok s') : Goes gen env s s' := by
  obtain ⟨status, s₁, h₁, ⟨_, rfl⟩ | ⟨_, h₂⟩⟩ := transactionMsg_cases h
  · exact workerAbilityTransaction_goes hs h₁
  · have hg := workerAbilityTransaction_goes hs h₁
    exact hg.trans (startLauncher_goes (hs.goes hg) h₂)

/-- The death of a bundle: it is cleared away, the launcher may be started, and so may an
application that is kept alive. -/
theorem restartAppMsg_cases {name : CString} (h : s.restartAppMsg gen env name = .ok s') :
    (env.queryBundleInfo (some name) = none ∧ s' = s) ∨
      ∃ bundleInfo status s₁ s₂, env.queryBundleInfo (some name) = some bundleInfo ∧
        s.appRestartTask env bundleInfo = .ok (status, s₁) ∧
        ((status.isNoActiveAbility = false ∧ s₂ = s₁) ∨
          (status.isNoActiveAbility = true ∧ s₁.startLauncher gen env = .ok s₂)) ∧
        ((isLauncherAbility bundleInfo.bundleName = false ∧ bundleInfo.isSystemApp = true ∧
            bundleInfo.isKeepAlive = true ∧ s₂.startKeepAliveApp gen env bundleInfo = .ok s') ∨
          s' = s₂) := by
  unfold restartAppMsg at h
  split at h
  · next hnone =>
    cases h
    exact .inl ⟨hnone, rfl⟩
  · next bundleInfo hb =>
    simp only [bind_eq_ok] at h
    obtain ⟨⟨status, s₁⟩, h₁, h⟩ := h
    have hkeep (s₂ : AbilityMgr) (h : (if ((!isLauncherAbility bundleInfo.bundleName) = true ∧
          bundleInfo.isSystemApp = true ∧ bundleInfo.isKeepAlive = true) then
        s₂.startKeepAliveApp gen env bundleInfo else .ok s₂) = .ok s') :
        (isLauncherAbility bundleInfo.bundleName = false ∧ bundleInfo.isSystemApp = true ∧
            bundleInfo.isKeepAlive = true ∧ s₂.startKeepAliveApp gen env bundleInfo = .ok s') ∨
          s' = s₂ := by
      split at h
      · next hc =>
        rw [Bool.not_eq_true'] at hc
        exact .inl ⟨hc.1, hc.2.1, hc.2.2, h⟩
      · cases h
        exact .inr rfl
    dsimp only at h
    split at h
    · next hno =>
      simp only [bind_eq_ok] at h
      obtain ⟨s₂, h₂, h⟩ := h
      exact .inr ⟨bundleInfo, status, s₁, s₂, hb, h₁, .inr ⟨hno, h₂⟩, hkeep s₂ h⟩
    · next hno =>
      simp only [bind_eq_ok] at h
      obtain ⟨s₂, h₂, h⟩ := h
      cases h₂
      exact .inr ⟨bundleInfo, status, s₁, _, hb, h₁, .inl ⟨Bool.eq_false_iff.mpr hno, rfl⟩,
        hkeep _ h⟩

theorem restartAppMsg_goes {name : CString} (hs : Sound gen s)
    (h : s.restartAppMsg gen env name = .ok s') : Goes gen env s s' := by
  obtain ⟨_, rfl⟩ | ⟨bundleInfo, status, s₁, s₂, _, h₁, hlauncher, hkeep⟩ := restartAppMsg_cases h
  · exact hs.refl
  have hg₁ := appRestartTask_goes hs h₁
  have hg₂ : Goes gen env s s₂ := by
    rcases hlauncher with ⟨_, rfl⟩ | ⟨_, h₂⟩
    · exact hg₁
    · exact hg₁.trans (startLauncher_goes (hs.goes hg₁) h₂)
  rcases hkeep with ⟨_, _, _, h₃⟩ | rfl
  · obtain rfl | ⟨want, code, _, h₃⟩ := startKeepAliveApp_cases h₃
    · exact hg₂
    · exact hg₂.trans (handleStartAbility_goes (hs.goes hg₂) h₃)
  · exact hg₂

/-- A connect starts the service first, if it is not there. -/
theorem handleConnectAbility_cases {want : Want} {sid : SvcIdentity} {token : Token} {uid : Int}
    {code : ErrCode} (h : s.handleConnectAbility gen env want sid token uid = .ok (code, s')) :
    s' = s ∨ ∃ e bundleInfo target s₁, want.element = some e ∧
      env.queryBundleInfo e.bundleName = some bundleInfo ∧ env.queryAbilityInfo want = some target ∧
      ((s.findServiceRecordByName e.bundleName e.abilityName ≠ none ∧ s₁ = s) ∨
        (s.findServiceRecordByName e.bundleName e.abilityName = none ∧
          checkVisiblePermission env uid bundleInfo.uid target.isVisible = true ∧ ∃ status,
          s.startTask gen env want target bundleInfo true = .ok (status, s₁))) ∧
      (s' = s₁ ∨ ∃ status, s₁.connectTask env want sid token = .ok (status, s')) := by
  unfold handleConnectAbility at h
  split at h
  · cases h
    exact .inl rfl
  · next e he =>
    split at h
    · cases h
      exact .inl rfl
    · next bundleInfo hb =>
      split at h
      · cases h
        exact .inl rfl
      · next target ht =>
        simp only [bind_eq_ok, workerConnectAbility] at h
        obtain ⟨⟨status, s₀⟩, h₁, h⟩ := h
        cases h
        split at h₁
        · next hvisible =>
          have hrest (status₁ : AbilityMsStatus) (s₁ : AbilityMgr) (x : Result)
              (h : (if (!status₁.isOk) = true then .ok (status₁, s₁) else x) =
                (.ok (status, s₀) : Result))
              (hx : x = .ok (taskStatus "connect" "generate ability record failure", s₁) ∨
                x = s₁.connectTask env want sid token) :
              s₀ = s₁ ∨ ∃ status, s₁.connectTask env want sid token = .ok (status, s₀) := by
            split at h
            · cases h
              exact .inl rfl
            · rcases hx with rfl | rfl
              · cases h
                exact .inl rfl
              · exact .inr ⟨status, h⟩
          refine .inr ⟨e, bundleInfo, target, ?_⟩
          split at h₁
          · next t hf =>
            simp only [bind_eq_ok] at h₁
            obtain ⟨⟨status₁, s₁⟩, h₂, h₁⟩ := h₁
            cases h₂
            refine ⟨_, he, hb, ht, .inl ⟨by rw [hf]; exact Option.some_ne_none t, rfl⟩, ?_⟩
            refine hrest _ _ _ h₁ ?_
            split
            · exact .inl rfl
            · exact .inr rfl
          · next hf =>
            simp only [bind_eq_ok] at h₁
            obtain ⟨⟨status₁, s₁⟩, h₂, h₁⟩ := h₁
            refine ⟨s₁, he, hb, ht, .inr ⟨hf, hvisible, status₁, h₂⟩, hrest _ _ _ h₁ ?_⟩
            split
            · exact .inl rfl
            · exact .inr rfl
        · cases h₁
          exact .inl rfl

theorem connectAbilityMsg_cases {want : Want} {sid : SvcIdentity} {token : Token} {uid : Int}
    (h : s.connectAbilityMsg gen env want sid token uid = .ok s') :
    ∃ code s₁, s.handleConnectAbility gen env want sid token uid = .ok (code, s₁) ∧
      (s' = s₁ ∨ s' = s₁.notify env sid .connectFail) := by
  simp only [connectAbilityMsg, bind_eq_ok] at h
  obtain ⟨⟨code, s₁⟩, h₁, h⟩ := h
  refine ⟨code, s₁, h₁, ?_⟩
  cases h
  split
  · exact .inl rfl
  · exact .inr rfl

theorem connectAbilityMsg_goes {want : Want} {sid : SvcIdentity} {token : Token} {uid : Int}
    (hs : Sound gen s) (h : s.connectAbilityMsg gen env want sid token uid = .ok s') :
    Goes gen env s s' := by
  obtain ⟨code, s₁, h₁, hnotify⟩ := connectAbilityMsg_cases h
  have hg : Goes gen env s s₁ := by
    obtain rfl | ⟨e, bundleInfo, target, s₂, _, _, _, hstart, hconnect⟩ :=
      handleConnectAbility_cases h₁
    · exact hs.refl
    have hg₂ : Goes gen env s s₂ := by
      rcases hstart with ⟨_, rfl⟩ | ⟨_, _, status, h₂⟩
      · exact hs.refl
      · exact startTask_goes hs h₂
    rcases hconnect with rfl | ⟨status, h₃⟩
    · exact hg₂
    · exact hg₂.still (.calm (connectTask_calm (hs.goes hg₂) h₃))
  rcases hnotify with rfl | rfl
  · exact hg
  · exact hg.still .notify

/-- The service that a want names, for a caller that may see it. -/
def Targets (env : Env) (want : Want) (uid : Int) (target : AbilityInfo) : Prop :=
  ∃ e bundleInfo, want.element = some e ∧ env.queryBundleInfo e.bundleName = some bundleInfo ∧
    env.queryAbilityInfo want = some target ∧
    checkVisiblePermission env uid bundleInfo.uid target.isVisible = true

theorem terminateServiceMsg_cases {want : Want} {uid : Int}
    (h : s.terminateServiceMsg env want uid = .ok s') :
    s' = s ∨ ∃ target status, Targets env want uid target ∧
      s.terminateServiceTask env target = .ok (status, s') := by
  unfold terminateServiceMsg at h
  split at h
  · cases h
    exact .inl rfl
  · next e he =>
    split at h
    · cases h
      exact .inl rfl
    · next bundleInfo hinfo =>
      split at h
      · cases h
        exact .inl rfl
      · next target ht =>
        simp only [bind_eq_ok, workerTerminateService] at h
        obtain ⟨⟨status, s₁⟩, h₁, h⟩ := h
        cases h
        split at h₁
        · next hvisible =>
          exact .inr ⟨target, status, ⟨e, bundleInfo, he, hinfo, ht, hvisible⟩, h₁⟩
        · cases h₁
          exact .inl rfl

theorem replyMsg_goes {r : Reply} (hs : Sound gen s) (h : s.replyMsg gen env r = .ok s') :
    Goes gen env s s' := by
  cases r with
  | lifecycleDone state => exact transactionMsg_goes hs h
  | connectDone sid token =>
    simp only [replyMsg, bind_eq_ok] at h
    obtain ⟨⟨status, s₁⟩, h₁, h⟩ := h
    cases h
    exact hs.calm (connectDoneTask_calm h₁)
  | disconnectDone token =>
    simp only [replyMsg, bind_eq_ok] at h
    obtain ⟨⟨status, s₁⟩, h₁, h⟩ := h
    cases h
    exact hs.calm (disconnectDoneTask_calm hs h₁)

theorem requestMsg_goes {e : Event} (hs : Sound gen s) (h : s.requestMsg gen env e = .ok s') :
    Goes gen env s s' := by
  cases e with
  | startAbility want uid => exact startAbilityMsg_goes hs h
  | terminateAbility token =>
    simp only [requestMsg, bind_eq_ok] at h
    obtain ⟨⟨status, s₁⟩, h₁, h⟩ := h
    cases h
    exact hs.still (terminateTask_still h₁)
  | attachBundle client =>
    simp only [requestMsg, bind_eq_ok] at h
    obtain ⟨⟨status, s₁⟩, h₁, h⟩ := h
    cases h
    exact hs.still (attachTask_still h₁)
  | connectAbility want sid token uid => exact connectAbilityMsg_goes hs h
  | disconnectAbility sid token =>
    simp only [requestMsg, bind_eq_ok] at h
    obtain ⟨⟨status, s₁⟩, h₁, h⟩ := h
    cases h
    exact hs.calm (disconnectTask_calm hs h₁)
  | terminateService want uid =>
    obtain rfl | ⟨target, status, _, h₁⟩ := terminateServiceMsg_cases h
    · exact hs.refl
    · exact terminateServiceTask_goes hs h₁
  | terminateApp name =>
    simp only [requestMsg, bind_eq_ok] at h
    obtain ⟨⟨status, s₁⟩, h₁, h⟩ := h
    cases h
    exact appTerminateTask_goes hs h₁
  | restartApp name => exact restartAppMsg_goes hs h
  | reply a =>
    cases h
    exact hs.refl
  | perform a sid =>
    cases h
    exact hs.refl

end AbilityMgr
end AbilityLite.Ams
