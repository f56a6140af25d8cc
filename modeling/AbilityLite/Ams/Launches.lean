import AbilityLite.Ams.Processes

/-
  No accepted launch is lost, in every run in which an ability is made to wait only for a
  free process and a process that attaches is set up.

  `StartAbility` and `StartService` answer Ok for an ability that waits for its process.
  The process record has one place for an ability that waits, and takes what waits there
  only as the process attaches. Plain steps lose nothing. What may lose a launch is a page
  whose turn comes after its bundle got a process, an attach that fails half-way, and the
  death of a process that meanwhile has a record again.
-/

namespace AbilityLite.Ams
open AbilityMsStatus Fallible Relation

namespace PageAbilityRecord

/-- A lifecycle transaction was sent for the ability, or it is a page that has reported a state. -/
def Launched (r : PageAbilityRecord) : Prop :=
  r.transacted = true ∨ (r.isService = false ∧ r.currentState ≠ .uninitialized)

end PageAbilityRecord

namespace AbilityMgr
variable {gen : TokenGenerate} {env : Env} {s s' : AbilityMgr} {t : Token} {a : Nat}
  {status : AbilityMsStatus}

/-- The process record has not attached, and the ability is what it launches then. -/
def Waits (s : AbilityMgr) (t : Token) (r : PageAbilityRecord) : Prop :=
  ∃ app ∈ s.appRecords, app.abilityThreadClient = none ∧ app.pendingAbilityRecord = some t ∧
    r.appRecord = some app.identityId

/-- Every accepted launch has gone out or waits for its process. -/
def NoneLost (s : AbilityMgr) : Prop :=
  ∀ t r, s.records t = some r → r.accepted = true → r.Launched ∨ s.Waits t r

/-! ## Plain steps -/

/-- A record that is accepted only where it was or has been sent a transaction, and is launched if it
was. -/
structure Onward (r r' : PageAbilityRecord) : Prop where
  accepted : r'.accepted = true → r.accepted = true ∨ r'.transacted = true
  launched : r.Launched → r'.Launched
  appRecord : r'.appRecord = r.appRecord

theorem onward_of_mild {r r' : PageAbilityRecord} (h : Mild r r') : Onward r r' := by
  refine ⟨fun ha => .inl (h.accepted ▸ ha), ?_, h.appRecord⟩
  rintro (htr | ⟨hpage, hst⟩)
  · exact .inl (h.transacted htr)
  · refine .inr ⟨?_, h.currentState ▸ hst⟩
    unfold PageAbilityRecord.isService at hpage ⊢
    rw [h.abilityInfo]
    exact hpage

theorem onward_transact (r : PageAbilityRecord) : Onward r r.transact :=
  ⟨fun _ => .inr rfl, fun _ => .inl rfl, rfl⟩

/-- What is set does not concern the launch. -/
theorem onward_of_same {r r' : PageAbilityRecord} (ha : r'.accepted = r.accepted)
    (ht : r'.transacted = r.transacted) (hinfo : r'.abilityInfo = r.abilityInfo)
    (hst : r.currentState ≠ .uninitialized → r'.currentState ≠ .uninitialized)
    (happ : r'.appRecord = r.appRecord) : Onward r r' := by
  refine ⟨fun h => .inl (ha ▸ h), ?_, happ⟩
  rintro (htr | ⟨hpage, hr⟩)
  · exact .inl (ht.trans htr)
  · refine .inr ⟨?_, hst hr⟩
    unfold PageAbilityRecord.isService at hpage ⊢
    rw [hinfo]
    exact hpage

namespace NoneLost

/-- The records move on, and what waits goes on waiting. -/
theorem of_onward (h : s.NoneLost)
    (hrecords : ∀ t r', s'.records t = some r' →
      (∃ r, s.records t = some r ∧ Onward r r') ∨ r'.accepted = false)
    (happs : ∀ app ∈ s.appRecords, ∀ t, app.pendingAbilityRecord = some t → (s'.records t).isSome →
      ∃ app' ∈ s'.appRecords, app'.identityId = app.identityId ∧
        app'.abilityThreadClient = app.abilityThreadClient ∧ app'.pendingAbilityRecord = some t) :
    s'.NoneLost := by
  intro t r' hr' haccepted
  rcases hrecords t r' hr' with ⟨r, hr, honward⟩ | hnot
  · rcases honward.accepted haccepted with hacc | htr
    · rcases h t r hr hacc with hlaunched | ⟨app, happ, hclient, hpending, hbound⟩
      · exact .inl (honward.launched hlaunched)
      · obtain ⟨app', happ', hid, hclient', hpending'⟩ := happs app happ t hpending (by rw [hr']; rfl)
        refine .inr ⟨app', happ', hclient'.trans hclient, hpending', ?_⟩
        rw [honward.appRecord, hbound, hid]
    · exact .inl (.inl htr)
  · rw [haccepted] at hnot
    cases hnot

/-- Nothing changed but fields that do not concern the launch. -/
theorem same (h : s.NoneLost) (hrecords : s'.records = s.records) (happs : s'.appRecords = s.appRecords) :
    s'.NoneLost := by
  refine h.of_onward (fun t r' hr' => .inl ⟨r', hrecords ▸ hr', ?_⟩) fun app happ t hp _ => ?_
  · exact ⟨.inl, id, rfl⟩
  · exact ⟨app, happs ▸ happ, rfl, rfl, hp⟩

theorem modify (h : s.NoneLost) {f : PageAbilityRecord → PageAbilityRecord}
    (hf : ∀ r, s.records t = some r → Onward r (f r)) : (s.modify t f).NoneLost := by
  refine h.of_onward (fun u r' hr' => .inl ?_) fun app happ u hp _ => ⟨app, happ, rfl, rfl, hp⟩
  obtain ⟨r, hr, ⟨rfl, rfl⟩ | ⟨_, rfl⟩⟩ := Store.modify_cases hr'
  · exact ⟨r, hr, hf r hr⟩
  · exact ⟨r', hr, .inl, id, rfl⟩

theorem send (h : s.NoneLost) (m : Transaction) : (s.send a m).NoneLost := by
  cases m with
  | lifecycle state want type =>
    have htransact : (s.modify state.token (·.transact)).NoneLost := h.modify fun r _ => onward_transact r
    exact htransact.same rfl rfl
  | _ => exact h.same rfl rfl

/-- What is deleted waits nowhere else, and the rest goes on waiting. -/
theorem delete (h : s.NoneLost) (hd : s.delete t = .ok s') : s'.NoneLost := by
  obtain ⟨r, hr, ⟨ha, rfl⟩ | ⟨a, app, ha, happ, rfl⟩⟩ := delete_cases hd
  · refine h.of_onward (fun u r' hr' => .inl ?_) fun app happ u hp _ => ⟨app, happ, rfl, rfl, hp⟩
    exact ⟨r', (Store.erase_cases hr').2, .inl, id, rfl⟩
  · refine h.of_onward (fun u r' hr' => .inl ?_) fun app' happ' u hp hu => ?_
    · exact ⟨r', (Store.erase_cases hr').2, .inl, id, rfl⟩
    · obtain ⟨r', hr'⟩ := Option.isSome_iff_exists.mp hu
      have hne : u ≠ t := (Store.erase_cases hr').1
      refine ⟨_, List.mem_map_of_mem happ', ?_⟩
      split
      · have hkeeps : app'.clearPendingAbility t = app' := by
          unfold AppRecord.clearPendingAbility
          rw [if_neg]
          rw [hp]
          exact fun he => hne (Option.some.inj he)
        show (app'.clearPendingAbility t).identityId = _ ∧ (app'.clearPendingAbility t).abilityThreadClient =
          _ ∧ (app'.clearPendingAbility t).pendingAbilityRecord = _
        rw [hkeeps]
        exact ⟨rfl, rfl, hp⟩
      · exact ⟨rfl, rfl, hp⟩

theorem calm (h : s.NoneLost) (hc : Calm gen env s s') : s'.NoneLost := by
  cases hc with
  | tick => exact h.same rfl rfl
  | process bundleInfo pid hname hnone =>
    refine h.of_onward (fun t r' hr' => .inl ⟨r', hr', .inl, id, rfl⟩) fun app happ t hp _ => ?_
    exact ⟨app, List.mem_append_left _ happ, rfl, rfl, hp⟩
  | edit t f hf => exact h.modify fun r _ => onward_of_mild (hf r)
  | ask t r a m => exact h.send m
  | tell a m => exact h.send m
  | callback l => exact h.same rfl rfl

theorem quiet (h : s.NoneLost) (hq : Quiet gen env s s') : s'.NoneLost := by
  cases hq with
  | calm hc => exact h.calm hc
  | create info want =>
    refine h.of_onward (fun u r' hr' => ?_) fun app happ t hp _ => ⟨app, happ, rfl, rfl, hp⟩
    by_cases hu : u = gen.generate s.generated
    · subst hu
      have hnew := (Store.insert_same s.records _).symm.trans hr'
      cases hnew
      exact .inr rfl
    · exact .inl ⟨r', (Store.insert_ne _ _ hu).symm.trans hr', .inl, id, rfl⟩
  | place t id => exact h.modify fun r _ => onward_of_same rfl rfl rfl (fun h => h) rfl
  | reach t r hr hservice st =>
    refine h.modify fun r' hr' => ⟨.inl, ?_, rfl⟩
    rw [hr] at hr'
    cases hr'
    rintro (htr | ⟨hpage, -⟩)
    · exact .inl htr
    · rw [hservice] at hpage
      cases hpage
  | accept t r hr _ htransacted =>
    refine h.modify fun r' hr' => ⟨fun _ => .inr ?_, id, rfl⟩
    rw [hr] at hr'
    cases hr'
    exact htransacted
  | delete _ t hd => exact h.delete hd
  | shelve hl => exact h.same hl.records hl.appRecords

/-- A process exits that has attached, so nothing waits for it. -/
theorem exit {r : PageAbilityRecord} {s₁ : AbilityMgr} (h : s.NoneLost) (hk : Known gen s)
    (hr : s.records t = some r) (ha : r.appRecord = some a) (hclient : s.Reaches env a .appExit)
    (hremove : s.removeAppRecord a = .ok s₁) : (s₁.modify t (·.setAppRecord none)).NoneLost := by
  obtain ⟨app, happ, hattached, -⟩ := hclient
  obtain ⟨gone, l, hgone, -, hsplit, -, rfl⟩ := removeAppRecord_cases hremove
  rw [happ] at hgone
  cases hgone
  intro u r' hr' haccepted
  obtain ⟨old, hold, hcase⟩ := Store.modify_cases hr'
  have hacc : old.accepted = true := by
    rcases hcase with ⟨-, rfl⟩ | ⟨-, rfl⟩ <;> exact haccepted
  rcases h u old hold hacc with hlaunched | ⟨app', happ', hnone, hpending, hbound⟩
  · refine .inl ?_
    rcases hcase with ⟨-, rfl⟩ | ⟨-, rfl⟩ <;> exact hlaunched
  · -- what waits for a process does not wait for this one
    have hne : app' ≠ app := by
      rintro rfl
      rw [hnone] at hattached
      cases hattached
    have hkept : app' ∈ l := by
      rw [hsplit, List.mem_append, List.mem_singleton] at happ'
      exact happ'.resolve_right hne
    have hother : u ≠ t := by
      rintro rfl
      rw [hr] at hold
      cases hold
      rw [ha] at hbound
      have hsame : s.app a = some app' := by
        rw [Option.some.inj hbound]
        exact hk.app_of_mem happ'
      rw [happ] at hsame
      exact hne (Option.some.inj hsame).symm
    rcases hcase with ⟨rfl, -⟩ | ⟨-, rfl⟩
    · exact absurd rfl hother
    · exact .inr ⟨app', hkept, hnone, hpending, hbound⟩

/-- A plain step loses no launch. -/
theorem plain (h : s.NoneLost) (hk : Known gen s) (hp : Plain gen env q s s') : s'.NoneLost := by
  cases hp with
  | quiet hq => exact h.quiet hq
  | reach t hst _ => exact h.modify fun r _ => onward_of_same rfl rfl rfl (fun _ => hst) rfl
  | next t o => exact h.modify fun r _ => onward_of_same rfl rfl rfl (fun h => h) rfl
  | prev t o => exact h.modify fun r _ => onward_of_same rfl rfl rfl (fun h => h) rfl
  | ask t r a m => exact h.send m
  | accept t r hr htransacted =>
    refine h.modify fun r' hr' => ⟨fun _ => .inr ?_, id, rfl⟩
    rw [hr] at hr'
    cases hr'
    exact htransacted
  | exit t r a s₁ hr ha hclient _ hremove => exact h.exit hk hr ha hclient hremove

theorem plains (h : s.NoneLost) (hk : Known gen s) (hp : Plains gen env q s s') : s'.NoneLost := by
  have hboth : Known gen s' ∧ s'.NoneLost := by
    refine keeps (p := fun x => Known gen x ∧ x.NoneLost) ?_ hp ⟨hk, h⟩
    intro x y hxy ⟨hkx, hx⟩
    exact ⟨hkx.steps hxy.steps, hx.plain hkx hxy⟩
  exact hboth.2

/-- An ability waits for a process that is free. -/
theorem await (h : s.NoneLost) (hk : Known gen s) {r : PageAbilityRecord} {app : AppRecord}
    (hr : s.records t = some r) (happ : s.app app.identityId = some app)
    (hclient : app.abilityThreadClient = none) (hpending : app.pendingAbilityRecord = none) :
    (s.await t app.identityId).NoneLost := by
  have hmem := app_mem happ
  intro u r' hr' haccepted
  obtain ⟨old, hold, ⟨rfl, rfl⟩ | ⟨hu, rfl⟩⟩ := Store.modify_cases hr'
  · refine .inr ⟨app.setPendingAbility (some u), ?_, hclient, rfl, rfl⟩
    refine List.mem_map.mpr ⟨app, hmem, ?_⟩
    rw [if_pos rfl]
  · rcases h u r' hold haccepted with hlaunched | ⟨app', happ', hclient', hpending', hbound⟩
    · exact .inl hlaunched
    · refine .inr ⟨app', List.mem_map.mpr ⟨app', happ', if_neg fun hid => ?_⟩, hclient', hpending', hbound⟩
      have hsame := hk.app_of_mem happ'
      rw [hid, happ] at hsame
      cases hsame
      rw [hpending] at hpending'
      cases hpending'

/-- A process record for which nothing waits may change. -/
theorem modifyApp (h : s.NoneLost) {f : AppRecord → AppRecord}
    (hfree : ∀ app ∈ s.appRecords, app.identityId = a → app.abilityThreadClient = none →
      ∀ t r, app.pendingAbilityRecord = some t → s.records t = some r → r.Launched) :
    (s.modifyApp a f).NoneLost := by
  intro t r hr haccepted
  rcases h t r hr haccepted with hlaunched | ⟨app, happ, hclient, hpending, hbound⟩
  · exact .inl hlaunched
  · by_cases he : app.identityId = a
    · exact .inl (hfree app happ he hclient t r hpending hr)
    · exact .inr ⟨app, List.mem_map.mpr ⟨app, happ, if_neg he⟩, hclient, hpending, hbound⟩

/-- Process records for which nothing waits may go. -/
theorem drop (h : s.NoneLost) {l : List AppRecord}
    (hfree : ∀ app ∈ s.appRecords, app ∉ l → app.abilityThreadClient = none →
      app.pendingAbilityRecord = none) : ({ s with appRecords := l } : AbilityMgr).NoneLost := by
  intro t r hr haccepted
  rcases h t r hr haccepted with hlaunched | ⟨app, happ, hclient, hpending, hbound⟩
  · exact .inl hlaunched
  · by_cases hl : app ∈ l
    · exact .inr ⟨app, hl, hclient, hpending, hbound⟩
    · rw [hfree app happ hl hclient] at hpending
      cases hpending

end NoneLost

/-! ## Starting -/

/-- The bundle has no process record, or one that has not attached and that nothing waits for. -/
def ProcessFree (s : AbilityMgr) (name : Option CString) : Prop :=
  ∀ app, s.getAppRecordByBundleName name = some app →
    app.abilityThreadClient = none ∧ app.pendingAbilityRecord = none

instance {name : Option CString} : Decidable (s.ProcessFree name) :=
  match h : s.getAppRecordByBundleName name with
  | none => .isTrue fun app happ => by rw [h] at happ; cases happ
  | some app =>
    if hfree : app.abilityThreadClient = none ∧ app.pendingAbilityRecord = none then
      .isTrue fun app' happ => by rw [h] at happ; cases happ; exact hfree
    else .isFalse fun hall => hfree (hall app h)

theorem NoneLost.startsWith (h : s.NoneLost) (hk : Known gen s)
    (hfree : ∀ r, s.records t = some r → r.appRecord = none → s.ProcessFree r.bundleInfo.bundleName)
    (hstart : StartsWith gen env q t s s') : s'.NoneLost := by
  cases hstart with
  | plain hp => exact h.plains hk hp
  | @waits r app s₁ hr ha hplain hrecords happ hprocess =>
    have h₁ : s₁.NoneLost := h.plains hk hplain
    have hk₁ : Known gen s₁ := hplain.moves.known hk
    have hempty : app.abilityThreadClient = none ∧ app.pendingAbilityRecord = none := by
      rcases hprocess with ⟨-, hfound⟩ | hnew
      · exact hfree r hr ha app hfound
      · exact hnew
    exact h₁.await hk₁ (hrecords ▸ hr) happ hempty.1 hempty.2

section
variable {target : AbilityInfo} {want : Want} {bundleInfo : BundleInfo} {waitConnect : Bool}
  {s₁ : AbilityMgr}

/-- A page that is brought up is new and has the process record of its bundle, or it was there before. -/
theorem Finds.process {top r : Option PageAbilityRecord} {st : StackType} {page : Option Token} {id : Nat}
    (h : Finds gen target want top st s page id s') (hpage : page = some t) (hr : s'.records t = r) :
    (∃ new, r = some new ∧
        new.appRecord = (s.getAppRecordByBundleName target.bundleName).map (·.identityId)) ∨
      s.records t = r := by
  have hnew (id : Nat) : ((s.newPageAbility gen target want).2.modify (gen.generate s.generated)
      (·.setMissionRecord id)).records (gen.generate s.generated) = some (PageAbilityRecord.setMissionRecord {
        abilityInfo := target, want := want.copy
        appRecord := (s.getAppRecordByBundleName target.bundleName).map (·.identityId) } id) :=
    modify_self (Store.insert_same _ _)
  cases h with
  | mission _ hmission =>
    obtain ⟨rfl, rfl, _, rfl, rfl⟩ := newMission_cases hmission
    cases hpage
    exact .inl ⟨_, hr.symm.trans ((congrFun records_pushTop _).trans (hnew _)), rfl⟩
  | page _ _ hmove =>
    obtain ⟨l, -, rfl⟩ := moveMissionRecordToTop_cases hmove
    exact .inr ((congrFun (onlyLists_setStack l).records t).symm.trans hr)
  | newPage _ _ hnewPage hmove =>
    obtain ⟨rfl, _, rfl, rfl⟩ := newPage_cases hnewPage
    obtain ⟨l, -, rfl⟩ := moveMissionRecordToTop_cases hmove
    cases hpage
    exact .inl ⟨_, hr.symm.trans ((congrFun (onlyLists_setStack l).records _).trans (hnew _)), rfl⟩

/-- The ability that a start starts at once has the process record of its bundle, or it is a page that is
brought up again. -/
theorem Brings.process (hk : Known gen s) (h : Brings gen want target bundleInfo waitConnect s t s₁) :
    s₁.appRecords = s.appRecords ∧ ∀ r, s₁.records t = some r → r.bundleInfo = bundleInfo ∧
      (r.appRecord = (s.getAppRecordByBundleName target.bundleName).map (·.identityId) ∨
        (target.abilityType ≠ .service ∧ s.getTopPageAbility = none ∧
          s.broughtAgain target want = some t ∧
          ∃ old, s.records t = some old ∧ r.appRecord = old.appRecord)) := by
  cases h with
  | page hpage htop hgen =>
    have happs := (generatePageAbility_others hgen).2
    refine ⟨happs, fun r hr => ?_⟩
    obtain ⟨r₁, hr₁, ⟨-, rfl⟩ | ⟨hne, -⟩⟩ := Store.modify_cases hr
    · refine ⟨rfl, ?_⟩
      obtain ⟨-, hno, -⟩ | ⟨-, id, s₂, s₃, hf, hlink, rfl⟩ := generatePageAbility_cases hgen
      · cases hno
      have hr₂ : s₂.records t = some r₁ := by
        rcases hlink with ⟨rfl, -⟩ | ⟨m, -, -, -, rfl⟩
        · exact hr₁
        · exact hr₁
      rcases hf.process rfl hr₂ with ⟨new, hnew, hprocess⟩ | hold
      · cases hnew
        exact .inl hprocess
      · rw [← htop] at hgen
        rcases generatePageAbility_page hgen with ⟨-, rfl, -⟩ | ⟨hagain, -, -⟩
        · rw [hk.fresh] at hold
          cases hold
        · exact .inr ⟨hpage, htop, hagain, r₁, hold, rfl⟩
    · exact absurd rfl hne
  | service hservice hnone =>
    have hpush : ∀ x : AbilityMgr, (x.pushServiceRecord (gen.generate s.generated)).appRecords =
        x.appRecords ∧ (x.pushServiceRecord (gen.generate s.generated)).records = x.records := by
      intro x
      unfold pushServiceRecord
      split <;> exact ⟨rfl, rfl⟩
    refine ⟨(hpush _).1, fun r hr => ?_⟩
    have hset := (congrFun (hpush _).2 (gen.generate s.generated)).symm.trans hr
    obtain ⟨new, hnew, ⟨-, rfl⟩ | ⟨hne, -⟩⟩ := Store.modify_cases hset
    · have hsame := (Store.insert_same s.records _).symm.trans hnew
      cases hsame
      unfold setUp
      split <;> exact ⟨rfl, .inl rfl⟩
    · exact absurd rfl hne

/-- A start makes nothing wait for a process that is taken: the process of the bundle is free, or the
ability is new and so is the process it waits for. -/
def StartsFree (s : AbilityMgr) (env : Env) (want : Want) (uid : Int) : Prop :=
  ∀ target bundleInfo, Names env want uid target bundleInfo →
    s.ProcessFree bundleInfo.bundleName ∨
      (target.bundleName = bundleInfo.bundleName ∧
        (target.abilityType ≠ .service → s.getTopPageAbility = none → ∀ t r,
          s.broughtAgain target want = some t → s.records t = some r → r.appRecord ≠ none))

theorem processFree_congr {name : Option CString} (h : s'.appRecords = s.appRecords) :
    s'.ProcessFree name ↔ s.ProcessFree name := by
  unfold ProcessFree getAppRecordByBundleName
  rw [h]

theorem NoneLost.startTask (h : s.NoneLost) (hk : Known gen s) {uid : Int}
    (hfree : s.StartsFree env want uid) (hnames : Names env want uid target bundleInfo)
    (hstart : s.startTask gen env want target bundleInfo waitConnect = .ok (status, s')) :
    s'.NoneLost := by
  have hstarting : Starting gen env (fun _ _ => True) want target bundleInfo waitConnect s s' :=
    startTask_starting hk hstart
  cases hstarting with
  | plain hp => exact h.plains hk hp
  | @starts t s₁ s₂ s₃ h₁ h₂ h₃ =>
    have hplain : Plains gen env (fun _ _ => True) s s₁ := h₁.plains
    have hk₁ : Known gen s₁ := hplain.moves.known hk
    obtain ⟨happs, hprocess⟩ := h₁.process hk
    have hstarted : s₂.NoneLost := by
      refine (h.plains hk hplain).startsWith hk₁ (fun r hr hnone => ?_) h₂
      obtain ⟨hinfo, hbound⟩ := hprocess r hr
      rw [hinfo, processFree_congr happs]
      rcases hfree target bundleInfo hnames with hfree | ⟨hsame, hagain⟩
      · exact hfree
      · rcases hbound with hnew | ⟨hpage, htop, hbrought, old, hold, hkept⟩
        · -- a new ability has no process record where its bundle has none
          rw [hnone, eq_comm, Option.map_eq_none_iff, hsame] at hnew
          intro app happ
          rw [hnew] at happ
          cases happ
        · exact absurd (hkept.symm.trans hnone) (hagain hpage htop t old hbrought hold)
    exact hstarted.plains (h₂.moves.known hk₁) h₃

end

/-! ## Replies -/

/-- The page that waits for this one to give way has its process record, or finds a free one. -/
def YieldsFree (s : AbilityMgr) (t : Token) : Prop :=
  ∀ r next page, s.records t = some r → r.isService = false → r.nextPageAbility = some next →
    s.records next = some page → page.appRecord = none → s.ProcessFree page.bundleInfo.bundleName

theorem NoneLost.inactivateTask (h : s.NoneLost) (hk : Known gen s) (hfree : s.YieldsFree t)
    (htask : s.inactivateTask gen env t = .ok (status, s')) : s'.NoneLost := by
  have hreach : Plains gen env (fun _ _ => True) s (s.modify t (·.setCurrentState .inactive)) :=
    plains_reach (by decide) trivial
  obtain ⟨_, rfl⟩ | ⟨_, hyields⟩ := inactivateTask_yields (q := fun _ _ => True) hk htask
  · exact h
  cases hyields with
  | plain hp => exact h.plains hk (hreach.trans hp)
  | @next r next s₁ hr hpage hnext hstart =>
    have hstarted : s₁.NoneLost := by
      refine (h.plains hk hreach).startsWith (hreach.moves.known hk) (fun page hp hnone => ?_) hstart
      obtain ⟨old, hold, ⟨-, rfl⟩ | ⟨-, rfl⟩⟩ := Store.modify_cases hp
      · exact hfree r next old hr hpage hnext hold hnone
      · exact hfree r next page hr hpage hnext hold hnone
    exact hstarted.modify fun r _ => onward_of_same rfl rfl rfl (fun h => h) rfl

/-! ## Attaching -/

/-- A process attaches for which the ability waits: it can be watched and gets its permissions, it is told
what it runs, and the ability's first transaction goes out. -/
structure AttachGoes (env : Env) (client : AbilityThreadClient) (app : AppRecord) (t : Token)
    (r : PageAbilityRecord) : Prop where
  watched : env.addDeathRecipient client.svcIdentity = true
  permitted : env.loadPermissions app.bundleInfo = none
  code : app.bundleInfo.codePath ≠ none
  modules : app.bundleInfo.moduleInfos.length ≤ maxModuleSize
  init : env.sends app.identityId (.appInit app.bundleInfo) = true
  want : env.serializes r.want = true
  first : env.sends app.identityId (.lifecycle ⟨t, if r.isService then .inactive else .active⟩ r.want
    r.abilityInfo.abilityType) = true

/-- What waits for the process that attaches is launched. -/
def AttachesGo (s : AbilityMgr) (env : Env) (client : AbilityThreadClient) : Prop :=
  ∀ app t r, s.getAppRecordByToken client.token client.pid = some app →
    app.pendingAbilityRecord = some t → s.records t = some r → AttachGoes env client app t r

theorem appInitTransaction_sent {app : AppRecord} (happ : s.app a = some app)
    (hclient : app.abilityThreadClient.isSome) (hname : app.bundleInfo.bundleName.isSome)
    (hcode : app.bundleInfo.codePath ≠ none) (hmodules : app.bundleInfo.moduleInfos.length ≤ maxModuleSize)
    (hsends : env.sends a (.appInit app.bundleInfo) = true) :
    s.appInitTransaction env a = .ok (.ok, s.send a (.appInit app.bundleInfo)) := by
  obtain ⟨c, hc⟩ := Option.isSome_iff_exists.mp hclient
  have happ' : s.appRecord a = .ok app := appRecord_eq_ok.mpr happ
  have hvalid : ¬ (app.bundleInfo.bundleName = none ∨ app.bundleInfo.codePath = none ∨
      maxModuleSize < app.bundleInfo.moduleInfos.length) := by
    rintro (h | h | h)
    · rw [h] at hname
      cases hname
    · exact hcode h
    · exact absurd h (Nat.not_lt.mpr hmodules)
  unfold appInitTransaction
  rw [happ']
  simp only [bind, Except.bind, hc, if_neg hvalid, hsends, if_true]

theorem abilityTransaction_sent {app : AppRecord} {state : TransactionState} {want : Want}
    {type : AbilityType} (happ : s.app a = some app) (hclient : app.abilityThreadClient.isSome)
    (hwant : env.serializes want = true) (hsends : env.sends a (.lifecycle state want type) = true) :
    s.abilityTransaction env a state want type = .ok (.ok, s.send a (.lifecycle state want type)) := by
  obtain ⟨c, hc⟩ := Option.isSome_iff_exists.mp hclient
  have happ' : s.appRecord a = .ok app := appRecord_eq_ok.mpr happ
  unfold abilityTransaction transact
  rw [happ']
  simp only [bind, Except.bind, hc, hwant, hsends, if_true]

/-- What a launch leaves: the ability has been sent a transaction, nothing waits for the process, and the
rest is as it was. -/
structure LaunchedIn (a : Nat) (t : Token) (s s' : AbilityMgr) : Prop where
  others : ∀ u, u ≠ t → s'.records u = s.records u
  transacted : ∀ r, s'.records t = some r → r.transacted = true
  apps : ∀ app ∈ s.appRecords, app.identityId ≠ a → app ∈ s'.appRecords

theorem NoneLost.launched (h : s.NoneLost) (hk : Known gen s) {app : AppRecord} (hmem : app ∈ s.appRecords)
    (hpending : app.pendingAbilityRecord = some t) (hlaunched : LaunchedIn app.identityId t s s') :
    s'.NoneLost := by
  intro u r hr haccepted
  by_cases hu : u = t
  · subst hu
    exact .inl (.inl (hlaunched.transacted r hr))
  · rw [hlaunched.others u hu] at hr
    rcases h u r hr haccepted with hl | ⟨app', happ', hclient, hpending', hbound⟩
    · exact .inl hl
    · refine .inr ⟨app', hlaunched.apps app' happ' fun hid => ?_, hclient, hpending', hbound⟩
      have hsame := hk.app_of_mem happ'
      rw [hid, hk.app_of_mem hmem] at hsame
      cases hsame
      rw [hpending] at hpending'
      exact hu (Option.some.inj hpending').symm

theorem loadPermission_none {app : AppRecord} (happ : s.app a = some app)
    (hnone : env.loadPermissions app.bundleInfo = none) : s.loadPermission env a = .ok (.ok, s) := by
  unfold loadPermission
  rw [appRecord_eq_ok.mpr happ]
  simp only [bind, Except.bind, hnone]

/-- The process record after the attach, and the transaction that sets the process up. -/
def afterAttach (s : AbilityMgr) (client : AbilityThreadClient) (app : AppRecord) : AbilityMgr :=
  (s.modifyApp app.identityId (·.setClient client)).send app.identityId (.appInit app.bundleInfo)

/-- An attach that is not refused goes on to launch what waits. -/
theorem attachTask_afterAttach {client : AbilityThreadClient} {app : AppRecord} {r : PageAbilityRecord}
    (hk : Known gen s) (hone : s.OneProcess)
    (hfound : s.getAppRecordByToken client.token client.pid = some app)
    (hgoes : AttachGoes env client app t r) :
    s.attachTask env client = (s.afterAttach client app).launchPendingAbility env app.identityId := by
  have hmem := getAppRecordByToken_mem hfound
  have happ := app_setClient client (hk.app_of_mem hmem)
  obtain ⟨status, hset, hwatched⟩ :=
    setAbilityThreadClient_ok env client (hk.app_of_mem hmem) (hone.named app hmem)
  have hload := loadPermission_none happ hgoes.permitted
  have hinit := appInitTransaction_sent happ rfl (hone.named app hmem) hgoes.code hgoes.modules hgoes.init
  unfold attachTask
  rw [hfound]
  simp only [bind, Except.bind, hset, hwatched, hgoes.watched, hload, hinit, isOk_ok, Bool.not_true,
    Bool.false_eq_true, if_false]
  rfl

/-- The ability that waits is launched: a service is made inactive, a page active. -/
theorem launchPendingAbility_launches {app : AppRecord} {r : PageAbilityRecord} (happ : s.app a = some app)
    (hclient : app.abilityThreadClient.isSome) (hpending : app.pendingAbilityRecord = some t)
    (hr : s.records t = some r) (hbound : r.appRecord = some a)
    (hstate : r.isService = true ∨ r.currentState ≠ .active) (hwant : env.serializes r.want = true)
    (hfirst : env.sends a (.lifecycle ⟨t, if r.isService then .inactive else .active⟩ r.want
      r.abilityInfo.abilityType) = true)
    (h : s.launchPendingAbility env a = .ok (status, s')) : LaunchedIn a t s s' := by
  obtain ⟨app', happ', ⟨hnone, -⟩ | ⟨u, r', s₁, hpending', hr', hlaunch, rfl⟩⟩ := launchPendingAbility_cases h
  · rw [happ] at happ'
    cases happ'
    rw [hpending] at hnone
    cases hnone
  rw [happ] at happ'
  cases happ'
  rw [hpending] at hpending'
  cases hpending'
  rw [hr] at hr'
  cases hr'
  -- either way the transaction goes out
  have hsent : ∃ st, s₁ = s.send a (.lifecycle ⟨t, st⟩ r.want r.abilityInfo.abilityType) ∨
      s₁ = (s.send a (.lifecycle ⟨t, st⟩ r.want r.abilityInfo.abilityType)).modify t (·.freeSid) := by
    have hrec : s.record t = .ok r := record_eq_ok.mpr hr
    rcases hlaunch with ⟨hservice, hinactive⟩ | ⟨hpage, hactive⟩
    · rw [hservice, if_pos rfl] at hfirst
      have htype : r.abilityInfo.abilityType = .service := of_decide_eq_true hservice
      unfold inactiveAbility transactState at hinactive
      rw [hrec] at hinactive
      simp only [bind, Except.bind, htype, ne_eq, not_true_eq_false, and_false, if_false, hbound] at hinactive
      rw [htype] at hfirst
      rw [abilityTransaction_sent happ hclient hwant hfirst] at hinactive
      cases hinactive
      exact ⟨.inactive, .inl (htype ▸ rfl)⟩
    · rw [hpage, if_neg Bool.false_ne_true] at hfirst
      have hst : r.currentState ≠ .active := hstate.resolve_left fun hs => by rw [hpage] at hs; cases hs
      unfold activeAbility at hactive
      rw [hrec] at hactive
      simp only [bind, Except.bind, if_neg hst, hbound] at hactive
      rw [abilityTransaction_sent happ hclient hwant hfirst] at hactive
      cases hactive
      exact ⟨.active, .inr rfl⟩
  obtain ⟨st, hs₁⟩ := hsent
  have hothers (u : Token) (hu : u ≠ t) : s₁.records u = s.records u := by
    rcases hs₁ with rfl | rfl
    · exact Store.modify_ne _ _ hu
    · exact (Store.modify_ne _ _ hu).trans (Store.modify_ne _ _ hu)
  have htransacted : ∃ r', s₁.records t = some r' ∧ r'.transacted = true := by
    have hmodified : (s.send a (.lifecycle ⟨t, st⟩ r.want r.abilityInfo.abilityType)).records t =
        some r.transact := modify_self hr
    rcases hs₁ with rfl | rfl
    · exact ⟨_, hmodified, rfl⟩
    · exact ⟨_, modify_self hmodified, rfl⟩
  have happs : s₁.appRecords = s.appRecords := by
    rcases hs₁ with rfl | rfl <;> rfl
  refine ⟨hothers, fun r' hr' => ?_, fun app' happ' hne => ?_⟩
  · obtain ⟨r₁, hr₁, htr⟩ := htransacted
    have hsame : s₁.records t = some r' := hr'
    rw [hr₁] at hsame
    cases hsame
    exact htr
  · have hmem : app' ∈ s₁.appRecords := happs ▸ happ'
    exact List.mem_map.mpr ⟨app', hmem, if_neg hne⟩

/-- Where the process has attached, nothing is lost by a launch. -/
theorem NoneLost.launchPendingAbility (h : s.NoneLost) (hk : Known gen s) {app : AppRecord}
    (happ : s.app a = some app) (hclient : app.abilityThreadClient.isSome)
    (hlaunch : s.launchPendingAbility env a = .ok (status, s')) : s'.NoneLost := by
  obtain ⟨_, _, ⟨_, _, rfl⟩ | ⟨t, r, s₁, _, _, h₁, rfl⟩⟩ := launchPendingAbility_cases hlaunch
  · exact h
  have hplain : Plains gen env (fun _ _ => True) s s₁ := by
    rcases h₁ with ⟨_, h₁⟩ | ⟨_, h₁⟩
    · exact inactiveAbility_plains h₁
    · exact activeAbility_plains h₁
  have happs : s₁.appRecords = s.appRecords := by
    rcases h₁ with ⟨_, h₁⟩ | ⟨_, h₁⟩
    · obtain ⟨_, _, ⟨_, _, rfl⟩ | ⟨_, _, rfl⟩ | ⟨_, _, _, _, _, _, _, rfl⟩⟩ := inactiveAbility_cases h₁ <;> rfl
    · obtain ⟨_, _, ⟨_, _, rfl⟩ | ⟨_, _, rfl | rfl⟩ | ⟨_, _, _, ⟨_, _, _, _, _, rfl⟩, rfl⟩⟩ :=
        activeAbility_cases h₁ <;> rfl
  refine (h.plains hk hplain).modifyApp fun app' happ' hid hnone => ?_
  have hsame := hk.app_of_mem (happs ▸ happ')
  rw [hid, happ] at hsame
  cases hsame
  rw [hnone] at hclient
  cases hclient

theorem NoneLost.setClient (client : AbilityThreadClient) (h : s.NoneLost) (hk : Known gen s)
    {app : AppRecord} (hmem : app ∈ s.appRecords)
    (hfree : ∀ t r, app.pendingAbilityRecord = some t → s.records t = some r → r.Launched) :
    (s.modifyApp app.identityId (·.setClient client)).NoneLost := by
  refine h.modifyApp fun app' happ' hid _ => ?_
  have hsame := hk.app_of_mem happ'
  rw [hid, hk.app_of_mem hmem] at hsame
  cases hsame
  exact hfree

/-- An attach loses no launch if it goes through where an ability waits. -/
theorem NoneLost.attachTask {client : AbilityThreadClient} (h : s.NoneLost) (hk : Known gen s)
    (hone : s.OneProcess) (hwaits : s.WaitsBound) (hgo : s.AttachesGo env client)
    (htask : s.attachTask env client = .ok (status, s')) : s'.NoneLost := by
  cases hfound : s.getAppRecordByToken client.token client.pid with
  | none =>
    unfold AbilityMgr.attachTask at htask
    rw [hfound] at htask
    cases htask
    exact h
  | some app =>
    have hmem := getAppRecordByToken_mem hfound
    have happ := app_setClient client (hk.app_of_mem hmem)
    have hstep : Step gen env s (s.modifyApp app.identityId (·.setClient client)) := .client s _ client
    have hk₁ : Known gen (s.modifyApp app.identityId (·.setClient client)) := hk.steps (.single hstep)
    cases hpending : app.pendingAbilityRecord with
    | some t =>
      obtain ⟨r, hr, hbound⟩ := hwaits app hmem t hpending
      have hgoes := hgo app t r hfound hpending hr
      rw [attachTask_afterAttach hk hone hfound hgoes] at htask
      by_cases hlaunched : r.Launched
      · have hset := h.setClient client hk hmem fun u r' hu hr' => by
          rw [hpending] at hu
          cases hu
          rw [hr] at hr'
          cases hr'
          exact hlaunched
        have hk₂ : Known gen (s.afterAttach client app) := hk₁.same (fun _ h => h) (List.Sublist.refl _) rfl
        exact (hset.send _).launchPendingAbility hk₂ happ rfl htask
      · have hstate : r.isService = true ∨ r.currentState ≠ .active := by
          cases hservice : r.isService with
          | true => exact .inl rfl
          | false =>
            refine .inr fun hactive => hlaunched (.inr ⟨hservice, fun hst => ?_⟩)
            rw [hactive] at hst
            cases hst
        have hin : LaunchedIn app.identityId t (s.afterAttach client app) s' :=
          launchPendingAbility_launches happ rfl hpending hr hbound hstate hgoes.want hgoes.first htask
        refine h.launched hk hmem hpending ⟨hin.others, hin.transacted, fun app' happ' hne => ?_⟩
        exact hin.apps app' (List.mem_map.mpr ⟨app', happ', if_neg hne⟩) hne
    | none =>
      have hset := h.setClient client hk hmem fun u r' hu _ => by
        rw [hpending] at hu
        cases hu
      cases attachTask_cases htask with
      | unknown => exact h
      | unwatched happ' =>
        rw [hfound] at happ'
        cases happ'
        exact hset
      | @denied app' s₁ _ happ' hexit hremove =>
        rw [hfound] at happ'
        cases happ'
        obtain ⟨hset₁, happ₁⟩ : s₁.NoneLost ∧ s₁.app app.identityId = some (app.setClient client) := by
          rcases hexit with rfl | ⟨-, rfl⟩
          · exact ⟨hset, happ⟩
          · exact ⟨hset.send _, happ⟩
        obtain ⟨gone, l, hgone, -, hsplit, -, rfl⟩ := removeAppRecord_cases hremove
        rw [happ₁] at hgone
        cases hgone
        refine hset₁.drop fun x hx hl hnone => ?_
        rw [hsplit, List.mem_append, List.mem_singleton] at hx
        rw [hx.resolve_left hl] at hnone
        cases hnone
      | launches happ' hm _ hlaunch =>
        rw [hfound] at happ'
        cases happ'
        obtain ⟨hk₂, -, happ₂, -⟩ := afterSend hm hk₁ hwaits.setClient happ (.inr rfl)
        exact (hset.send _).launchPendingAbility hk₂ happ₂ rfl hlaunch

/-! ## The end of a process -/

/-- Nothing waits for a process of the bundle. -/
def NoneWaits (s : AbilityMgr) (name : CString) : Prop :=
  ∀ app ∈ s.appRecords, app.bundleInfo.bundleName = some name → app.abilityThreadClient = none →
    app.pendingAbilityRecord = none

/-- Plain steps make nothing wait. -/
theorem NoneWaits.plain {name : CString} (h : s.NoneWaits name) (hp : Plain gen env q s s') :
    s'.NoneWaits name := by
  have hcalm : ∀ x : AbilityMgr, Calm gen env s x → x.NoneWaits name := by
    intro x hx
    cases hx with
    | process bundleInfo pid hname hnone =>
      intro app happ hb hclient
      rcases List.mem_append.mp happ with happ | happ
      · exact h app happ hb hclient
      · rw [List.mem_singleton.mp happ]
    | _ => exact h
  cases hp with
  | quiet hq =>
    cases hq with
    | calm hc => exact hcalm _ hc
    | delete _ t hd =>
      obtain ⟨r, hr, ⟨ha, rfl⟩ | ⟨a, app, ha, happ, rfl⟩⟩ := delete_cases hd
      · exact h
      · intro app' happ' hb hclient
        obtain ⟨old, hold, ⟨_, rfl⟩ | ⟨_, rfl⟩⟩ := mem_modifyApp happ'
        · cases hp : (old.clearPendingAbility t).pendingAbilityRecord with
          | none => rfl
          | some u =>
            have hwaits := (WaitsBound.clearPendingAbility_some hp).1
            have hsame : old.clearPendingAbility t = old ∨ (old.clearPendingAbility t).pendingAbilityRecord = none := by
              unfold AppRecord.clearPendingAbility
              split
              · exact .inr rfl
              · exact .inl rfl
            rcases hsame with hsame | hnone
            · rw [hsame] at hb hclient
              rw [h old hold hb hclient] at hwaits
              cases hwaits
            · rw [hnone] at hp
              cases hp
        · exact h app' hold hb hclient
    | shelve hl =>
      intro app happ
      exact h app (hl.appRecords ▸ happ)
    | _ => exact h
  | exit t r a s₁ _ _ _ _ hremove =>
    obtain ⟨gone, l, _, _, hsplit, _, rfl⟩ := removeAppRecord_cases hremove
    exact fun app happ => h app (hsplit ▸ List.mem_append_left _ happ)
  | _ => exact h

theorem NoneLost.clears {name : CString} (h : s.NoneLost) (hs : Sound gen s) (hnone : s.NoneWaits name)
    (hclears : Clears env name s s') : s'.NoneLost := by
  obtain ⟨s₁, h₁, hresumes⟩ := hclears
  obtain ⟨-, hquiet⟩ := clearAbilityStack_shape hs.shape h₁
  have hplain : Plains gen env (fun _ _ => True) s s₁ := Quiet.plains hquiet
  have hnone₁ : s₁.NoneWaits name :=
    keeps (p := fun x => x.NoneWaits name) (fun _ _ hxy hx => hx.plain hxy) hplain hnone
  have hdropped : (s₁.removeAppRecordByName (some name)).NoneLost := by
    refine (h.plains hs.known hplain).drop fun app happ hl hclient => ?_
    refine hnone₁ app happ ?_ hclient
    by_contra hne
    exact hl (List.mem_filter.mpr ⟨happ, decide_eq_true hne⟩)
  have hremove : Moves gen env (fun _ _ => True) s₁ (s₁.removeAppRecordByName (some name)) :=
    removeAppRecordByName_moves (some name)
  have hk₁ : Known gen (s₁.removeAppRecordByName (some name)) := hremove.known (hplain.moves.known hs.known)
  obtain ⟨_, rfl⟩ | ⟨top, status, _, h₂⟩ := hresumes
  · exact hdropped
  · have hactive : Plains gen env (fun _ _ => True) _ s' := activeAbility_plains h₂
    exact hdropped.plains hk₁ hactive

/-- Nothing waits for the process of a bundle that is told to exit. -/
theorem NoneLost.appTerminateTask {name : CString} (h : s.NoneLost) (hs : Sound gen s) (hone : s.OneProcess)
    (htask : s.appTerminateTask env name = .ok (status, s')) : s'.NoneLost := by
  cases appTerminateTask_cases htask with
  | refused => exact h
  | alone hnone hclears =>
    exact h.clears hs (fun app happ hb => absurd hb (getAppRecordByBundleName_none rfl hnone app happ)) hclears
  | @exits app _ happ hreach hclears =>
    obtain ⟨hmem, -, hname⟩ := getAppRecordByBundleName_mem happ
    have hstill : Still gen env s (s.send app.identityId .appExit) := Still.tell rfl hreach
    refine (h.send _).clears (hs.goes (hs.still hstill)) (fun other hother hb hclient => ?_) hclears
    -- the bundle has this process only, and it has attached
    have hsame : other = app :=
      Keyed.eq_of_key_eq hone.nodup hother hmem (hb.trans hname.symm)
    obtain ⟨app', happ', hattached, -⟩ := hreach
    rw [hs.known.app_of_mem hmem] at happ'
    cases happ'
    rw [← hsame, hclient] at hattached
    cases hattached

/-- A process that dies is not one that an ability waits for. -/
def DiesFree (s : AbilityMgr) (bundleInfo : BundleInfo) : Prop :=
  ∀ name, bundleInfo.bundleName = some name → s.NoneWaits name

theorem NoneLost.appRestartTask {bundleInfo : BundleInfo} (h : s.NoneLost) (hs : Sound gen s)
    (hdies : s.DiesFree bundleInfo) (htask : s.appRestartTask env bundleInfo = .ok (status, s')) :
    s'.NoneLost := by
  obtain ⟨_, _, rfl⟩ | ⟨name, hname, hclears⟩ := appRestartTask_cases htask
  · exact h
  · exact h.clears hs (hdies name hname) hclears

/-! ## Messages -/

/-- No launch is lost, and what waits for a process is bound to it. -/
structure Launching (s : AbilityMgr) : Prop where
  one : s.OneProcess
  bound : s.WaitsBound
  none : s.NoneLost

/-- A reply lets only a page start that finds its process free. -/
def AnswersFree (s : AbilityMgr) (state : TransactionState) : Prop :=
  state.state = .inactive → s.YieldsFree state.token

theorem launching_of (env : Env) (h : s.Launching) (hk : Known gen s)
    (hmoves : Moves gen env (fun _ _ => True) s s') (hnone : s'.NoneLost) : s'.Launching := by
  have hboth : Known gen s' ∧ s'.OneProcess ∧ s'.WaitsBound := by
    refine keeps (p := fun x => Known gen x ∧ x.OneProcess ∧ x.WaitsBound) ?_ hmoves ⟨hk, h.one, h.bound⟩
    intro x y hxy ⟨hkx, hone, hwaits⟩
    exact ⟨hkx.steps hxy.steps, hone.move hxy, hwaits.move hkx hxy⟩
  exact ⟨hboth.2.1, hboth.2.2, hnone⟩

/-- What the rule for messages asks for. -/
theorem rule_launching : Rule gen env (fun _ _ => True) Launching
    (fun s want uid => s.StartsFree env want uid) AnswersFree (fun s client => s.AttachesGo env client) DiesFree where
  plain h hs hp _ := launching_of env h hs.known hp.moves (h.none.plains hs.known hp)
  start h hs hfree hnames htask := launching_of env h hs.known (startTask_starting hs.known htask).moves
    (h.none.startTask hs.known hfree hnames htask)
  yields h hs hq hfree htask := launching_of env h hs.known (inactivateTask_moves hs.known hq htask)
    (h.none.inactivateTask hs.known (hfree rfl) htask)
  attach h hs hgo htask := launching_of env h hs.known (attachTask_moves htask)
    (h.none.attachTask hs.known h.one h.bound hgo htask)
  terminate h hs htask := launching_of env h hs.known (appTerminateTask_moves hs htask)
    (h.none.appTerminateTask hs h.one htask)
  restart h hs hdies htask := launching_of env h hs.known (appRestartTask_moves hs htask)
    (h.none.appRestartTask hs hdies htask)

/-- What a request starts finds its process free, what waits for a process that attaches is launched, and
nothing waits for a process that dies. -/
structure RequestGoes (gen : TokenGenerate) (env : Env) (s : AbilityMgr) (e : Event) : Prop where
  starts : ∀ x want uid, s.RequestStarts gen env e x want uid → x.StartsFree env want uid
  attaches : ∀ client, e = .attachBundle client → s.AttachesGo env client
  dies : ∀ b bundleInfo, e = .restartApp b → env.queryBundleInfo (some b) = some bundleInfo →
    s.DiesFree bundleInfo

/-- The page that starts as another has become inactive finds its process free, and so does the launcher
that starts as no page is left. -/
structure ReplyGoes (gen : TokenGenerate) (env : Env) (s : AbilityMgr) (r : Reply) : Prop where
  answers : ∀ state, r = .lifecycleDone state → s.AnswersFree state
  launcher : ∀ state status s₁, r = .lifecycleDone state →
    s.workerAbilityTransaction gen env state = .ok (status, s₁) → status.isNoActiveAbility = true →
    s₁.StartsFree env launcherWant systemUid

end AbilityMgr

namespace System
variable {gen : TokenGenerate} {env : Env} {s s' : System} {e : Event}

/-- The handling of an event makes no ability wait for a process that is taken, and launches what waits
for a process that attaches. -/
def Goes (gen : TokenGenerate) (s : System) (env : Env) (e : Event) : Prop :=
  match e with
  | .reply a => ∀ r replies, takeFirst a s.replies = some (r, replies) → s.ams.ReplyGoes gen env r
  | e => s.ams.RequestGoes gen env e

theorem Happens.launching (h : s.ams.Launching) (hs : s.ams.Sound gen) (hgoes : s.Goes gen env e)
    (hhappens : Happens gen env s e s') : s'.ams.Launching := by
  cases hhappens with
  | request hm =>
    cases e with
    | reply a =>
      cases hm
      exact h
    | _ => exact AbilityMgr.rule_launching.requestMsg h hs hgoes.starts hgoes.attaches hgoes.dies hm
  | requestFault => exact h
  | reply htake hm =>
    have hreply := hgoes _ _ htake
    exact AbilityMgr.rule_launching.replyMsg h hs (fun _ _ => trivial) hreply.answers hreply.launcher hm
  | replyFault => exact h
  | perform => exact ⟨⟨h.one.nodup, h.one.named⟩, h.bound, h.none⟩

/-- In every run in which what is started finds its process free and an attach goes through where an
ability waits, no accepted launch is lost: the ability has been sent a lifecycle transaction, or its
process has not attached and launches it then. -/
theorem noneLost_of_reached
    (h : Reached (System.next gen) (fun s e => s.Goes gen e.1 e.2) IsInit s) :
    ∀ t r, s.ams.records t = some r → r.accepted = true → r.currentState = .uninitialized →
      r.transacted = true ∨
        ∃ app, s.ams.app app.identityId = some app ∧ r.appRecord = some app.identityId ∧
          app.abilityThreadClient = none ∧ app.pendingAbilityRecord = some t := by
  have hinit : ∀ s, IsInit s → s.ams.Launching ∧ s.ams.Sound gen := by
    rintro s rfl
    refine ⟨⟨⟨List.nodup_nil, fun _ happ => (by cases happ)⟩, fun _ happ => (by cases happ),
      fun _ _ hr => (by cases hr)⟩, shape_init, known_init⟩
  have hstep : ∀ s e s', s.ams.Launching ∧ s.ams.Sound gen → s.Goes gen e.1 e.2 →
      System.next gen s e = some s' → s'.ams.Launching ∧ s'.ams.Sound gen := by
    rintro s ⟨env, e⟩ s' ⟨hlaunching, hs⟩ hgoes hnext
    have hhappens := (next_cases hnext).2
    exact ⟨hhappens.launching hlaunching hs hgoes, hhappens.sound hs⟩
  obtain ⟨hlaunching, hs⟩ := Reached.invariant hinit hstep h
  intro t r hr haccepted hst
  rcases hlaunching.none t r hr haccepted with (htr | ⟨-, hne⟩) | ⟨app, happ, hclient, hpending, hbound⟩
  · exact .inl htr
  · exact absurd hst hne
  · exact .inr ⟨app, hs.known.app_of_mem happ, hbound, hclient, hpending⟩

theorem goes_startAbility {want : Want} {uid : Int} (hfree : s.ams.StartsFree env want uid) :
    s.Goes gen env (.startAbility want uid) := by
  refine ⟨?_, fun _ h => (by cases h), fun _ _ h => (by cases h)⟩
  rintro x want uid ⟨⟩
  exact hfree

theorem goes_attachBundle {client : AbilityThreadClient} (hgo : s.ams.AttachesGo env client) :
    s.Goes gen env (.attachBundle client) := by
  refine ⟨fun _ _ _ h => (by cases h), ?_, fun _ _ h => (by cases h)⟩
  rintro client ⟨⟩
  exact hgo

/-- Page a comes up, and a service of another bundle waits for its process. -/
theorem noneLost_service :
    ∃ s, run (System.next counter) {}
        [(pageEnv, startA), (pageEnv, .attachBundle ⟨1, 7, ⟨9, 9⟩⟩),
          (serviceEnv, .startAbility serviceWant 5)] = some s ∧
      (s.ams.records 0).map (·.transacted) = some true ∧ (s.ams.records 2).map (·.transacted) = some false ∧
      ∀ t r, s.ams.records t = some r → r.accepted = true → r.currentState = .uninitialized →
        r.transacted = true ∨
          ∃ app, s.ams.app app.identityId = some app ∧ r.appRecord = some app.identityId ∧
            app.abilityThreadClient = none ∧ app.pendingAbilityRecord = some t := by
  have h : ((System.next counter {} (pageEnv, startA)).bind fun s₁ =>
      (System.next counter s₁ (pageEnv, .attachBundle ⟨1, 7, ⟨9, 9⟩⟩)).bind fun s₂ =>
        (System.next counter s₂ (serviceEnv, .startAbility serviceWant 5)).map fun s₃ =>
          ((s₁.ams.getAppRecordByToken 1 7).map fun app =>
              (app.bundleInfo.codePath.isSome, decide (app.bundleInfo.moduleInfos.length ≤ 16)),
            decide (s₂.ams.ProcessFree serviceBundle.bundleName),
            (s₃.ams.records 0).map (·.transacted), (s₃.ams.records 2).map (·.transacted))) =
      some (some (true, true), true, some true, some false) := by decide
  obtain ⟨s₁, h₁, h⟩ := Option.bind_eq_some_iff.mp h
  obtain ⟨s₂, h₂, h⟩ := Option.bind_eq_some_iff.mp h
  obtain ⟨s₃, h₃, h⟩ := Option.map_eq_some_iff.mp h
  simp only [Prod.mk.injEq, decide_eq_true_eq, Option.map_eq_some_iff] at h
  obtain ⟨⟨app, happ, hcode, hmodules⟩, hprocess, hfirst, hsecond⟩ := h
  have hreached₁ : Reached (System.next counter) (fun s e => s.Goes counter e.1 e.2) IsInit s₁ := by
    refine .step (.init rfl) (goes_startAbility fun target bundleInfo _ => .inl fun app happ => ?_) h₁
    unfold AbilityMgr.getAppRecordByBundleName at happ
    split at happ <;> cases happ
  have hreached₂ : Reached (System.next counter) (fun s e => s.Goes counter e.1 e.2) IsInit s₂ := by
    refine hreached₁.step (goes_attachBundle fun app' t r happ' _ _ => ?_) h₂
    have hsame : some app = some app' := happ.symm.trans happ'
    cases hsame
    exact ⟨rfl, rfl, Option.isSome_iff_ne_none.mp hcode, hmodules, rfl, rfl, rfl⟩
  have hreached₃ : Reached (System.next counter) (fun s e => s.Goes counter e.1 e.2) IsInit s₃ := by
    refine hreached₂.step (goes_startAbility fun target bundleInfo hnames => .inl ?_) h₃
    obtain ⟨e, -, hb⟩ := hnames.bundle
    cases hb
    exact hprocess
  refine ⟨s₃, ?_, Option.map_eq_some_iff.mpr hfirst, Option.map_eq_some_iff.mpr hsecond,
    noneLost_of_reached hreached₃⟩
  rw [run_cons _ _ h₁, run_cons _ _ h₂, run_cons _ _ h₃, run_nil]

end System
end AbilityLite.Ams
