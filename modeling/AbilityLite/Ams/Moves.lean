import AbilityLite.Ams.Arrivals

/-
  What AMS does to process records, step by step, and a rule for messages.

  `Step` lets any record forget its process. Here a record forgets it only as the process
  exits, and an ability is made to wait only for a process record that is there: `Plain`
  steps bind no ability to a process and take no record of one away, but for an exit;
  `Move` adds the rest. `Rule` carries a property of the state over a message once it is
  known to go through the tasks.
-/

namespace AbilityLite.Ams
open AbilityMsStatus Fallible Relation
namespace AbilityMgr
variable {gen : TokenGenerate} {env : Env} {s s' : AbilityMgr} {t : Token} {a : Nat}
  {status : AbilityMsStatus} {q : Token → State → Prop}

/-- The steps that bind no ability to a process record. `q` says which ability may reach which state; the
process of one that may reach the initial state may exit. -/
inductive Plain (gen : TokenGenerate) (env : Env) (q : Token → State → Prop) : AbilityMgr → AbilityMgr → Prop
  | quiet {s s' : AbilityMgr} (h : Quiet gen env s s') : Plain gen env q s s'
  | reach (s : AbilityMgr) (t : Token) {st : State} (hst : st ≠ .uninitialized) (hq : q t st) :
      Plain gen env q s (s.modify t (·.setCurrentState st))
  | next (s : AbilityMgr) (t : Token) (o : Option Token) :
      Plain gen env q s (s.modify t (·.setNextPageAbility o))
  | prev (s : AbilityMgr) (t : Token) (o : Option Token) :
      Plain gen env q s (s.modify t (·.setPrevPageAbility o))
  | ask (s : AbilityMgr) (t : Token) (r : PageAbilityRecord) (a : Nat) (m : Transaction)
      (hr : s.records t = some r) (ha : r.appRecord = some a) (hm : m.token = some t)
      (hreach : s.Reaches env a m) : Plain gen env q s (s.send a m)
  | accept (s : AbilityMgr) (t : Token) (r : PageAbilityRecord) (hr : s.records t = some r)
      (htransacted : r.transacted = true) : Plain gen env q s (s.modify t (·.accept))
  /-- The process of an ability, which was told to exit, goes. -/
  | exit (s : AbilityMgr) (t : Token) (r : PageAbilityRecord) (a : Nat) (s₁ : AbilityMgr)
      (hr : s.records t = some r) (ha : r.appRecord = some a) (hclient : s.Reaches env a .appExit)
      (hq : q t .initial) (h : s.removeAppRecord a = .ok s₁) : Plain gen env q s (s₁.modify t (·.setAppRecord none))

abbrev Plains (gen : TokenGenerate) (env : Env) (q : Token → State → Prop) : AbilityMgr → AbilityMgr → Prop :=
  ReflTransGen (Plain gen env q)

/-- The steps of AMS. -/
inductive Move (gen : TokenGenerate) (env : Env) (q : Token → State → Prop) : AbilityMgr → AbilityMgr → Prop
  | plain {s s' : AbilityMgr} (h : Plain gen env q s s') : Move gen env q s s'
  | await (s : AbilityMgr) (t : Token) (r : PageAbilityRecord) (app : AppRecord)
      (hr : s.records t = some r) (ha : r.appRecord = none)
      (happ : s.app app.identityId = some app) : Move gen env q s (s.await t app.identityId)
  | client (s : AbilityMgr) (a : Nat) (c : AbilityThreadClient) :
      Move gen env q s (s.modifyApp a (·.setClient c))
  | launched (s : AbilityMgr) (a : Nat) : Move gen env q s (s.modifyApp a (·.setPendingAbility none))
  | drop (s : AbilityMgr) (l : List AppRecord) (h : l.Sublist s.appRecords) :
      Move gen env q s { s with appRecords := l }

abbrev Moves (gen : TokenGenerate) (env : Env) (q : Token → State → Prop) : AbilityMgr → AbilityMgr → Prop :=
  ReflTransGen (Move gen env q)

theorem Plains.moves (h : Plains gen env q s s') : Moves gen env q s s' :=
  ReflTransGen.mono (fun _ _ => Move.plain) _ _ h

theorem Plain.steps (h : Plain gen env q s s') : ReflTransGen (Step gen env) s s' := by
  cases h with
  | quiet h => exact .single (.quiet h)
  | reach t => exact .single (.reach s t _)
  | next t o => exact .single (.next s t o)
  | prev t o => exact .single (.prev s t o)
  | ask t r a m hr ha hm hreach => exact .single (.ask s t r a m hr ha hm hreach)
  | accept t r hr htransacted => exact .single (.accept s t r hr htransacted)
  | exit t r a s₁ _ _ _ _ h =>
    have hdrop : Still gen env s s₁ := removeAppRecord_still h
    exact hdrop.steps.trans (.single (.forget s₁ t))

theorem Move.steps (h : Move gen env q s s') : ReflTransGen (Step gen env) s s' := by
  cases h with
  | plain h => exact h.steps
  | await t r app hr ha happ =>
    exact .single (.await s t r _ hr ha (by rw [happ]; rfl))
  | client a c => exact .single (.client s a c)
  | launched a => exact .single (.launched s a)
  | drop l h => exact .single (.drop s l h)

theorem Moves.known (h : Moves gen env q s s') (hk : Known gen s) : Known gen s' :=
  keeps (p := Known gen) (fun _ _ hmove hk => hk.steps hmove.steps) h hk

/-! ## Operations -/

theorem Calm.plains (h : ReflTransGen (Calm gen env) s s') : Plains gen env q s s' :=
  ReflTransGen.mono (fun _ _ h => Plain.quiet (.calm h)) _ _ h

theorem Quiet.plains (h : ReflTransGen (Quiet gen env) s s') : Plains gen env q s s' :=
  ReflTransGen.mono (fun _ _ => Plain.quiet) _ _ h

theorem plains_edit {f : PageAbilityRecord → PageAbilityRecord} (hf : ∀ r, Mild r (f r)) :
    Plains gen env q s (s.modify t f) := Calm.plains (calm_edit hf)

theorem plains_next {o : Option Token} : Plains gen env q s (s.modify t (·.setNextPageAbility o)) :=
  .single (.next s t o)

theorem plains_prev {o : Option Token} : Plains gen env q s (s.modify t (·.setPrevPageAbility o)) :=
  .single (.prev s t o)

theorem plains_reach {st : State} (hst : st ≠ .uninitialized) (hq : q t st) :
    Plains gen env q s (s.modify t (·.setCurrentState st)) := .single (.reach s t hst hq)

theorem plains_asks {state : State} (h : s.Asks env t state s') : Plains gen env q s s' := by
  obtain ⟨r, a, hr, ha, hreach, rfl⟩ := h
  exact .single (.ask s t r a _ hr ha rfl hreach)

theorem plains_tell {m : Transaction} (hm : m.token = none) (hreach : s.Reaches env a m) :
    Plains gen env q s (s.send a m) := Calm.plains (.single (.tell s a m hm hreach))

theorem plains_notify {sid : SvcIdentity} {m : Callback} : Plains gen env q s (s.notify env sid m) := by
  unfold AbilityMgr.notify
  split
  · exact Calm.plains (.single (.callback s _))
  · exact .refl

theorem activeAbility_plains (h : s.activeAbility env t = .ok (status, s')) : Plains gen env q s s' := by
  obtain ⟨r, _, ⟨_, _, rfl⟩ | ⟨_, _, rfl | rfl⟩ | ⟨_, _, s₁, hasks, rfl⟩⟩ := activeAbility_cases h
  · exact .refl
  · exact .refl
  · exact plains_edit mild_freeSid
  · exact (plains_asks hasks).trans (plains_edit mild_freeSid)

theorem inactiveAbility_plains (h : s.inactiveAbility env t = .ok (status, s')) :
    Plains gen env q s s' := by
  obtain ⟨r, _, ⟨_, _, rfl⟩ | ⟨_, _, rfl⟩ | ⟨_, _, hasks⟩⟩ := inactiveAbility_cases h
  · exact .refl
  · exact .refl
  · exact plains_asks hasks

theorem toBackgroundAbility_plains (h : s.toBackgroundAbility env t = .ok (status, s')) :
    Plains gen env q s s' := by
  obtain ⟨r, _, ⟨_, _, rfl⟩ | ⟨_, _, rfl⟩ | ⟨_, _, hasks⟩⟩ := toBackgroundAbility_cases h
  · exact .refl
  · exact .refl
  · exact plains_asks hasks

theorem stopAbility_plains (h : s.stopAbility env t = .ok (status, s')) : Plains gen env q s s' := by
  obtain ⟨r, _, ⟨_, _, rfl⟩ | ⟨_, _, rfl⟩ | ⟨_, _, hasks⟩⟩ := stopAbility_cases h
  · exact .refl
  · exact .refl
  · exact plains_asks hasks

/-! ## Starting -/

theorem Known.app_of_mem (h : Known gen s) {app : AppRecord} (happ : app ∈ s.appRecords) :
    s.app app.identityId = some app := Keyed.find?_key h.appIds happ rfl

/-- An ability is started: by its first transaction, or by waiting for a process record, which is that
of its bundle or a new one. -/
inductive StartsWith (gen : TokenGenerate) (env : Env) (q : Token → State → Prop) (t : Token) (s : AbilityMgr) : AbilityMgr → Prop
  | plain {s' : AbilityMgr} (h : Plains gen env q s s') : StartsWith gen env q t s s'
  | waits {r : PageAbilityRecord} {app : AppRecord} {s₁ : AbilityMgr} (hr : s.records t = some r)
      (ha : r.appRecord = none) (hplain : Plains gen env q s s₁) (hrecords : s₁.records = s.records)
      (happ : s₁.app app.identityId = some app)
      (hprocess : (s₁ = s ∧ s.getAppRecordByBundleName r.bundleInfo.bundleName = some app) ∨
        (app.abilityThreadClient = none ∧ app.pendingAbilityRecord = none)) :
      StartsWith gen env q t s (s₁.await t app.identityId)

theorem StartsWith.moves (h : StartsWith gen env q t s s') : Moves gen env q s s' := by
  cases h with
  | plain h => exact h.moves
  | @waits r app s₁ hr ha hplain hrecords happ _ =>
    exact hplain.moves.trans (.single (.await s₁ t r app (hrecords ▸ hr) ha happ))

theorem startWith_startsWith (hk : Known gen s) {first : Token → AbilityMgr → Result}
    (hfirst : ∀ status s₁, first t s = .ok (status, s₁) → Plains gen env q s s₁ ∧
      (status.isOk = true → ∃ r, s₁.records t = some r ∧ r.transacted = true))
    (h : s.startWith gen env first t = .ok (status, s')) : StartsWith gen env q t s s' := by
  obtain ⟨r, hr, ⟨_, _, rfl | rfl⟩ | ⟨hnone, _, a, s₁, hstart, rfl⟩ | ⟨_, s₁, h₁, rfl⟩⟩ :=
    startWith_cases h
  · exact .plain .refl
  · exact .plain (Calm.plains (.single (.tick s)))
  · rcases startAppProcess_cases hstart with ⟨ho, _⟩ | ⟨app, happ, ho, rfl⟩ | ⟨pid, hnew, hname, ho, rfl⟩
    · cases ho
    · cases ho
      have hmem := (getAppRecordByBundleName_mem happ).1
      exact .waits hr hnone .refl rfl (hk.app_of_mem hmem) (.inl ⟨rfl, happ⟩)
    · cases ho
      have hcalm : ReflTransGen (Calm gen env) s _ := .single (.process s r.bundleInfo pid hname hnew)
      have hknown : Known gen _ := hk.steps (Calm.steps hcalm)
      let app : AppRecord := { identityId := gen.generate s.generated, bundleInfo := r.bundleInfo, pid }
      have hmem : app ∈ s.appRecords ++ [app] := List.mem_append_right _ List.mem_cons_self
      exact .waits hr hnone (Calm.plains hcalm) rfl (hknown.app_of_mem hmem) (.inr ⟨rfl, rfl⟩)
  · obtain ⟨hplain, htransacted⟩ := hfirst status s₁ h₁
    split
    · next hok =>
      obtain ⟨r₁, hr₁, htr⟩ := htransacted hok
      exact .plain (hplain.tail (.accept s₁ t r₁ hr₁ htr))
    · exact .plain hplain

theorem startAbility_startsWith (hk : Known gen s) (h : s.startAbility gen env t = .ok (status, s')) :
    StartsWith gen env q t s s' :=
  startWith_startsWith hk (fun _ _ h₁ => ⟨activeAbility_plains h₁, activeAbility_transacted h₁⟩) h

theorem startService_startsWith (hk : Known gen s) (h : s.startService gen env t = .ok (status, s')) :
    StartsWith gen env q t s s' :=
  startWith_startsWith hk (fun _ _ h₁ => ⟨inactiveAbility_plains h₁, inactiveAbility_transacted h₁⟩) h

theorem newService_plains {want : Want} {target : AbilityInfo} {bundleInfo : BundleInfo}
    {waitConnect : Bool} : Plains gen env q s (s.newService gen want target bundleInfo waitConnect) := by
  have hcreate : Plains gen env q s ((s.newPageAbility gen target want).2.modify
      (gen.generate s.generated) (setUp bundleInfo waitConnect)) :=
    (ReflTransGen.single (.quiet (.create s target want))).trans
      (plains_edit (mild_setUp bundleInfo waitConnect))
  refine hcreate.trans ?_
  unfold AbilityMgr.newService AbilityMgr.pushServiceRecord
  split
  · exact .refl
  · exact Quiet.plains (quiet_lists ⟨rfl, rfl, rfl, rfl, rfl⟩)

section
variable {want : Want} {target : AbilityInfo} {bundleInfo : BundleInfo} {waitConnect : Bool}

/-- The ability that a start starts at once, and the state it is started in: a page where no page is on
top, or a service that is not there. -/
inductive Brings (gen : TokenGenerate) (want : Want) (target : AbilityInfo) (bundleInfo : BundleInfo)
    (waitConnect : Bool) (s : AbilityMgr) : Token → AbilityMgr → Prop
  | page {t : Token} {s₁ : AbilityMgr} (hpage : target.abilityType ≠ .service)
      (htop : s.getTopPageAbility = none)
      (hgen : s.generatePageAbility gen target want none = .ok (some t, s₁)) :
      Brings gen want target bundleInfo waitConnect s t (s₁.modify t (·.setBundleInfo bundleInfo))
  | service (hservice : target.abilityType = .service)
      (hnone : s.findServiceRecordByName target.bundleName target.name = none) :
      Brings gen want target bundleInfo waitConnect s (gen.generate s.generated)
        (s.newService gen want target bundleInfo waitConnect)

theorem plains_setBundleInfo : Plains gen env q s (s.modify t (·.setBundleInfo bundleInfo)) :=
  plains_edit fun r => mild_setBundleInfo r bundleInfo

theorem generatePageAbility_plains {topAbility page : Option Token}
    (h : s.generatePageAbility gen target want topAbility = .ok (page, s')) : Plains gen env q s s' :=
  Quiet.plains (generatePageAbility_quiet h)

theorem Brings.plains {s₁ : AbilityMgr} (h : Brings gen want target bundleInfo waitConnect s t s₁) :
    Plains gen env q s s₁ := by
  cases h with
  | page _ _ hgen => exact (generatePageAbility_plains hgen).trans plains_setBundleInfo
  | service => exact newService_plains

/-- A start goes by plain steps, or starts an ability, which may be taken back. -/
inductive Starting (gen : TokenGenerate) (env : Env) (q : Token → State → Prop) (want : Want) (target : AbilityInfo)
    (bundleInfo : BundleInfo) (waitConnect : Bool) (s : AbilityMgr) : AbilityMgr → Prop
  | plain {s' : AbilityMgr} (h : Plains gen env q s s') :
      Starting gen env q want target bundleInfo waitConnect s s'
  | starts {t : Token} {s₁ s₂ s' : AbilityMgr}
      (h₁ : Brings gen want target bundleInfo waitConnect s t s₁) (h₂ : StartsWith gen env q t s₁ s₂)
      (h₃ : Plains gen env q s₂ s') : Starting gen env q want target bundleInfo waitConnect s s'

theorem Starting.moves (h : Starting gen env q want target bundleInfo waitConnect s s') :
    Moves gen env q s s' := by
  cases h with
  | plain h => exact h.moves
  | starts h₁ h₂ h₃ => exact (Plains.moves h₁.plains).trans (h₂.moves.trans h₃.moves)

theorem startTask_starting (hk : Known gen s)
    (h : s.startTask gen env want target bundleInfo waitConnect = .ok (status, s')) :
    Starting gen env q want target bundleInfo waitConnect s s' := by
  have hknown {t : Token} {s₁ : AbilityMgr}
      (h₁ : Brings gen want target bundleInfo waitConnect s t s₁) : Known gen s₁ := by
    have hplains : Plains gen env q s s₁ := h₁.plains
    exact hplains.moves.known hk
  unfold startTask at h
  split at h
  · next hservice =>
    obtain ⟨t, _, _, rfl⟩ | ⟨hnone, s₁, h₁, hrest⟩ := startServiceTask_cases h
    · exact .plain .refl
    · have hbrings : Brings gen want target bundleInfo waitConnect s _ _ := .service hservice hnone
      have hstarts : StartsWith gen env q _ _ s₁ := startService_startsWith (hknown hbrings) h₁
      rcases hrest with ⟨_, h₂⟩ | ⟨_, rfl⟩
      · exact .starts hbrings hstarts (Quiet.plains (removeServiceRecord_quiet h₂))
      · exact .starts hbrings hstarts .refl
  · next hpage =>
    cases startPageTask_cases h with
    | refused hgen _ => exact .plain (generatePageAbility_plains hgen)
    | givesWay hgen _ _ h₂ _ =>
      exact .plain (((generatePageAbility_plains hgen).trans plains_setBundleInfo).trans
        ((inactiveAbility_plains h₂).trans (plains_next.trans plains_prev)))
    | stays hgen _ _ h₂ _ h₃ =>
      exact .plain (((generatePageAbility_plains hgen).trans plains_setBundleInfo).trans
        ((inactiveAbility_plains h₂).trans (Quiet.plains (removePageAbility_quiet h₃))))
    | starts hgen htop h₂ _ =>
      rw [htop] at hgen
      have hbrings : Brings gen want target bundleInfo waitConnect s _ _ := .page hpage htop hgen
      exact .starts hbrings (startAbility_startsWith (hknown hbrings) h₂) .refl
    | fails hgen htop h₂ _ h₃ =>
      rw [htop] at hgen
      have hbrings : Brings gen want target bundleInfo waitConnect s _ _ := .page hpage htop hgen
      exact .starts hbrings (startAbility_startsWith (hknown hbrings) h₂)
        (Quiet.plains (removePageAbility_quiet h₃))

end

/-! ## Replies -/

/-- A task on a reply finds the ability, which is in its new state then, and goes on from there. -/
theorem activateTask_reaches (h : s.activateTask env t = .ok (status, s')) :
    (¬ s.Listed t ∧ s' = s) ∨
      (s.Listed t ∧ Plains gen env q (s.modify t (·.setCurrentState .active)) s') := by
  cases activateTask_cases h with
  | unknown hl => exact .inl ⟨hl, rfl⟩
  | service hl => exact .inr ⟨hl, .refl⟩
  | background hl _ _ _ h₁ => exact .inr ⟨hl, (toBackgroundAbility_plains h₁).trans plains_prev⟩
  | stop hl _ _ _ _ h₁ => exact .inr ⟨hl, (stopAbility_plains h₁).trans plains_next⟩
  | alone hl => exact .inr ⟨hl, .refl⟩

theorem activateTask_plains (hq : q t .active) (h : s.activateTask env t = .ok (status, s')) :
    Plains gen env q s s' := by
  obtain ⟨_, rfl⟩ | ⟨_, h⟩ := activateTask_reaches h
  · exact .refl
  · exact (plains_reach (by decide) hq).trans h

/-- The page that waits for another to give way starts; nothing else is started. -/
inductive Yields (gen : TokenGenerate) (env : Env) (q : Token → State → Prop) (t : Token) (s : AbilityMgr) :
    AbilityMgr → Prop
  | plain {s' : AbilityMgr} (h : Plains gen env q (s.modify t (·.setCurrentState .inactive)) s') :
      Yields gen env q t s s'
  | next {r : PageAbilityRecord} {next : Token} {s₁ : AbilityMgr} (hr : s.records t = some r)
      (hpage : r.isService = false) (hnext : r.nextPageAbility = some next)
      (h : StartsWith gen env q next (s.modify t (·.setCurrentState .inactive)) s₁) :
      Yields gen env q t s (s₁.modify t (·.setNextPageAbility none))

theorem Yields.moves (h : Yields gen env q t s s') :
    Moves gen env q (s.modify t (·.setCurrentState .inactive)) s' := by
  cases h with
  | plain h => exact h.moves
  | next _ _ _ h => exact h.moves.trans (Plains.moves plains_next)

theorem inactivateTask_yields (hk : Known gen s) (h : s.inactivateTask gen env t = .ok (status, s')) :
    (¬ s.Listed t ∧ s' = s) ∨ (s.Listed t ∧ Yields gen env q t s s') := by
  cases inactivateTask_cases h with
  | unknown hl => exact .inl ⟨hl, rfl⟩
  | connect hl hr hservice _ h₁ =>
    have hconnect : Plains gen env q _ s' :=
      Calm.plains (connectAbility_calm (modify_self (modify_self hr)) hservice h₁)
    exact .inr ⟨hl, .plain ((plains_edit fun r => mild_setConnectStatus r .connecting).trans hconnect)⟩
  | service hl => exact .inr ⟨hl, .plain .refl⟩
  | next hl hr hpage hnext h₁ =>
    exact .inr ⟨hl, .next hr hpage hnext (startAbility_startsWith (hk.modify _) h₁)⟩
  | back hl _ _ _ _ h₁ => exact .inr ⟨hl, .plain ((activeAbility_plains h₁).trans plains_next)⟩
  | home hl _ _ _ _ h₁ => exact .inr ⟨hl, .plain (stopAbility_plains h₁)⟩

theorem inactivateTask_moves (hk : Known gen s) (hq : q t .inactive)
    (h : s.inactivateTask gen env t = .ok (status, s')) : Moves gen env q s s' := by
  obtain ⟨_, rfl⟩ | ⟨_, h⟩ := inactivateTask_yields hk h
  · exact .refl
  · exact (Plains.moves (plains_reach (by decide) hq)).trans h.moves

theorem backgroundTask_plains (hq : q t .background) (h : s.backgroundTask t = .ok (status, s')) :
    Plains gen env q s s' := by
  rcases backgroundTask_cases h with ⟨_, rfl⟩ | ⟨_, _, rfl⟩
  · exact .refl
  · exact plains_reach (by decide) hq

theorem exitApp_plains (hq : q t .initial) (h : s.exitApp env t = .ok (status, s')) :
    Plains gen env q s s' := by
  obtain ⟨r, hr, ⟨rfl, _⟩ | ⟨a, s₁, ha, _, hreach, h₁, rfl⟩⟩ := exitApp_cases h
  · exact .refl
  · have hclient : (s.send a .appExit).Reaches env a .appExit := hreach
    exact (plains_tell rfl hreach).tail (.exit _ t r a s₁ hr ha hclient hq h₁)

theorem ExitsIf.plains {exits : Prop} (hq : q t .initial) (h : ExitsIf exits env t s s') :
    Plains gen env q s s' := by
  rcases h with ⟨_, status, h⟩ | ⟨_, rfl⟩
  · exact exitApp_plains hq h
  · exact .refl

theorem stopTask_plains (hq : q t .initial) (h : s.stopTask env t = .ok (status, s')) :
    Plains gen env q s s' := by
  have hreach : Plains gen env q s (s.modify t (·.setCurrentState .initial)) := plains_reach (by decide) hq
  cases stopTask_cases h with
  | unknown => exact .refl
  | stopped => exact hreach
  | service _ _ _ _ h₁ h₂ h₃ =>
    exact hreach.trans ((Calm.plains (stopAbilityDone_calm h₁)).trans
      ((h₂.plains hq).trans (Quiet.plains (removeServiceRecord_quiet h₃))))
  | page _ _ _ _ h₁ h₂ =>
    exact hreach.trans ((h₁.plains hq).trans (Quiet.plains (removePageAbility_quiet h₂)))

/-! ## Requests -/

theorem terminateTask_plains (h : s.terminateTask env t = .ok (status, s')) : Plains gen env q s s' := by
  obtain ⟨_, rfl⟩ | ⟨_, r, hr, ⟨hservice, h₁⟩ | ⟨_, h₁⟩⟩ := terminateTask_cases h
  · exact .refl
  · exact Calm.plains (forceStopServiceAbility_calm hr hservice h₁)
  · exact inactiveAbility_plains h₁

theorem terminateServiceTask_plains {target : AbilityInfo} (hs : Sound gen s)
    (h : s.terminateServiceTask env target = .ok (status, s')) : Plains gen env q s s' := by
  unfold terminateServiceTask at h
  split at h
  · cases h
    exact .refl
  · next t ht =>
    simp only [bind_eq_ok, record_eq_ok] at h
    obtain ⟨r, hr, h⟩ := h
    split at h
    · simp only [bind_eq_ok] at h
      obtain ⟨s₁, h₁, h⟩ := h
      cases h
      exact Quiet.plains (removeServiceRecord_quiet h₁)
    · have hmem := (findServiceRecordByName_mem ht).1
      exact Calm.plains (forceStopServiceAbility_calm hr (hs.shape.allServices t hmem r hr) h)

theorem removeAppRecord_moves (h : s.removeAppRecord a = .ok s') : Moves gen env q s s' := by
  obtain ⟨app, l, _, _, hsplit, _, rfl⟩ := removeAppRecord_cases h
  exact .single (.drop s l (hsplit ▸ List.sublist_append_left l [app]))

theorem removeAppRecordByName_moves (name : Option CString) :
    Moves gen env q s (s.removeAppRecordByName name) := by
  cases name with
  | none => exact .refl
  | some name => exact .single (.drop s _ List.filter_sublist)

theorem Clears.moves {name : CString} (hs : Sound gen s) (h : Clears env name s s') :
    Moves gen env q s s' := by
  obtain ⟨s₁, h₁, h₂⟩ := h
  obtain ⟨-, hquiet⟩ := clearAbilityStack_shape hs.shape h₁
  have hcleared : Moves gen env q s s₁ := Plains.moves (Quiet.plains hquiet)
  refine (hcleared.trans (removeAppRecordByName_moves (some name))).trans ?_
  obtain ⟨_, rfl⟩ | ⟨top, status, _, h₂⟩ := h₂
  · exact .refl
  · exact Plains.moves (activeAbility_plains h₂)

theorem appTerminateTask_moves {name : CString} (hs : Sound gen s)
    (h : s.appTerminateTask env name = .ok (status, s')) : Moves gen env q s s' := by
  cases appTerminateTask_cases h with
  | refused => exact .refl
  | alone _ h₁ => exact h₁.moves hs
  | exits _ hreach h₁ =>
    have hstill : Still gen env s (s.send _ .appExit) := Still.tell rfl hreach
    have htell := hs.goes (hs.still hstill)
    exact (Plains.moves (plains_tell rfl hreach)).trans (h₁.moves htell)

theorem appRestartTask_moves {bundleInfo : BundleInfo} (hs : Sound gen s)
    (h : s.appRestartTask env bundleInfo = .ok (status, s')) : Moves gen env q s s' := by
  obtain ⟨_, _, rfl⟩ | ⟨name, _, h₁⟩ := appRestartTask_cases h
  · exact .refl
  · exact h₁.moves hs

theorem launchPendingAbility_moves (h : s.launchPendingAbility env a = .ok (status, s')) :
    Moves gen env q s s' := by
  obtain ⟨app, _, ⟨_, _, rfl⟩ | ⟨t, r, s₁, _, _, h₁, rfl⟩⟩ := launchPendingAbility_cases h
  · exact .refl
  · refine ReflTransGen.tail ?_ (.launched s₁ a)
    rcases h₁ with ⟨_, h₁⟩ | ⟨_, h₁⟩
    · exact Plains.moves (inactiveAbility_plains h₁)
    · exact Plains.moves (activeAbility_plains h₁)

theorem attachTask_moves {client : AbilityThreadClient}
    (h : s.attachTask env client = .ok (status, s')) : Moves gen env q s s' := by
  have hclient (app : AppRecord) :
      Moves gen env q s (s.modifyApp app.identityId (·.setClient client)) := .single (.client s _ client)
  cases attachTask_cases h with
  | unknown => exact .refl
  | unwatched => exact hclient _
  | denied _ hexit h₁ =>
    rcases hexit with rfl | ⟨hreach, rfl⟩
    · exact (hclient _).trans (removeAppRecord_moves h₁)
    · exact (hclient _).trans
        ((Plains.moves (plains_tell rfl hreach)).trans (removeAppRecord_moves h₁))
  | launches _ hm hreach h₁ =>
    exact (hclient _).trans
      ((Plains.moves (plains_tell hm hreach)).trans (launchPendingAbility_moves h₁))

/-! ## Messages -/

/-- What `AbilityMgrHandler` finds for a want. -/
structure Names (env : Env) (want : Want) (uid : Int) (target : AbilityInfo) (bundleInfo : BundleInfo) :
    Prop where
  bundle : ∃ e, want.element = some e ∧ env.queryBundleInfo e.bundleName = some bundleInfo
  found : env.queryAbilityInfo want = some target
  visible : checkVisiblePermission env uid bundleInfo.uid target.isVisible = true

/-- A property that plain steps which list nothing old and the end of a bundle keep, and that the tasks
which do more keep, each where it is allowed: a start, a reply that is worked off, an attach, the death of
a process. -/
structure Rule (gen : TokenGenerate) (env : Env) (q : Token → State → Prop) (p : AbilityMgr → Prop)
    (starts : AbilityMgr → Want → Int → Prop) (answers : AbilityMgr → TransactionState → Prop)
    (attaches : AbilityMgr → AbilityThreadClient → Prop) (dies : AbilityMgr → BundleInfo → Prop) :
    Prop where
  plain : ∀ {s s' : AbilityMgr}, p s → Sound gen s → Plains gen env q s s' → Arrives gen s s' → p s'
  start : ∀ {s s' : AbilityMgr} {want uid target bundleInfo waitConnect status}, p s → Sound gen s →
    starts s want uid → Names env want uid target bundleInfo →
    s.startTask gen env want target bundleInfo waitConnect = .ok (status, s') → p s'
  yields : ∀ {s s' : AbilityMgr} {t status}, p s → Sound gen s → q t .inactive → answers s ⟨t, .inactive⟩ →
    s.inactivateTask gen env t = .ok (status, s') → p s'
  attach : ∀ {s s' : AbilityMgr} {client status}, p s → Sound gen s → attaches s client →
    s.attachTask env client = .ok (status, s') → p s'
  terminate : ∀ {s s' : AbilityMgr} {name status}, p s → Sound gen s →
    s.appTerminateTask env name = .ok (status, s') → p s'
  restart : ∀ {s s' : AbilityMgr} {bundleInfo status}, p s → Sound gen s → dies s bundleInfo →
    s.appRestartTask env bundleInfo = .ok (status, s') → p s'

namespace Rule
variable {p : AbilityMgr → Prop} {starts : AbilityMgr → Want → Int → Prop}
  {answers : AbilityMgr → TransactionState → Prop}
  {attaches : AbilityMgr → AbilityThreadClient → Prop} {dies : AbilityMgr → BundleInfo → Prop}

theorem handleStartAbility (R : Rule gen env q p starts answers attaches dies) (hp : p s)
    (hs : Sound gen s) {want : Want} {uid : Int} {code : ErrCode} (hstart : starts s want uid)
    (h : s.handleStartAbility gen env want uid = .ok (code, s')) : p s' := by
  obtain rfl | ⟨e, target, bundleInfo, status, he, hb, ht, hvisible, h₁⟩ := handleStartAbility_cases h
  · exact hp
  · exact R.start hp hs hstart ⟨⟨e, he, hb⟩, ht, hvisible⟩ h₁

/-- The launcher may be started after a task. -/
theorem thenLauncher (R : Rule gen env q p starts answers attaches dies) (hp : p s) (hs : Sound gen s)
    (hstart : status.isNoActiveAbility = true → starts s launcherWant systemUid)
    (h : (status.isNoActiveAbility = false ∧ s' = s) ∨
      (status.isNoActiveAbility = true ∧ s.startLauncher gen env = .ok s')) : p s' ∧ Sound gen s' := by
  rcases h with ⟨-, rfl⟩ | ⟨hno, h⟩
  · exact ⟨hp, hs⟩
  · obtain ⟨_, h₁⟩ := startLauncher_cases h
    exact ⟨R.handleStartAbility hp hs (hstart hno) h₁, hs.goes (startLauncher_goes hs h)⟩

theorem startAbilityMsg (R : Rule gen env q p starts answers attaches dies) (hp : p s)
    (hs : Sound gen s) {want : Want} {uid : Int} (hstart : starts s want uid)
    (h : s.startAbilityMsg gen env want uid = .ok s') : p s' := by
  have hs' : Sound gen s' := hs.goes (startAbilityMsg_goes hs h)
  obtain ⟨code, s₁, h₁, rfl⟩ := startAbilityMsg_cases h
  have hstarted := R.handleStartAbility hp hs hstart h₁
  have hs₁ : Sound gen s₁ := hs.goes (handleStartAbility_goes hs h₁)
  unfold startAbilityCallback
  split
  · exact hstarted
  · split
    · exact hstarted
    · exact R.plain hstarted hs₁ plains_notify (.still .notify)

theorem connectAbilityMsg (R : Rule gen env q p starts answers attaches dies) (hp : p s)
    (hs : Sound gen s) {want : Want} {sid : SvcIdentity} {token : Token} {uid : Int}
    (hstart : ∀ e, want.element = some e →
      s.findServiceRecordByName e.bundleName e.abilityName = none → starts s want uid)
    (h : s.connectAbilityMsg gen env want sid token uid = .ok s') : p s' := by
  obtain ⟨code, s₁, h₁, hnotify⟩ := connectAbilityMsg_cases h
  obtain ⟨hp₁, hs₁⟩ : p s₁ ∧ Sound gen s₁ := by
    obtain rfl | ⟨e, bundleInfo, target, s₂, he, hb, ht, hstarts, hconnect⟩ := handleConnectAbility_cases h₁
    · exact ⟨hp, hs⟩
    obtain ⟨hp₂, hs₂⟩ : p s₂ ∧ Sound gen s₂ := by
      rcases hstarts with ⟨-, rfl⟩ | ⟨hnone, hvisible, status, h₂⟩
      · exact ⟨hp, hs⟩
      · exact ⟨R.start hp hs (hstart e he hnone) ⟨⟨e, he, hb⟩, ht, hvisible⟩ h₂,
          hs.goes (startTask_goes hs h₂)⟩
    rcases hconnect with rfl | ⟨status, h₃⟩
    · exact ⟨hp₂, hs₂⟩
    · have hcalm : ReflTransGen (Calm gen env) s₂ s₁ := connectTask_calm hs₂ h₃
      exact ⟨R.plain hp₂ hs₂ (Calm.plains hcalm) (.still (.calm hcalm)), hs₂.goes (hs₂.calm hcalm)⟩
  rcases hnotify with rfl | rfl
  · exact hp₁
  · exact R.plain hp₁ hs₁ plains_notify (.still .notify)

theorem restartAppMsg (R : Rule gen env q p starts answers attaches dies) (hp : p s)
    (hs : Sound gen s) {b : CString}
    (hdies : ∀ bundleInfo, env.queryBundleInfo (some b) = some bundleInfo → dies s bundleInfo)
    (hstart : ∀ x want uid, s.RequestStarts gen env (.restartApp b) x want uid → starts x want uid)
    (h : s.restartAppMsg gen env b = .ok s') : p s' := by
  obtain ⟨-, rfl⟩ | ⟨bundleInfo, status, s₁, s₂, hb, h₁, hlauncher, hkeep⟩ := restartAppMsg_cases h
  · exact hp
  have hp₁ : p s₁ := R.restart hp hs (hdies bundleInfo hb) h₁
  have hs₁ : Sound gen s₁ := hs.goes (appRestartTask_goes hs h₁)
  obtain ⟨hp₂, hs₂⟩ := R.thenLauncher hp₁ hs₁ (fun hno => hstart _ _ _ (.launcher hb h₁ hno)) hlauncher
  rcases hkeep with ⟨hother, hsystem, halive, h₃⟩ | rfl
  · obtain rfl | ⟨want, code, hwant, h₃⟩ := startKeepAliveApp_cases h₃
    · exact hp₂
    · refine R.handleStartAbility hp₂ hs₂ (hstart _ _ _ ?_) h₃
      exact .keepAlive hb h₁ hlauncher ⟨hother, hsystem, halive⟩ hwant
  · exact hp₂

theorem workerAbilityTransaction (R : Rule gen env q p starts answers attaches dies) (hp : p s)
    (hs : Sound gen s) {state : TransactionState} (hq : q state.token state.state)
    (hanswer : answers s state)
    (h : s.workerAbilityTransaction gen env state = .ok (status, s')) : p s' := by
  obtain ⟨t, st⟩ := state
  unfold AbilityMgr.workerAbilityTransaction at h
  cases st with
  | background =>
    have hstill : Still gen env s s' := backgroundTask_still h
    exact R.plain hp hs (backgroundTask_plains hq h) (.still hstill)
  | inactive => exact R.yields hp hs hq hanswer h
  | active => exact R.plain hp hs (activateTask_plains hq h) (.still (activateTask_still h))
  | initial => exact R.plain hp hs (stopTask_plains hq h) (stopTask_arrives hs h)
  | uninitialized =>
    cases h
    exact hp

theorem replyMsg (R : Rule gen env q p starts answers attaches dies) (hp : p s) (hs : Sound gen s)
    {r : Reply} (hq : ∀ state, r = .lifecycleDone state → q state.token state.state)
    (hanswer : ∀ state, r = .lifecycleDone state → answers s state)
    (hlauncher : ∀ state status s₁, r = .lifecycleDone state →
      s.workerAbilityTransaction gen env state = .ok (status, s₁) → status.isNoActiveAbility = true →
      starts s₁ launcherWant systemUid)
    (h : s.replyMsg gen env r = .ok s') : p s' := by
  cases r with
  | lifecycleDone state =>
    obtain ⟨status, s₁, h₁, hthen⟩ := transactionMsg_cases h
    have hp₁ : p s₁ := R.workerAbilityTransaction hp hs (hq state rfl) (hanswer state rfl) h₁
    exact (R.thenLauncher hp₁ (hs.goes (workerAbilityTransaction_goes hs h₁))
      (hlauncher state status s₁ rfl h₁) hthen).1
  | connectDone sid token =>
    simp only [AbilityMgr.replyMsg, bind_eq_ok] at h
    obtain ⟨⟨status, s₁⟩, h₁, h⟩ := h
    cases h
    have hcalm : ReflTransGen (Calm gen env) s s₁ := connectDoneTask_calm h₁
    exact R.plain hp hs (Calm.plains hcalm) (.still (.calm hcalm))
  | disconnectDone token =>
    simp only [AbilityMgr.replyMsg, bind_eq_ok] at h
    obtain ⟨⟨status, s₁⟩, h₁, h⟩ := h
    cases h
    have hcalm : ReflTransGen (Calm gen env) s s₁ := disconnectDoneTask_calm hs h₁
    exact R.plain hp hs (Calm.plains hcalm) (.still (.calm hcalm))

theorem requestMsg (R : Rule gen env q p starts answers attaches dies) (hp : p s) (hs : Sound gen s)
    {e : Event}
    (hstart : ∀ x want uid, s.RequestStarts gen env e x want uid → starts x want uid)
    (hattach : ∀ client, e = .attachBundle client → attaches s client)
    (hdies : ∀ b bundleInfo, e = .restartApp b → env.queryBundleInfo (some b) = some bundleInfo →
      dies s bundleInfo)
    (h : s.requestMsg gen env e = .ok s') : p s' := by
  cases e with
  | startAbility want uid => exact R.startAbilityMsg hp hs (hstart _ _ _ .start) h
  | terminateAbility token =>
    simp only [AbilityMgr.requestMsg, bind_eq_ok] at h
    obtain ⟨⟨status, s₁⟩, h₁, h⟩ := h
    cases h
    exact R.plain hp hs (terminateTask_plains h₁) (.still (terminateTask_still h₁))
  | attachBundle client =>
    simp only [AbilityMgr.requestMsg, bind_eq_ok] at h
    obtain ⟨⟨status, s₁⟩, h₁, h⟩ := h
    cases h
    exact R.attach hp hs (hattach client rfl) h₁
  | connectAbility want sid token uid =>
    exact R.connectAbilityMsg hp hs (fun e he hnone => hstart _ _ _ (.connect he hnone)) h
  | disconnectAbility sid token =>
    simp only [AbilityMgr.requestMsg, bind_eq_ok] at h
    obtain ⟨⟨status, s₁⟩, h₁, h⟩ := h
    cases h
    have hcalm : ReflTransGen (Calm gen env) s s₁ := disconnectTask_calm hs h₁
    exact R.plain hp hs (Calm.plains hcalm) (.still (.calm hcalm))
  | terminateService want uid =>
    obtain rfl | ⟨target, status, -, h₁⟩ := terminateServiceMsg_cases h
    · exact hp
    · exact R.plain hp hs (terminateServiceTask_plains hs h₁) (terminateServiceTask_arrives hs h₁)
  | terminateApp name =>
    simp only [AbilityMgr.requestMsg, bind_eq_ok] at h
    obtain ⟨⟨status, s₁⟩, h₁, h⟩ := h
    cases h
    exact R.terminate hp hs h₁
  | restartApp name => exact R.restartAppMsg hp hs (fun bundleInfo => hdies name bundleInfo rfl) hstart h
  | reply a =>
    cases h
    exact hp
  | perform a sid =>
    cases h
    exact hp

end Rule

/-- Every message goes by moves. -/
theorem rule_moves (s₀ : AbilityMgr) : Rule gen env q (Moves gen env q s₀) (fun _ _ _ => True)
    (fun _ _ => True) (fun _ _ => True) (fun _ _ => True) where
  plain h _ h' _ := h.trans h'.moves
  start h hs _ _ h' := h.trans (startTask_starting hs.known h').moves
  yields h hs hq _ h' := h.trans (inactivateTask_moves hs.known hq h')
  attach h _ _ h' := h.trans (attachTask_moves h')
  terminate h hs h' := h.trans (appTerminateTask_moves hs h')
  restart h hs _ h' := h.trans (appRestartTask_moves hs h')

theorem requestMsg_moves {e : Event} (hs : Sound gen s) (h : s.requestMsg gen env e = .ok s') :
    Moves gen env q s s' :=
  (rule_moves s).requestMsg .refl hs (fun _ _ _ _ => trivial) (fun _ _ => trivial)
    (fun _ _ _ _ => trivial) h

theorem replyMsg_moves {r : Reply} (hs : Sound gen s)
    (hq : ∀ state, r = .lifecycleDone state → q state.token state.state)
    (h : s.replyMsg gen env r = .ok s') : Moves gen env q s s' :=
  (rule_moves s).replyMsg .refl hs hq (fun _ _ => trivial) (fun _ _ _ _ _ _ => trivial) h

/-- No message lists what is old and off the lists. -/
theorem rule_arrives (s₀ : AbilityMgr) : Rule gen env q (Arrives gen s₀) (fun _ _ _ => True)
    (fun _ _ => True) (fun _ _ => True) (fun _ _ => True) where
  plain h _ _ h' := h.trans h'
  start h hs _ _ h' := h.trans (startTask_arrives hs h')
  yields h _ _ _ h' := h.trans (.still (inactivateTask_still h'))
  attach h _ _ h' := h.trans (.still (attachTask_still h'))
  terminate h hs h' := h.trans (appTerminateTask_arrives hs h')
  restart h hs _ h' := h.trans (appRestartTask_arrives hs h')

theorem requestMsg_arrives {e : Event} (hs : Sound gen s) (h : s.requestMsg gen env e = .ok s') :
    Arrives gen s s' :=
  (rule_arrives (q := fun _ _ => True) s).requestMsg (.refl s) hs (fun _ _ _ _ => trivial)
    (fun _ _ => trivial) (fun _ _ _ _ => trivial) h

theorem replyMsg_arrives {r : Reply} (hs : Sound gen s) (h : s.replyMsg gen env r = .ok s') :
    Arrives gen s s' :=
  (rule_arrives (q := fun _ _ => True) s).replyMsg (.refl s) hs (fun _ _ => trivial) (fun _ _ => trivial)
    (fun _ _ _ _ _ _ => trivial) h

end AbilityMgr

namespace System
variable {gen : TokenGenerate}

/-- What holds at the start, and what each move keeps and does not depend on the messages in flight,
holds in every reachable state. -/
theorem moves_invariant {p : AbilityMgr → Prop} (hinit : p {})
    (hmove : ∀ {env : Env} {a b : AbilityMgr}, AbilityMgr.Known gen a → p a →
      AbilityMgr.Move gen env (fun _ _ => True) a b → p b)
    (hsent : ∀ {a : AbilityMgr} (sent : List (Nat × Transaction)), p a → p { a with sent })
    {ok : System → Env × Event → Prop} {s : System} (h : Reached (System.next gen) ok IsInit s) :
    p s.ams := by
  have hmoves {env : Env} {a b : AbilityMgr} (hk : AbilityMgr.Known gen a) (hp : p a)
      (hab : AbilityMgr.Moves gen env (fun _ _ => True) a b) : p b := by
    have hboth : AbilityMgr.Known gen b ∧ p b := by
      refine keeps (p := fun x => AbilityMgr.Known gen x ∧ p x) ?_ hab ⟨hk, hp⟩
      intro x y hxy ⟨hkx, hpx⟩
      exact ⟨hkx.steps hxy.steps, hmove hkx hpx hxy⟩
    exact hboth.2
  have hboth : s.ams.Sound gen ∧ p s.ams := by
    have hstart : ∀ s, IsInit s → s.ams.Sound gen ∧ p s.ams := by
      rintro s rfl
      exact ⟨⟨shape_init, known_init⟩, hinit⟩
    have hstep : ∀ s e s', s.ams.Sound gen ∧ p s.ams → ok s e → System.next gen s e = some s' →
        s'.ams.Sound gen ∧ p s'.ams := by
      rintro s ⟨env, e⟩ s' ⟨hs, hp⟩ _ hnext
      have hhappens := (next_cases hnext).2
      refine ⟨hhappens.sound hs, ?_⟩
      cases hhappens with
      | request hm => exact hmoves hs.known hp (AbilityMgr.requestMsg_moves hs hm)
      | requestFault => exact hp
      | reply _ hm => exact hmoves hs.known hp (AbilityMgr.replyMsg_moves hs (fun _ _ => trivial) hm)
      | replyFault => exact hp
      | perform => exact hsent _ hp
    exact Reached.invariant hstart hstep h
  exact hboth.2

end System
end AbilityLite.Ams
