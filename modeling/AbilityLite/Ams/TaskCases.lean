import AbilityLite.Ams.Navigation

/-
  What one task can do, as a relation with a constructor for each way through it. The
  invariants of the service are proved from these, and nothing else unfolds a task.
-/

namespace AbilityLite.Ams
open AbilityMsStatus Fallible Relation
namespace AbilityMgr
variable {gen : TokenGenerate} {env : Env} {s s' : AbilityMgr} {t : Token} {a : Nat}
  {status : AbilityMsStatus}

/-! ## Starting -/

/-- A status that makes a start take its record back. -/
def undoes (status : AbilityMsStatus) : Prop := status.isProcessError ∨ status.isTransactError

instance : DecidablePred undoes := fun status => by unfold undoes; exact inferInstance

inductive StartsPage (gen : TokenGenerate) (env : Env) (want : Want) (target : AbilityInfo)
    (bundleInfo : BundleInfo) (s : AbilityMgr) : AbilityMsStatus → AbilityMgr → Prop
  /-- There is no page to bring up, or it is the one on top. -/
  | refused {page : Option Token} {s' : AbilityMgr}
      (hgen : s.generatePageAbility gen target want s.getTopPageAbility = .ok (page, s'))
      (hpage : page = none ∨ s.getTopPageAbility = page) :
      StartsPage gen env want target bundleInfo s
        (taskStatus "start" "generate ability record failure") s'
  /-- The page on top is asked to give way. -/
  | givesWay {t p : Token} {s₁ s₂ : AbilityMgr} {status : AbilityMsStatus}
      (hgen : s.generatePageAbility gen target want s.getTopPageAbility = .ok (some t, s₁))
      (htop : s.getTopPageAbility = some p) (hne : p ≠ t)
      (h : (s₁.modify t (·.setBundleInfo bundleInfo)).inactiveAbility env p = .ok (status, s₂))
      (hok : status.isOk = true) :
      StartsPage gen env want target bundleInfo s status
        ((s₂.modify p (·.setNextPageAbility (some t))).modify t (·.setPrevPageAbility (some p)))
  /-- The page on top does not give way, and the page to bring up is removed. -/
  | stays {t p : Token} {s₁ s₂ s' : AbilityMgr} {status : AbilityMsStatus}
      (hgen : s.generatePageAbility gen target want s.getTopPageAbility = .ok (some t, s₁))
      (htop : s.getTopPageAbility = some p) (hne : p ≠ t)
      (h : (s₁.modify t (·.setBundleInfo bundleInfo)).inactiveAbility env p = .ok (status, s₂))
      (hfail : status.isOk = false) (hs' : s₂.removePageAbility t = .ok s') :
      StartsPage gen env want target bundleInfo s status s'
  /-- No page is on top, and the page starts at once. -/
  | starts {t : Token} {s₁ s₂ : AbilityMgr} {status : AbilityMsStatus}
      (hgen : s.generatePageAbility gen target want s.getTopPageAbility = .ok (some t, s₁))
      (htop : s.getTopPageAbility = none)
      (h : (s₁.modify t (·.setBundleInfo bundleInfo)).startAbility gen env t = .ok (status, s₂))
      (hkeep : ¬ undoes status) : StartsPage gen env want target bundleInfo s status s₂
  | fails {t : Token} {s₁ s₂ s' : AbilityMgr} {status : AbilityMsStatus}
      (hgen : s.generatePageAbility gen target want s.getTopPageAbility = .ok (some t, s₁))
      (htop : s.getTopPageAbility = none)
      (h : (s₁.modify t (·.setBundleInfo bundleInfo)).startAbility gen env t = .ok (status, s₂))
      (hundo : undoes status) (hs' : s₂.removePageAbility t = .ok s') :
      StartsPage gen env want target bundleInfo s status s'

theorem startPageTask_cases {want : Want} {target : AbilityInfo} {bundleInfo : BundleInfo}
    (h : s.startPageTask gen env want target bundleInfo = .ok (status, s')) :
    StartsPage gen env want target bundleInfo s status s' := by
  simp only [startPageTask, bind_eq_ok] at h
  obtain ⟨⟨page, s₁⟩, hgen, h⟩ := h
  cases page with
  | none =>
    cases h
    exact .refused hgen (.inl rfl)
  | some t =>
    dsimp only at h
    split at h
    · next htop =>
      cases h
      exact .refused hgen (.inr htop)
    · next hne =>
      split at h
      · next p htop =>
        simp only [bind_eq_ok] at h
        obtain ⟨⟨status', s₂⟩, h₂, h⟩ := h
        have hpt : p ≠ t := fun he => hne (by rw [htop, he])
        dsimp only at h
        split at h
        · next hok =>
          cases h
          exact .givesWay hgen htop hpt h₂ hok
        · next hfail =>
          simp only [bind_eq_ok] at h
          obtain ⟨s₃, h₃, h⟩ := h
          cases h
          exact .stays hgen htop hpt h₂ (Bool.eq_false_iff.mpr hfail) h₃
      · next htop =>
        simp only [bind_eq_ok] at h
        obtain ⟨⟨status', s₂⟩, h₂, h⟩ := h
        dsimp only at h
        split at h
        · next hundo =>
          simp only [bind_eq_ok] at h
          obtain ⟨s₃, h₃, h⟩ := h
          cases h
          exact .fails hgen htop h₂ hundo h₃
        · next hkeep =>
          cases h
          exact .starts hgen htop h₂ hkeep

/-- How a new service is set up before it is started. -/
def setUp (bundleInfo : BundleInfo) (waitConnect : Bool) (r : PageAbilityRecord) : PageAbilityRecord :=
  if waitConnect then ((r.setBundleInfo bundleInfo).setStartDone false).setConnectStatus .waitConnect
  else (r.setBundleInfo bundleInfo).setStartDone true

theorem mild_setUp (bundleInfo : BundleInfo) (waitConnect : Bool) (r : PageAbilityRecord) :
    Mild r (setUp bundleInfo waitConnect r) := by
  unfold setUp
  split
  · exact ⟨rfl, rfl, rfl, rfl, rfl, rfl, rfl, id⟩
  · exact ⟨rfl, rfl, rfl, rfl, rfl, rfl, rfl, id⟩

/-- The state in which a new service is started: created, set up and listed. -/
def newService (gen : TokenGenerate) (want : Want) (target : AbilityInfo) (bundleInfo : BundleInfo)
    (waitConnect : Bool) (s : AbilityMgr) : AbilityMgr :=
  (((s.newPageAbility gen target want).2.modify (gen.generate s.generated)
    (setUp bundleInfo waitConnect)).pushServiceRecord (gen.generate s.generated))

theorem startServiceTask_cases {want : Want} {target : AbilityInfo} {bundleInfo : BundleInfo}
    {waitConnect : Bool}
    (h : s.startServiceTask gen env want target bundleInfo waitConnect = .ok (status, s')) :
    (∃ t, s.findServiceRecordByName target.bundleName target.name = some t ∧
      status.isOk = false ∧ s' = s) ∨
      (s.findServiceRecordByName target.bundleName target.name = none ∧ ∃ s₁,
        (s.newService gen want target bundleInfo waitConnect).startService gen env
          (gen.generate s.generated) = .ok (status, s₁) ∧
        ((undoes status ∧ s₁.removeServiceRecord (gen.generate s.generated) = .ok s') ∨
          (¬ undoes status ∧ s' = s₁))) := by
  unfold startServiceTask at h
  split at h
  · next t ht =>
    cases h
    exact .inl ⟨t, ht, rfl, rfl⟩
  · next hnone =>
    refine .inr ⟨hnone, ?_⟩
    dsimp only [newPageAbility] at h
    simp only [bind_eq_ok] at h
    obtain ⟨⟨status', s₁⟩, h₁, h⟩ := h
    dsimp only at h
    split at h
    · next hundo =>
      simp only [bind_eq_ok] at h
      obtain ⟨s₂, h₂, h⟩ := h
      cases h
      exact ⟨s₁, h₁, .inl ⟨hundo, h₂⟩⟩
    · next hkeep =>
      cases h
      exact ⟨_, h₁, .inr ⟨hkeep, rfl⟩⟩

/-! ## Replies of the lifecycle -/

theorem findPageAbility_none (h : s.findPageAbility t = none) : ¬ s.Listed t := by
  intro hl
  rw [findPageAbility_eq_some.mpr ⟨rfl, hl⟩] at h
  cases h

inductive Activates (env : Env) (t : Token) (s : AbilityMgr) : AbilityMsStatus → AbilityMgr → Prop
  | unknown (hl : ¬ s.Listed t) :
      Activates env t s (taskStatus "activate" "ability record not found") s
  | service {r : PageAbilityRecord} (hl : s.Listed t) (hr : s.records t = some r)
      (hservice : r.isService = true) : Activates env t s .ok (s.modify t (·.setCurrentState .active))
  /-- The page that gave way goes to the background. -/
  | background {r : PageAbilityRecord} {prev : Token} {status : AbilityMsStatus} {s₁ : AbilityMgr}
      (hl : s.Listed t) (hr : s.records t = some r) (hpage : r.isService = false)
      (hprev : r.prevPageAbility = some prev)
      (h : (s.modify t (·.setCurrentState .active)).toBackgroundAbility env prev = .ok (status, s₁)) :
      Activates env t s status (s₁.modify t (·.setPrevPageAbility none))
  /-- The page that went back is stopped. -/
  | stop {r : PageAbilityRecord} {next : Token} {status : AbilityMsStatus} {s₁ : AbilityMgr}
      (hl : s.Listed t) (hr : s.records t = some r) (hpage : r.isService = false)
      (hprev : r.prevPageAbility = none) (hnext : r.nextPageAbility = some next)
      (h : (s.modify t (·.setCurrentState .active)).stopAbility env next = .ok (status, s₁)) :
      Activates env t s status (s₁.modify t (·.setNextPageAbility none))
  | alone {r : PageAbilityRecord} (hl : s.Listed t) (hr : s.records t = some r)
      (hpage : r.isService = false) (hprev : r.prevPageAbility = none)
      (hnext : r.nextPageAbility = none) :
      Activates env t s .ok (s.modify t (·.setCurrentState .active))

theorem activateTask_cases (h : s.activateTask env t = .ok (status, s')) :
    Activates env t s status s' := by
  unfold activateTask at h
  split at h
  · next hnone =>
    cases h
    exact .unknown (findPageAbility_none hnone)
  · next p hp =>
    obtain ⟨rfl, hl⟩ := findPageAbility_eq_some.mp hp
    simp only [bind_eq_ok, record_eq_ok] at h
    obtain ⟨r, hr, h⟩ := h
    split at h
    · next hservice =>
      cases h
      exact .service hl hr (decide_eq_true hservice)
    · next hpage =>
      have hpage' : r.isService = false := decide_eq_false hpage
      split at h
      · next prev hprev =>
        simp only [bind_eq_ok] at h
        obtain ⟨⟨status', s₁⟩, h₁, h⟩ := h
        cases h
        exact .background hl hr hpage' hprev h₁
      · next hprev =>
        split at h
        · next next hnext =>
          simp only [bind_eq_ok] at h
          obtain ⟨⟨status', s₁⟩, h₁, h⟩ := h
          cases h
          exact .stop hl hr hpage' hprev hnext h₁
        · next hnext =>
          cases h
          exact .alone hl hr hpage' hprev hnext

inductive Inactivates (gen : TokenGenerate) (env : Env) (t : Token) (s : AbilityMgr) :
    AbilityMsStatus → AbilityMgr → Prop
  | unknown (hl : ¬ s.Listed t) :
      Inactivates gen env t s (taskStatus "inactivate" "ability record not found") s
  /-- A service that has come up connects to the clients that wait. -/
  | connect {r : PageAbilityRecord} {status : AbilityMsStatus} {s' : AbilityMgr} (hl : s.Listed t)
      (hr : s.records t = some r) (hservice : r.isService = true)
      (hwait : r.connectStatus = .waitConnect)
      (h : ((s.modify t (·.setCurrentState .inactive)).modify t
        (·.setConnectStatus .connecting)).connectAbility env t = .ok (status, s')) :
      Inactivates gen env t s status s'
  | service {r : PageAbilityRecord} (hl : s.Listed t) (hr : s.records t = some r)
      (hservice : r.isService = true) (hwait : r.connectStatus ≠ .waitConnect) :
      Inactivates gen env t s .ok (s.modify t (·.setCurrentState .inactive))
  /-- The page that waits for this one to give way starts. -/
  | next {r : PageAbilityRecord} {next : Token} {status : AbilityMsStatus} {s₁ : AbilityMgr}
      (hl : s.Listed t) (hr : s.records t = some r) (hpage : r.isService = false)
      (hnext : r.nextPageAbility = some next)
      (h : (s.modify t (·.setCurrentState .inactive)).startAbility gen env next = .ok (status, s₁)) :
      Inactivates gen env t s status (s₁.modify t (·.setNextPageAbility none))
  /-- The page goes back to another. -/
  | back {r : PageAbilityRecord} {prev : Token} {status : AbilityMsStatus} {s₁ : AbilityMgr}
      (hl : s.Listed t) (hr : s.records t = some r) (hpage : r.isService = false)
      (hnext : r.nextPageAbility = none)
      (hprev : (s.modify t (·.setCurrentState .inactive)).getPrevPageAbility r t = .ok (some prev))
      (h : (s.modify t (·.setCurrentState .inactive)).activeAbility env prev = .ok (status, s₁)) :
      Inactivates gen env t s status (s₁.modify prev (·.setNextPageAbility (some t)))
  /-- The page stops, with none to go back to. -/
  | home {r : PageAbilityRecord} {status : AbilityMsStatus} {s' : AbilityMgr}
      (hl : s.Listed t) (hr : s.records t = some r) (hpage : r.isService = false)
      (hnext : r.nextPageAbility = none)
      (hprev : (s.modify t (·.setCurrentState .inactive)).getPrevPageAbility r t = .ok none)
      (h : (s.modify t (·.setCurrentState .inactive)).stopAbility env t = .ok (status, s')) :
      Inactivates gen env t s (noActiveAbilityStatus "inactivate" "start launcher") s'

theorem inactivateTask_cases (h : s.inactivateTask gen env t = .ok (status, s')) :
    Inactivates gen env t s status s' := by
  unfold inactivateTask at h
  split at h
  · next hnone =>
    cases h
    exact .unknown (findPageAbility_none hnone)
  · next p hp =>
    obtain ⟨rfl, hl⟩ := findPageAbility_eq_some.mp hp
    simp only [bind_eq_ok, record_eq_ok] at h
    obtain ⟨r, hr, h⟩ := h
    split at h
    · next hservice =>
      split at h
      · next hwait => exact .connect hl hr (decide_eq_true hservice) hwait h
      · next hwait =>
        cases h
        exact .service hl hr (decide_eq_true hservice) hwait
    · next hpage =>
      have hpage' : r.isService = false := decide_eq_false hpage
      split at h
      · next next hnext =>
        simp only [bind_eq_ok] at h
        obtain ⟨⟨status', s₁⟩, h₁, h⟩ := h
        cases h
        exact .next hl hr hpage' hnext h₁
      · next hnext =>
        simp only [bind_eq_ok] at h
        obtain ⟨prevAbility, hprev, h⟩ := h
        cases prevAbility with
        | some prev =>
          simp only [bind_eq_ok] at h
          obtain ⟨⟨status', s₁⟩, h₁, h⟩ := h
          cases h
          exact .back hl hr hpage' hnext hprev h₁
        | none =>
          simp only [bind_eq_ok] at h
          obtain ⟨⟨status', s₁⟩, h₁, h⟩ := h
          cases h
          exact .home hl hr hpage' hnext hprev h₁

theorem backgroundTask_cases (h : s.backgroundTask t = .ok (status, s')) :
    (¬ s.Listed t ∧ s' = s) ∨
      (s.Listed t ∧ (∃ r, s.records t = some r) ∧ s' = s.modify t (·.setCurrentState .background)) := by
  unfold backgroundTask at h
  split at h
  · next hnone =>
    cases h
    exact .inl ⟨findPageAbility_none hnone, rfl⟩
  · next p hp =>
    obtain ⟨rfl, hl⟩ := findPageAbility_eq_some.mp hp
    simp only [bind_eq_ok, record_eq_ok] at h
    obtain ⟨r, hr, h⟩ := h
    cases h
    exact .inr ⟨hl, ⟨r, hr⟩, rfl⟩

/-- The process of an ability exits, if it has to. -/
def ExitsIf (exits : Prop) (env : Env) (t : Token) (s : AbilityMgr) (s' : AbilityMgr) : Prop :=
  (exits ∧ ∃ status, s.exitApp env t = .ok (status, s')) ∨ (¬ exits ∧ s' = s)

/-- The page at the bottom of the mission of a record. -/
def bottomOf (s : AbilityMgr) (r : PageAbilityRecord) : Except Fault (Option Token) :=
  match r.missionRecord with
  | none => .ok none
  | some id => do
    let m ← s.mission id
    .ok m.getBottomPageAbility

inductive Stops (env : Env) (t : Token) (s : AbilityMgr) : AbilityMgr → Prop
  | unknown (hl : ¬ s.Listed t) : Stops env t s s
  | stopped {r : PageAbilityRecord} (hl : s.Listed t) (hr : s.records t = some r)
      (hservice : r.isService = true) (hstopped : r.connectStatus = .stopped) :
      Stops env t s (s.modify t (·.setCurrentState .initial))
  | service {r : PageAbilityRecord} {status : AbilityMsStatus} {s₁ s₂ s' : AbilityMgr}
      (hl : s.Listed t) (hr : s.records t = some r) (hservice : r.isService = true)
      (hstopped : r.connectStatus ≠ .stopped)
      (h₁ : (s.modify t (·.setCurrentState .initial)).stopAbilityDone env t = .ok (status, s₁))
      (h₂ : ExitsIf (s₁.existAppInStack r.abilityInfo.bundleName = false ∧
        s₁.countServiceInApp r.abilityInfo.bundleName = 1) env t s₁ s₂)
      (h : s₂.removeServiceRecord t = .ok s') : Stops env t s s'
  | page {r : PageAbilityRecord} {bottom : Option Token} {s₁ s' : AbilityMgr}
      (hl : s.Listed t) (hr : s.records t = some r) (hpage : r.isService = false)
      (hbottom : (s.modify t (·.setCurrentState .initial)).bottomOf r = .ok bottom)
      (h₁ : ExitsIf (bottom = some t ∧
        (s.modify t (·.setCurrentState .initial)).countServiceInApp r.abilityInfo.bundleName = 0)
        env t (s.modify t (·.setCurrentState .initial)) s₁)
      (h : s₁.removePageAbility t = .ok s') : Stops env t s s'

theorem stopTask_cases (h : s.stopTask env t = .ok (status, s')) : Stops env t s s' := by
  unfold stopTask at h
  split at h
  · next hnone =>
    cases h
    exact .unknown (findPageAbility_none hnone)
  · next p hp =>
    obtain ⟨rfl, hl⟩ := findPageAbility_eq_some.mp hp
    simp only [bind_eq_ok, record_eq_ok] at h
    obtain ⟨r, hr, h⟩ := h
    split at h
    · next hservice =>
      split at h
      · next hstopped =>
        cases h
        exact .stopped hl hr (decide_eq_true hservice) hstopped
      · next hstopped =>
        simp only [bind_eq_ok] at h
        obtain ⟨⟨status₁, s₁⟩, h₁, h⟩ := h
        dsimp only at h
        split at h
        · next hexit =>
          simp only [bind_eq_ok] at h
          obtain ⟨⟨status₂, s₂⟩, h₂, s₃, h₃, h⟩ := h
          cases h
          exact .service hl hr (decide_eq_true hservice) hstopped h₁ (.inl ⟨hexit, status₂, h₂⟩) h₃
        · next hexit =>
          simp only [bind_eq_ok] at h
          obtain ⟨⟨status₂, s₂⟩, h₂, s₃, h₃, h⟩ := h
          cases h₂
          cases h
          exact .service hl hr (decide_eq_true hservice) hstopped h₁ (.inr ⟨hexit, rfl⟩) h₃
    · next hpage =>
      have hbottom (k : Option Token → Result)
          (h : (match r.missionRecord with
            | none => do let b ← .ok none; k b
            | some id => do
              let m ← (s.modify p (·.setCurrentState .initial)).mission id
              let b ← .ok m.getBottomPageAbility
              k b) = (.ok (status, s') : Result)) :
          ∃ bottom, (s.modify p (·.setCurrentState .initial)).bottomOf r = .ok bottom ∧
            k bottom = .ok (status, s') := by
        unfold bottomOf
        cases hm : r.missionRecord with
        | none =>
          rw [hm] at h
          exact ⟨none, rfl, h⟩
        | some id =>
          rw [hm] at h
          simp only [bind_eq_ok] at h
          obtain ⟨m, hm, b, hb, h⟩ := h
          cases hb
          exact ⟨_, by simp only [hm]; rfl, h⟩
      obtain ⟨bottom, hb, h⟩ := hbottom _ h
      split at h
      · next hexit =>
        simp only [bind_eq_ok] at h
        obtain ⟨⟨status₂, s₂⟩, h₂, s₃, h₃, h⟩ := h
        cases h
        exact .page hl hr (decide_eq_false hpage) hb (.inl ⟨hexit, status₂, h₂⟩) h₃
      · next hexit =>
        simp only [bind_eq_ok] at h
        obtain ⟨⟨status₂, s₂⟩, h₂, s₃, h₃, h⟩ := h
        cases h₂
        cases h
        exact .page hl hr (decide_eq_false hpage) hb (.inr ⟨hexit, rfl⟩) h₃

/-! ## Terminating -/

theorem terminateTask_cases (h : s.terminateTask env t = .ok (status, s')) :
    (¬ s.Listed t ∧ s' = s) ∨
      (s.Listed t ∧ ∃ r, s.records t = some r ∧
        ((r.isService = true ∧ s.forceStopServiceAbility env t = .ok (status, s')) ∨
          (r.isService = false ∧ s.inactiveAbility env t = .ok (status, s')))) := by
  unfold terminateTask at h
  split at h
  · next hnone =>
    cases h
    exact .inl ⟨findPageAbility_none hnone, rfl⟩
  · next p hp =>
    obtain ⟨rfl, hl⟩ := findPageAbility_eq_some.mp hp
    simp only [bind_eq_ok, record_eq_ok] at h
    obtain ⟨r, hr, h⟩ := h
    refine .inr ⟨hl, r, hr, ?_⟩
    split at h
    · next hservice => exact .inl ⟨decide_eq_true hservice, h⟩
    · next hpage => exact .inr ⟨decide_eq_false hpage, h⟩

/-- The page on top, if there is one, is brought to the foreground. -/
def Resumes (env : Env) (s s' : AbilityMgr) : Prop :=
  (s.getTopPageAbility = none ∧ s' = s) ∨
    ∃ top status, s.getTopPageAbility = some top ∧ s.activeAbility env top = .ok (status, s')

/-- The bundle is cleared away, and the page then on top resumes. -/
def Clears (env : Env) (name : CString) (s s' : AbilityMgr) : Prop :=
  ∃ s₁, s.clearAbilityStack env name = .ok s₁ ∧
    Resumes env (s₁.removeAppRecordByName (some name)) s'

theorem terminateAppProcess_cases {name : Option CString}
    (h : s.terminateAppProcess env name = .ok (status, s')) :
    (s.getAppRecordByBundleName name = none ∧ status = .ok ∧ s' = s) ∨
      ∃ app, s.getAppRecordByBundleName name = some app ∧
        s.appExitTransaction env app.identityId = .ok (status, s') := by
  unfold terminateAppProcess at h
  split at h
  · next hnone =>
    cases h
    exact .inl ⟨hnone, rfl, rfl⟩
  · next app happ => exact .inr ⟨app, happ, h⟩

/-- A bundle is cleared away once its process was told to exit, or when it has none. -/
inductive Terminates (env : Env) (name : CString) (s : AbilityMgr) : AbilityMgr → Prop
  | refused {app : AppRecord} (happ : s.getAppRecordByBundleName (some name) = some app)
      (hreach : ¬ s.Reaches env app.identityId .appExit) : Terminates env name s s
  | alone {s' : AbilityMgr} (happ : s.getAppRecordByBundleName (some name) = none)
      (h : Clears env name s s') : Terminates env name s s'
  | exits {app : AppRecord} {s' : AbilityMgr} (happ : s.getAppRecordByBundleName (some name) = some app)
      (hreach : s.Reaches env app.identityId .appExit)
      (h : Clears env name (s.send app.identityId .appExit) s') : Terminates env name s s'

theorem appExitTransaction_reaches (h : s.appExitTransaction env a = .ok (status, s')) :
    (¬ s.Reaches env a .appExit ∧ status.isOk = false ∧ s' = s) ∨
      (s.Reaches env a .appExit ∧ status = .ok ∧ s' = s.send a .appExit) := by
  simp only [appExitTransaction, bind_eq_ok, appRecord_eq_ok] at h
  obtain ⟨app, happ, h⟩ := h
  have hreach : s.Reaches env a .appExit ↔
      app.abilityThreadClient.isSome ∧ env.sends a .appExit = true := by
    unfold Reaches
    rw [happ]
    exact ⟨fun ⟨_, ha, h⟩ => (by cases ha; exact h), fun h => ⟨app, rfl, h⟩⟩
  rw [hreach]
  split at h
  · next hc =>
    cases h
    exact .inl ⟨fun h => (by rw [hc] at h; cases h.1), rfl, rfl⟩
  · next c hc =>
    split at h
    · next hs =>
      cases h
      exact .inr ⟨⟨by rw [hc]; rfl, hs⟩, rfl, rfl⟩
    · next hs =>
      cases h
      exact .inl ⟨fun h => hs h.2, rfl, rfl⟩

theorem resumes_cases {k : AbilityMsStatus}
    (h : (match s.getTopPageAbility with
      | none => .ok (k, s)
      | some top => do
        let (_, s) ← s.activeAbility env top
        .ok (.ok, s)) = (.ok (status, s') : Result)) : Resumes env s s' := by
  split at h
  · next hnone =>
    cases h
    exact .inl ⟨hnone, rfl⟩
  · next top htop =>
    simp only [bind_eq_ok] at h
    obtain ⟨⟨st, s₁⟩, h₁, h⟩ := h
    cases h
    exact .inr ⟨top, st, htop, h₁⟩

theorem appTerminateTask_cases {name : CString} (h : s.appTerminateTask env name = .ok (status, s')) :
    Terminates env name s s' := by
  simp only [appTerminateTask, bind_eq_ok] at h
  obtain ⟨⟨st, s₁⟩, h₁, h⟩ := h
  have hclears (hok : st.isOk = true) : Clears env name s₁ s' := by
    dsimp only at h
    rw [hok, if_pos rfl] at h
    simp only [bind_eq_ok] at h
    obtain ⟨s₂, h₂, h⟩ := h
    exact ⟨s₂, h₂, resumes_cases h⟩
  rcases terminateAppProcess_cases h₁ with ⟨hnone, rfl, rfl⟩ | ⟨app, happ, h₁⟩
  · exact .alone hnone (hclears rfl)
  · rcases appExitTransaction_reaches h₁ with ⟨hreach, hfail, rfl⟩ | ⟨hreach, rfl, rfl⟩
    · dsimp only at h
      rw [hfail] at h
      cases h
      exact .refused happ hreach
    · exact .exits happ hreach (hclears rfl)

theorem appRestartTask_cases {bundleInfo : BundleInfo}
    (h : s.appRestartTask env bundleInfo = .ok (status, s')) :
    (bundleInfo.bundleName = none ∧ status.isNoActiveAbility = false ∧ s' = s) ∨
      ∃ name, bundleInfo.bundleName = some name ∧ Clears env name s s' := by
  unfold appRestartTask at h
  split at h
  · next hnone =>
    cases h
    exact .inl ⟨hnone, rfl, rfl⟩
  · next name hname =>
    simp only [bind_eq_ok] at h
    obtain ⟨s₁, h₁, h⟩ := h
    exact .inr ⟨name, hname, s₁, h₁, resumes_cases h⟩

/-! ## Attaching -/

/-- The process record a client attaches to, and what becomes of it. -/
inductive Attaches (env : Env) (client : AbilityThreadClient) (s : AbilityMgr) : AbilityMgr → Prop
  | unknown (happ : s.getAppRecordByToken client.token client.pid = none) : Attaches env client s s
  /-- The client cannot be watched. -/
  | unwatched {app : AppRecord} (happ : s.getAppRecordByToken client.token client.pid = some app) :
      Attaches env client s (s.modifyApp app.identityId (·.setClient client))
  /-- The process gets no permissions, and is told to exit if it can be reached. -/
  | denied {app : AppRecord} {s₁ s' : AbilityMgr}
      (happ : s.getAppRecordByToken client.token client.pid = some app)
      (hexit : s₁ = s.modifyApp app.identityId (·.setClient client) ∨
        ((s.modifyApp app.identityId (·.setClient client)).Reaches env app.identityId .appExit ∧
          s₁ = (s.modifyApp app.identityId (·.setClient client)).send app.identityId .appExit))
      (h : s₁.removeAppRecord app.identityId = .ok s') : Attaches env client s s'
  /-- The process is set up, and the ability that waits for it is launched. -/
  | launches {app : AppRecord} {m : Transaction} {status : AbilityMsStatus} {s' : AbilityMgr}
      (happ : s.getAppRecordByToken client.token client.pid = some app) (hm : m.token = none)
      (hreach : (s.modifyApp app.identityId (·.setClient client)).Reaches env app.identityId m)
      (h : ((s.modifyApp app.identityId (·.setClient client)).send app.identityId
        m).launchPendingAbility env app.identityId = .ok (status, s')) : Attaches env client s s'

theorem appInitTransaction_cases (h : s.appInitTransaction env a = .ok (status, s')) :
    (s' = s ∧ status.isOk = false) ∨
      (status = .ok ∧ ∃ info, s.Reaches env a (.appInit info) ∧ s' = s.send a (.appInit info)) := by
  simp only [appInitTransaction, bind_eq_ok, appRecord_eq_ok] at h
  obtain ⟨app, happ, h⟩ := h
  split at h
  · cases h
    exact .inl ⟨rfl, rfl⟩
  · next c hc =>
    split at h
    · cases h
      exact .inl ⟨rfl, rfl⟩
    · split at h
      · next hs =>
        cases h
        exact .inr ⟨rfl, _, ⟨app, happ, by rw [hc]; rfl, hs⟩, rfl⟩
      · cases h
        exact .inl ⟨rfl, rfl⟩

theorem loadPermission_cases (h : s.loadPermission env a = .ok (status, s')) :
    (status = .ok ∧ s' = s) ∨
      (status.isOk = false ∧
        (s' = s ∨ (s.Reaches env a .appExit ∧ s' = s.send a .appExit))) := by
  simp only [loadPermission, bind_eq_ok] at h
  obtain ⟨app, _, h⟩ := h
  split at h
  · cases h
    exact .inl ⟨rfl, rfl⟩
  · simp only [bind_eq_ok] at h
    obtain ⟨⟨st, s₁⟩, h₁, h⟩ := h
    cases h
    refine .inr ⟨rfl, ?_⟩
    rcases appExitTransaction_reaches h₁ with ⟨_, _, hs⟩ | ⟨hreach, _, hs⟩
    · exact .inl hs
    · exact .inr ⟨hreach, hs⟩

theorem attachTask_cases {client : AbilityThreadClient}
    (h : s.attachTask env client = .ok (status, s')) : Attaches env client s s' := by
  unfold attachTask at h
  split at h
  · next hnone =>
    cases h
    exact .unknown hnone
  · next app happ =>
    simp only [bind_eq_ok] at h
    obtain ⟨⟨st₁, s₁⟩, h₁, h⟩ := h
    have hs₁ : s₁ = s.modifyApp app.identityId (·.setClient client) := by
      simp only [setAbilityThreadClient, bind_eq_ok] at h₁
      obtain ⟨_, _, h₁⟩ := h₁
      split at h₁
      · cases h₁
        rfl
      · split at h₁ <;> cases h₁ <;> rfl
    dsimp only at h
    split at h
    · cases h
      rw [hs₁]
      exact .unwatched happ
    · simp only [bind_eq_ok] at h
      obtain ⟨⟨st₂, s₂⟩, h₂, h⟩ := h
      rcases loadPermission_cases h₂ with ⟨rfl, rfl⟩ | ⟨hfail, hs₂⟩
      · simp only [isOk_ok, Bool.not_true, Bool.false_eq_true, if_false, bind_eq_ok] at h
        obtain ⟨⟨st₃, s₃⟩, h₃, h⟩ := h
        rcases appInitTransaction_cases h₃ with ⟨rfl, hfail⟩ | ⟨rfl, info, hreach, rfl⟩
        · dsimp only at h
          rw [hfail] at h
          cases h
          rw [hs₁]
          exact .unwatched happ
        · subst hs₁
          exact .launches happ rfl hreach h
      · dsimp only at h
        rw [hfail, Bool.not_false, if_pos rfl] at h
        simp only [bind_eq_ok] at h
        obtain ⟨s₃, h₃, h⟩ := h
        cases h
        subst hs₁
        exact .denied happ hs₂ h₃

theorem launchPendingAbility_cases (h : s.launchPendingAbility env a = .ok (status, s')) :
    ∃ app, s.app a = some app ∧
      ((app.pendingAbilityRecord = none ∧ status.isOk = false ∧ s' = s) ∨
        ∃ t r s₁, app.pendingAbilityRecord = some t ∧ s.records t = some r ∧
          ((r.isService = true ∧ s.inactiveAbility env t = .ok (status, s₁)) ∨
            (r.isService = false ∧ s.activeAbility env t = .ok (status, s₁))) ∧
          s' = s₁.modifyApp a (·.setPendingAbility none)) := by
  simp only [launchPendingAbility, bind_eq_ok, appRecord_eq_ok] at h
  obtain ⟨app, happ, h⟩ := h
  refine ⟨app, happ, ?_⟩
  split at h
  · next hnone =>
    cases h
    exact .inl ⟨hnone, rfl, rfl⟩
  · next t ht =>
    simp only [bind_eq_ok, record_eq_ok] at h
    obtain ⟨r, hr, h⟩ := h
    split at h
    · next hservice =>
      simp only [bind_eq_ok] at h
      obtain ⟨⟨st, s₁⟩, h₁, h⟩ := h
      cases h
      exact .inr ⟨t, r, s₁, ht, hr, .inl ⟨decide_eq_true hservice, h₁⟩, rfl⟩
    · next hpage =>
      simp only [bind_eq_ok] at h
      obtain ⟨⟨st, s₁⟩, h₁, h⟩ := h
      cases h
      exact .inr ⟨t, r, s₁, ht, hr, .inr ⟨decide_eq_false hpage, h₁⟩, rfl⟩

end AbilityMgr
end AbilityLite.Ams
