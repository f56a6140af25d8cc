import AbilityLite.Ams.Runs

/-
  What AMS does without touching the connection of a service or the want of a page, and without
  linking a page to another.

  `Frame` collects the changes that most of AMS is made of: a relation between states that
  allows them holds over every function that makes no other change. What is left for a
  relation to show are the functions that connect, disconnect and stop services, and
  `ActiveAbility`.
-/

namespace AbilityLite.Ams
open AbilityMsStatus Fallible Relation

/-- The transaction asks a service to disconnect. -/
def Transaction.asksDisconnect (t : Token) (m : Transaction) : Bool :=
  match m with
  | .disconnect _ token => token = t
  | _ => false

/-- The want an ability is made active with. -/
def Transaction.activeWant (t : Token) (m : Transaction) : Option Want :=
  match m with
  | .lifecycle ⟨token, .active⟩ want _ => if token = t then some want else none
  | _ => none

theorem asksDisconnect_of_token {m : Transaction} (hm : m.token = none) (t : Token) :
    m.asksDisconnect t = false := by
  cases m with
  | disconnect want token => cases hm
  | _ => rfl

theorem activeWant_of_token {m : Transaction} (hm : m.token = none) (t : Token) :
    m.activeWant t = none := by
  cases m with
  | lifecycle state want type => cases hm
  | _ => rfl

theorem activeWant_of_state {state : TransactionState} {want : Want} {type : AbilityType}
    (h : state.state ≠ .active) (t : Token) :
    (Transaction.lifecycle state want type).activeWant t = none := by
  obtain ⟨token, st⟩ := state
  cases st with
  | active => exact absurd rfl h
  | _ => rfl

namespace PageAbilityRecord

/-- A change that leaves the connection of a service and its clients as they are. -/
structure SameConnection (r r' : PageAbilityRecord) : Prop where
  connectStatus : r'.connectStatus = r.connectStatus
  connectRecords : r'.connectRecords = r.connectRecords
  forceStop : r'.forceStop = r.forceStop

/-- A page that the record refers to: the next or the previous one of a hand-over. -/
def LinksTo (r : PageAbilityRecord) (u : Token) : Prop :=
  r.nextPageAbility = some u ∨ r.prevPageAbility = some u

theorem LinksTo.of_same {r r' : PageAbilityRecord} (hnext : r'.nextPageAbility = r.nextPageAbility)
    (hprev : r'.prevPageAbility = r.prevPageAbility) {u : Token} (h : r'.LinksTo u) : r.LinksTo u := by
  unfold LinksTo at h
  rw [hnext, hprev] at h
  exact h

theorem LinksTo.of_next_none {r : PageAbilityRecord} {u : Token}
    (h : (r.setNextPageAbility none).LinksTo u) : r.LinksTo u := by
  rcases h with h | h
  · cases h
  · exact .inr h

theorem LinksTo.of_prev_none {r : PageAbilityRecord} {u : Token}
    (h : (r.setPrevPageAbility none).LinksTo u) : r.LinksTo u := by
  rcases h with h | h
  · exact .inl h
  · cases h

end PageAbilityRecord

namespace AbilityMgr
variable {gen : TokenGenerate} {env : Env} {s s' : AbilityMgr} {t : Token} {a id : Nat}
  {st : StackType} {status : AbilityMsStatus} {m : AbilityMissionRecord}

/-- The state in which the page that waits for the process of a client is launched. -/
def Launches (s : AbilityMgr) (client : AbilityThreadClient) (x : AbilityMgr) (t : Token) : Prop :=
  ∃ m app app', s.getAppRecordByToken client.token client.pid = some app ∧ m.token = none ∧
    x = (s.modifyApp app.identityId (·.setClient client)).send app.identityId m ∧
    x.app app.identityId = some app' ∧ app'.pendingAbilityRecord = some t

/-- A relation that allows what touches neither the connection of a service nor a want, and links no
page to another. -/
structure Frame (gen : TokenGenerate) (R : AbilityMgr → AbilityMgr → Prop) : Prop where
  refl : ∀ s, R s s
  trans : ∀ {s s' s''}, R s s' → R s' s'' → R s s''
  same : ∀ {s s' : AbilityMgr}, s'.serviceRecords = s.serviceRecords → s'.records = s.records →
    s'.sent = s.sent → s'.callbacks = s.callbacks → s.generated ≤ s'.generated → R s s'
  edit : ∀ {s : AbilityMgr} {t f}, (∀ r, PageAbilityRecord.SameConnection r (f r)) →
    (∀ r, (f r).want = r.want) → (∀ r u, (f r).LinksTo u → r.LinksTo u) → R s (s.modify t f)
  send : ∀ {s : AbilityMgr} {a m}, (∀ t, m.asksDisconnect t = false) → (∀ t, m.activeWant t = none) →
    R s (s.send a m)
  create : ∀ {s : AbilityMgr} {info want f}, (∀ r, r.connectRecords = [] → r.connectStatus = .init →
      (f r).connectRecords = [] ∧ (f r).connectStatus ≠ .disconnecting) →
    (∀ r u, (f r).LinksTo u → r.LinksTo u) →
    R s ((s.newPageAbility gen info want).2.modify (gen.generate s.generated) f)
  push : ∀ {s : AbilityMgr} {t}, R s (s.pushServiceRecord t)
  delete : ∀ {s s' : AbilityMgr} {t}, s.delete t = .ok s' → R s s'

namespace Frame
variable {R : AbilityMgr → AbilityMgr → Prop}

theorem lists (F : Frame gen R) (h : OnlyLists s s') (hservices : s'.serviceRecords = s.serviceRecords) :
    R s s' :=
  F.same hservices h.records h.sent h.callbacks (Nat.le_of_eq h.generated.symm)

theorem modifyApp (F : Frame gen R) (f : AppRecord → AppRecord) : R s (s.modifyApp a f) :=
  F.same rfl rfl rfl rfl (Nat.le_refl _)

/-! ## Transactions -/

theorem transact (F : Frame gen R) {m : Transaction} {want : Want} {e₁ e₂ e₃ : AbilityMsStatus}
    (hm : ∀ t, m.asksDisconnect t = false) (hactive : ∀ t, m.activeWant t = none)
    (h : s.transact env a m want e₁ e₂ e₃ = .ok (status, s')) : R s s' := by
  rcases transact_cases h with ⟨rfl, -⟩ | ⟨-, rfl, -⟩
  · exact F.refl _
  · exact F.send hm hactive

theorem asks (F : Frame gen R) {state : State} (hstate : state ≠ .active)
    (h : s.Asks env t state s') : R s s' := by
  obtain ⟨r, a, _, _, _, rfl⟩ := h
  exact F.send (fun _ => rfl) (activeWant_of_state hstate)

/-- A relation that also allows the transaction and lets the identity go. -/
theorem activeAbility (F : Frame gen R) (hsend : ∀ {s s' : AbilityMgr}, s.Asks env t .active s' → R s s')
    (hfree : ∀ s : AbilityMgr, R s (s.modify t (·.freeSid)))
    (h : s.activeAbility env t = .ok (status, s')) : R s s' := by
  obtain ⟨r, _, ⟨_, _, rfl⟩ | ⟨_, _, rfl | rfl⟩ | ⟨_, _, s₁, hasks, rfl⟩⟩ := activeAbility_cases h
  · exact F.refl _
  · exact F.refl _
  · exact hfree _
  · exact F.trans (hsend hasks) (hfree _)

theorem inactiveAbility (F : Frame gen R) (h : s.inactiveAbility env t = .ok (status, s')) : R s s' := by
  obtain ⟨r, _, ⟨_, _, rfl⟩ | ⟨_, _, rfl⟩ | ⟨_, _, hasks⟩⟩ := inactiveAbility_cases h
  · exact F.refl _
  · exact F.refl _
  · exact F.asks (by decide) hasks

theorem toBackgroundAbility (F : Frame gen R) (h : s.toBackgroundAbility env t = .ok (status, s')) :
    R s s' := by
  obtain ⟨r, _, ⟨_, _, rfl⟩ | ⟨_, _, rfl⟩ | ⟨_, _, hasks⟩⟩ := toBackgroundAbility_cases h
  · exact F.refl _
  · exact F.refl _
  · exact F.asks (by decide) hasks

theorem stopAbility (F : Frame gen R) (h : s.stopAbility env t = .ok (status, s')) : R s s' := by
  obtain ⟨r, _, ⟨_, _, rfl⟩ | ⟨_, _, rfl⟩ | ⟨_, _, hasks⟩⟩ := stopAbility_cases h
  · exact F.refl _
  · exact F.refl _
  · exact F.asks (by decide) hasks

/-! ## Starting -/

theorem startAppProcess (F : Frame gen R) {bundleInfo : BundleInfo} {o : Option Nat}
    (h : s.startAppProcess gen env bundleInfo = (o, s')) : R s s' := by
  rcases startAppProcess_cases h with ⟨_, rfl | rfl⟩ | ⟨_, _, _, rfl⟩ | ⟨_, _, _, _, rfl⟩
  · exact F.refl _
  · exact F.same rfl rfl rfl rfl (Nat.le_succ _)
  · exact F.refl _
  · exact F.same rfl rfl rfl rfl (Nat.le_succ _)

theorem startWith (F : Frame gen R) {first : Token → AbilityMgr → Result}
    (hfirst : ∀ status s₁, first t s = .ok (status, s₁) → R s s₁)
    (h : s.startWith gen env first t = .ok (status, s')) : R s s' := by
  have haccept (s : AbilityMgr) : R s (s.modify t (·.accept)) :=
    F.edit (fun _ => ⟨rfl, rfl, rfl⟩) (fun _ => rfl) fun _ _ => .of_same rfl rfl
  obtain ⟨r, _, ⟨_, _, rfl | rfl⟩ | ⟨_, _, a, s₁, hstart, rfl⟩ | ⟨_, s₁, h₁, rfl⟩⟩ := startWith_cases h
  · exact F.refl _
  · exact F.same rfl rfl rfl rfl (Nat.le_succ _)
  · have hwaits : R s₁ (s₁.modify t fun r => (r.setAppRecord (some a)).accept) :=
      F.edit (fun _ => ⟨rfl, rfl, rfl⟩) (fun _ => rfl) fun _ _ => .of_same rfl rfl
    exact F.trans (F.startAppProcess hstart) (F.trans hwaits (F.modifyApp _))
  · split
    · exact F.trans (hfirst status s₁ h₁) (haccept s₁)
    · exact hfirst status s₁ h₁

theorem startAbility (F : Frame gen R)
    (hactive : ∀ status s₁, s.activeAbility env t = .ok (status, s₁) → R s s₁)
    (h : s.startAbility gen env t = .ok (status, s')) : R s s' := F.startWith hactive h

theorem startService (F : Frame gen R) (h : s.startService gen env t = .ok (status, s')) : R s s' :=
  F.startWith (fun _ _ h₁ => F.inactiveAbility h₁) h

theorem newService (F : Frame gen R) {want : Want} {target : AbilityInfo} {bundleInfo : BundleInfo}
    {waitConnect : Bool} : R s (s.newService gen want target bundleInfo waitConnect) := by
  refine F.trans (F.create (fun r hclients hstatus => ?_) fun r _ hlink => ?_) F.push
  · unfold setUp
    split
    · exact ⟨hclients, fun h => by cases h⟩
    · refine ⟨hclients, ?_⟩
      show r.connectStatus ≠ _
      rw [hstatus]
      decide
  · have hmild := mild_setUp bundleInfo waitConnect r
    exact hlink.of_same hmild.nextPageAbility hmild.prevPageAbility

/-! ## Missions -/

theorem setStack (F : Frame gen R) (l : List AbilityMissionRecord) : R s (s.setStack st l) :=
  F.lists (onlyLists_setStack l) (services_setStack l)

theorem moveMissionRecordToTop (F : Frame gen R) (h : s.moveMissionRecordToTop st id = .ok s') :
    R s s' := by
  obtain ⟨l, -, rfl⟩ := moveMissionRecordToTop_cases h
  exact F.setStack l

theorem modifyMission (F : Frame gen R) (f : AbilityMissionRecord → AbilityMissionRecord) :
    R s (s.modifyMission id f) := F.lists (onlyLists_modifyMission f) rfl

theorem pushTopMissionRecord (F : Frame gen R) : R s (s.pushTopMissionRecord m) := by
  unfold AbilityMgr.pushTopMissionRecord
  dsimp only
  split
  · exact F.same rfl rfl rfl rfl (Nat.le_refl _)
  · exact F.setStack _

/-- A new page that is put on a mission. -/
theorem place (F : Frame gen R) {info : AbilityInfo} {want : Want} : R s
    ((s.newPageAbility gen info want).2.modify (gen.generate s.generated) (·.setMissionRecord id)) := by
  refine F.create (fun r hclients hstatus => ⟨hclients, ?_⟩) fun _ _ => .of_same rfl rfl
  show r.connectStatus ≠ _
  rw [hstatus]
  decide

theorem finds (F : Frame gen R) {target : AbilityInfo} {want : Want} {top : Option PageAbilityRecord}
    {page : Option Token} (h : Finds gen target want top st s page id s') : R s s' := by
  cases h with
  | mission hnone hnew =>
    obtain ⟨rfl, rfl, s₁, rfl, rfl⟩ := newMission_cases hnew
    have hcount : R ((s.newPageAbility gen target want).2.modify (gen.generate s.generated)
        (·.setMissionRecord s.missions))
        (({ (s.newPageAbility gen target want).2 with missions := s.missions + 1 } : AbilityMgr).modify
          (gen.generate s.generated) (·.setMissionRecord s.missions)) :=
      F.same rfl rfl rfl rfl (Nat.le_refl _)
    exact F.trans F.place (F.trans hcount F.pushTopMissionRecord)
  | page _ _ hmove => exact F.moveMissionRecordToTop hmove
  | newPage _ _ hnew hmove =>
    obtain ⟨rfl, s₁, rfl, rfl⟩ := newPage_cases hnew
    exact F.trans F.place (F.trans (F.modifyMission _) (F.moveMissionRecordToTop hmove))

theorem generatePageAbility (F : Frame gen R) {target : AbilityInfo} {want : Want}
    {topAbility page : Option Token}
    (h : s.generatePageAbility gen target want topAbility = .ok (page, s')) : R s s' := by
  obtain ⟨_, _, rfl⟩ | ⟨_, id, s₁, s₂, hf, hlink, rfl⟩ := generatePageAbility_cases h
  · exact F.refl _
  · have hfirst : R s s₁ := F.finds hf
    have hlinked : R s₁ s₂ := by
      rcases hlink with ⟨rfl, _⟩ | ⟨m, _, _, _, rfl⟩
      · exact F.refl _
      · exact F.modifyMission _
    exact F.trans hfirst (F.trans hlinked (F.same rfl rfl rfl rfl (Nat.le_refl _)))

theorem deletePages (F : Frame gen R) {ts : List Token} (h : deletePages ts s = .ok s') : R s s' := by
  induction ts generalizing s with
  | nil =>
    cases h
    exact F.refl _
  | cons t ts ih =>
    simp only [AbilityMgr.deletePages, bind_eq_ok] at h
    obtain ⟨s₁, h₁, h⟩ := h
    exact F.trans (F.delete h₁) (ih h)

theorem removeMissionRecord (F : Frame gen R) : R s (s.removeMissionRecord st id) := F.setStack _

theorem dropMission (F : Frame gen R) : R s (s.dropMission st id) :=
  F.trans F.removeMissionRecord (F.same rfl rfl rfl rfl (Nat.le_refl _))

theorem removePageAbility (F : Frame gen R) (h : s.removePageAbility t = .ok s') : R s s' := by
  simp only [AbilityMgr.removePageAbility, bind_eq_ok, record_eq_ok] at h
  obtain ⟨r, _, h⟩ := h
  split at h
  · cases h
    exact F.refl _
  · next id _ =>
    simp only [bind_eq_ok] at h
    obtain ⟨m, _, s₁, h₁, h⟩ := h
    have hpages : R s s₁ := F.trans (F.modifyMission _) (F.deletePages h₁)
    have hremove : R s₁ (s₁.removeMissionRecord m.abilityMissionStack id) := F.removeMissionRecord
    refine F.trans hpages ?_
    split at h
    · refine F.trans hremove ?_
      split at h
      · simp only [bind_eq_ok] at h
        obtain ⟨s₂, h₂, h⟩ := h
        cases h
        exact F.trans (F.moveMissionRecordToTop h₂) (F.same rfl rfl rfl rfl (Nat.le_refl _))
      · cases h
        exact F.same rfl rfl rfl rfl (Nat.le_refl _)
    · cases h
      exact F.refl _

theorem returnFrom (F : Frame gen R) {name : CString} (h : s.returnFrom name = .ok s') : R s s' := by
  rcases returnFrom_cases h with rfl | rfl | ⟨_, _, _, _, hmove⟩
  · exact F.refl _
  · exact F.same rfl rfl rfl rfl (Nat.le_refl _)
  · exact F.moveMissionRecordToTop hmove

/-! ## Processes -/

theorem removeAppRecord (F : Frame gen R) (h : s.removeAppRecord a = .ok s') : R s s' := by
  obtain ⟨_, _, _, _, _, _, rfl⟩ := removeAppRecord_cases h
  exact F.same rfl rfl rfl rfl (Nat.le_refl _)

theorem removeAppRecordByName (F : Frame gen R) (name : Option CString) :
    R s (s.removeAppRecordByName name) := by
  cases name with
  | none => exact F.refl _
  | some name => exact F.same rfl rfl rfl rfl (Nat.le_refl _)

theorem exitApp (F : Frame gen R) (h : s.exitApp env t = .ok (status, s')) : R s s' := by
  obtain ⟨r, _, ⟨rfl, _⟩ | ⟨a, s₁, _, _, _, h₁, rfl⟩⟩ := exitApp_cases h
  · exact F.refl _
  · have hforget : R s₁ (s₁.modify t (·.setAppRecord none)) :=
      F.edit (fun _ => ⟨rfl, rfl, rfl⟩) (fun _ => rfl) fun _ _ => .of_same rfl rfl
    exact F.trans (F.send (fun _ => rfl) fun _ => rfl) (F.trans (F.removeAppRecord h₁) hforget)

theorem exitsIf (F : Frame gen R) {exits : Prop} (h : ExitsIf exits env t s s') : R s s' := by
  rcases h with ⟨_, status, h⟩ | ⟨_, rfl⟩
  · exact F.exitApp h
  · exact F.refl _

theorem resumes (F : Frame gen R)
    (hactive : ∀ top status s₁, s.getTopPageAbility = some top →
      s.activeAbility env top = .ok (status, s₁) → R s s₁)
    (h : Resumes env s s') : R s s' := by
  obtain ⟨_, rfl⟩ | ⟨top, status, htop, h⟩ := h
  · exact F.refl _
  · exact hactive top status s' htop h

theorem launchPendingAbility (F : Frame gen R)
    (hactive : ∀ app t status s₁, s.app a = some app → app.pendingAbilityRecord = some t →
      s.activeAbility env t = .ok (status, s₁) → R s s₁)
    (h : s.launchPendingAbility env a = .ok (status, s')) : R s s' := by
  obtain ⟨app, happ, ⟨_, _, rfl⟩ | ⟨t, r, s₁, hpending, _, h₁, rfl⟩⟩ := launchPendingAbility_cases h
  · exact F.refl _
  · refine F.trans ?_ (F.modifyApp _)
    rcases h₁ with ⟨_, h₁⟩ | ⟨_, h₁⟩
    · exact F.inactiveAbility h₁
    · exact hactive app t status s₁ happ hpending h₁

theorem attachTask (F : Frame gen R) {client : AbilityThreadClient}
    (hactive : ∀ x t status s₁, s.Launches client x t →
      x.activeAbility env t = .ok (status, s₁) → R x s₁)
    (h : s.attachTask env client = .ok (status, s')) : R s s' := by
  cases attachTask_cases h with
  | unknown => exact F.refl _
  | unwatched => exact F.modifyApp _
  | denied _ hexit h₁ =>
    rcases hexit with rfl | ⟨_, rfl⟩
    · exact F.trans (F.modifyApp _) (F.removeAppRecord h₁)
    · exact F.trans (F.modifyApp _)
        (F.trans (F.send (fun _ => rfl) fun _ => rfl) (F.removeAppRecord h₁))
  | launches happ hm _ h₁ =>
    have hlaunch := F.launchPendingAbility (fun app t status s₁ ha hpending =>
      hactive _ t status s₁ ⟨_, _, app, happ, hm, rfl, ha, hpending⟩) h₁
    exact F.trans (F.modifyApp _)
      (F.trans (F.send (asksDisconnect_of_token hm) (activeWant_of_token hm)) hlaunch)

/-! ## Tasks -/

theorem setBundleInfo (F : Frame gen R) {bundleInfo : BundleInfo} :
    R s (s.modify t (·.setBundleInfo bundleInfo)) := F.edit (fun _ => ⟨rfl, rfl, rfl⟩) (fun _ => rfl) fun _ _ => .of_same rfl rfl

theorem next (F : Frame gen R) : R s (s.modify t (·.setNextPageAbility none)) :=
  F.edit (fun _ => ⟨rfl, rfl, rfl⟩) (fun _ => rfl) fun _ _ => .of_next_none

theorem prev (F : Frame gen R) : R s (s.modify t (·.setPrevPageAbility none)) :=
  F.edit (fun _ => ⟨rfl, rfl, rfl⟩) (fun _ => rfl) fun _ _ => .of_prev_none

theorem reach (F : Frame gen R) {state : State} : R s (s.modify t (·.setCurrentState state)) :=
  F.edit (fun _ => ⟨rfl, rfl, rfl⟩) (fun _ => rfl) fun _ _ => .of_same rfl rfl

theorem brings (F : Frame gen R) {want : Want} {target : AbilityInfo} {bundleInfo : BundleInfo}
    {topAbility : Option Token}
    (h : s.generatePageAbility gen target want topAbility = .ok (some t, s')) :
    R s (s'.modify t (·.setBundleInfo bundleInfo)) := F.trans (F.generatePageAbility h) F.setBundleInfo

/-- The page that is brought up starts at once where no page is on top. -/
theorem startPageTask (F : Frame gen R) {want : Want} {target : AbilityInfo} {bundleInfo : BundleInfo}
    (hstarts : ∀ t s₁ status s₂,
      s.generatePageAbility gen target want s.getTopPageAbility = .ok (some t, s₁) →
      (s₁.modify t (·.setBundleInfo bundleInfo)).startAbility gen env t = .ok (status, s₂) →
      (¬ undoes status → R s s₂) ∧
        ∀ s₃, undoes status → s₂.removePageAbility t = .ok s₃ → R s s₃)
    (hlinks : ∀ (s : AbilityMgr) (p t : Token), R s
      ((s.modify p (·.setNextPageAbility (some t))).modify t (·.setPrevPageAbility (some p))))
    (h : s.startPageTask gen env want target bundleInfo = .ok (status, s')) : R s s' := by
  cases startPageTask_cases h with
  | refused hgen _ => exact F.generatePageAbility hgen
  | givesWay hgen _ _ h₂ _ =>
    exact F.trans (F.brings hgen) (F.trans (F.inactiveAbility h₂) (hlinks _ _ _))
  | stays hgen _ _ h₂ _ h₃ =>
    exact F.trans (F.brings hgen) (F.trans (F.inactiveAbility h₂) (F.removePageAbility h₃))
  | starts hgen _ h₂ hkeep => exact (hstarts _ _ _ _ hgen h₂).1 hkeep
  | fails hgen _ h₂ hundo h₃ => exact (hstarts _ _ _ _ hgen h₂).2 _ hundo h₃

theorem activateTask (F : Frame gen R) (h : s.activateTask env t = .ok (status, s')) : R s s' := by
  cases activateTask_cases h with
  | unknown => exact F.refl _
  | service => exact F.reach
  | background _ _ _ _ h₁ =>
    exact F.trans F.reach (F.trans (F.toBackgroundAbility h₁) F.prev)
  | stop _ _ _ _ _ h₁ =>
    exact F.trans F.reach (F.trans (F.stopAbility h₁) F.next)
  | alone => exact F.reach

theorem backgroundTask (F : Frame gen R) (h : s.backgroundTask t = .ok (status, s')) : R s s' := by
  rcases backgroundTask_cases h with ⟨_, rfl⟩ | ⟨_, _, rfl⟩
  · exact F.refl _
  · exact F.reach

end Frame
end AbilityMgr
end AbilityLite.Ams
