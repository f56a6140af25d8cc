import AbilityLite.Ams.Processes
import AbilityLite.Ams.Stopping

/-
  Process records outlive their users, in every run in which a process record goes only
  with the last ability that is bound to it.

  An ability keeps a raw pointer to the process record of its bundle. Four places delete
  process records: an attach whose permissions are refused, the exit of a process with
  the last ability of its bundle, the end of an application and the death of its process.
  `Held` says that no pointer dangles; everything but these four keeps it and reads no
  deleted process record. The condition of the run is on the state before each of them.
-/

namespace AbilityLite.Ams
open AbilityMsStatus Fallible
namespace AbilityMgr
variable {gen : TokenGenerate} {env : Env} {s s' s'' : AbilityMgr} {t : Token} {a : Nat}

/-- Every process record that an ability is bound to is there. -/
def Held (s : AbilityMgr) : Prop :=
  ∀ t r a, s.records t = some r → r.appRecord = some a → (s.app a).isSome

/-! ## Abilities that stay or go -/

/-- What names the process records. -/
def appNames (s : AbilityMgr) : List (Nat × BundleInfo) :=
  s.appRecords.map fun app => (app.identityId, app.bundleInfo)

/-- Abilities may go, those that stay keep their process, and no process record comes or goes. -/
structure Dwindles (s s' : AbilityMgr) : Prop where
  records : ∀ t r', s'.records t = some r' → ∃ r, s.records t = some r ∧ r'.appRecord = r.appRecord
  apps : s'.appNames = s.appNames

theorem app_isSome_iff : (s.app a).isSome ↔ ∃ x ∈ s.appNames, x.1 = a := by
  unfold app appNames
  rw [List.find?_isSome]
  constructor
  · rintro ⟨app, happ, hid⟩
    exact ⟨_, List.mem_map_of_mem happ, of_decide_eq_true hid⟩
  · rintro ⟨x, hx, hid⟩
    obtain ⟨app, happ, rfl⟩ := List.mem_map.mp hx
    exact ⟨app, happ, decide_eq_true hid⟩

theorem app_isSome_congr (h : s'.appNames = s.appNames) : (s'.app a).isSome ↔ (s.app a).isSome := by
  rw [app_isSome_iff, app_isSome_iff, h]

namespace Dwindles

theorem refl (s : AbilityMgr) : Dwindles s s := ⟨fun _ r hr => ⟨r, hr, rfl⟩, rfl⟩

theorem trans (h : Dwindles s s') (h' : Dwindles s' s'') : Dwindles s s'' := by
  refine ⟨fun t r'' hr'' => ?_, h'.apps.trans h.apps⟩
  obtain ⟨r', hr', ha'⟩ := h'.records t r'' hr''
  obtain ⟨r, hr, ha⟩ := h.records t r' hr'
  exact ⟨r, hr, ha'.trans ha⟩

/-- Neither records nor process records change. -/
theorem same (hrecords : s'.records = s.records) (happs : s'.appRecords = s.appRecords) :
    Dwindles s s' := by
  refine ⟨fun t r' hr' => ⟨r', hrecords ▸ hr', rfl⟩, ?_⟩
  unfold appNames
  rw [happs]

theorem modify {f : PageAbilityRecord → PageAbilityRecord} (hf : ∀ r, (f r).appRecord = r.appRecord) :
    Dwindles s (s.modify t f) := by
  refine ⟨fun u r' hr' => ?_, rfl⟩
  obtain ⟨r, hr, ⟨-, rfl⟩ | ⟨-, rfl⟩⟩ := Store.modify_cases hr'
  · exact ⟨r, hr, hf r⟩
  · exact ⟨r', hr, rfl⟩

theorem modifyApp {f : AppRecord → AppRecord}
    (hf : ∀ app, (f app).identityId = app.identityId ∧ (f app).bundleInfo = app.bundleInfo) :
    Dwindles s (s.modifyApp a f) := by
  refine ⟨fun u r' hr' => ⟨r', hr', rfl⟩, ?_⟩
  unfold appNames AbilityMgr.modifyApp
  rw [List.map_map]
  refine List.map_congr_left fun app _ => ?_
  simp only [Function.comp_apply]
  split
  · rw [(hf app).1, (hf app).2]
  · rfl

theorem erase : Dwindles s { s with records := s.records.erase t } :=
  ⟨fun _ r' hr' => ⟨r', (Store.erase_cases hr').2, rfl⟩, rfl⟩

theorem send (m : Transaction) : Dwindles s (s.send a m) := by
  cases m with
  | lifecycle state want type =>
    have hmodify : Dwindles s (s.modify state.token (·.transact)) := modify fun _ => rfl
    exact hmodify.trans (same rfl rfl)
  | _ => exact same rfl rfl

theorem notify (sid : SvcIdentity) (m : Callback) : Dwindles s (s.notify env sid m) := by
  unfold AbilityMgr.notify
  split
  · exact same rfl rfl
  · exact refl s

theorem setStack {st : StackType} (l : List AbilityMissionRecord) : Dwindles s (s.setStack st l) := by
  cases st <;> exact same rfl rfl

theorem held (h : Dwindles s s') (hs : s.Held) : s'.Held := by
  intro t r' a hr' ha
  obtain ⟨r, hr, hsame⟩ := h.records t r' hr'
  exact (app_isSome_congr h.apps).mpr (hs t r a hr (hsame ▸ ha))

end Dwindles

/-- What is computed reads no deleted process record, and abilities only go. -/
abbrev Reads {α : Type} (s : AbilityMgr) (x : Except Fault (α × AbilityMgr)) : Prop :=
  Avoids .appRecord (fun y => Dwindles s y.2) x

/-- The same of a computation that returns the state alone. -/
abbrev Leads (s : AbilityMgr) (x : Except Fault AbilityMgr) : Prop := Avoids .appRecord (Dwindles s) x

theorem Reads.after {α : Type} {x : Except Fault (α × AbilityMgr)} (h : Reads s' x) (hs : Dwindles s s') :
    Reads s x := Avoids.mono h fun _ _ => hs.trans

theorem Leads.after {x : Except Fault AbilityMgr} (h : Leads s' x) (hs : Dwindles s s') : Leads s x :=
  Avoids.mono h fun _ _ => hs.trans

theorem record_avoids : Avoids .appRecord (fun r => s.records t = some r) (s.record t) := by
  unfold record
  split
  · next r hr => exact hr
  · exact fun h => by cases h

theorem appRecord_avoids (h : (s.app a).isSome) :
    Avoids .appRecord (fun app => s.app a = some app) (s.appRecord a) := by
  obtain ⟨app, happ⟩ := Option.isSome_iff_exists.mp h
  rw [appRecord_eq_ok.mpr happ]
  exact happ

theorem mission_avoids {id : Nat} : Avoids .appRecord (fun _ => True) (s.mission id) := by
  cases h : s.mission id with
  | ok m => exact trivial
  | error f =>
    rw [mission_error h]
    exact fun h => by cases h

/-! ## Transactions -/

theorem transact_reads {m : Transaction} {want : Want} {noClient notSerialized notSent : AbilityMsStatus}
    (ha : (s.app a).isSome) : Reads s (s.transact env a m want noClient notSerialized notSent) := by
  unfold transact
  refine Avoids.bind (appRecord_avoids ha) fun app _ => ?_
  split
  · exact .refl s
  · split
    · split
      · exact .send m
      · exact .refl s
    · exact .refl s

theorem appExitTransaction_reads (ha : (s.app a).isSome) : Reads s (s.appExitTransaction env a) := by
  unfold appExitTransaction
  refine Avoids.bind (appRecord_avoids ha) fun app _ => ?_
  split
  · exact .refl s
  · split
    · exact .send .appExit
    · exact .refl s

theorem appInitTransaction_reads (ha : (s.app a).isSome) : Reads s (s.appInitTransaction env a) := by
  unfold appInitTransaction
  refine Avoids.bind (appRecord_avoids ha) fun app _ => ?_
  split
  · exact .refl s
  · split
    · exact .refl s
    · split
      · exact .send (.appInit app.bundleInfo)
      · exact .refl s

theorem callbackTransaction_leads {sid : SvcIdentity} {m : Callback} (ha : (s.app a).isSome) :
    Leads s (s.callbackTransaction env a sid m) := by
  unfold callbackTransaction
  refine Avoids.bind (appRecord_avoids ha) fun app _ => ?_
  split
  · exact .refl s
  · exact .notify sid m

theorem callbackTransactions_leads {m : Callback} {cs : List AbilityConnectRecord}
    (ha : (s.app a).isSome) : Leads s (callbackTransactions env a m cs s) := by
  induction cs generalizing s with
  | nil => exact .refl s
  | cons c cs ih =>
    refine Avoids.bind (callbackTransaction_leads ha) fun s₁ h₁ => ?_
    exact (ih ((app_isSome_congr h₁.apps).mpr ha)).after h₁

/-! ## Deleting and moving abilities -/

theorem delete_leads (h : s.Held) : Leads s (s.delete t) := by
  unfold delete
  refine Avoids.bind record_avoids fun r hr => ?_
  split
  · exact .erase
  · next a ha =>
    refine Avoids.bind (appRecord_avoids (h t r a hr ha)) fun app _ => ?_
    have hclear : Dwindles s (s.modifyApp a (·.clearPendingAbility t)) :=
      .modifyApp fun app => ⟨(clearPendingAbility_same app).1, (clearPendingAbility_same app).2.1⟩
    exact hclear.trans .erase

theorem transactState_reads (h : s.Held) {r : PageAbilityRecord} (hr : s.records t = some r)
    {state : State} : Reads s (s.transactState env t r state) := by
  unfold transactState
  split
  · exact .refl s
  · next a ha => exact transact_reads (h t r a hr ha)

theorem activeAbility_reads (h : s.Held) : Reads s (s.activeAbility env t) := by
  unfold activeAbility
  refine Avoids.bind record_avoids fun r hr => ?_
  split
  · exact .refl s
  · split
    · exact .refl s
    · next a ha =>
      refine Avoids.bind (transact_reads (h t r a hr ha)) ?_
      rintro ⟨status, s₁⟩ h₁
      exact h₁.trans (.modify fun _ => rfl)

theorem inactiveAbility_reads (h : s.Held) : Reads s (s.inactiveAbility env t) := by
  unfold inactiveAbility
  refine Avoids.bind record_avoids fun r hr => ?_
  split
  · exact .refl s
  · exact transactState_reads h hr

theorem toBackgroundAbility_reads (h : s.Held) : Reads s (s.toBackgroundAbility env t) := by
  unfold toBackgroundAbility
  refine Avoids.bind record_avoids fun r hr => ?_
  split
  · exact .refl s
  · exact transactState_reads h hr

theorem stopAbility_reads (h : s.Held) : Reads s (s.stopAbility env t) := by
  unfold stopAbility
  refine Avoids.bind record_avoids fun r hr => ?_
  split
  · exact .refl s
  · exact transactState_reads h hr

theorem launchPendingAbility_reads (h : s.Held) (ha : (s.app a).isSome) :
    Reads s (s.launchPendingAbility env a) := by
  unfold launchPendingAbility
  refine Avoids.bind (appRecord_avoids ha) fun app _ => ?_
  split
  · exact .refl s
  · next t ht =>
    refine Avoids.bind record_avoids fun r hr => ?_
    have hthen {status : AbilityMsStatus} {s₁ : AbilityMgr} (h₁ : Dwindles s s₁) :
        Reads s (.ok (status, s₁.modifyApp a (·.setPendingAbility none))) :=
      h₁.trans (.modifyApp fun _ => ⟨rfl, rfl⟩)
    dsimp only
    split
    · exact Avoids.bind (inactiveAbility_reads h) fun _ h₁ => hthen h₁
    · exact Avoids.bind (activeAbility_reads h) fun _ h₁ => hthen h₁

/-! ## Services and their clients -/

theorem connectAbility_reads (h : s.Held) : Reads s (s.connectAbility env t) := by
  unfold connectAbility
  refine Avoids.bind record_avoids fun r hr => ?_
  split
  · exact .refl s
  · next a ha => exact transact_reads (h t r a hr ha)

/-- A transaction goes out after the record of the ability was changed. -/
theorem edit_reads {x : AbilityMgr → Result} {f : PageAbilityRecord → PageAbilityRecord}
    (hf : ∀ r, (f r).appRecord = r.appRecord) (ha : (s.app a).isSome)
    (hx : ∀ {s' : AbilityMgr}, (s'.app a).isSome → Reads s' (x s')) : Reads s (x (s.modify t f)) := by
  have hmodify : Dwindles s (s.modify t f) := .modify hf
  exact (hx ((app_isSome_congr hmodify.apps).mpr ha)).after hmodify

theorem performStop_reads {r : PageAbilityRecord} (ha : (s.app a).isSome) :
    Reads s (s.performStop env a t r) :=
  edit_reads (x := fun s' => s'.abilityTransaction env a ⟨t, .initial⟩ r.want r.abilityInfo.abilityType)
    (fun _ => rfl) ha fun ha => transact_reads ha

theorem performDisconnect_reads {r : PageAbilityRecord} (ha : (s.app a).isSome) :
    Reads s (s.performDisconnect env a t r) :=
  edit_reads (x := fun s' => s'.disconnectTransaction env a r.want t) (fun _ => rfl) ha
    fun ha => transact_reads ha

theorem disconnectAbility_reads (h : s.Held) {sid : SvcIdentity} :
    Reads s (s.disconnectAbility env t sid) := by
  unfold disconnectAbility
  refine Avoids.bind record_avoids fun r hr => ?_
  split
  · exact .refl s
  · next a ha =>
    have hmodify : Dwindles s (s.modify t (·.removeConnectRecord sid)) := .modify fun _ => rfl
    have ha' : ((s.modify t (·.removeConnectRecord sid)).app a).isSome := h t r a hr ha
    dsimp only
    split
    · exact hmodify
    · split
      · exact hmodify
      · split
        · exact (performDisconnect_reads ha').after hmodify
        · exact hmodify

theorem connectAbilityDone_reads (h : s.Held) : Reads s (s.connectAbilityDone env t) := by
  unfold connectAbilityDone
  refine Avoids.bind record_avoids fun r hr => ?_
  split
  · exact .refl s
  · next a ha =>
    have hmodify : Dwindles s (s.modify t fun r => r.setConnectRecords (r.connectRecords.map (·.done))) :=
      .modify fun _ => rfl
    refine Avoids.bind ((callbackTransactions_leads ?_).after hmodify) fun s₁ h₁ => ?_
    · exact h t r a hr ha
    · exact h₁

theorem disconnectAbilityDone_reads (h : s.Held) : Reads s (s.disconnectAbilityDone env t) := by
  unfold disconnectAbilityDone
  refine Avoids.bind record_avoids fun r hr => ?_
  split
  · exact .refl s
  · next a ha =>
    have hmodify (c : ConnectStatus) : Dwindles s (s.modify t (·.setConnectStatus c)) := .modify fun _ => rfl
    have ha' (c : ConnectStatus) : ((s.modify t (·.setConnectStatus c)).app a).isSome := h t r a hr ha
    dsimp only
    split
    · exact (performStop_reads (ha' _)).after (hmodify _)
    · exact hmodify _

theorem forceStopServiceAbility_reads (h : s.Held) : Reads s (s.forceStopServiceAbility env t) := by
  unfold forceStopServiceAbility
  refine Avoids.bind record_avoids fun r hr => ?_
  split
  · exact .refl s
  · next a ha =>
    have hmodify : Dwindles s (s.modify t (·.setForceStop)) := .modify fun _ => rfl
    have ha' : ((s.modify t (·.setForceStop)).app a).isSome := h t r a hr ha
    dsimp only
    split
    · exact hmodify
    · split
      · exact hmodify
      · split
        · exact (performStop_reads ha').after hmodify
        · exact (performDisconnect_reads ha').after hmodify

theorem stopAbilityDone_reads (h : s.Held) : Reads s (s.stopAbilityDone env t) := by
  unfold stopAbilityDone
  refine Avoids.bind record_avoids fun r hr => ?_
  split
  · exact .refl s
  · next a ha =>
    have hmodify : Dwindles s (s.modify t (·.setConnectStatus .stopped)) := .modify fun _ => rfl
    refine Avoids.bind ((callbackTransactions_leads ?_).after hmodify) fun s₁ h₁ => ?_
    · exact h t r a hr ha
    · exact h₁

theorem removeConnectRecordByPageToken_leads (h : s.Held) {token : Token} :
    Leads s (s.removeConnectRecordByPageToken env t token) := by
  unfold removeConnectRecordByPageToken
  refine Avoids.bind record_avoids fun r hr => ?_
  have hmodify (l : List AbilityConnectRecord) : Dwindles s (s.modify t (·.setConnectRecords l)) :=
    .modify fun _ => rfl
  split
  · exact .refl s
  · dsimp only
    split
    · exact Avoids.bind ((stopAbility_reads ((hmodify _).held h)).after (hmodify _)) fun _ h₁ => h₁
    · exact hmodify _

/-! ## Missions and lists of services -/

theorem removeServiceRecord_leads (h : s.Held) : Leads s (s.removeServiceRecord t) := by
  unfold removeServiceRecord
  split
  · have hlist : Dwindles s { s with serviceRecords := s.serviceRecords.filter (· ≠ t) } := .same rfl rfl
    exact (delete_leads (hlist.held h)).after hlist
  · exact .refl s

theorem removeServiceRecords_leads (h : s.Held) {name : CString} {ts : List Token} :
    Leads s (removeServiceRecords env name ts s) := by
  induction ts generalizing s with
  | nil => exact .refl s
  | cons t ts ih =>
    unfold removeServiceRecords
    refine Avoids.bind record_avoids fun r hr => ?_
    split
    · refine Avoids.bind (stopAbilityDone_reads h) fun y h₁ => ?_
      have hlist : Dwindles y.2 { y.2 with serviceRecords := y.2.serviceRecords.filter (· ≠ t) } :=
        .same rfl rfl
      have h₂ := h₁.trans hlist
      refine Avoids.bind ((delete_leads (h₂.held h)).after h₂) fun s₃ h₃ => ?_
      exact (ih (h₃.held h)).after h₃
    · exact ih h

theorem removeConnectRecords_leads (h : s.Held) {token : Token} {name : CString} {ts : List Token} :
    Leads s (removeConnectRecords env token name ts s) := by
  induction ts generalizing s with
  | nil => exact .refl s
  | cons t ts ih =>
    unfold removeConnectRecords
    refine Avoids.bind record_avoids fun r hr => ?_
    split
    · refine Avoids.bind (removeConnectRecordByPageToken_leads h) fun s₁ h₁ => ?_
      exact (ih (h₁.held h)).after h₁
    · exact ih h

theorem deletePages_leads (h : s.Held) {ts : List Token} : Leads s (deletePages ts s) := by
  induction ts generalizing s with
  | nil => exact .refl s
  | cons t ts ih =>
    refine Avoids.bind (delete_leads h) fun s₁ h₁ => ?_
    exact (ih (h₁.held h)).after h₁

theorem moveMissionRecordToTop_leads {st : StackType} {id : Nat} :
    Leads s (s.moveMissionRecordToTop st id) := by
  unfold moveMissionRecordToTop moveToTop
  split
  · exact fun h => by cases h
  · split <;> exact .setStack _

theorem dwindles_modifyMission {id : Nat} {f : AbilityMissionRecord → AbilityMissionRecord} :
    Dwindles s (s.modifyMission id f) := .same rfl rfl

theorem dwindles_removeMissionRecord {st : StackType} {id : Nat} :
    Dwindles s (s.removeMissionRecord st id) := .setStack _

theorem dwindles_deleteMissionRecord {id : Nat} : Dwindles s (s.deleteMissionRecord id) := .same rfl rfl

theorem removePageAbility_leads (h : s.Held) : Leads s (s.removePageAbility t) := by
  unfold removePageAbility
  refine Avoids.bind record_avoids fun r hr => ?_
  split
  · exact .refl s
  · refine Avoids.bind mission_avoids fun m _ => ?_
    refine Avoids.bind ((deletePages_leads (dwindles_modifyMission.held h)).after dwindles_modifyMission)
      fun s₁ h₁ => ?_
    dsimp only
    split
    · have hremove {id : Nat} : Dwindles s (s₁.removeMissionRecord m.abilityMissionStack id) :=
        h₁.trans dwindles_removeMissionRecord
      split
      · refine Avoids.bind (moveMissionRecordToTop_leads.after hremove) fun s₂ h₂ => ?_
        exact h₂.trans dwindles_deleteMissionRecord
      · exact hremove.trans (.same rfl rfl)
    · exact h₁

theorem clearPageAbility_leads (h : s.Held) {name : Option CString} {ts : List Token} :
    Leads s (clearPageAbility env name ts s) := by
  induction ts generalizing s with
  | nil => exact .refl s
  | cons t ts ih =>
    have hthen {s₁ : AbilityMgr} (h₁ : Dwindles s s₁) :
        Leads s (s₁.delete t >>= clearPageAbility env name ts) := by
      refine Avoids.bind ((delete_leads (h₁.held h)).after h₁) fun s₂ h₂ => ?_
      exact (ih (h₂.held h)).after h₂
    unfold clearPageAbility
    cases name with
    | none => exact hthen (.refl s)
    | some name => exact Avoids.bind (removeConnectRecords_leads h) fun s₁ h₁ => hthen h₁

theorem removeMissionRecordByName_leads (h : s.Held) {st : StackType} {name : Option CString} :
    Leads s (s.removeMissionRecordByName env st name) := by
  unfold removeMissionRecordByName
  split
  · exact .refl s
  · next m hm =>
    refine Avoids.bind ((clearPageAbility_leads (dwindles_modifyMission.held h)).after
      dwindles_modifyMission) fun s₁ h₁ => ?_
    exact (h₁.trans dwindles_removeMissionRecord).trans dwindles_deleteMissionRecord

theorem returnFrom_leads {name : CString} : Leads s (s.returnFrom name) := by
  unfold returnFrom
  dsimp only
  split
  · exact .refl s
  · split
    · exact moveMissionRecordToTop_leads
    · split
      · exact .refl s
      · split
        · exact .same rfl rfl
        · exact .refl s

theorem clearAbilityStack_leads (h : s.Held) {name : CString} : Leads s (s.clearAbilityStack env name) := by
  unfold clearAbilityStack
  refine Avoids.bind (removeServiceRecords_leads h) fun s₁ h₁ => ?_
  refine Avoids.bind (returnFrom_leads.after h₁) fun s₂ h₂ => ?_
  exact (removeMissionRecordByName_leads (h₂.held h)).after h₂

/-! ## Tasks that start nothing -/

theorem activateTask_reads (h : s.Held) : Reads s (s.activateTask env t) := by
  unfold activateTask
  split
  · exact .refl s
  · next p _ =>
    refine Avoids.bind record_avoids fun r hr => ?_
    have hreach : Dwindles s (s.modify p (·.setCurrentState .active)) := .modify fun _ => rfl
    dsimp only
    split
    · exact hreach
    · split
      · refine Avoids.bind ((toBackgroundAbility_reads (hreach.held h)).after hreach) fun y h₁ => ?_
        exact h₁.trans (.modify fun _ => rfl)
      · split
        · refine Avoids.bind ((stopAbility_reads (hreach.held h)).after hreach) fun y h₁ => ?_
          exact h₁.trans (.modify fun _ => rfl)
        · exact hreach

theorem backgroundTask_reads : Reads s (s.backgroundTask t) := by
  unfold backgroundTask
  split
  · exact .refl s
  · refine Avoids.bind record_avoids fun r _ => ?_
    exact Dwindles.modify fun _ => rfl

theorem terminateTask_reads (h : s.Held) : Reads s (s.terminateTask env t) := by
  unfold terminateTask
  split
  · exact .refl s
  · refine Avoids.bind record_avoids fun r _ => ?_
    split
    · exact forceStopServiceAbility_reads h
    · exact inactiveAbility_reads h

theorem terminateServiceTask_reads (h : s.Held) {target : AbilityInfo} :
    Reads s (s.terminateServiceTask env target) := by
  unfold terminateServiceTask
  split
  · exact .refl s
  · refine Avoids.bind record_avoids fun r _ => ?_
    split
    · exact Avoids.bind (removeServiceRecord_leads h) fun _ h₁ => h₁
    · exact forceStopServiceAbility_reads h

theorem performConnectTask_reads (h : s.Held) {sid : SvcIdentity} {token : Token} :
    Reads s (s.performConnectTask env t sid token) := by
  unfold performConnectTask
  refine Avoids.bind record_avoids fun r _ => ?_
  split
  · exact .refl s
  · have hstatus {s₁ : AbilityMgr} (h₁ : Dwindles s s₁) (c : ConnectStatus) :
        Dwindles s (s₁.modify t (·.setConnectStatus c)) := h₁.trans (.modify fun _ => rfl)
    have hconnect {s₁ : AbilityMgr} (h₁ : Dwindles s s₁) :
        Reads s ((s₁.modify t (·.setConnectStatus .connecting)).connectAbility env t) :=
      (connectAbility_reads ((hstatus h₁ .connecting).held h)).after (hstatus h₁ .connecting)
    have hdone {s₁ : AbilityMgr} (h₁ : Dwindles s s₁) : Reads s (s₁.connectAbilityDone env t) :=
      (connectAbilityDone_reads (h₁.held h)).after h₁
    have hclient : Dwindles s (s.modify t (·.pushConnectRecord ⟨sid, token, .connecting⟩)) :=
      .modify fun r => (mild_pushConnectRecord r _).appRecord
    cases r.getConnectRecord sid with
    | some c =>
      dsimp only
      split
      · split
        · exact hstatus (.refl s) .waitConnect
        · exact hconnect (.refl s)
      · split
        · exact hdone (.refl s)
        · exact .refl s
      · exact .refl s
    | none =>
      dsimp only
      split
      · split
        · exact hstatus hclient .waitConnect
        · exact hconnect hclient
      · split
        · exact hdone hclient
        · exact hclient
      · exact hclient

theorem connectTask_reads (h : s.Held) {want : Want} {sid : SvcIdentity} {token : Token} :
    Reads s (s.connectTask env want sid token) := by
  unfold connectTask
  split
  · exact .refl s
  · split
    · exact .refl s
    · refine Avoids.bind record_avoids fun r _ => ?_
      split
      · exact .refl s
      · exact performConnectTask_reads h

theorem connectDoneTask_reads (h : s.Held) {sid : SvcIdentity} {token : Token} :
    Reads s (s.connectDoneTask env sid token) := by
  unfold connectDoneTask
  split
  · exact .refl s
  · next t _ =>
    refine Avoids.bind record_avoids fun r _ => ?_
    split
    · exact .refl s
    · have hsid : Dwindles s (s.modify t (·.setServiceSid sid)) := .modify fun _ => rfl
      refine Avoids.bind ((connectAbilityDone_reads (hsid.held h)).after hsid) fun y h₁ => ?_
      exact h₁.trans (.modify fun _ => rfl)

theorem disconnectTask_reads (h : s.Held) {sid : SvcIdentity} {token : Token} :
    Reads s (s.disconnectTask env sid token) := by
  unfold disconnectTask
  split
  · exact .refl s
  · exact disconnectAbility_reads h

theorem disconnectDoneTask_reads (h : s.Held) {token : Token} :
    Reads s (s.disconnectDoneTask env token) := by
  unfold disconnectDoneTask
  split
  · exact .refl s
  · refine Avoids.bind record_avoids fun r _ => ?_
    split
    · exact .refl s
    · exact disconnectAbilityDone_reads h

/-! ## Starting -/

/-- What is computed reads no deleted process record, and leaves no pointer dangling. -/
abbrev Holds {α : Type} (x : Except Fault (α × AbilityMgr)) : Prop := Avoids .appRecord (fun y => y.2.Held) x

theorem Reads.holds {α : Type} {x : Except Fault (α × AbilityMgr)} (h : s.Held) (hx : Reads s x) :
    Holds x := Avoids.mono hx fun _ _ h₁ => h₁.held h

theorem Held.newPageAbility (h : s.Held) {info : AbilityInfo} {want : Want} :
    (s.newPageAbility gen info want).2.Held := by
  intro u r a hr ha
  rcases Store.insert_cases hr with ⟨-, rfl⟩ | ⟨-, hr⟩
  · obtain ⟨app, happ, rfl⟩ := Option.map_eq_some_iff.mp ha
    have hmem := (getAppRecordByBundleName_mem happ).1
    exact List.find?_isSome.mpr ⟨app, hmem, decide_eq_true rfl⟩
  · exact h u r a hr ha

/-- A process record is found, or it is new. -/
theorem Held.startAppProcess (h : s.Held) {bundleInfo : BundleInfo} {o : Option Nat}
    (hstart : s.startAppProcess gen env bundleInfo = (o, s')) :
    s'.Held ∧ ∀ a, o = some a → (s'.app a).isSome := by
  rcases startAppProcess_cases hstart with ⟨rfl, rfl | rfl⟩ | ⟨app, happ, rfl, rfl⟩ | ⟨pid, hnew, hname, rfl, rfl⟩
  · exact ⟨h, fun a ha => by cases ha⟩
  · exact ⟨h, fun a ha => by cases ha⟩
  · refine ⟨h, fun a ha => ?_⟩
    cases ha
    exact List.find?_isSome.mpr ⟨app, (getAppRecordByBundleName_mem happ).1, decide_eq_true rfl⟩
  · refine ⟨fun u r a hr ha => ?_, fun a ha => ?_⟩
    · obtain ⟨app, happ, hid⟩ := List.find?_isSome.mp (h u r a hr ha)
      exact List.find?_isSome.mpr ⟨app, List.mem_append_left _ happ, hid⟩
    · cases ha
      exact List.find?_isSome.mpr ⟨_, List.mem_append_right _ List.mem_cons_self, decide_eq_true rfl⟩

/-- An ability is bound to a process record that is there, and waits for it. -/
theorem Held.await (h : s.Held) (ha : (s.app a).isSome) : (s.await t a).Held := by
  have hids : (s.await t a).appNames = s.appNames := by
    have happ : Dwindles s (s.modifyApp a (·.setPendingAbility (some t))) := .modifyApp fun _ => ⟨rfl, rfl⟩
    exact happ.apps
  intro u r' b hr' hb
  rw [app_isSome_congr hids]
  obtain ⟨r, hr, ⟨-, rfl⟩ | ⟨-, rfl⟩⟩ := Store.modify_cases hr'
  · cases hb
    exact ha
  · exact h u r' b hr hb

theorem startWith_holds (h : s.Held) {first : Token → AbilityMgr → Result}
    (hfirst : Reads s (first t s)) : Holds (s.startWith gen env first t) := by
  unfold startWith
  refine Avoids.bind record_avoids fun r hr => ?_
  split
  · split
    · next s₁ hstart => exact (h.startAppProcess hstart).1
    · next a s₁ hstart =>
      obtain ⟨h₁, hnew⟩ := h.startAppProcess hstart
      exact h₁.await (hnew a rfl)
  · refine Avoids.bind hfirst fun y h₁ => ?_
    dsimp only
    split
    · have haccept : Dwindles y.2 (y.2.modify t (·.accept)) := .modify fun _ => rfl
      exact (h₁.trans haccept).held h
    · exact h₁.held h

theorem startAbility_holds (h : s.Held) : Holds (s.startAbility gen env t) :=
  startWith_holds h (activeAbility_reads h)

theorem startService_holds (h : s.Held) : Holds (s.startService gen env t) :=
  startWith_holds h (inactiveAbility_reads h)

theorem startServiceTask_holds (h : s.Held) {want : Want} {target : AbilityInfo} {bundleInfo : BundleInfo}
    {waitConnect : Bool} : Holds (s.startServiceTask gen env want target bundleInfo waitConnect) := by
  unfold startServiceTask
  split
  · exact h
  · have hnew : (s.newService gen want target bundleInfo waitConnect).Held := by
      have hset : Dwindles (s.newPageAbility gen target want).2 ((s.newPageAbility gen target want).2.modify
          (gen.generate s.generated) (setUp bundleInfo waitConnect)) :=
        .modify fun r => (mild_setUp bundleInfo waitConnect r).appRecord
      unfold newService pushServiceRecord
      split
      · exact hset.held h.newPageAbility
      · exact (hset.trans (.same rfl rfl)).held h.newPageAbility
    refine Avoids.bind (startService_holds hnew) fun y h₁ => ?_
    dsimp only
    split
    · exact Avoids.bind (removeServiceRecord_leads h₁) fun _ h₂ => h₂.held h₁
    · exact h₁

theorem Held.pushTopMissionRecord (h : s.Held) (m : AbilityMissionRecord) :
    (s.pushTopMissionRecord m).Held := by
  unfold AbilityMgr.pushTopMissionRecord
  dsimp only
  split
  · exact (Dwindles.same rfl rfl).held h
  · exact (Dwindles.setStack _).held h

theorem Held.newMission (h : s.Held) {target : AbilityInfo} {want : Want} {st : StackType} :
    (s.newMission gen target want st).2.2.Held := by
  let s₁ : AbilityMgr := { (s.newPageAbility gen target want).2 with missions := s.missions + 1 }
  have hcount : Dwindles (s.newPageAbility gen target want).2 s₁ := .same rfl rfl
  have hplace : Dwindles s₁ (s₁.modify (gen.generate s.generated) (·.setMissionRecord s.missions)) :=
    .modify fun _ => rfl
  exact ((hcount.trans hplace).held h.newPageAbility).pushTopMissionRecord _

theorem Held.newPage (h : s.Held) {target : AbilityInfo} {want : Want} {id : Nat} :
    (s.newPage gen target want id).2.Held := by
  let s₁ : AbilityMgr := (s.newPageAbility gen target want).2
  have hplace : Dwindles s₁ (s₁.modify (gen.generate s.generated) (·.setMissionRecord id)) :=
    .modify fun _ => rfl
  exact (hplace.trans dwindles_modifyMission).held h.newPageAbility

theorem targetPage_holds (h : s.Held) {target : AbilityInfo} {want : Want}
    {top : Option PageAbilityRecord} {st : StackType} :
    Avoids .appRecord (fun y => y.2.2.Held) (s.targetPage gen target want top st) := by
  have hmove {s₁ : AbilityMgr} (h₁ : s₁.Held) {page : Option Token} {id : Nat} :
      Avoids .appRecord (fun y : Option Token × Nat × AbilityMgr => y.2.2.Held)
        (s₁.moveMissionRecordToTop st id >>= fun s' => .ok (page, id, s')) :=
    Avoids.bind moveMissionRecordToTop_leads fun _ h₂ => h₂.held h₁
  unfold targetPage
  split
  · exact h.newMission
  · split
    · exact hmove h
    · split
      · refine Avoids.bind record_avoids fun r _ => ?_
        split
        · exact hmove h
        · exact hmove h.newPage
      · exact hmove h.newPage

theorem generatePageAbility_holds (h : s.Held) {target : AbilityInfo} {want : Want}
    {topAbility : Option Token} : Holds (s.generatePageAbility gen target want topAbility) := by
  unfold generatePageAbility
  split
  · exact h
  · refine Avoids.bind (targetPage_holds h) ?_
    rintro ⟨page, id, s₁⟩ h₁
    have hlink {s₂ : AbilityMgr} (h₂ : Dwindles s₁ s₂) {st : StackType} :
        ({ s₂ with topMissionStacks := some st } : AbilityMgr).Held := (h₂.trans (.same rfl rfl)).held h₁
    dsimp only
    split
    · exact hlink (.refl s₁)
    · split
      · exact hlink dwindles_modifyMission
      · exact hlink (.refl s₁)

theorem startPageTask_holds (h : s.Held) {want : Want} {target : AbilityInfo} {bundleInfo : BundleInfo} :
    Holds (s.startPageTask gen env want target bundleInfo) := by
  unfold startPageTask
  refine Avoids.bind (generatePageAbility_holds h) ?_
  rintro ⟨page, s₁⟩ h₁
  dsimp only
  split
  · exact h₁
  · next t =>
    have hset : Dwindles s₁ (s₁.modify t (·.setBundleInfo bundleInfo)) := .modify fun _ => rfl
    have h₂ := hset.held h₁
    split
    · exact h₁
    · split
      · next top _ =>
        refine Avoids.bind (inactiveAbility_reads h₂) fun y h₃ => ?_
        split
        · have hnext : Dwindles y.2 (y.2.modify top (·.setNextPageAbility (some t))) := .modify fun _ => rfl
          have hprev : Dwindles (y.2.modify top (·.setNextPageAbility (some t)))
              ((y.2.modify top (·.setNextPageAbility (some t))).modify t
                (·.setPrevPageAbility (some top))) := .modify fun _ => rfl
          exact ((h₃.trans hnext).trans hprev).held h₂
        · exact Avoids.bind (removePageAbility_leads (h₃.held h₂)) fun _ h₄ => h₄.held (h₃.held h₂)
      · refine Avoids.bind (startAbility_holds h₂) fun y h₃ => ?_
        split
        · exact Avoids.bind (removePageAbility_leads h₃) fun _ h₄ => h₄.held h₃
        · exact h₃

theorem startTask_holds (h : s.Held) {want : Want} {target : AbilityInfo} {bundleInfo : BundleInfo}
    {waitConnect : Bool} : Holds (s.startTask gen env want target bundleInfo waitConnect) := by
  unfold startTask
  split
  · exact startServiceTask_holds h
  · exact startPageTask_holds h

theorem inactivateTask_holds (h : s.Held) : Holds (s.inactivateTask gen env t) := by
  unfold inactivateTask
  split
  · exact h
  · next t _ =>
    refine Avoids.bind record_avoids fun r _ => ?_
    have hreach : Dwindles s (s.modify t (·.setCurrentState .inactive)) := .modify fun _ => rfl
    have h₁ := hreach.held h
    dsimp only
    split
    · split
      · have hconnecting : Dwindles s ((s.modify t (·.setCurrentState .inactive)).modify t
            (·.setConnectStatus .connecting)) := hreach.trans (.modify fun _ => rfl)
        exact (connectAbility_reads (hconnecting.held h)).holds (hconnecting.held h)
      · exact h₁
    · split
      · next next _ =>
        refine Avoids.bind (startAbility_holds h₁) fun y h₂ => ?_
        have hlink : Dwindles y.2 (y.2.modify t (·.setNextPageAbility none)) := .modify fun _ => rfl
        exact hlink.held h₂
      · -- no page waits for this one to give way: it goes back
        have hprev : Avoids .appRecord (fun _ => True)
            ((s.modify t (·.setCurrentState .inactive)).getPrevPageAbility r t) := by
          cases hp : (s.modify t (·.setCurrentState .inactive)).getPrevPageAbility r t with
          | ok o => exact trivial
          | error f =>
            rw [getPrevPageAbility_error hp]
            exact fun h => by cases h
        refine Avoids.bind hprev fun prevAbility _ => ?_
        split
        · next prev =>
          refine Avoids.bind (activeAbility_reads h₁) fun y h₂ => ?_
          have hlink : Dwindles y.2 (y.2.modify prev (·.setNextPageAbility (some t))) := .modify fun _ => rfl
          exact (h₂.trans hlink).held h₁
        · exact Avoids.bind (stopAbility_reads h₁) fun _ h₂ => h₂.held h₁

/-! ## Where process records go -/

/-- The process record is the last of the list, and only the ability is bound to it. -/
def UsedBy (s : AbilityMgr) (t : Token) (a : Nat) : Prop :=
  s.appNames.getLast?.map (·.1) = some a ∧
    ∀ u r, s.records u = some r → r.appRecord = some a → u = t

theorem UsedBy.dwindles (h : s.UsedBy t a) (hs : Dwindles s s') : s'.UsedBy t a := by
  refine ⟨hs.apps ▸ h.1, fun u r' hr' ha => ?_⟩
  obtain ⟨r, hr, hsame⟩ := hs.records u r' hr'
  exact h.2 u r hr (hsame ▸ ha)

theorem appNames_ids : s.appNames.map (·.1) = s.appRecords.map (·.identityId) := by
  unfold appNames
  rw [List.map_map]
  rfl

/-- The last process record is removed, and the others stay. -/
theorem removeAppRecord_avoids (hids : (s.appNames.map (·.1)).Nodup)
    (hlast : s.appNames.getLast?.map (·.1) = some a) :
    Avoids .appRecord (fun s' => s'.records = s.records ∧ ∀ b, b ≠ a → (s.app b).isSome → (s'.app b).isSome)
      (s.removeAppRecord a) := by
  rw [appNames_ids] at hids
  obtain ⟨app, happ, hid⟩ : ∃ app, s.appRecords.getLast? = some app ∧ app.identityId = a := by
    unfold appNames at hlast
    rw [List.getLast?_map, Option.map_map] at hlast
    exact Option.map_eq_some_iff.mp hlast
  have hfound : s.app a = some app := Keyed.find?_key hids (List.mem_of_getLast? happ) hid
  cases h : s.removeAppRecord a with
  | error f => exact absurd happ ((removeAppRecord_faults hids hfound).mp ⟨f, h⟩)
  | ok s' =>
    obtain ⟨gone, l, -, hgone, hsplit, -, rfl⟩ := removeAppRecord_cases h
    refine ⟨rfl, fun b hb hsome => ?_⟩
    obtain ⟨old, hold, hid⟩ := List.find?_isSome.mp hsome
    have hold' : old ∈ l := by
      rw [hsplit, List.mem_append, List.mem_singleton] at hold
      rcases hold with hold | rfl
      · exact hold
      · exact absurd ((of_decide_eq_true hid).symm.trans hgone) hb
    exact List.find?_isSome.mpr ⟨old, hold', hid⟩

/-- The process of an ability exits that is the only one bound to it. -/
theorem exitApp_holds (h : s.Held) (hids : (s.appNames.map (·.1)).Nodup)
    (hused : ∀ r a, s.records t = some r → r.appRecord = some a → s.Reaches env a .appExit → s.UsedBy t a) :
    Holds (s.exitApp env t) := by
  unfold exitApp
  refine Avoids.bind record_avoids fun r hr => ?_
  split
  · exact h
  · next a ha =>
    have hexit : Avoids .appRecord (fun y => Dwindles s y.2 ∧ (y.1.isOk = true → s.Reaches env a .appExit))
        (s.appExitTransaction env a) := by
      refine Avoids.mono (appExitTransaction_reads (h t r a hr ha)) fun y hy h₁ => ⟨h₁, fun hok => ?_⟩
      rcases appExitTransaction_cases hy with ⟨-, hno⟩ | ⟨-, -, hreach⟩
      · rw [hok] at hno
        cases hno
      · exact hreach
    refine Avoids.bind hexit ?_
    rintro ⟨status, s₁⟩ ⟨h₁, hreach⟩
    dsimp only at h₁ hreach ⊢
    split
    · next hok =>
      have hused₁ := (hused r a hr ha (hreach hok)).dwindles h₁
      refine Avoids.bind (removeAppRecord_avoids (h₁.apps.symm ▸ hids) hused₁.1) fun s₂ h₂ => ?_
      obtain ⟨hrecords, hstay⟩ := h₂
      intro u r' b hr' hb
      obtain ⟨old, hold, ⟨rfl, rfl⟩ | ⟨hu, rfl⟩⟩ := Store.modify_cases hr'
      · cases hb
      · rw [hrecords] at hold
        have hne : b ≠ a := fun he => hu (hused₁.2 u r' hold (he ▸ hb))
        exact hstay b hne (h₁.held h u r' b hold hb)
    · exact h₁.held h

theorem Kept.countServiceInApp (h : Kept s s') (name : Option CString) :
    s'.countServiceInApp name = s.countServiceInApp name := by
  cases name with
  | none => rfl
  | some name =>
    rw [countServiceInApp_eq, countServiceInApp_eq, h.services]
    exact List.countP_congr fun t _ => by rw [ofBundle_place (h.places t)]

theorem Kept.existAppInStack (h : Kept s s') (name : Option CString) :
    s'.existAppInStack name = s.existAppInStack name := by
  unfold AbilityMgr.existAppInStack getTargetMissionRecord
  rw [h.stack]

/-- If the process of an ability that has stopped is told to exit, the ability is the only one bound to
it, and its record is the last. -/
def ExitsAlone (s : AbilityMgr) (env : Env) (t : Token) : Prop :=
  s.Listed t → ∀ r a, s.records t = some r → r.appRecord = some a → s.exits t r →
    s.Reaches env a .appExit → s.UsedBy t a

theorem stopTask_holds (h : s.Held) (hids : (s.appNames.map (·.1)).Nodup) (halone : s.ExitsAlone env t) :
    Holds (s.stopTask env t) := by
  unfold stopTask
  split
  · exact h
  next p hp =>
  obtain ⟨rfl, hl⟩ := findPageAbility_eq_some.mp hp
  refine Avoids.bind record_avoids fun r hr => ?_
  have hreach : Dwindles s (s.modify p (·.setCurrentState .initial)) := .modify fun _ => rfl
  have hkept : Kept s (s.modify p (·.setCurrentState .initial)) := .modify fun _ => rfl
  -- the process exits in a state that differs from this one in the record of the ability
  have hexit {x : AbilityMgr} (hx : Dwindles s x) (happs : x.appRecords = s.appRecords)
      (hexits : s.exits p r) : Holds (x.exitApp env p) := by
    refine exitApp_holds (hx.held h) (hx.apps.symm ▸ hids) fun rx a hrx ha hsend => ?_
    obtain ⟨r', hr', hsame⟩ := hx.records p rx hrx
    rw [hr] at hr'
    cases hr'
    have hsend' : s.Reaches env a .appExit := by
      obtain ⟨app, happ, hclient⟩ := hsend
      refine ⟨app, ?_, hclient⟩
      unfold AbilityMgr.app at happ ⊢
      rwa [happs] at happ
    exact (halone hl r a hr (hsame ▸ ha) hexits hsend').dwindles hx
  dsimp only
  split
  · next hservice =>
    split
    · exact hreach.held h
    · have hdone : Avoids .appRecord (fun y => Dwindles s y.2 ∧ Kept s y.2 ∧ y.2.appRecords = s.appRecords)
          ((s.modify p (·.setCurrentState .initial)).stopAbilityDone env p) := by
        refine Avoids.mono (stopAbilityDone_reads (hreach.held h)) fun y hy h₁ => ⟨hreach.trans h₁, ?_⟩
        rcases stopAbilityDone_eq hy with he | ⟨callbacks, he⟩
        · rw [he]
          exact ⟨hkept, rfl⟩
        · have hstopped : Kept (s.modify p (·.setCurrentState .initial))
              ((s.modify p (·.setCurrentState .initial)).modify p (·.setConnectStatus .stopped)) :=
            .modify fun _ => rfl
          rw [he]
          exact ⟨⟨⟨rfl, rfl, rfl, rfl, rfl, rfl⟩, (hkept.trans hstopped).places⟩, rfl⟩
      refine Avoids.bind hdone ?_
      rintro ⟨status, s₁⟩ ⟨h₁, hkept₁, happs₁⟩
      dsimp only at h₁ hkept₁ happs₁ ⊢
      have hremove {s₂ : AbilityMgr} {status : AbilityMsStatus} (h₂ : s₂.Held) :
          Holds (s₂.removeServiceRecord p >>= fun s' => .ok (status, s')) :=
        Avoids.bind (removeServiceRecord_leads h₂) fun _ h₃ => h₃.held h₂
      split
      · next hlast =>
        rw [hkept₁.existAppInStack, hkept₁.countServiceInApp] at hlast
        have hexits : s.exits p r := by
          unfold exits PageAbilityRecord.isService
          rw [hservice]
          exact hlast
        exact Avoids.bind (hexit h₁ happs₁ hexits) fun _ h₂ => hremove h₂
      · exact hremove (h₁.held h)
  · next hpage =>
    have hremove {x : AbilityMgr} {status : AbilityMsStatus} (hx : x.Held) :
        Holds (x.removePageAbility p >>= fun s' => .ok (status, s')) :=
      Avoids.bind (removePageAbility_leads hx) fun _ h₁ => h₁.held hx
    have hasks (bottom : Option Token) (hbottom : s.bottomOf r = .ok bottom) :
        Holds (if bottom = some p ∧ (s.modify p (·.setCurrentState .initial)).countServiceInApp
              r.abilityInfo.bundleName = 0 then
            (s.modify p (·.setCurrentState .initial)).exitApp env p >>= fun x =>
              x.2.removePageAbility p >>= fun s' => .ok (x.1, s')
          else (s.modify p (·.setCurrentState .initial)).removePageAbility p >>= fun s' =>
            .ok (AbilityMsStatus.ok, s')) := by
      split
      · next hlast =>
        rw [hkept.countServiceInApp] at hlast
        have hexits : s.exits p r := by
          unfold exits PageAbilityRecord.isService
          rw [if_neg (by simpa using hpage), hbottom, hlast.1]
          exact ⟨rfl, hlast.2⟩
        exact Avoids.bind (hexit hreach rfl hexits) fun _ h₁ => hremove h₁
      · exact hremove (hreach.held h)
    split
    · next hnone => exact hasks none (by unfold bottomOf; rw [hnone])
    · next id hid =>
      have hmission : (s.modify p (·.setCurrentState .initial)).mission id = s.mission id := rfl
      rw [hmission]
      cases hm : s.mission id with
      | error f =>
        rw [mission_error hm]
        exact fun h => by cases h
      | ok m => exact hasks m.getBottomPageAbility (by unfold bottomOf; rw [hid]; dsimp only; rw [hm]; rfl)

/-- The process that attaches gets its permissions, or its record is the last and no ability is bound to
it. -/
def AdmitsOrUnused (s : AbilityMgr) (env : Env) (client : AbilityThreadClient) : Prop :=
  ∀ app, s.getAppRecordByToken client.token client.pid = some app →
    env.addDeathRecipient client.svcIdentity = true → env.loadPermissions app.bundleInfo ≠ none →
    s.appNames.getLast?.map (·.1) = some app.identityId ∧
      ∀ u r, s.records u = some r → r.appRecord ≠ some app.identityId

theorem setAbilityThreadClient_avoids {client : AbilityThreadClient} (ha : (s.app a).isSome) :
    Avoids .appRecord
      (fun y => Dwindles s y.2 ∧ (y.1.isOk = true → env.addDeathRecipient client.svcIdentity = true))
      (s.setAbilityThreadClient env a client) := by
  have hclient : Dwindles s (s.modifyApp a (·.setClient client)) := .modifyApp fun _ => ⟨rfl, rfl⟩
  unfold setAbilityThreadClient
  refine Avoids.bind (appRecord_avoids ha) fun app _ => ?_
  dsimp only
  split
  · exact ⟨hclient, fun h => by cases h⟩
  · split
    · next hdeath => exact ⟨hclient, fun _ => hdeath⟩
    · exact ⟨hclient, fun h => by cases h⟩

theorem loadPermission_avoids (ha : (s.app a).isSome) :
    Avoids .appRecord (fun y => Dwindles s y.2 ∧ (y.1.isOk = false →
        ∃ app, s.app a = some app ∧ env.loadPermissions app.bundleInfo ≠ none))
      (s.loadPermission env a) := by
  unfold loadPermission
  refine Avoids.bind (appRecord_avoids ha) fun app happ => ?_
  split
  · exact ⟨.refl s, fun h => by cases h⟩
  · next ret hret =>
    refine Avoids.bind (appExitTransaction_reads ha) fun y h₁ => ?_
    refine ⟨h₁, fun _ => ⟨app, happ, fun hnone => ?_⟩⟩
    rw [hret] at hnone
    cases hnone

theorem mem_appNames {app : AppRecord} (h : s.app a = some app) : (a, app.bundleInfo) ∈ s.appNames := by
  have hid : app.identityId = a := app_identityId h
  exact hid ▸ List.mem_map_of_mem (app_mem h)

theorem attachTask_holds (h : s.Held) (hids : (s.appNames.map (·.1)).Nodup) {client : AbilityThreadClient}
    (hadmits : s.AdmitsOrUnused env client) : Holds (s.attachTask env client) := by
  unfold attachTask
  split
  · exact h
  next app hfound =>
  have hmem : (app.identityId, app.bundleInfo) ∈ s.appNames :=
    List.mem_map_of_mem (getAppRecordByToken_mem hfound)
  have ha : (s.app app.identityId).isSome := app_isSome_iff.mpr ⟨_, hmem, rfl⟩
  refine Avoids.bind (setAbilityThreadClient_avoids ha) ?_
  rintro ⟨status, s₁⟩ ⟨h₁, hwatched⟩
  dsimp only at h₁ hwatched ⊢
  split
  · exact h₁.held h
  next hok =>
  have hdeath := hwatched (by simpa using hok)
  refine Avoids.bind (loadPermission_avoids ((app_isSome_congr h₁.apps).mpr ha)) ?_
  rintro ⟨status', s₂⟩ ⟨h₂, hdenied⟩
  dsimp only at h₂ hdenied ⊢
  have h₂' := h₁.trans h₂
  split
  · next hno =>
    obtain ⟨x, hx, hperm⟩ := hdenied (by simpa using hno)
    have hsame : x.bundleInfo = app.bundleInfo := by
      have hx' : (app.identityId, x.bundleInfo) ∈ s.appNames := h₁.apps ▸ mem_appNames hx
      have hpair := Keyed.eq_of_key_eq hids hx' hmem rfl
      exact congrArg Prod.snd hpair
    obtain ⟨hlast, hunused⟩ := hadmits app hfound hdeath (hsame ▸ hperm)
    refine Avoids.bind (removeAppRecord_avoids (h₂'.apps.symm ▸ hids) (h₂'.apps.symm ▸ hlast)) fun s₃ h₃ => ?_
    obtain ⟨hrecords, hstay⟩ := h₃
    intro u r b hr hb
    rw [hrecords] at hr
    obtain ⟨old, hold, hkeeps⟩ := h₂'.records u r hr
    have hne : b ≠ app.identityId := fun he => hunused u old hold (hkeeps ▸ he ▸ hb)
    exact hstay b hne (h₂'.held h u r b hr hb)
  · refine Avoids.bind (appInitTransaction_reads ((app_isSome_congr h₂'.apps).mpr ha)) ?_
    rintro ⟨status'', s₃⟩ h₃
    dsimp only at h₃ ⊢
    have h₃' := h₂'.trans h₃
    split
    · exact h₃'.held h
    · have hlaunch : Reads s₃ (s₃.launchPendingAbility env app.identityId) :=
        launchPendingAbility_reads (h₃'.held h) ((app_isSome_congr h₃'.apps).mpr ha)
      exact hlaunch.holds (h₃'.held h)

/-! ## The end of a bundle -/

theorem Dwindles.none (h : Dwindles s s') (hnone : s.records t = none) : s'.records t = none := by
  cases hr : s'.records t with
  | none => rfl
  | some r' =>
    obtain ⟨r, hr, -⟩ := h.records t r' hr
    rw [hnone] at hr
    cases hr

theorem delete_none (h : s.delete t = .ok s') : s'.records t = none := by
  obtain ⟨r, -, ⟨-, rfl⟩ | ⟨a, app, -, -, rfl⟩⟩ := delete_cases h
  · exact Store.erase_same _
  · exact Store.erase_same _

theorem ofBundle_delete {name : CString} {u : Token} (h : s.delete u = .ok s') (hne : t ≠ u) :
    s'.ofBundle name t = s.ofBundle name t := by
  have hsame : s'.records t = s.records t := by
    obtain ⟨r, -, ⟨-, rfl⟩ | ⟨a, app, -, -, rfl⟩⟩ := delete_cases h
    · exact Store.erase_ne _ hne
    · exact Store.erase_ne _ hne
  exact ofBundle_place (by rw [hsame])

theorem ofBundle_stopAbilityDone {name : CString} {u : Token} {status : AbilityMsStatus}
    (h : s.stopAbilityDone env u = .ok (status, s')) : s'.ofBundle name t = s.ofBundle name t := by
  have hstopped : Kept s (s.modify u (·.setConnectStatus .stopped)) := .modify fun _ => rfl
  rcases stopAbilityDone_eq h with rfl | ⟨callbacks, rfl⟩
  · rfl
  · exact ofBundle_place (hstopped.places t)

/-- The services of the bundle are deleted. -/
theorem removeServiceRecords_deletes (h : s.Held) {name : CString} {ts : List Token}
    (hs : removeServiceRecords env name ts s = .ok s') (ht : t ∈ ts) (hbundle : s.ofBundle name t = true) :
    s'.records t = none := by
  induction ts generalizing s with
  | nil => cases ht
  | cons u ts ih =>
    simp only [removeServiceRecords, bind_eq_ok, record_eq_ok] at hs
    obtain ⟨r, hr, hs⟩ := hs
    split at hs
    · simp only [bind_eq_ok] at hs
      obtain ⟨⟨status, s₁⟩, h₁, s₂, h₂, hs⟩ := hs
      have hstop : Dwindles s s₁ := (stopAbilityDone_reads h).of_ok h₁
      have hlist : Dwindles s₁ { s₁ with serviceRecords := s₁.serviceRecords.filter (· ≠ u) } := .same rfl rfl
      have hlisted := (hstop.trans hlist).held h
      have hheld := ((delete_leads hlisted).of_ok h₂).held hlisted
      by_cases htu : t = u
      · subst htu
        exact ((removeServiceRecords_leads hheld).of_ok hs).none (delete_none h₂)
      · refine ih hheld hs (List.mem_of_ne_of_mem htu ht) ?_
        rw [ofBundle_delete h₂ htu]
        exact (ofBundle_stopAbilityDone h₁).trans hbundle
    · next hother =>
      refine ih h hs (List.mem_of_ne_of_mem ?_ ht) hbundle
      rintro rfl
      exact hother ((ofBundle_iff hr).mp hbundle)

/-- The abilities of the bundle are deleted. -/
theorem clearAbilityStack_deletes (hs : s.Shape) (h : s.Held) {name : CString}
    (hclear : s.clearAbilityStack env name = .ok s') (ht : s.ListedOf name t) : s'.records t = none := by
  obtain ⟨s₁, s₂, h₁, h₂, -, -, hpages⟩ := clearAbilityStack_split hs hclear
  have hservices : Dwindles s s₁ := (removeServiceRecords_leads h).of_ok h₁
  have hreturn : Dwindles s₁ s₂ := returnFrom_leads.of_ok h₂
  rcases hs.listedOf_iff.mp ht with hpage | ⟨hservice, hbundle⟩
  · rcases hpages with ⟨hempty, -⟩ | ⟨m, -, -, s₃, -, hgone, -⟩
    · rw [hempty] at hpage
      cases hpage
    · exact hgone t hpage
  · have hnone := hreturn.none (removeServiceRecords_deletes h h₁ hservice hbundle)
    have hheld := (hservices.trans hreturn).held h
    rcases hpages with ⟨-, rfl⟩ | ⟨m, -, -, s₃, h₃, -, rfl⟩
    · exact hnone
    · have hcleared : Dwindles s₂ s₃ :=
        dwindles_modifyMission.trans ((clearPageAbility_leads (dwindles_modifyMission.held hheld)).of_ok h₃)
      rw [records_dropMission]
      exact hcleared.none hnone

/-- Each ability that is bound to the process of a bundle is an ability of the bundle, on a mission or on
the list of services. -/
def EndsAll (s : AbilityMgr) (name : CString) : Prop :=
  ∀ x ∈ s.appNames, x.2.bundleName = some name → ∀ u r, s.records u = some r → r.appRecord = some x.1 →
    s.ListedOf name u

theorem EndsAll.dwindles {name : CString} (h : s.EndsAll name) (hs : Dwindles s s') (hkept : Kept s s') :
    s'.EndsAll name := by
  intro x hx hname u r' hr' ha
  obtain ⟨r, hr, hsame⟩ := hs.records u r' hr'
  rw [hs.apps] at hx
  exact hkept.listedOf.mpr (h x hx hname u r hr (hsame ▸ ha))

/-- The process record of a bundle goes after its abilities. -/
theorem clears_avoids (hs : s.Shape) (h : s.Held) {name : CString} (hends : s.EndsAll name) :
    Avoids .appRecord (fun s' => (s'.removeAppRecordByName (some name)).Held) (s.clearAbilityStack env name) := by
  refine Avoids.mono (clearAbilityStack_leads h) fun s' hclear h₁ => ?_
  intro u r a hr ha
  obtain ⟨app, happ, hid⟩ := List.find?_isSome.mp (h₁.held h u r a hr ha)
  refine List.find?_isSome.mpr ⟨app, List.mem_filter.mpr ⟨happ, decide_eq_true fun hname => ?_⟩, hid⟩
  have hmem : (app.identityId, app.bundleInfo) ∈ s.appNames := h₁.apps ▸ List.mem_map_of_mem happ
  obtain ⟨old, hold, hsame⟩ := h₁.records u r hr
  have hbound : old.appRecord = some app.identityId := by
    rw [← hsame, ha, of_decide_eq_true hid]
  have hnone := clearAbilityStack_deletes hs h hclear (hends _ hmem hname u old hold hbound)
  have hgone : s'.records u = some r := hr
  rw [hnone] at hgone
  cases hgone

theorem appTerminateTask_holds (hs : s.Shape) (h : s.Held) {name : CString}
    (hends : ¬ s.RefusesExit env name → s.EndsAll name) : Holds (s.appTerminateTask env name) := by
  have hexit : Avoids .appRecord
      (fun y => Dwindles s y.2 ∧ Kept s y.2 ∧ (y.1.isOk = true → ¬ s.RefusesExit env name))
      (s.terminateAppProcess env (some name)) := by
    unfold terminateAppProcess
    split
    · next hnone =>
      refine ⟨.refl s, .refl s, fun _ hrefuses => ?_⟩
      obtain ⟨app, happ, -⟩ := hrefuses
      rw [hnone] at happ
      cases happ
    · next app happ =>
      have ha : (s.app app.identityId).isSome :=
        List.find?_isSome.mpr ⟨app, (getAppRecordByBundleName_mem happ).1, decide_eq_true rfl⟩
      refine Avoids.mono (appExitTransaction_reads ha) fun y hy h₁ => ⟨h₁, ?_⟩
      rcases appExitTransaction_reaches hy with ⟨-, hno, hsame⟩ | ⟨hreach, -, hsent⟩
      · rw [hsame]
        refine ⟨.refl s, fun hok => ?_⟩
        rw [hok] at hno
        cases hno
      · rw [hsent]
        refine ⟨.send .appExit, fun _ hrefuses => ?_⟩
        obtain ⟨app', happ', hnot⟩ := hrefuses
        rw [happ] at happ'
        cases happ'
        exact hnot hreach
  unfold appTerminateTask
  refine Avoids.bind hexit ?_
  rintro ⟨status, s₁⟩ ⟨h₁, hkept, hgoes⟩
  dsimp only at h₁ hkept hgoes ⊢
  split
  · next hok =>
    have hends₁ := (hends (hgoes hok)).dwindles h₁ hkept
    refine Avoids.bind (clears_avoids (hs.of_kept hkept) (h₁.held h) hends₁) fun s₂ h₂ => ?_
    split
    · exact h₂
    · exact Avoids.bind (activeAbility_reads h₂) fun _ h₃ => h₃.held h₂
  · exact h₁.held h

theorem appRestartTask_holds (hs : s.Shape) (h : s.Held) {bundleInfo : BundleInfo}
    (hends : ∀ name, bundleInfo.bundleName = some name → s.EndsAll name) :
    Holds (s.appRestartTask env bundleInfo) := by
  unfold appRestartTask
  split
  · exact h
  · next name hname =>
    refine Avoids.bind (clears_avoids hs h (hends name hname)) fun s₁ h₁ => ?_
    dsimp only
    split
    · exact h₁
    · exact Avoids.bind (activeAbility_reads h₁) fun _ h₂ => h₂.held h₁

/-! ## Messages -/

theorem handleStartAbility_holds (h : s.Held) {want : Want} {uid : Int} :
    Holds (s.handleStartAbility gen env want uid) := by
  unfold handleStartAbility
  split
  · exact h
  · split
    · exact h
    · split
      · exact h
      · have hworker {target : AbilityInfo} {bundleInfo : BundleInfo} :
            Holds (s.workerStartAbility gen env want target bundleInfo uid) := by
          unfold workerStartAbility
          split
          · exact startTask_holds h
          · exact h
        exact Avoids.bind hworker fun _ h₁ => h₁

/-- A message reads no deleted process record, and leaves no pointer dangling. -/
abbrev Settles (x : Except Fault AbilityMgr) : Prop := Avoids .appRecord Held x

theorem startLauncher_settles (h : s.Held) : Settles (s.startLauncher gen env) :=
  Avoids.bind (handleStartAbility_holds h) fun _ h₁ => h₁

theorem startAbilityMsg_settles (h : s.Held) {want : Want} {uid : Int} :
    Settles (s.startAbilityMsg gen env want uid) := by
  refine Avoids.bind (handleStartAbility_holds h) fun y h₁ => ?_
  show (y.2.startAbilityCallback env want y.1).Held
  unfold startAbilityCallback
  split
  · exact h₁
  · split
    · exact h₁
    · exact (Dwindles.notify _ _).held h₁

theorem workerConnectAbility_holds (h : s.Held) {want : Want} {e : ElementName} {sid : SvcIdentity}
    {token : Token} {target : AbilityInfo} {bundleInfo : BundleInfo} {uid : Int} :
    Holds (s.workerConnectAbility gen env want e sid token target bundleInfo uid) := by
  have hthere : Holds (.ok (AbilityMsStatus.ok, s) : Result) := h
  unfold workerConnectAbility
  split
  · dsimp only
    split
    · refine Avoids.bind hthere fun y h₁ => ?_
      split
      · exact h₁
      · split
        · exact h₁
        · exact (connectTask_reads h₁).holds h₁
    · refine Avoids.bind (startTask_holds h) fun y h₁ => ?_
      split
      · exact h₁
      · split
        · exact h₁
        · exact (connectTask_reads h₁).holds h₁
  · exact h

theorem connectAbilityMsg_settles (h : s.Held) {want : Want} {sid : SvcIdentity} {token : Token}
    {uid : Int} : Settles (s.connectAbilityMsg gen env want sid token uid) := by
  have hconnect : Holds (s.handleConnectAbility gen env want sid token uid) := by
    unfold handleConnectAbility
    split
    · exact h
    · split
      · exact h
      · split
        · exact h
        · exact Avoids.bind (workerConnectAbility_holds h) fun _ h₁ => h₁
  refine Avoids.bind hconnect fun y h₁ => ?_
  show (if y.1 = .success then y.2 else y.2.notify env sid .connectFail).Held
  split
  · exact h₁
  · exact (Dwindles.notify _ _).held h₁

theorem terminateServiceMsg_settles (h : s.Held) {want : Want} {uid : Int} :
    Settles (s.terminateServiceMsg env want uid) := by
  have hworker {target : AbilityInfo} {bundleInfo : BundleInfo} :
      Holds (s.workerTerminateService env target bundleInfo uid) := by
    unfold workerTerminateService
    split
    · exact (terminateServiceTask_reads h).holds h
    · exact h
  unfold terminateServiceMsg
  split
  · exact h
  · split
    · exact h
    · split
      · exact h
      · exact Avoids.bind hworker fun _ h₁ => h₁

theorem transactionMsg_settles (h : s.Held) (hids : (s.appNames.map (·.1)).Nodup) {state : TransactionState}
    (halone : state.state = .initial → s.ExitsAlone env state.token) :
    Settles (s.transactionMsg gen env state) := by
  have hworker : Holds (s.workerAbilityTransaction gen env state) := by
    unfold workerAbilityTransaction
    split
    · exact backgroundTask_reads.holds h
    · exact inactivateTask_holds h
    · exact (activateTask_reads h).holds h
    · next hinitial => exact stopTask_holds h hids (halone hinitial)
    · exact h
  refine Avoids.bind hworker ?_
  rintro ⟨status, s₁⟩ h₁
  dsimp only at h₁ ⊢
  split
  · exact startLauncher_settles h₁
  · exact h₁

theorem restartAppMsg_settles (hs : s.Shape) (h : s.Held) {b : CString}
    (hends : ∀ bundleInfo name, env.queryBundleInfo (some b) = some bundleInfo →
      bundleInfo.bundleName = some name → s.EndsAll name) : Settles (s.restartAppMsg gen env b) := by
  have hkeepAlive {x : AbilityMgr} (hx : x.Held) (bundleInfo : BundleInfo) :
      Settles (x.startKeepAliveApp gen env bundleInfo) := by
    unfold startKeepAliveApp
    split
    · exact hx
    · exact Avoids.bind (handleStartAbility_holds hx) fun _ h₁ => h₁
  unfold restartAppMsg
  split
  · exact h
  · next bundleInfo hb =>
    have hthen {x : AbilityMgr} (hx : x.Held) : Settles
        (if (!isLauncherAbility bundleInfo.bundleName) ∧ bundleInfo.isSystemApp ∧ bundleInfo.isKeepAlive then
          x.startKeepAliveApp gen env bundleInfo
        else .ok x) := by
      split
      · exact hkeepAlive hx bundleInfo
      · exact hx
    refine Avoids.bind (appRestartTask_holds hs h fun name => hends bundleInfo name hb) ?_
    rintro ⟨status, s₁⟩ h₁
    dsimp only at h₁ ⊢
    split
    · exact Avoids.bind (startLauncher_settles h₁) fun _ h₂ => hthen h₂
    · exact hthen h₁

/-- A reply reads no deleted process record, if a process exits only with the last that is bound to it. -/
theorem replyMsg_settles (h : s.Held) (hids : (s.appNames.map (·.1)).Nodup) {r : Reply}
    (halone : ∀ t, r = .lifecycleDone ⟨t, .initial⟩ → s.ExitsAlone env t) :
    Settles (s.replyMsg gen env r) := by
  cases r with
  | lifecycleDone state =>
    obtain ⟨t, st⟩ := state
    refine transactionMsg_settles h hids fun hinitial => ?_
    cases hinitial
    exact halone t rfl
  | connectDone sid token => exact Avoids.bind (connectDoneTask_reads h) fun _ h₁ => h₁.held h
  | disconnectDone token => exact Avoids.bind (disconnectDoneTask_reads h) fun _ h₁ => h₁.held h

/-- What a request has to meet for its process records to outlive their users. -/
def RequestReleases (s : AbilityMgr) (env : Env) : Event → Prop
  | .attachBundle client => s.AdmitsOrUnused env client
  | .terminateApp name => ¬ s.RefusesExit env name → s.EndsAll name
  | .restartApp b => ∀ bundleInfo name, env.queryBundleInfo (some b) = some bundleInfo →
      bundleInfo.bundleName = some name → s.EndsAll name
  | _ => True

theorem requestMsg_settles (hs : s.Shape) (h : s.Held) (hids : (s.appNames.map (·.1)).Nodup) {e : Event}
    (he : s.RequestReleases env e) : Settles (s.requestMsg gen env e) := by
  cases e with
  | startAbility want uid => exact startAbilityMsg_settles h
  | terminateAbility token => exact Avoids.bind (terminateTask_reads h) fun _ h₁ => h₁.held h
  | attachBundle client => exact Avoids.bind (attachTask_holds h hids he) fun _ h₁ => h₁
  | connectAbility want sid token uid => exact connectAbilityMsg_settles h
  | disconnectAbility sid token => exact Avoids.bind (disconnectTask_reads h) fun _ h₁ => h₁.held h
  | terminateService want uid => exact terminateServiceMsg_settles h
  | terminateApp name => exact Avoids.bind (appTerminateTask_holds hs h he) fun _ h₁ => h₁
  | restartApp name => exact restartAppMsg_settles hs h he
  | reply a => exact h
  | perform a sid => exact h

end AbilityMgr

/-! ## Runs -/

namespace System
variable {gen : TokenGenerate}

/-- A process record goes only with the last ability that is bound to it: the condition on a step. -/
def Releases (s : System) (e : Env × Event) : Prop :=
  match e.2 with
  | .reply a => ∀ t replies, takeFirst a s.replies = some (.lifecycleDone ⟨t, .initial⟩, replies) →
      s.ams.ExitsAlone e.1 t
  | event => s.ams.RequestReleases e.1 event

theorem Releases.request {s : System} {env : Env} {e : Event} (h : s.Releases (env, e)) :
    s.ams.RequestReleases env e := by
  cases e with
  | reply a => exact trivial
  | _ => exact h

/-- What the invariant says of a state: AMS is sound, no pointer dangles, and none that did was read. -/
structure Owned (gen : TokenGenerate) (s : System) : Prop where
  sound : s.ams.Sound gen
  held : s.ams.Held
  fault : s.fault ≠ some .appRecord

theorem Owned.next {s s' : System} {env : Env} {e : Event} (h : s.Owned gen) (he : s.Releases (env, e))
    (hnext : System.next gen s (env, e) = some s') : s'.Owned gen := by
  obtain ⟨hsound, hheld, hfault⟩ := h
  obtain ⟨hnone, hhappens⟩ := next_cases hnext
  have hids : (s.ams.appNames.map (·.1)).Nodup := by
    rw [AbilityMgr.appNames_ids]
    exact hsound.known.appIds
  have hsound' : s'.ams.Sound gen := hhappens.sound hsound
  cases hhappens with
  | request hm =>
    exact ⟨hsound', (AbilityMgr.requestMsg_settles hsound.shape hheld hids he.request).of_ok hm, hfault⟩
  | requestFault hm =>
    refine ⟨hsound', hheld, fun hf => ?_⟩
    cases hf
    exact (AbilityMgr.requestMsg_settles hsound.shape hheld hids he.request).ne_error hm
  | @reply a r replies ams htake hm =>
    have hreply : AbilityMgr.Settles (s.ams.replyMsg gen env r) :=
      AbilityMgr.replyMsg_settles hheld hids fun t ht => he t replies (by rw [htake, ht])
    exact ⟨hsound', hreply.of_ok hm, hfault⟩
  | @replyFault a r replies f htake hm =>
    have hreply : AbilityMgr.Settles (s.ams.replyMsg gen env r) :=
      AbilityMgr.replyMsg_settles hheld hids fun t ht => he t replies (by rw [htake, ht])
    refine ⟨hsound', hheld, fun hf => ?_⟩
    cases hf
    exact hreply.ne_error hm
  | perform => exact ⟨hsound', (AbilityMgr.Dwindles.same rfl rfl).held hheld, hfault⟩

end System
end AbilityLite.Ams
