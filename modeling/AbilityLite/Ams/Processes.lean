import AbilityLite.Ams.Moves
import AbilityLite.Ams.ServiceClients

/-
  Process records, in every reachable state: a bundle has one at most, and what waits for
  a process to attach is registered and bound to that process.

  From this, an attach uses a deleted object only where the process is refused its
  permissions and its record is not the last of the list.
-/

namespace AbilityLite.Ams
open AbilityMsStatus Fallible Relation
namespace AbilityMgr
variable {gen : TokenGenerate} {env : Env} {s s' : AbilityMgr} {t : Token} {a : Nat}
  {status : AbilityMsStatus}

/-! ## The list of process records -/

/-- The list of process records before and after a step. -/
inductive AppsMove (s : AbilityMgr) : List AppRecord → Prop
  | same : AppsMove s s.appRecords
  | edit (a : Nat) (f : AppRecord → AppRecord)
      (hf : ∀ app, (f app).identityId = app.identityId ∧ (f app).bundleInfo = app.bundleInfo ∧
        (f app).pid = app.pid) : AppsMove s (s.modifyApp a f).appRecords
  | process (app : AppRecord) (hname : app.bundleInfo.bundleName.isSome)
      (hnone : s.getAppRecordByBundleName app.bundleInfo.bundleName = none)
      (hpending : app.pendingAbilityRecord = none) : AppsMove s (s.appRecords ++ [app])
  | drop (l : List AppRecord) (h : l.Sublist s.appRecords) : AppsMove s l

theorem clearPendingAbility_same (app : AppRecord) :
    (app.clearPendingAbility t).identityId = app.identityId ∧
      (app.clearPendingAbility t).bundleInfo = app.bundleInfo ∧
      (app.clearPendingAbility t).pid = app.pid := by
  unfold AppRecord.clearPendingAbility
  split <;> exact ⟨rfl, rfl, rfl⟩

theorem Calm.apps (h : Calm gen env s s') : AppsMove s s'.appRecords := by
  cases h with
  | tick => exact .same
  | process bundleInfo pid hname hnone => exact .process _ hname hnone rfl
  | edit t f => exact .same
  | ask t r a m => exact .same
  | tell a m => exact .same
  | callback l => exact .same

theorem Quiet.apps (h : Quiet gen env s s') : AppsMove s s'.appRecords := by
  cases h with
  | calm h => exact h.apps
  | create info want => exact .same
  | place t id => exact .same
  | reach t r => exact .same
  | accept t r => exact .same
  | delete _ t hd =>
    obtain ⟨r, _, ⟨_, rfl⟩ | ⟨a, app, _, _, rfl⟩⟩ := delete_cases hd
    · exact .same
    · exact .edit a _ clearPendingAbility_same
  | shelve hl =>
    rw [hl.appRecords]
    exact .same

theorem Move.apps (h : Move gen env q s s') : AppsMove s s'.appRecords := by
  cases h with
  | plain h =>
    cases h with
    | quiet h => exact h.apps
    | reach t => exact .same
    | next t o => exact .same
    | prev t o => exact .same
    | ask t r a m => exact .same
    | accept t r => exact .same
    | exit t r a s₁ _ _ _ _ h =>
      obtain ⟨app, l, _, _, hsplit, _, rfl⟩ := removeAppRecord_cases h
      exact .drop l (hsplit ▸ List.sublist_append_left l [app])
  | await t r app => exact .edit _ _ fun _ => ⟨rfl, rfl, rfl⟩
  | client a c => exact .edit _ _ fun _ => ⟨rfl, rfl, rfl⟩
  | launched a => exact .edit _ _ fun _ => ⟨rfl, rfl, rfl⟩
  | drop l h => exact .drop l h

/-- No two process records are of one bundle, and each is of some bundle. -/
structure OneProcess (s : AbilityMgr) : Prop where
  nodup : (s.appRecords.map (·.bundleInfo.bundleName)).Nodup
  named : ∀ app ∈ s.appRecords, app.bundleInfo.bundleName.isSome

theorem mem_modifyApp {f : AppRecord → AppRecord} {app : AppRecord}
    (h : app ∈ (s.modifyApp a f).appRecords) :
    ∃ old ∈ s.appRecords, (old.identityId = a ∧ app = f old) ∨ (old.identityId ≠ a ∧ app = old) := by
  obtain ⟨old, hold, rfl⟩ := List.mem_map.mp h
  refine ⟨old, hold, ?_⟩
  split
  · next hid => exact .inl ⟨hid, rfl⟩
  · next hid => exact .inr ⟨hid, rfl⟩

theorem modifyApp_names {f : AppRecord → AppRecord}
    (hf : ∀ app, (f app).bundleInfo = app.bundleInfo) :
    (s.modifyApp a f).appRecords.map (·.bundleInfo.bundleName) =
      s.appRecords.map (·.bundleInfo.bundleName) := by
  unfold modifyApp
  rw [List.map_map]
  refine List.map_congr_left fun app _ => ?_
  simp only [Function.comp_apply]
  split
  · rw [hf]
  · rfl

theorem getAppRecordByBundleName_none {name : Option CString} (hname : name.isSome)
    (h : s.getAppRecordByBundleName name = none) :
    ∀ app ∈ s.appRecords, app.bundleInfo.bundleName ≠ name := by
  cases name with
  | none => cases hname
  | some name =>
    intro app happ he
    have hnot := List.find?_eq_none.mp h app happ
    rw [he] at hnot
    exact hnot (decide_eq_true rfl)

theorem OneProcess.apps (h : s.OneProcess) {l : List AppRecord} (hmove : AppsMove s l) :
    (l.map (·.bundleInfo.bundleName)).Nodup ∧ ∀ app ∈ l, app.bundleInfo.bundleName.isSome := by
  cases hmove with
  | same => exact ⟨h.nodup, h.named⟩
  | edit a f hf =>
    have hnames := modifyApp_names (s := s) (a := a) fun app => (hf app).2.1
    refine ⟨hnames ▸ h.nodup, fun app happ => ?_⟩
    have hmem := List.mem_map_of_mem (f := (·.bundleInfo.bundleName)) happ
    rw [hnames] at hmem
    obtain ⟨old, hold, he⟩ := List.mem_map.mp hmem
    exact he ▸ h.named old hold
  | process app hname hnone hpending =>
    have hnew := getAppRecordByBundleName_none hname hnone
    constructor
    · rw [List.map_append, List.nodup_append]
      refine ⟨h.nodup, List.pairwise_singleton _ _, fun n hn m hm => ?_⟩
      obtain ⟨old, hold, rfl⟩ := List.mem_map.mp hn
      rw [List.map_singleton, List.mem_singleton] at hm
      rw [hm]
      exact hnew old hold
    · intro old hold
      rcases List.mem_append.mp hold with hold | hold
      · exact h.named old hold
      · rw [List.mem_singleton.mp hold]
        exact hname
  | drop l hl => exact ⟨h.nodup.sublist (hl.map _), fun app happ => h.named app (hl.subset happ)⟩

theorem OneProcess.move (h : s.OneProcess) (hmove : Move gen env q s s') : s'.OneProcess :=
  ⟨(h.apps hmove.apps).1, (h.apps hmove.apps).2⟩

/-! ## What waits for a process -/

/-- An ability that waits for a process is registered and bound to it. -/
def WaitsBound (s : AbilityMgr) : Prop :=
  ∀ app ∈ s.appRecords, ∀ t, app.pendingAbilityRecord = some t →
    ∃ r, s.records t = some r ∧ r.appRecord = some app.identityId

namespace WaitsBound

/-- The process records stay, and no record is deleted or bound elsewhere. -/
theorem same (h : s.WaitsBound) (happs : s'.appRecords = s.appRecords)
    (hrecords : ∀ t r, s.records t = some r → ∃ r', s'.records t = some r' ∧ r'.appRecord = r.appRecord) :
    s'.WaitsBound := by
  intro app happ t hpending
  rw [happs] at happ
  obtain ⟨r, hr, ha⟩ := h app happ t hpending
  obtain ⟨r', hr', ha'⟩ := hrecords t r hr
  exact ⟨r', hr', ha'.trans ha⟩

theorem modify (h : s.WaitsBound) {f : PageAbilityRecord → PageAbilityRecord}
    (hf : ∀ r, (f r).appRecord = r.appRecord) : (s.modify t f).WaitsBound := by
  refine h.same rfl fun u r hr => ?_
  by_cases hu : u = t
  · subst hu
    exact ⟨f r, modify_self hr, hf r⟩
  · exact ⟨r, (Store.modify_ne s.records f hu).trans hr, rfl⟩

theorem send (h : s.WaitsBound) (m : Transaction) : (s.send a m).WaitsBound := by
  cases m with
  | lifecycle state want type =>
    have htransact : (s.modify state.token (·.transact)).WaitsBound := h.modify fun _ => rfl
    exact htransact.same rfl fun _ r hr => ⟨r, hr, rfl⟩
  | _ => exact h.same rfl fun _ r hr => ⟨r, hr, rfl⟩

/-- A process record may let go of what waits for it. -/
theorem modifyApp (h : s.WaitsBound) {f : AppRecord → AppRecord}
    (hid : ∀ app, (f app).identityId = app.identityId)
    (hf : ∀ app t, (f app).pendingAbilityRecord = some t → app.pendingAbilityRecord = some t) :
    (s.modifyApp a f).WaitsBound := by
  intro app happ t hpending
  obtain ⟨old, hold, ⟨_, rfl⟩ | ⟨_, rfl⟩⟩ := mem_modifyApp happ
  · rw [hid]
    exact h old hold t (hf old t hpending)
  · exact h app hold t hpending

theorem drop (h : s.WaitsBound) {l : List AppRecord} (hl : ∀ app ∈ l, app ∈ s.appRecords) :
    ({ s with appRecords := l } : AbilityMgr).WaitsBound := fun app happ => h app (hl app happ)

theorem clearPendingAbility_some {app : AppRecord} {u : Token}
    (h : (app.clearPendingAbility t).pendingAbilityRecord = some u) :
    app.pendingAbilityRecord = some u ∧ u ≠ t := by
  unfold AppRecord.clearPendingAbility at h
  split at h
  · cases h
  · next hne => exact ⟨h, fun he => hne (he ▸ h)⟩

/-- What is deleted was bound to one process at most, which no longer waits for it. -/
theorem delete (h : s.WaitsBound) (hd : s.delete t = .ok s') : s'.WaitsBound := by
  obtain ⟨r, hr, ⟨ha, rfl⟩ | ⟨a, app, ha, happ, rfl⟩⟩ := delete_cases hd
  · intro app happ u hpending
    obtain ⟨r', hr', hbound⟩ := h app happ u hpending
    have hne : u ≠ t := by
      rintro rfl
      rw [hr] at hr'
      cases hr'
      rw [ha] at hbound
      cases hbound
    exact ⟨r', (Store.erase_ne _ hne).trans hr', hbound⟩
  · intro app' happ' u hpending
    obtain ⟨old, hold, ⟨hid, rfl⟩ | ⟨hid, rfl⟩⟩ := mem_modifyApp happ'
    · obtain ⟨hwaits, hne⟩ := clearPendingAbility_some hpending
      obtain ⟨r', hr', hbound⟩ := h old hold u hwaits
      rw [(clearPendingAbility_same old).1]
      exact ⟨r', (Store.erase_ne _ hne).trans hr', hbound⟩
    · obtain ⟨r', hr', hbound⟩ := h app' hold u hpending
      have hne : u ≠ t := by
        rintro rfl
        rw [hr] at hr'
        cases hr'
        rw [ha] at hbound
        exact hid (Option.some.inj hbound).symm
      exact ⟨r', (Store.erase_ne _ hne).trans hr', hbound⟩

theorem quiet (h : s.WaitsBound) (hk : Known gen s) (hq : Quiet gen env s s') : s'.WaitsBound := by
  cases hq with
  | calm hc =>
    cases hc with
    | tick => exact h.same rfl fun _ r hr => ⟨r, hr, rfl⟩
    | process bundleInfo pid hname hnone =>
      intro app happ t hpending
      rcases List.mem_append.mp happ with happ | happ
      · exact h app happ t hpending
      · rw [List.mem_singleton.mp happ] at hpending
        cases hpending
    | edit t f hf => exact h.modify fun r => (hf r).appRecord
    | ask t r a m => exact h.send m
    | tell a m => exact h.send m
    | callback l => exact h.same rfl fun _ r hr => ⟨r, hr, rfl⟩
  | create info want =>
    refine h.same rfl fun u r hr => ⟨r, ?_, rfl⟩
    have hne : u ≠ gen.generate s.generated := by
      rintro rfl
      rw [hk.fresh] at hr
      cases hr
    exact (Store.insert_ne _ _ hne).trans hr
  | place t id => exact h.modify fun _ => rfl
  | reach t r => exact h.modify fun _ => rfl
  | accept t r => exact h.modify fun _ => rfl
  | delete _ t hd => exact h.delete hd
  | shelve hl => exact h.same hl.appRecords fun _ r hr => ⟨r, hl.records ▸ hr, rfl⟩

theorem move (h : s.WaitsBound) (hk : Known gen s) (hmove : Move gen env q s s') : s'.WaitsBound := by
  cases hmove with
  | plain hp =>
    cases hp with
    | quiet hq => exact h.quiet hk hq
    | reach t => exact h.modify fun _ => rfl
    | next t o => exact h.modify fun _ => rfl
    | prev t o => exact h.modify fun _ => rfl
    | ask t r a m => exact h.send m
    | accept t r => exact h.modify fun _ => rfl
    | exit t r a s₁ hr ha _ _ hremove =>
      obtain ⟨gone, l, _, _, hsplit, hothers, rfl⟩ := removeAppRecord_cases hremove
      have hmem : ∀ app ∈ l, app ∈ s.appRecords := fun app happ =>
        hsplit ▸ List.mem_append_left _ happ
      intro app happ u hpending
      obtain ⟨r', hr', hbound⟩ := h app (hmem app happ) u hpending
      -- the ability whose process exits does not wait for another one
      have hu : u ≠ t := by
        rintro rfl
        rw [hr] at hr'
        cases hr'
        rw [ha] at hbound
        exact hothers app happ (Option.some.inj hbound).symm
      exact ⟨r', (Store.modify_ne _ _ hu).trans hr', hbound⟩
  | await t r app hr ha happ =>
    intro app' happ' u hpending
    obtain ⟨old, hold, ⟨hid, rfl⟩ | ⟨hid, rfl⟩⟩ := mem_modifyApp happ'
    · cases hpending
      exact ⟨_, modify_self hr, congrArg some hid.symm⟩
    · obtain ⟨r', hr', hbound⟩ := h app' hold u hpending
      have hu : u ≠ t := by
        rintro rfl
        rw [hr] at hr'
        cases hr'
        rw [ha] at hbound
        cases hbound
      exact ⟨r', (Store.modify_ne s.records _ hu).trans hr', hbound⟩
  | client a c => exact h.modifyApp (fun _ => rfl) fun _ _ hp => hp
  | launched a => exact h.modifyApp (fun _ => rfl) fun _ _ hp => (by cases hp)
  | drop l hl => exact h.drop fun app happ => hl.subset happ

end WaitsBound

/-! ## Attaching -/

/-- `RemoveAppRecord` goes through where the record is the last of the list, and only there. -/
theorem removeAppRecord_faults (hids : (s.appRecords.map (·.identityId)).Nodup) {app : AppRecord}
    (happ : s.app a = some app) :
    (∃ f, s.removeAppRecord a = .error f) ↔ s.appRecords.getLast? ≠ some app := by
  constructor
  · rintro ⟨f, hf⟩ hlast
    obtain ⟨l, hl⟩ := List.getLast?_eq_some_iff.mp hlast
    have hid := app_identityId happ
    have hothers : ∀ old ∈ l, old.identityId ≠ a := by
      rw [hl, List.map_append, List.nodup_append] at hids
      intro old hold he
      exact hids.2.2 _ (List.mem_map_of_mem hold) _ List.mem_cons_self (he.trans hid.symm)
    have hloop : ∀ l : List AppRecord, (∀ old ∈ l, old.identityId ≠ a) →
        removeAppRecordLoop a false (l ++ [app]) = .ok l := by
      intro l
      induction l with
      | nil =>
        intro _
        rw [List.nil_append, removeAppRecordLoop, if_pos hid, removeAppRecordLoop]
      | cons old l ih =>
        intro hne
        rw [List.cons_append, removeAppRecordLoop, if_neg (hne old List.mem_cons_self),
          ih fun x hx => hne x (List.mem_cons_of_mem _ hx)]
        rfl
    have hok : s.removeAppRecord a = .ok { s with appRecords := l } := by
      have happ' : s.appRecord a = .ok app := appRecord_eq_ok.mpr happ
      unfold removeAppRecord
      rw [happ', bind_eq_ok]
      refine ⟨app, rfl, ?_⟩
      rw [hid, hl, hloop l hothers]
      rfl
    rw [hok] at hf
    cases hf
  · intro hlast
    cases h : s.removeAppRecord a with
    | error f => exact ⟨f, rfl⟩
    | ok s' =>
      obtain ⟨old, l, hold, _, hsplit, _⟩ := removeAppRecord_cases h
      rw [happ] at hold
      cases hold
      rw [hsplit, List.getLast?_concat] at hlast
      exact absurd rfl hlast

/-- A transaction to a process whose record is there uses nothing deleted. -/
theorem abilityTransaction_goes {app : AppRecord} (happ : s.app a = some app) {state : TransactionState}
    {want : Want} {type : AbilityType} {f : Fault} :
    s.abilityTransaction env a state want type ≠ .error f := by
  intro hf
  simp only [abilityTransaction, transact, bind_eq_error, appRecord_eq_error, appRecord_eq_ok, happ,
    reduceCtorEq, false_and, false_or] at hf
  obtain ⟨_, ⟨⟩, hf⟩ := hf
  split at hf
  · cases hf
  · split at hf
    · split at hf <;> cases hf
    · cases hf

/-- The process record of the ability is there. -/
def HasApp (s : AbilityMgr) (t : Token) : Prop :=
  ∃ r app, s.records t = some r ∧ r.appRecord = some app.identityId ∧ s.app app.identityId = some app

theorem inactiveAbility_goes (h : s.HasApp t) {f : Fault} : s.inactiveAbility env t ≠ .error f := by
  obtain ⟨r, app, hr, hbound, happ⟩ := h
  intro hf
  simp only [inactiveAbility, bind_eq_error, record_eq_error, record_eq_ok, hr, reduceCtorEq, false_and,
    false_or] at hf
  obtain ⟨_, ⟨⟩, hf⟩ := hf
  split at hf
  · cases hf
  · unfold transactState at hf
    rw [hbound] at hf
    exact abilityTransaction_goes happ hf

theorem activeAbility_goes (h : s.HasApp t) {f : Fault} : s.activeAbility env t ≠ .error f := by
  obtain ⟨r, app, hr, hbound, happ⟩ := h
  intro hf
  simp only [activeAbility, bind_eq_error, record_eq_error, record_eq_ok, hr, reduceCtorEq, false_and,
    false_or] at hf
  obtain ⟨_, ⟨⟩, hf⟩ := hf
  split at hf
  · cases hf
  · rw [hbound] at hf
    simp only [bind_eq_error] at hf
    rcases hf with hf | ⟨_, _, hf⟩
    · exact abilityTransaction_goes happ hf
    · cases hf

theorem launchPendingAbility_goes (h : s.WaitsBound) {app : AppRecord} (happ : s.app a = some app)
    {f : Fault} : s.launchPendingAbility env a ≠ .error f := by
  intro hf
  simp only [launchPendingAbility, bind_eq_error, appRecord_eq_error, appRecord_eq_ok, happ, reduceCtorEq,
    false_and, false_or] at hf
  obtain ⟨_, ⟨⟩, hf⟩ := hf
  split at hf
  · cases hf
  next t ht =>
  have hid := app_identityId happ
  obtain ⟨r, hr, hbound⟩ := h app (app_mem happ) t ht
  have hasApp : s.HasApp t := ⟨r, app, hr, hbound, hid ▸ happ⟩
  simp only [bind_eq_error, record_eq_error, record_eq_ok, hr, reduceCtorEq, false_and, false_or] at hf
  obtain ⟨_, ⟨⟩, hf⟩ := hf
  split at hf
  · simp only [bind_eq_error] at hf
    rcases hf with hf | ⟨_, _, hf⟩
    · exact inactiveAbility_goes hasApp hf
    · cases hf
  · simp only [bind_eq_error] at hf
    rcases hf with hf | ⟨_, _, hf⟩
    · exact activeAbility_goes hasApp hf
    · cases hf

theorem WaitsBound.setClient {client : AbilityThreadClient} (h : s.WaitsBound) :
    (s.modifyApp a (·.setClient client)).WaitsBound := h.modifyApp (fun _ => rfl) fun _ _ hp => hp

theorem getAppRecordByToken_mem {token : Nat} {pid : Int} {app : AppRecord}
    (h : s.getAppRecordByToken token pid = some app) : app ∈ s.appRecords := List.mem_of_find?_eq_some h

theorem getLast?_setClient (client : AbilityThreadClient) (hk : Known gen s) {app : AppRecord}
    (happ : app ∈ s.appRecords) :
    (s.modifyApp app.identityId (·.setClient client)).appRecords.getLast? = some (app.setClient client) ↔
      s.appRecords.getLast? = some app := by
  have hlast : (s.modifyApp app.identityId (·.setClient client)).appRecords.getLast? =
      s.appRecords.getLast?.map fun x => if x.identityId = app.identityId then x.setClient client else x :=
    List.getLast?_map
  rw [hlast]
  constructor
  · intro h
    obtain ⟨x, hx, he⟩ := Option.map_eq_some_iff.mp h
    have hid : x.identityId = app.identityId := by
      by_contra hne
      rw [if_neg hne] at he
      exact hne (he ▸ rfl)
    have hsame : s.app app.identityId = some x := hid ▸ hk.app_of_mem (List.mem_of_getLast? hx)
    rw [hk.app_of_mem happ] at hsame
    cases hsame
    exact hx
  · intro h
    rw [h, Option.map_some, if_pos rfl]

theorem appExitTransaction_ok (env : Env) {app : AppRecord} (happ : s.app a = some app) :
    ∃ status s', s.appExitTransaction env a = .ok (status, s') ∧ (s' = s ∨ s' = s.send a .appExit) := by
  have happ' : s.appRecord a = .ok app := appRecord_eq_ok.mpr happ
  unfold appExitTransaction
  rw [happ']
  simp only [bind, Except.bind]
  split
  · exact ⟨_, _, rfl, .inl rfl⟩
  · split
    · exact ⟨_, _, rfl, .inr rfl⟩
    · exact ⟨_, _, rfl, .inl rfl⟩

theorem appInitTransaction_ok (env : Env) {app : AppRecord} (happ : s.app a = some app) :
    ∃ status s', s.appInitTransaction env a = .ok (status, s') ∧
      (s' = s ∨ s' = s.send a (.appInit app.bundleInfo)) := by
  have happ' : s.appRecord a = .ok app := appRecord_eq_ok.mpr happ
  unfold appInitTransaction
  rw [happ']
  simp only [bind, Except.bind]
  split
  · exact ⟨_, _, rfl, .inl rfl⟩
  · split
    · exact ⟨_, _, rfl, .inl rfl⟩
    · split
      · exact ⟨_, _, rfl, .inr rfl⟩
      · exact ⟨_, _, rfl, .inl rfl⟩

/-- The client of a process is set, and the process is watched if it can be. -/
theorem setAbilityThreadClient_ok (env : Env) {app : AppRecord} (client : AbilityThreadClient)
    (happ : s.app a = some app) (hname : app.bundleInfo.bundleName.isSome) :
    ∃ status, s.setAbilityThreadClient env a client = .ok (status, s.modifyApp a (·.setClient client)) ∧
      status.isOk = env.addDeathRecipient client.svcIdentity := by
  have happ' : s.appRecord a = .ok app := appRecord_eq_ok.mpr happ
  unfold setAbilityThreadClient
  rw [happ']
  simp only [bind, Except.bind, if_neg (Option.isSome_iff_ne_none.mp hname)]
  cases env.addDeathRecipient client.svcIdentity with
  | true => exact ⟨_, rfl, rfl⟩
  | false => exact ⟨_, rfl, rfl⟩

theorem loadPermission_ok (env : Env) {app : AppRecord} (happ : s.app a = some app) :
    ∃ status s', s.loadPermission env a = .ok (status, s') ∧
      status.isOk = (env.loadPermissions app.bundleInfo).isNone ∧ (s' = s ∨ s' = s.send a .appExit) := by
  have happ' : s.appRecord a = .ok app := appRecord_eq_ok.mpr happ
  unfold loadPermission
  rw [happ']
  simp only [bind, Except.bind]
  cases env.loadPermissions app.bundleInfo with
  | none => exact ⟨_, _, rfl, rfl, .inl rfl⟩
  | some ret =>
    obtain ⟨status, s', hexit, hs'⟩ := appExitTransaction_ok env happ
    rw [hexit]
    exact ⟨_, _, rfl, rfl, hs'⟩

/-- A process is looked up, and found where it was, after something was sent to it. -/
theorem afterSend {app : AppRecord} {m : Transaction} (hm : m.token = none) (hk : Known gen s)
    (hwaits : s.WaitsBound) (happ : s.app a = some app) (hs' : s' = s ∨ s' = s.send a m) :
    Known gen s' ∧ s'.WaitsBound ∧ s'.app a = some app ∧ s'.appRecords = s.appRecords := by
  rcases hs' with rfl | rfl
  · exact ⟨hk, hwaits, happ, rfl⟩
  · refine ⟨hk.same (fun t ht => ?_) (List.Sublist.refl _) rfl, hwaits.send m, happ, rfl⟩
    cases m with
    | lifecycle => cases hm
    | _ => exact ht

theorem app_setClient (client : AbilityThreadClient) {app : AppRecord} (happ : s.app app.identityId = some app) :
    (s.modifyApp app.identityId (·.setClient client)).app app.identityId = some (app.setClient client) := by
  have hlook : (s.modifyApp app.identityId (·.setClient client)).app app.identityId =
      (s.app app.identityId).map fun x =>
        if app.identityId = app.identityId then x.setClient client else x := app_modifyApp fun _ => rfl
  rw [hlook, happ, Option.map_some, if_pos rfl]

/-- An attach uses a deleted object where the process is refused its permissions, and its record is
taken from the middle of the list. -/
theorem attachTask_faults (env : Env) (hk : Known gen s) (hone : s.OneProcess) (hwaits : s.WaitsBound)
    (client : AbilityThreadClient) :
    (∃ f, s.attachTask env client = .error f) ↔
      ∃ app, s.getAppRecordByToken client.token client.pid = some app ∧
        env.addDeathRecipient client.svcIdentity = true ∧ env.loadPermissions app.bundleInfo ≠ none ∧
        s.appRecords.getLast? ≠ some app := by
  unfold attachTask
  cases hfound : s.getAppRecordByToken client.token client.pid with
  | none => exact ⟨fun ⟨_, h⟩ => (by cases h), fun ⟨_, h, _⟩ => (by cases h)⟩
  | some app =>
    have hmem := getAppRecordByToken_mem hfound
    have hrec : s.app app.identityId = some app := hk.app_of_mem hmem
    have hclient : Step gen env s (s.modifyApp app.identityId (·.setClient client)) := .client s _ client
    have hk₁ := hk.steps (.single hclient)
    have hwaits₁ : (s.modifyApp app.identityId (·.setClient client)).WaitsBound := hwaits.setClient
    have happ₁ : (s.modifyApp app.identityId (·.setClient client)).app app.identityId =
        some (app.setClient client) := app_setClient client hrec
    have hlast := getLast?_setClient client hk hmem
    obtain ⟨status₁, hset, hwatched⟩ := setAbilityThreadClient_ok env client hrec (hone.named app hmem)
    obtain ⟨status₂, s₂, hload, hpermitted, hs₂⟩ := loadPermission_ok env happ₁
    obtain ⟨hk₂, hwaits₂, happ₂, hrecords₂⟩ := afterSend rfl hk₁ hwaits₁ happ₁ hs₂
    have hpermitted' : status₂.isOk = (env.loadPermissions app.bundleInfo).isNone := hpermitted
    simp only [hset, hload, bind, Except.bind, hwatched, hpermitted']
    cases hdeath : env.addDeathRecipient client.svcIdentity with
    | false => exact ⟨fun ⟨_, h⟩ => (by cases h), fun ⟨_, _, h, _⟩ => (by cases h)⟩
    | true =>
      cases hperm : env.loadPermissions app.bundleInfo with
      | none =>
        constructor
        · rintro ⟨f, hf⟩
          obtain ⟨status₃, s₃, hinit, hs₃⟩ := appInitTransaction_ok env happ₂
          obtain ⟨-, hwaits₃, happ₃, -⟩ := afterSend rfl hk₂ hwaits₂ happ₂ hs₃
          simp only [Bool.not_true, Bool.false_eq_true, if_false, Option.isNone_none, hinit] at hf
          split at hf
          · cases hf
          · exact absurd hf (launchPendingAbility_goes hwaits₃ happ₃)
        · rintro ⟨_, ⟨⟩, _, hne, _⟩
          exact absurd hperm hne
      | some ret =>
        have hfaults := removeAppRecord_faults hk₂.appIds happ₂
        rw [hrecords₂, ne_eq, hlast] at hfaults
        constructor
        · rintro ⟨f, hf⟩
          refine ⟨app, rfl, rfl, fun h => ?_, hfaults.mp ?_⟩
          · rw [hperm] at h
            cases h
          · simp only [Bool.not_true, Bool.false_eq_true, if_false, Option.isNone_some, Bool.not_false,
              if_true] at hf
            split at hf
            · next f' hf' => exact ⟨f', hf'⟩
            · cases hf
        · rintro ⟨_, ⟨⟩, _, _, hne⟩
          obtain ⟨f, hf⟩ := hfaults.mpr hne
          simp only [Bool.not_true, Bool.false_eq_true, if_false, Option.isNone_some, Bool.not_false,
            if_true, hf]
          exact ⟨f, rfl⟩

end AbilityMgr

namespace System
variable {gen : TokenGenerate} {env : Env} {ok : System → Env × Event → Prop} {s : System}

theorem oneProcess_of_reached (h : Reached (System.next gen) ok IsInit s) : s.ams.OneProcess := by
  refine moves_invariant ⟨List.nodup_nil, fun _ happ => by cases happ⟩ ?_ ?_ h
  · intro env a b _ hone hmove
    exact hone.move hmove
  · exact fun _ hone => ⟨hone.nodup, hone.named⟩

theorem waitsBound_of_reached (h : Reached (System.next gen) ok IsInit s) : s.ams.WaitsBound := by
  refine moves_invariant (fun _ happ => by cases happ) ?_ ?_ h
  · intro env a b hk hwaits hmove
    exact hwaits.move hk hmove
  · exact fun _ hwaits => hwaits

/-- In every reachable state a bundle has one process record at most, and what waits for a process to
attach is registered and bound to that process. -/
theorem processes_of_reached (h : Reached (System.next gen) ok IsInit s) :
    (s.ams.appRecords.map (·.bundleInfo.bundleName)).Nodup ∧
    ∀ app ∈ s.ams.appRecords, app.bundleInfo.bundleName.isSome ∧
      ∀ t, app.pendingAbilityRecord = some t →
        ∃ r, s.ams.records t = some r ∧ r.appRecord = some app.identityId := by
  have hone := oneProcess_of_reached h
  exact ⟨hone.nodup, fun app happ => ⟨hone.named app happ, waitsBound_of_reached h app happ⟩⟩

theorem processes_first :
    ∃ s, System.next counter {} (pageEnv, startA) = some s ∧
      s.ams.appRecords.map (·.pendingAbilityRecord) = [some 0] ∧
      (s.ams.appRecords.map (·.bundleInfo.bundleName)).Nodup ∧
      ∀ app ∈ s.ams.appRecords, app.bundleInfo.bundleName.isSome ∧
        ∀ t, app.pendingAbilityRecord = some t →
          ∃ r, s.ams.records t = some r ∧ r.appRecord = some app.identityId := by
  have h : (System.next counter {} (pageEnv, startA)).map
      (·.ams.appRecords.map (·.pendingAbilityRecord)) = some [some 0] := by decide
  obtain ⟨s, hs, hpending⟩ := Option.map_eq_some_iff.mp h
  have hreached : Reached (System.next counter) (fun _ _ => True) IsInit s :=
    .step (.init rfl) trivial hs
  exact ⟨s, hs, hpending, processes_of_reached hreached⟩

/-- In every reachable state, whatever is outside, an attach uses a deleted object exactly where the
process can be watched, is refused its permissions, and is not the last of the list. -/
theorem attach_faults_of_reached (h : Reached (System.next gen) ok IsInit s)
    (client : AbilityThreadClient) :
    (∃ s', System.next gen s (env, .attachBundle client) = some s' ∧ s'.fault ≠ none) ↔
      s.fault = none ∧ ∃ app, s.ams.getAppRecordByToken client.token client.pid = some app ∧
        env.addDeathRecipient client.svcIdentity = true ∧ env.loadPermissions app.bundleInfo ≠ none ∧
        s.ams.appRecords.getLast? ≠ some app := by
  have hfaults := AbilityMgr.attachTask_faults env (sound_of_reached h).known (oneProcess_of_reached h)
    (waitsBound_of_reached h) client
  rw [← hfaults]
  constructor
  · rintro ⟨s', hnext, hfault⟩
    obtain ⟨hnone, hhappens⟩ := next_cases hnext
    refine ⟨hnone, ?_⟩
    cases hhappens with
    | request => exact absurd hnone hfault
    | requestFault hm =>
      simp only [AbilityMgr.requestMsg, bind_eq_error] at hm
      rcases hm with hm | ⟨_, _, hm⟩
      · exact ⟨_, hm⟩
      · cases hm
  · rintro ⟨hnone, f, hf⟩
    have hm : s.ams.requestMsg gen env (.attachBundle client) = .error f := by
      simp only [AbilityMgr.requestMsg, bind_eq_error]
      exact .inl hf
    refine ⟨{ s with fault := some f }, ?_, fun h => by cases h⟩
    unfold System.next
    rw [hnone]
    dsimp only
    rw [hm]
    rfl

/-- Two processes are started, and the first to attach is refused its permissions. -/
def deniedEnv : Env := { pageEnv with loadPermissions := fun _ => some 1 }

theorem attach_faults_denied :
    ∃ s, run (System.next counter) {}
        [(pageEnv, startA), (serviceEnv, .startAbility serviceWant 5)] = some s ∧
      ((∃ s', System.next counter s (deniedEnv, .attachBundle ⟨1, 7, ⟨9, 9⟩⟩) = some s' ∧
          s'.fault ≠ none) ↔
        s.fault = none ∧ ∃ app, s.ams.getAppRecordByToken 1 7 = some app ∧
          deniedEnv.addDeathRecipient ⟨9, 9⟩ = true ∧ deniedEnv.loadPermissions app.bundleInfo ≠ none ∧
          s.ams.appRecords.getLast? ≠ some app) ∧
      ∃ s', System.next counter s (deniedEnv, .attachBundle ⟨1, 7, ⟨9, 9⟩⟩) = some s' ∧
        s'.fault = some .appRecord := by
  have h : ((run (System.next counter) {}
      [(pageEnv, startA), (serviceEnv, .startAbility serviceWant 5)]).bind fun s =>
        (System.next counter s (deniedEnv, .attachBundle ⟨1, 7, ⟨9, 9⟩⟩)).map (·.fault)) =
      some (some .appRecord) := by decide
  obtain ⟨s, hs, h⟩ := Option.bind_eq_some_iff.mp h
  obtain ⟨s', hnext, hfault⟩ := Option.map_eq_some_iff.mp h
  have hreached : Reached (System.next counter) (fun _ _ => True) IsInit s := Reached.of_run (.init rfl) _ hs
  exact ⟨s, hs, attach_faults_of_reached hreached ⟨1, 7, ⟨9, 9⟩⟩, s', hnext, hfault⟩

end System
end AbilityLite.Ams
