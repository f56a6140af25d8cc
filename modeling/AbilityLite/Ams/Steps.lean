import AbilityLite.Ams.Effects
import Mathlib.Logic.Relation

/-
  The small steps that AMS operations are made of, when they move no page.

  `Calm` steps edit service data, talk to services, start a process; `Quiet` steps also
  create and delete records and rearrange the lists. An operation that is a chain of
  quiet steps sends nothing to a page and changes neither the state nor the links of
  one. Every invariant about pages is checked once against the constructors here.
-/

namespace AbilityLite.Ams
open AbilityMsStatus Fallible Relation

/-- What holds before holds after any number of steps that keep it. -/
theorem keeps {σ : Type} {r : σ → σ → Prop} {p : σ → Prop} (hstep : ∀ a b, r a b → p a → p b)
    {a b : σ} (h : ReflTransGen r a b) (hp : p a) : p b := by
  induction h with
  | refl => exact hp
  | tail _ hbc ih => exact hstep _ _ hbc ih

/-- The ability a transaction is about. -/
def Transaction.token : Transaction → Option Token
  | .appInit _ => none
  | .appExit => none
  | .lifecycle state _ _ => some state.token
  | .connect _ token => some token
  | .disconnect _ token => some token

def PageAbilityRecord.isService (r : PageAbilityRecord) : Bool :=
  r.abilityInfo.abilityType = .service

/-- A record before and after a change that the lifecycle of a page does not depend on. -/
structure Mild (r r' : PageAbilityRecord) : Prop where
  abilityInfo : r'.abilityInfo = r.abilityInfo
  currentState : r'.currentState = r.currentState
  appRecord : r'.appRecord = r.appRecord
  missionRecord : r'.missionRecord = r.missionRecord
  nextPageAbility : r'.nextPageAbility = r.nextPageAbility
  prevPageAbility : r'.prevPageAbility = r.prevPageAbility
  accepted : r'.accepted = r.accepted
  transacted : r.transacted = true → r'.transacted = true

namespace Mild
variable {r r' r'' : PageAbilityRecord}

theorem refl (r : PageAbilityRecord) : Mild r r := ⟨rfl, rfl, rfl, rfl, rfl, rfl, rfl, id⟩

theorem trans (h : Mild r r') (h' : Mild r' r'') : Mild r r'' :=
  ⟨h'.1.trans h.1, h'.2.trans h.2, h'.3.trans h.3, h'.4.trans h.4, h'.5.trans h.5, h'.6.trans h.6,
    h'.7.trans h.7, h'.8 ∘ h.8⟩

end Mild

namespace AbilityMgr
variable {gen : TokenGenerate} {env : Env} {s s' : AbilityMgr} {t : Token} {a : Nat}
  {status : AbilityMsStatus}

/-- A step that neither creates nor deletes a record and moves nothing. -/
inductive Calm (gen : TokenGenerate) (env : Env) : AbilityMgr → AbilityMgr → Prop
  | tick (s : AbilityMgr) : Calm gen env s { s with generated := s.generated + 1 }
  | process (s : AbilityMgr) (bundleInfo : BundleInfo) (pid : Int) (hname : bundleInfo.bundleName.isSome)
      (hnone : s.getAppRecordByBundleName bundleInfo.bundleName = none) :
      Calm gen env s { s with
        generated := s.generated + 1
        appRecords := s.appRecords ++
          [{ identityId := gen.generate s.generated, bundleInfo, pid }] }
  | edit (s : AbilityMgr) (t : Token) (f : PageAbilityRecord → PageAbilityRecord)
      (hf : ∀ r, Mild r (f r)) : Calm gen env s (s.modify t f)
  | ask (s : AbilityMgr) (t : Token) (r : PageAbilityRecord) (a : Nat) (m : Transaction)
      (hr : s.records t = some r) (hservice : r.isService = true) (ha : r.appRecord = some a)
      (hm : m.token = some t) (hreach : s.Reaches env a m) : Calm gen env s (s.send a m)
  | tell (s : AbilityMgr) (a : Nat) (m : Transaction) (hm : m.token = none)
      (hreach : s.Reaches env a m) : Calm gen env s (s.send a m)
  | callback (s : AbilityMgr) (l : List (SvcIdentity × Callback)) : Calm gen env s { s with callbacks := l }

/-- Nothing changed but the lists of missions and services. -/
structure OnlyLists (s s' : AbilityMgr) : Prop where
  records : s'.records = s.records
  appRecords : s'.appRecords = s.appRecords
  generated : s'.generated = s.generated
  sent : s'.sent = s.sent
  callbacks : s'.callbacks = s.callbacks

theorem OnlyLists.trans {s s' s'' : AbilityMgr} (h : OnlyLists s s') (h' : OnlyLists s' s'') :
    OnlyLists s s'' :=
  ⟨h'.1.trans h.1, h'.2.trans h.2, h'.3.trans h.3, h'.4.trans h.4, h'.5.trans h.5⟩

/-- A step that sends nothing to a page, and sets neither its state nor its links. -/
inductive Quiet (gen : TokenGenerate) (env : Env) : AbilityMgr → AbilityMgr → Prop
  | calm {s s' : AbilityMgr} (h : Calm gen env s s') : Quiet gen env s s'
  | create (s : AbilityMgr) (abilityInfo : AbilityInfo) (want : Want) :
      Quiet gen env s (s.newPageAbility gen abilityInfo want).2
  | place (s : AbilityMgr) (t : Token) (id : Nat) (hnew : ∀ r, s.records t = some r →
      r.currentState = .uninitialized) : Quiet gen env s (s.modify t (·.setMissionRecord id))
  | reach (s : AbilityMgr) (t : Token) (r : PageAbilityRecord) (hr : s.records t = some r)
      (hservice : r.isService = true) (st : State) : Quiet gen env s (s.modify t (·.setCurrentState st))
  | accept (s : AbilityMgr) (t : Token) (r : PageAbilityRecord) (hr : s.records t = some r)
      (hservice : r.isService = true) (htransacted : r.transacted = true) :
      Quiet gen env s (s.modify t (·.accept))
  | delete (s s' : AbilityMgr) (t : Token) (h : s.delete t = .ok s') : Quiet gen env s s'
  | shelve {s s' : AbilityMgr} (h : OnlyLists s s') : Quiet gen env s s'

theorem Calm.quiet (h : ReflTransGen (Calm gen env) s s') : ReflTransGen (Quiet gen env) s s' :=
  ReflTransGen.mono (fun _ _ => Quiet.calm) _ _ h

/-! ## Setters that are mild -/

theorem mild_setConnectStatus (r : PageAbilityRecord) (c : ConnectStatus) :
    Mild r (r.setConnectStatus c) := ⟨rfl, rfl, rfl, rfl, rfl, rfl, rfl, id⟩
theorem mild_setConnectRecords (r : PageAbilityRecord) (l : List AbilityConnectRecord) :
    Mild r (r.setConnectRecords l) := ⟨rfl, rfl, rfl, rfl, rfl, rfl, rfl, id⟩
theorem mild_setForceStop (r : PageAbilityRecord) : Mild r r.setForceStop :=
  ⟨rfl, rfl, rfl, rfl, rfl, rfl, rfl, id⟩
theorem mild_setServiceSid (r : PageAbilityRecord) (sid : SvcIdentity) :
    Mild r (r.setServiceSid sid) := ⟨rfl, rfl, rfl, rfl, rfl, rfl, rfl, id⟩
theorem mild_setBundleInfo (r : PageAbilityRecord) (b : BundleInfo) : Mild r (r.setBundleInfo b) :=
  ⟨rfl, rfl, rfl, rfl, rfl, rfl, rfl, id⟩
theorem mild_freeSid (r : PageAbilityRecord) : Mild r r.freeSid :=
  ⟨rfl, rfl, rfl, rfl, rfl, rfl, rfl, id⟩
theorem mild_removeConnectRecord (r : PageAbilityRecord) (sid : SvcIdentity) :
    Mild r (r.removeConnectRecord sid) := mild_setConnectRecords r _
theorem mild_pushConnectRecord (r : PageAbilityRecord) (c : AbilityConnectRecord) :
    Mild r (r.pushConnectRecord c) := by
  unfold PageAbilityRecord.pushConnectRecord
  split
  · exact .refl r
  · exact mild_setConnectRecords r _

/-- A change of the record leaves what is looked up of another, and of its own up to the change. -/
theorem modify_self {f : PageAbilityRecord → PageAbilityRecord} {r : PageAbilityRecord}
    (hr : s.records t = some r) : (s.modify t f).records t = some (f r) := by
  show s.records.modify t f t = some (f r)
  rw [Store.modify_same, hr, Option.map_some]

/-! ## Operations on services -/

theorem calm_edit {f : PageAbilityRecord → PageAbilityRecord} (hf : ∀ r, Mild r (f r)) :
    ReflTransGen (Calm gen env) s (s.modify t f) := .single (.edit s t f hf)

theorem transact_calm {m : Transaction} {want : Want} {e₁ e₂ e₃ : AbilityMsStatus}
    {r : PageAbilityRecord} (hr : s.records t = some r) (hservice : r.isService = true)
    (ha : r.appRecord = some a) (hm : m.token = some t)
    (h : s.transact env a m want e₁ e₂ e₃ = .ok (status, s')) :
    ReflTransGen (Calm gen env) s s' := by
  rcases transact_cases h with ⟨rfl, -⟩ | ⟨-, rfl, hreach⟩
  · exact .refl
  · exact .single (.ask s t r a m hr hservice ha hm hreach)

theorem Asks.calm {state : State} {r : PageAbilityRecord} (hr : s.records t = some r)
    (hservice : r.isService = true) (h : s.Asks env t state s') :
    ReflTransGen (Calm gen env) s s' := by
  obtain ⟨r', a, hr', ha, hreach, rfl⟩ := h
  rw [hr] at hr'
  cases hr'
  exact .single (.ask s t r a _ hr hservice ha rfl hreach)

theorem stopAbility_calm {r : PageAbilityRecord} (hr : s.records t = some r)
    (hservice : r.isService = true) (h : s.stopAbility env t = .ok (status, s')) :
    ReflTransGen (Calm gen env) s s' := by
  obtain ⟨_, _, ⟨_, _, rfl⟩ | ⟨_, _, rfl⟩ | ⟨_, _, hasks⟩⟩ := stopAbility_cases h
  · exact .refl
  · exact .refl
  · exact hasks.calm hr hservice

theorem callbackTransaction_calm {sid : SvcIdentity} {m : Callback}
    (h : s.callbackTransaction env a sid m = .ok s') : ReflTransGen (Calm gen env) s s' := by
  simp only [callbackTransaction, bind_eq_ok] at h
  obtain ⟨app, _, h⟩ := h
  split at h
  · cases h
    exact .refl
  · cases h
    unfold notify
    split
    · exact .single (.callback s _)
    · exact .refl

theorem callbackTransactions_calm {m : Callback} {l : List AbilityConnectRecord}
    (h : callbackTransactions env a m l s = .ok s') : ReflTransGen (Calm gen env) s s' := by
  induction l generalizing s with
  | nil =>
    cases h
    exact .refl
  | cons c cs ih =>
    simp only [callbackTransactions, bind_eq_ok] at h
    obtain ⟨s₁, h₁, h⟩ := h
    exact (callbackTransaction_calm h₁).trans (ih h)

/-- The functions on services read the record and stop if it has no process. -/
theorem service_cases {msg : AbilityMsStatus} {k : PageAbilityRecord → Nat → Result}
    (h : (do
      let r ← s.record t
      match r.appRecord with
      | none => .ok (msg, s)
      | some a => k r a) = (.ok (status, s') : Result)) :
    ∃ r, s.records t = some r ∧
      ((r.appRecord = none ∧ status = msg ∧ s' = s) ∨
        ∃ a, r.appRecord = some a ∧ k r a = .ok (status, s')) := by
  simp only [bind_eq_ok, record_eq_ok] at h
  obtain ⟨r, hr, h⟩ := h
  refine ⟨r, hr, ?_⟩
  cases ha : r.appRecord with
  | none =>
    rw [ha] at h
    cases h
    exact .inl ⟨rfl, rfl, rfl⟩
  | some a =>
    rw [ha] at h
    exact .inr ⟨a, rfl, h⟩

theorem connectAbility_calm {r : PageAbilityRecord} (hr : s.records t = some r)
    (hservice : r.isService = true) (h : s.connectAbility env t = .ok (status, s')) :
    ReflTransGen (Calm gen env) s s' := by
  obtain ⟨r', hr', ⟨_, _, rfl⟩ | ⟨a, ha, h⟩⟩ := service_cases h
  · exact .refl
  · rw [hr] at hr'
    cases hr'
    exact transact_calm hr hservice ha rfl h

/-- An edit of a service, then a transaction to its process. -/
theorem edit_transact_calm {m : Transaction} {want : Want} {e₁ e₂ e₃ : AbilityMsStatus}
    {f : PageAbilityRecord → PageAbilityRecord} {r : PageAbilityRecord}
    (hr : s.records t = some r) (hservice : r.isService = true) (ha : r.appRecord = some a)
    (hf : ∀ r, Mild r (f r)) (hm : m.token = some t)
    (h : (s.modify t f).transact env a m want e₁ e₂ e₃ = .ok (status, s')) :
    ReflTransGen (Calm gen env) s s' := by
  have hfr := hf r
  refine (calm_edit hf).trans (transact_calm (modify_self hr) ?_ (hfr.appRecord.trans ha) hm h)
  rw [PageAbilityRecord.isService, hfr.abilityInfo]
  exact hservice

theorem performStop_calm {r r' : PageAbilityRecord} (hr : s.records t = some r)
    (hservice : r.isService = true) (ha : r.appRecord = some a)
    (h : s.performStop env a t r' = .ok (status, s')) : ReflTransGen (Calm gen env) s s' :=
  edit_transact_calm hr hservice ha (fun r => mild_setConnectStatus r _) rfl h

theorem performDisconnect_calm {r r' : PageAbilityRecord} (hr : s.records t = some r)
    (hservice : r.isService = true) (ha : r.appRecord = some a)
    (h : s.performDisconnect env a t r' = .ok (status, s')) : ReflTransGen (Calm gen env) s s' :=
  edit_transact_calm hr hservice ha (fun r => mild_setConnectStatus r _) rfl h

theorem disconnectAbility_calm {sid : SvcIdentity} {r : PageAbilityRecord}
    (hr : s.records t = some r) (hservice : r.isService = true)
    (h : s.disconnectAbility env t sid = .ok (status, s')) : ReflTransGen (Calm gen env) s s' := by
  obtain ⟨r', hr', ⟨_, _, rfl⟩ | ⟨a, ha, h⟩⟩ := service_cases h
  · exact .refl
  rw [hr] at hr'
  cases hr'
  have hedit : ReflTransGen (Calm gen env) s (s.modify t (·.removeConnectRecord sid)) :=
    calm_edit fun r => mild_removeConnectRecord r sid
  dsimp only at h
  split at h
  · cases h
    exact hedit
  split at h
  · cases h
    exact hedit
  split at h
  · exact hedit.trans (performDisconnect_calm (modify_self hr) hservice ha h)
  · cases h
    exact hedit

theorem connectAbilityDone_calm (h : s.connectAbilityDone env t = .ok (status, s')) :
    ReflTransGen (Calm gen env) s s' := by
  obtain ⟨r, hr, ⟨_, _, rfl⟩ | ⟨a, ha, h⟩⟩ := service_cases h
  · exact .refl
  simp only [bind_eq_ok] at h
  obtain ⟨s₁, h₁, h⟩ := h
  cases h
  exact (calm_edit fun r => mild_setConnectRecords r _).trans (callbackTransactions_calm h₁)

theorem disconnectAbilityDone_calm {r : PageAbilityRecord} (hr : s.records t = some r)
    (hservice : r.isService = true) (h : s.disconnectAbilityDone env t = .ok (status, s')) :
    ReflTransGen (Calm gen env) s s' := by
  obtain ⟨r', hr', ⟨_, _, rfl⟩ | ⟨a, ha, h⟩⟩ := service_cases h
  · exact .refl
  rw [hr] at hr'
  cases hr'
  have hedit : ReflTransGen (Calm gen env) s
      (s.modify t (·.setConnectStatus (if r.startDone then .init else .disconnect))) :=
    calm_edit fun r => mild_setConnectStatus r _
  dsimp only at h
  by_cases hstop : (r.connectRecords = [] ∧ (!r.startDone) = true) ∨ r.forceStop = true
  · rw [if_pos hstop] at h
    exact hedit.trans (performStop_calm (modify_self hr) hservice ha h)
  · rw [if_neg hstop] at h
    cases h
    exact hedit

theorem forceStopServiceAbility_calm {r : PageAbilityRecord} (hr : s.records t = some r)
    (hservice : r.isService = true) (h : s.forceStopServiceAbility env t = .ok (status, s')) :
    ReflTransGen (Calm gen env) s s' := by
  obtain ⟨r', hr', ⟨_, _, rfl⟩ | ⟨a, ha, h⟩⟩ := service_cases h
  · exact .refl
  rw [hr] at hr'
  cases hr'
  have hedit : ReflTransGen (Calm gen env) s (s.modify t (·.setForceStop)) :=
    calm_edit mild_setForceStop
  dsimp only at h
  split at h
  · cases h
    exact hedit
  split at h
  · cases h
    exact hedit
  split at h
  · exact hedit.trans (performStop_calm (modify_self hr) hservice ha h)
  · exact hedit.trans (performDisconnect_calm (modify_self hr) hservice ha h)

theorem stopAbilityDone_calm (h : s.stopAbilityDone env t = .ok (status, s')) :
    ReflTransGen (Calm gen env) s s' := by
  obtain ⟨r, hr, ⟨_, _, rfl⟩ | ⟨a, ha, h⟩⟩ := service_cases h
  · exact .refl
  simp only [bind_eq_ok] at h
  obtain ⟨s₁, h₁, h⟩ := h
  cases h
  exact (calm_edit fun r => mild_setConnectStatus r _).trans (callbackTransactions_calm h₁)

theorem removeConnectRecordByPageToken_calm {token : Token} {r : PageAbilityRecord}
    (hr : s.records t = some r) (hservice : r.isService = true)
    (h : s.removeConnectRecordByPageToken env t token = .ok s') :
    ReflTransGen (Calm gen env) s s' := by
  simp only [removeConnectRecordByPageToken, bind_eq_ok, record_eq_ok] at h
  obtain ⟨r', hr', h⟩ := h
  rw [hr] at hr'
  cases hr'
  split at h
  · cases h
    exact .refl
  have hedit : ReflTransGen (Calm gen env) s
      (s.modify t (·.setConnectRecords (r.connectRecords.filter (·.abilityToken ≠ token)))) :=
    calm_edit fun r => mild_setConnectRecords r _
  split at h
  · simp only [bind_eq_ok] at h
    obtain ⟨⟨_, s₁⟩, h₁, h⟩ := h
    cases h
    exact hedit.trans (stopAbility_calm (modify_self hr) hservice h₁)
  · cases h
    exact hedit

end AbilityMgr
end AbilityLite.Ams
