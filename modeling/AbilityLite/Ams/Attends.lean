import AbilityLite.Ams.Links
import AbilityLite.Ams.Clearing
import Mathlib.Data.List.Nodup

/-
  Services keep their clients, while AMS does something else.

  `Attends` is a frame over what AMS does: but for the services in `gone`, which may be
  taken off the list, and the clients in `lost`, which may be taken off their service, a
  service that is listed stays listed and every record has the clients it had. What AMS
  has called back stays called back.
-/

namespace AbilityLite.Ams
open AbilityMsStatus Fallible Relation

namespace PageAbilityRecord
variable {r r' r'' : PageAbilityRecord} {lost : SvcIdentity × Token → Prop}

/-- Who is connected: the connection of each client and the ability that it belongs to. -/
def idents (r : PageAbilityRecord) : List (SvcIdentity × Token) :=
  r.connectRecords.map fun c => (c.connectSid, c.abilityToken)

/-- No two clients have one connection. -/
def Distinct (r : PageAbilityRecord) : Prop := (r.idents.map (·.1)).Nodup

/-- A record keeps its clients but for those in `lost`, and its connections apart. -/
structure Attended (lost : SvcIdentity × Token → Prop) (r r' : PageAbilityRecord) : Prop where
  clients : ∀ c ∈ r.idents, ¬ lost c → c ∈ r'.idents
  distinct : r.Distinct → r'.Distinct

theorem Attended.of_idents (h : r'.idents = r.idents) : Attended lost r r' := by
  refine ⟨fun c hc _ => ?_, fun hd => ?_⟩
  · rw [h]
    exact hc
  · unfold Distinct
    rw [h]
    exact hd

theorem Attended.of_same (h : r'.connectRecords = r.connectRecords) : Attended lost r r' :=
  .of_idents (congrArg (List.map _) h)

theorem Attended.refl (r : PageAbilityRecord) : Attended lost r r := .of_idents rfl

theorem Attended.trans (h : Attended lost r r') (h' : Attended lost r' r'') : Attended lost r r'' :=
  ⟨fun c hc hkept => h'.clients c (h.clients c hc hkept) hkept, h'.distinct ∘ h.distinct⟩

/-- Some clients are taken off. -/
theorem Attended.of_sublist (h : r'.idents.Sublist r.idents)
    (hkept : ∀ c ∈ r.idents, ¬ lost c → c ∈ r'.idents) : Attended lost r r' :=
  ⟨hkept, fun hd => hd.sublist (h.map _)⟩

theorem distinct_nil (h : r.connectRecords = []) : r.Distinct := by
  unfold Distinct idents
  rw [h]
  exact List.nodup_nil

theorem idents_done : (r.setConnectRecords (r.connectRecords.map (·.done))).idents = r.idents := by
  show (r.connectRecords.map (·.done)).map _ = r.connectRecords.map _
  rw [List.map_map]
  refine List.map_congr_left fun c _ => ?_
  simp only [Function.comp_apply, AbilityConnectRecord.done]
  split <;> rfl

/-- Connections are used once, so the client that leaves is the one that asks. -/
theorem removeConnectRecord_attended {sid : SvcIdentity} {token : Token} (hd : r.Distinct)
    (hmem : (sid, token) ∈ r.idents) (hlost : lost (sid, token)) :
    Attended lost r (r.removeConnectRecord sid) := by
  refine .of_sublist (List.eraseP_sublist.map _) fun c hc hkept => ?_
  have hne : c.1 ≠ sid := by
    intro e
    refine hkept ?_
    rw [List.inj_on_of_nodup_map hd hc hmem e]
    exact hlost
  obtain ⟨x, hx, rfl⟩ := List.mem_map.mp hc
  refine List.mem_map.mpr ⟨x, ?_, rfl⟩
  show x ∈ r.connectRecords.eraseP _
  rw [List.mem_eraseP_of_neg]
  · exact hx
  · simpa using hne

end PageAbilityRecord

open PageAbilityRecord

namespace AbilityMgr
variable {gen : TokenGenerate} {env : Env} {s s' : AbilityMgr} {t : Token} {a id : Nat}
  {st : StackType} {status : AbilityMsStatus} {m : AbilityMissionRecord}
  {gone : Token → Prop} {lost : SvcIdentity × Token → Prop}

/-- What leaves the services and their clients as they are, but for `gone` and `lost`. -/
structure Attends (gen : TokenGenerate) (gone : Token → Prop) (lost : SvcIdentity × Token → Prop)
    (s s' : AbilityMgr) : Prop where
  listed : ∀ t ∈ s.serviceRecords, ¬ gone t → t ∈ s'.serviceRecords
  records : ∀ t r', s'.records t = some r' → (∃ r, s.records t = some r ∧ Attended lost r r') ∨
    ((∃ k, s.generated ≤ k ∧ t = gen.generate k) ∧ r'.Distinct)
  callbacks : s.callbacks <+: s'.callbacks
  generated : s.generated ≤ s'.generated

/-- The process of a bundle, if it has one, can be told to exit. -/
def CanExit (s : AbilityMgr) (env : Env) (name : CString) : Prop :=
  ∀ app, s.getAppRecordByBundleName (some name) = some app → s.Reaches env app.identityId .appExit

theorem canExit_of_none {name : CString} (h : s.getAppRecordByBundleName (some name) = none) :
    s.CanExit env name := by
  intro app happ
  rw [h] at happ
  cases happ

theorem canExit_of_reaches {name : CString} {app : AppRecord}
    (happ : s.getAppRecordByBundleName (some name) = some app)
    (hreach : s.Reaches env app.identityId .appExit) : s.CanExit env name := by
  intro app' happ'
  rw [happ] at happ'
  cases happ'
  exact hreach

/-- The service that is found for a client has it. -/
theorem findServiceRecordByClient_ident {sid : SvcIdentity} {token : Token} {r : PageAbilityRecord}
    (hr : s.records t = some r) (h : s.findServiceRecordByClient sid token = some t) :
    (sid, token) ∈ r.idents := by
  unfold findServiceRecordByClient at h
  have hfound := List.find?_some h
  simp only [hr] at hfound
  obtain ⟨c, hc⟩ := Option.isSome_iff_exists.mp hfound
  have hmem : c ∈ r.connectRecords := List.mem_of_find?_eq_some hc
  have hof := List.find?_some hc
  rw [decide_eq_true_eq] at hof
  exact List.mem_map.mpr ⟨c, hmem, Prod.ext hof.1 hof.2⟩

namespace Attends

theorem refl (s : AbilityMgr) : Attends gen gone lost s s :=
  ⟨fun _ h _ => h, fun _ r hr => .inl ⟨r, hr, .refl r⟩, List.prefix_refl _, Nat.le_refl _⟩

theorem trans {s s' s'' : AbilityMgr} (h : Attends gen gone lost s s')
    (h' : Attends gen gone lost s' s'') : Attends gen gone lost s s'' := by
  refine ⟨fun t ht hkept => h'.listed t (h.listed t ht hkept) hkept, fun t r'' hr'' => ?_,
    h.callbacks.trans h'.callbacks, Nat.le_trans h.generated h'.generated⟩
  obtain ⟨r', hr', hatt'⟩ | ⟨⟨k, hk, ht⟩, hnew⟩ := h'.records t r'' hr''
  · obtain ⟨r, hr, hatt⟩ | ⟨hfresh, hnew⟩ := h.records t r' hr'
    · exact .inl ⟨r, hr, hatt.trans hatt'⟩
    · exact .inr ⟨hfresh, hatt'.distinct hnew⟩
  · exact .inr ⟨⟨k, Nat.le_trans h.generated hk, ht⟩, hnew⟩

/-- A service that was not listed may go. -/
theorem unlisted (h : Attends gen (fun p => gone p ∨ p = t) lost s s') (ht : t ∉ s.serviceRecords) :
    Attends gen gone lost s s' := by
  refine ⟨fun p hp hkept => h.listed p hp ?_, h.records, h.callbacks, h.generated⟩
  rintro (hgone | rfl)
  · exact hkept hgone
  · exact ht hp

/-- A step that touches neither the services nor a record, and calls nobody back. -/
theorem of_same (hservices : s'.serviceRecords = s.serviceRecords) (hrecords : s'.records = s.records)
    (hcallbacks : s'.callbacks = s.callbacks) (hgenerated : s.generated ≤ s'.generated) :
    Attends gen gone lost s s' := by
  refine ⟨fun t ht _ => ?_, fun t r hr => .inl ⟨r, ?_, .refl r⟩, ?_, hgenerated⟩
  · rw [hservices]
    exact ht
  · rw [hrecords] at hr
    exact hr
  · exact ⟨[], by rw [List.append_nil, hcallbacks]⟩

theorem editing {f : PageAbilityRecord → PageAbilityRecord}
    (hf : ∀ r, s.records t = some r → Attended lost r (f r)) :
    Attends gen gone lost s (s.modify t f) := by
  refine ⟨fun _ h _ => h, fun p r' hr' => .inl ?_, List.prefix_refl _, Nat.le_refl _⟩
  obtain ⟨r, hr, ⟨rfl, rfl⟩ | ⟨_, rfl⟩⟩ := Store.modify_cases hr'
  · exact ⟨r, hr, hf r hr⟩
  · exact ⟨r', hr, .refl r'⟩

theorem edit {f : PageAbilityRecord → PageAbilityRecord}
    (hf : ∀ r, (f r).connectRecords = r.connectRecords) : Attends gen gone lost s (s.modify t f) :=
  .editing fun r _ => .of_same (hf r)

theorem send (m : Transaction) : Attends gen gone lost s (s.send a m) := by
  cases m with
  | lifecycle state want type =>
    have hedit : Attends gen gone lost s (s.modify state.token (·.transact)) := .edit fun _ => rfl
    exact ⟨hedit.listed, hedit.records, hedit.callbacks, hedit.generated⟩
  | _ => exact .of_same rfl rfl rfl (Nat.le_refl _)

theorem transact {m : Transaction} {want : Want} {e₁ e₂ e₃ : AbilityMsStatus}
    (h : s.transact env a m want e₁ e₂ e₃ = .ok (status, s')) : Attends gen gone lost s s' := by
  rcases transact_cases h with ⟨rfl, -⟩ | ⟨-, rfl, -⟩
  · exact .refl _
  · exact .send _

/-- A new record has no client yet. -/
theorem create {info : AbilityInfo} {want : Want} {f : PageAbilityRecord → PageAbilityRecord}
    (hf : ∀ r, r.connectRecords = [] → r.connectStatus = .init → (f r).connectRecords = []) :
    Attends gen gone lost s
      ((s.newPageAbility gen info want).2.modify (gen.generate s.generated) f) := by
  refine ⟨fun _ h _ => h, fun t r' hr' => ?_, List.prefix_refl _, Nat.le_succ _⟩
  obtain ⟨r, hr, hedit⟩ := Store.modify_cases hr'
  obtain ⟨ht, rfl⟩ | ⟨ht, hr⟩ := Store.insert_cases hr
  · rcases hedit with ⟨_, rfl⟩ | ⟨hne, _⟩
    · exact .inr ⟨⟨s.generated, Nat.le_refl _, ht⟩, distinct_nil (hf _ rfl rfl)⟩
    · exact absurd ht hne
  · rcases hedit with ⟨he, _⟩ | ⟨_, rfl⟩
    · exact absurd he ht
    · exact .inl ⟨_, hr, .refl _⟩

/-! ## Records that go -/

theorem delete (h : s.delete t = .ok s') : Attends gen gone lost s s' := by
  have herase (x : AbilityMgr) (hservices : x.serviceRecords = s.serviceRecords)
      (hcallbacks : x.callbacks = s.callbacks) (hgenerated : x.generated = s.generated) :
      Attends gen gone lost s { x with records := s.records.erase t } := by
    refine ⟨fun p hp _ => ?_, fun p r hr => .inl ⟨r, (Store.erase_cases hr).2, .refl r⟩, ?_,
      Nat.le_of_eq hgenerated.symm⟩
    · show p ∈ x.serviceRecords
      rw [hservices]
      exact hp
    · exact ⟨[], (List.append_nil _).trans hcallbacks.symm⟩
  obtain ⟨r, _, ⟨_, rfl⟩ | ⟨a, app, _, _, rfl⟩⟩ := delete_cases h
  · exact herase s rfl rfl rfl
  · exact herase (s.modifyApp a (·.clearPendingAbility t)) rfl rfl rfl

/-- Services and their clients stay when nothing touches the connections. -/
theorem frame : Frame gen (Attends gen gone lost) where
  refl := refl
  trans := trans
  same hservices hrecords _ hcallbacks hgenerated := .of_same hservices hrecords hcallbacks hgenerated
  edit hf _ _ := .edit fun r => (hf r).connectRecords
  send _ _ := .send _
  create hf _ := .create fun r hclients hstatus => (hf r hclients hstatus).1
  push := by
    intro s t
    unfold pushServiceRecord
    split
    · exact .refl _
    · exact ⟨fun _ h _ => List.mem_append_left _ h, fun _ r hr => .inl ⟨r, hr, .refl r⟩,
        List.prefix_refl _, Nat.le_refl _⟩
  delete h := .delete h

theorem activeAbility (h : s.activeAbility env t = .ok (status, s')) : Attends gen gone lost s s' := by
  refine frame.activeAbility (fun hasks => ?_) (fun _ => .edit fun _ => rfl) h
  obtain ⟨r, a, _, _, _, rfl⟩ := hasks
  exact .send _

theorem startAbility (h : s.startAbility gen env t = .ok (status, s')) : Attends gen gone lost s s' :=
  frame.startAbility (fun _ _ => activeAbility) h

theorem resumes (h : Resumes env s s') : Attends gen gone lost s s' :=
  frame.resumes (fun _ _ _ _ => activeAbility) h

theorem attachTask {client : AbilityThreadClient} (h : s.attachTask env client = .ok (status, s')) :
    Attends gen gone lost s s' := frame.attachTask (fun _ _ _ _ _ => activeAbility) h

/-- The links of a hand-over. -/
theorem links {p t : Token} : Attends gen gone lost s
    ((s.modify p (·.setNextPageAbility (some t))).modify t (·.setPrevPageAbility (some p))) := by
  have hnext : Attends gen gone lost s (s.modify p (·.setNextPageAbility (some t))) := .edit fun _ => rfl
  exact hnext.trans (.edit fun _ => rfl)

theorem startPageTask {want : Want} {target : AbilityInfo} {bundleInfo : BundleInfo}
    (h : s.startPageTask gen env want target bundleInfo = .ok (status, s')) : Attends gen gone lost s s' :=
  frame.startPageTask (fun _ _ _ _ hgen h₁ =>
    have hstarted := (frame.brings hgen).trans (startAbility h₁)
    ⟨fun _ => hstarted, fun _ _ h₂ => hstarted.trans (frame.removePageAbility h₂)⟩)
    (fun _ _ _ => links) h

/-- A service that may go is taken off the list and deleted. -/
theorem dropService (hgone : gone t)
    (h : { s with serviceRecords := s.serviceRecords.filter (· ≠ t) }.delete t = .ok s') :
    Attends gen gone lost s s' := by
  have hlist : Attends gen gone lost s { s with serviceRecords := s.serviceRecords.filter (· ≠ t) } := by
    refine ⟨fun p hp hkept => List.mem_filter.mpr ⟨hp, decide_eq_true fun e => hkept (e ▸ hgone)⟩,
      fun _ r hr => .inl ⟨r, hr, .refl r⟩, List.prefix_refl _, Nat.le_refl _⟩
  exact hlist.trans (delete h)

theorem removeServiceRecord (hgone : gone t) (h : s.removeServiceRecord t = .ok s') :
    Attends gen gone lost s s' := by
  rcases removeServiceRecord_cases h with ⟨_, h⟩ | ⟨_, rfl⟩
  · exact dropService hgone h
  · exact .refl _

/-! ## Clients -/

theorem notify {sid : SvcIdentity} {m : Callback} : Attends gen gone lost s (s.notify env sid m) := by
  unfold AbilityMgr.notify
  split
  · exact ⟨fun _ h _ => h, fun _ r hr => .inl ⟨r, hr, .refl r⟩, List.prefix_append _ _, Nat.le_refl _⟩
  · exact .refl _

theorem callbackTransactions {m : Callback} {l : List AbilityConnectRecord}
    (h : callbackTransactions env a m l s = .ok s') : Attends gen gone lost s s' := by
  induction l generalizing s with
  | nil =>
    cases h
    exact .refl _
  | cons c cs ih =>
    simp only [AbilityMgr.callbackTransactions, callbackTransaction, bind_eq_ok] at h
    obtain ⟨s₁, ⟨app, _, h₁⟩, h⟩ := h
    refine Attends.trans ?_ (ih h)
    split at h₁
    · cases h₁
      exact .refl _
    · cases h₁
      exact .notify

theorem connectAbility (h : s.connectAbility env t = .ok (status, s')) : Attends gen gone lost s s' := by
  obtain ⟨r, _, ⟨_, _, rfl⟩ | ⟨a, _, h⟩⟩ := service_cases h
  · exact .refl _
  · exact .transact h

theorem connectAbilityDone (h : s.connectAbilityDone env t = .ok (status, s')) :
    Attends gen gone lost s s' := by
  obtain ⟨r, _, ⟨_, _, rfl⟩ | ⟨a, _, h⟩⟩ := service_cases h
  · exact .refl _
  · simp only [bind_eq_ok] at h
    obtain ⟨s₁, h₁, h⟩ := h
    cases h
    exact (Attends.editing fun r _ => .of_idents idents_done).trans (callbackTransactions h₁)

theorem connection (status : ConnectStatus) :
    Attends gen gone lost s (s.modify t (·.setConnectStatus status)) := .edit fun _ => rfl

theorem stopAbilityDone (h : s.stopAbilityDone env t = .ok (status, s')) :
    Attends gen gone lost s s' := by
  obtain ⟨r, _, ⟨_, _, rfl⟩ | ⟨a, _, h⟩⟩ := service_cases h
  · exact .refl _
  · simp only [bind_eq_ok] at h
    obtain ⟨s₁, h₁, h⟩ := h
    cases h
    exact (connection .stopped).trans (callbackTransactions h₁)

theorem performStop {r : PageAbilityRecord} (h : s.performStop env a t r = .ok (status, s')) :
    Attends gen gone lost s s' := (connection .stopping).trans (.transact h)

theorem performDisconnect {r : PageAbilityRecord} (h : s.performDisconnect env a t r = .ok (status, s')) :
    Attends gen gone lost s s' := (connection .disconnecting).trans (.transact h)

theorem disconnectAbilityDone (h : s.disconnectAbilityDone env t = .ok (status, s')) :
    Attends gen gone lost s s' := by
  obtain ⟨r, _, ⟨_, _, rfl⟩ | ⟨a, _, h⟩⟩ := service_cases h
  · exact .refl _
  · have hstatus : Attends gen gone lost s
        (s.modify t (·.setConnectStatus (if r.startDone then .init else .disconnect))) := .connection _
    dsimp only at h
    split at h
    · exact hstatus.trans (performStop h)
    · cases h
      exact hstatus

theorem forceStopServiceAbility (h : s.forceStopServiceAbility env t = .ok (status, s')) :
    Attends gen gone lost s s' := by
  obtain ⟨r, _, ⟨_, _, rfl⟩ | ⟨a, _, h⟩⟩ := service_cases h
  · exact .refl _
  have hforce : Attends gen gone lost s (s.modify t (·.setForceStop)) := .edit fun _ => rfl
  refine hforce.trans ?_
  dsimp only at h
  split at h
  · cases h
    exact .refl _
  · split at h
    · cases h
      exact .refl _
    · split at h
      · exact .performStop h
      · exact .performDisconnect h

/-- The connections of an ability that may be lost are taken off a service. -/
theorem removeConnectRecordByPageToken {token : Token} (hlost : ∀ c, c.2 = token → lost c)
    (h : s.removeConnectRecordByPageToken env t token = .ok s') : Attends gen gone lost s s' := by
  simp only [AbilityMgr.removeConnectRecordByPageToken, bind_eq_ok, record_eq_ok] at h
  obtain ⟨r, hr, h⟩ := h
  split at h
  · cases h
    exact .refl _
  · have hedit : Attends gen gone lost s
        (s.modify t (·.setConnectRecords (r.connectRecords.filter (·.abilityToken ≠ token)))) := by
      refine .editing fun r₀ hr₀ => ?_
      rw [hr] at hr₀
      cases hr₀
      refine .of_sublist (List.filter_sublist.map _) fun c hc hkept => ?_
      obtain ⟨x, hx, rfl⟩ := List.mem_map.mp hc
      refine List.mem_map.mpr ⟨x, List.mem_filter.mpr ⟨hx, decide_eq_true fun e => ?_⟩, rfl⟩
      exact hkept (hlost _ e)
    split at h
    · simp only [bind_eq_ok] at h
      obtain ⟨⟨_, s₁⟩, h₁, h⟩ := h
      cases h
      exact hedit.trans (frame.stopAbility h₁)
    · cases h
      exact hedit

theorem removeServiceRecords {name : CString} {ts : List Token}
    (hgone : ∀ t ∈ ts, s.ofBundle name t = true → gone t)
    (h : removeServiceRecords env name ts s = .ok s') : Attends gen gone lost s s' := by
  induction ts generalizing s with
  | nil =>
    cases h
    exact .refl _
  | cons t ts ih =>
    obtain ⟨r, hr, ⟨_, h⟩ | ⟨hname, status, s₁, s₂, h₁, h₂, h⟩⟩ := removeServiceRecords_cons h
    · exact ih (fun p hp => hgone p (List.mem_cons_of_mem t hp)) h
    · have ht : gone t := hgone t List.mem_cons_self ((ofBundle_iff hr).mpr hname)
      obtain ⟨-, -, hstopped⟩ := stopAbilityDone_apart h₁
      obtain ⟨-, -, hdeleted, hothers⟩ := delete_apart h₂
      refine (stopAbilityDone h₁).trans ((dropService ht h₂).trans (ih (fun p hp hof => ?_) h))
      by_cases hpt : p = t
      · exact hpt ▸ ht
      · refine hgone p (List.mem_cons_of_mem t hp) ?_
        rw [← ofBundle_congr ((hothers p hpt).trans (hstopped p))]
        exact hof

theorem removeConnectRecords {token : Token} {name : CString} {ts : List Token}
    (hlost : ∀ c, c.2 = token → lost c) (h : removeConnectRecords env token name ts s = .ok s') :
    Attends gen gone lost s s' := by
  induction ts generalizing s with
  | nil =>
    cases h
    exact .refl _
  | cons t ts ih =>
    simp only [AbilityMgr.removeConnectRecords, bind_eq_ok, record_eq_ok] at h
    obtain ⟨r, _, h⟩ := h
    split at h
    · simp only [bind_eq_ok] at h
      obtain ⟨s₁, h₁, h⟩ := h
      exact (removeConnectRecordByPageToken hlost h₁).trans (ih h)
    · exact ih h

theorem clearPageAbility {name : Option CString} {ts : List Token}
    (hlost : ∀ c : SvcIdentity × Token, c.2 ∈ ts → lost c)
    (h : clearPageAbility env name ts s = .ok s') : Attends gen gone lost s s' := by
  induction ts generalizing s with
  | nil =>
    cases h
    exact .refl _
  | cons t ts ih =>
    have hrest (c : SvcIdentity × Token) (hc : c.2 ∈ ts) : lost c := hlost c (List.mem_cons_of_mem t hc)
    cases name with
    | none =>
      simp only [AbilityMgr.clearPageAbility, bind_eq_ok] at h
      obtain ⟨_, h₁, s₂, h₂, h⟩ := h
      cases h₁
      exact (delete h₂).trans (ih hrest h)
    | some name =>
      simp only [AbilityMgr.clearPageAbility, bind_eq_ok] at h
      obtain ⟨s₁, h₁, s₂, h₂, h⟩ := h
      have hfirst (c : SvcIdentity × Token) (hc : c.2 = t) : lost c :=
        hlost c (hc ▸ List.mem_cons_self)
      exact (removeConnectRecords hfirst h₁).trans ((delete h₂).trans (ih hrest h))

/-! ## Tasks -/

/-- A service whose start is undone was not listed before. -/
theorem startTask {want : Want} {target : AbilityInfo} {bundleInfo : BundleInfo} {waitConnect : Bool}
    (hs : Sound gen s) (h : s.startTask gen env want target bundleInfo waitConnect = .ok (status, s')) :
    Attends gen gone lost s s' := by
  unfold AbilityMgr.startTask at h
  split at h
  · obtain ⟨t, _, _, rfl⟩ | ⟨_, s₁, h₁, ⟨_, h₂⟩ | ⟨_, rfl⟩⟩ := startServiceTask_cases h
    · exact .refl _
    · have hnew : gen.generate s.generated ∉ s.serviceRecords := by
        intro hmem
        obtain ⟨r, hr, _⟩ := hs.shape.services _ hmem
        rw [hs.known.fresh] at hr
        cases hr
      exact (frame.newService.trans ((frame.startService h₁).trans
        (removeServiceRecord (.inr rfl) h₂))).unlisted hnew
    · exact frame.newService.trans (frame.startService h₁)
  · exact startPageTask h

theorem inactivateTask (h : s.inactivateTask gen env t = .ok (status, s')) :
    Attends gen gone lost s s' := by
  cases inactivateTask_cases h with
  | unknown => exact .refl _
  | connect _ _ _ _ h₁ => exact frame.reach.trans ((connection .connecting).trans (connectAbility h₁))
  | service => exact frame.reach
  | next _ _ _ _ h₁ => exact frame.reach.trans ((startAbility h₁).trans (.edit fun _ => rfl))
  | back _ _ _ _ _ h₁ => exact frame.reach.trans ((activeAbility h₁).trans (.edit fun _ => rfl))
  | home _ _ _ _ _ h₁ => exact frame.reach.trans (frame.stopAbility h₁)

theorem terminateTask (h : s.terminateTask env t = .ok (status, s')) : Attends gen gone lost s s' := by
  obtain ⟨_, rfl⟩ | ⟨_, r, _, ⟨_, h₁⟩ | ⟨_, h₁⟩⟩ := terminateTask_cases h
  · exact .refl _
  · exact .forceStopServiceAbility h₁
  · exact frame.inactiveAbility h₁

/-- A client joins only under a connection that is not there. -/
theorem joins {sid : SvcIdentity} {token : Token} {r : PageAbilityRecord} (hr : s.records t = some r)
    (h : Joins t sid token r s s') : Attends gen gone lost s s' := by
  obtain ⟨_, rfl⟩ | ⟨hnone, rfl⟩ := h
  · exact .refl _
  · refine .editing fun r₀ hr₀ => ?_
    rw [hr] at hr₀
    cases hr₀
    unfold pushConnectRecord
    split
    · exact .refl _
    · refine ⟨fun c hc _ => ?_, fun hd => ?_⟩
      · show c ∈ (r.connectRecords ++ [_]).map _
        rw [List.map_append]
        exact List.mem_append_left _ hc
      · show (((r.connectRecords ++ [_]).map _).map _).Nodup
        rw [List.map_append, List.map_append, List.nodup_append]
        refine ⟨hd, List.pairwise_singleton _ _, fun x hx y hy => ?_⟩
        obtain ⟨_, hident, rfl⟩ := List.mem_map.mp hx
        obtain ⟨c, hc, rfl⟩ := List.mem_map.mp hident
        simp only [List.map_cons, List.map_nil, List.mem_singleton] at hy
        rw [hy]
        simpa using List.find?_eq_none.mp hnone c hc

theorem performConnectTask {sid : SvcIdentity} {token : Token}
    (h : s.performConnectTask env t sid token = .ok (status, s')) : Attends gen gone lost s s' := by
  obtain ⟨r, hr, ⟨_, rfl⟩ | ⟨s₁, _, hjoin, h⟩⟩ := performConnectTask_cases h
  · exact .refl _
  · refine (joins hr hjoin).trans ?_
    obtain ⟨_, _, rfl⟩ | ⟨_, _, h⟩ | ⟨_, rfl | h⟩ | ⟨_, rfl⟩ := h
    · exact .connection _
    · exact (connection .connecting).trans (connectAbility h)
    · exact .refl _
    · exact .connectAbilityDone h
    · exact .refl _

theorem connectTask {want : Want} {sid : SvcIdentity} {token : Token}
    (h : s.connectTask env want sid token = .ok (status, s')) : Attends gen gone lost s s' := by
  unfold AbilityMgr.connectTask at h
  split at h
  · cases h
    exact .refl _
  · split at h
    · cases h
      exact .refl _
    · simp only [bind_eq_ok, record_eq_ok] at h
      obtain ⟨r, _, h⟩ := h
      split at h
      · cases h
        exact .refl _
      · exact performConnectTask h

theorem connectDoneTask {sid : SvcIdentity} {token : Token}
    (h : s.connectDoneTask env sid token = .ok (status, s')) : Attends gen gone lost s s' := by
  unfold AbilityMgr.connectDoneTask at h
  split at h
  · cases h
    exact .refl _
  · next t _ =>
    simp only [bind_eq_ok, record_eq_ok] at h
    obtain ⟨r, _, h⟩ := h
    split at h
    · cases h
      exact .refl _
    · simp only [bind_eq_ok] at h
      obtain ⟨⟨_, s₁⟩, h₁, h⟩ := h
      cases h
      have hsid : Attends gen gone lost s (s.modify t (·.setServiceSid sid)) := .edit fun _ => rfl
      exact hsid.trans ((connectAbilityDone h₁).trans (.connection .connected))

/-- A client leaves, if it may. -/
theorem disconnectTask {sid : SvcIdentity} {token : Token}
    (hdistinct : ∀ t r, s.records t = some r → r.Distinct) (hlost : lost (sid, token)) (h : s.disconnectTask env sid token = .ok (status, s')) :
    Attends gen gone lost s s' := by
  unfold AbilityMgr.disconnectTask at h
  split at h
  · cases h
    exact .refl _
  next t hfind =>
  obtain ⟨r, hr, ⟨_, _, rfl⟩ | ⟨a, _, h⟩⟩ := service_cases h
  · exact .refl _
  have hleaves : Attends gen gone lost s (s.modify t (·.removeConnectRecord sid)) := by
    refine .editing fun r₀ hr₀ => ?_
    rw [hr] at hr₀
    cases hr₀
    exact removeConnectRecord_attended (hdistinct t r hr) (findServiceRecordByClient_ident hr hfind) hlost
  dsimp only at h
  split at h
  · cases h
    exact hleaves
  split at h
  · cases h
    exact hleaves
  split at h
  · exact hleaves.trans (performDisconnect h)
  · cases h
    exact hleaves

theorem disconnectDoneTask {token : Token} (h : s.disconnectDoneTask env token = .ok (status, s')) :
    Attends gen gone lost s s' := by
  unfold AbilityMgr.disconnectDoneTask at h
  split at h
  · cases h
    exact .refl _
  · simp only [bind_eq_ok, record_eq_ok] at h
    obtain ⟨r, _, h⟩ := h
    split at h
    · cases h
      exact .refl _
    · exact .disconnectAbilityDone h

/-- The service of a reply that it has stopped is taken off the list. -/
theorem stopTask (hgone : gone t) (h : s.stopTask env t = .ok (status, s')) :
    Attends gen gone lost s s' := by
  cases stopTask_cases h with
  | unknown => exact .refl _
  | stopped => exact frame.reach
  | service _ _ _ _ h₁ h₂ h₃ =>
    exact frame.reach.trans ((stopAbilityDone h₁).trans ((frame.exitsIf h₂).trans
      (removeServiceRecord hgone h₃)))
  | page _ _ _ _ h₁ h₂ =>
    exact frame.reach.trans ((frame.exitsIf h₁).trans (frame.removePageAbility h₂))

theorem terminateServiceTask {target : AbilityInfo}
    (hgone : ∀ t r, s.findServiceRecordByName target.bundleName target.name = some t →
      s.records t = some r → r.currentState = .uninitialized → gone t)
    (h : s.terminateServiceTask env target = .ok (status, s')) : Attends gen gone lost s s' := by
  unfold AbilityMgr.terminateServiceTask at h
  split at h
  · cases h
    exact .refl _
  · next t ht =>
    simp only [bind_eq_ok, record_eq_ok] at h
    obtain ⟨r, hr, h⟩ := h
    split at h
    · next hun =>
      simp only [bind_eq_ok] at h
      obtain ⟨s₁, h₁, h⟩ := h
      cases h
      exact .removeServiceRecord (hgone t r ht hr hun) h₁
    · exact .forceStopServiceAbility h

/-- The mission of a bundle goes, and the clients that are its pages leave. -/
theorem clearPages {name : CString} {pages : List Token}
    (hlost : ∀ c : SvcIdentity × Token, c.2 ∈ pages → lost c)
    (h : (pages = [] ∧ s' = s) ∨ ∃ m ∈ s.allMissions, m.pageAbilityRecords = pages ∧ ∃ s₁,
      AbilityMgr.clearPageAbility env (some name) pages (s.modifyMission m.id (·.setPages [])) = .ok s₁ ∧
      (∀ t ∈ pages, s'.records t = none) ∧ s' = s₁.dropMission (targetStack (some name)) m.id) :
    Attends gen gone lost s s' := by
  obtain ⟨-, rfl⟩ | ⟨m, -, -, s₁, h₁, -, rfl⟩ := h
  · exact .refl _
  · exact (frame.modifyMission _).trans ((clearPageAbility hlost h₁).trans frame.dropMission)

/-- The services of a bundle go, and the clients that are its pages leave. -/
theorem clearAbilityStack {name : CString} (hshape : s.Shape)
    (hgone : ∀ t, s.ofBundle name t = true → gone t)
    (hlost : ∀ c : SvcIdentity × Token, c.2 ∈ s.pagesOf name → lost c)
    (h : s.clearAbilityStack env name = .ok s') : Attends gen gone lost s s' := by
  obtain ⟨s₁, s₂, h₁, h₂, -, -, h⟩ := clearAbilityStack_split hshape h
  exact (removeServiceRecords (fun t _ => hgone t) h₁).trans ((frame.returnFrom h₂).trans (clearPages hlost h))

theorem clears {name : CString} (hshape : s.Shape) (hgone : ∀ t, s.ofBundle name t = true → gone t)
    (hlost : ∀ c : SvcIdentity × Token, c.2 ∈ s.pagesOf name → lost c) (h : Clears env name s s') :
    Attends gen gone lost s s' := by
  obtain ⟨s₁, h₁, h₂⟩ := h
  exact (clearAbilityStack hshape hgone hlost h₁).trans ((frame.removeAppRecordByName _).trans
    (resumes h₂))

theorem appTerminateTask {name : CString} (hshape : s.Shape)
    (hgone : s.CanExit env name → ∀ t, s.ofBundle name t = true → gone t)
    (hlost : s.CanExit env name → ∀ c : SvcIdentity × Token, c.2 ∈ s.pagesOf name → lost c)
    (h : s.appTerminateTask env name = .ok (status, s')) : Attends gen gone lost s s' := by
  cases appTerminateTask_cases h with
  | refused => exact .refl _
  | alone hnone h₁ =>
    have hexit : s.CanExit env name := canExit_of_none hnone
    exact clears hshape (hgone hexit) (hlost hexit) h₁
  | @exits app _ happ hreach h₁ =>
    have hexit : s.CanExit env name := canExit_of_reaches happ hreach
    have hshape₁ : (s.send app.identityId .appExit).Shape :=
      hshape.of_kept ⟨⟨rfl, rfl, rfl, rfl, rfl, rfl⟩, fun _ => rfl⟩
    exact (Attends.send .appExit).trans (clears hshape₁ (hgone hexit) (hlost hexit) h₁)

theorem appRestartTask {bundleInfo : BundleInfo} (hshape : s.Shape)
    (hgone : ∀ name t, bundleInfo.bundleName = some name → s.ofBundle name t = true → gone t)
    (hlost : ∀ name, ∀ c : SvcIdentity × Token, bundleInfo.bundleName = some name →
      c.2 ∈ s.pagesOf name → lost c)
    (h : s.appRestartTask env bundleInfo = .ok (status, s')) : Attends gen gone lost s s' := by
  obtain ⟨_, _, rfl⟩ | ⟨name, hname, h₁⟩ := appRestartTask_cases h
  · exact .refl _
  · exact clears hshape (fun t => hgone name t hname) (fun c => hlost name c hname) h₁

/-! ## Messages -/

theorem handleStartAbility {want : Want} {uid : Int} {code : ErrCode} (hs : Sound gen s)
    (h : s.handleStartAbility gen env want uid = .ok (code, s')) : Attends gen gone lost s s' := by
  obtain rfl | ⟨_, _, _, _, _, _, _, _, h₁⟩ := handleStartAbility_cases h
  · exact .refl _
  · exact startTask hs h₁

theorem startLauncher (hs : Sound gen s) (h : s.startLauncher gen env = .ok s') :
    Attends gen gone lost s s' := by
  obtain ⟨_, h₁⟩ := startLauncher_cases h
  exact handleStartAbility hs h₁

theorem startAbilityMsg {want : Want} {uid : Int} (hs : Sound gen s)
    (h : s.startAbilityMsg gen env want uid = .ok s') : Attends gen gone lost s s' := by
  obtain ⟨code, s₁, h₁, rfl⟩ := startAbilityMsg_cases h
  refine (handleStartAbility hs h₁).trans ?_
  unfold startAbilityCallback
  split
  · exact .refl _
  · split
    · exact .refl _
    · exact .notify

/-- What follows once the process of a bundle has died and the bundle was cleared away. -/
theorem restarted {bundleInfo : BundleInfo} {s₁ s₂ : AbilityMgr} (hs : Sound gen s₁)
    (hlauncher : (status.isNoActiveAbility = false ∧ s₂ = s₁) ∨
      (status.isNoActiveAbility = true ∧ s₁.startLauncher gen env = .ok s₂))
    (hkeep : (isLauncherAbility bundleInfo.bundleName = false ∧ bundleInfo.isSystemApp = true ∧
      bundleInfo.isKeepAlive = true ∧ s₂.startKeepAliveApp gen env bundleInfo = .ok s') ∨ s' = s₂) :
    Attends gen gone lost s₁ s' := by
  have h₂ : Attends gen gone lost s₁ s₂ ∧ Sound gen s₂ := by
    rcases hlauncher with ⟨_, rfl⟩ | ⟨_, h₂⟩
    · exact ⟨.refl _, hs⟩
    · exact ⟨startLauncher hs h₂, hs.goes (startLauncher_goes hs h₂)⟩
  rcases hkeep with ⟨_, _, _, h₃⟩ | rfl
  · obtain rfl | ⟨want, code, _, h₃⟩ := startKeepAliveApp_cases h₃
    · exact h₂.1
    · exact h₂.1.trans (handleStartAbility h₂.2 h₃)
  · exact h₂.1

theorem restartAppMsg {name : CString} (hs : Sound gen s)
    (hgone : ∀ info name' t, env.queryBundleInfo (some name) = some info →
      info.bundleName = some name' → s.ofBundle name' t = true → gone t)
    (hlost : ∀ info name', ∀ c : SvcIdentity × Token, env.queryBundleInfo (some name) = some info →
      info.bundleName = some name' → c.2 ∈ s.pagesOf name' → lost c)
    (h : s.restartAppMsg gen env name = .ok s') : Attends gen gone lost s s' := by
  obtain ⟨_, rfl⟩ | ⟨info, status, s₁, s₂, hinfo, h₁, hlauncher, hkeep⟩ := restartAppMsg_cases h
  · exact .refl _
  · have hclear : Attends gen gone lost s s₁ := appRestartTask hs.shape
      (fun name' t => hgone info name' t hinfo) (fun name' c => hlost info name' c hinfo) h₁
    exact hclear.trans (restarted (hs.goes (appRestartTask_goes hs h₁)) hlauncher hkeep)

theorem connectAbilityMsg {want : Want} {sid : SvcIdentity} {token : Token} {uid : Int}
    (hs : Sound gen s) (h : s.connectAbilityMsg gen env want sid token uid = .ok s') :
    Attends gen gone lost s s' := by
  obtain ⟨code, s₁, h₁, hnotify⟩ := connectAbilityMsg_cases h
  have hconnect : Attends gen gone lost s s₁ := by
    obtain rfl | ⟨e, info, target, s₂, _, _, _, hstart, hdone⟩ := handleConnectAbility_cases h₁
    · exact .refl _
    · have hstarted : Attends gen gone lost s s₂ := by
        rcases hstart with ⟨_, rfl⟩ | ⟨_, _, status, h₂⟩
        · exact .refl _
        · exact startTask hs h₂
      rcases hdone with rfl | ⟨status, h₃⟩
      · exact hstarted
      · exact hstarted.trans (connectTask h₃)
  rcases hnotify with rfl | rfl
  · exact hconnect
  · exact hconnect.trans .notify

theorem transactionMsg {state : TransactionState} (hs : Sound gen s)
    (hgone : state.state = .initial → gone state.token) (h : s.transactionMsg gen env state = .ok s') :
    Attends gen gone lost s s' := by
  obtain ⟨status, s₁, h₁, hlauncher⟩ := transactionMsg_cases h
  have hgoes := workerAbilityTransaction_goes hs h₁
  have hworked : Attends gen gone lost s s₁ := by
    unfold workerAbilityTransaction at h₁
    split at h₁
    · exact frame.backgroundTask h₁
    · exact inactivateTask h₁
    · exact frame.activateTask h₁
    · next hinitial => exact stopTask (hgone hinitial) h₁
    · cases h₁
      exact .refl _
  rcases hlauncher with ⟨_, rfl⟩ | ⟨_, h₂⟩
  · exact hworked
  · exact hworked.trans (startLauncher (hs.goes hgoes) h₂)

/-- A reply takes away the service that it says has stopped. -/
theorem replyMsg {r : Reply} (hs : Sound gen s) (hgone : ∀ t, r = .lifecycleDone ⟨t, .initial⟩ → gone t)
    (h : s.replyMsg gen env r = .ok s') : Attends gen gone lost s s' := by
  cases r with
  | lifecycleDone state => exact transactionMsg hs (fun hinitial => hgone _ (by rw [← hinitial])) h
  | connectDone sid token =>
    simp only [AbilityMgr.replyMsg, bind_eq_ok] at h
    obtain ⟨⟨status, s₁⟩, h₁, h⟩ := h
    cases h
    exact connectDoneTask h₁
  | disconnectDone token =>
    simp only [AbilityMgr.replyMsg, bind_eq_ok] at h
    obtain ⟨⟨status, s₁⟩, h₁, h⟩ := h
    cases h
    exact disconnectDoneTask h₁

end Attends

/-! ## What a request takes away -/

/-- The request clears a bundle away. -/
def Clearing (s : AbilityMgr) (env : Env) (e : Event) (name : CString) : Prop :=
  (e = .terminateApp name ∧ s.CanExit env name) ∨
    ∃ b info, e = .restartApp b ∧ env.queryBundleInfo (some b) = some info ∧
      info.bundleName = some name

/-- The request stops a service that has not started, and takes it away at once. -/
def EndsUnstarted (s : AbilityMgr) (env : Env) (e : Event) (t : Token) : Prop :=
  ∃ want uid target, e = .terminateService want uid ∧ Targets env want uid target ∧
    s.findServiceRecordByName target.bundleName target.name = some t ∧
    ∃ r, s.records t = some r ∧ r.currentState = .uninitialized

theorem requestMsg_attends {e : Event} (hs : Sound gen s)
    (hdistinct : ∀ t r, s.records t = some r → r.Distinct) (h : s.requestMsg gen env e = .ok s') :
    Attends gen
      (fun t => s.EndsUnstarted env e t ∨ ∃ name, s.Clearing env e name ∧ s.ofBundle name t = true)
      (fun c => e = .disconnectAbility c.1 c.2 ∨ ∃ name, s.Clearing env e name ∧ c.2 ∈ s.pagesOf name)
      s s' := by
  cases e with
  | startAbility want uid => exact .startAbilityMsg hs h
  | terminateAbility token =>
    simp only [requestMsg, bind_eq_ok] at h
    obtain ⟨⟨status, s₁⟩, h₁, h⟩ := h
    cases h
    exact .terminateTask h₁
  | attachBundle client =>
    simp only [requestMsg, bind_eq_ok] at h
    obtain ⟨⟨status, s₁⟩, h₁, h⟩ := h
    cases h
    exact Attends.attachTask h₁
  | connectAbility want sid token uid => exact .connectAbilityMsg hs h
  | disconnectAbility sid token =>
    simp only [requestMsg, bind_eq_ok] at h
    obtain ⟨⟨status, s₁⟩, h₁, h⟩ := h
    cases h
    exact .disconnectTask hdistinct (.inl rfl) h₁
  | terminateService want uid =>
    obtain rfl | ⟨target, status, htarget, h₁⟩ := terminateServiceMsg_cases h
    · exact .refl _
    · exact .terminateServiceTask (fun t r hfind hr hun =>
        .inl ⟨want, uid, target, rfl, htarget, hfind, r, hr, hun⟩) h₁
  | terminateApp name =>
    simp only [requestMsg, bind_eq_ok] at h
    obtain ⟨⟨status, s₁⟩, h₁, h⟩ := h
    cases h
    exact .appTerminateTask hs.shape (fun hexit t ht => .inr ⟨name, .inl ⟨rfl, hexit⟩, ht⟩)
      (fun hexit c hc => .inr ⟨name, .inl ⟨rfl, hexit⟩, hc⟩) h₁
  | restartApp b =>
    exact .restartAppMsg hs
      (fun info name t hinfo hname ht => .inr ⟨name, .inr ⟨b, info, rfl, hinfo, hname⟩, ht⟩)
      (fun info name c hinfo hname hc => .inr ⟨name, .inr ⟨b, info, rfl, hinfo, hname⟩, hc⟩) h
  | reply a =>
    cases h
    exact .refl _
  | perform a sid =>
    cases h
    exact .refl _

end AbilityMgr
end AbilityLite.Ams
