import AbilityLite.Ams.Frames

/-
  The connection of a service to its clients, while AMS does something else.

  A record is settled when it has clients only while its connection is there or on its
  way, and is on its way out with clients only when it is stopped by force. Most of what
  AMS does sets a record aside from this: it stops a service, or leaves the state of the
  connection as it is and adds no client. What is asked of the processes is counted: a
  service may have been asked to disconnect and not have answered.
-/

namespace AbilityLite.Ams
open AbilityMsStatus Fallible Relation

namespace PageAbilityRecord
variable {r r' r'' : PageAbilityRecord}

/-- The service is stopping, or its clients are not on a connection that is gone. -/
def Settled (r : PageAbilityRecord) : Prop :=
  r.isPerformStop = true ∨
    ((r.connectStatus = .disconnecting → r.connectRecords = [] ∨ r.forceStop = true) ∧
      (r.connectRecords ≠ [] → r.connectStatus ≠ .init ∧ r.connectStatus ≠ .disconnect))

/-- A service is stopping, or the state of its connection stays and no client is added. -/
def Eases (r r' : PageAbilityRecord) : Prop :=
  r'.isPerformStop = true ∨
    (r'.connectStatus = r.connectStatus ∧ (r.connectRecords = [] → r'.connectRecords = []) ∧
      (r.forceStop = true → r'.forceStop = true))

theorem isPerformStop_eq : r.isPerformStop = true ↔
    r.connectStatus = .stopping ∨ r.connectStatus = .stopped := by
  unfold isPerformStop
  rw [decide_eq_true_eq]

theorem Eases.refl (r : PageAbilityRecord) : Eases r r := .inr ⟨rfl, id, id⟩

theorem Eases.of_same (hstatus : r'.connectStatus = r.connectStatus)
    (hclients : r'.connectRecords = r.connectRecords) (hforce : r'.forceStop = r.forceStop) :
    Eases r r' :=
  .inr ⟨hstatus, fun h => by rw [hclients, h], fun h => by rw [hforce, h]⟩

theorem Eases.trans (h : Eases r r') (h' : Eases r' r'') : Eases r r'' := by
  rcases h' with hstop | ⟨hstatus', hclients', hforce'⟩
  · exact .inl hstop
  · rcases h with hstop | ⟨hstatus, hclients, hforce⟩
    · refine .inl ?_
      rw [isPerformStop_eq, hstatus', ← isPerformStop_eq]
      exact hstop
    · exact .inr ⟨hstatus'.trans hstatus, hclients' ∘ hclients, hforce' ∘ hforce⟩

theorem Eases.settled (h : Eases r r') (hr : r.Settled) : r'.Settled := by
  rcases h with hstop | ⟨hstatus, hclients, hforce⟩
  · exact .inl hstop
  · rcases hr with hstop | ⟨hempty, hlive⟩
    · refine .inl ?_
      rw [isPerformStop_eq, hstatus, ← isPerformStop_eq]
      exact hstop
    · refine .inr ⟨fun hst => ?_, fun hne => ?_⟩
      · rw [hstatus] at hst
        exact (hempty hst).imp hclients hforce
      · rw [hstatus]
        exact hlive fun hnil => hne (hclients hnil)

/-- A settled service that has clients has a connection, unless it is stopping. -/
theorem Settled.live (h : r.Settled) (hne : r.connectRecords ≠ []) :
    r.connectStatus ≠ .init ∧ r.connectStatus ≠ .disconnect := by
  rcases h with hstop | ⟨-, hlive⟩
  · rcases isPerformStop_eq.mp hstop with hst | hst <;> rw [hst] <;> decide
  · exact hlive hne

end PageAbilityRecord

open PageAbilityRecord

/-- The reply says that a service has disconnected. -/
def Reply.saysDisconnected (t : Token) (r : Reply) : Bool :=
  match r with
  | .disconnectDone token => token = t
  | _ => false

namespace AbilityMgr
variable {gen : TokenGenerate} {env : Env} {s s' : AbilityMgr} {t : Token} {a id : Nat}
  {st : StackType} {status : AbilityMsStatus} {m : AbilityMissionRecord}

/-- How often the process of a service is asked to disconnect it, in what it has not handled. -/
def asked (s : AbilityMgr) (t : Token) : Nat := s.sent.countP (·.2.asksDisconnect t)

/-- What leaves the connections of all services as they are, but for those that stop. -/
structure Aside (gen : TokenGenerate) (s s' : AbilityMgr) : Prop where
  records : ∀ t r', s'.records t = some r' → (∃ r, s.records t = some r ∧ Eases r r') ∨
    ((∃ k, s.generated ≤ k ∧ t = gen.generate k) ∧ r'.Settled)
  asked : ∀ t, s'.asked t = s.asked t
  generated : s.generated ≤ s'.generated

namespace Aside

theorem refl (s : AbilityMgr) : Aside gen s s :=
  ⟨fun _ r hr => .inl ⟨r, hr, .refl r⟩, fun _ => rfl, Nat.le_refl _⟩

theorem trans {s s' s'' : AbilityMgr} (h : Aside gen s s') (h' : Aside gen s' s'') :
    Aside gen s s'' := by
  refine ⟨fun t r'' hr'' => ?_, fun t => (h'.asked t).trans (h.asked t),
    Nat.le_trans h.generated h'.generated⟩
  obtain ⟨r', hr', hease'⟩ | ⟨⟨k, hk, ht⟩, hset⟩ := h'.records t r'' hr''
  · obtain ⟨r, hr, hease⟩ | ⟨hnew, hset⟩ := h.records t r' hr'
    · exact .inl ⟨r, hr, hease.trans hease'⟩
    · exact .inr ⟨hnew, hease'.settled hset⟩
  · exact .inr ⟨⟨k, Nat.le_trans h.generated hk, ht⟩, hset⟩

/-- A step that touches no record and sends nothing. -/
theorem of_same (hrecords : s'.records = s.records) (hsent : s'.sent = s.sent)
    (hgenerated : s.generated ≤ s'.generated) : Aside gen s s' := by
  refine ⟨fun t r hr => .inl ⟨r, ?_, .refl r⟩, fun t => ?_, hgenerated⟩
  · rw [hrecords] at hr
    exact hr
  · unfold AbilityMgr.asked
    rw [hsent]

theorem lists (h : OnlyLists s s') : Aside gen s s' :=
  .of_same h.records h.sent (Nat.le_of_eq h.generated.symm)

theorem editing {f : PageAbilityRecord → PageAbilityRecord}
    (hf : ∀ r, s.records t = some r → Eases r (f r)) : Aside gen s (s.modify t f) := by
  refine ⟨fun p r' hr' => .inl ?_, fun _ => rfl, Nat.le_refl _⟩
  obtain ⟨r, hr, ⟨rfl, rfl⟩ | ⟨_, rfl⟩⟩ := Store.modify_cases hr'
  · exact ⟨r, hr, hf r hr⟩
  · exact ⟨r', hr, .refl r'⟩

theorem edit {f : PageAbilityRecord → PageAbilityRecord} (hf : ∀ r, Eases r (f r)) :
    Aside gen s (s.modify t f) := .editing fun r _ => hf r

theorem send {m : Transaction} (hm : ∀ t, m.asksDisconnect t = false) : Aside gen s (s.send a m) := by
  have hasked (t : Token) : (s.send a m).asked t = s.asked t := by
    show (s.sent ++ [(a, m)]).countP _ = _
    rw [List.countP_append, List.countP_singleton]
    simp only [hm t, Bool.false_eq_true, if_false]
    rfl
  cases m with
  | lifecycle state want type =>
    have hedit : Aside gen s (s.modify state.token (·.transact)) := .edit fun r => .of_same rfl rfl rfl
    exact ⟨hedit.records, hasked, Nat.le_refl _⟩
  | _ => exact ⟨fun t r hr => .inl ⟨r, hr, .refl r⟩, hasked, Nat.le_refl _⟩

/-- A new record that is set up without a client. -/
theorem create {info : AbilityInfo} {want : Want} {f : PageAbilityRecord → PageAbilityRecord}
    (hf : ∀ r, r.connectRecords = [] → r.connectStatus = .init → (f r).Settled) :
    Aside gen s ((s.newPageAbility gen info want).2.modify (gen.generate s.generated) f) := by
  refine ⟨fun t r' hr' => ?_, fun _ => rfl, Nat.le_succ _⟩
  obtain ⟨r, hr, hedit⟩ := Store.modify_cases hr'
  obtain ⟨ht, rfl⟩ | ⟨ht, hr⟩ := Store.insert_cases hr
  · rcases hedit with ⟨_, rfl⟩ | ⟨hne, _⟩
    · exact .inr ⟨⟨s.generated, Nat.le_refl _, ht⟩, hf _ rfl rfl⟩
    · exact absurd ht hne
  · rcases hedit with ⟨he, _⟩ | ⟨_, rfl⟩
    · exact absurd he ht
    · exact .inl ⟨_, hr, .refl _⟩

theorem settled_blank {r : PageAbilityRecord} (hclients : r.connectRecords = [])
    (hstatus : r.connectStatus ≠ .disconnecting) : r.Settled :=
  .inr ⟨fun h => absurd h hstatus, fun h => absurd hclients h⟩

/-! ## Records that go -/

theorem delete (h : s.delete t = .ok s') : Aside gen s s' := by
  have herase (x : AbilityMgr) (hrecords : x.records = s.records) (hsent : x.sent = s.sent)
      (hgenerated : x.generated = s.generated) :
      Aside gen s { x with records := s.records.erase t } := by
    refine ⟨fun p r hr => .inl ⟨r, (Store.erase_cases hr).2, .refl r⟩, fun p => ?_,
      Nat.le_of_eq hgenerated.symm⟩
    unfold AbilityMgr.asked
    rw [hsent]
  obtain ⟨r, _, ⟨_, rfl⟩ | ⟨a, app, _, _, rfl⟩⟩ := delete_cases h
  · exact herase s rfl rfl rfl
  · exact herase (s.modifyApp a (·.clearPendingAbility t)) rfl rfl rfl

/-- The connections are left as they are by what does not touch them. -/
theorem frame : Frame gen (Aside gen) where
  refl := refl
  trans := trans
  same _ hrecords hsent _ hgenerated := .of_same hrecords hsent hgenerated
  edit hf _ _ := .edit fun r => .of_same (hf r).connectStatus (hf r).connectRecords (hf r).forceStop
  send hm _ := .send hm
  create hf _ := .create fun r hclients hstatus =>
    settled_blank (hf r hclients hstatus).1 (hf r hclients hstatus).2
  push := by
    intro s t
    unfold pushServiceRecord
    split
    · exact .refl _
    · exact .lists ⟨rfl, rfl, rfl, rfl, rfl⟩
  delete h := .delete h

theorem activeAbility (h : s.activeAbility env t = .ok (status, s')) : Aside gen s s' := by
  refine frame.activeAbility (fun hasks => ?_) (fun _ => .edit fun _ => .of_same rfl rfl rfl) h
  obtain ⟨r, a, _, _, _, rfl⟩ := hasks
  exact .send fun _ => rfl

theorem startAbility (h : s.startAbility gen env t = .ok (status, s')) : Aside gen s s' :=
  frame.startAbility (fun _ _ => activeAbility) h

theorem resumes (h : Resumes env s s') : Aside gen s s' :=
  frame.resumes (fun _ _ _ _ => activeAbility) h

theorem attachTask {client : AbilityThreadClient} (h : s.attachTask env client = .ok (status, s')) :
    Aside gen s s' := frame.attachTask (fun _ _ _ _ _ => activeAbility) h

/-- The links of a hand-over. -/
theorem links {p t : Token} : Aside gen s
    ((s.modify p (·.setNextPageAbility (some t))).modify t (·.setPrevPageAbility (some p))) := by
  have hnext : Aside gen s (s.modify p (·.setNextPageAbility (some t))) := .edit fun _ => .of_same rfl rfl rfl
  exact hnext.trans (.edit fun _ => .of_same rfl rfl rfl)

theorem startPageTask {want : Want} {target : AbilityInfo} {bundleInfo : BundleInfo}
    (h : s.startPageTask gen env want target bundleInfo = .ok (status, s')) : Aside gen s s' :=
  frame.startPageTask (fun _ _ _ _ hgen h₁ =>
    have hstarted := (frame.brings hgen).trans (startAbility h₁)
    ⟨fun _ => hstarted, fun _ _ h₂ => hstarted.trans (frame.removePageAbility h₂)⟩)
    (fun _ _ _ => links) h

theorem dropService (h : { s with serviceRecords := s.serviceRecords.filter (· ≠ t) }.delete t = .ok s') :
    Aside gen s s' := by
  have hlist : Aside gen s { s with serviceRecords := s.serviceRecords.filter (· ≠ t) } :=
    .lists ⟨rfl, rfl, rfl, rfl, rfl⟩
  exact hlist.trans (delete h)

theorem removeServiceRecord (h : s.removeServiceRecord t = .ok s') : Aside gen s s' := by
  rcases removeServiceRecord_cases h with ⟨_, h⟩ | ⟨_, rfl⟩
  · exact dropService h
  · exact .refl _

/-- What is told to clients changes nothing else. -/
theorem callbackTransactions {m : Callback} {l : List AbilityConnectRecord}
    (h : callbackTransactions env a m l s = .ok s') :
    s'.records = s.records ∧ s'.sent = s.sent ∧ s'.generated = s.generated := by
  induction l generalizing s with
  | nil =>
    cases h
    exact ⟨rfl, rfl, rfl⟩
  | cons c cs ih =>
    simp only [AbilityMgr.callbackTransactions, bind_eq_ok] at h
    obtain ⟨s₁, h₁, h⟩ := h
    have hone : s₁.records = s.records ∧ s₁.sent = s.sent ∧ s₁.generated = s.generated := by
      simp only [callbackTransaction, bind_eq_ok] at h₁
      obtain ⟨app, _, h₁⟩ := h₁
      split at h₁
      · cases h₁
        exact ⟨rfl, rfl, rfl⟩
      · cases h₁
        unfold AbilityMgr.notify
        split <;> exact ⟨rfl, rfl, rfl⟩
    obtain ⟨hrecords, hsent, hgenerated⟩ := ih h
    exact ⟨hrecords.trans hone.1, hsent.trans hone.2.1, hgenerated.trans hone.2.2⟩

/-- The clients of a service that waited for its connection are told of it. -/
theorem connectAbilityDone (h : s.connectAbilityDone env t = .ok (status, s')) :
    Aside gen s s' ∧ ∀ r', s'.records t = some r' → ∃ r, s.records t = some r ∧
      r'.connectStatus = r.connectStatus := by
  obtain ⟨r, hr, ⟨_, _, rfl⟩ | ⟨a, ha, h⟩⟩ := service_cases h
  · exact ⟨.refl _, fun r' hr' => ⟨r', hr', rfl⟩⟩
  · simp only [bind_eq_ok] at h
    obtain ⟨s₁, h₁, h⟩ := h
    cases h
    obtain ⟨hrecords, hsent, hgenerated⟩ := callbackTransactions h₁
    have hedit : Aside gen s (s.modify t fun r => r.setConnectRecords (r.connectRecords.map (·.done))) := by
      refine .edit fun r => .inr ⟨rfl, fun hnil => ?_, id⟩
      exact List.map_eq_nil_iff.mpr hnil
    refine ⟨hedit.trans (.of_same hrecords hsent (Nat.le_of_eq hgenerated.symm)), fun r' hr' => ?_⟩
    rw [hrecords, modify_self hr] at hr'
    cases hr'
    exact ⟨r, hr, rfl⟩

theorem stopAbilityDone (h : s.stopAbilityDone env t = .ok (status, s')) : Aside gen s s' := by
  obtain ⟨r, hr, ⟨_, _, rfl⟩ | ⟨a, ha, h⟩⟩ := service_cases h
  · exact .refl _
  · simp only [bind_eq_ok] at h
    obtain ⟨s₁, h₁, h⟩ := h
    cases h
    obtain ⟨hrecords, hsent, hgenerated⟩ := callbackTransactions h₁
    have hedit : Aside gen s (s.modify t (·.setConnectStatus .stopped)) := .edit fun r => .inl rfl
    exact hedit.trans (.of_same hrecords hsent (Nat.le_of_eq hgenerated.symm))

theorem performStop {r : PageAbilityRecord} (h : s.performStop env a t r = .ok (status, s')) :
    Aside gen s s' := by
  have hedit : Aside gen s (s.modify t (·.setConnectStatus .stopping)) := .edit fun r => .inl rfl
  exact hedit.trans (frame.transact (fun _ => rfl) (fun _ => rfl) h)

theorem removeConnectRecordByPageToken {token : Token}
    (h : s.removeConnectRecordByPageToken env t token = .ok s') : Aside gen s s' := by
  simp only [AbilityMgr.removeConnectRecordByPageToken, bind_eq_ok, record_eq_ok] at h
  obtain ⟨r, hr, h⟩ := h
  split at h
  · cases h
    exact .refl _
  · next hne =>
    have hedit : Aside gen s
        (s.modify t (·.setConnectRecords (r.connectRecords.filter (·.abilityToken ≠ token)))) := by
      refine .editing fun r₀ hr₀ => ?_
      rw [hr] at hr₀
      cases hr₀
      exact .inr ⟨rfl, fun hnil => absurd hnil hne, id⟩
    split at h
    · simp only [bind_eq_ok] at h
      obtain ⟨⟨_, s₁⟩, h₁, h⟩ := h
      cases h
      exact hedit.trans (frame.stopAbility h₁)
    · cases h
      exact hedit

theorem removeServiceRecords {name : CString} {ts : List Token}
    (h : removeServiceRecords env name ts s = .ok s') : Aside gen s s' := by
  induction ts generalizing s with
  | nil =>
    cases h
    exact .refl _
  | cons t ts ih =>
    obtain ⟨r, hr, ⟨_, h⟩ | ⟨_, status, s₁, s₂, h₁, h₂, h⟩⟩ := removeServiceRecords_cons h
    · exact ih h
    · exact (stopAbilityDone h₁).trans ((dropService h₂).trans (ih h))

theorem removeConnectRecords {token : Token} {name : CString} {ts : List Token}
    (h : removeConnectRecords env token name ts s = .ok s') : Aside gen s s' := by
  induction ts generalizing s with
  | nil =>
    cases h
    exact .refl _
  | cons t ts ih =>
    simp only [AbilityMgr.removeConnectRecords, bind_eq_ok, record_eq_ok] at h
    obtain ⟨r, _, h⟩ := h
    split at h
    · simp only [bind_eq_ok] at h
      obtain ⟨s₁, h₁, h⟩ := h
      exact (removeConnectRecordByPageToken h₁).trans (ih h)
    · exact ih h

theorem clearPageAbility {name : Option CString} {ts : List Token}
    (h : clearPageAbility env name ts s = .ok s') : Aside gen s s' := by
  induction ts generalizing s with
  | nil =>
    cases h
    exact .refl _
  | cons t ts ih =>
    cases name with
    | none =>
      simp only [AbilityMgr.clearPageAbility, bind_eq_ok] at h
      obtain ⟨_, h₁, s₂, h₂, h⟩ := h
      cases h₁
      exact (delete h₂).trans (ih h)
    | some name =>
      simp only [AbilityMgr.clearPageAbility, bind_eq_ok] at h
      obtain ⟨s₁, h₁, s₂, h₂, h⟩ := h
      exact (removeConnectRecords h₁).trans ((delete h₂).trans (ih h))

theorem removeMissionRecordByName {name : Option CString}
    (h : s.removeMissionRecordByName env st name = .ok s') : Aside gen s s' := by
  unfold AbilityMgr.removeMissionRecordByName at h
  split at h
  · cases h
    exact .refl _
  · simp only [bind_eq_ok] at h
    obtain ⟨s₁, h₁, h⟩ := h
    cases h
    exact (Aside.lists (onlyLists_modifyMission _)).trans ((clearPageAbility h₁).trans frame.dropMission)

theorem clearAbilityStack {name : CString} (h : s.clearAbilityStack env name = .ok s') :
    Aside gen s s' := by
  obtain ⟨s₁, s₂, h₁, h₂, h⟩ := clearAbilityStack_cases h
  exact (removeServiceRecords h₁).trans ((frame.returnFrom h₂).trans (removeMissionRecordByName h))

theorem clears {name : CString} (h : Clears env name s s') : Aside gen s s' := by
  obtain ⟨s₁, h₁, h₂⟩ := h
  exact (clearAbilityStack h₁).trans ((frame.removeAppRecordByName _).trans (resumes h₂))

/-! ## Messages -/

theorem startTask {want : Want} {target : AbilityInfo} {bundleInfo : BundleInfo} {waitConnect : Bool}
    (h : s.startTask gen env want target bundleInfo waitConnect = .ok (status, s')) : Aside gen s s' := by
  unfold AbilityMgr.startTask at h
  split at h
  · obtain ⟨t, _, _, rfl⟩ | ⟨_, s₁, h₁, ⟨_, h₂⟩ | ⟨_, rfl⟩⟩ := startServiceTask_cases h
    · exact .refl _
    · exact frame.newService.trans ((frame.startService h₁).trans (removeServiceRecord h₂))
    · exact frame.newService.trans (frame.startService h₁)
  · exact startPageTask h

theorem stopTask (h : s.stopTask env t = .ok (status, s')) : Aside gen s s' := by
  cases stopTask_cases h with
  | unknown => exact .refl _
  | stopped => exact frame.reach
  | service _ _ _ _ h₁ h₂ h₃ =>
    exact frame.reach.trans ((stopAbilityDone h₁).trans ((frame.exitsIf h₂).trans
      (removeServiceRecord h₃)))
  | page _ _ _ _ h₁ h₂ =>
    exact frame.reach.trans ((frame.exitsIf h₁).trans (frame.removePageAbility h₂))

theorem appTerminateTask {name : CString} (h : s.appTerminateTask env name = .ok (status, s')) :
    Aside gen s s' := by
  cases appTerminateTask_cases h with
  | refused => exact .refl _
  | alone _ h₁ => exact clears h₁
  | exits _ _ h₁ => exact (Aside.send fun _ => rfl).trans (clears h₁)

theorem appRestartTask {bundleInfo : BundleInfo} (h : s.appRestartTask env bundleInfo = .ok (status, s')) :
    Aside gen s s' := by
  obtain ⟨_, _, rfl⟩ | ⟨name, _, h₁⟩ := appRestartTask_cases h
  · exact .refl _
  · exact clears h₁

theorem notify {sid : SvcIdentity} {m : Callback} : Aside gen s (s.notify env sid m) := by
  unfold AbilityMgr.notify
  split
  · exact .of_same rfl rfl (Nat.le_refl _)
  · exact .refl _

theorem handleStartAbility {want : Want} {uid : Int} {code : ErrCode}
    (h : s.handleStartAbility gen env want uid = .ok (code, s')) : Aside gen s s' := by
  obtain rfl | ⟨_, _, _, _, _, _, _, _, h₁⟩ := handleStartAbility_cases h
  · exact .refl _
  · exact startTask h₁

theorem startLauncher (h : s.startLauncher gen env = .ok s') : Aside gen s s' := by
  obtain ⟨_, h₁⟩ := startLauncher_cases h
  exact handleStartAbility h₁

theorem startAbilityMsg {want : Want} {uid : Int} (h : s.startAbilityMsg gen env want uid = .ok s') :
    Aside gen s s' := by
  obtain ⟨code, s₁, h₁, rfl⟩ := startAbilityMsg_cases h
  refine (handleStartAbility h₁).trans ?_
  unfold startAbilityCallback
  split
  · exact .refl _
  · split
    · exact .refl _
    · exact .notify

theorem restartAppMsg {name : CString} (h : s.restartAppMsg gen env name = .ok s') : Aside gen s s' := by
  obtain ⟨_, rfl⟩ | ⟨bundleInfo, status, s₁, s₂, _, h₁, hlauncher, hkeep⟩ := restartAppMsg_cases h
  · exact .refl _
  have h₂ : Aside gen s s₂ := by
    rcases hlauncher with ⟨_, rfl⟩ | ⟨_, h₂⟩
    · exact appRestartTask h₁
    · exact (appRestartTask h₁).trans (startLauncher h₂)
  rcases hkeep with ⟨_, _, _, h₃⟩ | rfl
  · obtain rfl | ⟨want, code, _, h₃⟩ := startKeepAliveApp_cases h₃
    · exact h₂
    · exact h₂.trans (handleStartAbility h₃)
  · exact h₂

end Aside
end AbilityMgr
end AbilityLite.Ams
