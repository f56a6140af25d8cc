import AbilityLite.Ams.Links

/-
  The clients of a service, over whole runs.

  AMS asks the process of a service to disconnect it when its last client leaves, and
  takes clients again once the process has answered. In between the service is
  disconnecting, so no client joins, unless the answer to the connect before it comes in
  late: that makes the service connected, and the answer to the disconnect then takes the
  connection away from the clients that joined since.
-/

namespace AbilityLite.Ams
open AbilityMsStatus Fallible Relation PageAbilityRecord
namespace AbilityMgr
variable {gen : TokenGenerate} {env : Env} {s s' : AbilityMgr} {t : Token} {a : Nat} {n : Token → Nat}
  {status : AbilityMsStatus} {r r' : PageAbilityRecord}

/-- Every record is settled, and what is disconnecting for its process is for AMS: a service is asked
once, and has not taken a client since. `n` counts the answers AMS has not handled. -/
structure Linked (gen : TokenGenerate) (n : Token → Nat) (s : AbilityMgr) : Prop where
  once : ∀ t, n t + s.asked t ≤ 1
  known : ∀ t, 0 < n t + s.asked t → ∃ k < s.generated, t = gen.generate k
  leaving : ∀ t r, 0 < n t + s.asked t → s.records t = some r →
    r.connectStatus = .disconnecting ∨ r.isPerformStop = true
  settled : ∀ t r, s.records t = some r → r.Settled

namespace Linked

/-- What is asked may be handled by the process, and its answers by AMS. -/
theorem fewer {n' : Token → Nat} (h : Linked gen n s) (hle : ∀ t, n' t + s'.asked t ≤ n t + s.asked t)
    (hrecords : s'.records = s.records) (hgenerated : s'.generated = s.generated) : Linked gen n' s' := by
  refine ⟨fun t => Nat.le_trans (hle t) (h.once t), fun t hpos => ?_, fun t r hpos hr => ?_,
    fun t r hr => ?_⟩
  · rw [hgenerated]
    exact h.known t (Nat.lt_of_lt_of_le hpos (hle t))
  · rw [hrecords] at hr
    exact h.leaving t r (Nat.lt_of_lt_of_le hpos (hle t)) hr
  · rw [hrecords] at hr
    exact h.settled t r hr

theorem aside (h : Linked gen n s) (hs : Aside gen s s') : Linked gen n s' := by
  have hbefore (t : Token) (hpos : 0 < n t + s'.asked t) : 0 < n t + s.asked t := by
    rw [hs.asked] at hpos
    exact hpos
  refine ⟨fun t => ?_, fun t hpos => ?_, fun t r' hpos hr' => ?_, fun t r' hr' => ?_⟩
  · rw [hs.asked]
    exact h.once t
  · obtain ⟨k, hk, ht⟩ := h.known t (hbefore t hpos)
    exact ⟨k, Nat.lt_of_lt_of_le hk hs.generated, ht⟩
  · obtain ⟨r, hr, hstop | ⟨hstatus, -, -⟩⟩ | ⟨⟨k, hk, ht⟩, -⟩ := hs.records t r' hr'
    · exact .inr hstop
    · rw [isPerformStop_eq, hstatus, ← isPerformStop_eq]
      exact h.leaving t r (hbefore t hpos) hr
    · -- A token that is generated now is not one that a process was asked about.
      obtain ⟨k', hk', ht'⟩ := h.known t (hbefore t hpos)
      have heq : k = k' := gen.injective k k' (ht.symm.trans ht')
      exact absurd hk' (Nat.not_lt_of_le (heq ▸ hk))
  · obtain ⟨r, hr, hease⟩ | ⟨-, hset⟩ := hs.records t r' hr'
    · exact hease.settled (h.settled t r hr)
    · exact hset

/-- A service that is neither disconnecting nor stopping has not been asked to disconnect. -/
theorem idle (h : Linked gen n s) (hr : s.records t = some r) (hstatus : r.connectStatus ≠ .disconnecting)
    (hstop : r.isPerformStop = false) : n t + s.asked t = 0 := by
  refine Nat.eq_zero_of_not_pos fun hpos => ?_
  rcases h.leaving t r hpos hr with hst | hst
  · exact hstatus hst
  · rw [hst] at hstop
    cases hstop

/-- The connection of a service that has not been asked to disconnect may change. -/
theorem put {f : PageAbilityRecord → PageAbilityRecord} (h : Linked gen n s)
    (hidle : n t + s.asked t = 0) (hf : ∀ r, s.records t = some r → (f r).Settled) :
    Linked gen n (s.modify t f) := by
  refine ⟨h.once, h.known, fun p r' hpos hr' => ?_, fun p r' hr' => ?_⟩
  · obtain ⟨r, hr, ⟨rfl, rfl⟩ | ⟨_, rfl⟩⟩ := Store.modify_cases hr'
    · exact absurd hidle (Nat.pos_iff_ne_zero.mp hpos)
    · exact h.leaving p r' hpos hr
  · obtain ⟨r, hr, ⟨rfl, rfl⟩ | ⟨_, rfl⟩⟩ := Store.modify_cases hr'
    · exact hf r hr
    · exact h.settled p r' hr

/-- The last client has left, or the service is stopped by force: its process is asked. -/
theorem performDisconnect (h : Linked gen n s) (hknown : Known gen s) (hr : s.records t = some r)
    (hidle : n t + s.asked t = 0) (hempty : r.connectRecords = [] ∨ r.forceStop = true)
    (hs : s.performDisconnect env a t r' = .ok (status, s')) : Linked gen n s' := by
  have hput : Linked gen n (s.modify t (·.setConnectStatus .disconnecting)) := by
    refine h.put hidle fun r₀ hr₀ => ?_
    rw [hr] at hr₀
    cases hr₀
    refine .inr ⟨fun _ => hempty, fun _ => ⟨?_, ?_⟩⟩ <;> intro hst <;> cases hst
  rcases transact_cases hs with ⟨rfl, -⟩ | ⟨-, rfl, -⟩
  · exact hput
  have hasked (p : Token) : ((s.modify t (·.setConnectStatus .disconnecting)).send a
      (.disconnect r'.want t)).asked p = s.asked p + if t = p then 1 else 0 := by
    show (s.sent ++ [(a, _)]).countP _ = _
    rw [List.countP_append, List.countP_singleton]
    simp only [Transaction.asksDisconnect, decide_eq_true_eq]
    rfl
  have hother {p : Token} (hp : t ≠ p) : ((s.modify t (·.setConnectStatus .disconnecting)).send a
      (.disconnect r'.want t)).asked p = s.asked p := by rw [hasked, if_neg hp, Nat.add_zero]
  refine ⟨fun p => ?_, fun p hpos => ?_, fun p r₁ hpos hr₁ => ?_, hput.settled⟩
  · by_cases hp : t = p
    · subst hp
      rw [hasked, if_pos rfl]
      omega
    · rw [hother hp]
      exact h.once p
  · by_cases hp : t = p
    · subst hp
      exact hknown.records t (by rw [hr]; rfl)
    · rw [hother hp] at hpos
      exact h.known p hpos
  · by_cases hp : t = p
    · subst hp
      have hr₁' : (s.modify t (·.setConnectStatus .disconnecting)).records t = some r₁ := hr₁
      rw [modify_self hr] at hr₁'
      cases hr₁'
      exact .inl rfl
    · rw [hother hp] at hpos
      exact hput.leaving p r₁ hpos hr₁

/-! ## Connecting -/

theorem connectAbility (h : Linked gen n s) (hs : s.connectAbility env t = .ok (status, s')) :
    Linked gen n s' := by
  obtain ⟨r, _, ⟨_, _, rfl⟩ | ⟨a, _, hs⟩⟩ := service_cases hs
  · exact h
  · exact h.aside (Aside.frame.transact (fun _ => rfl) (fun _ => rfl) hs)

/-- A service that is on its way up starts to connect. -/
theorem inactivateTask (h : Linked gen n s) (hs : s.inactivateTask gen env t = .ok (status, s')) :
    Linked gen n s' := by
  cases inactivateTask_cases hs with
  | unknown => exact h
  | connect _ hr _ hwait h₁ =>
    have hreach : Linked gen n (s.modify t (·.setCurrentState .inactive)) := h.aside Aside.frame.reach
    have hidle := h.idle hr (by rw [hwait]; decide) (by unfold isPerformStop; rw [hwait]; decide)
    refine connectAbility (hreach.put hidle fun r _ => .inr ⟨fun hst => ?_, fun _ => ⟨?_, ?_⟩⟩) h₁
    · cases hst
    · exact fun hst => by cases hst
    · exact fun hst => by cases hst
  | service => exact h.aside Aside.frame.reach
  | next _ _ _ _ h₁ =>
    exact h.aside (Aside.frame.reach.trans ((Aside.startAbility h₁).trans
      (.edit fun r => .of_same rfl rfl rfl)))
  | back _ _ _ _ _ h₁ =>
    exact h.aside (Aside.frame.reach.trans ((Aside.activeAbility h₁).trans
      (.edit fun r => .of_same rfl rfl rfl)))
  | home _ _ _ _ _ h₁ => exact h.aside (Aside.frame.reach.trans (Aside.frame.stopAbility h₁))

theorem pushConnectRecord_same (r : PageAbilityRecord) (c : AbilityConnectRecord) :
    (r.pushConnectRecord c).connectStatus = r.connectStatus ∧
      (r.pushConnectRecord c).forceStop = r.forceStop := by
  unfold PageAbilityRecord.pushConnectRecord
  split <;> exact ⟨rfl, rfl⟩

/-- A connection that is there or on its way takes clients. -/
theorem settled_live (h : r.connectStatus = .waitConnect ∨ r.connectStatus = .connecting ∨
    r.connectStatus = .connected) : r.Settled := by
  refine .inr ⟨fun hst => ?_, fun _ => ⟨fun hst => ?_, fun hst => ?_⟩⟩ <;>
    rcases h with h | h | h <;> rw [hst] at h <;> cases h

theorem modify_modify (f g : PageAbilityRecord → PageAbilityRecord) :
    (s.modify t f).modify t g = s.modify t (g ∘ f) := by
  unfold AbilityMgr.modify Store.modify
  congr 1
  funext p
  by_cases hp : p = t
  · simp only [hp, if_true, Option.map_map]
  · simp only [hp, if_false]

theorem performConnectTask {sid : SvcIdentity} {token : Token} (h : Linked gen n s)
    (hs : s.performConnectTask env t sid token = .ok (status, s')) : Linked gen n s' := by
  obtain ⟨r, hr, ⟨_, rfl⟩ | ⟨s₁, hleaving, hjoin, hrest⟩⟩ := performConnectTask_cases hs
  · exact h
  have hidle : n t + s.asked t = 0 := by
    refine h.idle hr (fun hst => hleaving (.inl hst)) (Bool.eq_false_iff.mpr fun hstop => ?_)
    exact hleaving (.inr (.inr (isPerformStop_eq.mp hstop)))
  -- The client joins and the connection opens in one step: in between nothing is settled.
  have hopens (c : ConnectStatus) (hc : c = .waitConnect ∨ c = .connecting) :
      Linked gen n (s₁.modify t (·.setConnectStatus c)) := by
    have hset (r : PageAbilityRecord) : (r.setConnectStatus c).Settled :=
      settled_live (hc.imp_right .inl)
    rcases hjoin with ⟨_, rfl⟩ | ⟨_, rfl⟩
    · exact h.put hidle fun r _ => hset r
    · rw [modify_modify]
      exact h.put hidle fun r _ => hset _
  have hjoins (hlive : r.connectStatus = .waitConnect ∨ r.connectStatus = .connecting ∨
      r.connectStatus = .connected) : Linked gen n s₁ := by
    rcases hjoin with ⟨_, rfl⟩ | ⟨_, rfl⟩
    · exact h
    · refine h.put hidle fun r₀ hr₀ => settled_live ?_
      rw [hr] at hr₀
      cases hr₀
      rw [(pushConnectRecord_same r _).1]
      exact hlive
  rcases hrest with ⟨_, _, rfl⟩ | ⟨_, _, h₁⟩ | ⟨hst, rfl | h₁⟩ | ⟨hst, rfl⟩
  · exact hopens _ (.inl rfl)
  · exact connectAbility (hopens _ (.inr rfl)) h₁
  · exact hjoins (.inr (.inr hst))
  · exact (hjoins (.inr (.inr hst))).aside (Aside.connectAbilityDone h₁).1
  · exact hjoins (hst.imp_right .inl)

theorem connectTask {want : Want} {sid : SvcIdentity} {token : Token} (h : Linked gen n s)
    (hs : s.connectTask env want sid token = .ok (status, s')) : Linked gen n s' := by
  unfold AbilityMgr.connectTask at hs
  split at hs
  · cases hs
    exact h
  · split at hs
    · cases hs
      exact h
    · simp only [bind_eq_ok, record_eq_ok] at hs
      obtain ⟨r, _, hs⟩ := hs
      split at hs
      · cases hs
        exact h
      · exact h.performConnectTask hs

/-- A connect is answered, and its service has not been asked to disconnect since. -/
theorem connectDoneTask {sid : SvcIdentity} (h : Linked gen n s)
    (hlate : ∀ r, t ∈ s.serviceRecords → s.records t = some r → r.connectStatus ≠ .disconnecting)
    (hs : s.connectDoneTask env sid t = .ok (status, s')) : Linked gen n s' := by
  unfold AbilityMgr.connectDoneTask at hs
  split at hs
  · cases hs
    exact h
  · next p hp =>
    obtain ⟨rfl, hmem⟩ := findServiceAbility_mem hp
    simp only [bind_eq_ok, record_eq_ok] at hs
    obtain ⟨r, hr, hs⟩ := hs
    split at hs
    · cases hs
      exact h
    · next hstop =>
      simp only [bind_eq_ok] at hs
      obtain ⟨⟨st, s₁⟩, h₁, hs⟩ := hs
      cases hs
      have hidle := h.idle hr (hlate r hmem hr) (Bool.eq_false_iff.mpr hstop)
      have hsid : Aside gen s (s.modify p (·.setServiceSid sid)) := .edit fun r => .of_same rfl rfl rfl
      have hdone := hsid.trans (Aside.connectAbilityDone h₁).1
      refine (h.aside hdone).put ?_ fun r _ => settled_live (.inr (.inr rfl))
      rw [hdone.asked]
      exact hidle

/-! ## Disconnecting -/

theorem disconnectTask {sid : SvcIdentity} {token : Token} (h : Linked gen n s) (hknown : Known gen s)
    (hs : s.disconnectTask env sid token = .ok (status, s')) : Linked gen n s' := by
  unfold AbilityMgr.disconnectTask at hs
  split at hs
  · cases hs
    exact h
  · next t _ =>
    obtain ⟨r, hr, ⟨_, _, rfl⟩ | ⟨a, ha, hs⟩⟩ := service_cases hs
    · exact h
    have hleaves : Aside gen s (s.modify t (·.removeConnectRecord sid)) := by
      refine .edit fun r => .inr ⟨rfl, fun hnil => ?_, id⟩
      show r.connectRecords.eraseP _ = []
      rw [hnil]
      rfl
    dsimp only at hs
    split at hs
    · cases hs
      exact h.aside hleaves
    next hstatus =>
    split at hs
    · cases hs
      exact h.aside hleaves
    next hstop =>
    split at hs
    · next hnil =>
      refine (h.aside hleaves).performDisconnect (hknown.modify _) (modify_self hr) ?_ (.inl hnil) hs
      exact h.idle hr (fun hst => hstatus (.inr hst)) (Bool.eq_false_iff.mpr hstop)
    · cases hs
      exact h.aside hleaves

theorem forceStopServiceAbility (h : Linked gen n s) (hknown : Known gen s)
    (hs : s.forceStopServiceAbility env t = .ok (status, s')) : Linked gen n s' := by
  obtain ⟨r, hr, ⟨_, _, rfl⟩ | ⟨a, ha, hs⟩⟩ := service_cases hs
  · exact h
  have hforce : Aside gen s (s.modify t (·.setForceStop)) := .edit fun r => .inr ⟨rfl, id, fun _ => rfl⟩
  dsimp only at hs
  split at hs
  · cases hs
    exact h.aside hforce
  next hstop =>
  split at hs
  · cases hs
    exact h.aside hforce
  next hstatus =>
  split at hs
  · exact h.aside (hforce.trans (.performStop hs))
  · refine (h.aside hforce).performDisconnect (hknown.modify _) (modify_self hr) ?_ (.inr rfl) hs
    exact h.idle hr hstatus (Bool.eq_false_iff.mpr hstop)

/-- The answer to a disconnect is handled: the service may take clients again, or is stopped. -/
theorem disconnectDoneTask (h : Linked gen (fun p => n p + if t = p then 1 else 0) s)
    (hs : s.disconnectDoneTask env t = .ok (status, s')) : Linked gen n s' := by
  have hrest : Linked gen n s :=
    h.fewer (fun p => Nat.add_le_add_right (Nat.le_add_right _ _) _) rfl rfl
  have honce : n t + s.asked t = 0 := by
    have hone := h.once t
    simp only [if_true] at hone
    omega
  unfold AbilityMgr.disconnectDoneTask at hs
  split at hs
  · cases hs
    exact hrest
  next p hp =>
  obtain ⟨rfl, _⟩ := findServiceAbility_mem hp
  simp only [bind_eq_ok, record_eq_ok] at hs
  obtain ⟨r, hr, hs⟩ := hs
  split at hs
  · cases hs
    exact hrest
  next hstop =>
  obtain ⟨r', hr', ⟨_, _, rfl⟩ | ⟨a, ha, hs⟩⟩ := service_cases hs
  · exact hrest
  rw [hr] at hr'
  cases hr'
  have hempty : r.connectRecords = [] ∨ r.forceStop = true := by
    have hpos : 0 < (n p + if p = p then 1 else 0) + s.asked p := by
      rw [if_pos rfl]
      omega
    have hstatus := (h.leaving p r hpos hr).resolve_right hstop
    exact ((hrest.settled p r hr).resolve_left hstop).1 hstatus
  dsimp only at hs
  by_cases hstops : (r.connectRecords = [] ∧ (!r.startDone) = true) ∨ r.forceStop = true
  · rw [if_pos hstops] at hs
    -- What is set before the service is stopped does not show.
    have hedit : Linked gen n ((s.modify p (·.setConnectStatus
        (if r.startDone then .init else .disconnect))).modify p (·.setConnectStatus .stopping)) := by
      rw [modify_modify]
      exact hrest.put honce fun r _ => .inl rfl
    exact hedit.aside (Aside.frame.transact (fun _ => rfl) (fun _ => rfl) hs)
  · rw [if_neg hstops] at hs
    cases hs
    have hforce : r.forceStop ≠ true := fun hf => hstops (.inr hf)
    have hnil := hempty.resolve_right hforce
    have hdone : r.startDone = true := by
      refine Bool.of_not_eq_false fun hf => hstops (.inl ⟨hnil, ?_⟩)
      rw [hf]
      rfl
    refine hrest.put honce fun r₀ hr₀ => ?_
    rw [hr] at hr₀
    cases hr₀
    rw [hdone, if_pos rfl]
    exact Aside.settled_blank hnil fun hst => by cases hst

/-! ## Messages -/

theorem connectAbilityMsg {want : Want} {sid : SvcIdentity} {token : Token} {uid : Int}
    (h : Linked gen n s) (hs : s.connectAbilityMsg gen env want sid token uid = .ok s') :
    Linked gen n s' := by
  obtain ⟨code, s₁, h₁, hnotify⟩ := connectAbilityMsg_cases hs
  have hconnected : Linked gen n s₁ := by
    obtain rfl | ⟨e, bundleInfo, target, s₂, _, _, _, hstart, hconnect⟩ := handleConnectAbility_cases h₁
    · exact h
    have hstarted : Linked gen n s₂ := by
      rcases hstart with ⟨_, rfl⟩ | ⟨_, _, status, h₂⟩
      · exact h
      · exact h.aside (.startTask h₂)
    rcases hconnect with rfl | ⟨status, h₃⟩
    · exact hstarted
    · exact hstarted.connectTask h₃
  rcases hnotify with rfl | rfl
  · exact hconnected
  · exact hconnected.aside .notify

theorem terminateServiceMsg {want : Want} {uid : Int} (h : Linked gen n s) (hknown : Known gen s)
    (hs : s.terminateServiceMsg env want uid = .ok s') : Linked gen n s' := by
  obtain rfl | ⟨target, status, _, h₁⟩ := terminateServiceMsg_cases hs
  · exact h
  unfold terminateServiceTask at h₁
  split at h₁
  · cases h₁
    exact h
  · simp only [bind_eq_ok, record_eq_ok] at h₁
    obtain ⟨r, _, h₁⟩ := h₁
    split at h₁
    · simp only [bind_eq_ok] at h₁
      obtain ⟨s₁, h₂, h₁⟩ := h₁
      cases h₁
      exact h.aside (.removeServiceRecord h₂)
    · exact h.forceStopServiceAbility hknown h₁

theorem transactionMsg {state : TransactionState} (h : Linked gen n s)
    (hs : s.transactionMsg gen env state = .ok s') : Linked gen n s' := by
  obtain ⟨status, s₁, h₁, hlauncher⟩ := transactionMsg_cases hs
  have hdone : Linked gen n s₁ := by
    unfold workerAbilityTransaction at h₁
    split at h₁
    · exact h.aside (Aside.frame.backgroundTask h₁)
    · exact h.inactivateTask h₁
    · exact h.aside (Aside.frame.activateTask h₁)
    · exact h.aside (.stopTask h₁)
    · cases h₁
      exact h
  rcases hlauncher with ⟨_, rfl⟩ | ⟨_, h₂⟩
  · exact hdone
  · exact hdone.aside (.startLauncher h₂)

theorem requestMsg {e : Event} (h : Linked gen n s) (hknown : Known gen s)
    (hs : s.requestMsg gen env e = .ok s') : Linked gen n s' := by
  cases e with
  | startAbility want uid => exact h.aside (.startAbilityMsg hs)
  | terminateAbility token =>
    simp only [AbilityMgr.requestMsg, bind_eq_ok] at hs
    obtain ⟨⟨status, s₁⟩, h₁, hs⟩ := hs
    cases hs
    obtain ⟨_, rfl⟩ | ⟨_, r, _, ⟨_, h₁⟩ | ⟨_, h₁⟩⟩ := terminateTask_cases h₁
    · exact h
    · exact h.forceStopServiceAbility hknown h₁
    · exact h.aside (Aside.frame.inactiveAbility h₁)
  | attachBundle client =>
    simp only [AbilityMgr.requestMsg, bind_eq_ok] at hs
    obtain ⟨⟨status, s₁⟩, h₁, hs⟩ := hs
    cases hs
    exact h.aside (Aside.attachTask h₁)
  | connectAbility want sid token uid => exact h.connectAbilityMsg hs
  | disconnectAbility sid token =>
    simp only [AbilityMgr.requestMsg, bind_eq_ok] at hs
    obtain ⟨⟨status, s₁⟩, h₁, hs⟩ := hs
    cases hs
    exact h.disconnectTask hknown h₁
  | terminateService want uid => exact h.terminateServiceMsg hknown hs
  | terminateApp name =>
    simp only [AbilityMgr.requestMsg, bind_eq_ok] at hs
    obtain ⟨⟨status, s₁⟩, h₁, hs⟩ := hs
    cases hs
    exact h.aside (.appTerminateTask h₁)
  | restartApp name => exact h.aside (.restartAppMsg hs)
  | reply a =>
    cases hs
    exact h
  | perform a sid =>
    cases hs
    exact h

end Linked
end AbilityMgr

/-! ## Processes -/

namespace AbilityThread

theorem performTransactAbilityState_reply {th th' : AbilityThread} {env : Env} {want : Want}
    {state : TransactionState} {reply : Reply}
    (h : th.performTransactAbilityState env want state = some (th', reply)) :
    ∃ reached, reply = .lifecycleDone reached := by
  unfold performTransactAbilityState at h
  extract_lets start at h
  clear_value start
  split at h
  · cases h
    exact ⟨_, rfl⟩
  · simp only [Option.bind_eq_bind] at h
    split at h
    · rw [Option.bind_eq_some_iff] at h
      obtain ⟨st, _, h⟩ := h
      cases h
      exact ⟨_, rfl⟩
    · cases h
      exact ⟨_, rfl⟩

/-- A process answers a disconnect once, and only what it was asked. -/
theorem perform_disconnects (th : AbilityThread) (env : Env) (sid : SvcIdentity)
    (m : Transaction) (t : Token) :
    (th.perform env sid m).2.countP (·.saysDisconnected t) ≤ if m.asksDisconnect t then 1 else 0 := by
  cases m with
  | appInit => exact Nat.zero_le _
  | appExit => exact Nat.zero_le _
  | lifecycle state want type =>
    simp only [AbilityThread.perform]
    split
    · exact Nat.zero_le _
    · next hperform =>
      obtain ⟨reached, rfl⟩ := performTransactAbilityState_reply hperform
      exact Nat.zero_le _
  | connect want token =>
    simp only [AbilityThread.perform]
    split
    · exact Nat.zero_le _
    · exact Nat.zero_le _
  | disconnect want token =>
    simp only [AbilityThread.perform]
    split
    · exact Nat.zero_le _
    · rw [List.countP_singleton]
      exact Nat.le_refl _

end AbilityThread

namespace System
variable {gen : TokenGenerate} {env : Env} {s s' : System} {e : Event}

theorem takeFirst_countP {α : Type} {a : Nat} {x : α} {q q' : List (Nat × α)}
    (h : takeFirst a q = some (x, q')) (p : α → Bool) :
    q.countP (p ·.2) = q'.countP (p ·.2) + if p x then 1 else 0 := by
  induction q generalizing q' with
  | nil => cases h
  | cons c q ih =>
    obtain ⟨b, y⟩ := c
    simp only [takeFirst] at h
    split at h
    · cases h
      rw [List.countP_cons]
    · rw [Option.map_eq_some_iff] at h
      obtain ⟨⟨x', q₁⟩, h₁, h⟩ := h
      cases h
      simp only [List.countP_cons, ih h₁]
      omega

/-- How many answers to a disconnect of a service AMS has not handled. -/
def answered (s : System) (t : Token) : Nat := s.replies.countP (·.2.saysDisconnected t)

/-- AMS handles the answer to a connect of a service it has since asked to disconnect. -/
def lateConnectDone (s : System) (e : Event) : Bool :=
  match e with
  | .reply a =>
    match takeFirst a s.replies with
    | some (.connectDone _ token, _) =>
      decide (token ∈ s.ams.serviceRecords) &&
        (s.ams.records token).any (·.connectStatus = .disconnecting)
    | _ => false
  | _ => false

theorem Happens.linked (hs : s.ams.Linked gen s.answered) (hknown : s.ams.Known gen)
    (hlate : s.lateConnectDone e = false) (h : Happens gen env s e s') :
    s'.ams.Linked gen s'.answered := by
  cases h with
  | request h => exact hs.requestMsg hknown h
  | requestFault => exact hs
  | @reply a r replies ams htake h =>
    have hanswered (t : Token) : s.answered t =
        replies.countP (·.2.saysDisconnected t) + if r.saysDisconnected t then 1 else 0 :=
      takeFirst_countP htake _
    have hfewer : s.ams.Linked gen fun t => replies.countP (·.2.saysDisconnected t) := by
      refine hs.fewer (fun t => Nat.add_le_add_right ?_ _) rfl rfl
      rw [hanswered]
      exact Nat.le_add_right _ _
    cases r with
    | lifecycleDone state => exact hfewer.transactionMsg h
    | connectDone sid token =>
      simp only [AbilityMgr.replyMsg, bind_eq_ok] at h
      obtain ⟨⟨status, s₁⟩, h₁, h⟩ := h
      cases h
      refine hfewer.connectDoneTask (fun r hmem hr hst => ?_) h₁
      simp [lateConnectDone, htake, hmem, hr, hst] at hlate
    | disconnectDone token =>
      simp only [AbilityMgr.replyMsg, bind_eq_ok] at h
      obtain ⟨⟨status, s₁⟩, h₁, h⟩ := h
      cases h
      refine AbilityMgr.Linked.disconnectDoneTask (hs.fewer (fun t => ?_) rfl rfl) h₁
      rw [hanswered]
      simp only [Reply.saysDisconnected, decide_eq_true_eq]
      exact Nat.le_refl _
  | @replyFault a r replies f htake h =>
    refine hs.fewer (fun t => Nat.add_le_add_right ?_ _) rfl rfl
    have hanswered : s.answered t = replies.countP (·.2.saysDisconnected t) +
        if r.saysDisconnected t then 1 else 0 := takeFirst_countP htake _
    rw [hanswered]
    exact Nat.le_add_right _ _
  | @perform a sid m sent hrun htake =>
    refine hs.fewer (fun t => ?_) rfl rfl
    have hsent : s.ams.asked t = sent.countP (·.2.asksDisconnect t) + if m.asksDisconnect t then 1 else 0 :=
      takeFirst_countP htake _
    have hanswers := (s.threads a).perform_disconnects env sid m t
    have happend : (s.replies ++ ((s.threads a).perform env sid m).2.map fun r => (a, r)).countP
        (·.2.saysDisconnected t) = s.answered t +
          ((s.threads a).perform env sid m).2.countP (·.saysDisconnected t) := by
      rw [List.countP_append, List.countP_map]
      rfl
    show List.countP _ (_ ++ _) + sent.countP (·.2.asksDisconnect t) ≤ _
    rw [happend, hsent]
    omega

/-- In every state a run reaches whose steps handle no late answer to a connect, the services are
settled, and a service that was asked to disconnect takes no client. -/
theorem linked_of_reached (h : Reached (System.next gen) (fun s e => s.lateConnectDone e.2 = false)
    IsInit s) : s.ams.Sound gen ∧ s.ams.Linked gen s.answered := by
  have hinit : ∀ s, IsInit s → s.ams.Sound gen ∧ s.ams.Linked gen s.answered := by
    rintro s rfl
    refine ⟨⟨shape_init, known_init⟩, fun _ => Nat.zero_le _, fun _ hpos => ?_, fun _ _ hpos => ?_,
      fun _ _ hr => ?_⟩
    · exact absurd hpos (Nat.lt_irrefl 0)
    · exact absurd hpos (Nat.lt_irrefl 0)
    · cases hr
  have hstep : ∀ s e s', (s.ams.Sound gen ∧ s.ams.Linked gen s.answered) →
      s.lateConnectDone e.2 = false → System.next gen s e = some s' →
      s'.ams.Sound gen ∧ s'.ams.Linked gen s'.answered := by
    rintro s ⟨env, e⟩ s' ⟨hsound, hlinked⟩ hlate hnext
    have hhappens := (next_cases hnext).2
    exact ⟨hhappens.sound hsound, hhappens.linked hlinked hsound.known hlate⟩
  exact Reached.invariant hinit hstep h

/-- A client of a service is never left on a dead connection in a run in which no answer to a connect
comes in after its service was asked to disconnect. While such a disconnect is on its way or its
answer is, no client is taken. -/
theorem clients_connected (h : Reached (System.next gen) (fun s e => s.lateConnectDone e.2 = false)
    IsInit s) :
    (∀ t ∈ s.ams.serviceRecords, ∀ r, s.ams.records t = some r → r.connectRecords ≠ [] →
      r.connectStatus ≠ .init ∧ r.connectStatus ≠ .disconnect) ∧
    ∀ t r, s.ams.records t = some r → 0 < s.answered t + s.ams.asked t → AbilityMgr.Leaving r := by
  obtain ⟨-, hlinked⟩ := linked_of_reached h
  refine ⟨fun t _ r hr hne => (hlinked.settled t r hr).live hne, fun t r hr hpos => ?_⟩
  rcases hlinked.leaving t r hpos hr with hst | hstop
  · exact .inl hst
  · exact .inr (.inr (isPerformStop_eq.mp hstop))

/-! ## A service and two clients -/

def tokens : TokenGenerate := ⟨id, fun _ _ h => h⟩

def serviceBundle : BundleInfo where
  bundleName := some (cstr "b")
  codePath := some (cstr "p")
  dataPath := some (cstr "d")
  moduleInfos := [some (cstr "m")]

def serviceInfo : AbilityInfo where
  bundleName := some (cstr "b")
  name := some (cstr "s")
  abilityType := .service
  isVisible := true

def serviceWant : Want :=
  { element := some { bundleName := some (cstr "b"), abilityName := some (cstr "s") } }

/-- Everything outside AMS works. -/
def serviceEnv : Env where
  queryBundleInfo _ := some serviceBundle
  queryAbilityInfo _ := some serviceInfo
  bundleNameForUid _ := none
  spawn _ := some 7
  serializes _ := true
  sends _ _ := true
  notifies _ _ := true
  addDeathRecipient _ := true
  loadPermissions _ := none
  loads _ := true

def firstConnect : Event := .connectAbility serviceWant ⟨1, 1⟩ 100 5

/-- A client has the service started and connected, another joins, and the first one leaves. -/
def comeAndGo : List (Env × Event) :=
  [firstConnect, .attachBundle ⟨1, 7, ⟨9, 9⟩⟩, .perform 1 ⟨0, 0⟩, .perform 1 ⟨0, 0⟩, .reply 1,
    .perform 1 ⟨3, 3⟩, .reply 1, .connectAbility serviceWant ⟨2, 2⟩ 200 5,
    .disconnectAbility ⟨1, 1⟩ 100].map fun e => (serviceEnv, e)

/-- The last client leaves, and the service has answered. -/
def lastLeaves : List (Env × Event) :=
  [.disconnectAbility ⟨2, 2⟩ 200, .perform 1 ⟨0, 0⟩].map fun e => (serviceEnv, e)

/-- The service is connected for the client that stays, and is leaving once it is gone too. -/
theorem clients_connected_first :
    ∃ s s', run (System.next tokens) {} comeAndGo = some s ∧ run (System.next tokens) s lastLeaves = some s' ∧
      (∃ r, s.ams.records 0 = some r ∧ r.connectRecords.map (·.abilityToken) = [200] ∧
        r.connectStatus ≠ .init ∧ r.connectStatus ≠ .disconnect) ∧
      s'.answered 0 = 1 ∧ ∃ r, s'.ams.records 0 = some r ∧ AbilityMgr.Leaving r := by
  have h : ((runIf (System.next tokens) (fun s e => !s.lateConnectDone e.2) {} comeAndGo).bind fun s =>
      (runIf (System.next tokens) (fun s e => !s.lateConnectDone e.2) s lastLeaves).map fun s' =>
        (decide (0 ∈ s.ams.serviceRecords),
          (s.ams.records 0).map (fun r => r.connectRecords.map (·.abilityToken)),
          s'.answered 0, (s'.ams.records 0).isSome)) = some (true, some [200], 1, true) := by decide
  obtain ⟨s, hs, h⟩ := Option.bind_eq_some_iff.mp h
  obtain ⟨s', hs', h⟩ := Option.map_eq_some_iff.mp h
  simp only [Prod.mk.injEq, decide_eq_true_eq, Option.map_eq_some_iff] at h
  obtain ⟨hservice, ⟨r, hr, hclients⟩, hanswered, hsome⟩ := h
  obtain ⟨r', hr'⟩ := Option.isSome_iff_exists.mp hsome
  have hreached : Reached (System.next tokens) (fun s e => s.lateConnectDone e.2 = false) IsInit s :=
    Reached.of_runIf (.init rfl) (fun e _ s hs => by simpa using hs) hs
  have hreached' : Reached (System.next tokens) (fun s e => s.lateConnectDone e.2 = false) IsInit s' :=
    hreached.of_runIf (fun e _ s hs => by simpa using hs) hs'
  have hne : r.connectRecords ≠ [] := by
    intro hnone
    rw [hnone] at hclients
    cases hclients
  have hpos : 0 < s'.answered 0 + s'.ams.asked 0 := by omega
  exact ⟨s, s', run_of_runIf _ hs, run_of_runIf _ hs',
    ⟨r, hr, hclients, (clients_connected hreached).1 0 hservice r hr hne⟩,
    hanswered, r', hr', (clients_connected hreached').2 0 r' hr' hpos⟩

/-- A client leaves before its connect is answered, and another joins after the answer: the service is
connected for it, and then it is not. -/
def lateRun : List (Env × Event) :=
  [firstConnect, .attachBundle ⟨1, 7, ⟨9, 9⟩⟩, .perform 1 ⟨0, 0⟩, .perform 1 ⟨0, 0⟩, .reply 1,
    .disconnectAbility ⟨1, 1⟩ 100, .perform 1 ⟨3, 3⟩, .reply 1,
    .connectAbility serviceWant ⟨2, 2⟩ 200 5, .perform 1 ⟨0, 0⟩, .reply 1].map fun e => (serviceEnv, e)

theorem lateRun_disconnects :
    ∃ s, Reached (System.next tokens) (fun _ _ => True) IsInit s ∧
      (∃ t ∈ s.ams.serviceRecords, ∃ r, s.ams.records t = some r ∧ r.connectRecords ≠ [] ∧
        r.connectStatus = .disconnect) ∧
      (⟨2, 2⟩, Callback.connectDone serviceWant.element ⟨3, 3⟩) ∈ s.ams.callbacks := by
  have h : ((run (System.next tokens) {} lateRun).map fun s =>
      (decide (0 ∈ s.ams.serviceRecords), (s.ams.records 0).map fun r =>
        (decide (r.connectRecords = []), r.connectStatus), s.ams.callbacks)) =
      some (true, some (false, .disconnect),
        [(⟨2, 2⟩, .connectDone serviceWant.element ⟨3, 3⟩)]) := by decide
  obtain ⟨s, hs, hfinal⟩ := Option.map_eq_some_iff.mp h
  simp only [Prod.mk.injEq, decide_eq_true_eq, Option.map_eq_some_iff] at hfinal
  obtain ⟨hmem, ⟨r, hr, hempty, hstatus⟩, hcallbacks⟩ := hfinal
  refine ⟨s, Reached.of_run (.init rfl) _ hs, ⟨0, hmem, r, hr, of_decide_eq_false hempty, hstatus⟩, ?_⟩
  rw [hcallbacks]
  exact List.mem_singleton.mpr rfl

end System
end AbilityLite.Ams
