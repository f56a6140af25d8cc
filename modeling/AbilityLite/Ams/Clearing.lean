import AbilityLite.Ams.FailedStart

/-
  What `ClearAbilityStack` leaves of a bundle, and what it does to the others: the
  services of the bundle go, then its mission with its pages, and with each page its
  connections to the services of other bundles.
-/

namespace AbilityLite.Ams
open AbilityMsStatus Fallible Relation

/-- A transaction that asks an ability to come to the front. -/
def Transaction.activates : Transaction → Bool
  | .lifecycle state _ _ => state.state = .active
  | _ => false

namespace AbilityMgr
variable {gen : TokenGenerate} {env : Env} {s s' : AbilityMgr} {t : Token} {a id : Nat}
  {st : StackType} {status : AbilityMsStatus} {m : AbilityMissionRecord} {name : CString}

/-- The missions are the same, and no ability was asked to come to the front. -/
structure Apart (s s' : AbilityMgr) : Prop where
  stack : ∀ st, s'.stack st = s.stack st
  top : s'.topMissionStacks = s.topMissionStacks
  sent : ∃ l, s'.sent = s.sent ++ l ∧ ∀ x ∈ l, x.2.activates = false

namespace Apart

theorem of_same (hlauncher : s'.launcherMissionStacks = s.launcherMissionStacks)
    (hdefault : s'.defaultMissionStacks = s.defaultMissionStacks)
    (htop : s'.topMissionStacks = s.topMissionStacks) (hsent : s'.sent = s.sent) : Apart s s' := by
  refine ⟨fun st => ?_, htop, [], ?_, fun x hx => (by cases hx)⟩
  · cases st
    · exact hlauncher
    · exact hdefault
  · rw [hsent, List.append_nil]

theorem refl (s : AbilityMgr) : Apart s s := .of_same rfl rfl rfl rfl

theorem trans {s s' s'' : AbilityMgr} (h : Apart s s') (h' : Apart s' s'') : Apart s s'' := by
  obtain ⟨l, hl, hno⟩ := h.sent
  obtain ⟨l', hl', hno'⟩ := h'.sent
  refine ⟨fun st => (h'.stack st).trans (h.stack st), h'.top.trans h.top, l ++ l', ?_, fun x hx => ?_⟩
  · rw [hl', hl, List.append_assoc]
  · rcases List.mem_append.mp hx with hx | hx
    · exact hno x hx
    · exact hno' x hx

theorem send {m : Transaction} (h : m.activates = false) : Apart s (s.send a m) := by
  refine ⟨fun st => ?_, rfl, [(a, m)], rfl, fun x hx => ?_⟩
  · cases st <;> rfl
  · rw [List.mem_singleton.mp hx]
    exact h

end Apart

/-! ## Services and their clients -/

/-- What the clients of a service see of it. -/
def clients (s : AbilityMgr) (t : Token) : Option (AbilityInfo × List AbilityConnectRecord) :=
  (s.records t).map fun r => (r.abilityInfo, r.connectRecords)

/-- An ability of a bundle. -/
def ofBundle (s : AbilityMgr) (name : CString) (t : Token) : Bool :=
  (s.clients t).any (·.1.bundleName = some name)

theorem clients_eq_some {x : AbilityInfo × List AbilityConnectRecord} :
    s.clients t = some x ↔ ∃ r, s.records t = some r ∧ (r.abilityInfo, r.connectRecords) = x :=
  Option.map_eq_some_iff

theorem ofBundle_iff {r : PageAbilityRecord} (hr : s.records t = some r) :
    s.ofBundle name t = true ↔ r.abilityInfo.bundleName = some name := by
  unfold ofBundle clients
  rw [hr, Option.map_some, Option.any_some, decide_eq_true_eq]

theorem ofBundle_congr (h : s'.clients t = s.clients t) : s'.ofBundle name t = s.ofBundle name t := by
  unfold ofBundle
  rw [h]

theorem clients_modify {f : PageAbilityRecord → PageAbilityRecord}
    (hf : ∀ r, (f r).abilityInfo = r.abilityInfo ∧ (f r).connectRecords = r.connectRecords) (p : Token) :
    (s.modify t f).clients p = s.clients p := by
  show ((s.records.modify t f) p).map _ = _
  by_cases hp : p = t
  · subst hp
    rw [Store.modify_same, Option.map_map]
    refine Option.map_congr fun r _ => ?_
    simp only [Function.comp_apply, hf r]
  · rw [Store.modify_ne _ _ hp]
    rfl

theorem clients_send (m : Transaction) (p : Token) : (s.send a m).clients p = s.clients p := by
  cases m with
  | lifecycle state want type =>
    have hf (r : PageAbilityRecord) :
        r.transact.abilityInfo = r.abilityInfo ∧ r.transact.connectRecords = r.connectRecords :=
      ⟨rfl, rfl⟩
    exact clients_modify (s := s) (t := state.token) hf p
  | _ => rfl

theorem callbackTransactions_eq {m : Callback} {l : List AbilityConnectRecord}
    (h : callbackTransactions env a m l s = .ok s') : ∃ callbacks, s' = { s with callbacks } := by
  induction l generalizing s with
  | nil =>
    cases h
    exact ⟨s'.callbacks, rfl⟩
  | cons c cs ih =>
    simp only [callbackTransactions, callbackTransaction, bind_eq_ok, appRecord_eq_ok] at h
    obtain ⟨s₁, ⟨app, _, h₁⟩, h⟩ := h
    obtain ⟨callbacks, rfl⟩ := ih h
    cases hclient : app.abilityThreadClient with
    | none =>
      rw [hclient] at h₁
      cases h₁
      exact ⟨callbacks, rfl⟩
    | some client =>
      rw [hclient] at h₁
      cases h₁
      unfold notify
      split <;> exact ⟨callbacks, rfl⟩

theorem stopAbilityDone_apart (h : s.stopAbilityDone env t = .ok (status, s')) :
    Apart s s' ∧ s'.serviceRecords = s.serviceRecords ∧ ∀ p, s'.clients p = s.clients p := by
  obtain ⟨r, hr, ⟨_, _, rfl⟩ | ⟨a, ha, h⟩⟩ := service_cases h
  · exact ⟨.refl s', rfl, fun _ => rfl⟩
  · simp only [bind_eq_ok] at h
    obtain ⟨s₁, h₁, h⟩ := h
    cases h
    obtain ⟨callbacks, rfl⟩ := callbackTransactions_eq h₁
    exact ⟨.of_same rfl rfl rfl rfl, rfl, clients_modify fun _ => ⟨rfl, rfl⟩⟩

theorem delete_apart (h : s.delete t = .ok s') : Apart s s' ∧ s'.serviceRecords = s.serviceRecords ∧
    s'.clients t = none ∧ ∀ p, p ≠ t → s'.clients p = s.clients p := by
  obtain ⟨r, hr, ⟨_, rfl⟩ | ⟨a, app, _, _, rfl⟩⟩ := delete_cases h
  all_goals
    refine ⟨.of_same rfl rfl rfl rfl, rfl, ?_, fun p hp => ?_⟩
    · exact congrArg _ (Store.erase_same s.records)
    · exact congrArg _ (Store.erase_ne s.records hp)

/-- The services of a bundle are gone, and nothing else. -/
theorem removeServiceRecords_apart {ts : List Token}
    (h : removeServiceRecords env name ts s = .ok s') : Apart s s' ∧
      (∀ p, p ∈ s'.serviceRecords ↔ p ∈ s.serviceRecords ∧ ¬ (p ∈ ts ∧ s.ofBundle name p = true)) ∧
      ∀ p, s.ofBundle name p = false → s'.clients p = s.clients p := by
  induction ts generalizing s with
  | nil =>
    cases h
    exact ⟨.refl s', fun p => ⟨fun hp => ⟨hp, fun hmem => (by cases hmem.1)⟩, And.left⟩, fun _ _ => rfl⟩
  | cons t ts ih =>
    obtain ⟨r, hr, ⟨hother, h⟩ | ⟨hbundle, status, s₁, s₂, h₁, h₂, h⟩⟩ := removeServiceRecords_cons h
    · obtain ⟨hapart, hservices, hclients⟩ := ih h
      refine ⟨hapart, fun p => (hservices p).trans (and_congr_right fun _ => not_congr ?_), hclients⟩
      refine ⟨fun hp => ⟨List.mem_cons_of_mem _ hp.1, hp.2⟩, fun hp => ⟨?_, hp.2⟩⟩
      rcases List.mem_cons.mp hp.1 with rfl | hmem
      · exact absurd ((ofBundle_iff hr).mp hp.2) hother
      · exact hmem
    · obtain ⟨hapart₁, hservices₁, hclients₁⟩ := stopAbilityDone_apart h₁
      obtain ⟨hapart₂, hservices₂, hgone, hclients₂⟩ := delete_apart h₂
      obtain ⟨hapart, hservices, hclients⟩ := ih h
      have hlist : Apart s₁ { s₁ with serviceRecords := s₁.serviceRecords.filter (· ≠ t) } :=
        .of_same rfl rfl rfl rfl
      have hsame {p : Token} (hp : p ≠ t) : s₂.clients p = s.clients p :=
        (hclients₂ p hp).trans (hclients₁ p)
      refine ⟨((hapart₁.trans hlist).trans hapart₂).trans hapart, fun p => ?_, fun p hp => ?_⟩
      · rw [hservices p, hservices₂]
        dsimp only
        rw [List.mem_filter, hservices₁, decide_eq_true_eq]
        by_cases hpt : p = t
        · subst hpt
          refine iff_of_false (fun hp => hp.1.2 rfl) fun hp => hp.2 ⟨List.mem_cons_self, ?_⟩
          exact (ofBundle_iff hr).mpr hbundle
        · rw [ofBundle_congr (hsame hpt), List.mem_cons, or_iff_right hpt]
          exact and_congr_left fun _ => and_iff_left hpt
      · have hpt : p ≠ t := by
          rintro rfl
          rw [(ofBundle_iff hr).mpr hbundle] at hp
          cases hp
        rw [hclients p (by rw [ofBundle_congr (hsame hpt), hp]), hsame hpt]

/-! ## Connections -/

/-- A service of another bundle without the clients that are gone. -/
def without (name : CString) (gone : List Token) (x : AbilityInfo × List AbilityConnectRecord) :
    AbilityInfo × List AbilityConnectRecord :=
  (x.1, if x.1.bundleName.isSome ∧ x.1.bundleName ≠ some name then
    x.2.filter (·.abilityToken ∉ gone) else x.2)

theorem without_nil (x : AbilityInfo × List AbilityConnectRecord) : without name [] x = x := by
  unfold without
  split
  · rw [List.filter_eq_self.mpr fun c _ => decide_eq_true List.not_mem_nil]
  · rfl

theorem without_cons (gone : List Token) (x : AbilityInfo × List AbilityConnectRecord) :
    without name gone (without name [t] x) = without name (t :: gone) x := by
  unfold without
  by_cases hother : x.1.bundleName.isSome ∧ x.1.bundleName ≠ some name
  · simp only [if_pos hother, List.filter_filter]
    congr 1
    refine List.filter_congr fun c _ => ?_
    rw [← Bool.decide_and, decide_eq_decide]
    simp only [List.mem_cons, List.not_mem_nil, or_false, not_or]
    exact and_comm
  · simp only [if_neg hother]

theorem removeConnectRecordByPageToken_apart {token : Token}
    (h : s.removeConnectRecordByPageToken env t token = .ok s') : Apart s s' ∧
      s'.serviceRecords = s.serviceRecords ∧
      s'.clients t = (s.clients t).map (fun x => (x.1, x.2.filter (·.abilityToken ≠ token))) ∧
      ∀ p, p ≠ t → s'.clients p = s.clients p := by
  simp only [removeConnectRecordByPageToken, bind_eq_ok, record_eq_ok] at h
  obtain ⟨r, hr, h⟩ := h
  have hold : s.clients t = some (r.abilityInfo, r.connectRecords) := clients_eq_some.mpr ⟨r, hr, rfl⟩
  rw [hold, Option.map_some]
  by_cases hempty : r.connectRecords = []
  · rw [if_pos hempty] at h
    cases h
    rw [hempty] at hold ⊢
    exact ⟨.refl s, rfl, hold, fun _ _ => rfl⟩
  · rw [if_neg hempty] at h
    generalize hs₁ : s.modify t (·.setConnectRecords (r.connectRecords.filter (·.abilityToken ≠ token))) =
      s₁ at h
    have hedit : Apart s s₁ ∧ s₁.serviceRecords = s.serviceRecords ∧
        s₁.clients t = some (r.abilityInfo, r.connectRecords.filter (·.abilityToken ≠ token)) ∧
        ∀ p, p ≠ t → s₁.clients p = s.clients p := by
      subst hs₁
      refine ⟨.of_same rfl rfl rfl rfl, rfl, clients_eq_some.mpr ⟨_, modify_self hr, rfl⟩, fun p hp => ?_⟩
      exact congrArg _ (Store.modify_ne s.records _ hp)
    obtain ⟨hapart, hservices, hself, hother⟩ := hedit
    split at h
    · simp only [bind_eq_ok] at h
      obtain ⟨⟨status, s₂⟩, h₂, h⟩ := h
      cases h
      obtain ⟨r₂, _, ⟨_, _, rfl⟩ | ⟨_, _, rfl⟩ | ⟨_, _, r₃, b, _, _, _, rfl⟩⟩ := stopAbility_cases h₂
      · exact ⟨hapart, hservices, hself, hother⟩
      · exact ⟨hapart, hservices, hself, hother⟩
      · have hsend : Apart s₁ (s₁.send b (.lifecycle { token := t, state := .initial } r₃.want
            r₃.abilityInfo.abilityType)) := .send rfl
        refine ⟨hapart.trans hsend, hservices, ?_, fun p hp => ?_⟩
        · rw [clients_send]
          exact hself
        · rw [clients_send]
          exact hother p hp
    · cases h
      exact ⟨hapart, hservices, hself, hother⟩

/-- An ability is gone from the clients of every service it looked at. -/
theorem removeConnectRecords_apart {token : Token} {ts : List Token}
    (h : removeConnectRecords env token name ts s = .ok s') : Apart s s' ∧
      s'.serviceRecords = s.serviceRecords ∧
      (∀ p, p ∈ ts → s'.clients p = (s.clients p).map (without name [token])) ∧
      ∀ p, p ∉ ts → s'.clients p = s.clients p := by
  induction ts generalizing s with
  | nil =>
    cases h
    exact ⟨.refl s', rfl, fun p hp => (by cases hp), fun _ _ => rfl⟩
  | cons t ts ih =>
    simp only [removeConnectRecords, bind_eq_ok, record_eq_ok] at h
    obtain ⟨r, hr, h⟩ := h
    have hold : s.clients t = some (r.abilityInfo, r.connectRecords) := clients_eq_some.mpr ⟨r, hr, rfl⟩
    have hstep : ∃ s₁, Apart s s₁ ∧ s₁.serviceRecords = s.serviceRecords ∧
        s₁.clients t = (s.clients t).map (without name [token]) ∧
        (∀ p, p ≠ t → s₁.clients p = s.clients p) ∧ removeConnectRecords env token name ts s₁ = .ok s' := by
      split at h
      · next hother =>
        simp only [bind_eq_ok] at h
        obtain ⟨s₁, h₁, h⟩ := h
        obtain ⟨hapart, hservices, hself, hothers⟩ := removeConnectRecordByPageToken_apart h₁
        refine ⟨s₁, hapart, hservices, ?_, hothers, h⟩
        rw [hself, hold, Option.map_some, Option.map_some, without, if_pos hother]
        congr 2
        refine List.filter_congr fun c _ => ?_
        rw [decide_eq_decide, List.mem_singleton]
      · next hother =>
        refine ⟨s, .refl s, rfl, ?_, fun _ _ => rfl, h⟩
        rw [hold, Option.map_some, without, if_neg hother]
    obtain ⟨s₁, hapart₁, hservices₁, hself, hothers, h⟩ := hstep
    obtain ⟨hapart, hservices, hin, hout⟩ := ih h
    refine ⟨hapart₁.trans hapart, hservices.trans hservices₁, fun p hp => ?_, fun p hp => ?_⟩
    · by_cases hmem : p ∈ ts
      · rw [hin p hmem]
        by_cases hpt : p = t
        · rw [hpt, hself, Option.map_map]
          refine Option.map_congr fun x _ => ?_
          rw [Function.comp_apply, without_cons]
          unfold without
          simp only [List.mem_cons, List.not_mem_nil, or_false, or_self]
        · rw [hothers p hpt]
      · rw [hout p hmem]
        have hpt : p = t := (List.mem_cons.mp hp).resolve_right hmem
        rw [hpt, hself]
    · rw [List.mem_cons, not_or] at hp
      rw [hout p hp.2, hothers p hp.1]

/-- The pages of a bundle go, and with them their connections to the services of others. -/
theorem clearPageAbility_apart {ts : List Token}
    (h : clearPageAbility env (some name) ts s = .ok s') : Apart s s' ∧
      s'.serviceRecords = s.serviceRecords ∧
      ∀ p, p ∈ s.serviceRecords → p ∉ ts → s'.clients p = (s.clients p).map (without name ts) := by
  induction ts generalizing s with
  | nil =>
    cases h
    refine ⟨.refl s', rfl, fun p _ _ => ?_⟩
    rw [Option.map_congr fun x _ => without_nil x, Option.map_id']
  | cons t ts ih =>
    simp only [clearPageAbility, bind_eq_ok] at h
    obtain ⟨s₁, h₁, s₂, h₂, h⟩ := h
    obtain ⟨hapart₁, hservices₁, hin, -⟩ := removeConnectRecords_apart h₁
    obtain ⟨hapart₂, hservices₂, -, hothers⟩ := delete_apart h₂
    obtain ⟨hapart, hservices, hclients⟩ := ih h
    refine ⟨(hapart₁.trans hapart₂).trans hapart, hservices.trans (hservices₂.trans hservices₁),
      fun p hp hts => ?_⟩
    rw [List.mem_cons, not_or] at hts
    rw [hclients p (by rw [hservices₂, hservices₁]; exact hp) hts.2, hothers p hts.1, hin p hp,
      Option.map_map]
    exact Option.map_congr fun x _ => without_cons ts x

/-! ## What is left of a bundle -/

/-- An ability of a bundle that is on a mission or on the list of services. -/
def ListedOf (s : AbilityMgr) (name : CString) (t : Token) : Prop :=
  s.Listed t ∧ s.ofBundle name t = true

/-- The bundle has no mission and no ability, and none that it had is a client of a service of
another bundle. -/
structure LeavesNothing (name : CString) (s s' : AbilityMgr) : Prop where
  mission : ∀ st, ∀ m ∈ s'.stack st, m.bundleName ≠ some name
  ability : ∀ t, ¬ s'.ListedOf name t
  client : ∀ t ∈ s'.serviceRecords, ∀ r, s'.records t = some r → r.abilityInfo.bundleName ≠ some name →
    ∀ c ∈ r.connectRecords, ¬ s.ListedOf name c.abilityToken

/-- The abilities of a bundle that are clients of services of other bundles are pages, and those
services have a bundle name. -/
def ClientsArePages (s : AbilityMgr) (name : CString) : Prop :=
  ∀ t ∈ s.serviceRecords, ∀ r, s.records t = some r → r.abilityInfo.bundleName ≠ some name →
    ∀ c ∈ r.connectRecords, s.ListedOf name c.abilityToken →
      r.abilityInfo.bundleName.isSome ∧ c.abilityToken ∉ s.serviceRecords

/-- The pages of the mission of a bundle. -/
def pagesOf (s : AbilityMgr) (name : CString) : List Token :=
  ((s.getTargetMissionRecord (targetStack (some name)) (some name)).map
    (·.pageAbilityRecords)).getD []

theorem Shape.getTargetMissionRecord_eq_some (h : s.Shape) :
    s.getTargetMissionRecord st (some name) = some m ↔ m ∈ s.stack st ∧ m.bundleName = some name := by
  constructor
  · intro hm
    obtain ⟨hmem, hname, -⟩ := getTargetMissionRecord_mem hm
    exact ⟨hmem, hname⟩
  · rintro ⟨hmem, hname⟩
    cases hm : s.getTargetMissionRecord st (some name) with
    | none => exact absurd hname (getTargetMissionRecord_none hm rfl m hmem)
    | some m' =>
      obtain ⟨hmem', hname', -⟩ := getTargetMissionRecord_mem hm
      rw [h.names st m' hmem' m hmem name hname' hname]

/-- The mission of a bundle is the one on the stack of the bundle that has its name. -/
theorem Shape.mission_of (h : s.Shape) (hm : m ∈ s.stack st) (hname : m.bundleName = some name) :
    st = targetStack (some name) ∧
      s.getTargetMissionRecord (targetStack (some name)) (some name) = some m := by
  have hst : targetStack (some name) = st := by
    rw [← hname, (h.missions m (mem_all_of_stack hm)).home, h.listed st m hm]
  subst hst
  exact ⟨rfl, h.getTargetMissionRecord_eq_some.mpr ⟨hm, hname⟩⟩

theorem Shape.getTargetMissionRecord_congr (h : s.Shape) (h' : s'.Shape)
    (hmem : ∀ m, m ∈ s'.stack st ↔ m ∈ s.stack st) :
    s'.getTargetMissionRecord st (some name) = s.getTargetMissionRecord st (some name) := by
  refine Option.ext fun m => ?_
  rw [h.getTargetMissionRecord_eq_some, h'.getTargetMissionRecord_eq_some, hmem]

theorem Shape.listedOf_iff (h : s.Shape) :
    s.ListedOf name t ↔ t ∈ s.pagesOf name ∨ (t ∈ s.serviceRecords ∧ s.ofBundle name t = true) := by
  unfold ListedOf pagesOf
  constructor
  · rintro ⟨⟨st, m, hm, ht⟩ | ht, hbundle⟩
    · obtain ⟨r, hr, -, -, hname⟩ := (h.missions m (mem_all_of_stack hm)).placed t ht
      rw [ofBundle_iff hr, hname] at hbundle
      rw [(h.mission_of hm hbundle).2]
      exact .inl ht
    · exact .inr ⟨ht, hbundle⟩
  · rintro (ht | ⟨ht, hbundle⟩)
    · cases hm : s.getTargetMissionRecord (targetStack (some name)) (some name) with
      | none =>
        rw [hm] at ht
        cases ht
      | some m =>
        rw [hm] at ht
        obtain ⟨hmem, hname⟩ := h.getTargetMissionRecord_eq_some.mp hm
        obtain ⟨r, hr, -, -, hbundle⟩ := (h.missions m (mem_all_of_stack hmem)).placed t ht
        exact ⟨.inl ⟨_, m, hmem, ht⟩, (ofBundle_iff hr).mpr (hbundle.trans hname)⟩
    · exact ⟨.inr ht, hbundle⟩

theorem Shape.removeServiceRecords (h : s.Shape)
    (hs : removeServiceRecords env name s.serviceRecords s = .ok s') : s'.Shape := by
  have hboth : s'.Shape ∧ ReflTransGen (Quiet ⟨id, fun _ _ h => h⟩ env) s s' :=
    removeServiceRecords_shape h h.allServices hs
  exact hboth.1

theorem Shape.clearAbilityStack (h : s.Shape) (hs : s.clearAbilityStack env name = .ok s') : s'.Shape := by
  have hboth : s'.Shape ∧ ReflTransGen (Quiet ⟨id, fun _ _ h => h⟩ env) s s' :=
    clearAbilityStack_shape h hs
  exact hboth.1

theorem stack_dropMission {st' : StackType} :
    (s.dropMission st id).stack st' = (s.removeMissionRecord st id).stack st' := by
  cases st' <;> rfl

theorem Shape.pagesOf_not_service (h : s.Shape) (ht : t ∈ s.pagesOf name) : t ∉ s.serviceRecords := by
  unfold pagesOf at ht
  cases hm : s.getTargetMissionRecord (targetStack (some name)) (some name) with
  | none =>
    rw [hm] at ht
    cases ht
  | some m =>
    rw [hm] at ht
    exact h.page_not_service (mem_all_of_stack (h.getTargetMissionRecord_eq_some.mp hm).1) ht

/-- Bringing another mission up neither adds nor removes one. -/
theorem returnFrom_keeps (h : s.Shape) (hs : s.returnFrom name = .ok s') :
    (∀ st m, m ∈ s'.stack st ↔ m ∈ s.stack st) ∧ s'.records = s.records ∧
      s'.serviceRecords = s.serviceRecords ∧ s'.sent = s.sent := by
  rcases returnFrom_cases hs with rfl | rfl | ⟨m, prev, -, -, hmove⟩
  · exact ⟨fun _ _ => Iff.rfl, rfl, rfl, rfl⟩
  · exact ⟨fun st _ => (by cases st <;> exact Iff.rfl), rfl, rfl, rfl⟩
  · obtain ⟨l, hl, rfl⟩ := moveMissionRecordToTop_cases hmove
    obtain ⟨hperm, -⟩ := moveToTop_ok hl (h.stack_ids _)
    refine ⟨fun st m => ?_, records_setStack l, services_setStack l, sent_setStack l⟩
    by_cases hst : st = targetStack (some name)
    · subst hst
      rw [stack_setStack_same]
      exact hperm.mem_iff
    · rw [stack_setStack_ne l hst]

/-- The three parts of `ClearAbilityStack`; the mission of the bundle goes with its pages. -/
theorem clearAbilityStack_split (h : s.Shape) (hs : s.clearAbilityStack env name = .ok s') :
    ∃ s₁ s₂, removeServiceRecords env name s.serviceRecords s = .ok s₁ ∧ s₁.returnFrom name = .ok s₂ ∧
      s₁.Shape ∧ s₂.Shape ∧ ((s.pagesOf name = [] ∧ s' = s₂) ∨
        ∃ m ∈ s₂.allMissions, m.pageAbilityRecords = s.pagesOf name ∧ ∃ s₃,
          clearPageAbility env (some name) (s.pagesOf name) (s₂.modifyMission m.id (·.setPages [])) =
            .ok s₃ ∧
          (∀ t ∈ s.pagesOf name, s'.records t = none) ∧
          s' = s₃.dropMission (targetStack (some name)) m.id) := by
  obtain ⟨s₁, s₂, h₁, h₂, hs⟩ := clearAbilityStack_cases hs
  obtain ⟨hapart, -, -⟩ := removeServiceRecords_apart h₁
  have hshape₁ := h.removeServiceRecords h₁
  obtain ⟨hmem, -, -, -⟩ := returnFrom_keeps hshape₁ h₂
  have hshape₂ := hshape₁.returnFrom h₂
  have hpages : s₂.pagesOf name = s.pagesOf name := by
    unfold pagesOf
    rw [hshape₁.getTargetMissionRecord_congr hshape₂ (hmem _),
      h.getTargetMissionRecord_congr hshape₁ fun m => by rw [hapart.stack]]
  refine ⟨s₁, s₂, h₁, h₂, hshape₁, hshape₂, ?_⟩
  obtain ⟨hnone, rfl⟩ | ⟨m, hm, htarget, hst, hgone, s₃, h₃, hdrop⟩ :=
    removeMissionRecordByName_cases hshape₂ hs
  · refine .inl ⟨?_, rfl⟩
    rw [← hpages]
    unfold pagesOf
    rw [hnone]
    rfl
  · obtain ⟨-, hname⟩ := hshape₂.getTargetMissionRecord_eq_some.mp htarget
    have hsame : m.pageAbilityRecords = s.pagesOf name := by
      rw [← hpages]
      unfold pagesOf
      rw [htarget]
      rfl
    rw [hname, hsame] at h₃
    exact .inr ⟨m, hm, hsame, s₃, h₃, fun t ht => hgone.gone t (hsame ▸ ht), hdrop⟩

/-- The services of the bundle are gone, and its pages are no longer among the clients of the
others. -/
theorem clearAbilityStack_clients (h : s.Shape) (hs : s.clearAbilityStack env name = .ok s') :
    (∀ p, p ∈ s'.serviceRecords ↔ p ∈ s.serviceRecords ∧ s.ofBundle name p = false) ∧
      ∀ p ∈ s'.serviceRecords, s'.clients p = (s.clients p).map (without name (s.pagesOf name)) := by
  obtain ⟨s₁, s₂, h₁, h₂, hshape₁, hshape₂, hs⟩ := clearAbilityStack_split h hs
  obtain ⟨-, hservices₁, hclients₁⟩ := removeServiceRecords_apart h₁
  obtain ⟨-, hrecords₂, hservices₂, -⟩ := returnFrom_keeps hshape₁ h₂
  have hleft (p : Token) : p ∈ s₂.serviceRecords ↔ p ∈ s.serviceRecords ∧ s.ofBundle name p = false := by
    rw [hservices₂, hservices₁, Bool.eq_false_iff]
    exact and_congr_right fun hp => not_congr (and_iff_right hp)
  have hclients₂ (p : Token) (hp : p ∈ s₂.serviceRecords) : s₂.clients p = s.clients p := by
    refine Eq.trans ?_ (hclients₁ p ((hleft p).mp hp).2)
    unfold clients
    rw [hrecords₂]
  obtain ⟨hempty, rfl⟩ | ⟨m, hm, hsame, s₃, h₃, -, rfl⟩ := hs
  · refine ⟨hleft, fun p hp => ?_⟩
    rw [hempty, hclients₂ p hp, Option.map_congr fun x _ => without_nil x, Option.map_id']
  · obtain ⟨-, hservices₃, hclients₃⟩ := clearPageAbility_apart h₃
    have hdrop : (s₃.dropMission (targetStack (some name)) m.id).serviceRecords = s₂.serviceRecords :=
      services_dropMission.trans hservices₃
    refine ⟨fun p => by rw [hdrop]; exact hleft p, fun p hp => ?_⟩
    rw [hdrop] at hp
    have hpage : p ∉ s.pagesOf name := by
      rw [← hsame]
      exact fun ht => hshape₂.page_not_service hm ht hp
    have hclients : (s₃.dropMission (targetStack (some name)) m.id).clients p = s₃.clients p := by
      unfold clients
      rw [records_dropMission]
    rw [hclients, hclients₃ p hp hpage]
    exact congrArg _ (hclients₂ p hp)

/-- The mission of the bundle is gone, and with it its abilities. -/
theorem clearAbilityStack_gone (h : s.Shape) (hs : s.clearAbilityStack env name = .ok s') :
    (∀ st, ∀ m ∈ s'.stack st, m.bundleName ≠ some name) ∧ ∀ t, ¬ s'.ListedOf name t := by
  have hshape := h.clearAbilityStack hs
  have hmission : ∀ st, ∀ m ∈ s'.stack st, m.bundleName ≠ some name := by
    intro st m hm hname
    obtain ⟨rfl, htarget⟩ := hshape.mission_of hm hname
    obtain ⟨s₁, s₂, h₁, h₂, hs⟩ := clearAbilityStack_cases hs
    have hshape₁ := h.removeServiceRecords h₁
    have hshape₂ := hshape₁.returnFrom h₂
    obtain ⟨hnone, rfl⟩ | ⟨m₂, hm₂, htarget₂, hst, hgone, -⟩ := removeMissionRecordByName_cases hshape₂ hs
    · rw [hnone] at htarget
      cases htarget
    · rw [hgone.toSameLists.stack, stack_dropMission, hst] at hm
      obtain ⟨m₀, hm₀, hne, hd⟩ := mem_removeMissionRecord hm
      obtain ⟨hmem₂, hname₂⟩ := hshape₂.getTargetMissionRecord_eq_some.mp htarget₂
      exact hne (congrArg _ (hshape₂.names _ m₀ hm₀ m₂ hmem₂ name (hd.bundleName ▸ hname) hname₂))
  refine ⟨hmission, fun t ht => ?_⟩
  rcases hshape.listedOf_iff.mp ht with hpage | ⟨hservice, hbundle⟩
  · unfold pagesOf at hpage
    cases hm : s'.getTargetMissionRecord (targetStack (some name)) (some name) with
    | none =>
      rw [hm] at hpage
      cases hpage
    | some m =>
      obtain ⟨hmem, hname⟩ := hshape.getTargetMissionRecord_eq_some.mp hm
      exact hmission _ m hmem hname
  · obtain ⟨hleft, hclients⟩ := clearAbilityStack_clients h hs
    have hother := ((hleft t).mp hservice).2
    unfold ofBundle at hbundle hother
    rw [hclients t hservice, Option.any_map] at hbundle
    exact Bool.false_ne_true (hother.symm.trans hbundle)

/-- A bundle leaves nothing exactly when its clients of services of other bundles are pages. -/
theorem leavesNothing_iff (h : s.Shape) (hs : s.clearAbilityStack env name = .ok s') :
    LeavesNothing name s s' ↔ s.ClientsArePages name := by
  obtain ⟨hleft, hclients⟩ := clearAbilityStack_clients h hs
  obtain ⟨hmission, hability⟩ := clearAbilityStack_gone h hs
  constructor
  · rintro ⟨-, -, hclient⟩ t ht r hr hother c hc hlisted
    have hbundle : s.ofBundle name t = false := Bool.eq_false_iff.mpr fun hb => hother ((ofBundle_iff hr).mp hb)
    have ht' := (hleft t).mpr ⟨ht, hbundle⟩
    have hold : s.clients t = some (r.abilityInfo, r.connectRecords) := clients_eq_some.mpr ⟨r, hr, rfl⟩
    obtain ⟨r', hr', hnew⟩ := clients_eq_some.mp ((hclients t ht').trans (by rw [hold, Option.map_some]))
    have hinfo : r'.abilityInfo = r.abilityInfo := congrArg Prod.fst hnew
    have hgone : c ∉ r'.connectRecords := fun hmem => hclient t ht' r' hr' (by rw [hinfo]; exact hother) c hmem hlisted
    have hrecords : r'.connectRecords = (without name (s.pagesOf name) (r.abilityInfo, r.connectRecords)).2 :=
      congrArg Prod.snd hnew
    rw [hrecords] at hgone
    unfold without at hgone
    split at hgone
    · next hsome =>
      have hpage : c.abilityToken ∈ s.pagesOf name := by
        by_contra hno
        exact hgone (List.mem_filter.mpr ⟨hc, decide_eq_true hno⟩)
      exact ⟨hsome.1, h.pagesOf_not_service hpage⟩
    · exact absurd hc hgone
  · intro hpages
    refine ⟨hmission, hability, fun t ht r hr hother c hc hlisted => ?_⟩
    obtain ⟨ht₀, hbundle⟩ := (hleft t).mp ht
    have hnew := hclients t ht
    rw [clients_eq_some.mpr ⟨r, hr, rfl⟩, eq_comm, Option.map_eq_some_iff] at hnew
    obtain ⟨x, hx, hnew⟩ := hnew
    obtain ⟨r₀, hr₀, rfl⟩ := clients_eq_some.mp hx
    have hinfo : r₀.abilityInfo = r.abilityInfo := congrArg Prod.fst hnew
    have hrecords : (without name (s.pagesOf name) (r₀.abilityInfo, r₀.connectRecords)).2 =
        r.connectRecords := congrArg Prod.snd hnew
    rw [← hrecords] at hc
    rw [← hinfo] at hother
    unfold without at hc
    split at hc
    · obtain ⟨hc, hno⟩ := List.mem_filter.mp hc
      have hpage := (hpages t ht₀ r₀ hr₀ hother c hc hlisted).2
      rcases h.listedOf_iff.mp hlisted with hmem | hservice
      · rw [decide_eq_true_eq] at hno
        exact hno hmem
      · exact hpage hservice.1
    · next hno =>
      exact hno ⟨(hpages t ht₀ r₀ hr₀ hother c hc hlisted).1, hother⟩

end AbilityMgr

namespace System
variable {gen : TokenGenerate} {env : Env} {s : System} {ams : AbilityMgr} {name : CString}

/-- In every reachable state `ClearAbilityStack` leaves nothing of a bundle exactly when the clients
the bundle has at services of other bundles are pages. -/
theorem clearAbilityStack_leavesNothing_iff (h : Reached (System.next gen) (fun _ _ => True) IsInit s)
    (hs : s.ams.clearAbilityStack env name = .ok ams) :
    AbilityMgr.LeavesNothing name s.ams ams ↔ s.ams.ClientsArePages name :=
  AbilityMgr.leavesNothing_iff (sound_of_reached h).shape hs

/-- Everything outside AMS works; bundle a has a page, every other a service. -/
def clientEnv : Env :=
  { pageEnv with
    queryAbilityInfo := fun want =>
      let name := want.element.bind (·.bundleName)
      some (if name = some (cstr "a") then pageInfo name else { pageInfo name with abilityType := .service }) }

/-- An ability of a bundle is up, and has connected to the service of another bundle. -/
def connectFrom (name : CString) : List (Env × Event) :=
  [.startAbility (pageWant name) 5, .connectAbility (pageWant (cstr "c")) ⟨1, 1⟩ 0 5].map
    fun e => (clientEnv, e)

theorem clearAbilityStack_leavesNothing_page :
    ∃ s ams, run (System.next counter) {} (connectFrom (cstr "a")) = some s ∧
      s.ams.clearAbilityStack clientEnv (cstr "a") = .ok ams ∧
      (AbilityMgr.LeavesNothing (cstr "a") s.ams ams ↔ s.ams.ClientsArePages (cstr "a")) := by
  have h : ((run (System.next counter) {} (connectFrom (cstr "a"))).map fun s =>
      (s.ams.clearAbilityStack clientEnv (cstr "a")).toOption.isSome) = some true := by decide
  obtain ⟨s, hs, hclear⟩ := Option.map_eq_some_iff.mp h
  cases hams : s.ams.clearAbilityStack clientEnv (cstr "a") with
  | error f =>
    rw [hams] at hclear
    cases hclear
  | ok ams =>
    exact ⟨s, ams, hs, hams, clearAbilityStack_leavesNothing_iff (Reached.of_run (.init rfl) _ hs) hams⟩

/-- The client of the service is itself a service: its bundle is cleared away, and the service of the
other bundle keeps it as a client. -/
theorem clearAbilityStack_leaves_client :
    ∃ s ams, Reached (System.next counter) (fun _ _ => True) IsInit s ∧
      s.ams.clearAbilityStack clientEnv (cstr "b") = .ok ams ∧ s.ams.ListedOf (cstr "b") 0 ∧
      (∃ r ∈ ams.records 2, 2 ∈ ams.serviceRecords ∧ r.abilityInfo.bundleName = some (cstr "c") ∧
        r.connectRecords.map (·.abilityToken) = [0]) ∧
      ¬ AbilityMgr.LeavesNothing (cstr "b") s.ams ams := by
  have h : ((run (System.next counter) {} (connectFrom (cstr "b"))).map fun s =>
      (decide (0 ∈ s.ams.serviceRecords), s.ams.ofBundle (cstr "b") 0,
        (s.ams.clearAbilityStack clientEnv (cstr "b")).toOption.map fun ams =>
          (decide (2 ∈ ams.serviceRecords), decide ((ams.records 2).map (fun r =>
            (r.abilityInfo.bundleName, r.connectRecords.map (·.abilityToken))) =
              some (some (cstr "c"), [0]))))) = some (true, true, some (true, true)) := by decide
  obtain ⟨s, hs, hstate⟩ := Option.map_eq_some_iff.mp h
  cases hams : s.ams.clearAbilityStack clientEnv (cstr "b") with
  | error f =>
    rw [hams] at hstate
    cases congrArg (fun x => x.2.2) hstate
  | ok ams =>
    simp only [hams, Except.toOption, Option.map_some, Prod.mk.injEq, Option.some.injEq,
      decide_eq_true_eq, Option.map_eq_some_iff] at hstate
    obtain ⟨hservice, hbundle, hleft, r, hr, hname, htokens⟩ := hstate
    have hlisted : s.ams.ListedOf (cstr "b") 0 := ⟨.inr hservice, hbundle⟩
    refine ⟨s, ams, Reached.of_run (.init rfl) _ hs, hams, hlisted, ⟨r, hr, hleft, hname, htokens⟩, ?_⟩
    rintro ⟨-, -, hclient⟩
    have hc : (0 : Token) ∈ r.connectRecords.map (·.abilityToken) := by
      rw [htokens]
      exact List.mem_singleton.mpr rfl
    obtain ⟨c, hc, hzero⟩ := List.mem_map.mp hc
    refine hclient 2 hleft r hr ?_ c hc ?_
    · rw [hname]
      decide
    · rw [hzero]
      exact hlisted

end System
end AbilityLite.Ams
