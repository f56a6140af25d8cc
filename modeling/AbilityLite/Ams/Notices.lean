import AbilityLite.Ams.Attends

/-
  Clients are told when their service goes away.

  1. `Attends` leaves three ways for a listed service to go: a reply that it has stopped,
     a request that ends it before it has started, a bundle that is cleared away;
  2. the first and the last go through `StopAbilityDone`, which calls every client back
     when the process of the service has attached and the call gets through;
  3. the second calls nobody back, so it must not meet a service that has clients.
-/

namespace AbilityLite.Ams
open AbilityMsStatus Fallible Relation PageAbilityRecord

namespace AbilityMgr
variable {gen : TokenGenerate} {env : Env} {s s₁ s₂ s' : AbilityMgr} {t : Token} {a : Nat}
  {status : AbilityMsStatus} {r : PageAbilityRecord} {name : CString} {sid : SvcIdentity} {m : Callback}

/-! ## Calling back -/

/-- On the way from `s` to `s'` AMS calls an address back. -/
def CallsBack (s s' : AbilityMgr) (sid : SvcIdentity) (m : Callback) : Prop :=
  ∃ l, s'.callbacks = s.callbacks ++ l ∧ (sid, m) ∈ l

theorem CallsBack.around (hbefore : s.callbacks <+: s₁.callbacks) (h : CallsBack s₁ s₂ sid m)
    (hafter : s₂.callbacks <+: s'.callbacks) : CallsBack s s' sid m := by
  obtain ⟨l₁, hl₁⟩ := hbefore
  obtain ⟨l, hl, hmem⟩ := h
  obtain ⟨l₂, hl₂⟩ := hafter
  refine ⟨l₁ ++ l ++ l₂, ?_, List.mem_append_left _ (List.mem_append_right _ hmem)⟩
  rw [← hl₂, hl, ← hl₁, List.append_assoc, List.append_assoc, List.append_assoc]

/-- The process has attached. -/
def attached (s : AbilityMgr) (a : Nat) : Bool := (s.app a).any (·.abilityThreadClient.isSome)

/-- Each client of a service can be called back that it is disconnected. -/
def Tells (s : AbilityMgr) (env : Env) (t : Token) : Prop :=
  ∀ r, s.records t = some r → ∀ c ∈ r.idents, ∃ a, r.appRecord = some a ∧ s.attached a = true ∧
    env.notifies c.1 (.disconnectDone r.want.element) = true

theorem Tells.congr (h : s.Tells env t) (hrecords : s'.records t = s.records t)
    (hattached : ∀ a, s'.attached a = s.attached a) : s'.Tells env t := by
  intro r hr c hc
  rw [hrecords] at hr
  obtain ⟨a, ha, hatt, hnotifies⟩ := h r hr c hc
  exact ⟨a, ha, (hattached a).trans hatt, hnotifies⟩

theorem notify_app (b : Nat) : (s.notify env sid m).app b = s.app b := by
  unfold notify
  split <;> rfl

theorem notify_append : s.callbacks <+: (s.notify env sid m).callbacks := by
  have hall : Attends ⟨id, fun _ _ h => h⟩ (fun _ => True) (fun _ => True) s (s.notify env sid m) :=
    .notify
  exact hall.callbacks

theorem callbackTransactions_append {l : List AbilityConnectRecord}
    (h : callbackTransactions env a m l s = .ok s') : s.callbacks <+: s'.callbacks := by
  have hall : Attends ⟨id, fun _ _ h => h⟩ (fun _ => True) (fun _ => True) s s' :=
    .callbackTransactions h
  exact hall.callbacks

theorem callbackTransactions_tells {l : List AbilityConnectRecord} (hatt : s.attached a = true)
    (h : callbackTransactions env a m l s = .ok s') :
    ∀ c ∈ l, env.notifies c.connectSid m = true → CallsBack s s' c.connectSid m := by
  induction l generalizing s with
  | nil => exact fun c hc => absurd hc List.not_mem_nil
  | cons c cs ih =>
    simp only [callbackTransactions, callbackTransaction, bind_eq_ok, appRecord_eq_ok] at h
    obtain ⟨s₁, ⟨app, happ, h₁⟩, h⟩ := h
    have hclient : app.abilityThreadClient.isSome = true := by
      unfold attached at hatt
      rw [happ] at hatt
      exact hatt
    obtain ⟨client, hclient⟩ := Option.isSome_iff_exists.mp hclient
    rw [hclient] at h₁
    cases h₁
    have hatt₁ : (s.notify env c.connectSid m).attached a = true := by
      unfold attached
      rw [notify_app]
      exact hatt
    intro x hx hnotifies
    rcases List.mem_cons.mp hx with rfl | hx
    · refine .around (List.prefix_refl _) ⟨[(x.connectSid, m)], ?_, List.mem_singleton_self _⟩
        (callbackTransactions_append h)
      unfold notify
      rw [if_pos hnotifies]
    · exact .around notify_append (ih hatt₁ h x hx hnotifies) (List.prefix_refl _)

theorem stopAbilityDone_tells (hr : s.records t = some r) (htells : s.Tells env t)
    (h : s.stopAbilityDone env t = .ok (status, s')) :
    ∀ c ∈ r.idents, CallsBack s s' c.1 (.disconnectDone r.want.element) := by
  intro c hc
  obtain ⟨a, ha, hatt, hnotifies⟩ := htells r hr c hc
  obtain ⟨x, hx, rfl⟩ := List.mem_map.mp hc
  obtain ⟨r', hr', ⟨hnone, _, _⟩ | ⟨a', ha', h⟩⟩ := service_cases h
  · rw [hr] at hr'
    cases hr'
    rw [ha] at hnone
    cases hnone
  · rw [hr] at hr'
    cases hr'
    rw [ha] at ha'
    cases ha'
    simp only [bind_eq_ok] at h
    obtain ⟨s₁, h₁, h⟩ := h
    cases h
    have hatt' : (s.modify t (·.setConnectStatus .stopped)).attached a = true := hatt
    exact callbackTransactions_tells hatt' h₁ x hx hnotifies

/-- A service is stopped and deleted, and the others are left alone. -/
theorem dropped_others (h₁ : s.stopAbilityDone env t = .ok (status, s₁))
    (h₂ : { s₁ with serviceRecords := s₁.serviceRecords.filter (· ≠ t) }.delete t = .ok s₂) :
    (∀ p, p ≠ t → s₂.records p = s.records p) ∧ ∀ a, s₂.attached a = s.attached a := by
  have hstopped : (∀ p, p ≠ t → s₁.records p = s.records p) ∧ s₁.appRecords = s.appRecords := by
    obtain ⟨r, _, ⟨_, _, rfl⟩ | ⟨a, _, h⟩⟩ := service_cases h₁
    · exact ⟨fun _ _ => rfl, rfl⟩
    · simp only [bind_eq_ok] at h
      obtain ⟨s₃, h₃, h⟩ := h
      cases h
      obtain ⟨callbacks, rfl⟩ := callbackTransactions_eq h₃
      exact ⟨fun p hp => Store.modify_ne s.records _ hp, rfl⟩
  obtain ⟨hrecords, happs⟩ := hstopped
  have hattached (a : Nat) : s₁.attached a = s.attached a := by
    unfold attached app
    rw [happs]
  obtain ⟨r, _, ⟨_, rfl⟩ | ⟨b, app, _, _, rfl⟩⟩ := delete_cases h₂
  · exact ⟨fun p hp => (Store.erase_ne s₁.records hp).trans (hrecords p hp), hattached⟩
  · refine ⟨fun p hp => (Store.erase_ne s₁.records hp).trans (hrecords p hp), fun a => ?_⟩
    rw [← hattached a]
    have hclear (app : AppRecord) :
        (app.clearPendingAbility t).abilityThreadClient = app.abilityThreadClient := by
      unfold AppRecord.clearPendingAbility
      split <;> rfl
    show ((s₁.modifyApp b (·.clearPendingAbility t)).app a).any _ = (s₁.app a).any _
    rw [app_modifyApp clearPendingAbility_identityId, Option.any_map]
    congr 1
    funext app
    show (if a = b then app.clearPendingAbility t else app).abilityThreadClient.isSome = _
    split
    · rw [hclear]
    · rfl

/-- The clients of the services of a bundle are told, one service after the other. -/
theorem removeServiceRecords_tells {ts : List Token} (hnodup : ts.Nodup)
    (htells : ∀ t ∈ ts, s.ofBundle name t = true → s.Tells env t)
    (h : removeServiceRecords env name ts s = .ok s') :
    ∀ t ∈ ts, ∀ r, s.records t = some r → r.abilityInfo.bundleName = some name → ∀ c ∈ r.idents,
      CallsBack s s' c.1 (.disconnectDone r.want.element) := by
  induction ts generalizing s with
  | nil => exact fun t ht => absurd ht List.not_mem_nil
  | cons t ts ih =>
    rw [List.nodup_cons] at hnodup
    obtain ⟨hnotin, hnodup⟩ := hnodup
    intro p hp r hr hname c hc
    obtain ⟨r₀, hr₀, ⟨hother, h⟩ | ⟨hbundle, status, s₁, s₂, h₁, h₂, h⟩⟩ := removeServiceRecords_cons h
    · rcases List.mem_cons.mp hp with rfl | hp
      · rw [hr₀] at hr
        cases hr
        exact absurd hname hother
      · exact ih hnodup (fun q hq => htells q (List.mem_cons_of_mem t hq)) h p hp r hr hname c hc
    · have hstopped : Attends ⟨id, fun _ _ h => h⟩ (fun _ => True) (fun _ => True) s s₁ :=
        .stopAbilityDone h₁
      have hdropped : Attends ⟨id, fun _ _ h => h⟩ (fun _ => True) (fun _ => True) s₁ s₂ :=
        .dropService trivial h₂
      have hrest : Attends ⟨id, fun _ _ h => h⟩ (fun _ => True) (fun _ => True) s₂ s' :=
        .removeServiceRecords (fun _ _ _ => trivial) h
      obtain ⟨hrecords, hattached⟩ := dropped_others h₁ h₂
      rcases List.mem_cons.mp hp with rfl | hp
      · have htold := stopAbilityDone_tells hr
          (htells p List.mem_cons_self ((ofBundle_iff hr).mpr hname)) h₁ c hc
        -- The first of the list: told when it is stopped, and what follows only adds.
        exact .around (List.prefix_refl _) htold (hdropped.trans hrest).callbacks
      · have hne {q : Token} (hq : q ∈ ts) : q ≠ t := fun e => hnotin (e ▸ hq)
        -- A later one: what it holds is not touched before its turn comes.
        refine .around (hstopped.trans hdropped).callbacks (ih hnodup (fun q hq hof => ?_) h p hp r
          ((hrecords p (hne hp)).trans hr) hname c hc) (List.prefix_refl _)
        have hsame : s₂.clients q = s.clients q := by
          unfold clients
          rw [hrecords q (hne hq)]
        rw [ofBundle_congr hsame] at hof
        exact (htells q (List.mem_cons_of_mem t hq) hof).congr (hrecords q (hne hq)) hattached

/-! ## A bundle that is cleared away -/

theorem Attends.stays_none {gone : Token → Prop} {lost : SvcIdentity × Token → Prop}
    (h : Attends gen gone lost s s') (hnone : s.records t = none)
    (hold : ∃ k < s.generated, t = gen.generate k) : s'.records t = none := by
  cases hr : s'.records t with
  | none => rfl
  | some r' =>
    obtain ⟨r, hr, _⟩ | ⟨⟨k, hk, ht⟩, _⟩ := h.records t r' hr
    · rw [hnone] at hr
      cases hr
    · obtain ⟨k', hk', ht'⟩ := hold
      have heq : k = k' := gen.injective k k' (ht.symm.trans ht')
      exact absurd hk' (Nat.not_lt_of_le (heq ▸ hk))

/-- A service that may not go is still listed, with the clients that may not leave. -/
theorem Attends.keeps {gone : Token → Prop} {lost : SvcIdentity × Token → Prop}
    (h : Attends gen gone lost s s') (hs : Sound gen s) (hshape : s'.Shape) (hr : s.records t = some r)
    (hlisted : t ∈ s'.serviceRecords) {c : SvcIdentity × Token} (hc : c ∈ r.idents) (hkept : ¬ lost c) :
    ∃ r', s'.records t = some r' ∧ c ∈ r'.idents := by
  obtain ⟨r', hr', _⟩ := hshape.services t hlisted
  obtain ⟨r₀, hr₀, hatt⟩ | ⟨⟨k, hk, ht⟩, _⟩ := h.records t r' hr'
  · rw [hr] at hr₀
    cases hr₀
    exact ⟨r', hr', hatt.clients c hc hkept⟩
  · obtain ⟨k', hk', ht'⟩ := hs.known.records t (by rw [hr]; rfl)
    have heq : k = k' := gen.injective k k' (ht.symm.trans ht')
    exact absurd hk' (Nat.not_lt_of_le (heq ▸ hk))

theorem Shape.page_record (h : s.Shape) (ht : t ∈ s.pagesOf name) :
    ∃ r, s.records t = some r ∧ r.isService = false := by
  unfold pagesOf at ht
  cases hm : s.getTargetMissionRecord (targetStack (some name)) (some name) with
  | none =>
    rw [hm] at ht
    cases ht
  | some mission =>
    rw [hm] at ht
    obtain ⟨hmem, -⟩ := h.getTargetMissionRecord_eq_some.mp hm
    obtain ⟨r, hr, -, hpage, -⟩ := (h.missions mission (mem_all_of_stack hmem)).placed t ht
    exact ⟨r, hr, hpage⟩

theorem Clears.tells (hs : s.Shape)
    (htells : ∀ t ∈ s.serviceRecords, s.ofBundle name t = true → s.Tells env t)
    (h : Clears env name s s') : ∀ t ∈ s.serviceRecords, ∀ r, s.records t = some r →
      r.abilityInfo.bundleName = some name → ∀ c ∈ r.idents,
        CallsBack s s' c.1 (.disconnectDone r.want.element) := by
  obtain ⟨s₁, h₁, hresumes⟩ := h
  obtain ⟨s₂, s₃, h₂, h₃, -, -, hpages⟩ := clearAbilityStack_split hs h₁
  have hreturned : Attends ⟨id, fun _ _ h => h⟩ (fun _ => True) (fun _ => True) s₂ s₁ :=
    (Attends.frame.returnFrom h₃).trans (.clearPages (fun _ _ => trivial) hpages)
  have hrest : Attends ⟨id, fun _ _ h => h⟩ (fun _ => True) (fun _ => True) s₁ s' :=
    (Attends.frame.removeAppRecordByName _).trans (Attends.resumes hresumes)
  intro t ht r hr hname c hc
  exact .around (List.prefix_refl _)
    (removeServiceRecords_tells hs.serviceNodup htells h₂ t ht r hr hname c hc)
    (hreturned.trans hrest).callbacks

theorem Clears.attends (hs : Sound gen s) (h : Clears env name s s') :
    Attends gen (fun _ => True) (fun _ => True) s s' :=
  .clears hs.shape (fun _ _ => trivial) (fun _ _ => trivial) h

theorem Attends.distinct {gone : Token → Prop} {lost : SvcIdentity × Token → Prop}
    (h : Attends gen gone lost s s') (hdistinct : ∀ t r, s.records t = some r → r.Distinct) :
    ∀ t r, s'.records t = some r → r.Distinct := by
  intro t r' hr'
  obtain ⟨r, hr, hatt⟩ | ⟨_, hnew⟩ := h.records t r' hr'
  · exact hatt.distinct (hdistinct t r hr)
  · exact hnew

/-- The pages of the bundle are deleted. -/
theorem Clears.pages (hs : Sound gen s) (h : Clears env name s s') :
    ∀ t ∈ s.pagesOf name, s'.records t = none := by
  obtain ⟨s₁, h₁, hresumes⟩ := h
  intro t ht
  have hcleared : Attends gen (fun _ => True) (fun _ => True) s s₁ :=
    .clearAbilityStack hs.shape (fun _ _ => trivial) (fun _ _ => trivial) h₁
  have hrest : Attends gen (fun _ => True) (fun _ => True) s₁ s' :=
    (Attends.frame.removeAppRecordByName _).trans (Attends.resumes hresumes)
  obtain ⟨r, hr, _⟩ := hs.shape.page_record ht
  obtain ⟨k, hk, hgen⟩ := hs.known.records t (by rw [hr]; rfl)
  obtain ⟨s₂, s₃, _, _, -, -, ⟨hnil, -⟩ | ⟨_, -, -, _, -, hgone, -⟩⟩ := clearAbilityStack_split hs.shape h₁
  · rw [hnil] at ht
    cases ht
  · exact hrest.stays_none (hgone t ht) ⟨k, Nat.lt_of_lt_of_le hk hcleared.generated, hgen⟩

/-- A request that clears a bundle away does so first, but for telling its process to exit. -/
theorem Clearing.clears {e : Event} (hs : Sound gen s) (hclear : s.Clearing env e name)
    (h : s.requestMsg gen env e = .ok s') :
    ∃ s₀ s₁, (s₀ = s ∨ ∃ a, s₀ = s.send a .appExit) ∧ Clears env name s₀ s₁ ∧
      Attends gen (fun _ => True) (fun _ => True) s₁ s' := by
  obtain ⟨rfl, hexit⟩ | ⟨b, info, rfl, hinfo, hname⟩ := hclear
  · simp only [requestMsg, bind_eq_ok] at h
    obtain ⟨⟨status, s₁⟩, h₁, h⟩ := h
    cases h
    cases appTerminateTask_cases h₁ with
    | refused happ hreach => exact absurd (hexit _ happ) hreach
    | alone _ hclears => exact ⟨s, _, .inl rfl, hclears, .refl _⟩
    | exits _ _ hclears => exact ⟨_, _, .inr ⟨_, rfl⟩, hclears, .refl _⟩
  · obtain ⟨hnone, _⟩ | ⟨info', status, s₁, s₂, hinfo', h₁, hlauncher, hkeep⟩ := restartAppMsg_cases h
    · rw [hinfo] at hnone
      cases hnone
    · rw [hinfo] at hinfo'
      cases hinfo'
      have hsound := hs.goes (appRestartTask_goes hs h₁)
      obtain ⟨hnone, _⟩ | ⟨name', hname', hclears⟩ := appRestartTask_cases h₁
      · rw [hname] at hnone
        cases hnone
      · rw [hname] at hname'
        cases hname'
        exact ⟨s, s₁, .inl rfl, hclears, .restarted hsound hlauncher hkeep⟩

/-! ## What a step owes to the clients -/

/-- A service that goes has told each client that it holds; one that stays has lost a client only to
a disconnect of its own, or to the removal of the page that it belongs to. -/
def Notices (e : Event) (s s' : AbilityMgr) : Prop :=
  ∀ t ∈ s.serviceRecords, ∀ r, s.records t = some r → ∀ c ∈ r.idents,
    (t ∉ s'.serviceRecords → CallsBack s s' c.1 (.disconnectDone r.want.element)) ∧
    (t ∈ s'.serviceRecords → (∃ r', s'.records t = some r' ∧ c ∈ r'.idents) ∨
      e = .disconnectAbility c.1 c.2 ∨
        ((∃ p, s.records c.2 = some p ∧ p.isService = false) ∧ s'.records c.2 = none))

theorem notices_of_same {e : Event} (hservices : s'.serviceRecords = s.serviceRecords)
    (hrecords : s'.records = s.records) : Notices e s s' := by
  intro t ht r hr c hc
  refine ⟨fun hgone => absurd (hservices ▸ ht) hgone, fun _ => .inl ⟨r, ?_, hc⟩⟩
  rw [hrecords]
  exact hr

theorem requestMsg_notices {e : Event} (hs : Sound gen s)
    (hdistinct : ∀ t r, s.records t = some r → r.Distinct) (h : s.requestMsg gen env e = .ok s')
    (hunstarted : ∀ t r, s.EndsUnstarted env e t → s.records t = some r → r.connectRecords = [])
    (htells : ∀ name, s.Clearing env e name → ∀ t ∈ s.serviceRecords, s.ofBundle name t = true →
      s.Tells env t) : Notices e s s' := by
  intro t ht r hr c hc
  have hatt := requestMsg_attends hs hdistinct h
  have hshape := (requestMsg_goes hs h).shape
  refine ⟨fun hgone => ?_, fun hlisted => ?_⟩
  · obtain hun | ⟨name, hclear, hof⟩ := not_not.mp fun hkept => hgone (hatt.listed t ht hkept)
    · -- It ends before it has started, and no client waits.
      unfold PageAbilityRecord.idents at hc
      rw [hunstarted t r hun hr] at hc
      cases hc
    · -- Its bundle is cleared away, in the middle of what the request does.
      obtain ⟨s₀, s₁, hbefore, hclears, hrest⟩ := hclear.clears hs h
      have hname := (ofBundle_iff hr).mp hof
      have htold : CallsBack s s₁ c.1 (.disconnectDone r.want.element) := by
        obtain rfl | ⟨a, rfl⟩ := hbefore
        · exact hclears.tells hs.shape (htells name hclear) t ht r hr hname c hc
        · have hsent : (s.send a .appExit).Shape :=
            hs.shape.of_kept ⟨⟨rfl, rfl, rfl, rfl, rfl, rfl⟩, fun _ => rfl⟩
          exact hclears.tells hsent (htells name hclear) t ht r hr hname c hc
      exact .around (List.prefix_refl _) htold hrest.callbacks
  · by_cases hlost : e = .disconnectAbility c.1 c.2 ∨
        ∃ name, s.Clearing env e name ∧ c.2 ∈ s.pagesOf name
    · rcases hlost with hown | ⟨name, hclear, hpage⟩
      · exact .inr (.inl hown)
      · -- The page of the client goes with its bundle; its token is not given again.
        refine .inr (.inr ⟨hs.shape.page_record hpage, ?_⟩)
        obtain ⟨s₀, s₁, hbefore, hclears, hrest⟩ := hclear.clears hs h
        obtain ⟨p, hp, _⟩ := hs.shape.page_record hpage
        obtain ⟨k, hk, hgen⟩ := hs.known.records c.2 (by rw [hp]; rfl)
        obtain rfl | ⟨a, rfl⟩ := hbefore
        · exact hrest.stays_none (hclears.pages hs _ hpage)
            ⟨k, Nat.lt_of_lt_of_le hk (hclears.attends hs).generated, hgen⟩
        · have hsent : Sound gen (s.send a .appExit) :=
            ⟨hs.shape.of_kept ⟨⟨rfl, rfl, rfl, rfl, rfl, rfl⟩, fun _ => rfl⟩, hs.known.send _⟩
          exact hrest.stays_none (hclears.pages hsent _ hpage)
            ⟨k, Nat.lt_of_lt_of_le hk (hclears.attends hsent).generated, hgen⟩
    · exact .inl (hatt.keeps hs hshape hr hlisted hc hlost)

theorem replyMsg_notices {reply : Reply} {e : Event} (hs : Sound gen s)
    (h : s.replyMsg gen env reply = .ok s')
    (htells : ∀ t r, reply = .lifecycleDone ⟨t, .initial⟩ → t ∈ s.serviceRecords →
      s.records t = some r → r.connectStatus ≠ .stopped → s.Tells env t) : Notices e s s' := by
  intro t ht r hr c hc
  have hatt : Attends gen (fun t => reply = .lifecycleDone ⟨t, .initial⟩) (fun _ => False) s s' :=
    .replyMsg hs (fun _ h => h) h
  have hshape := (replyMsg_goes hs h).shape
  refine ⟨fun hgone => ?_, fun hlisted => .inl (hatt.keeps hs hshape hr hlisted hc fun h => h)⟩
  have hstops := not_not.mp fun hkept => hgone (hatt.listed t ht hkept)
  subst hstops
  obtain ⟨status, s₁, h₁, hlauncher⟩ := transactionMsg_cases h
  have hsound : Sound gen s₁ := hs.goes (workerAbilityTransaction_goes hs h₁)
  have hrest (gone : Token → Prop) : Attends gen gone (fun _ => True) s₁ s' := by
    rcases hlauncher with ⟨_, rfl⟩ | ⟨_, h₂⟩
    · exact .refl _
    · exact .startLauncher hsound h₂
  have hleft (hmem : t ∈ s₁.serviceRecords) : False :=
    hgone ((hrest fun _ => False).listed t hmem fun h => h)
  -- Only the answer that stops a service takes one away.
  cases stopTask_cases h₁ with
  | unknown => exact absurd ht hleft
  | stopped => exact absurd ht hleft
  | page _ hr' hpage =>
    obtain ⟨r₀, hr₀, hservice⟩ := hs.shape.services t ht
    rw [hr'] at hr₀
    cases hr₀
    rw [hpage] at hservice
    cases hservice
  | service _ hr' _ hstatus h₂ h₃ h₄ =>
    rw [hr] at hr'
    cases hr'
    have htell : (s.modify t (·.setCurrentState .initial)).Tells env t := by
      intro r' hr'
      rw [modify_self hr] at hr'
      cases hr'
      exact htells t r rfl ht hr hstatus r hr
    have htold := stopAbilityDone_tells (modify_self hr) htell h₂ c hc
    have hafter : Attends gen (fun _ => True) (fun _ => True) _ s₁ :=
      (Attends.frame.exitsIf h₃).trans (.removeServiceRecord trivial h₄)
    exact .around (List.prefix_refl _) htold (hafter.trans (hrest _)).callbacks

end AbilityMgr

namespace System
variable {gen : TokenGenerate} {env : Env} {s s' : System} {e : Event}

/-- Connections are used once in every record. -/
theorem Happens.distinct (hs : s.ams.Sound gen)
    (hdistinct : ∀ t r, s.ams.records t = some r → r.Distinct) (h : Happens gen env s e s') :
    ∀ t r, s'.ams.records t = some r → r.Distinct := by
  cases h with
  | request h => exact (AbilityMgr.requestMsg_attends hs hdistinct h).distinct hdistinct
  | requestFault => exact hdistinct
  | reply _ h =>
    have hatt : AbilityMgr.Attends gen (fun _ => True) (fun _ => True) s.ams _ :=
      .replyMsg hs (fun _ _ => trivial) h
    exact hatt.distinct hdistinct
  | replyFault => exact hdistinct
  | perform => exact hdistinct

theorem distinct_of_reached {ok : System → Env × Event → Prop}
    (h : Reached (System.next gen) ok IsInit s) : ∀ t r, s.ams.records t = some r → r.Distinct := by
  induction h with
  | init h =>
    cases h
    exact fun t r hr => by cases hr
  | step hs _ hnext ih => exact (next_cases hnext).2.distinct (sound_of_reached hs) ih

/-- When an event makes a service go, its clients can be told; a request that ends it before it has
started does not meet one that has clients. -/
structure CanNotify (env : Env) (s : System) (e : Event) : Prop where
  stops : ∀ a t replies r, e = .reply a →
    takeFirst a s.replies = some (.lifecycleDone ⟨t, .initial⟩, replies) → t ∈ s.ams.serviceRecords →
    s.ams.records t = some r → r.connectStatus ≠ .stopped → s.ams.Tells env t
  unstarted : ∀ t r, s.ams.EndsUnstarted env e t → s.ams.records t = some r → r.connectRecords = []
  cleared : ∀ name, s.ams.Clearing env e name → ∀ t ∈ s.ams.serviceRecords,
    s.ams.ofBundle name t = true → s.ams.Tells env t

/-- From every reachable state a step that meets the condition tells the clients of the services that
go, and takes no other client away but by a disconnect of its own or with its page. -/
theorem clients_are_told (h : Reached (System.next gen) (fun _ _ => True) IsInit s)
    (hok : s.CanNotify env e) (hnext : System.next gen s (env, e) = some s') :
    AbilityMgr.Notices e s.ams s'.ams := by
  have hs := sound_of_reached h
  cases (next_cases hnext).2 with
  | request h' =>
    exact AbilityMgr.requestMsg_notices hs (distinct_of_reached h) h' hok.unstarted hok.cleared
  | requestFault => exact AbilityMgr.notices_of_same rfl rfl
  | reply htake h' =>
    exact AbilityMgr.replyMsg_notices hs h' fun t r hreply => hok.stops _ t _ r rfl (hreply ▸ htake)
  | replyFault => exact AbilityMgr.notices_of_same rfl rfl
  | perform => exact AbilityMgr.notices_of_same rfl rfl

/-- A page has connected to a service, and the process of the service has attached. -/
def attachedEvents : List (Env × Event) :=
  connectFrom (cstr "a") ++ [(clientEnv, .attachBundle ⟨3, 7, ⟨9, 9⟩⟩)]

/-- The process of the service dies. -/
theorem clients_are_told_restart :
    ∃ s s', run (System.next counter) {} attachedEvents = some s ∧
      System.next counter s (clientEnv, .restartApp (cstr "c")) = some s' ∧
      2 ∈ s.ams.serviceRecords ∧ 2 ∉ s'.ams.serviceRecords ∧
      AbilityMgr.Notices (.restartApp (cstr "c")) s.ams s'.ams := by
  have h : ((run (System.next counter) {} attachedEvents).map fun s =>
      (s.ams.serviceRecords, (s.ams.records 2).map (·.appRecord), s.ams.attached 3,
        (System.next counter s (clientEnv, .restartApp (cstr "c"))).map (·.ams.serviceRecords))) =
      some ([2], some (some 3), true, some []) := by decide
  obtain ⟨s, hs, hstate⟩ := Option.map_eq_some_iff.mp h
  simp only [Prod.mk.injEq, Option.map_eq_some_iff] at hstate
  obtain ⟨hservices, ⟨r, hr, happ⟩, hattached, s', hnext, hservices'⟩ := hstate
  have hok : s.CanNotify clientEnv (.restartApp (cstr "c")) := by
    refine ⟨fun _ _ _ _ he => (by cases he), ?_,
      fun _ _ t ht _ r' hr' c _ => ⟨3, ?_, hattached, rfl⟩⟩
    · rintro _ _ ⟨_, _, _, he, _⟩
      cases he
    · rw [hservices, List.mem_singleton] at ht
      rw [ht, hr] at hr'
      cases hr'
      exact happ
  refine ⟨s, s', hs, hnext, by rw [hservices]; decide, by rw [hservices']; decide, ?_⟩
  exact clients_are_told (Reached.of_run (.init rfl) _ hs) hok hnext

/-- A service is terminated while its process has not attached: its client is not told. -/
theorem terminateService_tells_nobody :
    ∃ s s', Reached (System.next counter) (fun _ _ => True) IsInit s ∧
      System.next counter s (clientEnv, .terminateService (pageWant (cstr "c")) 5) = some s' ∧
      (∃ r, s.ams.records 2 = some r ∧ r.idents = [(⟨1, 1⟩, 0)]) ∧ 2 ∉ s'.ams.serviceRecords ∧
      s'.ams.callbacks = [] ∧
      ¬ AbilityMgr.Notices (.terminateService (pageWant (cstr "c")) 5) s.ams s'.ams := by
  have h : ((run (System.next counter) {} (connectFrom (cstr "a"))).map fun s =>
      (s.ams.serviceRecords, decide ((s.ams.records 2).map (·.idents) = some [(⟨1, 1⟩, 0)]),
        (System.next counter s (clientEnv, .terminateService (pageWant (cstr "c")) 5)).map fun s' =>
          (s'.ams.serviceRecords, s'.ams.callbacks.isEmpty))) =
      some ([2], true, some ([], true)) := by decide
  obtain ⟨s, hs, hstate⟩ := Option.map_eq_some_iff.mp h
  simp only [Prod.mk.injEq, Option.map_eq_some_iff, decide_eq_true_eq] at hstate
  obtain ⟨hservices, ⟨r, hr, hidents⟩, s', hnext, hservices', hempty⟩ := hstate
  have hcallbacks := List.isEmpty_iff.mp hempty
  have hgone : 2 ∉ s'.ams.serviceRecords := by
    rw [hservices']
    decide
  refine ⟨s, s', Reached.of_run (.init rfl) _ hs, hnext, ⟨r, hr, hidents⟩, hgone, hcallbacks,
    fun hnotices => ?_⟩
  obtain ⟨l, hl, hmem⟩ := (hnotices 2 (by rw [hservices]; decide) r hr (⟨1, 1⟩, 0)
    (by rw [hidents]; decide)).1 hgone
  rw [hcallbacks] at hl
  rw [(List.append_eq_nil_iff.mp hl.symm).2] at hmem
  cases hmem

end System
end AbilityLite.Ams
