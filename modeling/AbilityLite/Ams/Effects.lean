import AbilityLite.Ams.Tasks

/-
  What the member functions of ability and process records can do: one inversion lemma
  for each, with everything the function checked on the way. Nothing else unfolds them.
-/

namespace AbilityLite.Ams
open AbilityMsStatus Fallible
namespace AbilityMgr

variable {gen : TokenGenerate} {env : Env} {s s' : AbilityMgr} {t : Token} {a : Nat}
  {status : AbilityMsStatus}

/-! ## Pointers -/

@[simp] theorem record_eq_ok {r : PageAbilityRecord} : s.record t = .ok r ↔ s.records t = some r := by
  unfold record
  cases s.records t with
  | none => exact ⟨fun h => (by cases h), fun h => (by cases h)⟩
  | some r' => exact ⟨fun h => (by cases h; rfl), fun h => (by cases h; rfl)⟩

@[simp] theorem record_eq_error {f : Fault} :
    s.record t = .error f ↔ s.records t = none ∧ f = .pageAbilityRecord := by
  unfold record
  cases s.records t with
  | none => exact ⟨fun h => (by cases h; exact ⟨rfl, rfl⟩), fun h => (by rw [h.2])⟩
  | some r' => exact ⟨fun h => (by cases h), fun h => (by cases h.1)⟩

@[simp] theorem appRecord_eq_ok {app : AppRecord} : s.appRecord a = .ok app ↔ s.app a = some app := by
  unfold appRecord
  cases s.app a with
  | none => exact ⟨fun h => (by cases h), fun h => (by cases h)⟩
  | some r' => exact ⟨fun h => (by cases h; rfl), fun h => (by cases h; rfl)⟩

@[simp] theorem appRecord_eq_error {f : Fault} :
    s.appRecord a = .error f ↔ s.app a = none ∧ f = .appRecord := by
  unfold appRecord
  cases s.app a with
  | none => exact ⟨fun h => (by cases h; exact ⟨rfl, rfl⟩), fun h => (by rw [h.2])⟩
  | some r' => exact ⟨fun h => (by cases h), fun h => (by cases h.1)⟩

theorem app_identityId {app : AppRecord} (h : s.app a = some app) : app.identityId = a :=
  of_decide_eq_true (List.find?_some (p := fun app : AppRecord => decide (app.identityId = a)) h)

theorem app_mem {app : AppRecord} (h : s.app a = some app) : app ∈ s.appRecords :=
  List.mem_of_find?_eq_some h

/-- A process record is looked up after a change as it was before. -/
theorem app_modifyApp {b : Nat} {f : AppRecord → AppRecord}
    (hf : ∀ app, (f app).identityId = app.identityId) :
    (s.modifyApp b f).app a = (s.app a).map fun app => if a = b then f app else app := by
  unfold app modifyApp
  rw [List.find?_map]
  have hcomp : ((fun app : AppRecord => decide (app.identityId = a)) ∘
      fun app => if app.identityId = b then f app else app) =
      fun app : AppRecord => decide (app.identityId = a) := by
    funext app
    simp only [Function.comp_apply]
    split
    · rw [hf]
    · rfl
  rw [hcomp]
  cases h : s.appRecords.find? (fun app => decide (app.identityId = a)) with
  | none => rfl
  | some app =>
    have hid : app.identityId = a := app_identityId h
    simp only [Option.map_some, hid]

/-! ## Transactions -/

/-- The process can be reached: its record has a client, and the message leaves. -/
def Reaches (s : AbilityMgr) (env : Env) (a : Nat) (m : Transaction) : Prop :=
  ∃ app, s.app a = some app ∧ app.abilityThreadClient.isSome ∧ env.sends a m = true

theorem transact_cases {m : Transaction} {want : Want} {e₁ e₂ e₃ : AbilityMsStatus}
    (h : s.transact env a m want e₁ e₂ e₃ = .ok (status, s')) :
    (s' = s ∧ (status = e₁ ∨ status = e₂ ∨ status = e₃)) ∨
      (status = .ok ∧ s' = s.send a m ∧ s.Reaches env a m) := by
  simp only [transact, bind_eq_ok, appRecord_eq_ok] at h
  obtain ⟨app, happ, h⟩ := h
  cases hc : app.abilityThreadClient with
  | none =>
    rw [hc] at h
    cases h
    exact .inl ⟨rfl, .inl rfl⟩
  | some c =>
    rw [hc] at h
    dsimp only at h
    split at h
    · split at h
      · next hs => cases h; exact .inr ⟨rfl, rfl, app, happ, by rw [hc]; rfl, hs⟩
      · cases h; exact .inl ⟨rfl, .inr (.inr rfl)⟩
    · cases h; exact .inl ⟨rfl, .inr (.inl rfl)⟩

/-- What a lifecycle transaction can do: nothing, with an error of the transaction, or be sent. -/
theorem abilityTransaction_cases {state : TransactionState} {want : Want} {type : AbilityType}
    (h : s.abilityTransaction env a state want type = .ok (status, s')) :
    (s' = s ∧ status.isTransactError = true) ∨
      (status = .ok ∧ s' = s.send a (.lifecycle state want type) ∧
        s.Reaches env a (.lifecycle state want type)) := by
  rcases transact_cases h with ⟨hs, rfl | rfl | rfl⟩ | h
  · exact .inl ⟨hs, rfl⟩
  · exact .inl ⟨hs, rfl⟩
  · exact .inl ⟨hs, rfl⟩
  · exact .inr h

theorem appExitTransaction_cases (h : s.appExitTransaction env a = .ok (status, s')) :
    (s' = s ∧ status.isOk = false) ∨
      (status = .ok ∧ s' = s.send a .appExit ∧ s.Reaches env a .appExit) := by
  simp only [appExitTransaction, bind_eq_ok, appRecord_eq_ok] at h
  obtain ⟨app, happ, h⟩ := h
  cases hc : app.abilityThreadClient with
  | none =>
    rw [hc] at h
    cases h
    exact .inl ⟨rfl, rfl⟩
  | some c =>
    rw [hc] at h
    dsimp only at h
    split at h
    · next hs => cases h; exact .inr ⟨rfl, rfl, app, happ, by rw [hc]; rfl, hs⟩
    · cases h; exact .inl ⟨rfl, rfl⟩

theorem transactState_cases {r : PageAbilityRecord} {state : State}
    (h : s.transactState env t r state = .ok (status, s')) :
    (s' = s ∧ status.isTransactError = true) ∨
      ∃ a, r.appRecord = some a ∧ status = .ok ∧
        s' = s.send a (.lifecycle ⟨t, state⟩ r.want r.abilityInfo.abilityType) ∧
        s.Reaches env a (.lifecycle ⟨t, state⟩ r.want r.abilityInfo.abilityType) := by
  unfold transactState at h
  cases ha : r.appRecord with
  | none =>
    rw [ha] at h
    cases h
    exact .inl ⟨rfl, rfl⟩
  | some a =>
    rw [ha] at h
    rcases abilityTransaction_cases h with h | h
    · exact .inl h
    · exact .inr ⟨a, rfl, h⟩

/-! ## Lifecycle requests -/

/-- A lifecycle transaction for an ability leaves for its process. -/
def Asks (s : AbilityMgr) (env : Env) (t : Token) (state : State) (s' : AbilityMgr) : Prop :=
  ∃ r a, s.records t = some r ∧ r.appRecord = some a ∧
    s.Reaches env a (.lifecycle ⟨t, state⟩ r.want r.abilityInfo.abilityType) ∧
    s' = s.send a (.lifecycle ⟨t, state⟩ r.want r.abilityInfo.abilityType)

theorem activeAbility_cases (h : s.activeAbility env t = .ok (status, s')) :
    ∃ r, s.records t = some r ∧
      ((r.currentState = .active ∧ status.code = .lifeCycleIllegal ∧ s' = s) ∨
        (r.currentState ≠ .active ∧ status.isTransactError = true ∧
          (s' = s ∨ s' = s.modify t (·.freeSid))) ∨
        (r.currentState ≠ .active ∧ status = .ok ∧
          ∃ s₁, s.Asks env t .active s₁ ∧ s' = s₁.modify t (·.freeSid))) := by
  simp only [activeAbility, bind_eq_ok, record_eq_ok] at h
  obtain ⟨r, hr, h⟩ := h
  refine ⟨r, hr, ?_⟩
  split at h
  · next hst =>
    cases h
    exact .inl ⟨hst, rfl, rfl⟩
  · next hst =>
    cases ha : r.appRecord with
    | none =>
      rw [ha] at h
      cases h
      exact .inr (.inl ⟨hst, rfl, .inl rfl⟩)
    | some a =>
      rw [ha] at h
      simp only [bind_eq_ok] at h
      obtain ⟨⟨st, s₁⟩, h₁, h⟩ := h
      cases h
      rcases abilityTransaction_cases h₁ with ⟨rfl, he⟩ | ⟨rfl, rfl, hreach⟩
      · exact .inr (.inl ⟨hst, he, .inr rfl⟩)
      · exact .inr (.inr ⟨hst, rfl, _, ⟨r, a, hr, ha, hreach, rfl⟩, rfl⟩)

/-- What the three requests that leave the record alone have in common: refused by the state of the
ability, refused by its process, or sent. -/
theorem request_cases {r : PageAbilityRecord} {state : State} {refused : Prop} [Decidable refused]
    {msg : String} (hr : s.records t = some r)
    (h : (if refused then .ok (lifeCycleStatus msg, s) else s.transactState env t r state) =
      (.ok (status, s') : Result)) :
    (refused ∧ status.code = .lifeCycleIllegal ∧ s' = s) ∨
      (¬ refused ∧ status.isTransactError = true ∧ s' = s) ∨
      (¬ refused ∧ status = .ok ∧ s.Asks env t state s') := by
  split at h
  · next href =>
    cases h
    exact .inl ⟨href, rfl, rfl⟩
  · next href =>
    rcases transactState_cases h with ⟨hs, he⟩ | ⟨a, ha, hst, hs, hreach⟩
    · exact .inr (.inl ⟨href, he, hs⟩)
    · exact .inr (.inr ⟨href, hst, r, a, hr, ha, hreach, hs⟩)

theorem inactiveAbility_cases (h : s.inactiveAbility env t = .ok (status, s')) :
    ∃ r, s.records t = some r ∧
      (((r.currentState ≠ .active ∧ r.abilityInfo.abilityType ≠ .service) ∧
          status.code = .lifeCycleIllegal ∧ s' = s) ∨
        (¬ (r.currentState ≠ .active ∧ r.abilityInfo.abilityType ≠ .service) ∧
          status.isTransactError = true ∧ s' = s) ∨
        (¬ (r.currentState ≠ .active ∧ r.abilityInfo.abilityType ≠ .service) ∧ status = .ok ∧
          s.Asks env t .inactive s')) := by
  simp only [inactiveAbility, bind_eq_ok, record_eq_ok] at h
  obtain ⟨r, hr, h⟩ := h
  exact ⟨r, hr, request_cases hr h⟩

theorem toBackgroundAbility_cases (h : s.toBackgroundAbility env t = .ok (status, s')) :
    ∃ r, s.records t = some r ∧
      ((r.currentState ≠ .inactive ∧ status.code = .lifeCycleIllegal ∧ s' = s) ∨
        (¬ r.currentState ≠ .inactive ∧ status.isTransactError = true ∧ s' = s) ∨
        (¬ r.currentState ≠ .inactive ∧ status = .ok ∧ s.Asks env t .background s')) := by
  simp only [toBackgroundAbility, bind_eq_ok, record_eq_ok] at h
  obtain ⟨r, hr, h⟩ := h
  exact ⟨r, hr, request_cases hr h⟩

theorem stopAbility_cases (h : s.stopAbility env t = .ok (status, s')) :
    ∃ r, s.records t = some r ∧
      ((r.currentState ≠ .inactive ∧ status.code = .lifeCycleIllegal ∧ s' = s) ∨
        (¬ r.currentState ≠ .inactive ∧ status.isTransactError = true ∧ s' = s) ∨
        (¬ r.currentState ≠ .inactive ∧ status = .ok ∧ s.Asks env t .initial s')) := by
  simp only [stopAbility, bind_eq_ok, record_eq_ok] at h
  obtain ⟨r, hr, h⟩ := h
  exact ⟨r, hr, request_cases hr h⟩

/-! ## Processes -/

/-- `StartAppProcess` gives the record there is, a new one at the end of the list, or none. -/
theorem startAppProcess_cases {bundleInfo : BundleInfo} {o : Option Nat}
    (h : s.startAppProcess gen env bundleInfo = (o, s')) :
    (o = none ∧ (s' = s ∨ s' = { s with generated := s.generated + 1 })) ∨
      (∃ app, s.getAppRecordByBundleName bundleInfo.bundleName = some app ∧
        o = some app.identityId ∧ s' = s) ∨
      (∃ pid, s.getAppRecordByBundleName bundleInfo.bundleName = none ∧
        bundleInfo.bundleName.isSome ∧ o = some (gen.generate s.generated) ∧
        s' = { s with
          generated := s.generated + 1
          appRecords := s.appRecords ++
            [{ identityId := gen.generate s.generated, bundleInfo, pid }] }) := by
  unfold startAppProcess at h
  cases hb : bundleInfo.bundleName with
  | none =>
    rw [hb] at h
    cases h
    exact .inl ⟨rfl, .inl rfl⟩
  | some name =>
    rw [hb] at h
    dsimp only at h
    cases hg : s.getAppRecordByBundleName (some name) with
    | some app =>
      rw [hg] at h
      cases h
      exact .inr (.inl ⟨app, rfl, rfl, rfl⟩)
    | none =>
      rw [hg] at h
      dsimp only at h
      split at h
      · cases h
        exact .inl ⟨rfl, .inr rfl⟩
      · next pid _ =>
        cases h
        exact .inr (.inr ⟨pid, rfl, rfl, rfl, rfl⟩)

theorem getAppRecordByBundleName_mem {name : Option CString} {app : AppRecord}
    (h : s.getAppRecordByBundleName name = some app) :
    app ∈ s.appRecords ∧ name.isSome ∧ app.bundleInfo.bundleName = name := by
  cases name with
  | none => cases h
  | some name =>
    exact ⟨List.mem_of_find?_eq_some h, rfl, of_decide_eq_true (List.find?_some (p :=
      fun app : AppRecord => decide (app.bundleInfo.bundleName = some name)) h)⟩

/-- What is left of the process records when one is removed. -/
theorem removeAppRecordLoop_ok {deleted : Bool} {l l' : List AppRecord}
    (h : removeAppRecordLoop a deleted l = .ok l') :
    l' = l ∧ (deleted = true → l = []) ∧ (∀ app ∈ l, app.identityId ≠ a) ∨
      ∃ app, app.identityId = a ∧ deleted = false ∧ l = l' ++ [app] ∧
        ∀ app ∈ l', app.identityId ≠ a := by
  induction l generalizing deleted l' with
  | nil =>
    cases deleted <;> cases h <;> exact .inl ⟨rfl, fun _ => rfl, fun _ h => nomatch h⟩
  | cons current rest ih =>
    cases deleted with
    | true => cases h
    | false =>
      simp only [removeAppRecordLoop] at h
      split at h
      · next hid =>
        rcases ih h with ⟨rfl, hrest, -⟩ | ⟨_, _, hd, _⟩
        · rw [hrest rfl] at h ⊢
          exact .inr ⟨current, hid, rfl, rfl, fun _ h => nomatch h⟩
        · cases hd
      · next hid =>
        simp only [bind_eq_ok] at h
        obtain ⟨l₁, h₁, h⟩ := h
        cases h
        rcases ih h₁ with ⟨rfl, -, hne⟩ | ⟨app, hap, _, rfl, hne⟩
        · refine .inl ⟨rfl, fun h => (by cases h), ?_⟩
          exact List.forall_mem_cons.mpr ⟨hid, hne⟩
        · exact .inr ⟨app, hap, rfl, rfl, List.forall_mem_cons.mpr ⟨hid, hne⟩⟩

/-- A process record can only be removed when it is the last of the list. -/
theorem removeAppRecord_cases (h : s.removeAppRecord a = .ok s') :
    ∃ app l, s.app a = some app ∧ app.identityId = a ∧ s.appRecords = l ++ [app] ∧
      (∀ app ∈ l, app.identityId ≠ a) ∧ s' = { s with appRecords := l } := by
  simp only [removeAppRecord, bind_eq_ok, appRecord_eq_ok] at h
  obtain ⟨app, happ, l, hl, h⟩ := h
  have hid : app.identityId = a := app_identityId happ
  rw [hid] at hl
  cases h
  rcases removeAppRecordLoop_ok hl with ⟨-, -, hne⟩ | ⟨last, hlast, -, hsplit, hne⟩
  · exact absurd hid (hne app (app_mem happ))
  · have hsame : app = last := by
      have hmem := app_mem happ
      rw [hsplit, List.mem_append, List.mem_singleton] at hmem
      rcases hmem with hmem | hmem
      · exact absurd hid (hne app hmem)
      · exact hmem
    exact ⟨app, l, happ, hid, hsame ▸ hsplit, hne, rfl⟩

/-! ## Starting and exiting -/

/-- The state after an ability was made to wait for its process. -/
def await (s : AbilityMgr) (t : Token) (a : Nat) : AbilityMgr :=
  (s.modify t fun r => (r.setAppRecord (some a)).accept).modifyApp a (·.setPendingAbility (some t))

theorem startWith_cases {first : Token → AbilityMgr → Result}
    (h : s.startWith gen env first t = .ok (status, s')) :
    ∃ r, s.records t = some r ∧
      ((r.appRecord = none ∧ status.isProcessError = true ∧
          (s' = s ∨ s' = { s with generated := s.generated + 1 })) ∨
        (r.appRecord = none ∧ status = .ok ∧
          ∃ a s₁, s.startAppProcess gen env r.bundleInfo = (some a, s₁) ∧ s' = s₁.await t a) ∨
        (r.appRecord.isSome ∧ ∃ s₁, first t s = .ok (status, s₁) ∧
          s' = if status.isOk then s₁.modify t (·.accept) else s₁)) := by
  simp only [startWith, bind_eq_ok, record_eq_ok] at h
  obtain ⟨r, hr, h⟩ := h
  refine ⟨r, hr, ?_⟩
  cases ha : r.appRecord with
  | none =>
    rw [ha] at h
    dsimp only at h
    split at h
    · next s₁ hstart =>
      cases h
      rcases startAppProcess_cases hstart with ⟨-, hs⟩ | ⟨_, _, ho, _⟩ | ⟨_, _, _, ho, _⟩
      · exact .inl ⟨rfl, rfl, hs⟩
      · cases ho
      · cases ho
    · next a s₁ hstart =>
      cases h
      exact .inr (.inl ⟨rfl, rfl, a, s₁, hstart, rfl⟩)
  | some a =>
    rw [ha] at h
    simp only [bind_eq_ok] at h
    obtain ⟨⟨st, s₁⟩, h₁, h⟩ := h
    cases h
    exact .inr (.inr ⟨rfl, s₁, h₁, rfl⟩)

theorem exitApp_cases (h : s.exitApp env t = .ok (status, s')) :
    ∃ r, s.records t = some r ∧
      ((s' = s ∧ status.isOk = false) ∨
        ∃ a s₁, r.appRecord = some a ∧ status = .ok ∧ s.Reaches env a .appExit ∧
          (s.send a .appExit).removeAppRecord a = .ok s₁ ∧
          s' = s₁.modify t (·.setAppRecord none)) := by
  simp only [exitApp, bind_eq_ok, record_eq_ok] at h
  obtain ⟨r, hr, h⟩ := h
  refine ⟨r, hr, ?_⟩
  cases ha : r.appRecord with
  | none =>
    rw [ha] at h
    cases h
    exact .inl ⟨rfl, rfl⟩
  | some a =>
    rw [ha] at h
    simp only [bind_eq_ok] at h
    obtain ⟨⟨st, s₁⟩, h₁, h⟩ := h
    rcases appExitTransaction_cases h₁ with ⟨rfl, he⟩ | ⟨rfl, rfl, hreach⟩
    · dsimp only at h
      rw [he] at h
      cases h
      exact .inl ⟨rfl, he⟩
    · simp only [isOk_ok, if_true, bind_eq_ok] at h
      obtain ⟨s₂, h₂, h⟩ := h
      cases h
      exact .inr ⟨a, s₂, rfl, rfl, hreach, h₂, rfl⟩

/-- The destructor frees the record, and the process record forgets it as pending. -/
theorem delete_cases (h : s.delete t = .ok s') :
    ∃ r, s.records t = some r ∧
      ((r.appRecord = none ∧ s' = { s with records := s.records.erase t }) ∨
        ∃ a app, r.appRecord = some a ∧ s.app a = some app ∧
          s' = { s.modifyApp a (·.clearPendingAbility t) with records := s.records.erase t }) := by
  simp only [delete, bind_eq_ok, record_eq_ok] at h
  obtain ⟨r, hr, h⟩ := h
  refine ⟨r, hr, ?_⟩
  cases ha : r.appRecord with
  | none =>
    rw [ha] at h
    cases h
    exact .inl ⟨rfl, rfl⟩
  | some a =>
    rw [ha] at h
    simp only [bind_eq_ok, appRecord_eq_ok] at h
    obtain ⟨app, happ, h⟩ := h
    cases h
    exact .inr ⟨a, app, rfl, happ, rfl⟩

end AbilityMgr
end AbilityLite.Ams
