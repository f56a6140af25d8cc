import AbilityLite.Ams.Foreground
import AbilityLite.Ams.Links
import AbilityLite.Ams.Runs

/-
  The want a page is made active with.

  A record copies the want it was made for, and `ActiveAbility` sends that copy and lets the
  identity of the caller go. `Follows` says what this comes to over many activations: the
  first carries the want whole, the later ones without the identity. `Carries` is the same for what
  AMS does between two states, and holds over everything that activates the page only where its
  process takes the transaction. What a start does with its want is then a question of the record it
  ends with: a page that is brought up again keeps the want it has.
-/

namespace AbilityLite.Ams
open AbilityMsStatus Fallible Relation

/-- The want once the address of the caller is gone. -/
def Want.free (want : Want) : Want := { want with sid := none }

@[simp] theorem Want.free_free (want : Want) : want.free.free = want.free := rfl

theorem Want.free_of_none {want : Want} (h : want.sid = none) : want.free = want := by
  cases want
  cases h
  rfl

/-- The wants an ability is made active with, in the order they are sent. -/
def activeWants (t : Token) (l : List (Nat × Transaction)) : List Want := l.filterMap (·.2.activeWant t)

@[simp] theorem activeWants_nil (t : Token) : activeWants t [] = [] := rfl

@[simp] theorem activeWants_append (t : Token) (l l' : List (Nat × Transaction)) :
    activeWants t (l ++ l') = activeWants t l ++ activeWants t l' := List.filterMap_append ..

theorem activeWants_of_none {t : Token} {m : Transaction} (h : m.activeWant t = none) (a : Nat) :
    activeWants t [(a, m)] = [] := List.filterMap_cons_none h

/-- What activations make of the want of a record: the first takes it whole, the later ones without the
identity. The record may be deleted, and does not come back. -/
inductive Follows : Option Want → List Want → Option Want → Prop
  | gone : Follows none [] none
  | unsent {want : Want} {w' : Option Want} (h : w' = some want ∨ w' = none) : Follows (some want) [] w'
  | sent {want : Want} {later : List Want} {w' : Option Want} (hlater : ∀ x ∈ later, x = want.free)
      (h : w' = some want.free ∨ w' = none) : Follows (some want) (want :: later) w'

namespace Follows
variable {w w' w'' : Option Want} {l l' : List Want}

theorem refl (w : Option Want) : Follows w [] w := by
  cases w with
  | none => exact .gone
  | some want => exact .unsent (.inl rfl)

theorem erased (w : Option Want) : Follows w [] none := by
  cases w with
  | none => exact .gone
  | some want => exact .unsent (.inr rfl)

/-- After an identity has gone, none comes back. -/
theorem all_free {want : Want} (h : Follows (some want.free) l w') :
    (∀ x ∈ l, x = want.free) ∧ (w' = some want.free ∨ w' = none) := by
  cases h with
  | unsent h => exact ⟨fun x hx => (by cases hx), h⟩
  | sent hlater h => exact ⟨List.forall_mem_cons.mpr ⟨rfl, hlater⟩, h⟩

theorem trans (h : Follows w l w') (h' : Follows w' l' w'') : Follows w (l ++ l') w'' := by
  cases h with
  | gone => exact h'
  | unsent h =>
    rcases h with rfl | rfl
    · exact h'
    · cases h' with
      | gone => exact .erased _
  | sent hlater h =>
    rcases h with rfl | rfl
    · obtain ⟨hrest, hend⟩ := all_free h'
      refine .sent (fun x hx => ?_) hend
      rcases List.mem_append.mp hx with hx | hx
      · exact hlater x hx
      · exact hrest x hx
    · cases h' with
      | gone =>
        rw [List.append_nil]
        exact .sent hlater (.inr rfl)

end Follows

namespace AbilityMgr
variable {gen : TokenGenerate} {env : Env} {s s' : AbilityMgr} {t p : Token} {a id : Nat}
  {st : StackType} {status : AbilityMsStatus} {m : AbilityMissionRecord} {name : CString}

/-- The want of a record that is not deleted. -/
def wantOf (s : AbilityMgr) (t : Token) : Option Want := (s.records t).map (·.want)

theorem wantOf_congr (h : s'.records t = s.records t) : s'.wantOf t = s.wantOf t := by
  unfold wantOf
  rw [h]

theorem wantOf_modify {f : PageAbilityRecord → PageAbilityRecord} (hne : t ≠ p) :
    (s.modify p f).wantOf t = s.wantOf t := wantOf_congr (Store.modify_ne _ f hne)

/-- The page is taken by its process when it is made active, or has no identity to lose. -/
def Takes (s : AbilityMgr) (env : Env) (t : Token) : Prop :=
  ∀ r a, s.records t = some r → r.currentState ≠ .active → r.appRecord = some a →
    r.want.sid = none ∨ (env.serializes r.want = true ∧
      s.Reaches env a (.lifecycle ⟨t, .active⟩ r.want r.abilityInfo.abilityType))

/-! ## What is not sent -/

/-- Nothing that makes the ability active is sent. -/
def Unsent (t : Token) (s s' : AbilityMgr) : Prop :=
  ∃ l, s'.sent = s.sent ++ l ∧ activeWants t l = []

namespace Unsent

theorem of_sent (h : s'.sent = s.sent) : Unsent t s s' := ⟨[], by rw [h, List.append_nil], rfl⟩

theorem trans {s s' s'' : AbilityMgr} (h : Unsent t s s') (h' : Unsent t s' s'') : Unsent t s s'' := by
  obtain ⟨l, hl, hnone⟩ := h
  obtain ⟨l', hl', hnone'⟩ := h'
  refine ⟨l ++ l', ?_, ?_⟩
  · rw [hl', hl, List.append_assoc]
  · rw [activeWants_append, hnone, hnone', List.append_nil]

theorem send {m : Transaction} (hm : m.activeWant t = none) : Unsent t s (s.send a m) :=
  ⟨[(a, m)], rfl, activeWants_of_none hm a⟩

theorem delete (h : s.delete p = .ok s') : Unsent t s s' := by
  obtain ⟨r, _, ⟨_, rfl⟩ | ⟨a, app, _, _, rfl⟩⟩ := delete_cases h <;> exact .of_sent rfl

theorem frame : Frame gen (Unsent t) where
  refl s := .of_sent rfl
  trans := trans
  same _ _ hsent _ _ := .of_sent hsent
  edit _ _ _ := .of_sent rfl
  send _ hactive := .send (hactive t)
  create _ _ := .of_sent rfl
  push := by
    intro s p
    unfold pushServiceRecord
    split <;> exact .of_sent rfl
  delete h := .delete h

end Unsent

/-! ## What becomes of a want -/

/-- The want of an ability goes where its activations take it. -/
structure Carries (gen : TokenGenerate) (t : Token) (s s' : AbilityMgr) : Prop where
  generated : s.generated ≤ s'.generated
  sent : ∃ l, s'.sent = s.sent ++ l ∧ ((∃ k < s.generated, t = gen.generate k) →
    Follows (s.wantOf t) (activeWants t l) (s'.wantOf t))

namespace Carries

theorem of_unsent (hgenerated : s.generated ≤ s'.generated) (hsent : Unsent t s s')
    (hwant : (∃ k < s.generated, t = gen.generate k) → s'.wantOf t = s.wantOf t ∨ s'.wantOf t = none) :
    Carries gen t s s' := by
  obtain ⟨l, hl, hnone⟩ := hsent
  refine ⟨hgenerated, l, hl, fun hknown => ?_⟩
  rw [hnone]
  rcases hwant hknown with hsame | hgone
  · rw [hsame]
    exact .refl _
  · rw [hgone]
    exact .erased _

theorem of_records (hrecords : s'.records = s.records) (hsent : s'.sent = s.sent)
    (hgenerated : s.generated ≤ s'.generated) : Carries gen t s s' :=
  .of_unsent hgenerated (.of_sent hsent) fun _ => .inl (wantOf_congr (congrFun hrecords t))

theorem refl (s : AbilityMgr) : Carries gen t s s := .of_records rfl rfl (Nat.le_refl _)

theorem trans {s s' s'' : AbilityMgr} (h : Carries gen t s s') (h' : Carries gen t s' s'') :
    Carries gen t s s'' := by
  obtain ⟨l, hl, hfollows⟩ := h.sent
  obtain ⟨l', hl', hfollows'⟩ := h'.sent
  refine ⟨Nat.le_trans h.generated h'.generated, l ++ l', ?_, fun hknown => ?_⟩
  · rw [hl', hl, List.append_assoc]
  · obtain ⟨k, hk, ht⟩ := hknown
    rw [activeWants_append]
    exact (hfollows ⟨k, hk, ht⟩).trans (hfollows' ⟨k, Nat.lt_of_lt_of_le hk h.generated, ht⟩)

/-- An edit that leaves the want of the record as it is. -/
theorem editing {f : PageAbilityRecord → PageAbilityRecord}
    (hf : ∀ r, s.records p = some r → (f r).want = r.want) : Carries gen t s (s.modify p f) := by
  refine .of_unsent (Nat.le_refl _) (.of_sent rfl) fun _ => .inl ?_
  by_cases hp : t = p
  · subst hp
    unfold wantOf
    show (s.records.modify t f t).map (·.want) = _
    rw [Store.modify_same]
    cases hr : s.records t with
    | none => rfl
    | some r => exact congrArg some (hf r hr)
  · exact wantOf_modify hp

theorem edit {f : PageAbilityRecord → PageAbilityRecord} (hf : ∀ r, (f r).want = r.want) :
    Carries gen t s (s.modify p f) := .editing fun r _ => hf r

/-- An edit of another record. -/
theorem other {f : PageAbilityRecord → PageAbilityRecord} (hne : t ≠ p) :
    Carries gen t s (s.modify p f) :=
  .of_unsent (Nat.le_refl _) (.of_sent rfl) fun _ => .inl (wantOf_modify hne)

theorem wantOf_send (m : Transaction) : (s.send a m).wantOf t = s.wantOf t := by
  cases m with
  | lifecycle state want type =>
    by_cases ht : t = state.token
    · unfold wantOf
      show (s.records.modify state.token (·.transact) t).map (·.want) = _
      rw [ht, Store.modify_same, Option.map_map]
      rfl
    · exact wantOf_modify ht
  | _ => rfl

theorem send {m : Transaction} (hm : m.activeWant t = none) : Carries gen t s (s.send a m) := by
  have hgenerated : s.generated ≤ (s.send a m).generated := Nat.le_refl _
  exact .of_unsent hgenerated (.send hm) fun _ => .inl (wantOf_send m)

/-- A token that was generated is not that of a new record. -/
theorem create {info : AbilityInfo} {want : Want} {f : PageAbilityRecord → PageAbilityRecord} :
    Carries gen t s ((s.newPageAbility gen info want).2.modify (gen.generate s.generated) f) := by
  refine .of_unsent (Nat.le_succ _) (.of_sent rfl) fun hknown => .inl ?_
  obtain ⟨k, hk, rfl⟩ := hknown
  have hne : gen.generate k ≠ gen.generate s.generated := fun he =>
    absurd (gen.injective _ _ he) (Nat.ne_of_lt hk)
  rw [wantOf_modify hne]
  exact wantOf_congr (Store.insert_ne _ _ hne)

theorem delete (h : s.delete p = .ok s') : Carries gen t s s' := by
  have herase (x : AbilityMgr) (hsent : x.sent = s.sent) (hgenerated : x.generated = s.generated) :
      Carries gen t s { x with records := s.records.erase p } := by
    refine .of_unsent (Nat.le_of_eq hgenerated.symm) (.of_sent hsent) fun _ => ?_
    by_cases hp : t = p
    · refine .inr ?_
      unfold wantOf
      show (s.records.erase p t).map (·.want) = none
      rw [hp, Store.erase_same, Option.map_none]
    · exact .inl (wantOf_congr (Store.erase_ne _ hp))
  obtain ⟨r, _, ⟨_, rfl⟩ | ⟨a, app, _, _, rfl⟩⟩ := delete_cases h
  · exact herase s rfl rfl
  · exact herase (s.modifyApp a (·.clearPendingAbility p)) rfl rfl

/-- What touches no want carries it. -/
theorem frame : Frame gen (Carries gen t) where
  refl := refl
  trans := trans
  same _ hrecords hsent _ hgenerated := .of_records hrecords hsent hgenerated
  edit _ hwant _ := .edit hwant
  send _ hactive := .send (hactive t)
  create _ _ := .create
  push := by
    intro s p
    unfold pushServiceRecord
    split
    · exact .refl _
    · exact .of_records rfl rfl (Nat.le_refl _)
  delete h := .delete h

/-! ### Activations -/

theorem abilityTransaction_sends {state : TransactionState} {want : Want} {type : AbilityType}
    (hserializes : env.serializes want = true) (hreach : s.Reaches env a (.lifecycle state want type)) :
    s.abilityTransaction env a state want type = .ok (.ok, s.send a (.lifecycle state want type)) := by
  obtain ⟨app, happ, hclient, hsends⟩ := hreach
  obtain ⟨client, hclient⟩ := Option.isSome_iff_exists.mp hclient
  have happ := appRecord_eq_ok.mpr happ
  simp only [abilityTransaction, AbilityMgr.transact, happ, hclient, hserializes, hsends, if_true,
    Bind.bind, Except.bind]

/-- The transaction takes the want along, and the identity goes. -/
theorem asks {s₁ : AbilityMgr} (h : s.Asks env t .active s₁) :
    Carries gen t s (s₁.modify t (·.freeSid)) := by
  obtain ⟨r, a, hr, -, -, rfl⟩ := h
  refine ⟨Nat.le_refl _, [(a, .lifecycle ⟨t, .active⟩ r.want r.abilityInfo.abilityType)], rfl,
    fun _ => ?_⟩
  have hbefore : s.wantOf t = some r.want := by
    unfold wantOf
    rw [hr, Option.map_some]
  have hafter : ((s.send a (.lifecycle ⟨t, .active⟩ r.want r.abilityInfo.abilityType)).modify t
      (·.freeSid)).wantOf t = some r.want.free := by
    unfold wantOf
    show ((s.records.modify t (·.transact)).modify t (·.freeSid) t).map (·.want) = _
    rw [Store.modify_same, Store.modify_same, hr]
    rfl
  have hone : activeWants t [(a, .lifecycle ⟨t, .active⟩ r.want r.abilityInfo.abilityType)] = [r.want] :=
    List.filterMap_cons_some (if_pos rfl)
  rw [hbefore, hafter, hone]
  exact .sent (fun x hx => by cases hx) (.inl rfl)

theorem activeAbility (htakes : p = t → s.Takes env t) (h : s.activeAbility env p = .ok (status, s')) :
    Carries gen t s s' := by
  by_cases hp : p = t
  · subst hp
    simp only [AbilityMgr.activeAbility, bind_eq_ok, record_eq_ok] at h
    obtain ⟨r, hr, h⟩ := h
    split at h
    · cases h
      exact .refl _
    next hst =>
    split at h
    · cases h
      exact .refl _
    next a ha =>
    simp only [bind_eq_ok] at h
    obtain ⟨⟨st, s₁⟩, h₁, h⟩ := h
    cases h
    rcases abilityTransaction_cases h₁ with ⟨rfl, hfail⟩ | ⟨-, rfl, hreach⟩
    · rcases htakes rfl r a hr hst ha with hnone | ⟨hserializes, hreach⟩
      · refine .editing fun r' hr' => ?_
        rw [hr] at hr'
        cases hr'
        exact Want.free_of_none hnone
      · rw [abilityTransaction_sends hserializes hreach] at h₁
        obtain ⟨rfl, -⟩ := Prod.mk.inj (Except.ok.inj h₁)
        cases hfail
    · exact asks ⟨r, a, hr, ha, hreach, rfl⟩
  · refine frame.activeAbility (fun hasks => ?_) (fun _ => .other (Ne.symm hp)) h
    obtain ⟨r, a, _, _, _, rfl⟩ := hasks
    exact .send (if_neg hp)

theorem startAbility (htakes : p = t → s.Takes env t) (h : s.startAbility gen env p = .ok (status, s')) :
    Carries gen t s s' := frame.startAbility (fun _ _ => activeAbility htakes) h

/-! ### Services and their clients -/

theorem transact {want : Want} {m : Transaction} {e₁ e₂ e₃ : AbilityMsStatus}
    (hm : m.activeWant t = none) (h : s.transact env a m want e₁ e₂ e₃ = .ok (status, s')) :
    Carries gen t s s' := by
  rcases transact_cases h with ⟨rfl, -⟩ | ⟨-, rfl, -⟩
  · exact .refl _
  · exact .send hm

theorem notify {sid : SvcIdentity} {m : Callback} : Carries gen t s (s.notify env sid m) := by
  unfold AbilityMgr.notify
  split
  · exact .of_records rfl rfl (Nat.le_refl _)
  · exact .refl _

theorem callbackTransactions {m : Callback} {l : List AbilityConnectRecord}
    (h : callbackTransactions env a m l s = .ok s') : Carries gen t s s' := by
  induction l generalizing s with
  | nil =>
    cases h
    exact .refl _
  | cons c cs ih =>
    simp only [AbilityMgr.callbackTransactions, callbackTransaction, bind_eq_ok] at h
    obtain ⟨s₁, ⟨app, _, h₁⟩, h⟩ := h
    refine Carries.trans ?_ (ih h)
    split at h₁
    · cases h₁
      exact .refl _
    · cases h₁
      exact .notify

theorem connection (status : ConnectStatus) : Carries gen t s (s.modify p (·.setConnectStatus status)) :=
  .edit fun _ => rfl

theorem connectAbility (h : s.connectAbility env p = .ok (status, s')) : Carries gen t s s' := by
  obtain ⟨r, _, ⟨_, _, rfl⟩ | ⟨a, _, h⟩⟩ := service_cases h
  · exact .refl _
  · exact .transact rfl h

theorem connectAbilityDone (h : s.connectAbilityDone env p = .ok (status, s')) : Carries gen t s s' := by
  obtain ⟨r, _, ⟨_, _, rfl⟩ | ⟨a, _, h⟩⟩ := service_cases h
  · exact .refl _
  · simp only [bind_eq_ok] at h
    obtain ⟨s₁, h₁, h⟩ := h
    cases h
    have hdone : Carries gen t s
        (s.modify p fun r => r.setConnectRecords (r.connectRecords.map (·.done))) := .edit fun _ => rfl
    exact hdone.trans (callbackTransactions h₁)

theorem stopAbilityDone (h : s.stopAbilityDone env p = .ok (status, s')) : Carries gen t s s' := by
  obtain ⟨r, _, ⟨_, _, rfl⟩ | ⟨a, _, h⟩⟩ := service_cases h
  · exact .refl _
  · simp only [bind_eq_ok] at h
    obtain ⟨s₁, h₁, h⟩ := h
    cases h
    exact (connection .stopped).trans (callbackTransactions h₁)

theorem performStop {r : PageAbilityRecord} (h : s.performStop env a p r = .ok (status, s')) :
    Carries gen t s s' := (connection .stopping).trans (.transact rfl h)

theorem performDisconnect {r : PageAbilityRecord}
    (h : s.performDisconnect env a p r = .ok (status, s')) : Carries gen t s s' :=
  (connection .disconnecting).trans (.transact rfl h)

theorem disconnectAbility {sid : SvcIdentity} (h : s.disconnectAbility env p sid = .ok (status, s')) :
    Carries gen t s s' := by
  obtain ⟨r, _, ⟨_, _, rfl⟩ | ⟨a, _, h⟩⟩ := service_cases h
  · exact .refl _
  have hleaves : Carries gen t s (s.modify p (·.removeConnectRecord sid)) := .edit fun _ => rfl
  refine hleaves.trans ?_
  dsimp only at h
  split at h
  · cases h
    exact .refl _
  split at h
  · cases h
    exact .refl _
  split at h
  · exact performDisconnect h
  · cases h
    exact .refl _

theorem disconnectAbilityDone (h : s.disconnectAbilityDone env p = .ok (status, s')) :
    Carries gen t s s' := by
  obtain ⟨r, _, ⟨_, _, rfl⟩ | ⟨a, _, h⟩⟩ := service_cases h
  · exact .refl _
  have hstatus : Carries gen t s
      (s.modify p (·.setConnectStatus (if r.startDone then .init else .disconnect))) := connection _
  refine hstatus.trans ?_
  dsimp only at h
  split at h
  · exact performStop h
  · cases h
    exact .refl _

theorem forceStopServiceAbility (h : s.forceStopServiceAbility env p = .ok (status, s')) :
    Carries gen t s s' := by
  obtain ⟨r, _, ⟨_, _, rfl⟩ | ⟨a, _, h⟩⟩ := service_cases h
  · exact .refl _
  have hforce : Carries gen t s (s.modify p (·.setForceStop)) := .edit fun _ => rfl
  refine hforce.trans ?_
  dsimp only at h
  split at h
  · cases h
    exact .refl _
  split at h
  · cases h
    exact .refl _
  split at h
  · exact performStop h
  · exact performDisconnect h

theorem removeConnectRecordByPageToken {token : Token}
    (h : s.removeConnectRecordByPageToken env p token = .ok s') : Carries gen t s s' := by
  simp only [AbilityMgr.removeConnectRecordByPageToken, bind_eq_ok, record_eq_ok] at h
  obtain ⟨r, _, h⟩ := h
  split at h
  · cases h
    exact .refl _
  have hedit : Carries gen t s
      (s.modify p (·.setConnectRecords (r.connectRecords.filter (·.abilityToken ≠ token)))) :=
    .edit fun _ => rfl
  split at h
  · simp only [bind_eq_ok] at h
    obtain ⟨⟨_, s₁⟩, h₁, h⟩ := h
    cases h
    exact hedit.trans (frame.stopAbility h₁)
  · cases h
    exact hedit

theorem dropService
    (h : { s with serviceRecords := s.serviceRecords.filter (· ≠ p) }.delete p = .ok s') :
    Carries gen t s s' := by
  have hlist : Carries gen t s { s with serviceRecords := s.serviceRecords.filter (· ≠ p) } :=
    .of_records rfl rfl (Nat.le_refl _)
  exact hlist.trans (delete h)

theorem removeServiceRecord (h : s.removeServiceRecord p = .ok s') : Carries gen t s s' := by
  rcases removeServiceRecord_cases h with ⟨_, h⟩ | ⟨_, rfl⟩
  · exact dropService h
  · exact .refl _

/-! ### Clearing a bundle away -/

theorem removeServiceRecords {ts : List Token} (h : removeServiceRecords env name ts s = .ok s') :
    Carries gen t s s' := by
  induction ts generalizing s with
  | nil =>
    cases h
    exact .refl _
  | cons p ts ih =>
    obtain ⟨r, _, ⟨_, h⟩ | ⟨_, status, s₁, s₂, h₁, h₂, h⟩⟩ := removeServiceRecords_cons h
    · exact ih h
    · exact (stopAbilityDone h₁).trans ((dropService h₂).trans (ih h))

theorem removeConnectRecords {token : Token} {ts : List Token}
    (h : removeConnectRecords env token name ts s = .ok s') : Carries gen t s s' := by
  induction ts generalizing s with
  | nil =>
    cases h
    exact .refl _
  | cons p ts ih =>
    simp only [AbilityMgr.removeConnectRecords, bind_eq_ok, record_eq_ok] at h
    obtain ⟨r, _, h⟩ := h
    split at h
    · simp only [bind_eq_ok] at h
      obtain ⟨s₁, h₁, h⟩ := h
      exact (removeConnectRecordByPageToken h₁).trans (ih h)
    · exact ih h

theorem clearPageAbility {name : Option CString} {ts : List Token}
    (h : clearPageAbility env name ts s = .ok s') : Carries gen t s s' := by
  induction ts generalizing s with
  | nil =>
    cases h
    exact .refl _
  | cons p ts ih =>
    cases name with
    | none =>
      simp only [AbilityMgr.clearPageAbility, bind_eq_ok] at h
      obtain ⟨_, h₁, s₂, h₂, h⟩ := h
      cases h₁
      exact (delete h₂).trans (ih h)
    | some name =>
      simp only [AbilityMgr.clearPageAbility, bind_eq_ok] at h
      obtain ⟨s₁, h₁, s₂, h₂, h⟩ := h
      exact (removeConnectRecords h₁).trans ((delete h₂).trans (ih h))

theorem clearAbilityStack (hshape : s.Shape) (h : s.clearAbilityStack env name = .ok s') :
    Carries gen t s s' := by
  obtain ⟨s₁, s₂, h₁, h₂, -, -, h⟩ := clearAbilityStack_split hshape h
  refine (removeServiceRecords h₁).trans ((frame.returnFrom h₂).trans ?_)
  obtain ⟨-, rfl⟩ | ⟨m, -, -, s₃, h₃, -, rfl⟩ := h
  · exact .refl _
  · exact (frame.modifyMission _).trans ((clearPageAbility h₃).trans frame.dropMission)

end Carries

/-! ## The page a start brings up -/

/-- The page that a start brings up again: the one on top of the mission the bundle has, when the start
comes from the other stack or asks for this page. -/
def broughtAgain (s : AbilityMgr) (target : AbilityInfo) (want : Want) : Option Token :=
  match s.getTargetMissionRecord (targetStack target.bundleName) target.bundleName with
  | none => none
  | some m =>
    if switchesStack target (s.getTopPageAbility.bind s.records) ∨
        (m.getTopPageAbility.bind s.records).any (·.isSamePageAbility want) then m.getTopPageAbility
    else none

section
variable {target : AbilityInfo} {want : Want} {bundleInfo : BundleInfo} {s₁ : AbilityMgr}

/-- The record of a new page has a copy of the want. -/
theorem wantOf_newPage : ((s.newPageAbility gen target want).2.modify (gen.generate s.generated)
    (·.setMissionRecord id)).wantOf (gen.generate s.generated) = some want.copy := by
  unfold wantOf
  show ((Store.insert s.records (gen.generate s.generated) _).modify _
    (·.setMissionRecord id) _).map _ = _
  rw [Store.modify_same, Store.insert_same]
  rfl

theorem records_pushTop : (s.pushTopMissionRecord m).records = s.records := by
  unfold AbilityMgr.pushTopMissionRecord
  dsimp only
  split
  · rfl
  · exact (onlyLists_setStack _).records

theorem records_moveToTop (h : s.moveMissionRecordToTop st id = .ok s') : s'.records = s.records := by
  obtain ⟨l, -, rfl⟩ := moveMissionRecordToTop_cases h
  exact (onlyLists_setStack l).records

/-- Where a start finds its page: it is new, and its record has the want of the start, or it is on
a mission, which comes up. -/
theorem targetPage_page {top : Option PageAbilityRecord}
    (htop : top = s.getTopPageAbility.bind s.records)
    (h : s.targetPage gen target want top (targetStack target.bundleName) = .ok (some t, id, s')) :
    (s.broughtAgain target want = none ∧ t = gen.generate s.generated ∧ s'.wantOf t = some want.copy) ∨
      (s.broughtAgain target want = some t ∧
        ∃ m, t ∈ m.pageAbilityRecords ∧ m ∈ s.stack (targetStack target.bundleName) ∧
          s.moveMissionRecordToTop (targetStack target.bundleName) m.id = .ok s') := by
  unfold AbilityMgr.targetPage at h
  unfold broughtAgain
  rw [← htop]
  cases hm : s.getTargetMissionRecord (targetStack target.bundleName) target.bundleName with
  | none =>
    rw [hm] at h
    cases h
    refine .inl ⟨rfl, rfl, ?_⟩
    refine (wantOf_congr (congrFun records_pushTop _)).trans ?_
    have hwant : ((s.newPageAbility gen target want).2.modify (gen.generate s.generated)
        (·.setMissionRecord s.missions)).wantOf (gen.generate s.generated) = some want.copy :=
      wantOf_newPage
    exact hwant
  | some m =>
    rw [hm] at h
    have hmem := (getTargetMissionRecord_mem hm).1
    dsimp only at h ⊢
    have again {p : Token} (hp : m.getTopPageAbility = some p) {s₁ : AbilityMgr}
        (h₁ : s.moveMissionRecordToTop (targetStack target.bundleName) m.id = .ok s₁) :
        ∃ m, p ∈ m.pageAbilityRecords ∧ m ∈ s.stack (targetStack target.bundleName) ∧
          s.moveMissionRecordToTop (targetStack target.bundleName) m.id = .ok s₁ :=
      ⟨m, List.mem_of_getLast? hp, hmem, h₁⟩
    split at h
    · next hswitch =>
      simp only [bind_eq_ok] at h
      obtain ⟨s₁, h₁, h⟩ := h
      obtain ⟨hp, rfl, rfl⟩ := Prod.mk.inj (Except.ok.inj h) |>.imp_right Prod.mk.inj
      rw [if_pos (.inl hswitch)]
      exact .inr ⟨hp, again hp h₁⟩
    next hswitch =>
    split at h
    · next p hp =>
      simp only [bind_eq_ok, record_eq_ok] at h
      obtain ⟨r, hr, h⟩ := h
      have hsame : (m.getTopPageAbility.bind s.records).any (·.isSamePageAbility want) =
          r.isSamePageAbility want := by
        rw [hp]
        show (s.records p).any _ = _
        rw [hr, Option.any_some]
      rw [hsame]
      split at h
      · next hyes =>
        simp only [bind_eq_ok] at h
        obtain ⟨s₁, h₁, h⟩ := h
        cases h
        rw [if_pos (.inr hyes)]
        exact .inr ⟨hp, again hp h₁⟩
      · next hno =>
        simp only [bind_eq_ok] at h
        obtain ⟨s₁, h₁, h⟩ := h
        cases h
        rw [if_neg (not_or.mpr ⟨hswitch, hno⟩)]
        exact .inl ⟨rfl, rfl, (wantOf_congr (congrFun (records_moveToTop h₁) _)).trans wantOf_newPage⟩
    · next hp =>
      simp only [bind_eq_ok] at h
      obtain ⟨s₁, h₁, h⟩ := h
      cases h
      refine .inl ⟨?_, rfl, (wantOf_congr (congrFun (records_moveToTop h₁) _)).trans wantOf_newPage⟩
      split
      · exact hp
      · rfl

/-- The page of a start: it is new and has the want of the start, or it is brought up again, and
only the missions move. -/
theorem generatePageAbility_page
    (h : s.generatePageAbility gen target want s.getTopPageAbility = .ok (some t, s')) :
    (s.broughtAgain target want = none ∧ t = gen.generate s.generated ∧ s'.wantOf t = some want.copy) ∨
      (s.broughtAgain target want = some t ∧ OnlyLists s s' ∧ s.OnStack t) := by
  unfold AbilityMgr.generatePageAbility at h
  split at h
  · cases h
  simp only [bind_eq_ok] at h
  obtain ⟨⟨page, id, s₁⟩, h₁, h⟩ := h
  obtain ⟨rfl, hs'⟩ := Prod.mk.inj (Except.ok.inj h)
  -- The mission brought up may go back to the one that was on top, and nothing else is linked.
  have hlists : OnlyLists s₁ s' := by
    rw [← hs']
    split
    · exact ⟨rfl, rfl, rfl, rfl, rfl⟩
    · split <;> exact ⟨rfl, rfl, rfl, rfl, rfl⟩
  rcases targetPage_page rfl h₁ with ⟨hnew, ht, hw⟩ | ⟨hagain, m, ht, hm, hmove⟩
  · exact .inl ⟨hnew, ht, (wantOf_congr (congrFun hlists.records t)).trans hw⟩
  · obtain ⟨l, -, rfl⟩ := moveMissionRecordToTop_cases hmove
    exact .inr ⟨hagain, (onlyLists_setStack l).trans hlists, _, m, hm, ht⟩

/-! ## Starting -/

namespace Carries

/-- A new page had no want before. -/
theorem of_new (ht : t = gen.generate s.generated) (hgenerated : s.generated ≤ s'.generated)
    (hsent : Unsent t s s') : Carries gen t s s' := by
  refine .of_unsent hgenerated hsent fun hknown => ?_
  obtain ⟨k, hk, he⟩ := hknown
  exact absurd (gen.injective _ _ (he.symm.trans ht)) (Nat.ne_of_lt hk)

/-- A start that is not undone makes the page active, or leaves it to its process. -/
theorem starts (h : s.startAbility gen env t = .ok (status, s')) (hkeep : ¬ undoes status) :
    Carries gen t s s' := by
  obtain ⟨r, _, ⟨_, hfail, _⟩ | ⟨_, _, a, s₁, hstart, rfl⟩ | ⟨_, s₁, h₁, rfl⟩⟩ := startWith_cases h
  · exact absurd (.inl hfail) hkeep
  · have hwaits : Carries gen t s₁ (s₁.modify t fun r => (r.setAppRecord (some a)).accept) :=
      .edit fun _ => rfl
    exact (frame.startAppProcess hstart).trans (hwaits.trans (frame.modifyApp _))
  · have hactive : Carries gen t s s₁ := by
      obtain ⟨_, _, ⟨_, _, rfl⟩ | ⟨_, hfail, _⟩ | ⟨_, _, s₂, hasks, rfl⟩⟩ := activeAbility_cases h₁
      · exact .refl _
      · exact absurd (.inr hfail) hkeep
      · exact asks hasks
    have haccept : Carries gen t s₁ (s₁.modify t (·.accept)) := .edit fun _ => rfl
    split
    · exact hactive.trans haccept
    · exact hactive

end Carries

/-- A start that is undone made nothing active. -/
theorem Unsent.undone (h : s.startAbility gen env p = .ok (status, s')) (hundo : undoes status) :
    Unsent t s s' := by
  obtain ⟨r, _, ⟨_, _, rfl | rfl⟩ | ⟨_, rfl, _⟩ | ⟨_, s₁, h₁, rfl⟩⟩ := startWith_cases h
  · exact .of_sent rfl
  · exact .of_sent rfl
  · rcases hundo with hundo | hundo <;> cases hundo
  · have hsent : s₁.sent = s.sent := by
      obtain ⟨_, _, ⟨_, _, rfl⟩ | ⟨_, _, rfl | rfl⟩ | ⟨_, rfl, _⟩⟩ := activeAbility_cases h₁
      · rfl
      · rfl
      · rfl
      · rcases hundo with hundo | hundo <;> cases hundo
    split
    · exact .of_sent hsent
    · exact .of_sent hsent

/-- A page that is brought up again and does not start is deleted. -/
theorem undone_gone (hs : Sound gen s) (hpage : target.abilityType ≠ .service)
    (hgen : s.generatePageAbility gen target want s.getTopPageAbility = .ok (some t, s₁))
    (hlisted : s₁.OnStack t) {s₂ : AbilityMgr}
    (h : (s₁.modify t (·.setBundleInfo bundleInfo)).startAbility gen env t = .ok (status, s₂))
    (h' : s₂.removePageAbility t = .ok s') : s'.wantOf t = none := by
  have hset : Still gen env s₁ (s₁.modify t (·.setBundleInfo bundleInfo)) :=
    .edit fun r => mild_setBundleInfo r _
  have hstill := hset.trans (startAbility_still h)
  have hgoes : Goes gen env s s₁ := hs.generatePageAbility hpage hgen
  have hshape := (hs.goes hgoes).shape.of_kept hstill.kept
  obtain ⟨st, m, hm, ht⟩ := hstill.kept.toSameLists.onStack.mpr hlisted
  unfold wantOf
  rw [removePageAbility_deletes hshape (mem_all_of_stack hm) ht h', Option.map_none]

namespace Carries

/-- The links of a hand-over. -/
theorem links {p q : Token} : Carries gen t s
    ((s.modify p (·.setNextPageAbility (some q))).modify q (·.setPrevPageAbility (some p))) := by
  have hnext : Carries gen t s (s.modify p (·.setNextPageAbility (some q))) := .edit fun _ => rfl
  exact hnext.trans (.edit fun _ => rfl)

theorem startPageTask (hs : Sound gen s) (hpage : target.abilityType ≠ .service)
    (h : s.startPageTask gen env want target bundleInfo = .ok (status, s')) : Carries gen t s s' := by
  refine frame.startPageTask (fun p s₁ st s₂ hgen h₁ => ?_) (fun _ _ _ => links) h
  have hbrings : Carries gen t s (s₁.modify p (·.setBundleInfo bundleInfo)) := frame.brings hgen
  by_cases hp : p = t
  · subst hp
    refine ⟨fun hkeep => hbrings.trans (starts h₁ hkeep), fun s₃ hundo h₂ => ?_⟩
    have hframe : Frame gen (Unsent p) := Unsent.frame
    have hunsent : Unsent p (s₁.modify p (·.setBundleInfo bundleInfo)) s₃ :=
      (Unsent.undone h₁ hundo).trans (hframe.removePageAbility h₂)
    have hgenerated : (s₁.modify p (·.setBundleInfo bundleInfo)).generated ≤ s₃.generated :=
      ((Aside.startAbility h₁).trans (Aside.frame.removePageAbility h₂)).generated
    obtain ⟨-, hnew, -⟩ | ⟨-, -, hlisted⟩ := generatePageAbility_page hgen
    · exact .of_new hnew (Nat.le_trans hbrings.generated hgenerated)
        ((hframe.brings hgen).trans hunsent)
    · exact hbrings.trans (.of_unsent hgenerated hunsent fun _ =>
        .inr (undone_gone hs hpage hgen (generatePageAbility_onStack hs.shape hgen hlisted) h₁ h₂))
  · have hstarted := hbrings.trans (startAbility (fun he => absurd he hp) h₁)
    exact ⟨fun _ => hstarted, fun _ _ h₂ => hstarted.trans (frame.removePageAbility h₂)⟩

theorem startTask {waitConnect : Bool} (hs : Sound gen s)
    (h : s.startTask gen env want target bundleInfo waitConnect = .ok (status, s')) :
    Carries gen t s s' := by
  unfold AbilityMgr.startTask at h
  split at h
  · obtain ⟨_, _, _, rfl⟩ | ⟨_, s₁, h₁, ⟨_, h₂⟩ | ⟨_, rfl⟩⟩ := startServiceTask_cases h
    · exact .refl _
    · exact frame.newService.trans ((frame.startService h₁).trans (removeServiceRecord h₂))
    · exact frame.newService.trans (frame.startService h₁)
  · next hpage => exact startPageTask hs hpage h

theorem handleStartAbility {uid : Int} {code : ErrCode} (hs : Sound gen s)
    (h : s.handleStartAbility gen env want uid = .ok (code, s')) : Carries gen t s s' := by
  obtain rfl | ⟨_, _, _, _, _, _, _, _, h₁⟩ := handleStartAbility_cases h
  · exact .refl _
  · exact startTask hs h₁

theorem startLauncher (hs : Sound gen s) (h : s.startLauncher gen env = .ok s') :
    Carries gen t s s' := by
  obtain ⟨_, h₁⟩ := startLauncher_cases h
  exact handleStartAbility hs h₁

/-- The launcher may be started after a task. -/
theorem thenLauncher (hs : Sound gen s) (h : (status.isNoActiveAbility = false ∧ s' = s) ∨
    (status.isNoActiveAbility = true ∧ s.startLauncher gen env = .ok s')) :
    Carries gen t s s' ∧ Sound gen s' := by
  rcases h with ⟨_, rfl⟩ | ⟨_, h⟩
  · exact ⟨.refl _, hs⟩
  · exact ⟨startLauncher hs h, hs.goes (startLauncher_goes hs h)⟩

theorem startAbilityMsg {uid : Int} (hs : Sound gen s)
    (h : s.startAbilityMsg gen env want uid = .ok s') : Carries gen t s s' := by
  obtain ⟨code, s₁, h₁, rfl⟩ := startAbilityMsg_cases h
  refine (handleStartAbility hs h₁).trans ?_
  unfold startAbilityCallback
  split
  · exact .refl _
  · split
    · exact .refl _
    · exact .notify

end Carries

/-! ## Where AMS makes a page active -/

/-- AMS makes a page active while it handles a reply: the page that was to take over, or the
one that is gone back to. -/
inductive ReplyActivates (s : AbilityMgr) : Reply → AbilityMgr → Token → Prop
  | next {p t : Token} {r : PageAbilityRecord} (hr : s.records p = some r) (hpage : r.isService = false)
      (hnext : r.nextPageAbility = some t) :
      ReplyActivates s (.lifecycleDone ⟨p, .inactive⟩) (s.modify p (·.setCurrentState .inactive)) t
  | back {p t : Token} {r : PageAbilityRecord} (hr : s.records p = some r) (hpage : r.isService = false)
      (hnext : r.nextPageAbility = none)
      (hprev : (s.modify p (·.setCurrentState .inactive)).getPrevPageAbility r p = .ok (some t)) :
      ReplyActivates s (.lifecycleDone ⟨p, .inactive⟩) (s.modify p (·.setCurrentState .inactive)) t

/-- AMS makes a page active while it handles a request that is not its start: the page that waits for a
process, or the one on top once a bundle is cleared away. -/
inductive RequestActivates (env : Env) (s : AbilityMgr) : Event → AbilityMgr → Token → Prop
  | attach {client : AbilityThreadClient} {x : AbilityMgr} {t : Token} (h : s.Launches client x t) :
      RequestActivates env s (.attachBundle client) x t
  | terminateApp {name : CString} {status : AbilityMsStatus} {s₁ s₂ : AbilityMgr} {t : Token}
      (hexit : s.terminateAppProcess env (some name) = .ok (status, s₁)) (hok : status.isOk = true)
      (hclear : s₁.clearAbilityStack env name = .ok s₂)
      (htop : (s₂.removeAppRecordByName (some name)).getTopPageAbility = some t) :
      RequestActivates env s (.terminateApp name) (s₂.removeAppRecordByName (some name)) t
  | restartApp {bundleName name : CString} {bundleInfo : BundleInfo} {s₁ : AbilityMgr} {t : Token}
      (hbundle : env.queryBundleInfo (some bundleName) = some bundleInfo)
      (hname : bundleInfo.bundleName = some name) (hclear : s.clearAbilityStack env name = .ok s₁)
      (htop : (s₁.removeAppRecordByName (some name)).getTopPageAbility = some t) :
      RequestActivates env s (.restartApp bundleName) (s₁.removeAppRecordByName (some name)) t

/-- A page whose process attaches is taken by it, if IPC carries the want. -/
theorem Launches.takes {client : AbilityThreadClient} {x : AbilityMgr} (h : s.Launches client x t)
    (hready : ∀ r app, s.records t = some r → s.getAppRecordByToken client.token client.pid = some app →
      r.appRecord = some app.identityId ∧ env.serializes r.want = true ∧
        env.sends app.identityId (.lifecycle ⟨t, .active⟩ r.want r.abilityInfo.abilityType) = true) :
    x.Takes env t := by
  obtain ⟨m, app, app', happ, hm, rfl, ha, -⟩ := h
  intro r a hr _ hra
  have hr' : s.records t = some r := by
    cases m with
    | appInit info => exact hr
    | appExit => exact hr
    | _ => cases hm
  obtain ⟨happ, hserializes, hsends⟩ := hready r app hr' happ
  rw [hra, Option.some.injEq] at happ
  subst happ
  refine .inr ⟨hserializes, app', ha, ?_, hsends⟩
  have hclient : (s.modifyApp app.identityId (·.setClient client)).app app.identityId = some app' := ha
  have hid (app : AppRecord) : (app.setClient client).identityId = app.identityId := rfl
  rw [app_modifyApp hid] at hclient
  obtain ⟨_, -, rfl⟩ := Option.map_eq_some_iff.mp hclient
  rw [if_pos rfl]
  rfl

namespace Carries

theorem inactivateTask (hact : ∀ x, s.ReplyActivates (.lifecycleDone ⟨p, .inactive⟩) x t → x.Takes env t)
    (h : s.inactivateTask gen env p = .ok (status, s')) : Carries gen t s s' := by
  cases inactivateTask_cases h with
  | unknown => exact .refl _
  | connect _ _ _ _ h₁ => exact frame.reach.trans ((connection .connecting).trans (connectAbility h₁))
  | service => exact frame.reach
  | next _ hr hpage hnext h₁ =>
    refine frame.reach.trans ((startAbility (fun he => ?_) h₁).trans frame.next)
    exact hact _ (he ▸ .next hr hpage hnext)
  | back _ hr hpage hnext hprev h₁ =>
    refine frame.reach.trans ((activeAbility (fun he => ?_) h₁).trans (edit fun _ => rfl))
    exact hact _ (he ▸ .back hr hpage hnext hprev)
  | home _ _ _ _ _ h₁ => exact frame.reach.trans (frame.stopAbility h₁)

theorem stopTask (h : s.stopTask env p = .ok (status, s')) : Carries gen t s s' := by
  cases stopTask_cases h with
  | unknown => exact .refl _
  | stopped => exact frame.reach
  | service _ _ _ _ h₁ h₂ h₃ =>
    exact frame.reach.trans ((stopAbilityDone h₁).trans
      ((frame.exitsIf h₂).trans (removeServiceRecord h₃)))
  | page _ _ _ _ h₁ h₂ => exact frame.reach.trans ((frame.exitsIf h₁).trans (frame.removePageAbility h₂))

theorem terminateTask (h : s.terminateTask env p = .ok (status, s')) : Carries gen t s s' := by
  obtain ⟨_, rfl⟩ | ⟨_, r, _, ⟨_, h₁⟩ | ⟨_, h₁⟩⟩ := terminateTask_cases h
  · exact .refl _
  · exact .forceStopServiceAbility h₁
  · exact frame.inactiveAbility h₁

theorem performConnectTask {sid : SvcIdentity} {token : Token}
    (h : s.performConnectTask env p sid token = .ok (status, s')) : Carries gen t s s' := by
  obtain ⟨r, hr, ⟨_, rfl⟩ | ⟨s₁, _, hjoin, h⟩⟩ := performConnectTask_cases h
  · exact .refl _
  have hjoins : Carries gen t s s₁ := by
    obtain ⟨_, rfl⟩ | ⟨_, rfl⟩ := hjoin
    · exact .refl _
    · refine .edit fun r => ?_
      unfold PageAbilityRecord.pushConnectRecord
      split <;> rfl
  refine hjoins.trans ?_
  obtain ⟨_, _, rfl⟩ | ⟨_, _, h⟩ | ⟨_, rfl | h⟩ | ⟨_, rfl⟩ := h
  · exact .connection _
  · exact (connection .connecting).trans (connectAbility h)
  · exact .refl _
  · exact connectAbilityDone h
  · exact .refl _

theorem connectTask {sid : SvcIdentity} {token : Token}
    (h : s.connectTask env want sid token = .ok (status, s')) : Carries gen t s s' := by
  unfold AbilityMgr.connectTask at h
  split at h
  · cases h
    exact .refl _
  split at h
  · cases h
    exact .refl _
  simp only [bind_eq_ok, record_eq_ok] at h
  obtain ⟨r, _, h⟩ := h
  split at h
  · cases h
    exact .refl _
  · exact performConnectTask h

theorem connectDoneTask {sid : SvcIdentity} {token : Token}
    (h : s.connectDoneTask env sid token = .ok (status, s')) : Carries gen t s s' := by
  unfold AbilityMgr.connectDoneTask at h
  split at h
  · cases h
    exact .refl _
  next p _ =>
  simp only [bind_eq_ok, record_eq_ok] at h
  obtain ⟨r, _, h⟩ := h
  split at h
  · cases h
    exact .refl _
  simp only [bind_eq_ok] at h
  obtain ⟨⟨_, s₁⟩, h₁, h⟩ := h
  cases h
  have hsid : Carries gen t s (s.modify p (·.setServiceSid sid)) := .edit fun _ => rfl
  exact hsid.trans ((connectAbilityDone h₁).trans (.connection .connected))

theorem disconnectTask {sid : SvcIdentity} {token : Token}
    (h : s.disconnectTask env sid token = .ok (status, s')) : Carries gen t s s' := by
  unfold AbilityMgr.disconnectTask at h
  split at h
  · cases h
    exact .refl _
  · exact disconnectAbility h

theorem disconnectDoneTask {token : Token} (h : s.disconnectDoneTask env token = .ok (status, s')) :
    Carries gen t s s' := by
  unfold AbilityMgr.disconnectDoneTask at h
  split at h
  · cases h
    exact .refl _
  simp only [bind_eq_ok, record_eq_ok] at h
  obtain ⟨r, _, h⟩ := h
  split at h
  · cases h
    exact .refl _
  · exact disconnectAbilityDone h

theorem terminateServiceTask (h : s.terminateServiceTask env target = .ok (status, s')) :
    Carries gen t s s' := by
  unfold AbilityMgr.terminateServiceTask at h
  split at h
  · cases h
    exact .refl _
  simp only [bind_eq_ok, record_eq_ok] at h
  obtain ⟨r, _, h⟩ := h
  split at h
  · simp only [bind_eq_ok] at h
    obtain ⟨s₁, h₁, h⟩ := h
    cases h
    exact removeServiceRecord h₁
  · exact forceStopServiceAbility h

/-- A bundle is cleared away, and the page then on top is made active. -/
theorem clears (hshape : s.Shape) (hclears : s.clearAbilityStack env name = .ok s₁)
    (hact : (s₁.removeAppRecordByName (some name)).getTopPageAbility = some t →
      (s₁.removeAppRecordByName (some name)).Takes env t)
    (h : Resumes env (s₁.removeAppRecordByName (some name)) s') : Carries gen t s s' := by
  have hresumes : Carries gen t (s₁.removeAppRecordByName (some name)) s' :=
    frame.resumes (fun top status s₂ htop h₂ => activeAbility (fun he => hact (he ▸ htop)) h₂) h
  exact (clearAbilityStack hshape hclears).trans ((frame.removeAppRecordByName _).trans hresumes)

theorem appTerminateTask (hs : Sound gen s)
    (hact : ∀ x, s.RequestActivates env (.terminateApp name) x t → x.Takes env t)
    (h : s.appTerminateTask env name = .ok (status, s')) : Carries gen t s s' := by
  simp only [AbilityMgr.appTerminateTask, bind_eq_ok] at h
  obtain ⟨⟨st, s₁⟩, h₁, h⟩ := h
  have hexit : Carries gen t s s₁ ∧ s₁.Shape := by
    rcases terminateAppProcess_cases h₁ with ⟨-, -, rfl⟩ | ⟨app, -, h₂⟩
    · exact ⟨.refl _, hs.shape⟩
    · rcases appExitTransaction_cases h₂ with ⟨rfl, -⟩ | ⟨-, rfl, hreach⟩
      · exact ⟨.refl _, hs.shape⟩
      · exact ⟨.send rfl, (hs.goes (hs.still (Still.tell rfl hreach))).shape⟩
  refine hexit.1.trans ?_
  split at h
  · next hok =>
    simp only [bind_eq_ok] at h
    obtain ⟨s₂, h₂, h⟩ := h
    exact clears hexit.2 h₂ (fun htop => hact _ (.terminateApp h₁ hok h₂ htop)) (resumes_cases h)
  · cases h
    exact .refl _

theorem appRestartTask {b : CString} (hs : Sound gen s)
    (hb : env.queryBundleInfo (some b) = some bundleInfo)
    (hact : ∀ x, s.RequestActivates env (.restartApp b) x t → x.Takes env t)
    (h : s.appRestartTask env bundleInfo = .ok (status, s')) : Carries gen t s s' := by
  obtain ⟨_, _, rfl⟩ | ⟨name, hname, s₁, h₁, h₂⟩ := appRestartTask_cases h
  · exact .refl _
  · exact clears hs.shape h₁ (fun htop => hact _ (.restartApp hb hname h₁ htop)) h₂

/-! ### Messages -/

theorem restartAppMsg {b : CString} (hs : Sound gen s)
    (hact : ∀ x, s.RequestActivates env (.restartApp b) x t → x.Takes env t)
    (h : s.restartAppMsg gen env b = .ok s') : Carries gen t s s' := by
  obtain ⟨_, rfl⟩ | ⟨info, status, s₁, s₂, hinfo, h₁, hlauncher, hkeep⟩ := restartAppMsg_cases h
  · exact .refl _
  have hcleared : Carries gen t s s₁ := appRestartTask hs hinfo hact h₁
  obtain ⟨hlaunched, hs₂⟩ : Carries gen t s₁ s₂ ∧ Sound gen s₂ :=
    thenLauncher (hs.goes (appRestartTask_goes hs h₁)) hlauncher
  refine hcleared.trans (hlaunched.trans ?_)
  rcases hkeep with ⟨_, _, _, h₃⟩ | rfl
  · obtain rfl | ⟨want, code, _, h₃⟩ := startKeepAliveApp_cases h₃
    · exact .refl _
    · exact handleStartAbility hs₂ h₃
  · exact .refl _

theorem connectAbilityMsg {sid : SvcIdentity} {token : Token} {uid : Int} (hs : Sound gen s)
    (h : s.connectAbilityMsg gen env want sid token uid = .ok s') : Carries gen t s s' := by
  obtain ⟨code, s₁, h₁, hnotify⟩ := connectAbilityMsg_cases h
  have hconnect : Carries gen t s s₁ := by
    obtain rfl | ⟨e, info, target, s₂, _, _, _, hstart, hdone⟩ := handleConnectAbility_cases h₁
    · exact .refl _
    have hstarted : Carries gen t s s₂ := by
      rcases hstart with ⟨_, rfl⟩ | ⟨_, _, status, h₂⟩
      · exact .refl _
      · exact startTask hs h₂
    rcases hdone with rfl | ⟨status, h₃⟩
    · exact hstarted
    · exact hstarted.trans (connectTask h₃)
  rcases hnotify with rfl | rfl
  · exact hconnect
  · exact hconnect.trans .notify

theorem workerAbilityTransaction {state : TransactionState}
    (hact : ∀ x, s.ReplyActivates (.lifecycleDone state) x t → x.Takes env t)
    (h : s.workerAbilityTransaction gen env state = .ok (status, s')) : Carries gen t s s' := by
  obtain ⟨token, st⟩ := state
  unfold AbilityMgr.workerAbilityTransaction at h
  cases st with
  | background => exact frame.backgroundTask h
  | inactive => exact inactivateTask hact h
  | active => exact frame.activateTask h
  | initial => exact stopTask h
  | uninitialized =>
    cases h
    exact .refl _

theorem replyMsg {r : Reply} (hs : Sound gen s) (hact : ∀ x, s.ReplyActivates r x t → x.Takes env t)
    (h : s.replyMsg gen env r = .ok s') : Carries gen t s s' := by
  cases r with
  | lifecycleDone state =>
    obtain ⟨status, s₁, h₁, hlauncher⟩ := transactionMsg_cases h
    have hworked : Carries gen t s s₁ := workerAbilityTransaction hact h₁
    exact hworked.trans (thenLauncher (hs.goes (workerAbilityTransaction_goes hs h₁)) hlauncher).1
  | connectDone sid token =>
    simp only [AbilityMgr.replyMsg, bind_eq_ok] at h
    obtain ⟨⟨status, s₁⟩, h₁, h⟩ := h
    cases h
    exact connectDoneTask h₁
  | disconnectDone token =>
    simp only [AbilityMgr.replyMsg, bind_eq_ok] at h
    obtain ⟨⟨status, s₁⟩, h₁, h⟩ := h
    cases h
    exact disconnectDoneTask h₁

theorem requestMsg {e : Event} (hs : Sound gen s)
    (hact : ∀ x, s.RequestActivates env e x t → x.Takes env t)
    (h : s.requestMsg gen env e = .ok s') : Carries gen t s s' := by
  cases e with
  | startAbility want uid => exact startAbilityMsg hs h
  | terminateAbility token =>
    simp only [AbilityMgr.requestMsg, bind_eq_ok] at h
    obtain ⟨⟨status, s₁⟩, h₁, h⟩ := h
    cases h
    exact terminateTask h₁
  | attachBundle client =>
    simp only [AbilityMgr.requestMsg, bind_eq_ok] at h
    obtain ⟨⟨status, s₁⟩, h₁, h⟩ := h
    cases h
    exact frame.attachTask (fun x p status s₁ hlaunch h₂ =>
      activeAbility (fun he => hact x (.attach (he ▸ hlaunch))) h₂) h₁
  | connectAbility want sid token uid => exact connectAbilityMsg hs h
  | disconnectAbility sid token =>
    simp only [AbilityMgr.requestMsg, bind_eq_ok] at h
    obtain ⟨⟨status, s₁⟩, h₁, h⟩ := h
    cases h
    exact disconnectTask h₁
  | terminateService want uid =>
    obtain rfl | ⟨target, status, _, h₁⟩ := terminateServiceMsg_cases h
    · exact .refl _
    · exact terminateServiceTask h₁
  | terminateApp name =>
    simp only [AbilityMgr.requestMsg, bind_eq_ok] at h
    obtain ⟨⟨status, s₁⟩, h₁, h⟩ := h
    cases h
    exact appTerminateTask hs hact h₁
  | restartApp b => exact restartAppMsg hs hact h
  | reply a =>
    cases h
    exact .refl _
  | perform a sid =>
    cases h
    exact .refl _

end Carries

/-! ## A start that is accepted -/

/-- The start ends with a record that has its data and its identity: a new page, if the data is as long
as it says, or a page that has them already. -/
def HandsOver (s : AbilityMgr) (target : AbilityInfo) (want : Want) : Prop :=
  match s.broughtAgain target want with
  | none => want.copy.data = want.data
  | some t => (s.wantOf t).map (fun w => (w.data, w.sid)) = some (want.data, want.sid)

theorem copy_sid (want : Want) : want.copy.sid = want.sid := by
  unfold Want.copy
  split <;> rfl

theorem not_undoes_of_ok (hok : status.isOk = true) : ¬ undoes status := by
  have hcode : status.code = .ok := of_decide_eq_true hok
  rintro (h | h)
  · cases hcode.symm.trans (of_decide_eq_true h)
  · cases hcode.symm.trans (of_decide_eq_true h)

theorem Carries.accepted (hok : status.isOk = true)
    (h : s.startPageTask gen env want target bundleInfo = .ok (status, s'))
    (hgen : s.generatePageAbility gen target want s.getTopPageAbility = .ok (some t, s₁)) :
    Carries gen t s₁ s' := by
  have hsame {p : Token} {s₂ : AbilityMgr}
      (h : s.generatePageAbility gen target want s.getTopPageAbility = .ok (some p, s₂)) :
      p = t ∧ s₂ = s₁ := by
    rw [hgen] at h
    cases h
    exact ⟨rfl, rfl⟩
  cases startPageTask_cases h with
  | refused => cases hok
  | givesWay hgen' _ _ h₂ _ =>
    obtain ⟨rfl, rfl⟩ := hsame hgen'
    exact frame.setBundleInfo.trans ((frame.inactiveAbility h₂).trans links)
  | stays _ _ _ _ hfail _ =>
    rw [hok] at hfail
    cases hfail
  | starts hgen' _ h₂ hkeep =>
    obtain ⟨rfl, rfl⟩ := hsame hgen'
    exact frame.setBundleInfo.trans (starts h₂ hkeep)
  | fails _ _ _ hundo _ => exact absurd hundo (not_undoes_of_ok hok)

/-- What a start leaves for the activations that follow: a want that has its data and its identity
exactly when the start hands them over. -/
theorem accepted_follows (hs : Sound gen s) (hpage : target.abilityType ≠ .service)
    (hok : status.isOk = true) (h : s.startPageTask gen env want target bundleInfo = .ok (status, s'))
    (hgen : s.generatePageAbility gen target want s.getTopPageAbility = .ok (some t, s₁)) :
    ∃ w, ((w.data = want.data ∧ w.sid = want.sid) ↔ s.HandsOver target want) ∧
      Follows (some w) (activeWants t (s'.sent.drop s.sent.length)) (s'.wantOf t) ∧
      ∃ k < s'.generated, t = gen.generate k := by
  have hgoes : Goes gen env s s₁ := hs.generatePageAbility hpage hgen
  have hs₁ : Sound gen s₁ := hs.goes hgoes
  have hfound : ∃ w, s₁.wantOf t = some w ∧
      ((w.data = want.data ∧ w.sid = want.sid) ↔ s.HandsOver target want) := by
    unfold HandsOver
    rcases generatePageAbility_page hgen with ⟨hnew, -, hw⟩ | ⟨hagain, hlists, hlisted⟩
    · rw [hnew]
      exact ⟨want.copy, hw, and_iff_left (copy_sid want)⟩
    · obtain ⟨r, hr⟩ := hs₁.shape.live (.inl (generatePageAbility_onStack hs.shape hgen hlisted))
      have hw : s₁.wantOf t = s.wantOf t := wantOf_congr (congrFun hlists.records t)
      have hr₁ : s₁.wantOf t = some r.want := by
        unfold wantOf
        rw [hr, Option.map_some]
      rw [hagain]
      refine ⟨r.want, hr₁, ?_⟩
      show _ ↔ (s.wantOf t).map _ = _
      rw [← hw, hr₁, Option.map_some, Option.some.injEq, Prod.mk.injEq]
  obtain ⟨w, hw, hover⟩ := hfound
  have hknown : ∃ k < s₁.generated, t = gen.generate k := by
    refine hs₁.known.records t ?_
    unfold wantOf at hw
    obtain ⟨r, hr, -⟩ := Option.map_eq_some_iff.mp hw
    rw [hr]
    rfl
  have hunsent : Frame gen (Unsent t) := Unsent.frame
  obtain ⟨l₀, hl₀, hnone⟩ := hunsent.generatePageAbility hgen
  have hcarries := Carries.accepted hok h hgen
  obtain ⟨l, hl, hfollows⟩ := hcarries.sent
  refine ⟨w, hover, ?_, ?_⟩
  · rw [hl, hl₀, List.append_assoc, List.drop_left, activeWants_append, hnone, List.nil_append, ← hw]
    exact hfollows hknown
  · obtain ⟨k, hk, ht⟩ := hknown
    exact ⟨k, Nat.lt_of_lt_of_le hk hcarries.generated, ht⟩

theorem Carries.follows (h : Carries gen t s s') (hknown : ∃ k < s.generated, t = gen.generate k) :
    Follows (s.wantOf t) (activeWants t (s'.sent.drop s.sent.length)) (s'.wantOf t) := by
  obtain ⟨l, hl, hfollows⟩ := h.sent
  rw [hl, List.drop_left]
  exact hfollows hknown

end
end AbilityMgr

namespace System
variable {gen : TokenGenerate} {env : Env} {s s' : System} {e : Event} {t : Token}

/-- Whenever AMS makes the page active while it handles the event, the process of the page takes it. -/
def Delivers (s : System) (env : Env) (e : Event) (t : Token) : Prop :=
  match e with
  | .reply a => ∀ r replies x, takeFirst a s.replies = some (r, replies) →
      s.ams.ReplyActivates r x t → x.Takes env t
  | e => ∀ x, s.ams.RequestActivates env e x t → x.Takes env t

theorem Delivers.request (h : s.Delivers env e t) (x : AbilityMgr)
    (hact : s.ams.RequestActivates env e x t) : x.Takes env t := by
  cases hact with
  | attach hlaunch => exact h x (.attach hlaunch)
  | terminateApp hexit hok hclear htop => exact h _ (.terminateApp hexit hok hclear htop)
  | restartApp hbundle hname hclear htop => exact h _ (.restartApp hbundle hname hclear htop)

/-- What AMS sends while it handles an event; a process that performs a message takes it from what
was sent. -/
def sends (s : System) (e : Env × Event) (s' : System) : List (Nat × Transaction) :=
  match e.2 with
  | .perform _ _ => []
  | _ => s'.ams.sent.drop s.ams.sent.length

/-- Where the program stops at a fault, nothing is sent. -/
theorem follows_same (h : s'.ams = s.ams) : s.ams.generated ≤ s'.ams.generated ∧
    Follows (s.ams.wantOf t) (activeWants t (sends s (env, e) s')) (s'.ams.wantOf t) := by
  have hnone : sends s (env, e) s' = [] := by
    unfold sends
    split
    · rfl
    · rw [h, List.drop_length]
  rw [hnone, h]
  exact ⟨Nat.le_refl _, .refl _⟩

/-- One event takes the want of the page where its activations take it. -/
theorem Happens.follows (hs : s.ams.Sound gen) (hknown : ∃ k < s.ams.generated, t = gen.generate k)
    (hdelivers : s.Delivers env e t) (h : Happens gen env s e s') :
    s.ams.generated ≤ s'.ams.generated ∧
      Follows (s.ams.wantOf t) (activeWants t (sends s (env, e) s')) (s'.ams.wantOf t) := by
  cases h with
  | request h =>
    have hcarries := AbilityMgr.Carries.requestMsg hs hdelivers.request h
    refine ⟨hcarries.generated, ?_⟩
    cases e with
    | perform a sid =>
      cases h
      exact .refl _
    | _ => exact hcarries.follows hknown
  | requestFault => exact follows_same rfl
  | reply htake h =>
    have hcarries := AbilityMgr.Carries.replyMsg hs (fun x => hdelivers _ _ x htake) h
    exact ⟨hcarries.generated, hcarries.follows hknown⟩
  | replyFault => exact follows_same rfl
  | perform => exact ⟨Nat.le_refl _, .refl _⟩

/-- A run after the start of a page takes its want where its activations take it. -/
theorem follows_of_run {ams : AbilityMgr} {w : Option Want} {sent log : List (Nat × Transaction)}
    (hs : ams.Sound gen) (hknown : ∃ k < ams.generated, t = gen.generate k)
    (hfirst : Follows w (activeWants t sent) (ams.wantOf t))
    (h : Logs (System.next gen) (fun s e => s.Delivers e.1 e.2 t) sends { s with ams } log s') :
    Follows w (activeWants t (sent ++ log)) (s'.ams.wantOf t) := by
  refine (Logs.invariant (fun l s => s.ams.Sound gen ∧ (∃ k < s.ams.generated, t = gen.generate k) ∧
    Follows w (activeWants t (sent ++ l)) (s.ams.wantOf t)) ?_ ?_ h).2.2
  · rw [List.append_nil]
    exact ⟨hs, hknown, hfirst⟩
  · rintro l s₁ ⟨env, e⟩ s₂ ⟨hs₁, ⟨k, hk, ht⟩, hfollows⟩ hdelivers hnext
    have hhappens := (next_cases hnext).2
    obtain ⟨hgenerated, hstep⟩ := hhappens.follows hs₁ ⟨k, hk, ht⟩ hdelivers
    refine ⟨hhappens.sound hs₁, ⟨k, Nat.lt_of_lt_of_le hk hgenerated, ht⟩, ?_⟩
    rw [← List.append_assoc, activeWants_append]
    exact hfollows.trans hstep

/-- From every reachable state, and over every run whose steps deliver: the first transaction that
makes the page of an accepted start active has the data and the identity of the start, and no later
one has this identity, exactly when the start hands them over. -/
theorem start_received_iff {ams s₁ : AbilityMgr} {target : AbilityInfo} {want w : Want}
    {bundleInfo : BundleInfo} {status : AbilityMsStatus} {log : List (Nat × Transaction)}
    {later : List Want} (h : Reached (System.next gen) (fun _ _ => True) IsInit s)
    (hpage : target.abilityType ≠ .service)
    (hstart : s.ams.startTask gen env want target bundleInfo false = .ok (status, ams))
    (hok : status.isOk = true)
    (hgen : s.ams.generatePageAbility gen target want s.ams.getTopPageAbility = .ok (some t, s₁))
    (hrun : Logs (System.next gen) (fun s e => s.Delivers e.1 e.2 t) sends { s with ams } log s')
    (hlog : activeWants t (ams.sent.drop s.ams.sent.length ++ log) = w :: later) :
    (w.data = want.data ∧ w.sid = want.sid ∧
        ∀ sid, want.sid = some sid → ∀ x ∈ later, x.sid ≠ some sid) ↔
      s.ams.HandsOver target want := by
  have hs := sound_of_reached h
  unfold AbilityMgr.startTask at hstart
  rw [if_neg hpage] at hstart
  obtain ⟨kept, hover, hfirst, hknown⟩ := AbilityMgr.accepted_follows hs hpage hok hstart hgen
  have hsound : ams.Sound gen := hs.goes (AbilityMgr.startPageTask_goes hs hpage hstart)
  have hfollows := follows_of_run hsound hknown hfirst hrun
  rw [hlog] at hfollows
  cases hfollows with
  | sent hlater _ =>
    rw [← hover, ← and_assoc, and_iff_left_iff_imp]
    intro _ sid _ x hx hsid
    rw [hlater x hx] at hsid
    cases hsid

/-- A start of page a with data, by a caller that left its address. -/
def latestA : Want :=
  { pageWant (cstr "a") with sid := some ⟨4, 4⟩, data := some [1], dataLength := 1 }

/-- The first start of all; its process attaches, and the page is made active. -/
theorem start_received_first :
    ∃ ams s₁ s' log w later,
      ({} : AbilityMgr).startTask counter pageEnv latestA (pageInfo (some (cstr "a")))
        (pageBundle (some (cstr "a"))) false = .ok (.ok, ams) ∧
      ({} : AbilityMgr).generatePageAbility counter (pageInfo (some (cstr "a"))) latestA none =
        .ok (some 0, s₁) ∧
      Logs (System.next counter) (fun s e => s.Delivers e.1 e.2 0) sends { ams } log s' ∧
      activeWants 0 (ams.sent.drop 0 ++ log) = w :: later ∧
      ((w.data = latestA.data ∧ w.sid = latestA.sid ∧
          ∀ sid, latestA.sid = some sid → ∀ x ∈ later, x.sid ≠ some sid) ↔
        ({} : AbilityMgr).HandsOver (pageInfo (some (cstr "a"))) latestA) := by
  have h : (match ({} : AbilityMgr).startTask counter pageEnv latestA (pageInfo (some (cstr "a")))
          (pageBundle (some (cstr "a"))) false,
        ({} : AbilityMgr).generatePageAbility counter (pageInfo (some (cstr "a"))) latestA none with
      | .ok (status, ams), .ok (page, _) =>
        (System.next counter { ams } (pageEnv, .attachBundle ⟨1, 7, ⟨9, 9⟩⟩)).map fun s₂ =>
          ((status, page, (ams.records 0).map (·.appRecord)),
            (ams.getAppRecordByToken 1 7).map (·.identityId),
            activeWants 0 (ams.sent.drop 0 ++
              ([] ++ sends { ams } (pageEnv, .attachBundle ⟨1, 7, ⟨9, 9⟩⟩) s₂)))
      | _, _ => none) = some ((.ok, some 0, some (some 1)), some 1, [latestA]) := by decide
  split at h
  · next status ams page s₁ hstart hgen =>
    obtain ⟨s₂, h₂, h⟩ := Option.map_eq_some_iff.mp h
    simp only [Prod.mk.injEq] at h
    obtain ⟨⟨rfl, rfl, hrecord⟩, happ, hlog⟩ := h
    have hdelivers : Delivers { ams } pageEnv (.attachBundle ⟨1, 7, ⟨9, 9⟩⟩) 0 := by
      rintro x ⟨hlaunch⟩
      refine hlaunch.takes fun r app hr ha => ⟨?_, rfl, rfl⟩
      rw [hr, Option.map_some, Option.some.injEq] at hrecord
      rw [ha, Option.map_some, Option.some.injEq] at happ
      rw [hrecord, happ]
    have hrun : Logs (System.next counter) (fun s e => s.Delivers e.1 e.2 0) sends { ams } _ s₂ :=
      .step .init hdelivers h₂
    exact ⟨ams, s₁, s₂, _, _, _, hstart, hgen, hrun, hlog,
      start_received_iff (s := {}) (.init rfl) (by decide) hstart rfl hgen hrun hlog⟩
  · cases h

/-- Page a is in the background behind b. -/
def behindB : List (Env × Event) :=
  ([startA] ++ comesUp 1 ++ [startB] ++ givesWay 1 ++ comesUp 3 ++ givesWay 1).map fun e => (pageEnv, e)

/-- A second start of a brings its page up again, with the want of the first. -/
theorem start_receives_old :
    ∃ s ams s₁ s' log w later, Reached (System.next counter) (fun _ _ => True) IsInit s ∧
      s.ams.startTask counter pageEnv latestA (pageInfo (some (cstr "a")))
        (pageBundle (some (cstr "a"))) false = .ok (.ok, ams) ∧
      s.ams.generatePageAbility counter (pageInfo (some (cstr "a"))) latestA s.ams.getTopPageAbility =
        .ok (some 0, s₁) ∧
      Logs (System.next counter) (fun _ _ => True) sends { s with ams } log s' ∧
      activeWants 0 (ams.sent.drop s.ams.sent.length ++ log) = w :: later ∧
      w.data ≠ latestA.data ∧ w.sid ≠ latestA.sid := by
  have h : ((run (System.next counter) {} behindB).bind fun s =>
      match s.ams.startTask counter pageEnv latestA (pageInfo (some (cstr "a")))
          (pageBundle (some (cstr "a"))) false,
        s.ams.generatePageAbility counter (pageInfo (some (cstr "a"))) latestA
          s.ams.getTopPageAbility with
      | .ok (status, ams), .ok (page, _) =>
        (System.next counter { s with ams } (pageEnv, .perform 3 ⟨0, 0⟩)).bind fun s₂ =>
          (System.next counter s₂ (pageEnv, .reply 3)).map fun s₃ => (status, page,
            activeWants 0 (ams.sent.drop s.ams.sent.length ++
              (([] ++ sends { s with ams } (pageEnv, .perform 3 ⟨0, 0⟩) s₂) ++
                sends s₂ (pageEnv, .reply 3) s₃)))
      | _, _ => none) = some (.ok, some 0, [pageWant (cstr "a")]) := by decide
  obtain ⟨s, hs, h⟩ := Option.bind_eq_some_iff.mp h
  split at h
  · next status ams page s₁ hstart hgen =>
    obtain ⟨s₂, h₂, h⟩ := Option.bind_eq_some_iff.mp h
    obtain ⟨s₃, h₃, h⟩ := Option.map_eq_some_iff.mp h
    simp only [Prod.mk.injEq] at h
    obtain ⟨rfl, rfl, hlog⟩ := h
    refine ⟨s, ams, s₁, s₃, _, _, _, Reached.of_run (.init rfl) _ hs, hstart, hgen,
      .step (.step .init trivial h₂) trivial h₃, hlog, ?_, ?_⟩
    · decide
    · decide
  · cases h

end System
end AbilityLite.Ams
