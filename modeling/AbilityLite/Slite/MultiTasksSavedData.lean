import AbilityLite.Slite.MultiTasksRecovery
import AbilityLite.Slite.MultiTasksRefusals

/-
  What an ability leaves in its saved data while it is away, in the multi-task build.

  1. `Spares` is what an operation or a reply for another ability does to the records
     and messages of one token: records go or keep their saved data, the ability's queue
     is dropped or only grows, and a `CREATE` that joins it carries the saved data;
  2. `Lasting` says which statements about that queue and data then hold for good, and
     `held_keeps` carries such a statement through a run;
  3. from the `DESTROY` to the ability's answer the last `DESTROY` carries the object
     (`Awaiting`), and from the answer on each `CREATE` carries what was left (`Left`).
-/

namespace AbilityLite.Slite.MultiTasks
open Manager AbilityList

/-- The messages in the queue of the ability with a token, in order. -/
def queueOf (t : UInt16) (sent : List SliteAbilityInnerMsg) : List SliteAbilityInnerMsg :=
  sent.filter (·.token = t)

theorem queueOf_append (t : UInt16) (s s' : List SliteAbilityInnerMsg) :
    queueOf t (s ++ s') = queueOf t s ++ queueOf t s' := List.filter_append ..

theorem queueOf_own {t : UInt16} {msg : SliteAbilityInnerMsg} (h : msg.token = t) :
    queueOf t [msg] = [msg] := by
  simp [queueOf, h]

theorem mem_queueOf {t : UInt16} {s : List SliteAbilityInnerMsg} {msg : SliteAbilityInnerMsg} :
    msg ∈ queueOf t s ↔ msg ∈ s ∧ msg.token = t := by
  simp [queueOf]

/-- A filter on tokens drops a queue or leaves it as it is. -/
theorem queueOf_filter (t : UInt16) (s : List SliteAbilityInnerMsg) (p : UInt16 → Bool) :
    queueOf t (s.filter fun msg => p msg.token) = if p t then queueOf t s else [] := by
  unfold queueOf
  rw [List.filter_filter]
  split
  · next hp =>
    refine List.filter_congr fun msg _ => ?_
    by_cases ht : msg.token = t
    · simp [ht, hp]
    · simp [ht]
  · next hp =>
    rw [List.filter_eq_nil_iff]
    intro msg _
    by_cases ht : msg.token = t
    · simp [ht, hp]
    · simp [ht]

/-! ## Sparing an ability -/

/-- The second record was the first, with the same saved data, and was not terminated unless
the second is. -/
structure Carries (r r' : AbilityRecord) : Prop where
  token : r.token = r'.token
  saved : r.abilitySavedData = r'.abilitySavedData
  marked : r'.isTerminated = false → r.isTerminated = false

theorem Carries.refl (r : AbilityRecord) : Carries r r := ⟨rfl, rfl, id⟩

theorem Carries.terminated (r : AbilityRecord) : Carries r { r with isTerminated := true } :=
  ⟨rfl, rfl, fun h => absurd h Bool.true_eq_false.mp⟩

theorem Carries.trans {r r' r'' : AbilityRecord} (h : Carries r r') (h' : Carries r' r'') :
    Carries r r'' :=
  ⟨h.token.trans h'.token, h.saved.trans h'.saved, h.marked ∘ h'.marked⟩

/-- A record of the token that is not terminated. -/
def Lives (t : UInt16) (l : AbilityList) (r : AbilityRecord) : Prop :=
  r ∈ l ∧ r.token = t ∧ r.isTerminated = false

structure SparesAt (t : UInt16) (l : AbilityList) (sent : List SliteAbilityInnerMsg)
    (l' : AbilityList) (sent' : List SliteAbilityInnerMsg) : Prop where
  records : ∀ r' ∈ l', r'.token = t → ∃ r ∈ l, Carries r r'
  queue : ∃ kept new, queueOf t sent' = kept ++ new ∧ (kept = queueOf t sent ∨ kept = []) ∧
    ∀ msg ∈ new, msg.msgId ≠ .destroy ∧
      (msg.msgId = .create → ∀ r', Lives t l' r' → msg.hasSavedData = r'.abilitySavedData.isSome)

/-- What happens to the records and the queue of a token between two managers. -/
def Spares (t : UInt16) (m m' : Manager) : Prop :=
  SparesAt t m.abilityList m.sent m'.abilityList m'.sent

namespace Spares
variable {t : UInt16} {m m' m'' : Manager}

/-- The records go or carry on, and nothing joins the queue. -/
theorem of_records (hl : ∀ r' ∈ m'.abilityList, r'.token = t → ∃ r ∈ m.abilityList, Carries r r')
    (hq : queueOf t m'.sent = queueOf t m.sent ∨ queueOf t m'.sent = []) : Spares t m m' :=
  ⟨hl, queueOf t m'.sent, [], (List.append_nil _).symm, hq, fun _ h => absurd h List.not_mem_nil⟩

theorem of_subset (hl : ∀ r ∈ m'.abilityList, r ∈ m.abilityList)
    (hq : queueOf t m'.sent = queueOf t m.sent ∨ queueOf t m'.sent = []) : Spares t m m' :=
  of_records (fun r hr _ => ⟨r, hl r hr, .refl r⟩) hq

theorem refl (t : UInt16) (m : Manager) : Spares t m m := of_subset (fun _ h => h) (.inl rfl)

theorem trans (h : Spares t m m') (h' : Spares t m' m'') : Spares t m m'' := by
  obtain ⟨hrec, kept, new, hq, hkept, hnew⟩ := h
  obtain ⟨hrec', kept', new', hq', hkept', hnew'⟩ := h'
  refine ⟨fun r'' hr'' ht => ?_, ?_⟩
  · obtain ⟨r', hr', hc'⟩ := hrec' r'' hr'' ht
    obtain ⟨r, hr, hc⟩ := hrec r' hr' (hc'.token.trans ht)
    exact ⟨r, hr, hc.trans hc'⟩
  · rcases hkept' with rfl | rfl
    · refine ⟨kept, new ++ new', by rw [hq', hq, List.append_assoc], hkept, fun msg hmsg => ?_⟩
      rcases List.mem_append.mp hmsg with hmsg | hmsg
      · refine ⟨(hnew msg hmsg).1, fun hid r'' hr'' => ?_⟩
        obtain ⟨hmem, ht, hlive⟩ := hr''
        obtain ⟨r', hr', hc'⟩ := hrec' r'' hmem ht
        rw [← hc'.saved]
        exact (hnew msg hmsg).2 hid r' ⟨hr', hc'.token.trans ht, hc'.marked hlive⟩
      · exact hnew' msg hmsg
    · exact ⟨[], new', hq', .inr rfl, hnew'⟩

theorem modify (m : Manager) (token : UInt16) {f : AbilityRecord → AbilityRecord}
    (hf : token = t → ∀ r, Carries r (f r)) (ht : ∀ r, (f r).token = r.token) :
    Spares t m (m.modify token f) := by
  refine of_records (fun r' hr' hrt => ?_) (.inl rfl)
  obtain ⟨r, hr, rfl⟩ := List.mem_map.mp hr'
  refine ⟨r, hr, ?_⟩
  split
  · next heq =>
    rw [if_pos heq, ht r] at hrt
    exact hf ((beq_iff_eq.mp heq).symm.trans hrt) r
  · exact .refl r

/-- What makes room in the list takes nothing else. -/
theorem add_queue (cfg : Config) (t : UInt16) (m : Manager) (r : AbilityRecord) :
    queueOf t (m.add cfg r).sent = queueOf t m.sent ∨ queueOf t (m.add cfg r).sent = [] := by
  simp only [Manager.add, releaseAll_eq]
  rw [queueOf_filter t m.sent fun token =>
    (m.abilityList.add cfg.abilityListCapacity r).2.all fun d => token ≠ d.token]
  split
  · exact .inl rfl
  · exact .inr rfl

/-- A record of another token joins the list. -/
theorem add (cfg : Config) (m : Manager) {r : AbilityRecord} (h : r.token ≠ t) :
    Spares t m (m.add cfg r) := by
  refine of_records (fun x hx hxt => ?_) (add_queue cfg t m r)
  rcases add_subset cfg m r x hx with rfl | hx
  · exact absurd hxt h
  · exact ⟨x, hx, .refl x⟩

theorem moveToTop (cfg : Config) (m : Manager) (token : UInt16) : Spares t m (m.moveToTop cfg token) := by
  refine of_subset (moveToTop_subset cfg m token) ?_
  cases hg : m.abilityList.get token with
  | none =>
    rw [moveToTop_none hg]
    exact .inl rfl
  | some r =>
    rw [moveToTop_some hg]
    exact add_queue cfg t (m.erase token) r

theorem erase (m : Manager) (token : UInt16) : Spares t m (m.erase token) :=
  of_subset (fun _ hr => (erase_sublist _ _).subset hr) (.inl rfl)

theorem release (m : Manager) (token : UInt16) : Spares t m (m.release token) := by
  refine of_subset (fun _ hr => hr) ?_
  simp only [Manager.release]
  rw [queueOf_filter t m.sent fun x => x ≠ token]
  split
  · exact .inl rfl
  · exact .inr rfl

theorem deleteAbilityThread (m : Manager) (r : AbilityRecord) : Spares t m (m.deleteAbilityThread r) := by
  unfold Manager.deleteAbilityThread
  split
  · exact (release m r.token).trans (modify _ _ (fun _ _ => ⟨rfl, rfl, id⟩) fun _ => rfl)
  · exact refl t m

theorem deleteRecordInfo (m : Manager) (token : UInt16) : Spares t m (m.deleteRecordInfo token) := by
  unfold Manager.deleteRecordInfo
  split
  · exact refl t m
  · next r _ => exact (deleteAbilityThread m r).trans (erase _ token)

theorem setAbilityStateAndNotify (m : Manager) (token : UInt16) (state : AbilityRecordState) :
    Spares t m (m.setAbilityStateAndNotify token state) := by
  obtain ⟨n, hn⟩ := setAbilityStateAndNotify_eq m token state
  rw [hn]
  exact modify m token (fun _ _ => ⟨rfl, rfl, id⟩) fun _ => rfl

/-- A message other than a `DESTROY` is sent, or one to another ability. -/
theorem send (env : Env) (m : Manager) (state : SliteAbilityState) (r : AbilityRecord)
    (h : r.token = t → state ≠ .uninitialized ∧ (state = .initial → ∀ r', Lives t m.abilityList r' →
      (!r.isTerminated && r.abilitySavedData.isSome) = r'.abilitySavedData.isSome)) :
    Spares t m (m.sendMsgToAbilityThread env state r).2 := by
  unfold sendMsgToAbilityThread
  split
  · exact refl t m
  · simp only
    split
    · refine ⟨fun x hx _ => ⟨x, hx, .refl x⟩, queueOf t m.sent, queueOf t [innerMsg state r],
        queueOf_append _ _ _, .inl rfl, fun msg hmsg => ?_⟩
      obtain ⟨hmem, hmt⟩ := mem_queueOf.mp hmsg
      rw [List.mem_singleton] at hmem
      subst hmem
      rw [innerMsg_token] at hmt
      obtain ⟨hstate, hcreate⟩ := h hmt
      cases state with
      | uninitialized => exact absurd rfl hstate
      | initial => exact ⟨by simp [innerMsg], fun _ => hcreate rfl⟩
      | foreground => simp [innerMsg]
      | background => simp [innerMsg]
      | unknown => simp [innerMsg]
    · exact refl t m

/-- Neither a `CREATE` nor a `DESTROY` is sent. -/
theorem sendOther (env : Env) (m : Manager) {state : SliteAbilityState} (r : AbilityRecord)
    (hcreate : state ≠ .initial) (hdestroy : state ≠ .uninitialized) :
    Spares t m (m.sendMsgToAbilityThread env state r).2 :=
  send env m state r fun _ => ⟨hdestroy, fun e => absurd e hcreate⟩

end Spares

/-! ## Operations -/

section
variable {cfg : Config} {t : UInt16} {m : Manager}

/-- The `CREATE` of a listed record carries its saved data. -/
theorem Spares.createAppTask (hd : (m.abilityList.map (·.token)).Nodup) (env : Env) (r : AbilityRecord)
    (listed : Bool) : Spares t m (createAppTask env m r listed).2 := by
  have hlisted {f : AbilityRecord → AbilityRecord} (hf : ∀ r, Carries r (f r)) :
      Spares t m (if listed then m.modify r.token f else m) := by
    split
    · exact .modify m r.token (fun _ => hf) fun r => (hf r).token.symm
    · exact .refl t m
  by_cases hinit : env.initAbilityThread r.token = errOk
  · simp only [MultiTasks.createAppTask, hinit, ne_eq, not_true_eq_false, if_false, schedulerLifecycle]
    have hstarted := hlisted (f := started env) fun _ => ⟨rfl, rfl, id⟩
    have hd' : ((if listed then m.modify r.token (started env) else m).abilityList.map
        (·.token)).Nodup := by
      split
      · simp only [Manager.modify]
        rw [modify_tokens (f := started env) fun _ => rfl]
        exact hd
      · exact hd
    revert hstarted hd'
    generalize (if listed then m.modify r.token (started env) else m) = m'
    intro hstarted hd'
    split
    · exact hstarted
    · next x hx =>
      refine hstarted.trans (.send env m' .initial x fun hxt => ⟨by decide, fun _ r' hr' => ?_⟩)
      obtain ⟨hmem, ht, hlive⟩ := hr'
      have hget := get_of_mem hd' hmem
      rw [ht, ← hxt, (get_eq_some hx).2, hx, Option.some.injEq] at hget
      subst hget
      simp [hlive]
  · rw [createAppTask_failed hinit]
    exact hlisted fun _ => ⟨rfl, rfl, id⟩

/-- The token that a new record gets once a pending one is taken first. -/
def tokenFor (m : Manager) : UInt16 :=
  if m.pendingToken ≠ 0 then m.pendingToken else (generateToken m).1

theorem newRecord_token (info : AbilitySvcInfo) (bundleName : CString) (token : UInt16)
    (mission : UInt32) : (newRecord info bundleName token mission).token = token :=
  (newRecord_spec info bundleName token mission).1

theorem Spares.preCheckStartAbility (hcap : 3 ≤ cfg.abilityListCapacity) (h : Tidy cfg m.abilityList)
    (env : Env) (info : AbilitySvcInfo) (bundleName : CString)
    (hnew : m.abilityList.getByName bundleName = none → tokenFor m ≠ t) :
    Spares t m (preCheckStartAbility cfg env m info bundleName).2 := by
  unfold MultiTasks.preCheckStartAbility
  split
  · exact .refl t m
  · split
    · split
      · split <;> exact .refl t m
      · exact .moveToTop cfg m _
    · next hname =>
      obtain ⟨token, k, htoken, hfor⟩ : ∃ token k,
          (if m.pendingToken ≠ 0 then (m.pendingToken, m) else generateToken m) =
            (token, { m with nextToken := k }) ∧ token = tokenFor m := by
        unfold tokenFor
        split
        · exact ⟨m.pendingToken, m.nextToken, rfl, rfl⟩
        · exact ⟨_, _, rfl, rfl⟩
      obtain ⟨mission, k', hmission⟩ := generateMission_eq { m with nextToken := k } info
      simp only [htoken, hmission]
      have hne : (newRecord info bundleName token mission).token ≠ t := by
        rw [newRecord_token, hfor]
        exact hnew hname
      have hadded : Spares t m (Manager.add cfg { m with nextToken := k, nextMission := k' }
          (newRecord info bundleName token mission)) :=
        Spares.add cfg { m with nextToken := k, nextMission := k' } hne
      have htidy := Tidy.add hcap (m := { m with nextToken := k, nextMission := k' }) h
        (newRecord info bundleName token mission)
      split
      · have hcreated := hadded.trans (.createAppTask htidy.nodup env
          (newRecord info bundleName token mission)
          (Manager.takes cfg { m with nextToken := k, nextMission := k' } token))
        split
        · exact hcreated.trans (.erase _ token)
        · exact hcreated
      · exact hadded

/-- The token that a start gives to the record of a new application. -/
def givenToken (m : Manager) : UInt16 :=
  if m.abilityList = [] then tokenFor m
  else tokenFor { (generateToken m).2 with pendingToken := (generateToken m).1 }

theorem tokenFor_congr {m m' : Manager} (hp : m'.pendingToken = m.pendingToken)
    (hn : m'.nextToken = m.nextToken) : tokenFor m' = tokenFor m := by
  simp only [tokenFor, generateToken, hp, hn]

theorem Spares.markTop (env : Env) (m : Manager) (top : AbilityRecord) : Spares t m (markTop env m top) := by
  unfold MultiTasks.markTop
  split
  · exact .modify m top.token (fun _ => .terminated) fun _ => rfl
  · exact .refl t m

theorem sendMsgToAbilityThread_tokens (env : Env) (m : Manager) (state : SliteAbilityState)
    (r : AbilityRecord) : (m.sendMsgToAbilityThread env state r).2.nextToken = m.nextToken ∧
      (m.sendMsgToAbilityThread env state r).2.abilityList = m.abilityList := by
  obtain ⟨s, hs⟩ := sendMsgToAbilityThread_eq env m state r
  rw [hs]
  exact ⟨rfl, rfl⟩

theorem Spares.startAbilityInfo (hcap : 3 ≤ cfg.abilityListCapacity) (h : Tidy cfg m.abilityList)
    (env : Env) (info : AbilitySvcInfo) (hnew : givenToken m ≠ t) :
    Spares t m (startAbilityInfo cfg env m info).2 := by
  unfold MultiTasks.startAbilityInfo
  split
  · exact .refl t m
  · split
    · exact .refl t m
    · split
      · next htop =>
        split
        · exact .refl t m
        · refine Spares.preCheckStartAbility hcap h env info _ fun _ => ?_
          have hnil : m.abilityList = [] := List.head?_eq_none_iff.mp htop
          rwa [givenToken, if_pos hnil] at hnew
      · next top htop =>
        split
        · exact .refl t m
        · split
          · split
            · exact .createAppTask h.nodup env top true
            · exact .refl t m
          · simp only
            have hsent : Spares t m
                ((MultiTasks.markTop env m top).sendMsgToAbilityThread env .background top).2 :=
              (Spares.markTop env m top).trans (.sendOther env _ top (by decide) (by decide))
            have hlist := (sendMsgToAbilityThread_tokens env (MultiTasks.markTop env m top)
              .background top).2
            have hnext := (sendMsgToAbilityThread_tokens env (MultiTasks.markTop env m top)
              .background top).1
            rw [markTop_nextToken] at hnext
            have htidy := h.markTop env top
            rw [← hlist] at htidy
            revert hsent hnext htidy
            generalize ((MultiTasks.markTop env m top).sendMsgToAbilityThread env .background top).2 = m'
            intro hsent hnext htidy
            refine hsent.trans (Spares.preCheckStartAbility hcap
              (m := { (generateToken m').2 with pendingToken := (generateToken m').1 }) htidy env info _
              fun _ => ?_)
            have hne : ¬ m.abilityList = [] := fun e => by
              rw [getTopAbility_nil e] at htop
              cases htop
            rw [givenToken, if_neg hne] at hnew
            refine fun e => hnew (Eq.trans (tokenFor_congr ?_ ?_) e)
            · simp only [generateToken, hnext]
            · simp only [generateToken, hnext]

theorem updateWant_carries (want : Want) (r : AbilityRecord) : Carries r (updateWant want r) := by
  unfold updateWant AbilityRecord.setWantData
  split <;> split <;> exact ⟨rfl, rfl, id⟩

theorem handWant_carries (want : Want) (r : AbilityRecord) : Carries r (handWant want r) := by
  unfold handWant AbilityRecord.setWantData
  split
  · split <;> exact ⟨rfl, rfl, id⟩
  · exact ⟨rfl, rfl, id⟩

theorem Spares.startAbility (hcap : 3 ≤ cfg.abilityListCapacity) (h : Tidy cfg m.abilityList)
    (env : Env) (want : Option Want) (hnew : (newApp cfg env m want).isSome → givenToken m ≠ t) :
    Spares t m (startAbility cfg env m want).2 := by
  cases hlock : m.isAppScheduling with
  | true =>
    simp only [MultiTasks.startAbility, hlock, if_true]
    exact .refl t m
  | false =>
    have hcases := startAbility_cases cfg env hlock want
    generalize MultiTasks.startAbility cfg env m want = x at hcases ⊢
    cases hcases with
    | ends ret remote hnone => exact .refl t m
    | bringsUp w r top hmem htop hne hup =>
      have hmodified : Spares t m (({ m with isAppScheduling := true } : Manager).modify r.token
          (updateWant w)) :=
        .modify _ r.token (fun _ => updateWant_carries w) fun r => (updateWant_keeps w r).1
      exact ((hmodified.trans (.moveToTop cfg _ r.token)).trans (.markTop env _ top)).trans
        (.sendOther env _ top (by decide) (by decide))
    | startsNew w bundleName info happ hbundle hname hquery =>
      exact Spares.startAbilityInfo (m := { m with isAppScheduling := true }) hcap h env _
        (hnew (by rw [happ]; rfl))

theorem Spares.terminateAbilityWant (env : Env) (token : UInt16) (want : Option Want) :
    Spares t m (terminateAbilityWant cfg env m token want).2 := by
  unfold MultiTasks.terminateAbilityWant
  split
  · exact .refl t m
  · next top htop =>
    split
    · exact .refl t m
    · split
      · split
        · exact .refl t m
        · split
          · exact .refl t m
          · exact .deleteRecordInfo m token
      · have hpop : ∀ r ∈ m.abilityList.popAbility, r ∈ m.abilityList :=
          fun r hr => List.mem_of_mem_tail hr
        simp only
        split
        · exact .of_subset hpop (.inl rfl)
        · next newTop hnew =>
          have hmem : top ∈ m.abilityList := List.mem_of_head? htop
          have hnew' : newTop ∈ m.abilityList := hpop _ (List.mem_of_head? hnew)
          have hswap : Spares t m (if isPermanentAbility top then
              (({ m with abilityList := m.abilityList.popAbility.popAbility } : Manager).add cfg top).add
                cfg newTop
              else ({ m with abilityList := m.abilityList.popAbility } : Manager).add cfg
                { top with isTerminated := true }) := by
            split
            · refine .of_subset (swap_subset hmem hnew') ?_
              rcases Spares.add_queue cfg t (({ m with
                abilityList := m.abilityList.popAbility.popAbility } : Manager).add cfg top) newTop with h | h
              · rw [h]
                exact Spares.add_queue cfg t _ top
              · exact .inr h
            · refine .of_records (fun r hr _ => ?_) (Spares.add_queue cfg t _ _)
              rcases relist_subset r hr with rfl | hr
              · exact ⟨top, hmem, .terminated top⟩
              · exact ⟨r, hr, .refl r⟩
          revert hswap
          generalize (if isPermanentAbility top then
              (({ m with abilityList := m.abilityList.popAbility.popAbility } : Manager).add cfg top).add
                cfg newTop
              else ({ m with abilityList := m.abilityList.popAbility } : Manager).add cfg
                { top with isTerminated := true }) = m'
          intro hswap
          have hhanded : Spares t m' (handToNewTop m' newTop.token want) := by
            cases want with
            | none => exact .refl t m'
            | some want =>
              exact .modify m' newTop.token (fun _ => handWant_carries want)
                fun r => (handWant_keeps r want).1
          have hsent : Spares t m' (({ handToNewTop m' newTop.token want with
              pendingToken := newTop.token } : Manager).sendMsgToAbilityThread env .background top).2 :=
            hhanded.trans (Spares.sendOther env
              { handToNewTop m' newTop.token want with pendingToken := newTop.token } top (by decide)
              (by decide))
          exact hswap.trans hsent

theorem Spares.terminateAbility (env : Env) (token : UInt16) :
    Spares t m (terminateAbility cfg env m token).2 := by
  unfold MultiTasks.terminateAbility
  split
  · exact .refl t m
  · exact Spares.terminateAbilityWant (m := { m with isAppScheduling := true }) env token none

theorem Spares.terminateEach (env : Env) (topToken : UInt16) (tokens : List UInt16) :
    Spares t m (terminateEach cfg env topToken m tokens) := by
  induction tokens generalizing m with
  | nil => exact .refl t m
  | cons token tokens ih =>
    have hfirst : Spares t m
        (if token ≠ topToken then (MultiTasks.terminateAbility cfg env m token).2 else m) := by
      split
      · exact Spares.terminateAbility env token
      · exact .refl t m
    exact hfirst.trans ih

theorem Spares.terminateAll (env : Env) (excludedBundleName : Option CString) :
    Spares t m (terminateAll env m excludedBundleName).2 := by
  unfold Manager.terminateAll
  split
  · exact .refl t m
  · obtain ⟨n, hn⟩ := foldl_notify_eq
      (m.releaseAll (m.abilityList.popAllAbility excludedBundleName).2.2)
      (m.abilityList.popAllAbility excludedBundleName).2.2
    simp only [hn]
    simp only [releaseAll_eq]
    refine .of_subset (popAllAbility_sublist _ _).subset ?_
    · rw [queueOf_filter t m.sent fun token =>
        (m.abilityList.popAllAbility excludedBundleName).2.2.all fun r => token ≠ r.token]
      split
      · exact .inl rfl
      · exact .inr rfl

/-- The restart after a failed launch does nothing to any record. -/
theorem Spares.restart (env : Env) {top : AbilityRecord} (htop : m.getTopAbility = some top) :
    Spares t m (startAbilityRecord cfg env { m with isAppScheduling := false } top).2 := by
  obtain ⟨rest, hl⟩ := List.head?_eq_some_iff.mp htop
  cases hdata : top.abilityData.isNone with
  | true =>
    simp only [startAbilityRecord, hdata, if_true]
    exact .refl t m
  | false =>
    rw [startAbilityRecord_top cfg env (m := { m with isAppScheduling := false }) hl rfl
      (by simpa [Option.isSome_iff_ne_none] using hdata)]
    exact .refl t m

theorem Spares.launchNext (hd : (m.abilityList.map (·.token)).Nodup) (env : Env) :
    Spares t m (launchNext cfg env m) := by
  unfold MultiTasks.launchNext
  split
  · split
    · exact .refl t m
    · next record hrecord =>
      have hcreated := Spares.createAppTask (t := t) hd env record true
      simp only
      split
      · have herased := hcreated.trans (.erase (t := t) _
          (MultiTasks.createAppTask env m record true).2.pendingToken)
        split
        · exact herased
        · next top htop => exact herased.trans (.restart env htop)
      · exact hcreated
  · split
    · exact .refl t m
    · next top htop =>
      have hcreated := Spares.createAppTask (t := t) hd env top true
      simp only
      split
      · exact hcreated.trans (.erase (t := t) _ top.token)
      · exact hcreated

theorem Spares.onDestroyDone (h : Tidy cfg m.abilityList) (env : Env) (token : UInt16) :
    Spares t m (onDestroyDone cfg env m token) := by
  rw [onDestroyDone_eq]
  have hset := h.setAbilityStateAndNotify token .stop
  refine Spares.trans (.setAbilityStateAndNotify m token .stop) ?_
  revert hset
  generalize m.setAbilityStateAndNotify token .stop = m'
  intro hset
  simp only
  split
  · exact .refl t m'
  · next r hr =>
    split
    · exact (Spares.deleteRecordInfo m' token).trans
        (.launchNext (hset.deleteRecordInfo token).nodup env)
    · refine (Spares.deleteAbilityThread m' r).trans (.launchNext ?_ env)
      unfold Manager.deleteAbilityThread
      split
      · exact (hset.modify r.token (f := fun r => { r with abilityThread := none }) fun _ => rfl).nodup
      · exact hset.nodup

/-- An operation spares the ability unless it gives the token to a new record. -/
theorem Spares.dispatch (hcap : 3 ≤ cfg.abilityListCapacity) (h : Tidy cfg m.abilityList) (env : Env)
    (o : AbilityOperation) (hnew : o.msgId = .startAbility → (newApp cfg env m o.want).isSome →
      givenToken m ≠ t) : Spares t m ((operations cfg).dispatch env m o).2 := by
  unfold Operations.dispatch
  cases hid : o.msgId with
  | startAbility => exact Spares.startAbility hcap h env _ (hnew hid)
  | terminateAbility => exact Spares.terminateAbility env _
  | terminateApp =>
    simp only [operations, forceStopBundle]
    split
    · exact .refl t m
    · split
      · exact .refl t m
      · split
        · exact Spares.terminateAbilityWant (m := { m with isAppScheduling := true }) env _ none
        · have hmarked : Spares t m (({ m with isAppScheduling := true } : Manager).modify
              o.token.toUInt16 fun r => { r with isTerminated := true }) :=
            .modify _ _ (fun _ => .terminated) fun _ => rfl
          have hmarkedTidy : Tidy cfg (({ m with isAppScheduling := true } : Manager).modify
              o.token.toUInt16 fun r => { r with isTerminated := true }).abilityList :=
            h.modify _ fun _ => rfl
          exact hmarked.trans (Spares.onDestroyDone hmarkedTidy env _)
  | terminateMission =>
    simp only [operations, terminateMission]
    split
    · exact .refl t m
    · split
      · exact .refl t m
      · exact Spares.terminateEach env _ _
  | terminateAppByBundleName =>
    simp only [operations, forceStop]
    split
    · exact .refl t m
    · split
      · exact .refl t m
      · split
        · exact .refl t m
        · exact Spares.terminateAbilityWant (m := { m with isAppScheduling := true }) env _ _
  | terminateAll =>
    simp only
    split
    · exact .refl t m
    · exact Spares.terminateAll env _
  | other _ => exact .refl t m

/-- A reply spares the ability unless it says that it is in the background. -/
theorem Spares.reply (h : Tidy cfg m.abilityList) (envs : Nat → Env) {token : UInt16}
    {state : SliteAbilityState} (hstate : state ≠ .foreground)
    (hother : ¬ (token = t ∧ state = .background)) :
    Spares t m (schedulerLifecycleDone (multiTasks cfg) envs m token state) := by
  cases state with
  | foreground => exact absurd rfl hstate
  | initial =>
    simp only [schedulerLifecycleDone, multiTasks, onCreateDone, schedulerLifecycle]
    split
    · exact .setAbilityStateAndNotify m token .inited
    · exact (Spares.setAbilityStateAndNotify m token .inited).trans
        (.sendOther _ _ _ (by decide) (by decide))
  | background =>
    have ht : token ≠ t := fun e => hother ⟨e, rfl⟩
    have hset := Spares.setAbilityStateAndNotify (t := t) m token .background
    simp only [schedulerLifecycleDone, multiTasks, onBackgroundDone]
    split
    · exact hset
    · next r hr =>
      have hrt := (get_eq_some hr).2
      have hreset (d : Option AbilitySavedData) : Spares t m
          ((m.setAbilityStateAndNotify token .background).modify token
            fun r => { r with abilitySavedData := d }) :=
        hset.trans (.modify _ token (fun e => absurd e ht) fun _ => rfl)
      exact (hreset _).trans (.send _ _ .uninitialized _ fun e => absurd (hrt.symm.trans e) ht)
  | uninitialized => exact Spares.onDestroyDone h (envs 0) token
  | unknown => exact .refl t m

end

/-! ## Statements that last -/

/-- A statement about the queue of an ability and the saved data of its record that sends
and answers keep. -/
structure Lasting (P : List SliteAbilityInnerMsg → Option AbilitySavedData → Prop) : Prop where
  dropped : ∀ {q d}, P q d → P [] d
  joined : ∀ {q d msg}, P q d → msg.msgId ≠ .destroy →
    (msg.msgId = .create → msg.hasSavedData = d.isSome) → P (q ++ [msg]) d
  answered : ∀ {q d msg} left, P (msg :: q) d →
    P q (if msg.msgId = .destroy ∧ msg.hasSavedData then d.map fun _ => left else d)

/-- The statement holds of every record of the token that is not terminated. -/
def Held (P : List SliteAbilityInnerMsg → Option AbilitySavedData → Prop) (t : UInt16)
    (m : Manager) : Prop :=
  ∀ r, Lives t m.abilityList r → P (queueOf t m.sent) r.abilitySavedData

section
variable {P : List SliteAbilityInnerMsg → Option AbilitySavedData → Prop}

theorem Lasting.append (hP : Lasting P) {q new : List SliteAbilityInnerMsg}
    {d : Option AbilitySavedData} (h : P q d) (hnew : ∀ msg ∈ new, msg.msgId ≠ .destroy ∧
      (msg.msgId = .create → msg.hasSavedData = d.isSome)) : P (q ++ new) d := by
  induction new generalizing q with
  | nil => rwa [List.append_nil]
  | cons msg new ih =>
    obtain ⟨hmsg, hnew⟩ := List.forall_mem_cons.mp hnew
    rw [List.append_cons]
    exact ih (hP.joined h hmsg.1 hmsg.2) hnew

theorem Held.of_spares (hP : Lasting P) {t : UInt16} {m m' : Manager} (h : Held P t m)
    (hs : Spares t m m') : Held P t m' := by
  intro r' hr'
  obtain ⟨hrec, kept, new, hq, hkept, hnew⟩ := hs
  obtain ⟨r, hr, hc⟩ := hrec r' hr'.1 hr'.2.1
  have hold : P (queueOf t m.sent) r'.abilitySavedData :=
    hc.saved ▸ h r ⟨hr, hc.token.trans hr'.2.1, hc.marked hr'.2.2⟩
  rw [hq]
  refine hP.append ?_ fun msg hmsg => ⟨(hnew msg hmsg).1, fun hid => (hnew msg hmsg).2 hid r' hr'⟩
  rcases hkept with rfl | rfl
  · exact hold
  · exact hP.dropped hold

theorem sent_split {sent : List SliteAbilityInnerMsg} {i : Nat} {msg : SliteAbilityInnerMsg}
    (hmsg : sent[i]? = some msg) : sent = sent.take i ++ msg :: sent.drop (i + 1) := by
  obtain ⟨hi, hget⟩ := List.getElem?_eq_some_iff.mp hmsg
  rw [← hget, List.getElem_cons_drop, List.take_append_drop]

/-- The message answered is the first of its queue. -/
theorem queueOf_answered {sent : List SliteAbilityInnerMsg} {i : Nat} {msg : SliteAbilityInnerMsg}
    (hmsg : sent[i]? = some msg) (hfirst : (sent.take i).any (·.token = msg.token) = false) :
    queueOf msg.token sent = msg :: queueOf msg.token (sent.eraseIdx i) := by
  have hnone : queueOf msg.token (sent.take i) = [] := by
    rw [queueOf, List.filter_eq_nil_iff]
    intro x hx hxt
    exact absurd (List.any_eq_true.mpr ⟨x, hx, hxt⟩) (by rw [hfirst]; exact Bool.false_ne_true)
  have hsplit := congrArg (queueOf msg.token) (sent_split hmsg)
  rw [queueOf_append, hnone, List.nil_append] at hsplit
  rw [List.eraseIdx_eq_take_drop_succ, queueOf_append, hnone, List.nil_append, hsplit]
  exact List.filter_cons_of_pos (by simp)

/-- An answer to another ability's message takes nothing from the queue. -/
theorem queueOf_eraseIdx {sent : List SliteAbilityInnerMsg} {i : Nat} {msg : SliteAbilityInnerMsg}
    (hmsg : sent[i]? = some msg) {t : UInt16} (ht : msg.token ≠ t) :
    queueOf t (sent.eraseIdx i) = queueOf t sent := by
  have hsplit := congrArg (queueOf t) (sent_split hmsg)
  rw [queueOf_append] at hsplit
  rw [List.eraseIdx_eq_take_drop_succ, queueOf_append, hsplit]
  exact congrArg _ (List.filter_cons_of_neg (by simpa using ht)).symm

theorem leaveSavedData_data {m : Manager} {msg : SliteAbilityInnerMsg} {left : AbilitySavedData}
    {r : AbilityRecord} (h : Lives msg.token (leaveSavedData m msg left).abilityList r) :
    ∃ r₀, Lives msg.token m.abilityList r₀ ∧ r.abilitySavedData =
      if msg.msgId = .destroy ∧ msg.hasSavedData then r₀.abilitySavedData.map fun _ => left
      else r₀.abilitySavedData := by
  obtain ⟨hmem, ht, hlive⟩ := h
  unfold leaveSavedData at hmem
  split at hmem
  · next hdestroy =>
    simp only [hdestroy, and_self, if_true]
    obtain ⟨r₀, hr₀, rfl⟩ := List.mem_map.mp hmem
    by_cases htoken : r₀.token = msg.token
    · simp only [htoken, beq_self_eq_true, if_true] at hlive ⊢
      exact ⟨r₀, ⟨hr₀, htoken, hlive⟩, rfl⟩
    · simp [htoken] at ht
  · next hdestroy => exact ⟨r, ⟨hmem, ht, hlive⟩, by rw [if_neg hdestroy]⟩

theorem leaveSavedData_other {m : Manager} {msg : SliteAbilityInnerMsg} {left : AbilitySavedData}
    {t : UInt16} (ht : msg.token ≠ t) {r : AbilityRecord}
    (h : Lives t (leaveSavedData m msg left).abilityList r) : Lives t m.abilityList r := by
  obtain ⟨hmem, hrt, hlive⟩ := h
  rcases leaveSavedData_eq m msg left with heq | heq
  · rw [heq] at hmem
    exact ⟨hmem, hrt, hlive⟩
  · rw [heq] at hmem
    obtain ⟨r₀, hr₀, rfl⟩ := List.mem_map.mp hmem
    by_cases htoken : r₀.token = msg.token
    · simp only [htoken, beq_self_eq_true, if_true] at hrt
      exact absurd hrt ht
    · simp only [beq_iff_eq, htoken, if_false] at hrt hlive ⊢
      exact ⟨hr₀, hrt, hlive⟩

/-- No start gives the token to a new record, and no reply says that the ability of the token
is in the background. -/
def sparing (cfg : Config) (t : UInt16) : Condition where
  operation env m o :=
    o.msgId = .startAbility → (newApp cfg env m o.want).isSome → givenToken m ≠ t
  reply _ _ token state := ¬ (token = t ∧ state = .background)

/-- What lasts, every such step keeps. -/
theorem held_keeps (hP : Lasting P) {cfg : Config} (hcap : 3 ≤ cfg.abilityListCapacity) (t : UInt16) :
    Keeps (multiTasks cfg) (sparing cfg t) fun _ m => Tidy cfg m.abilityList ∧ Held P t m where
  queue _ h := h
  enter r h := by
    unfold Request.enter
    split <;> exact h
  flag _ h := h
  defers := operations_defers cfg
  operation env m o h hlock hwf _ hok := by
    obtain ⟨htidy, hheld⟩ := h
    have ht := htidy.dispatch hcap env o
    have hh := hheld.of_spares hP (.dispatch hcap htidy env o hok)
    exact ⟨dispatch_wellFormed hlock hwf o, fun _ => ⟨ht, hh⟩, fun _ => ⟨ht, hh⟩⟩
  answer := by
    intro rs m i msg left hmsg hfirst h
    have htidy : Tidy cfg (leaveSavedData m msg left).abilityList := by
      rcases leaveSavedData_eq m msg left with heq | heq
      · rw [heq]
        exact h.1
      · rw [heq]
        exact h.1.modify msg.token fun _ => rfl
    refine ⟨htidy, fun r hr => ?_⟩
    -- An answer of another ability leaves the queue and the data of this one alone.
    by_cases ht : msg.token = t
    · subst ht
      obtain ⟨r₀, hr₀, hdata⟩ := leaveSavedData_data hr
      have hheld := h.2 r₀ hr₀
      rw [queueOf_answered hmsg hfirst] at hheld
      rw [hdata]
      exact hP.answered left hheld
    · have hheld := h.2 r (leaveSavedData_other ht hr)
      rwa [← queueOf_eraseIdx hmsg ht] at hheld
  foreground env m token h hwf _ :=
    ⟨⟨h.1.setAbilityStateAndNotify token .foreground,
        h.2.of_spares hP (.setAbilityStateAndNotify m token .foreground)⟩,
      wellFormed_of_queue hwf (setAbilityStateAndNotify_queue m token _)⟩
  reply envs m token state hstate h hwf hok :=
    ⟨⟨(@Keeps.reply _ _ _ (tidy_keeps hcap) [] envs m token state hstate h.1 hwf trivial).1,
        h.2.of_spares hP (.reply h.1 envs hstate hok)⟩,
      schedulerLifecycleDone_wellFormed hstate hwf⟩

end

/-! ## From a `DESTROY` to the next `CREATE` -/

/-- The last `DESTROY` in the queue carries the saved data, and so does each `CREATE` after it. -/
def Awaiting (q : List SliteAbilityInnerMsg) (d : Option AbilitySavedData) : Prop :=
  d.isSome = true ∧ ∀ before msg after, q = before ++ msg :: after → msg.msgId = .destroy →
    (∀ x ∈ after, x.msgId ≠ .destroy) →
      msg.hasSavedData = true ∧ ∀ x ∈ after, x.msgId = .create → x.hasSavedData = true

theorem awaiting_lasting : Lasting Awaiting where
  dropped h := ⟨h.1, fun before msg after hq => by simp at hq⟩
  joined := by
    intro q d new h hnew hcreate
    refine ⟨h.1, fun before msg after hq hmsg hlast => ?_⟩
    rcases List.eq_nil_or_concat after with rfl | ⟨after, x, rfl⟩
    · have hx := List.singleton_inj.mp (List.append_inj' hq rfl).2
      exact absurd (hx ▸ hmsg) hnew
    · rw [List.concat_eq_append] at hq hlast ⊢
      rw [← List.cons_append, ← List.append_assoc] at hq
      obtain ⟨hq', hx⟩ := List.append_inj' hq rfl
      rw [List.singleton_inj] at hx
      subst hx
      obtain ⟨hcarries, hafter⟩ := h.2 before msg after hq' hmsg
        fun y hy => hlast y (List.mem_append_left _ hy)
      refine ⟨hcarries, fun y hy hid => ?_⟩
      rcases List.mem_append.mp hy with hy | hy
      · exact hafter y hy hid
      · rw [List.mem_singleton.mp hy] at hid ⊢
        exact (hcreate hid).trans h.1
  answered := by
    intro q d msg left h
    refine ⟨?_, fun before x after hq => h.2 (msg :: before) x after (by rw [hq, List.cons_append])⟩
    split
    · rw [Option.isSome_map]
      exact h.1
    · exact h.1

/-- Once it has answered the `DESTROY`, what it left is there and each `CREATE` carries it. -/
def LeftBy (destroy : SliteAbilityInnerMsg) (left : AbilitySavedData) (q : List SliteAbilityInnerMsg)
    (d : Option AbilitySavedData) : Prop :=
  destroy.hasSavedData = true ∧ d = some left ∧ ∀ msg ∈ q, msg.msgId ≠ .destroy ∧
    (msg.msgId = .create → msg.hasSavedData = true)

theorem leftBy_lasting (destroy : SliteAbilityInnerMsg) (left : AbilitySavedData) :
    Lasting (LeftBy destroy left) where
  dropped h := ⟨h.1, h.2.1, fun _ hmsg => absurd hmsg List.not_mem_nil⟩
  joined := by
    intro q d new ⟨hcarries, hd, hq⟩ hnew hcreate
    refine ⟨hcarries, hd, fun msg hmsg => ?_⟩
    rcases List.mem_append.mp hmsg with hmsg | hmsg
    · exact hq msg hmsg
    · rw [List.mem_singleton.mp hmsg]
      exact ⟨hnew, fun hid => (hcreate hid).trans (by rw [hd]; rfl)⟩
  answered := by
    intro q d msg left' ⟨hcarries, hd, hq⟩
    obtain ⟨hmsg, hq⟩ := List.forall_mem_cons.mp hq
    rw [if_neg fun h => hmsg.1 h.1]
    exact ⟨hcarries, hd, hq⟩

/-- A `DESTROY` that carries the saved data goes to the end of the queue. -/
theorem awaiting_concat {q : List SliteAbilityInnerMsg} {d : Option AbilitySavedData}
    {destroy : SliteAbilityInnerMsg} (hd : d.isSome = true)
    (hdestroy : destroy.msgId = .destroy ∧ destroy.hasSavedData = true) : Awaiting (q ++ [destroy]) d := by
  refine ⟨hd, fun before msg after hq _ hlast => ?_⟩
  rcases List.eq_nil_or_concat after with rfl | ⟨after, x, rfl⟩
  · have hx := List.singleton_inj.mp (List.append_inj' hq rfl).2
    exact ⟨hx ▸ hdestroy.2, fun y hy => absurd hy List.not_mem_nil⟩
  · rw [List.concat_eq_append] at hq hlast
    rw [← List.cons_append, ← List.append_assoc] at hq
    have hx := List.singleton_inj.mp (List.append_inj' hq rfl).2
    exact absurd (hx ▸ hdestroy.1) (hlast x (List.mem_append_right _ (List.mem_singleton_self x)))

theorem sendMsgToAbilityThread_or (env : Env) (m : Manager) (state : SliteAbilityState)
    (r : AbilityRecord) : (m.sendMsgToAbilityThread env state r).2 = m ∨
      (m.sendMsgToAbilityThread env state r).2 = { m with sent := m.sent ++ [innerMsg state r] } := by
  unfold sendMsgToAbilityThread
  split
  · exact .inl rfl
  · simp only
    split
    · exact .inr rfl
    · exact .inl rfl

/-- The reply that an ability is in the background sends it a `DESTROY` with its saved data. -/
theorem awaiting_sent {m : Manager} (hd : (m.abilityList.map (·.token)).Nodup) (env : Env)
    {t : UInt16} {destroy : SliteAbilityInnerMsg}
    (hsent : (onBackgroundDone env m t).sent = m.sent ++ [destroy]) :
    Held Awaiting t (onBackgroundDone env m t) := by
  obtain ⟨n, hn⟩ := setAbilityStateAndNotify_eq m t .background
  have hset : (m.setAbilityStateAndNotify t .background).sent = m.sent := by rw [hn]
  have hd' : ((m.setAbilityStateAndNotify t .background).abilityList.map (·.token)).Nodup := by
    rw [hn]
    simp only
    rw [modify_tokens (f := fun r => { r with state := .background }) fun _ => rfl]
    exact hd
  revert hsent
  unfold onBackgroundDone
  revert hset hd'
  generalize m.setAbilityStateAndNotify t .background = m'
  intro hset hd'
  simp only
  -- No record, no `DESTROY`; a record, and the data is allocated before it is sent.
  split
  · intro hsent
    rw [hset] at hsent
    exact absurd hsent.symm (by simp)
  · next r hr =>
    have hdata : r.isTerminated = false → (if !r.isTerminated && r.abilitySavedData.isNone then some {}
        else r.abilitySavedData.map AbilitySavedData.reset).isSome = true := by
      intro hlive
      cases hsaved : r.abilitySavedData <;> simp [hlive]
    revert hdata
    generalize (if !r.isTerminated && r.abilitySavedData.isNone then some {}
      else r.abilitySavedData.map AbilitySavedData.reset) = d
    intro hdata
    rcases sendMsgToAbilityThread_or env
      (m'.modify t fun r => { r with abilitySavedData := d }) .uninitialized
      { r with abilitySavedData := d } with heq | heq
    · -- The queue is full: nothing was sent, against the hypothesis.
      rw [heq]
      intro hsent
      have hsame : m'.sent = m.sent ++ [destroy] := hsent
      rw [hset] at hsame
      exact absurd hsame.symm (by simp)
    · rw [heq]
      rintro - x ⟨hmem, ht, hlive⟩
      obtain ⟨y, hy, rfl⟩ := List.mem_map.mp hmem
      by_cases hyt : y.token = t
      · have hget := get_of_mem hd' hy
        rw [hyt, hr, Option.some.injEq] at hget
        subst hget
        simp only [hyt, beq_self_eq_true, if_true] at hlive ⊢
        have hown : queueOf t [innerMsg .uninitialized { r with abilitySavedData := d, token := t }] =
            [innerMsg .uninitialized { r with abilitySavedData := d, token := t }] := queueOf_own rfl
        rw [queueOf_append, hown]
        refine awaiting_concat (hdata hlive) ?_
        simp [innerMsg, hlive, hdata hlive]
      · simp [hyt] at ht

/-- The `i`-th message is the last `DESTROY` in the queue of the ability. -/
structure LastDestroy (t : UInt16) (i : Nat) (destroy : SliteAbilityInnerMsg)
    (sent : List SliteAbilityInnerMsg) : Prop where
  message : sent[i]? = some destroy
  token : destroy.token = t
  isDestroy : destroy.msgId = .destroy
  last : ∀ msg ∈ sent.eraseIdx i, msg.token = t → msg.msgId ≠ .destroy

theorem leftBy_answered {cfg : Config} {s s' : System} {t : UInt16} {i : Nat}
    {destroy : SliteAbilityInnerMsg} {left : AbilitySavedData} (h : Held Awaiting t s.manager)
    (hlast : LastDestroy t i destroy s.manager.sent)
    (hnext : s.next (multiTasks cfg) (.answer i left) = some s') :
    Held (LeftBy destroy left) t s'.manager := by
  obtain ⟨hmsg, rfl, hdestroy, hlast⟩ := hlast
  simp only [System.next, hmsg] at hnext
  split at hnext
  · cases hnext
  · next hfirst =>
    cases hnext
    intro r hr
    obtain ⟨r₀, hr₀, hdata⟩ := leaveSavedData_data hr
    have hheld := h r₀ hr₀
    rw [queueOf_answered hmsg (by simpa using hfirst)] at hheld
    have hlast' : ∀ x ∈ queueOf destroy.token (s.manager.sent.eraseIdx i), x.msgId ≠ .destroy :=
      fun x hx => hlast x (mem_queueOf.mp hx).1 (mem_queueOf.mp hx).2
    obtain ⟨hcarries, hcreate⟩ := hheld.2 [] destroy _ rfl hdestroy hlast'
    refine ⟨hcarries, ?_, fun x hx => ⟨hlast' x hx, hcreate x hx⟩⟩
    obtain ⟨d, hd⟩ := Option.isSome_iff_exists.mp hheld.1
    rw [hdata, if_pos ⟨hdestroy, hcarries⟩, hd]
    rfl

/-- In any run, let the reply that an ability is in the background send it a `DESTROY`, and
let it answer the last one sent to it. As long as no start gives its token to a new record and
no other reply says that it is in the background, that `DESTROY` has carried the saved data of
its record, what it left is there until the record is terminated, and each `CREATE` in its
queue carries it. -/
theorem multiTasks_savedData_survives {cfg : Config} (hcap : 3 ≤ cfg.abilityListCapacity)
    {s s₁ s₂ s₃ s₄ : System} {t : UInt16} {envs : Nat → Env} {i : Nat}
    {sentDestroy destroy : SliteAbilityInnerMsg} {left : AbilitySavedData}
    (hrun : Reached (System.next (multiTasks cfg)) (fun _ _ => True) (Booted cfg) s)
    (hreply : s.replies.head? = some (t, .background))
    (hnext : s.next (multiTasks cfg) (.reply envs) = some s₁)
    (hsent : s₁.manager.sent = s.manager.sent ++ [sentDestroy])
    (hbefore : Reached (System.next (multiTasks cfg))
      (fun s e => s.meets (multiTasks cfg) (sparing cfg t) e) (· = s₁) s₂)
    (hlast : LastDestroy t i destroy s₂.manager.sent)
    (hanswer : s₂.next (multiTasks cfg) (.answer i left) = some s₃)
    (hafter : Reached (System.next (multiTasks cfg))
      (fun s e => s.meets (multiTasks cfg) (sparing cfg t) e) (· = s₃) s₄) :
    ∀ r ∈ s₄.manager.abilityList, r.token = t → r.isTerminated = false →
      destroy.hasSavedData = true ∧ r.abilitySavedData = some left ∧
        ∀ create ∈ s₄.manager.sent, create.token = t → create.msgId = .create →
          create.hasSavedData = true := by
  have ktidy := tidy_keeps hcap
  have htidy := ktidy.reached (fun _ h => h.tidy hcap)
    (hrun.mono fun s e _ => meets_trivial (multiTasks cfg) s e)
  have htidy₁ := ktidy.step htidy (meets_trivial (multiTasks cfg) s _) hnext
  have hawaiting : Held Awaiting t s₁.manager := by
    obtain ⟨replies, hreplies⟩ := List.head?_eq_some_iff.mp hreply
    simp only [System.next, hreplies, Option.some.injEq] at hnext
    subst hnext
    exact awaiting_sent htidy.1.nodup (envs 0) hsent
  have hinit₁ : ∀ s, s = s₁ → (Tidy cfg s.manager.abilityList ∧ Held Awaiting t s.manager) ∧
      s.manager.QueueWellFormed := fun s e => e ▸ ⟨⟨htidy₁.1, hawaiting⟩, htidy₁.2⟩
  have hs₂ := (held_keeps awaiting_lasting hcap t).reached hinit₁ hbefore
  have htidy₃ := ktidy.step ⟨hs₂.1.1, hs₂.2⟩ (meets_trivial (multiTasks cfg) s₂ _) hanswer
  have hleft := leftBy_answered hs₂.1.2 hlast hanswer
  have hinit₃ : ∀ s, s = s₃ → (Tidy cfg s.manager.abilityList ∧ Held (LeftBy destroy left) t s.manager) ∧
      s.manager.QueueWellFormed := fun s e => e ▸ ⟨⟨htidy₃.1, hleft⟩, htidy₃.2⟩
  have hs₄ := (held_keeps (leftBy_lasting destroy left) hcap t).reached hinit₃ hafter
  intro r hr ht hlive
  obtain ⟨hcarries, hdata, hqueue⟩ := hs₄.1.2 r ⟨hr, ht, hlive⟩
  exact ⟨hcarries, hdata, fun create hcreate hct hid =>
    (hqueue create (mem_queueOf.mpr ⟨hcreate, hct⟩)).2 hid⟩

/-! ## A second background reply -/

def leftData : AbilitySavedData :=
  { userSavedData := some [7], userSavedDataSize := 1, savedResult := .ok }

/-- The launcher is in front, an application is started over it, and the launcher answers that
it is in the background. -/
def launcherAwayEvents : List Event :=
  answered 2 ++ [.request (startOf (cstr "a")) fun _ => .working, .answer 0 {}]

def launcherAway : System :=
  (run (System.next (multiTasks roomy)) roomySystem launcherAwayEvents).getD roomySystem

def launcherDestroyed : System :=
  (launcherAway.next (multiTasks roomy) (.reply fun _ => .working)).getD launcherAway

def launcherLeft : System :=
  (launcherDestroyed.next (multiTasks roomy) (.answer 0 leftData)).getD launcherDestroyed

theorem getD_of_isSome {α : Type} {o : Option α} (h : o.isSome = true) (d : α) : o = some (o.getD d) := by
  obtain ⟨a, rfl⟩ := Option.isSome_iff_exists.mp h
  rfl

def launcherDestroy : SliteAbilityInnerMsg :=
  { token := launcherToken, msgId := .destroy, hasSavedData := true }

/-- `sparing`, evaluated. -/
def sparingCheck (cfg : Config) (t : UInt16) : Check where
  operation m o := decide
    (o.msgId = .startAbility → (newApp cfg .working m o.want).isSome → givenToken m ≠ t)
  reply _ token state := decide (¬ (token = t ∧ state = .background))

theorem sparingCheck_sound (cfg : Config) (t : UInt16) : (sparingCheck cfg t).Sound (sparing cfg t) where
  operation _ _ h := by
    simp only [sparingCheck, decide_eq_true_eq] at h
    exact h
  reply _ _ _ h := by
    simp only [sparingCheck, decide_eq_true_eq] at h
    exact h

/-- The application comes to the front, and the launcher is started again. -/
def launcherBackEvents : List Event :=
  [.reply fun _ => .working] ++ answered 2 ++
    [.request (startOf launcherBundleName) fun _ => .working] ++ answered 2

theorem launcherBackEvents_works : ∀ e ∈ launcherBackEvents, e.Works := by
  intro e he
  rcases List.mem_append.mp he with he | he
  · rcases List.mem_append.mp he with he | he
    · rcases List.mem_cons.mp he with rfl | he
      · rfl
      · exact answered_works 2 e he
    · rw [List.mem_singleton.mp he]
      rfl
  · exact answered_works 2 e he

/-- What the launcher left is there when it is created again, and the `CREATE` carries it. -/
theorem multiTasks_savedData_survives_launcher :
    ∃ s, run (System.next (multiTasks roomy)) launcherLeft launcherBackEvents = some s ∧
      ∃ r ∈ s.manager.abilityList, r.token = launcherToken ∧ r.abilitySavedData = some leftData ∧
        ∃ create ∈ s.manager.sent, create.token = launcherToken ∧ create.msgId = .create ∧
          create.hasSavedData = true := by
  have hrun : Reached (System.next (multiTasks roomy)) (fun _ _ => True) (Booted roomy) launcherAway :=
    .of_run (.init roomySystem_booted) launcherAwayEvents (getD_of_isSome (by decide) _)
  have hreply : launcherAway.replies.head? = some (launcherToken, .background) := by decide
  have hnext : launcherAway.next (multiTasks roomy) (.reply fun _ => .working) =
      some launcherDestroyed := getD_of_isSome (by decide) _
  have hsent : launcherDestroyed.manager.sent = launcherAway.manager.sent ++ [launcherDestroy] := by
    decide
  have hlast : LastDestroy launcherToken 0 launcherDestroy launcherDestroyed.manager.sent :=
    ⟨by decide, rfl, rfl, by decide⟩
  have hanswer : launcherDestroyed.next (multiTasks roomy) (.answer 0 leftData) = some launcherLeft :=
    getD_of_isSome (by decide) _
  have hback : (launcherLeft.runPasses (multiTasks roomy) (sparingCheck roomy launcherToken)
      launcherBackEvents).map (fun s =>
        (decide (∃ r ∈ s.manager.abilityList, r.token = launcherToken ∧ r.isTerminated = false),
          decide (∃ create ∈ s.manager.sent, create.token = launcherToken ∧ create.msgId = .create))) =
      some (true, true) := by decide
  obtain ⟨s, hs, hlisted⟩ := Option.map_eq_some_iff.mp hback
  simp only [Prod.mk.injEq, decide_eq_true_eq] at hlisted
  obtain ⟨⟨r, hr, ht, hlive⟩, create, hcreate, hct, hid⟩ := hlisted
  have hafter : Reached (System.next (multiTasks roomy))
      (fun s e => s.meets (multiTasks roomy) (sparing roomy launcherToken) e) (· = launcherLeft) s :=
    (sparingCheck_sound roomy launcherToken).reached launcherBackEvents_works (.init rfl) hs
  obtain ⟨-, hdata, hcarried⟩ := multiTasks_savedData_survives (by decide) hrun hreply hnext hsent
    (.init rfl) hlast hanswer hafter r hr ht hlive
  exact ⟨s, run_of_runIf _ hs, r, hr, ht, hdata, create, hcreate, hct, hid,
    hcarried create hcreate hct hid⟩

/-- A build without the bundle manager, where the path of an application is the data of the want. -/
def dataPaths : Config := { abilityListCapacity := 8, miniBms := false }

/-- What its memory holds makes the launcher, whose start has no data, a native application. -/
def nativeEnv : Env := { Env.working with heapIsNativeApp := true }

def dataPathsSystem : System where
  manager := startLauncher dataPaths nativeEnv {}

theorem dataPathsSystem_booted : Booted dataPaths dataPathsSystem :=
  ⟨rfl, nativeEnv, fun _ _ => rfl, fun _ _ => rfl, by decide, rfl⟩

/-- A start of a JS application, the path of which is the data. -/
def startAt (bundleName : CString) : Request :=
  .startAbility (some
    { want := some
        { element := some { bundleName := some bundleName }
          data := some (cstr "/js").buffer, dataLength := 4 }
      curTask := none })

/-- A start over the first application is refused, as it has no path, once the first was told to go
to the background; the next start tells it again. It goes, and answers the second time before
it answers the `DESTROY` that the first time brought. -/
def toldTwiceEvents : List Event :=
  answered 2 ++ [.request (startAt (cstr "a")) fun _ => .working] ++ answered 4 ++
    [.request (startOf (cstr "b")) fun _ => .working,
      .request (startAt (cstr "c")) fun _ => .working,
      .answer 0 {}, .reply fun _ => .working, .answer 0 {}, .answer 0 leftData]

/-- The two replies are handled, the other application comes up, and the first is started again. -/
def broughtBackEvents : List Event :=
  [.reply fun _ => .working, .reply fun _ => .working] ++ answered 2 ++
    [.request (startOf (cstr "a")) fun _ => .working] ++ answered 2

/-- The record of the token is listed and not terminated. -/
def listedAlive (t : UInt16) (s : System) : Bool :=
  (s.manager.abilityList.get t).any (!·.isTerminated)

/-- The first application leaves its data on the `DESTROY`, its record stays, and the `CREATE`
carries saved data that has been reset. -/
theorem multiTasks_savedData_reset : Booted dataPaths dataPathsSystem ∧
    ∃ s, run (System.next (multiTasks dataPaths)) dataPathsSystem toldTwiceEvents = some s ∧
      (s.manager.abilityList.get 1).map (·.abilitySavedData) = some (some leftData) ∧
      (∀ n ≤ broughtBackEvents.length,
        (run (System.next (multiTasks dataPaths)) s (broughtBackEvents.take n)).any (listedAlive 1)) ∧
      ∃ s', run (System.next (multiTasks dataPaths)) s broughtBackEvents = some s' ∧
        (∃ create ∈ s'.manager.sent, create.token = 1 ∧ create.msgId = .create ∧
          create.hasSavedData = true) ∧
        (s'.manager.abilityList.get 1).map (·.abilitySavedData) = some (some {}) := by
  have h : (run (System.next (multiTasks dataPaths)) dataPathsSystem toldTwiceEvents).map (fun s =>
      ((s.manager.abilityList.get 1).map (·.abilitySavedData),
        decide (∀ n ≤ broughtBackEvents.length,
          (run (System.next (multiTasks dataPaths)) s (broughtBackEvents.take n)).any (listedAlive 1)),
        (run (System.next (multiTasks dataPaths)) s broughtBackEvents).map fun s' =>
          (decide (∃ create ∈ s'.manager.sent, create.token = 1 ∧ create.msgId = .create ∧
            create.hasSavedData = true), (s'.manager.abilityList.get 1).map (·.abilitySavedData)))) =
      some (some (some leftData), true, some (true, some (some {}))) := by decide
  obtain ⟨s, hs, hdata⟩ := Option.map_eq_some_iff.mp h
  simp only [Prod.mk.injEq, decide_eq_true_eq] at hdata
  obtain ⟨hleft, hstays, hback⟩ := hdata
  obtain ⟨s', hs', hcreate⟩ := Option.map_eq_some_iff.mp hback
  simp only [Prod.mk.injEq, decide_eq_true_eq] at hcreate
  exact ⟨dataPathsSystem_booted, s, hs, hleft, hstays, s', hs', hcreate.1, hcreate.2⟩

end AbilityLite.Slite.MultiTasks
