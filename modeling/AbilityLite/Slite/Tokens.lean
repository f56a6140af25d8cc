import AbilityLite.Slite.MultiTasksSavedData
import AbilityLite.Slite.SingleTaskOverlap

/-
  Tokens identify records until the counter starts over, in either build.

  1. `usesToken` collects where a token can stand in a manager: on a listed record, as
     `pendingToken`, or on the pending record. `KeepsTokens` is what a function does that
     asks for no token, `Takes` what it does with one that it asks for;
  2. the multi-task build hands out the counter and then counts, so what is used stays
     below it; where it starts over it hands out the launcher's token;
  3. the single-task build counts first, so what is used is at most the counter.
-/

namespace AbilityLite.Slite

/-! ## Tokens in use -/

/-- The token is that of a listed record, the pending one, or that of the pending record. -/
def Manager.usesToken (m : Manager) (t : UInt16) : Prop :=
  (∃ r ∈ m.abilityList, r.token = t) ∨ (m.pendingToken ≠ 0 ∧ m.pendingToken = t) ∨
    ∃ r, m.pendingRecord = some r ∧ r.token = t

/-- No token is asked for, and none is used that was not. -/
structure KeepsTokens (m m' : Manager) : Prop where
  counter : m'.nextToken = m.nextToken
  used : ∀ t, m'.usesToken t → m.usesToken t
  queue : m.QueueWellFormed → m'.QueueWellFormed

/-- No token is asked for, and none but the given one is used that was not. -/
structure Admits (token : UInt16) (m m' : Manager) : Prop where
  counter : m'.nextToken = m.nextToken
  used : ∀ t, m'.usesToken t → t = token ∨ m.usesToken t
  queue : m.QueueWellFormed → m'.QueueWellFormed

namespace KeepsTokens
open Manager
variable {m m' m'' : Manager}

theorem refl (m : Manager) : KeepsTokens m m := ⟨rfl, fun _ h => h, id⟩

theorem trans (h : KeepsTokens m m') (h' : KeepsTokens m' m'') : KeepsTokens m m'' :=
  ⟨h'.counter.trans h.counter, fun t ht => h.used t (h'.used t ht), h'.queue ∘ h.queue⟩

/-- The listed records have tokens that are used, and the rest is as it was. -/
theorem of_list (hl : ∀ r ∈ m'.abilityList, m.usesToken r.token) (hn : m'.nextToken = m.nextToken)
    (hp : m'.pendingToken = m.pendingToken) (hr : m'.pendingRecord = m.pendingRecord)
    (hq : m'.abilityOperation = m.abilityOperation) : KeepsTokens m m' := by
  refine ⟨hn, fun t ht => ?_, fun h => wellFormed_of_queue h hq⟩
  rcases ht with ⟨r, hmem, rfl⟩ | ht | ht
  · exact hl r hmem
  · rw [hp] at ht
    exact .inr (.inl ht)
  · rw [hr] at ht
    exact .inr (.inr ht)

theorem of_subset (hl : ∀ r ∈ m'.abilityList, r ∈ m.abilityList) (hn : m'.nextToken = m.nextToken)
    (hp : m'.pendingToken = m.pendingToken) (hr : m'.pendingRecord = m.pendingRecord)
    (hq : m'.abilityOperation = m.abilityOperation) : KeepsTokens m m' :=
  of_list (fun r hmem => .inl ⟨r, hl r hmem, rfl⟩) hn hp hr hq

/-- Everything that holds a token is as it was. -/
theorem of_eq (hl : m'.abilityList = m.abilityList) (hn : m'.nextToken = m.nextToken)
    (hp : m'.pendingToken = m.pendingToken) (hr : m'.pendingRecord = m.pendingRecord)
    (hq : m'.abilityOperation = m.abilityOperation) : KeepsTokens m m' :=
  of_subset (fun _ hmem => hl ▸ hmem) hn hp hr hq

theorem modify (m : Manager) (token : UInt16) {f : AbilityRecord → AbilityRecord}
    (hf : ∀ r, (f r).token = r.token) : KeepsTokens m (m.modify token f) := by
  refine of_list (fun r' hr' => ?_) rfl rfl rfl rfl
  obtain ⟨r, hr, rfl⟩ := List.mem_map.mp hr'
  refine .inl ⟨r, hr, ?_⟩
  split
  · exact (hf r).symm
  · rfl

theorem of_admits {token : UInt16} (h : Admits token m m') (ht : m.usesToken token) : KeepsTokens m m' :=
  ⟨h.counter, fun t hused => (h.used t hused).elim (fun e => e ▸ ht) id, h.queue⟩

theorem erase (m : Manager) (token : UInt16) : KeepsTokens m (m.erase token) :=
  of_subset (fun _ hr => (AbilityList.erase_sublist _ _).subset hr) rfl rfl rfl rfl

theorem moveToTop (cfg : Config) (m : Manager) (token : UInt16) :
    KeepsTokens m (m.moveToTop cfg token) := by
  have hsub := moveToTop_subset cfg m token
  simp only [Manager.moveToTop, releaseAll_eq] at hsub ⊢
  exact of_subset hsub rfl rfl rfl rfl

theorem deleteAbilityThread (m : Manager) (r : AbilityRecord) :
    KeepsTokens m (m.deleteAbilityThread r) := by
  unfold Manager.deleteAbilityThread
  split
  · have hreleased : KeepsTokens m (m.release r.token) := of_eq rfl rfl rfl rfl rfl
    exact hreleased.trans (modify _ _ (f := fun r => { r with abilityThread := none }) fun _ => rfl)
  · exact refl m

theorem deleteRecordInfo (m : Manager) (token : UInt16) : KeepsTokens m (m.deleteRecordInfo token) := by
  unfold Manager.deleteRecordInfo
  split
  · exact refl m
  · next r _ =>
    exact ((deleteAbilityThread m r).trans (erase _ token)).trans (of_eq rfl rfl rfl rfl rfl)

theorem setAbilityStateAndNotify (m : Manager) (token : UInt16) (state : AbilityRecordState) :
    KeepsTokens m (m.setAbilityStateAndNotify token state) := by
  obtain ⟨n, hn⟩ := setAbilityStateAndNotify_eq m token state
  rw [hn]
  exact (modify m token (f := fun r => { r with state := state }) fun _ => rfl).trans
    (of_eq rfl rfl rfl rfl rfl)

theorem send (env : Env) (m : Manager) (state : SliteAbilityState) (r : AbilityRecord) :
    KeepsTokens m (m.sendMsgToAbilityThread env state r).2 := by
  obtain ⟨s, hs⟩ := sendMsgToAbilityThread_eq env m state r
  rw [hs]
  exact of_eq rfl rfl rfl rfl rfl

theorem answered {msg : SliteAbilityInnerMsg} {sent : List SliteAbilityInnerMsg}
    (left : AbilitySavedData) : KeepsTokens m { leaveSavedData m msg left with sent := sent } := by
  have hleft : KeepsTokens m (leaveSavedData m msg left) := by
    rcases leaveSavedData_eq m msg left with heq | heq
    · rw [heq]
      exact refl m
    · rw [heq]
      exact modify m msg.token fun _ => rfl
  exact hleft.trans (of_eq rfl rfl rfl rfl rfl)

theorem locked (m : Manager) (b : Bool) : KeepsTokens m { m with isAppScheduling := b } :=
  of_eq rfl rfl rfl rfl rfl

/-- A call that is put off asks for nothing. -/
theorem deferred {m : Manager} {o : AbilityOperation} (ho : o.msgId ≠ .terminateAll) :
    KeepsTokens m { m with abilityOperation := m.abilityOperation ++ [o] } := by
  refine ⟨rfl, fun _ h => h, fun h o' ho' => ?_⟩
  rcases List.mem_append.mp ho' with ho' | ho'
  · exact h o' ho'
  · rw [List.mem_singleton.mp ho']
    exact fun hid => absurd hid ho

theorem terminateAll (env : Env) {m : Manager} (hlock : m.isAppScheduling = false)
    (excludedBundleName : Option CString) :
    KeepsTokens m (Manager.terminateAll env m excludedBundleName).2 := by
  unfold Manager.terminateAll
  simp only [hlock, Bool.false_eq_true, if_false]
  obtain ⟨n, hn⟩ := foldl_notify_eq
    (m.releaseAll (m.abilityList.popAllAbility excludedBundleName).2.2)
    (m.abilityList.popAllAbility excludedBundleName).2.2
  simp only [hn]
  simp only [releaseAll_eq]
  exact of_subset (AbilityList.popAllAbility_sublist _ _).subset rfl rfl rfl rfl

end KeepsTokens

namespace Admits
open Manager
variable {token : UInt16} {m m' m'' : Manager}

theorem keeps (h : Admits token m m') (hk : KeepsTokens m' m'') : Admits token m m'' :=
  ⟨hk.counter.trans h.counter, fun t ht => h.used t (hk.used t ht), hk.queue ∘ h.queue⟩

theorem trans (h : Admits token m m') (h' : Admits token m' m'') : Admits token m m'' :=
  ⟨h'.counter.trans h.counter, fun t ht => (h'.used t ht).elim .inl (h.used t), h'.queue ∘ h.queue⟩

theorem add (cfg : Config) (m : Manager) (r : AbilityRecord) : Admits r.token m (m.add cfg r) := by
  have hadded := Manager.add_subset cfg m r
  obtain ⟨s, hadd⟩ := add_eq cfg m r
  rw [hadd] at hadded ⊢
  refine ⟨rfl, fun t ht => ?_, id⟩
  rcases ht with ⟨x, hx, rfl⟩ | ht
  · rcases hadded x hx with rfl | hx
    · exact .inl rfl
    · exact .inr (.inl ⟨x, hx, rfl⟩)
  · exact .inr (.inr ht)

end Admits

/-- The counter has room, and what is used leaves `gap` to it. -/
structure Bounded (gap : Nat) (m : Manager) : Prop where
  counter : m.nextToken.toNat ≤ 0xFFFE
  used : ∀ t, m.usesToken t → t.toNat + gap ≤ m.nextToken.toNat

theorem Bounded.keeps {gap : Nat} {m m' : Manager} (h : Bounded gap m) (hk : KeepsTokens m m') :
    Bounded gap m' := by
  refine ⟨?_, fun t ht => ?_⟩
  · rw [hk.counter]
    exact h.counter
  · rw [hk.counter]
    exact h.used t (hk.used t ht)

section
variable {build : Build} {c c' : Condition}

theorem Operations.drainMeets.mono {ops : Operations} {ok ok' : Env → Manager → AbilityOperation → Prop}
    (himp : ∀ env m o, ok env m o → ok' env m o) {fuel : Nat} {envs : Nat → Env} {m : Manager}
    (h : ops.drainMeets ok fuel envs m) : ops.drainMeets ok' fuel envs m := by
  induction fuel generalizing envs m with
  | zero => trivial
  | succ fuel ih =>
    cases hq : m.abilityOperation with
    | nil => simp only [Operations.drainMeets, hq]
    | cons o rest =>
      simp only [Operations.drainMeets, hq] at h ⊢
      exact ⟨himp _ _ _ h.1, fun hx => ih (h.2 hx)⟩

/-- What one condition asks, a weaker one asks too. -/
theorem System.meets.mono (hop : ∀ env m o, c.operation env m o → c'.operation env m o)
    (hreply : ∀ env m token state, c.reply env m token state → c'.reply env m token state)
    {s : System} {e : Event} (h : s.meets build c e) : s.meets build c' e := by
  cases e with
  | request r envs =>
    intro hlock o ho
    obtain ⟨hoko, hdrain⟩ := h hlock o ho
    exact ⟨hop _ _ _ hoko, fun hx => (hdrain hx).mono hop⟩
  | answer i left => trivial
  | reply envs =>
    intro token state hhead
    obtain ⟨hr, hdrain⟩ := h token state hhead
    exact ⟨hreply _ _ _ _ hr, fun hst => (hdrain hst).mono hop⟩
  | setCleanAbilityDataFlag b => trivial

end

namespace MultiTasks
open Manager

/-! ## The multi-task build -/

section
variable {cfg : Config} {m : Manager}

theorem markTop_keepsTokens (env : Env) (m : Manager) (top : AbilityRecord) :
    KeepsTokens m (markTop env m top) := by
  unfold markTop
  split
  · exact .modify m top.token fun _ => rfl
  · exact .refl m

theorem createAppTask_keepsTokens (env : Env) (m : Manager) (r : AbilityRecord) (listed : Bool) :
    KeepsTokens m (createAppTask env m r listed).2 := by
  have hlisted {f : AbilityRecord → AbilityRecord} (hf : ∀ r, (f r).token = r.token) :
      KeepsTokens m (if listed then m.modify r.token f else m) := by
    split
    · exact .modify m r.token hf
    · exact .refl m
  by_cases hinit : env.initAbilityThread r.token = errOk
  · simp only [createAppTask, hinit, ne_eq, not_true_eq_false, if_false, schedulerLifecycle]
    have hstarted := hlisted (f := started env) fun _ => rfl
    split
    · exact hstarted
    · exact hstarted.trans (.send env _ _ _)
  · rw [createAppTask_failed hinit]
    exact hlisted (f := fun r => { r with abilityThread := none }) fun _ => rfl

theorem terminateAbilityWant_keepsTokens (env : Env) (m : Manager) (token : UInt16)
    (want : Option Want) : KeepsTokens m (terminateAbilityWant cfg env m token want).2 := by
  unfold terminateAbilityWant
  split
  · exact .locked m false
  · next top htop =>
    split
    · exact .locked m false
    · split
      · split
        · exact .locked m false
        · split
          · exact .locked m false
          · exact (KeepsTokens.deleteRecordInfo m token).trans (.locked _ false)
      · have hpop : ∀ r ∈ m.abilityList.popAbility, r ∈ m.abilityList :=
          fun r hr => List.mem_of_mem_tail hr
        simp only
        split
        · exact .of_subset hpop rfl rfl rfl rfl
        · next newTop hnew =>
          have hmem : top ∈ m.abilityList := List.mem_of_head? htop
          have hnew' : newTop ∈ m.abilityList := hpop _ (List.mem_of_head? hnew)
          have hswap : KeepsTokens m (if AbilityList.isPermanentAbility top then
              (({ m with abilityList := m.abilityList.popAbility.popAbility } : Manager).add cfg top).add
                cfg newTop
              else ({ m with abilityList := m.abilityList.popAbility } : Manager).add cfg
                { top with isTerminated := true }) := by
            split
            · obtain ⟨s, hadd⟩ := add_eq cfg
                ({ m with abilityList := m.abilityList.popAbility.popAbility } : Manager) top
              obtain ⟨s', hadd'⟩ := add_eq cfg (({ m with
                abilityList := m.abilityList.popAbility.popAbility } : Manager).add cfg top) newTop
              exact .of_subset (swap_subset hmem hnew') (by rw [hadd', hadd]) (by rw [hadd', hadd])
                (by rw [hadd', hadd]) (by rw [hadd', hadd])
            · obtain ⟨s, hadd⟩ := add_eq cfg ({ m with abilityList := m.abilityList.popAbility } : Manager)
                { top with isTerminated := true }
              refine .of_list (fun r hr => ?_) (by rw [hadd]) (by rw [hadd]) (by rw [hadd]) (by rw [hadd])
              rcases relist_subset r hr with rfl | hr
              · exact .inl ⟨top, hmem, rfl⟩
              · exact .inl ⟨r, hr, rfl⟩
          revert hswap
          generalize (if AbilityList.isPermanentAbility top then
              (({ m with abilityList := m.abilityList.popAbility.popAbility } : Manager).add cfg top).add
                cfg newTop
              else ({ m with abilityList := m.abilityList.popAbility } : Manager).add cfg
                { top with isTerminated := true }) = m'
          intro hswap
          have hhanded : KeepsTokens m (handToNewTop m' newTop.token want) := by
            cases want with
            | none => exact hswap
            | some want => exact hswap.trans (.modify m' newTop.token fun r => (handWant_keeps r want).1)
          -- `pendingToken` takes the token of the new top, and the new top was listed.
          have hpending : KeepsTokens m
              { handToNewTop m' newTop.token want with pendingToken := newTop.token } := by
            refine ⟨hhanded.counter, fun t ht => ?_, hhanded.queue⟩
            rcases ht with ht | ⟨-, rfl⟩ | ht
            · exact hhanded.used t (.inl ht)
            · exact .inl ⟨newTop, hnew', rfl⟩
            · exact hhanded.used t (.inr (.inr ht))
          exact hpending.trans (.send env _ .background top)

theorem terminateAbility_keepsTokens (env : Env) (m : Manager) (token : UInt16) :
    KeepsTokens m (terminateAbility cfg env m token).2 := by
  unfold terminateAbility
  split
  · exact .deferred (by simp [deferredOperation])
  · exact (KeepsTokens.locked m true).trans (terminateAbilityWant_keepsTokens env _ token none)

theorem terminateEach_keepsTokens (env : Env) (topToken : UInt16) (tokens : List UInt16) (m : Manager) :
    KeepsTokens m (terminateEach cfg env topToken m tokens) := by
  induction tokens generalizing m with
  | nil => exact .refl m
  | cons token tokens ih =>
    have hfirst : KeepsTokens m
        (if token ≠ topToken then (terminateAbility cfg env m token).2 else m) := by
      split
      · exact terminateAbility_keepsTokens env m token
      · exact .refl m
    exact hfirst.trans (ih _)

theorem restart_keepsTokens (env : Env) {m : Manager} {top : AbilityRecord}
    (htop : m.getTopAbility = some top) :
    KeepsTokens m (startAbilityRecord cfg env { m with isAppScheduling := false } top).2 := by
  obtain ⟨rest, hl⟩ := List.head?_eq_some_iff.mp htop
  cases hdata : top.abilityData.isNone with
  | true =>
    simp only [startAbilityRecord, hdata, if_true]
    exact .of_eq rfl rfl rfl rfl rfl
  | false =>
    rw [startAbilityRecord_top cfg env (m := { m with isAppScheduling := false }) hl rfl
      (by simpa [Option.isSome_iff_ne_none] using hdata)]
    exact .locked m false

theorem noPending_keepsTokens (m : Manager) : KeepsTokens m { m with pendingToken := 0 } := by
  refine ⟨rfl, fun t ht => ?_, id⟩
  rcases ht with ht | ⟨hne, -⟩ | ht
  · exact .inl ht
  · exact absurd rfl hne
  · exact .inr (.inr ht)

theorem launchNext_keepsTokens (env : Env) (m : Manager) : KeepsTokens m (launchNext cfg env m) := by
  unfold launchNext
  split
  · split
    · exact .refl m
    · next record hrecord =>
      have hcreated := createAppTask_keepsTokens env m record true
      simp only
      split
      · have herased := hcreated.trans (.erase _ (createAppTask env m record true).2.pendingToken)
        split
        · exact herased
        · next top htop =>
          exact (herased.trans (restart_keepsTokens env htop)).trans (noPending_keepsTokens _)
      · exact hcreated.trans (noPending_keepsTokens _)
  · split
    · exact .of_eq rfl rfl rfl rfl rfl
    · next top htop =>
      have hcreated := createAppTask_keepsTokens env m top true
      simp only
      split
      · exact (hcreated.trans (.erase _ top.token)).trans (.locked _ false)
      · exact hcreated

theorem onDestroyDone_keepsTokens (env : Env) (m : Manager) (token : UInt16) :
    KeepsTokens m (onDestroyDone cfg env m token) := by
  rw [onDestroyDone_eq]
  have hset := KeepsTokens.setAbilityStateAndNotify m token .stop
  simp only
  split
  · exact hset
  · next r hr =>
    refine hset.trans (KeepsTokens.trans ?_ (launchNext_keepsTokens env _))
    split
    · exact .deleteRecordInfo _ token
    · exact .deleteAbilityThread _ r

/-- An operation other than a start asks for no token. -/
theorem dispatch_keepsTokens (env : Env) {m : Manager} (hlock : m.isAppScheduling = false)
    (o : AbilityOperation) (hstart : o.msgId ≠ .startAbility) :
    KeepsTokens m ((operations cfg).dispatch env m o).2 := by
  unfold Operations.dispatch
  cases hid : o.msgId with
  | startAbility => exact absurd hid hstart
  | terminateAbility => exact terminateAbility_keepsTokens env m _
  | terminateApp =>
    simp only [operations, forceStopBundle, hlock, Bool.false_eq_true, if_false]
    split
    · exact .of_eq rfl rfl rfl rfl rfl
    · split
      · exact (KeepsTokens.locked m true).trans (terminateAbilityWant_keepsTokens env _ _ none)
      · have hmarked : KeepsTokens m (({ m with isAppScheduling := true } : Manager).modify
            o.token.toUInt16 fun r => { r with isTerminated := true }) :=
          (KeepsTokens.locked m true).trans (.modify _ _ fun _ => rfl)
        exact hmarked.trans (onDestroyDone_keepsTokens env _ _)
  | terminateMission =>
    simp only [operations, terminateMission, hlock, Bool.false_eq_true, if_false]
    split
    · exact .refl m
    · exact terminateEach_keepsTokens env _ _ m
  | terminateAppByBundleName =>
    simp only [operations, forceStop, hlock, Bool.false_eq_true, if_false]
    split
    · exact .of_eq rfl rfl rfl rfl rfl
    · split
      · exact .of_eq rfl rfl rfl rfl rfl
      · exact (KeepsTokens.locked m true).trans (terminateAbilityWant_keepsTokens env _ _ _)
  | terminateAll =>
    simp only
    split
    · exact .of_eq rfl rfl rfl rfl rfl
    · exact .terminateAll env hlock _
  | other _ => exact .refl m

theorem reply_keepsTokens (cfg : Config) (envs : Nat → Env) (m : Manager) (token : UInt16)
    {state : SliteAbilityState} (hstate : state ≠ .foreground) :
    KeepsTokens m (schedulerLifecycleDone (multiTasks cfg) envs m token state) := by
  cases state with
  | foreground => exact absurd rfl hstate
  | initial =>
    have hset := KeepsTokens.setAbilityStateAndNotify m token .inited
    simp only [schedulerLifecycleDone, multiTasks, onCreateDone, schedulerLifecycle]
    split
    · exact hset
    · exact hset.trans (.send _ _ .foreground _)
  | background =>
    have hset := KeepsTokens.setAbilityStateAndNotify m token .background
    simp only [schedulerLifecycleDone, multiTasks, onBackgroundDone]
    split
    · exact hset
    · next r hr =>
      have hreset (d : Option AbilitySavedData) : KeepsTokens m
          ((m.setAbilityStateAndNotify token .background).modify token
            fun r => { r with abilitySavedData := d }) :=
        hset.trans (.modify _ token fun _ => rfl)
      exact (hreset _).trans (.send _ _ .uninitialized _)
  | uninitialized => exact onDestroyDone_keepsTokens (envs 0) m token
  | unknown => exact .refl m

/-! ## Where `GenerateToken` is called -/

/-- The managers on which `PreCheckStartAbility` calls `GenerateToken`. -/
def preCheckCalls (m : Manager) (info : AbilitySvcInfo) (bundleName : CString) : List Manager :=
  if info.path.isNone && !info.isNativeApp then []
  else if (m.abilityList.getByName bundleName).isSome then []
  else if m.pendingToken ≠ 0 then [] else [m]

/-- The managers on which `StartAbility(AbilitySvcInfo *)` calls it, the first call first. -/
def startInfoCalls (env : Env) (m : Manager) (info : AbilitySvcInfo) : List Manager :=
  match info.bundleName with
  | none => []
  | some bundleName =>
    if bundleName.bytes.length = 0 then []
    else
      match m.getTopAbility with
      | none => if bundleName ≠ env.bms.getStartupBundleName then [] else preCheckCalls m info bundleName
      | some topRecord =>
        if !info.isNativeApp && !checkResponse env bundleName then []
        else if bundleName = topRecord.appName then []
        else
          let m := ((markTop env m topRecord).sendMsgToAbilityThread env .background topRecord).2
          m :: preCheckCalls { (generateToken m).2 with pendingToken := (generateToken m).1 } info
            bundleName

/-- The managers on which an operation calls it. Only a start of an application that is not
listed gets there. -/
def tokenCalls (cfg : Config) (env : Env) (m : Manager) (o : AbilityOperation) : List Manager :=
  if o.msgId ≠ .startAbility then []
  else
    match newApp cfg env m o.want with
    | none => []
    | some (_, info) => startInfoCalls env { m with isAppScheduling := true } info

/-- A function that asks for tokens on the managers it is said to. It asks again only where
records are listed and the first token is the launcher's. -/
def Asks (m : Manager) (calls : List Manager) (m' : Manager) : Prop :=
  (calls = [] ∧ KeepsTokens m m') ∨
    ∃ g rest, calls = g :: rest ∧ KeepsTokens m g ∧
      (g.abilityList = [] ∨ (generateToken g).1 ≠ launcherToken →
        rest = [] ∧ Admits (generateToken g).1 (generateToken g).2 m')

/-- A new record is listed and, when no token is pending, launched. -/
theorem launchNew_admits (cfg : Config) (env : Env) (m : Manager) (r : AbilityRecord) (listed : Bool)
    (token : UInt16) : Admits r.token m (if (m.add cfg r).pendingToken = 0 then
      (if (createAppTask env (m.add cfg r) r listed).1 ≠ errOk then
        (createApptaskError, (createAppTask env (m.add cfg r) r listed).2.erase token)
      else (errOk, (createAppTask env (m.add cfg r) r listed).2)) else (errOk, m.add cfg r)).2 := by
  have hadded := Admits.add cfg m r
  split
  · have hcreated := createAppTask_keepsTokens env (m.add cfg r) r listed
    split
    · exact hadded.keeps (hcreated.trans (.erase _ token))
    · exact hadded.keeps hcreated
  · exact hadded

theorem preCheckStartAbility_asks (cfg : Config) (env : Env) (m : Manager) (info : AbilitySvcInfo)
    (bundleName : CString) : Asks m (preCheckCalls m info bundleName)
      (preCheckStartAbility cfg env m info bundleName).2 := by
  unfold preCheckStartAbility preCheckCalls
  split
  · exact .inl ⟨rfl, .refl m⟩
  · cases hname : m.abilityList.getByName bundleName with
    | some curRecord =>
      simp only [Option.isSome_some, if_true]
      refine .inl ⟨rfl, ?_⟩
      split
      · split
        · exact .of_eq rfl rfl rfl rfl rfl
        · exact .refl m
      · have hmoved := KeepsTokens.moveToTop cfg m curRecord.token
        refine ⟨hmoved.counter, fun t ht => ?_, hmoved.queue⟩
        rcases ht with ht | ⟨-, rfl⟩ | ht
        · exact hmoved.used t (.inl ht)
        · exact .inl ⟨curRecord, (AbilityList.getByName_eq_some hname).1, rfl⟩
        · exact hmoved.used t (.inr (.inr ht))
    | none =>
      simp only [Option.isSome_none, Bool.false_eq_true, if_false]
      by_cases hp : m.pendingToken ≠ 0
      · obtain ⟨mission, k, hmission⟩ := generateMission_eq m info
        simp only [if_pos hp, hmission]
        have hcounted : KeepsTokens m { m with nextMission := k } := .of_eq rfl rfl rfl rfl rfl
        refine .inl ⟨rfl, hcounted.trans (.of_admits (launchNew_admits cfg env _ _ _ _) ?_)⟩
        exact .inr (.inl ⟨hp, (newRecord_spec info bundleName m.pendingToken mission).1.symm⟩)
      · obtain ⟨mission, k, hmission⟩ := generateMission_eq (generateToken m).2 info
        simp only [if_neg hp, hmission]
        refine .inr ⟨m, [], rfl, .refl m, fun _ => ⟨rfl, ?_⟩⟩
        have hlisted := launchNew_admits cfg env { (generateToken m).2 with nextMission := k }
          (newRecord info bundleName (generateToken m).1 mission)
          (Manager.takes cfg { (generateToken m).2 with nextMission := k } (generateToken m).1)
          (generateToken m).1
        rw [(newRecord_spec info bundleName (generateToken m).1 mission).1] at hlisted
        exact ⟨hlisted.counter, hlisted.used, hlisted.queue⟩

theorem startAbilityInfo_asks (cfg : Config) (env : Env) (m : Manager) (info : AbilitySvcInfo) :
    Asks m (startInfoCalls env m info) (startAbilityInfo cfg env m info).2 := by
  unfold startAbilityInfo startInfoCalls
  cases hbundle : info.bundleName with
  | none => exact .inl ⟨rfl, .locked m false⟩
  | some bundleName =>
    simp only
    by_cases hempty : bundleName.bytes.length = 0
    · simp only [if_pos hempty]
      exact .inl ⟨rfl, .locked m false⟩
    · simp only [if_neg hempty]
      cases htop : m.getTopAbility with
      | none =>
        simp only
        by_cases hstartup : bundleName ≠ env.bms.getStartupBundleName
        · simp only [if_pos hstartup]
          exact .inl ⟨rfl, .refl m⟩
        · simp only [if_neg hstartup]
          exact preCheckStartAbility_asks cfg env m info bundleName
      | some top =>
        simp only
        by_cases hcheck : (!info.isNativeApp && !checkResponse env bundleName) = true
        · simp only [if_pos hcheck]
          exact .inl ⟨rfl, .refl m⟩
        · simp only [if_neg hcheck]
          by_cases hsame : bundleName = top.appName
          · simp only [if_pos hsame]
            refine .inl ⟨rfl, ?_⟩
            split
            · exact createAppTask_keepsTokens env m top true
            · exact .locked m false
          · simp only [if_neg hsame]
            have hsent : KeepsTokens m
                ((markTop env m top).sendMsgToAbilityThread env .background top).2 :=
              (markTop_keepsTokens env m top).trans (.send env _ .background top)
            -- The record marked to be destroyed is still listed, so the list is not empty.
            have hlist : ((markTop env m top).sendMsgToAbilityThread env .background top).2.abilityList ≠
                [] := by
              rw [sendMsgToAbilityThread_same]
              intro hnil
              have hmarked := congrArg (List.map (·.token)) hnil
              rw [markTop_tokens] at hmarked
              rw [getTopAbility_nil (List.map_eq_nil_iff.mp hmarked)] at htop
              cases htop
            revert hsent hlist
            generalize ((markTop env m top).sendMsgToAbilityThread env .background top).2 = g
            intro hsent hlist
            refine .inr ⟨g, _, rfl, hsent, fun hfirst => ?_⟩
            have htoken := hfirst.resolve_left hlist
            -- A token that is not zero is found pending: no second call.
            have hcalls : preCheckCalls { (generateToken g).2 with pendingToken := (generateToken g).1 }
                info bundleName = [] := by
              unfold preCheckCalls
              split
              · rfl
              · split
                · rfl
                · exact if_pos htoken
            refine ⟨hcalls, ?_⟩
            have hasks := preCheckStartAbility_asks cfg env
              { (generateToken g).2 with pendingToken := (generateToken g).1 } info bundleName
            rw [hcalls] at hasks
            rcases hasks with ⟨-, hk⟩ | ⟨g', rest, hg', -⟩
            · refine ⟨hk.counter, fun t ht => ?_, hk.queue⟩
              rcases hk.used t ht with hu | ⟨-, rfl⟩ | hu
              · exact .inr (.inl hu)
              · exact .inl rfl
              · exact .inr (.inr (.inr hu))
            · cases hg'

/-- The calls of an executed operation. -/
theorem dispatch_asks (cfg : Config) (env : Env) {m : Manager} (hlock : m.isAppScheduling = false)
    (o : AbilityOperation) :
    Asks m (tokenCalls cfg env m o) ((operations cfg).dispatch env m o).2 := by
  by_cases hid : o.msgId = .startAbility
  · simp only [Operations.dispatch, hid, tokenCalls, ne_eq, not_true_eq_false, if_false]
    have hcases := startAbility_cases cfg env hlock o.want
    show Asks m _ (startAbility cfg env m o.want).2
    generalize startAbility cfg env m o.want = x at hcases ⊢
    cases hcases with
    | ends ret remote hnone =>
      rw [hnone.2]
      exact .inl ⟨rfl, .of_eq rfl rfl rfl rfl rfl⟩
    | bringsUp w r top hmem htop hne hup =>
      have hnone : newApp cfg env m o.want = none := by
        cases happ : newApp cfg env m o.want with
        | none => rfl
        | some app =>
          rw [comesUp_of_newApp happ] at hup
          cases hup
      rw [hnone]
      have hmodified : KeepsTokens m (({ m with isAppScheduling := true } : Manager).modify r.token
          (updateWant w)) :=
        (KeepsTokens.locked m true).trans (.modify _ r.token fun r => (updateWant_keeps w r).1)
      exact .inl ⟨rfl, ((hmodified.trans (.moveToTop cfg _ r.token)).trans
        (markTop_keepsTokens env _ top)).trans (.send env _ .background top)⟩
    | startsNew w bundleName info happ hbundle hname hquery =>
      rw [happ]
      rcases startAbilityInfo_asks cfg env { m with isAppScheduling := true }
          { info with
            data := memdup w.data w.dataLength
            dataLength := w.dataLength
            mission := w.mission } with ⟨hcalls, hk⟩ | ⟨g, rest, hcalls, hk, hadmits⟩
      · exact .inl ⟨hcalls, (KeepsTokens.locked m true).trans hk⟩
      · exact .inr ⟨g, rest, hcalls, (KeepsTokens.locked m true).trans hk, hadmits⟩
  · refine .inl ⟨?_, dispatch_keepsTokens env hlock o hid⟩
    simp only [tokenCalls, ne_eq, hid, not_false_eq_true, if_true]

/-! ## Before the counter starts over -/

/-- The token handed out is below the counter that it leaves. -/
theorem generated_bounded {g m' : Manager} (h : Bounded 1 g) (hwrap : g.nextToken ≠ 0xFFFE)
    (ha : Admits (generateToken g).1 (generateToken g).2 m') : Bounded 1 m' := by
  have hne : g.nextToken.toNat ≠ 0xFFFE := fun e => hwrap (UInt16.toNat_inj.mp e)
  have hle := h.counter
  have hcount : (generateToken g).2.nextToken.toNat = g.nextToken.toNat + 1 := by
    simp only [generateToken, if_neg hwrap, UInt16.toNat_add, UInt16.reduceToNat]
    omega
  refine ⟨by rw [ha.counter, hcount]; omega, fun t ht => ?_⟩
  rw [ha.counter, hcount]
  rcases ha.used t ht with rfl | hu
  · simp only [generateToken, if_neg hwrap]
    exact Nat.le_refl _
  · have hused : g.usesToken t := hu
    have := h.used t hused
    omega

/-- The token is that of no listed record, and the launcher's only when it is the first. -/
def TokenIsNew (g : Manager) : Prop :=
  (∀ r ∈ g.abilityList, r.token ≠ (generateToken g).1) ∧
    ((generateToken g).1 = launcherToken → g.nextToken = launcherToken)

/-- Where the counter starts over the token is the launcher's. -/
theorem TokenIsNew.before {g : Manager} (h : TokenIsNew g) : g.nextToken ≠ 0xFFFE := by
  intro hwrap
  have hzero := h.2 (by simp only [generateToken, if_pos hwrap])
  rw [hwrap] at hzero
  exact absurd hzero (by decide)

theorem tokenIsNew_of_before {g : Manager} (h : Bounded 1 g) (hwrap : g.nextToken ≠ 0xFFFE) :
    TokenIsNew g := by
  simp only [TokenIsNew, generateToken, if_neg hwrap]
  refine ⟨fun r hr e => ?_, id⟩
  have hlt := h.used r.token (.inl ⟨r, hr, rfl⟩)
  rw [e] at hlt
  omega

/-- Every call of a step is made before the counter starts over. -/
def beforeWrap (cfg : Config) : Condition where
  operation env m o := ∀ g ∈ tokenCalls cfg env m o, g.nextToken ≠ 0xFFFE
  reply _ _ _ _ := True

/-- Every call of a step returns a new token. -/
def tokensNew (cfg : Config) : Condition where
  operation env m o := ∀ g ∈ tokenCalls cfg env m o, TokenIsNew g
  reply _ _ _ _ := True

theorem dispatch_bounded (h : Bounded 1 m) (env : Env) (hlock : m.isAppScheduling = false)
    (o : AbilityOperation) (hok : ∀ g ∈ (tokenCalls cfg env m o).head?, g.nextToken ≠ 0xFFFE) :
    Bounded 1 ((operations cfg).dispatch env m o).2 ∧ (∀ g ∈ tokenCalls cfg env m o, TokenIsNew g) ∧
      (m.QueueWellFormed → ((operations cfg).dispatch env m o).2.QueueWellFormed) := by
  rcases dispatch_asks cfg env hlock o with ⟨hcalls, hk⟩ | ⟨g, rest, hcalls, hk, hadmits⟩
  · rw [hcalls]
    exact ⟨h.keeps hk, fun g hg => absurd hg List.not_mem_nil, hk.queue⟩
  · have hg := h.keeps hk
    have hwrap : g.nextToken ≠ 0xFFFE := hok g (by rw [hcalls]; rfl)
    have hfirst : g.abilityList = [] ∨ (generateToken g).1 ≠ launcherToken := by
      cases hl : g.abilityList with
      | nil => exact .inl rfl
      | cons r l =>
        refine .inr fun e => ?_
        have hlt := hg.used r.token (.inl ⟨r, by rw [hl]; exact List.mem_cons_self, rfl⟩)
        simp only [generateToken, if_neg hwrap] at e
        rw [e] at hlt
        simp [launcherToken] at hlt
    obtain ⟨rfl, ha⟩ := hadmits hfirst
    rw [hcalls]
    refine ⟨generated_bounded hg hwrap ha, fun x hx => ?_, fun hwf => ha.queue (hk.queue hwf)⟩
    rw [List.mem_singleton.mp hx]
    exact tokenIsNew_of_before hg hwrap

theorem bounded_keeps : Keeps (multiTasks cfg) (beforeWrap cfg) fun _ m => Bounded 1 m where
  queue _ h := ⟨h.counter, h.used⟩
  enter r h := by
    refine h.keeps ?_
    unfold Request.enter
    split <;> exact .of_eq rfl rfl rfl rfl rfl
  flag _ h := ⟨h.counter, h.used⟩
  defers := operations_defers cfg
  operation env m o h hlock hwf _ hok := by
    obtain ⟨hb, -, hq⟩ := dispatch_bounded h env hlock o fun g hg => hok g (List.mem_of_mem_head? hg)
    exact ⟨hq hwf, fun _ => hb.keeps (.locked _ false), fun _ => hb⟩
  answer left _ _ h := h.keeps (.answered left)
  foreground env m token h hwf _ := by
    have hk := KeepsTokens.setAbilityStateAndNotify m token .foreground
    exact ⟨h.keeps (hk.trans (.locked _ false)), hk.queue hwf⟩
  reply envs m token state hstate h hwf _ := by
    have hk := reply_keepsTokens cfg envs m token hstate
    exact ⟨h.keeps hk, hk.queue hwf⟩

/-- The launcher's start has been requested, and nothing else. -/
def Launched (cfg : Config) (s : System) : Prop :=
  s.replies = [] ∧ ∃ env, s.manager = startLauncher cfg env {}

theorem Launched.bounded {s : System} (h : Launched cfg s) :
    Bounded 1 s.manager ∧ s.manager.QueueWellFormed := by
  obtain ⟨-, env, hm⟩ := h
  have hempty : Bounded 1 {} := by
    refine ⟨by decide, fun t ht => ?_⟩
    rcases ht with ⟨r, hr, -⟩ | ⟨hne, -⟩ | ⟨r, hr, -⟩
    · cases hr
    · exact absurd rfl hne
    · cases hr
  let o : AbilityOperation := { msgId := .startAbility, want := some (launcherWant env), token := 0 }
  have hok : ∀ g ∈ (tokenCalls cfg env {} o).head?, g.nextToken ≠ 0xFFFE := by
    intro g hg
    rcases dispatch_asks cfg env (m := {}) rfl o with
      ⟨hcalls, -⟩ | ⟨g', rest, hcalls, hk, -⟩
    · rw [hcalls] at hg
      cases hg
    · rw [hcalls] at hg
      cases hg
      rw [hk.counter]
      decide
  obtain ⟨hb, -, hq⟩ := dispatch_bounded hempty env rfl _ hok
  rw [hm]
  exact ⟨hb, hq fun o ho => absurd ho List.not_mem_nil⟩

/-- Before the counter starts over, and only then, the calls of a step return new tokens. -/
theorem tokensNew_iff {s : System} (h : Reached (System.next (multiTasks cfg))
    (fun s e => s.meets (multiTasks cfg) (beforeWrap cfg) e) (Launched cfg) s) (e : Event) :
    s.meets (multiTasks cfg) (tokensNew cfg) e ↔ s.meets (multiTasks cfg) (beforeWrap cfg) e := by
  have hs := bounded_keeps.reached (fun _ h => Launched.bounded h) h
  have honly (env : Env) (m : Manager) (o : AbilityOperation)
      (hop : (tokensNew cfg).operation env m o) : (beforeWrap cfg).operation env m o :=
    fun g hg => (hop g hg).before
  have hbefore {rs : List (UInt16 × SliteAbilityState)} (env : Env) (m : Manager)
      (o : AbilityOperation) (hb : Bounded 1 m) (hlock : m.isAppScheduling = false) (_ : o.WellFormed)
      (hok : (beforeWrap cfg).operation env m o) : (tokensNew cfg).operation env m o :=
    (dispatch_bounded hb env hlock o fun g hg => hok g (List.mem_of_mem_head? hg)).2.1
  constructor
  · exact fun hnew => hnew.mono honly fun _ _ _ _ _ => trivial
  · exact bounded_keeps.meets (@hbefore) (fun _ _ _ _ _ _ => trivial) hs

end

end MultiTasks

namespace SingleTask
open Manager

/-! ## The single-task build -/

section
variable {cfg : Config} {m : Manager}

theorem scheduleLifecycleInner_keepsTokens (env : Env) (m : Manager) (r : AbilityRecord)
    (state : SliteAbilityState) : KeepsTokens m (scheduleLifecycleInner env m r state).2 := by
  unfold scheduleLifecycleInner
  split
  · exact .send env m state r
  · split
    · exact .refl m
    · unfold schedulerAbilityLifecycle
      split
      · exact .of_eq rfl rfl rfl rfl rfl
      · exact .of_eq rfl rfl rfl rfl rfl
      · exact .refl m

theorem schedulerLifecycle_keepsTokens (env : Env) (m : Manager) (token : UInt16)
    (state : SliteAbilityState) : KeepsTokens m (schedulerLifecycle env m token state).2 := by
  unfold schedulerLifecycle
  split
  · exact .refl m
  · exact scheduleLifecycleInner_keepsTokens env m _ state

theorem createAppTask_admits (cfg : Config) (env : Env) (m : Manager) (r : AbilityRecord) (listed : Bool) :
    Admits r.token m (createAppTask cfg env m r listed).2 := by
  have hrefl : Admits r.token m m := ⟨rfl, fun _ h => .inr h, id⟩
  unfold createAppTask
  simp only
  split
  · exact hrefl
  · have hstarted : KeepsTokens m (if listed then m.modify r.token (started env) else m) := by
      split
      · exact .modify m r.token fun _ => rfl
      · exact .refl m
    revert hstarted
    generalize (if listed then m.modify r.token (started env) else m) = m₁
    intro hstarted
    have hcrashed : KeepsTokens m (if listed && m₁.evicts cfg r.token then m₁.crash else m₁) := by
      split
      · exact hstarted.trans (.of_eq rfl rfl rfl rfl rfl)
      · exact hstarted
    revert hcrashed
    generalize (if listed && m₁.evicts cfg r.token then m₁.crash else m₁) = m₂
    intro hcrashed
    have hadded : Admits r.token m (m₂.add cfg (started env r)) :=
      (hrefl.keeps hcrashed).trans (Admits.add cfg m₂ (started env r))
    split
    · have hsent := schedulerLifecycle_keepsTokens env (m₂.add cfg (started env r)) launcherToken .background
      split
      · exact hadded.keeps hsent
      · exact hadded.keeps hsent
    · exact hadded.keeps (schedulerLifecycle_keepsTokens env _ r.token .initial)

theorem updateRecord_keepsTokens (m : Manager) (info : AbilitySvcInfo) (bundleName : CString) :
    KeepsTokens m (updateRecord m info bundleName) := by
  unfold updateRecord
  split
  · exact .refl m
  · split
    · exact .refl m
    · refine .modify m _ fun r => ?_
      exact (sameIdentity_setWantData r info.data info.dataLength).token

theorem terminateAbilityWant_keepsTokens (env : Env) (m : Manager) (token : UInt16) :
    KeepsTokens m (terminateAbilityWant env m token).2 := by
  unfold terminateAbilityWant
  split
  · exact .locked m false
  · next top htop =>
    split
    · simp only
      split
      · exact (KeepsTokens.locked m false).trans (schedulerLifecycle_keepsTokens env _ launcherToken _)
      · exact .locked m false
    · split
      · exact (KeepsTokens.locked m false).trans (.deleteRecordInfo _ token)
      · have hmarked : KeepsTokens m (m.modify top.token fun r => { r with isTerminated := true }) :=
          .modify m top.token fun _ => rfl
        exact hmarked.trans (scheduleLifecycleInner_keepsTokens env _ _ .background)

theorem terminateAbility_keepsTokens (env : Env) (m : Manager) (token : UInt16) :
    KeepsTokens m (terminateAbility env m token).2 := by
  unfold terminateAbility
  split
  · exact .deferred (by simp [deferredOperation])
  · exact (KeepsTokens.locked m true).trans (terminateAbilityWant_keepsTokens env _ token)

theorem terminateEach_keepsTokens (env : Env) (topToken : UInt16) (tokens : List UInt16) (m : Manager) :
    KeepsTokens m (terminateEach env topToken m tokens) := by
  induction tokens generalizing m with
  | nil => exact .refl m
  | cons token tokens ih =>
    have hfirst : KeepsTokens m
        (if token ≠ topToken then (terminateAbility env m token).2 else m) := by
      split
      · exact terminateAbility_keepsTokens env m token
      · exact .refl m
    exact hfirst.trans (ih _)

theorem noPendingRecord_keepsTokens (m : Manager) :
    KeepsTokens m { m with pendingToken := 0, pendingRecord := none } := by
  refine ⟨rfl, fun t ht => ?_, id⟩
  rcases ht with ht | ⟨hne, -⟩ | ⟨r, hr, -⟩
  · exact .inl ht
  · exact absurd rfl hne
  · cases hr

theorem onDestroyDone_keepsTokens (env : Env) (m : Manager) (token : UInt16) :
    KeepsTokens m (onDestroyDone cfg env m token) := by
  have hset := KeepsTokens.setAbilityStateAndNotify m token .stop
  unfold onDestroyDone
  revert hset
  generalize m.setAbilityStateAndNotify token .stop = m₁
  intro hset
  simp only
  split
  · exact hset
  · split
    · have hdeleted := hset.trans (.deleteRecordInfo m₁ token)
      revert hdeleted
      generalize m₁.deleteRecordInfo token = m₂
      intro hdeleted
      split
      · exact hdeleted.trans (schedulerLifecycle_keepsTokens env m₂ launcherToken .foreground)
      · split
        · exact hdeleted
        · next record hrecord =>
          have hcreated : KeepsTokens m₂ (createAppTask cfg env m₂ record false).2 :=
            .of_admits (createAppTask_admits cfg env m₂ record false) (.inr (.inr ⟨record, hrecord, rfl⟩))
          refine (hdeleted.trans (hcreated.trans ?_)).trans (noPendingRecord_keepsTokens _)
          generalize (createAppTask cfg env m₂ record false) = x
          split
          · have hcrashed : KeepsTokens x.2
                (if env.initAbilityThread record.token = errOk then x.2.crash else x.2) := by
              split
              · exact .of_eq rfl rfl rfl rfl rfl
              · exact .refl x.2
            exact hcrashed.trans (schedulerLifecycle_keepsTokens env _ launcherToken .foreground)
          · exact .refl x.2
    · exact hset.trans (.deleteRecordInfo m₁ token)

/-- An operation other than a start asks for no token. -/
theorem dispatch_keepsTokens (env : Env) {m : Manager} (hlock : m.isAppScheduling = false)
    (o : AbilityOperation) (hstart : o.msgId ≠ .startAbility) :
    KeepsTokens m ((operations cfg).dispatch env m o).2 := by
  unfold Operations.dispatch
  cases hid : o.msgId with
  | startAbility => exact absurd hid hstart
  | terminateAbility => exact terminateAbility_keepsTokens env m _
  | terminateApp =>
    simp only [operations, forceStopBundle, hlock, Bool.false_eq_true, if_false]
    split
    · exact .locked m false
    · split
      · exact .locked m true
      · split
        · exact (KeepsTokens.locked m true).trans (schedulerLifecycle_keepsTokens env _ launcherToken _)
        · exact .locked m true
  | terminateMission =>
    simp only [operations, terminateMission, hlock, Bool.false_eq_true, if_false]
    split
    · exact .refl m
    · exact terminateEach_keepsTokens env _ _ m
  | terminateAppByBundleName =>
    simp only [operations, forceStop, hlock, Bool.false_eq_true, if_false]
    split
    · exact .locked m false
    · split
      · exact (KeepsTokens.locked m true).trans (terminateAbilityWant_keepsTokens env _ _)
      · split
        · exact .locked m false
        · exact (KeepsTokens.locked m true).trans (terminateAbilityWant_keepsTokens env _ _)
  | terminateAll =>
    simp only
    split
    · exact .of_eq rfl rfl rfl rfl rfl
    · exact .terminateAll env hlock _
  | other _ => exact .refl m

/-! ## Replies -/

theorem onBackgroundDone_keepsTokens (env : Env) (m : Manager) (token : UInt16) :
    KeepsTokens m (onBackgroundDone env m token) := by
  have hset := KeepsTokens.setAbilityStateAndNotify m token .background
  unfold onBackgroundDone
  revert hset
  generalize m.setAbilityStateAndNotify token .background = m₁
  intro hset
  simp only
  split
  · exact hset
  · next top htop =>
    split
    · split
      · exact hset.trans (schedulerLifecycle_keepsTokens env m₁ launcherToken .foreground)
      · exact hset
    · split
      · have hshown : KeepsTokens m (if top.state = .stop then (scheduleLifecycleInner env m₁ top .initial).2
            else (scheduleLifecycleInner env m₁ top .foreground).2) := by
          split
          · exact hset.trans (scheduleLifecycleInner_keepsTokens env m₁ top .initial)
          · exact hset.trans (scheduleLifecycleInner_keepsTokens env m₁ top .foreground)
        revert hshown
        generalize (if top.state = .stop then (scheduleLifecycleInner env m₁ top .initial).2
            else (scheduleLifecycleInner env m₁ top .foreground).2) = m₂
        intro hshown
        split
        · split
          · exact hshown.trans (.of_eq rfl rfl rfl rfl rfl)
          · have hcleaned : KeepsTokens m₂ (m₂.modify token fun r => r.setWantData none 0) :=
              .modify m₂ token fun r => (sameIdentity_setWantData r none 0).token
            exact (hshown.trans hcleaned).trans (.of_eq rfl rfl rfl rfl rfl)
        · exact hshown
      · exact hset

theorem onForegroundDone_keepsTokens (cfg : Config) (env : Env) (m : Manager) (token : UInt16) :
    KeepsTokens m (onForegroundDone cfg env m token) := by
  have hset := KeepsTokens.setAbilityStateAndNotify m token .foreground
  unfold onForegroundDone
  revert hset
  generalize m.setAbilityStateAndNotify token .foreground = m₁
  intro hset
  simp only
  split
  · exact hset
  · next top htop =>
    split
    · split
      · exact hset.trans (.of_eq rfl rfl rfl rfl rfl)
      · split
        · exact hset
        · split
          · split
            · exact hset.trans (onDestroyDone_keepsTokens env m₁ _)
            · split
              · exact hset.trans (.deleteRecordInfo m₁ _)
              · split
                · exact hset.trans (scheduleLifecycleInner_keepsTokens env m₁ _ .uninitialized)
                · exact hset
          · exact hset
    · exact hset

theorem reply_keepsTokens (cfg : Config) (envs : Nat → Env) (m : Manager) (token : UInt16)
    {state : SliteAbilityState} (hstate : state ≠ .foreground) :
    KeepsTokens m (schedulerLifecycleDone (singleTask cfg) envs m token state) := by
  cases state with
  | foreground => exact absurd rfl hstate
  | initial =>
    exact (KeepsTokens.setAbilityStateAndNotify m token .inited).trans
      (schedulerLifecycle_keepsTokens (envs 0) _ token .foreground)
  | background => exact onBackgroundDone_keepsTokens (envs 0) m token
  | uninitialized => exact onDestroyDone_keepsTokens (envs 0) m token
  | unknown => exact .refl m

/-! ## Where `GenerateToken` is called -/

/-- The managers on which `PreCheckStartAbility` calls `GenerateToken`. -/
def preCheckCalls (m : Manager) (bundleName : CString) (path : Option CString) : List Manager :=
  if path.isNone then []
  else if (m.abilityList.getByName bundleName).isSome then []
  else if m.pendingToken ≠ 0 then [] else [m]

/-- The managers on which a start that has passed its checks calls it, the first call first. -/
def startCalls (env : Env) (m : Manager) (bundleName : CString) (path : Option CString) :
    List Manager :=
  match m.getTopAbility with
  | none => []
  | some topRecord =>
    if topRecord.state ≠ .stop ∧ topRecord.token ≠ launcherToken then
      if bundleName = topRecord.appName then
        if topRecord.state = .background then [] else preCheckCalls m bundleName path
      else
        let m := (terminateAbility env m topRecord.token).2
        m :: preCheckCalls { (generateToken m).2 with pendingToken := (generateToken m).1 } bundleName
          path
    else preCheckCalls m bundleName path

/-- The managers on which an operation calls it. Only a start that passes its checks gets there. -/
def tokenCalls (cfg : Config) (env : Env) (m : Manager) (o : AbilityOperation) : List Manager :=
  if o.msgId ≠ .startAbility then []
  else
    match startedApp cfg env o.want with
    | none => []
    | some (bundleName, path) => startCalls env { m with isAppScheduling := true } bundleName path

/-- A function that asks for tokens on the managers it is said to. It asks again only where
the first token is the launcher's. -/
def Asks (m : Manager) (calls : List Manager) (m' : Manager) : Prop :=
  (calls = [] ∧ KeepsTokens m m') ∨
    ∃ g rest, calls = g :: rest ∧ KeepsTokens m g ∧ ((generateToken g).1 ≠ launcherToken →
      rest = [] ∧ Admits (generateToken g).1 (generateToken g).2 m')

theorem preCheckStartAbility_asks (cfg : Config) (env : Env) (m : Manager) (info : AbilitySvcInfo)
    (bundleName : CString) : Asks m (preCheckCalls m bundleName info.path)
      (preCheckStartAbility cfg env m info bundleName).2 := by
  unfold preCheckStartAbility preCheckCalls
  by_cases hpath : info.path.isNone = true
  · simp only [if_pos hpath]
    exact .inl ⟨rfl, .refl m⟩
  · simp only [if_neg hpath]
    cases hname : m.abilityList.getByName bundleName with
    | some curRecord =>
      simp only [Option.isSome_some, if_true]
      refine .inl ⟨rfl, ?_⟩
      split
      · exact .refl m
      · split
        · exact schedulerLifecycle_keepsTokens env m launcherToken .background
        · exact .refl m
    | none =>
      simp only [Option.isSome_none, Bool.false_eq_true, if_false]
      by_cases hp : m.pendingToken ≠ 0
      · simp only [if_pos hp]
        refine .inl ⟨rfl, rfl, fun t ht => ?_, id⟩
        rcases ht with ht | ht | ⟨r, hr, hrt⟩
        · exact .inl ht
        · exact .inr (.inl ht)
        · cases hr
          exact .inr (.inl ⟨hp, (newRecord_token env info bundleName m.pendingToken).symm.trans hrt⟩)
      · simp only [if_neg hp]
        refine .inr ⟨m, [], rfl, .refl m, fun _ => ⟨rfl, ?_⟩⟩
        have hadded := Admits.add cfg (generateToken m).2
          (newRecord env info bundleName (generateToken m).1)
        have hcreated := hadded.trans (createAppTask_admits cfg env _
          (newRecord env info bundleName (generateToken m).1)
          ((generateToken m).2.takes cfg (generateToken m).1))
        rw [newRecord_token] at hcreated
        split
        · refine (hcreated.keeps ?_).keeps (.erase _ (generateToken m).1)
          split
          · exact .of_eq rfl rfl rfl rfl rfl
          · exact .refl _
        · exact hcreated

/-- A start whose checks refuse it, or that is for the launcher. -/
theorem startAbilityInfo_refused (env : Env) (m : Manager) (info : AbilitySvcInfo)
    (h : ∀ bundleName, info.bundleName = some bundleName → bundleName.bytes.length = 0 ∨
      isLauncher bundleName ∨ (!info.isNativeApp && !checkResponse env bundleName) = true) :
    KeepsTokens m (startAbilityInfo cfg env m info).2 := by
  unfold startAbilityInfo
  split
  · exact .locked m false
  · next bundleName hbundle =>
    split
    · exact .locked m false
    · next hempty =>
      split
      · exact .locked m false
      · next top htop =>
        split
        · have hupdated := updateRecord_keepsTokens m info bundleName
          simp only
          split
          · exact hupdated.trans (scheduleLifecycleInner_keepsTokens env _ top .background)
          · exact hupdated.trans (schedulerLifecycle_keepsTokens env _ launcherToken .foreground)
        · next hlauncher =>
          have hcheck := ((h bundleName hbundle).resolve_left hempty).resolve_left hlauncher
          rw [if_pos hcheck]
          exact .locked m false

theorem startAbilityInfo_asks (cfg : Config) (env : Env) (m : Manager) (info : AbilitySvcInfo)
    {bundleName : CString} (hbundle : info.bundleName = some bundleName)
    (h : ¬ (bundleName.bytes.length = 0 ∨
      isLauncher bundleName ∨ (!info.isNativeApp && !checkResponse env bundleName) = true)) :
    Asks m (startCalls env m bundleName info.path) (startAbilityInfo cfg env m info).2 := by
  obtain ⟨hempty, hlauncher, hcheck⟩ : ¬ bundleName.bytes.length = 0 ∧ ¬ isLauncher bundleName = true ∧
      ¬ (!info.isNativeApp && !checkResponse env bundleName) = true :=
    ⟨fun e => h (.inl e), fun e => h (.inr (.inl e)), fun e => h (.inr (.inr e))⟩
  unfold startAbilityInfo startCalls
  simp only [hbundle, if_neg hempty]
  cases htop : m.getTopAbility with
  | none => exact .inl ⟨rfl, .locked m false⟩
  | some top =>
    simp only [if_neg hlauncher, if_neg hcheck]
    by_cases hruns : top.state ≠ .stop ∧ top.token ≠ launcherToken
    · simp only [if_pos hruns]
      by_cases hsame : bundleName = top.appName
      · simp only [if_pos hsame]
        by_cases hbackground : top.state = .background
        · simp only [if_pos hbackground]
          exact .inl ⟨rfl, schedulerLifecycle_keepsTokens env m launcherToken .background⟩
        · simp only [if_neg hbackground]
          exact preCheckStartAbility_asks cfg env m { info with isNativeApp := false } bundleName
      · simp only [if_neg hsame]
        have hterminated := terminateAbility_keepsTokens env m top.token
        revert hterminated
        generalize (terminateAbility env m top.token).2 = g
        intro hterminated
        refine .inr ⟨g, _, rfl, hterminated, fun htoken => ?_⟩
        have hcalls : preCheckCalls { (generateToken g).2 with pendingToken := (generateToken g).1 }
            bundleName info.path = [] := by
          unfold preCheckCalls
          split
          · rfl
          · split
            · rfl
            · exact if_pos htoken
        have hasks := preCheckStartAbility_asks cfg env
          { (generateToken g).2 with pendingToken := (generateToken g).1 }
          { info with isNativeApp := false } bundleName
        refine ⟨hcalls, ?_⟩
        rcases hasks with ⟨-, hk⟩ | ⟨g', rest, hg', -⟩
        · refine ⟨hk.counter, fun t ht => ?_, hk.queue⟩
          rcases hk.used t ht with hu | ⟨-, rfl⟩ | hu
          · exact .inr (.inl hu)
          · exact .inl rfl
          · exact .inr (.inr (.inr hu))
        · rw [hcalls] at hg'
          cases hg'
    · simp only [if_neg hruns]
      exact preCheckStartAbility_asks cfg env m { info with isNativeApp := false } bundleName

theorem startAbility_asks (cfg : Config) (env : Env) {m : Manager} (hlock : m.isAppScheduling = false)
    (o : AbilityOperation) (hid : o.msgId = .startAbility) :
    Asks m (tokenCalls cfg env m o) (startAbility cfg env m o.want).2 := by
  simp only [tokenCalls, hid, ne_eq, not_true_eq_false, if_false, startAbility, hlock,
    Bool.false_eq_true]
  cases o.want with
  | none => exact .inl ⟨rfl, .of_eq rfl rfl rfl rfl rfl⟩
  | some want =>
    simp only [startedApp]
    cases helem : want.element with
    | none => exact .inl ⟨rfl, .of_eq rfl rfl rfl rfl rfl⟩
    | some element =>
      simp only
      cases hname : element.bundleName with
      | none => exact .inl ⟨rfl, .of_eq rfl rfl rfl rfl rfl⟩
      | some bundleName =>
        simp only
        by_cases hlocal : (cfg.dmsEnabled && element.deviceId.any (·.bytes ≠ [])) = true
        · simp only [if_pos hlocal]
          obtain ⟨remote, hm⟩ := startRemoteAbility_eq cfg env { m with isAppScheduling := false } want
          rw [hm]
          exact .inl ⟨rfl, .of_eq rfl rfl rfl rfl rfl⟩
        · simp only [if_neg hlocal]
          cases hquery : queryAbilitySvcInfo cfg env bundleName want with
          | error e => exact .inl ⟨rfl, .of_eq rfl rfl rfl rfl rfl⟩
          | ok info =>
            obtain ⟨name, path, data, dataLength, isNativeApp, mission⟩ := info
            have hlocked := KeepsTokens.locked m true
            simp only
            cases name with
            | none =>
              exact .inl ⟨rfl, hlocked.trans (startAbilityInfo_refused env _ _ fun _ e => by cases e)⟩
            | some name =>
              simp only
              by_cases hchecks : name.bytes.length = 0 ∨ isLauncher name ∨
                  (!isNativeApp && !checkResponse env name) = true
              · simp only [if_pos hchecks]
                refine .inl ⟨rfl, hlocked.trans (startAbilityInfo_refused env _ _ fun _ e => ?_)⟩
                exact Option.some.inj e ▸ hchecks
              · simp only [if_neg hchecks]
                rcases startAbilityInfo_asks cfg env { m with isAppScheduling := true }
                    { bundleName := some name, path := path, data := memdup want.data want.dataLength
                      dataLength := want.dataLength, isNativeApp := isNativeApp, mission := want.mission }
                    rfl hchecks with ⟨hcalls, hk⟩ | ⟨g, rest, hcalls, hk, ha⟩
                · exact .inl ⟨hcalls, hlocked.trans hk⟩
                · exact .inr ⟨g, rest, hcalls, hlocked.trans hk, ha⟩

/-- The calls of an executed operation. -/
theorem dispatch_asks (cfg : Config) (env : Env) {m : Manager} (hlock : m.isAppScheduling = false)
    (o : AbilityOperation) :
    Asks m (tokenCalls cfg env m o) ((operations cfg).dispatch env m o).2 := by
  by_cases hid : o.msgId = .startAbility
  · have hasks := startAbility_asks cfg env hlock o hid
    simpa only [Operations.dispatch, hid, operations] using hasks
  · refine .inl ⟨?_, dispatch_keepsTokens env hlock o hid⟩
    simp only [tokenCalls, ne_eq, hid, not_false_eq_true, if_true]

/-! ## Before the counter starts over -/

theorem generateToken_count {g : Manager} (hcount : g.nextToken.toNat ≤ 0xFFFE)
    (hwrap : g.nextToken ≠ 0xFFFE) : (generateToken g).1.toNat = g.nextToken.toNat + 1 := by
  have hne : g.nextToken.toNat ≠ 0xFFFE := fun e => hwrap (UInt16.toNat_inj.mp e)
  simp only [generateToken, if_neg hwrap, UInt16.toNat_add, UInt16.reduceToNat]
  omega

theorem generated_bounded {g m' : Manager} (h : Bounded 0 g) (hwrap : g.nextToken ≠ 0xFFFE)
    (ha : Admits (generateToken g).1 (generateToken g).2 m') : Bounded 0 m' := by
  have hcount := generateToken_count h.counter hwrap
  have hnext : (generateToken g).2.nextToken = (generateToken g).1 := rfl
  have hne : g.nextToken.toNat ≠ 0xFFFE := fun e => hwrap (UInt16.toNat_inj.mp e)
  have hle := h.counter
  refine ⟨by rw [ha.counter, hnext, hcount]; omega, fun t ht => ?_⟩
  rw [ha.counter, hnext]
  rcases ha.used t ht with rfl | hu
  · exact Nat.le_refl _
  · have hused : g.usesToken t := hu
    have hlt := h.used t hused
    omega

/-- The token is that of no listed record, and never the launcher's. -/
def TokenIsNew (g : Manager) : Prop :=
  (∀ r ∈ g.abilityList, r.token ≠ (generateToken g).1) ∧ (generateToken g).1 ≠ launcherToken

theorem token_ne_launcher {g : Manager} (hcount : g.nextToken.toNat ≤ 0xFFFE)
    (hwrap : g.nextToken ≠ 0xFFFE) : (generateToken g).1 ≠ launcherToken := by
  intro e
  have htoken := generateToken_count hcount hwrap
  rw [e] at htoken
  exact absurd htoken (Nat.succ_ne_zero _).symm

theorem tokenIsNew_of_bounded {g : Manager} (h : Bounded 0 g) (hwrap : g.nextToken ≠ 0xFFFE) :
    TokenIsNew g := by
  refine ⟨fun r hr e => ?_, token_ne_launcher h.counter hwrap⟩
  have hle := h.used r.token (.inl ⟨r, hr, rfl⟩)
  have hcount := generateToken_count h.counter hwrap
  rw [e] at hle
  omega

/-- Every call of a step is made before the counter starts over. -/
def beforeWrap (cfg : Config) : Condition where
  operation env m o := ∀ g ∈ tokenCalls cfg env m o, g.nextToken ≠ 0xFFFE
  reply _ _ _ _ := True

/-- Every call of a step returns a new token. -/
def tokensNew (cfg : Config) : Condition where
  operation env m o := ∀ g ∈ tokenCalls cfg env m o, TokenIsNew g
  reply _ _ _ _ := True

theorem dispatch_bounded (h : Bounded 0 m) (env : Env) (hlock : m.isAppScheduling = false)
    (o : AbilityOperation) (hok : ∀ g ∈ tokenCalls cfg env m o, g.nextToken ≠ 0xFFFE) :
    Bounded 0 ((operations cfg).dispatch env m o).2 ∧ (∀ g ∈ tokenCalls cfg env m o, TokenIsNew g) ∧
      (m.QueueWellFormed → ((operations cfg).dispatch env m o).2.QueueWellFormed) := by
  rcases dispatch_asks cfg env hlock o with ⟨hcalls, hk⟩ | ⟨g, rest, hcalls, hk, hadmits⟩
  · rw [hcalls]
    exact ⟨h.keeps hk, fun g hg => absurd hg List.not_mem_nil, hk.queue⟩
  · have hg := h.keeps hk
    have hwrap : g.nextToken ≠ 0xFFFE := hok g (by rw [hcalls]; exact List.mem_cons_self)
    obtain ⟨rfl, ha⟩ := hadmits (token_ne_launcher hg.counter hwrap)
    rw [hcalls]
    refine ⟨generated_bounded hg hwrap ha, fun x hx => ?_, fun hwf => ha.queue (hk.queue hwf)⟩
    rw [List.mem_singleton.mp hx]
    exact tokenIsNew_of_bounded hg hwrap

theorem bounded_keeps : Keeps (singleTask cfg) (beforeWrap cfg) fun _ m => Bounded 0 m where
  queue _ h := ⟨h.counter, h.used⟩
  enter r h := by
    refine h.keeps ?_
    unfold Request.enter
    split <;> exact .of_eq rfl rfl rfl rfl rfl
  flag _ h := ⟨h.counter, h.used⟩
  defers := operations_defers cfg
  operation env m o h hlock hwf _ hok := by
    obtain ⟨hb, -, hq⟩ := dispatch_bounded h env hlock o hok
    exact ⟨hq hwf, fun _ => hb.keeps (.locked _ false), fun _ => hb⟩
  answer left _ _ h := h.keeps (.answered left)
  foreground env m token h hwf _ := by
    have hk := onForegroundDone_keepsTokens cfg env m token
    exact ⟨h.keeps (hk.trans (.locked _ false)), hk.queue hwf⟩
  reply envs m token state hstate h hwf _ := by
    have hk := reply_keepsTokens cfg envs m token hstate
    exact ⟨h.keeps hk, hk.queue hwf⟩

/-- The launcher has been started, and its native ability is installed before or after. -/
def Launched (cfg : Config) (s : System) : Prop :=
  s.replies = [] ∧ ∃ env taskId native,
    s.manager = startLauncher cfg env taskId { nativeAbility := native } ∨
      s.manager = { startLauncher cfg env taskId {} with nativeAbility := native }

theorem startLauncher_bounded (cfg : Config) (env : Env) (taskId : Option Nat)
    (native : Option SliteAbilityState) :
    Bounded 0 (startLauncher cfg env taskId { nativeAbility := native }) ∧
      (startLauncher cfg env taskId { nativeAbility := native }).QueueWellFormed := by
  have hadded := Admits.add cfg { nativeAbility := native } (launcherRecord taskId)
  have hstarted := hadded.keeps (scheduleLifecycleInner_keepsTokens env _ (launcherRecord taskId)
    .foreground)
  refine ⟨⟨?_, fun t ht => ?_⟩, hstarted.queue fun o ho => absurd ho List.not_mem_nil⟩
  · exact Nat.le_trans (Nat.le_of_eq (congrArg UInt16.toNat hstarted.counter)) (Nat.zero_le _)
  · rcases hstarted.used t ht with rfl | ⟨r, hr, -⟩ | ⟨hne, -⟩ | ⟨r, hr, -⟩
    · exact Nat.zero_le _
    · cases hr
    · exact absurd rfl hne
    · cases hr

theorem Launched.bounded {s : System} (h : Launched cfg s) :
    Bounded 0 s.manager ∧ s.manager.QueueWellFormed := by
  obtain ⟨-, env, taskId, native, hm | hm⟩ := h
  · rw [hm]
    exact startLauncher_bounded cfg env taskId native
  · obtain ⟨hb, hq⟩ := startLauncher_bounded cfg env taskId none
    rw [hm]
    exact ⟨⟨hb.counter, hb.used⟩, hq⟩

/-- Before the counter starts over, the calls of a step return new tokens. -/
theorem tokensNew_of_beforeWrap {s : System} (h : Reached (System.next (singleTask cfg))
    (fun s e => s.meets (singleTask cfg) (beforeWrap cfg) e) (Launched cfg) s) {e : Event}
    (he : s.meets (singleTask cfg) (beforeWrap cfg) e) : s.meets (singleTask cfg) (tokensNew cfg) e := by
  have hs := bounded_keeps.reached (fun _ h => Launched.bounded h) h
  have hbefore {rs : List (UInt16 × SliteAbilityState)} (env : Env) (m : Manager)
      (o : AbilityOperation) (hb : Bounded 0 m) (hlock : m.isAppScheduling = false) (_ : o.WellFormed)
      (hok : (beforeWrap cfg).operation env m o) : (tokensNew cfg).operation env m o :=
    (dispatch_bounded hb env hlock o hok).2.1
  exact bounded_keeps.meets (@hbefore) (fun _ _ _ _ _ _ => trivial) hs he

end

end SingleTask

/-! ## Both builds -/

/-- In any run of either build, up to the step that asks for a token when the counter stands
where it starts over: each token that a step asks for is that of no listed record, and never
the launcher's but for the first one of the multi-task build. In the multi-task build a step
that asks there gets the launcher's token. -/
theorem tokens_identify_records (cfg : Config) :
    (∀ s, Reached (System.next (multiTasks cfg))
        (fun s e => s.meets (multiTasks cfg) (MultiTasks.beforeWrap cfg) e) (MultiTasks.Launched cfg) s →
      ∀ e, s.meets (multiTasks cfg) (MultiTasks.tokensNew cfg) e ↔
        s.meets (multiTasks cfg) (MultiTasks.beforeWrap cfg) e) ∧
    ∀ s, Reached (System.next (singleTask cfg))
        (fun s e => s.meets (singleTask cfg) (SingleTask.beforeWrap cfg) e) (SingleTask.Launched cfg) s →
      ∀ e, s.meets (singleTask cfg) (SingleTask.beforeWrap cfg) e →
        s.meets (singleTask cfg) (SingleTask.tokensNew cfg) e :=
  ⟨fun _ h e => MultiTasks.tokensNew_iff h e, fun _ h _ he => SingleTask.tokensNew_of_beforeWrap h he⟩

/-- The first start over the launcher asks for a token. -/
theorem tokens_identify_records_first :
    (∃ o ∈ (startOf (cstr "a")).operation, SingleTask.tokenCalls { abilityListCapacity := 3 }
      .working SingleTask.idleSystem.manager o ≠ []) ∧
    SingleTask.idleSystem.meets (singleTask { abilityListCapacity := 3 })
      (SingleTask.tokensNew { abilityListCapacity := 3 })
      (.request (startOf (cstr "a")) fun _ => .working) := by
  refine ⟨⟨_, rfl, List.ne_nil_of_length_pos (by decide)⟩,
    (tokens_identify_records { abilityListCapacity := 3 }).2 _
      (.init ⟨rfl, .working, none, some .initial, .inr rfl⟩) _ fun _ o ho => ?_⟩
  cases ho
  refine ⟨?_, fun hgoes => absurd hgoes (by decide)⟩
  show ∀ g ∈ SingleTask.tokenCalls _ _ _ _, _
  decide

namespace MultiTasks
open Manager

/-! ## Two temporary applications take turns over the launcher -/

def temporaryName : Bool → CString
  | true => cstr "a"
  | false => cstr "b"

/-- Everything outside the manager works, and the two bundles are registered as temporary. -/
def temporaryEnv : Env :=
  { Env.working with bms := { temporaryBundleNames := [temporaryName true, temporaryName false] } }

def launcherBelow : AbilityRecord :=
  { appName := launcherBundleName, appPath := some (cstr "/app/js"), abilityData := some {}
    abilitySavedData := some {}, token := launcherToken }

def temporaryRecord (b : Bool) (token : UInt16) (thread : Option AbilityThreadCreatorType)
    (state : AbilityRecordState) (isTerminated : Bool) : AbilityRecord :=
  { appName := temporaryName b, appPath := some (cstr "/app/js"), abilityData := some {}
    token, abilityThread := thread, state, isTerminated }

/-- One application is in front of the launcher, and nothing is under way. -/
def inFront (b : Bool) (k : UInt16) (l : List Notification) : System where
  manager :=
    { abilityList := [temporaryRecord b k (some .jsCreator) .foreground false, launcherBelow]
      nextToken := k + 1, notifications := l }

/-- It is on its way out, and the other one waits with the next token. -/
def leaving (b : Bool) (k : UInt16) (state : AbilityRecordState) (sent : List SliteAbilityInnerMsg)
    (replies : List (UInt16 × SliteAbilityState)) (l : List Notification) : System where
  manager :=
    { isAppScheduling := true
      abilityList := [temporaryRecord (!b) (k + 1) none .stop false,
        temporaryRecord b k (some .jsCreator) state true, launcherBelow]
      pendingToken := k + 1, nextToken := k + 1 + 1, sent, notifications := l }
  replies := replies

/-- It is gone, and the other one comes up. -/
def coming (b : Bool) (k : UInt16) (state : AbilityRecordState) (sent : List SliteAbilityInnerMsg)
    (replies : List (UInt16 × SliteAbilityState)) (l : List Notification) : System where
  manager :=
    { isAppScheduling := true
      abilityList := [temporaryRecord (!b) (k + 1) (some .jsCreator) state false, launcherBelow]
      nextToken := k + 1 + 1, sent, notifications := l }
  replies := replies

/-- The other application is started, and every message and reply is handled. -/
def turnTo (b : Bool) : List Event :=
  .request (startOf (temporaryName b)) (fun _ => temporaryEnv) ::
    (List.replicate 4 [Event.answer 0 {}, .reply fun _ => temporaryEnv]).flatten

section
variable {b : Bool} {k : UInt16} {l : List Notification}

theorem succ_ne_self (k : UInt16) : k + 1 ≠ k := by
  intro h
  have hnat := congrArg UInt16.toNat h
  have hlt := k.toNat_lt
  simp only [UInt16.toNat_add, UInt16.reduceToNat] at hnat
  omega

def temporaryInfo (b : Bool) : AbilitySvcInfo :=
  { bundleName := some (temporaryName b), path := some (cstr "/app/js"), isNativeApp := false }

/-- The bundle in front is temporary, so its record is marked and sent to the background; the new
record is pushed over it. -/
theorem temporaryInfo_result (hk : launcherToken ≠ k) (hk' : launcherToken ≠ k + 1)
    (hwrap : k + 1 ≠ 0xFFFE) :
    startAbilityInfo roomy temporaryEnv { (inFront b k l).manager with isAppScheduling := true }
      (temporaryInfo !b) =
      (errOk, (leaving b k .foreground [{ token := k, msgId := .background }] [] l).manager) := by
  have hne := succ_ne_self k
  have hpending : k + 1 ≠ 0 := hk'.symm
  have hlong : (temporaryName !b).bytes ≠ [] := by cases b <;> decide
  have hname : temporaryName (!b) ≠ temporaryName b := by cases b <;> decide
  have hlauncher : launcherBundleName ≠ temporaryName !b := by cases b <;> decide
  have htemporary : temporaryName b ∈ [temporaryName true, temporaryName false] := by cases b <;> decide
  have hmission : 0 ≠ uint32Max := by decide
  simp [startAbilityInfo, temporaryInfo, inFront, leaving, temporaryRecord, launcherBelow, temporaryEnv,
    Env.working, roomy, hlong, getTopAbility, AbilityList.getTopAbility, hname, checkResponse, markTop,
    needToBeTerminated, BMSHelper.isTemporaryBundleName, htemporary, Manager.modify, AbilityList.modify, hk,
    sendMsgToAbilityThread, innerMsg, generateToken, hwrap, preCheckStartAbility, AbilityList.getByName,
    hname.symm, hlauncher, hpending, hmission, newRecord, AbilityRecord.setWantData, Manager.add,
    AbilityList.add, AbilityList.get, hne.symm, hk', releaseAll]

theorem startTemporary_result (hk : launcherToken ≠ k) (hk' : launcherToken ≠ k + 1)
    (hwrap : k + 1 ≠ 0xFFFE) :
    startAbility roomy temporaryEnv (inFront b k l).manager
      (some { element := some { bundleName := some (temporaryName !b) } }) =
      (errOk, (leaving b k .foreground [{ token := k, msgId := .background }] [] l).manager) := by
  have hnew : AbilityList.getByName (inFront b k l).manager.abilityList (temporaryName !b) = none := by
    cases b <;> rfl
  have hlock : (inFront b k l).manager.isAppScheduling = false := rfl
  have hlocal : ¬ (roomy.dmsEnabled &&
      Option.any (fun x : CString => decide (x.bytes ≠ [])) none) = true := by decide
  have hquery : queryAbilitySvcInfo roomy temporaryEnv (temporaryName !b)
      { element := some { bundleName := some (temporaryName !b) } } = .ok (temporaryInfo !b) := by
    cases b <;> rfl
  simp only [startAbility, hlock, Bool.false_eq_true, if_false, hnew, if_neg hlocal, hquery]
  exact temporaryInfo_result hk hk' hwrap

/-- The start is accepted: the application in front is marked and sent to the background. -/
theorem next_started (hk : launcherToken ≠ k) (hk' : launcherToken ≠ k + 1) (hwrap : k + 1 ≠ 0xFFFE) :
    (inFront b k l).next (multiTasks roomy) (.request (startOf (temporaryName !b)) fun _ => temporaryEnv) =
      some (leaving b k .foreground [{ token := k, msgId := .background }] [] l) := by
  have hcall : Request.call (multiTasks roomy) temporaryEnv (inFront b k l).manager
      (startOf (temporaryName !b)) =
      some (startAbility roomy temporaryEnv (inFront b k l).manager
        (some { element := some { bundleName := some (temporaryName !b) } })) := rfl
  rw [startTemporary_result hk hk' hwrap] at hcall
  -- the lock is kept, so nothing is drained
  have hgoes : ¬ (errOk ≠ errOk ∨
      (leaving b k .foreground [{ token := k, msgId := .background }] [] l).manager.isAppScheduling =
        false) := by
    intro h
    cases h with
    | inl h => exact h rfl
    | inr h => cases h
  simp only [System.next, serviceMessageHandle, hcall, if_neg hgoes]
  rfl

/-- The only message is answered, and nothing is left in saved data. -/
theorem next_answered {s : System} {msg : SliteAbilityInnerMsg} (hs : s.manager.sent = [msg])
    (hsaved : msg.hasSavedData = false) : s.next (multiTasks roomy) (.answer 0 {}) = some
      { manager := { s.manager with sent := [] }
        replies := s.replies ++ [(msg.token, msg.msgId.requested)] } := by
  have hleft : leaveSavedData s.manager msg {} = s.manager := by
    unfold leaveSavedData
    rw [hsaved, if_neg fun h => Bool.false_ne_true h.2]
  simp only [System.next, hs, List.getElem?_cons_zero, List.take_zero, List.any_nil, Bool.false_eq_true,
    if_false, List.eraseIdx_cons_zero, hleft]

theorem leaving_answered {state : AbilityRecordState} {msg : SliteAbilityInnerMsg}
    (hsaved : msg.hasSavedData = false) :
    (leaving b k state [msg] [] l).next (multiTasks roomy) (.answer 0 {}) =
      some (leaving b k state [] [(msg.token, msg.msgId.requested)] l) :=
  next_answered (s := leaving b k state [msg] [] l) rfl hsaved

theorem coming_answered {state : AbilityRecordState} {msg : SliteAbilityInnerMsg}
    (hsaved : msg.hasSavedData = false) :
    (coming b k state [msg] [] l).next (multiTasks roomy) (.answer 0 {}) =
      some (coming b k state [] [(msg.token, msg.msgId.requested)] l) :=
  next_answered (s := coming b k state [msg] [] l) rfl hsaved

theorem next_backgroundDone (hk : launcherToken ≠ k) :
    (leaving b k .foreground [] [(k, .background)] l).next (multiTasks roomy)
      (.reply fun _ => temporaryEnv) =
      some (leaving b k .background [{ token := k, msgId := .destroy }] []
        (l ++ [.stateChanged (temporaryName b) .background])) := by
  have hne := succ_ne_self k
  simp [System.next, leaving, temporaryRecord, launcherBelow, temporaryEnv, Env.working,
    schedulerLifecycleDone, multiTasks, onBackgroundDone, setAbilityStateAndNotify, AbilityList.get,
    AbilityList.modify, hne, hk, Manager.modify, Manager.notify, sendMsgToAbilityThread, innerMsg]

/-- The marked application is deleted, and the other one gets its thread. -/
theorem next_destroyDone (hk : launcherToken ≠ k) (hk' : launcherToken ≠ k + 1) :
    (leaving b k .background [] [(k, .uninitialized)] l).next (multiTasks roomy)
      (.reply fun _ => temporaryEnv) =
      some (coming b k .stop [innerMsg .initial (temporaryRecord (!b) (k + 1) none .stop false)] []
        (l ++ [.stateChanged (temporaryName b) .stop, .cleanup (temporaryName b)])) := by
  have hne := succ_ne_self k
  have hpending : k + 1 ≠ 0 := hk'.symm
  simp [System.next, leaving, coming, temporaryRecord, launcherBelow, temporaryEnv, Env.working,
    schedulerLifecycleDone, multiTasks, onDestroyDone, setAbilityStateAndNotify, AbilityList.get,
    AbilityList.modify, AbilityList.erase, hne, hk, hk', hpending, Manager.modify, Manager.notify,
    deleteRecordInfo, deleteAbilityThread, Manager.release, Manager.erase, createAppTask, started,
    schedulerLifecycle, sendMsgToAbilityThread, innerMsg, createWant]

theorem next_createDone (hk' : launcherToken ≠ k + 1) :
    (coming b k .stop [] [(k + 1, .initial)] l).next (multiTasks roomy) (.reply fun _ => temporaryEnv) =
      some (coming b k .inited [innerMsg .foreground (temporaryRecord (!b) (k + 1) none .stop false)] []
        (l ++ [.stateChanged (temporaryName !b) .inited])) := by
  simp [System.next, coming, temporaryRecord, launcherBelow, temporaryEnv, Env.working,
    schedulerLifecycleDone, multiTasks, onCreateDone, setAbilityStateAndNotify, AbilityList.get,
    AbilityList.modify, hk', Manager.modify, Manager.notify, schedulerLifecycle, sendMsgToAbilityThread,
    innerMsg, createWant]

theorem next_foregroundDone (hk' : launcherToken ≠ k + 1) :
    (coming b k .inited [] [(k + 1, .foreground)] l).next (multiTasks roomy)
      (.reply fun _ => temporaryEnv) =
      some (inFront (!b) (k + 1) (l ++ [.stateChanged (temporaryName !b) .foreground])) := by
  simp [System.next, coming, inFront, temporaryRecord, launcherBelow, temporaryEnv, Env.working,
    schedulerLifecycleDone, multiTasks, onForegroundDone, setAbilityStateAndNotify, AbilityList.get,
    AbilityList.modify, hk', Manager.modify, Manager.notify, Operations.runOperation,
    Operations.runOperationFuel]

/-- The other application takes its turn, and has the next token. -/
theorem turnTo_run (hk : launcherToken ≠ k) (hk' : launcherToken ≠ k + 1) (hwrap : k + 1 ≠ 0xFFFE) :
    ∃ l', run (System.next (multiTasks roomy)) (inFront b k l) (turnTo !b) =
      some (inFront (!b) (k + 1) l') := by
  have hbackground : (leaving b k .foreground [{ token := k, msgId := .background }] [] l).next
      (multiTasks roomy) (.answer 0 {}) = some (leaving b k .foreground [] [(k, .background)] l) :=
    leaving_answered rfl
  have hdestroy (l : List Notification) :
      (leaving b k .background [{ token := k, msgId := .destroy }] [] l).next (multiTasks roomy)
        (.answer 0 {}) = some (leaving b k .background [] [(k, .uninitialized)] l) :=
    leaving_answered rfl
  have hcreate (l : List Notification) :
      (coming b k .stop [innerMsg .initial (temporaryRecord (!b) (k + 1) none .stop false)] [] l).next
        (multiTasks roomy) (.answer 0 {}) = some (coming b k .stop [] [(k + 1, .initial)] l) :=
    coming_answered rfl
  have hforeground (l : List Notification) :
      (coming b k .inited [innerMsg .foreground (temporaryRecord (!b) (k + 1) none .stop false)] []
        l).next (multiTasks roomy) (.answer 0 {}) =
          some (coming b k .inited [] [(k + 1, .foreground)] l) :=
    coming_answered rfl
  simp only [turnTo, List.replicate, List.flatten_cons, List.cons_append, List.nil_append]
  rw [run_cons _ _ (next_started hk hk' hwrap), run_cons _ _ hbackground,
    run_cons _ _ (next_backgroundDone hk), run_cons _ _ (hdestroy _),
    run_cons _ _ (next_destroyDone hk hk'), run_cons _ _ (hcreate _),
    run_cons _ _ (next_createDone hk'), run_cons _ _ (hforeground _),
    run_cons _ _ (next_foregroundDone hk')]
  exact ⟨_, rfl⟩

/-- The applications take turns, and each turn counts the tokens by one. -/
theorem turns_run (n : Nat) (hk : 0 < k.toNat) (hroom : k.toNat + 2 * n < 0xFFFE) :
    ∃ k' l', run (System.next (multiTasks roomy)) (inFront true k l)
      (List.replicate n (turnTo false ++ turnTo true)).flatten = some (inFront true k' l') ∧
        k'.toNat = k.toNat + 2 * n := by
  induction n generalizing k l with
  | zero => exact ⟨k, l, rfl, rfl⟩
  | succ n ih =>
    -- the invariant of the induction: the token in front is not the launcher's, nor the last one
    have hne (t : UInt16) (h : 0 < t.toNat) : launcherToken ≠ t := by
      rintro rfl
      exact absurd h (by decide)
    have hwrap (t : UInt16) (h : t.toNat < 0xFFFE) : t ≠ 0xFFFE := by
      rintro rfl
      exact absurd h (by decide)
    have hcount : (k + 1).toNat = k.toNat + 1 ∧ (k + 1 + 1).toNat = k.toNat + 2 := by
      simp only [UInt16.toNat_add, UInt16.reduceToNat]
      omega
    obtain ⟨l₁, h₁⟩ := turnTo_run (b := true) (l := l) (hne k hk) (hne (k + 1) (by omega))
      (hwrap (k + 1) (by omega))
    obtain ⟨l₂, h₂⟩ := turnTo_run (b := false) (l := l₁) (hne (k + 1) (by omega))
      (hne (k + 1 + 1) (by omega)) (hwrap (k + 1 + 1) (by omega))
    obtain ⟨k', l', h', hk'⟩ := ih (k := k + 1 + 1) (l := l₂) (by omega) (by omega)
    simp only [Bool.not_true, Bool.not_false] at h₁ h₂
    refine ⟨k', l', ?_, by omega⟩
    rw [List.replicate_succ, List.flatten_cons, List.append_assoc, run_append _ _ h₁, run_append _ _ h₂]
    exact h'

/-- The next turn asks for the token that the counter stands at. -/
theorem inFront_asks : ∃ g ∈ tokenCalls roomy temporaryEnv (inFront true k l).manager
    { msgId := .startAbility, want := some { element := some { bundleName := some (temporaryName false) } }
      token := 0 }, g.nextToken = k + 1 := by
  have hquery : newApp roomy temporaryEnv (inFront true k l).manager
      (some { element := some { bundleName := some (temporaryName false) } }) =
      some (temporaryName false, temporaryInfo false) := rfl
  have hlong : ¬ (temporaryName false).bytes.length = 0 := by decide
  have htop : getTopAbility { (inFront true k l).manager with isAppScheduling := true } =
    some (temporaryRecord true k (some .jsCreator) .foreground false) := rfl
  have hcheck : ¬ (!false && !checkResponse temporaryEnv (temporaryName false)) = true := by decide
  have hname : temporaryName false ≠
      (temporaryRecord true k (some .jsCreator) .foreground false).appName := by
    show temporaryName false ≠ temporaryName true
    decide
  simp only [tokenCalls, ne_eq, not_true_eq_false, if_false, hquery, startInfoCalls, temporaryInfo,
    if_neg hlong, htop, if_neg hcheck, if_neg hname]
  exact ⟨_, List.mem_cons_self, rfl⟩

end

/-- The launcher is started, where the bundle manager says which script it has. -/
def temporarySystem : System where
  manager := startLauncher roomy temporaryEnv {}

/-- The launcher comes up, the first application is started over it, and the two take turns. -/
def turnsEvents : List Event :=
  ((List.replicate 2 [Event.answer 0 {}, .reply fun _ => temporaryEnv]).flatten ++ turnTo true) ++
    (List.replicate 32766 (turnTo false ++ turnTo true)).flatten

/-- After 65533 starts the next one is given the launcher's token. -/
theorem multiTasks_token_repeats : Launched roomy temporarySystem ∧
    ∃ s, run (System.next (multiTasks roomy)) temporarySystem turnsEvents = some s ∧
      (∃ r ∈ s.manager.abilityList, r.token = launcherToken) ∧
      ¬ s.meets (multiTasks roomy) (tokensNew roomy)
        (.request (startOf (temporaryName false)) fun _ => temporaryEnv) := by
  have hup : ∃ l, run (System.next (multiTasks roomy)) temporarySystem
      ((List.replicate 2 [Event.answer 0 {}, .reply fun _ => temporaryEnv]).flatten ++ turnTo true) =
        some (inFront true 1 l) := ⟨_, rfl⟩
  obtain ⟨l, hup⟩ := hup
  obtain ⟨k, l', hrun, hk⟩ := turns_run (k := 1) (l := l) 32766 (by decide) (by decide)
  refine ⟨⟨rfl, temporaryEnv, rfl⟩, _, (run_append _ _ hup).trans hrun,
    ⟨launcherBelow, List.mem_cons_of_mem _ List.mem_cons_self, rfl⟩, fun hmeets => ?_⟩
  -- the counter stands where it starts over
  obtain ⟨hop, -⟩ := hmeets rfl _ rfl
  obtain ⟨g, hg, hnext⟩ := inFront_asks (k := k) (l := l')
  refine (hop g hg).before ?_
  have hcount : (k + 1).toNat = 0xFFFE := by
    simp only [UInt16.toNat_add, UInt16.reduceToNat] at hk ⊢
    omega
  rw [hnext]
  exact UInt16.toNat_inj.mp hcount

end MultiTasks

end AbilityLite.Slite
