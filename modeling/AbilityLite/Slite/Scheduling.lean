import AbilityLite.Slite.Service

/-
  What keeps a request from being stranded, for either build.

  Between two handled messages the manager is either free, with nothing deferred,
  or it holds `isAppScheduling` and something in flight will give it back. A build
  is shown to work this way by a `Discipline`: what `Idle` and `Busy` mean for it,
  and that each operation it runs and each reply it handles ends in one or the
  other. `Discipline.reached` carries this to whole runs.
-/

namespace AbilityLite.Slite

/-! ## Requests as operations -/

/-- The operation a request asks for, as it would be recorded if deferred. -/
def Request.operation : Request → Option AbilityOperation
  | .startAbility data => data.map fun data =>
    { msgId := .startAbility, want := data.want, token := 0 }
  | .terminateAbility msgValue =>
    some { msgId := .terminateAbility, want := none, token := msgValue.toUInt16.toUInt64 }
  | .terminateMission msgValue =>
    some { msgId := .terminateMission, want := none, token := msgValue.toUInt64 }
  | .terminateApp msgValue =>
    some { msgId := .terminateApp, want := none, token := msgValue.toUInt16.toUInt64 }
  | .terminateAppByBundleName data => data.map fun data =>
    { msgId := .terminateAppByBundleName, want := some data, token := 0 }
  | .terminateAll data =>
    some { msgId := .terminateAll, want := some (Manager.excludedWant data), token := 0 }

/-- The manager as a request finds it: a start records the calling task first. -/
def Request.enter (r : Request) (m : Manager) : Manager :=
  match r with
  | .startAbility (some data) => { m with curTask := data.curTask }
  | _ => m

theorem read_excludedWant (excludedBundleName : Option CString) :
    (Manager.excludedWant excludedBundleName).data.map CString.read = excludedBundleName := by
  cases excludedBundleName with
  | none => rfl
  | some s => simp only [Manager.excludedWant, Option.map_some, CString.read_buffer]

/-- Calling a request is dispatching its operation. -/
theorem Request.call_eq_dispatch (build : Build) (env : Env) (m : Manager) (r : Request) :
    r.call build env m = r.operation.map (build.operations.dispatch env (r.enter m)) := by
  cases r with
  | startAbility data => cases data <;> rfl
  | terminateAbility v =>
    simp only [call, operation, enter, Option.map_some, Operations.dispatch,
      UInt16.toUInt16_toUInt64]
  | terminateMission v =>
    simp only [call, operation, enter, Option.map_some, Operations.dispatch,
      UInt32.toUInt32_toUInt64]
  | terminateApp v =>
    simp only [call, operation, enter, Option.map_some, Operations.dispatch,
      UInt16.toUInt16_toUInt64]
  | terminateAppByBundleName data => cases data <;> rfl
  | terminateAll data =>
    simp only [call, operation, enter, Option.map_some, Operations.dispatch, read_excludedWant]

/-! ## Deferral -/

/-- What `RunOperation` may rely on in a deferred operation: a `TERMINATE_ALL` carries
the want that `TerminateAll` packed. -/
def AbilityOperation.WellFormed (o : AbilityOperation) : Prop :=
  o.msgId = .terminateAll → o.want.isSome

theorem Request.operation_wellFormed (r : Request) (o : AbilityOperation)
    (h : o ∈ r.operation) : o.WellFormed := by
  cases r with
  | terminateAll data =>
    simp only [operation, Option.mem_def, Option.some.injEq] at h
    subst h
    exact fun _ => rfl
  | startAbility data =>
    simp only [operation, Option.mem_def, Option.map_eq_some_iff] at h
    obtain ⟨_, _, rfl⟩ := h
    exact fun h => nomatch h
  | terminateAppByBundleName data =>
    simp only [operation, Option.mem_def, Option.map_eq_some_iff] at h
    obtain ⟨_, _, rfl⟩ := h
    exact fun h => nomatch h
  | _ =>
    simp only [operation, Option.mem_def, Option.some.injEq] at h
    subst h
    exact fun h => nomatch h

/-- While the manager is scheduling, each operation is recorded and nothing else
happens. -/
structure Operations.Defers (ops : Operations) : Prop where
  startAbility : ∀ env (m : Manager) want, m.isAppScheduling = true →
    ops.startAbility env m want = m.addAbilityOperation env .startAbility want 0
  terminateAbility : ∀ env (m : Manager) token, m.isAppScheduling = true →
    ops.terminateAbility env m token =
      m.addAbilityOperation env .terminateAbility none token.toUInt64
  terminateMission : ∀ env (m : Manager) mission, m.isAppScheduling = true →
    ops.terminateMission env m mission =
      m.addAbilityOperation env .terminateMission none mission.toUInt64
  forceStopBundle : ∀ env (m : Manager) token, m.isAppScheduling = true →
    ops.forceStopBundle env m token = m.addAbilityOperation env .terminateApp none token.toUInt64
  forceStop : ∀ env (m : Manager) want, m.isAppScheduling = true →
    ops.forceStop env m want = m.addAbilityOperation env .terminateAppByBundleName want 0
  terminateAll : ∀ env (m : Manager) excluded, m.isAppScheduling = true →
    ops.terminateAll env m excluded =
      m.addAbilityOperation env .terminateAll (some (Manager.excludedWant excluded)) 0

/-- A request that comes while the manager is scheduling is recorded. -/
theorem Request.call_defers {build : Build} (hd : build.operations.Defers) {env : Env} {m : Manager}
    {r : Request} {x : ErrCode × Manager} (hlock : m.isAppScheduling = true)
    (hcall : r.call build env m = some x) : ∃ o : AbilityOperation, o.WellFormed ∧
      x = (errOk, { r.enter m with abilityOperation := m.abilityOperation ++ [o] }) := by
  cases r with
  | startAbility data =>
    simp only [call, Option.map_eq_some_iff] at hcall
    obtain ⟨d, rfl, rfl⟩ := hcall
    refine ⟨Manager.deferredOperation env .startAbility d.want 0, (fun h => nomatch h), ?_⟩
    exact hd.startAbility env { m with curTask := d.curTask } d.want hlock
  | terminateAppByBundleName data =>
    simp only [call, Option.map_eq_some_iff] at hcall
    obtain ⟨d, rfl, rfl⟩ := hcall
    refine ⟨Manager.deferredOperation env .terminateAppByBundleName (some d) 0, (fun h => nomatch h), ?_⟩
    exact hd.forceStop env m (some d) hlock
  | terminateAbility v =>
    simp only [call, Option.some.injEq] at hcall
    subst hcall
    refine ⟨Manager.deferredOperation env .terminateAbility none v.toUInt16.toUInt64, (fun h => nomatch h), ?_⟩
    exact hd.terminateAbility env m _ hlock
  | terminateMission v =>
    simp only [call, Option.some.injEq] at hcall
    subst hcall
    refine ⟨Manager.deferredOperation env .terminateMission none v.toUInt64, (fun h => nomatch h), ?_⟩
    exact hd.terminateMission env m _ hlock
  | terminateApp v =>
    simp only [call, Option.some.injEq] at hcall
    subst hcall
    refine ⟨Manager.deferredOperation env .terminateApp none v.toUInt16.toUInt64, (fun h => nomatch h), ?_⟩
    exact hd.forceStopBundle env m _ hlock
  | terminateAll data =>
    simp only [call, Option.some.injEq] at hcall
    subst hcall
    refine ⟨Manager.deferredOperation env .terminateAll (some (Manager.excludedWant data)) 0,
      fun _ => rfl, ?_⟩
    exact hd.terminateAll env m data hlock

/-! ## What one operation leaves -/

/-- The manager goes on to the next deferred operation after this outcome. -/
def goesOn (x : ErrCode × Manager) : Prop := x.1 ≠ errOk ∨ x.2.isAppScheduling = false

instance (x : ErrCode × Manager) : Decidable (goesOn x) := inferInstanceAs (Decidable (_ ∨ _))

/-- The lock is given back. -/
def Manager.unlock (m : Manager) : Manager := { m with isAppScheduling := false }

theorem Manager.unlock_eq {m : Manager} (h : m.isAppScheduling = false) : m.unlock = m := by
  cases m
  simp_all [Manager.unlock]

theorem leaveSavedData_eq (m : Manager) (msg : SliteAbilityInnerMsg) (left : AbilitySavedData) :
    leaveSavedData m msg left = m ∨ leaveSavedData m msg left =
      m.modify msg.token fun r => { r with abilitySavedData := r.abilitySavedData.map fun _ => left } := by
  unfold leaveSavedData
  split
  · exact .inr rfl
  · exact .inl rfl

/-- Answering a message takes it from the messages and adds it to the replies. -/
theorem mem_answered {sent : List SliteAbilityInnerMsg} {i : Nat} {msg x : SliteAbilityInnerMsg}
    (hmsg : sent[i]? = some msg) (hx : x ∈ sent) : x = msg ∨ x ∈ sent.eraseIdx i := by
  obtain ⟨j, hj⟩ := List.mem_iff_getElem?.mp hx
  by_cases hij : j = i
  · subst hij
    rw [hmsg, Option.some.injEq] at hj
    exact .inl hj.symm
  · exact .inr (List.mem_eraseIdx_iff_getElem?.mpr ⟨j, hij, hj⟩)

section
variable (ops : Operations)

theorem Operations.runOperationFuel_nil {fuel : Nat} {envs : Nat → Env} {m : Manager}
    (hq : m.abilityOperation = []) :
    ops.runOperationFuel (fuel + 1) envs m = (errOk, m.unlock) := by
  simp only [runOperationFuel, hq, Manager.unlock]

theorem Operations.runOperationFuel_cons {fuel : Nat} {envs : Nat → Env} {m : Manager}
    {o : AbilityOperation} {rest : List AbilityOperation} (hq : m.abilityOperation = o :: rest)
    (hlock : m.isAppScheduling = false) :
    ops.runOperationFuel (fuel + 1) envs m =
      let x := ops.dispatch (envs 0) { m with abilityOperation := rest } o
      if goesOn x then ops.runOperationFuel fuel (fun i => envs (i + 1)) x.2.unlock else x := by
  have hfree : ¬ m.isAppScheduling = true := by simp [hlock]
  simp only [runOperationFuel, hq]
  rw [if_neg hfree]
  generalize ops.dispatch (envs 0) { m with abilityOperation := rest } o = x
  by_cases hret : x.1 = errOk
  · cases hl : x.2.isAppScheduling with
    | false => simp [goesOn, hret, hl, Manager.unlock_eq]
    | true =>
      simp only [goesOn, hret, hl, ne_eq, not_true_eq_false, if_false, if_true, or_self,
        Bool.true_eq_false]
      exact Prod.ext hret.symm rfl
  · simp [goesOn, hret, Manager.unlock]

theorem AbilityOperation.weight_pos (o : AbilityOperation) : 0 < o.weight := by
  unfold weight
  split <;> omega

theorem length_le_queueWeight (q : List AbilityOperation) : q.length ≤ queueWeight q := by
  induction q with
  | nil => exact Nat.le_refl 0
  | cons o q ih =>
    have ho := o.weight_pos
    simp only [queueWeight, List.foldr_cons, List.length_cons] at ih ⊢
    omega

/-- `ok` holds of every operation a drain executes, in the state it finds. -/
def Operations.drainMeets (ok : Env → Manager → AbilityOperation → Prop) :
    Nat → (Nat → Env) → Manager → Prop
  | 0, _, _ => True
  | fuel + 1, envs, m =>
    match m.abilityOperation with
    | [] => True
    | o :: rest =>
      let x := ops.dispatch (envs 0) { m with abilityOperation := rest } o
      ok (envs 0) { m with abilityOperation := rest } o ∧
        (goesOn x → Operations.drainMeets ok fuel (fun i => envs (i + 1)) x.2.unlock)

/-- What an operation started from `m` has to leave: the queue as it was, and
`Idle` or `Busy` by whether the manager goes on. -/
def Settles (Idle Busy : Manager → Prop) (m : Manager) (x : ErrCode × Manager) : Prop :=
  x.2.abilityOperation = m.abilityOperation ∧
    (goesOn x → Idle x.2.unlock) ∧ (¬ goesOn x → Busy x.2)

/-- Free with nothing deferred, or locked and busy. -/
inductive Settled (Idle Busy : Manager → Prop) (m : Manager) : Prop
  | idle (hlock : m.isAppScheduling = false) (hqueue : m.abilityOperation = []) (h : Idle m)
  | busy (hlock : m.isAppScheduling = true) (hqueue : ∀ o ∈ m.abilityOperation, o.WellFormed)
      (h : Busy m)

theorem Settled.wellFormed {Idle Busy : Manager → Prop} {m : Manager} (h : Settled Idle Busy m) :
    ∀ o ∈ m.abilityOperation, o.WellFormed := by
  cases h with
  | idle _ hqueue _ => simp [hqueue]
  | busy _ hqueue _ => exact hqueue

variable {Idle Busy : Manager → Prop} {ok : Env → Manager → AbilityOperation → Prop}

/-- A drain whose operations settle leaves the manager settled. -/
theorem Operations.runOperationFuel_settled
    (hqueue : ∀ m q, Idle m → Idle { m with abilityOperation := q })
    (hop : ∀ env m o, Idle m → m.isAppScheduling = false → o.WellFormed → ok env m o →
      Settles Idle Busy m (ops.dispatch env m o))
    {fuel : Nat} {envs : Nat → Env} {m : Manager} (hidle : Idle m)
    (hlock : m.isAppScheduling = false) (hwf : ∀ o ∈ m.abilityOperation, o.WellFormed) (hfuel : m.abilityOperation.length < fuel)
    (hok : ops.drainMeets ok fuel envs m) :
    Settled Idle Busy (ops.runOperationFuel fuel envs m).2 := by
  induction fuel generalizing envs m with
  | zero => exact absurd hfuel (Nat.not_lt_zero _)
  | succ fuel ih =>
    cases hq : m.abilityOperation with
    | nil =>
      rw [ops.runOperationFuel_nil hq, Manager.unlock_eq hlock]
      exact .idle hlock hq hidle
    | cons o rest =>
      rw [ops.runOperationFuel_cons hq hlock]
      simp only [drainMeets, hq] at hok
      obtain ⟨hoko, hgo⟩ := hok
      rw [hq, List.forall_mem_cons] at hwf
      obtain ⟨hsame, hI, hB⟩ := hop (envs 0) _ o (hqueue m rest hidle) hlock hwf.1 hoko
      revert hgo hsame hI hB
      generalize ops.dispatch (envs 0) { m with abilityOperation := rest } o = x
      intro hgo hsame hI hB
      by_cases hx : goesOn x
      · simp only [hx, if_true]
        have hwf' : ∀ o ∈ x.2.unlock.abilityOperation, o.WellFormed := by
          rw [show x.2.unlock.abilityOperation = rest from hsame]
          exact hwf.2
        refine ih (hI hx) rfl hwf' ?_ (hgo hx)
        have hlen : x.2.unlock.abilityOperation.length = rest.length := congrArg List.length hsame
        simp only [hq, List.length_cons] at hfuel
        omega
      · simp only [hx, if_false]
        have hl : x.2.isAppScheduling = true := by
          simp only [goesOn, not_or, Bool.not_eq_false] at hx
          exact hx.2
        refine .busy hl ?_ (hB hx)
        rw [show x.2.abilityOperation = rest from hsame]
        exact hwf.2

end

/-! ## What is in flight -/

/-- The lifecycle messages and replies in flight, by the state they are about. -/
def inFlight (rs : List (UInt16 × SliteAbilityState)) (m : Manager) :
    List (UInt16 × SliteAbilityState) :=
  m.sent.map (fun msg => (msg.token, msg.msgId.requested)) ++ rs

/-- A message sent last is in flight. -/
theorem mem_inFlight_sent {rs : List (UInt16 × SliteAbilityState)} {m : Manager} {sent : List SliteAbilityInnerMsg}
    {msg : SliteAbilityInnerMsg} (h : m.sent = sent ++ [msg]) :
    (msg.token, msg.msgId.requested) ∈ inFlight rs m := by
  simp [inFlight, h]

/-! ## Whole runs -/

/-- A condition on the operations the manager executes and on the replies it
handles, in the state each of them finds. -/
structure Condition where
  operation : Env → Manager → AbilityOperation → Prop
  reply : Env → Manager → UInt16 → SliteAbilityState → Prop

section
variable (build : Build) (cond : Condition)

/-- The condition holds of every operation a step executes and of the reply it
handles. -/
def System.meets (s : System) : Event → Prop
  | .request request envs =>
    s.manager.isAppScheduling = false → ∀ o ∈ request.operation,
      let x := build.operations.dispatch (envs 0) (request.enter s.manager) o
      cond.operation (envs 0) (request.enter s.manager) o ∧
        (goesOn x → build.operations.drainMeets cond.operation
          (queueWeight x.2.abilityOperation + 1) (fun i => envs (i + 1)) x.2.unlock)
  | .answer _ _ => True
  | .reply envs => ∀ token state, s.replies.head? = some (token, state) →
      cond.reply (envs 0) s.manager token state ∧
        (state = .foreground →
          let m := build.onForegroundDone (envs 0) s.manager token
          build.operations.drainMeets cond.operation (queueWeight m.abilityOperation + 1)
            (fun i => envs (i + 1)) m.unlock)
  | .setCleanAbilityDataFlag _ => True

/-- What `Idle` and `Busy` mean for a build, given the replies that are queued, and
that its operations and replies lead from the one to the other. -/
structure Discipline where
  Idle : List (UInt16 × SliteAbilityState) → Manager → Prop
  Busy : List (UInt16 × SliteAbilityState) → Manager → Prop
  idle_queue : ∀ {rs m} q, Idle rs m → Idle rs { m with abilityOperation := q }
  idle_unlock : ∀ {rs m}, Idle rs m → Idle rs m.unlock
  idle_enter : ∀ {rs m} (r : Request), Idle rs m → Idle rs (r.enter m)
  busy_defer : ∀ {rs m} (r : Request) q, Busy rs m →
    Busy rs { r.enter m with abilityOperation := q }
  idle_flag : ∀ {rs m} b, Idle rs m → Idle rs { m with cleanAbilityDataFlag := b }
  busy_flag : ∀ {rs m} b, Busy rs m → Busy rs { m with cleanAbilityDataFlag := b }
  defers : build.operations.Defers
  operation : ∀ {rs} env m o, Idle rs m → m.isAppScheduling = false → o.WellFormed →
    cond.operation env m o →
    Settles (Idle rs) (Busy rs) m (build.operations.dispatch env m o)
  answer : ∀ {rs m i msg} left, m.sent[i]? = some msg → Settled (Idle rs) (Busy rs) m →
    let rs := rs ++ [(msg.token, msg.msgId.requested)]
    Settled (Idle rs) (Busy rs) { leaveSavedData m msg left with sent := m.sent.eraseIdx i }
  foreground : ∀ {rs} env m token, Settled (Idle ((token, .foreground) :: rs))
      (Busy ((token, .foreground) :: rs)) m → cond.reply env m token .foreground →
    Idle rs (build.onForegroundDone env m token) ∧
      (build.onForegroundDone env m token).abilityOperation = m.abilityOperation
  reply : ∀ {rs} envs m token state, state ≠ .foreground →
    Settled (Idle ((token, state) :: rs)) (Busy ((token, state) :: rs)) m →
    cond.reply (envs 0) m token state →
    Settled (Idle rs) (Busy rs) (schedulerLifecycleDone build envs m token state)

namespace Discipline
variable {build cond} (d : Discipline build cond)

theorem runOperation {rs : List (UInt16 × SliteAbilityState)} {envs : Nat → Env} {m : Manager}
    (hidle : d.Idle rs m) (hwf : ∀ o ∈ m.abilityOperation, o.WellFormed) (hok : build.operations.drainMeets cond.operation
      (queueWeight m.abilityOperation + 1) envs m.unlock) :
    Settled (d.Idle rs) (d.Busy rs) (build.operations.runOperation envs m.unlock).2 := by
  refine build.operations.runOperationFuel_settled (fun m q h => d.idle_queue q h)
    (fun env m o h hl hwf ho => d.operation env m o h hl hwf ho) (d.idle_unlock hidle) rfl hwf ?_ hok
  exact Nat.lt_succ_of_le (length_le_queueWeight _)

/-- A handled request leaves the manager settled. -/
theorem request {s : System} {r : Request} {envs : Nat → Env}
    (hs : Settled (d.Idle s.replies) (d.Busy s.replies) s.manager)
    (hok : s.meets build cond (.request r envs)) :
    Settled (d.Idle s.replies) (d.Busy s.replies)
      (serviceMessageHandle build envs s.manager r).2 := by
  unfold serviceMessageHandle
  cases hcall : r.call build (envs 0) s.manager with
  | none => exact hs
  | some x =>
    cases hs with
    | busy hlock hwf h =>
      obtain ⟨o, ho, rfl⟩ := Request.call_defers d.defers hlock hcall
      have hb := d.busy_defer r (s.manager.abilityOperation ++ [o]) h
      have hl : { r.enter s.manager with
          abilityOperation := s.manager.abilityOperation ++ [o] }.isAppScheduling = true := by
        rw [← hlock]
        unfold Request.enter
        split <;> rfl
      have hq : ∀ o' ∈ { r.enter s.manager with
          abilityOperation := s.manager.abilityOperation ++ [o] }.abilityOperation,
          o'.WellFormed := by
        intro o' ho'
        rcases List.mem_append.mp ho' with ho' | ho'
        · exact hwf o' ho'
        · exact List.mem_singleton.mp ho' ▸ ho
      revert hb hl hq
      generalize { r.enter s.manager with
        abilityOperation := s.manager.abilityOperation ++ [o] } = m
      intro hb hl hq
      simp only [ne_eq, not_true_eq_false, hl, Bool.true_eq_false, or_self, if_false]
      exact .busy hl hq hb
    | idle hlock hq h =>
      rw [Request.call_eq_dispatch, Option.map_eq_some_iff] at hcall
      obtain ⟨o, ho, rfl⟩ := hcall
      have henter : (r.enter s.manager).isAppScheduling = false ∧
          (r.enter s.manager).abilityOperation = [] := by
        unfold Request.enter
        split <;> exact ⟨hlock, hq⟩
      obtain ⟨hoko, hdrain⟩ := hok hlock o ho
      obtain ⟨hsame, hI, hB⟩ := d.operation (envs 0) _ o (d.idle_enter r h) henter.1
        (r.operation_wellFormed o ho) hoko
      rw [henter.2] at hsame
      revert hdrain hsame hI hB
      generalize build.operations.dispatch (envs 0) (r.enter s.manager) o = x
      intro hdrain hsame hI hB
      by_cases hx : goesOn x
      · have hx' := hx
        unfold goesOn at hx'
        simp only [hx', if_true]
        refine d.runOperation (m := x.2.unlock) (hI hx) ?_ (hdrain hx)
        simp [Manager.unlock, hsame]
      · have hx' := hx
        unfold goesOn at hx'
        simp only [hx', if_false]
        simp only [not_or, Bool.not_eq_false] at hx'
        exact .busy hx'.2 (by simp [hsame]) (hB hx)

/-- Every step leaves the manager settled. -/
theorem step {s s' : System} {e : Event}
    (hs : Settled (d.Idle s.replies) (d.Busy s.replies) s.manager)
    (hok : s.meets build cond e) (hnext : s.next build e = some s') :
    Settled (d.Idle s'.replies) (d.Busy s'.replies) s'.manager := by
  cases e with
  | request r envs =>
    simp only [System.next, Option.some.injEq] at hnext
    subst hnext
    exact d.request hs hok
  | answer i left =>
    simp only [System.next] at hnext
    cases hmsg : s.manager.sent[i]? with
    | none => simp [hmsg] at hnext
    | some msg =>
      simp only [hmsg] at hnext
      split at hnext
      · cases hnext
      · cases hnext
        exact d.answer left hmsg hs
  | reply envs =>
    simp only [System.next] at hnext
    cases hrs : s.replies with
    | nil => simp [hrs] at hnext
    | cons x rs =>
      obtain ⟨token, state⟩ := x
      simp only [hrs, Option.some.injEq] at hnext
      subst hnext
      obtain ⟨hreply, hdrain⟩ := hok token state (by rw [hrs]; rfl)
      rw [hrs] at hs
      by_cases hst : state = .foreground
      · subst hst
        obtain ⟨hidle, hq⟩ := d.foreground (envs 0) _ token hs hreply
        exact d.runOperation hidle (by rw [hq]; exact hs.wellFormed) (hdrain rfl)
      · exact d.reply envs _ token state hst hs hreply
  | setCleanAbilityDataFlag b =>
    simp only [System.next, Option.some.injEq] at hnext
    subst hnext
    cases hs with
    | idle hlock hq h => exact .idle hlock hq (d.idle_flag b h)
    | busy hlock hq h => exact .busy hlock hq (d.busy_flag b h)

/-- Every state reached by steps that meet the condition is settled. -/
theorem reached {init : System → Prop}
    (hinit : ∀ s, init s → Settled (d.Idle s.replies) (d.Busy s.replies) s.manager) {s : System}
    (h : Reached (System.next build) (fun s e => s.meets build cond e) init s) :
    Settled (d.Idle s.replies) (d.Busy s.replies) s.manager :=
  h.invariant hinit fun _ _ _ hs hok hnext => d.step hs hok hnext

end Discipline

end

/-- Nothing is stranded: when nothing is in flight the manager is free and has
nothing deferred. -/
def System.noneStranded (s : System) : Prop :=
  s.quiet → s.manager.isAppScheduling = false ∧ s.manager.abilityOperation = []

instance (s : System) : Decidable s.noneStranded := inferInstanceAs (Decidable (_ → _))

/-! ## Conditions that are evaluated -/

/-- A condition as it is evaluated where everything outside the manager works. -/
structure Check where
  operation : Manager → AbilityOperation → Bool
  reply : Manager → UInt16 → SliteAbilityState → Bool

/-- What passes the check meets the condition. -/
structure Check.Sound (check : Check) (cond : Condition) : Prop where
  operation : ∀ m o, check.operation m o = true → cond.operation .working m o
  reply : ∀ m token state, check.reply m token state = true → cond.reply .working m token state

/-- Everything outside the manager works in the step. -/
def Event.Works : Event → Prop
  | .request _ envs => envs = fun _ => .working
  | .reply envs => envs = fun _ => .working
  | .answer _ _ => True
  | .setCleanAbilityDataFlag _ => True

section
variable (build : Build) (check : Check)

/-- `drainMeets`, evaluated. -/
def Operations.drainPasses (ops : Operations) : Nat → Manager → Bool
  | 0, _ => true
  | fuel + 1, m =>
    match m.abilityOperation with
    | [] => true
    | o :: rest =>
      let x := ops.dispatch .working { m with abilityOperation := rest } o
      check.operation { m with abilityOperation := rest } o &&
        (!decide (goesOn x) || Operations.drainPasses ops fuel x.2.unlock)

/-- `meets`, evaluated. -/
def System.passes (s : System) : Event → Bool
  | .request request _ =>
    s.manager.isAppScheduling || request.operation.all fun o =>
      let x := build.operations.dispatch .working (request.enter s.manager) o
      check.operation (request.enter s.manager) o &&
        (!decide (goesOn x) || build.operations.drainPasses check
          (queueWeight x.2.abilityOperation + 1) x.2.unlock)
  | .reply _ =>
    s.replies.head?.all fun x =>
      check.reply s.manager x.1 x.2 &&
        (decide (x.2 ≠ .foreground) ||
          let m := build.onForegroundDone .working s.manager x.1
          build.operations.drainPasses check (queueWeight m.abilityOperation + 1) m.unlock)
  | .answer _ _ => true
  | .setCleanAbilityDataFlag _ => true

/-- The state a list of events leads to, if every step passes the check. -/
def System.runPasses (s : System) (es : List Event) : Option System :=
  runIf (System.next build) (System.passes build check) s es

variable {build check}

variable {cond : Condition} (hsound : check.Sound cond)
include hsound

theorem Check.Sound.drain {ops : Operations} {fuel : Nat} {m : Manager}
    (h : ops.drainPasses check fuel m = true) :
    ops.drainMeets cond.operation fuel (fun _ => .working) m := by
  induction fuel generalizing m with
  | zero => trivial
  | succ fuel ih =>
    cases hq : m.abilityOperation with
    | nil => simp only [Operations.drainMeets, hq]
    | cons o rest =>
      simp only [Operations.drainPasses, hq, Bool.and_eq_true, Bool.or_eq_true, Bool.not_eq_true',
        decide_eq_false_iff_not] at h
      simp only [Operations.drainMeets, hq]
      exact ⟨hsound.operation _ _ h.1, fun hx => ih (h.2.resolve_left fun hstops => hstops hx)⟩

theorem Check.Sound.meets {s : System} {e : Event} (hworks : e.Works)
    (h : s.passes build check e = true) : s.meets build cond e := by
  cases e with
  | request request envs =>
    obtain rfl : envs = fun _ => .working := hworks
    intro hlock o ho
    simp only [System.passes, hlock, Bool.false_or, Option.all_eq_true] at h
    have ho' := h o ho
    simp only [Bool.and_eq_true, Bool.or_eq_true, Bool.not_eq_true', decide_eq_false_iff_not] at ho'
    exact ⟨hsound.operation _ _ ho'.1,
      fun hx => hsound.drain (ho'.2.resolve_left fun hstops => hstops hx)⟩
  | reply envs =>
    obtain rfl : envs = fun _ => .working := hworks
    intro token state hhead
    simp only [System.passes, hhead, Option.all_some, Bool.and_eq_true, Bool.or_eq_true,
      decide_eq_true_eq] at h
    exact ⟨hsound.reply _ _ _ h.1, fun hst => hsound.drain (h.2.resolve_left fun hne => hne hst)⟩
  | answer i left => trivial
  | setCleanAbilityDataFlag flag => trivial

/-- A run that passes the check is a run whose steps meet the condition. -/
theorem Check.Sound.reached {init : System → Prop} {es : List Event} (hworks : ∀ e ∈ es, e.Works)
    {s s' : System} (hs : Reached (System.next build) (fun s e => s.meets build cond e) init s)
    (hrun : s.runPasses build check es = some s') :
    Reached (System.next build) (fun s e => s.meets build cond e) init s' :=
  hs.of_runIf (fun e he _ hpasses => hsound.meets (hworks e he) hpasses) hrun

end

end AbilityLite.Slite
