import AbilityLite.Slite.Scheduling

/-
  Invariants of the manager over whole runs, for either build.

  A `Discipline` says how the lock is given back; an invariant in general need not.
  `Keeps` asks of a predicate on the replies queued and the manager only that each
  operation executed and each reply handled keeps it, and `Keeps.reached` carries it
  to every state of a run. `Keeps.meets` turns what holds of the state an operation
  or a reply finds into a property of the steps themselves.
-/

namespace AbilityLite.Slite

/-- Every deferred operation is one that `RunOperation` can run. -/
def Manager.QueueWellFormed (m : Manager) : Prop := ∀ o ∈ m.abilityOperation, o.WellFormed

theorem wellFormed_of_queue {m m' : Manager} (h : m.QueueWellFormed)
    (hq : m'.abilityOperation = m.abilityOperation) : m'.QueueWellFormed := by
  show ∀ o ∈ m'.abilityOperation, o.WellFormed
  rw [hq]
  exact h

/-- What an operation started from `m` has to leave of an invariant: the manager goes on
with the lock given back, or stops where it is. -/
structure Leaves (Inv : Manager → Prop) (x : ErrCode × Manager) : Prop where
  queue : x.2.QueueWellFormed
  goesOn : goesOn x → Inv x.2.unlock
  stops : ¬ Slite.goesOn x → Inv x.2

/-- An invariant that every step keeps, when its operations and replies meet the
condition. -/
structure Keeps (build : Build) (cond : Condition)
    (Inv : List (UInt16 × SliteAbilityState) → Manager → Prop) : Prop where
  queue : ∀ {rs m} q, Inv rs m → Inv rs { m with abilityOperation := q }
  enter : ∀ {rs m} (r : Request), Inv rs m → Inv rs (r.enter m)
  flag : ∀ {rs m} b, Inv rs m → Inv rs { m with cleanAbilityDataFlag := b }
  defers : build.operations.Defers
  operation : ∀ {rs} env m o, Inv rs m → m.isAppScheduling = false → m.QueueWellFormed →
    o.WellFormed → cond.operation env m o → Leaves (Inv rs) (build.operations.dispatch env m o)
  answer : ∀ {rs m i msg} left, m.sent[i]? = some msg →
    (m.sent.take i).any (·.token = msg.token) = false → Inv rs m →
    Inv (rs ++ [(msg.token, msg.msgId.requested)])
      { leaveSavedData m msg left with sent := m.sent.eraseIdx i }
  foreground : ∀ {rs} env m token, Inv ((token, .foreground) :: rs) m → m.QueueWellFormed →
    cond.reply env m token .foreground →
    Inv rs (build.onForegroundDone env m token).unlock ∧
      (build.onForegroundDone env m token).QueueWellFormed
  reply : ∀ {rs} envs m token state, state ≠ .foreground → Inv ((token, state) :: rs) m →
    m.QueueWellFormed → cond.reply (envs 0) m token state →
    Inv rs (schedulerLifecycleDone build envs m token state) ∧
      (schedulerLifecycleDone build envs m token state).QueueWellFormed

namespace Keeps
variable {build : Build} {cond : Condition}
  {Inv : List (UInt16 × SliteAbilityState) → Manager → Prop} (k : Keeps build cond Inv)
  {rs : List (UInt16 × SliteAbilityState)}
include k

/-- A drain keeps the invariant, and what it says of the state each operation finds. -/
theorem drain {fuel : Nat} {envs : Nat → Env} {m : Manager} (hinv : Inv rs m)
    (hlock : m.isAppScheduling = false) (hwf : m.QueueWellFormed)
    (hok : build.operations.drainMeets cond.operation fuel envs m) :
    Inv rs (build.operations.runOperationFuel fuel envs m).2 ∧
      (build.operations.runOperationFuel fuel envs m).2.QueueWellFormed := by
  induction fuel generalizing envs m with
  | zero => exact ⟨hinv, hwf⟩
  | succ fuel ih =>
    cases hq : m.abilityOperation with
    | nil =>
      rw [Operations.runOperationFuel_nil _ hq, Manager.unlock_eq hlock]
      exact ⟨hinv, hwf⟩
    | cons o rest =>
      rw [Operations.runOperationFuel_cons _ hq hlock]
      simp only [Operations.drainMeets, hq] at hok
      have hwf' : o.WellFormed ∧ ∀ o ∈ rest, o.WellFormed := by
        rw [Manager.QueueWellFormed, hq] at hwf
        exact List.forall_mem_cons.mp hwf
      obtain ⟨hoko, hgo⟩ := hok
      obtain ⟨hqueue, hgoes, hstops⟩ :=
        k.operation (envs 0) _ o (k.queue rest hinv) hlock hwf'.2 hwf'.1 hoko
      revert hgo hqueue hgoes hstops
      generalize build.operations.dispatch (envs 0) { m with abilityOperation := rest } o = x
      intro hgo hqueue hgoes hstops
      by_cases hx : goesOn x
      · simp only [hx, if_true]
        exact ih (hgoes hx) rfl hqueue (hgo hx)
      · simp only [hx, if_false]
        exact ⟨hstops hx, hqueue⟩

theorem drainMeets {cond' : Condition} (hop : ∀ {rs} env m o, Inv rs m →
      m.isAppScheduling = false → o.WellFormed → cond.operation env m o → cond'.operation env m o)
    {fuel : Nat} {envs : Nat → Env} {m : Manager} (hinv : Inv rs m)
    (hlock : m.isAppScheduling = false) (hwf : m.QueueWellFormed)
    (hok : build.operations.drainMeets cond.operation fuel envs m) :
    build.operations.drainMeets cond'.operation fuel envs m := by
  induction fuel generalizing envs m with
  | zero => trivial
  | succ fuel ih =>
    cases hq : m.abilityOperation with
    | nil => simp only [Operations.drainMeets, hq]
    | cons o rest =>
      simp only [Operations.drainMeets, hq] at hok ⊢
      have hwf' : o.WellFormed ∧ ∀ o ∈ rest, o.WellFormed := by
        rw [Manager.QueueWellFormed, hq] at hwf
        exact List.forall_mem_cons.mp hwf
      have hinv' := k.queue rest hinv
      refine ⟨hop (envs 0) _ o hinv' hlock hwf'.1 hok.1, fun hx => ?_⟩
      have hl := k.operation (envs 0) _ o hinv' hlock hwf'.2 hwf'.1 hok.1
      exact ih (hl.goesOn hx) rfl hl.queue (hok.2 hx)

theorem request {s : System} {r : Request} {envs : Nat → Env} (hinv : Inv s.replies s.manager)
    (hwf : s.manager.QueueWellFormed) (hok : s.meets build cond (.request r envs)) :
    Inv s.replies (serviceMessageHandle build envs s.manager r).2 ∧
      (serviceMessageHandle build envs s.manager r).2.QueueWellFormed := by
  unfold serviceMessageHandle
  cases hcall : r.call build (envs 0) s.manager with
  | none => exact ⟨hinv, hwf⟩
  | some x =>
    cases hlock : s.manager.isAppScheduling with
    | true =>
      -- the request is deferred and nothing else happens
      obtain ⟨o, ho, rfl⟩ := Request.call_defers k.defers hlock hcall
      have hinv' := k.queue (s.manager.abilityOperation ++ [o]) (k.enter r hinv)
      have hl : { r.enter s.manager with
          abilityOperation := s.manager.abilityOperation ++ [o] }.isAppScheduling = true := by
        rw [← hlock]
        unfold Request.enter
        split <;> rfl
      have hq : { r.enter s.manager with
          abilityOperation := s.manager.abilityOperation ++ [o] }.QueueWellFormed := by
        intro o' ho'
        rcases List.mem_append.mp ho' with ho' | ho'
        · exact hwf o' ho'
        · exact List.mem_singleton.mp ho' ▸ ho
      revert hinv' hl hq
      generalize { r.enter s.manager with
        abilityOperation := s.manager.abilityOperation ++ [o] } = m
      intro hinv' hl hq
      simp only [ne_eq, not_true_eq_false, hl, Bool.true_eq_false, or_self, if_false]
      exact ⟨hinv', hq⟩
    | false =>
      rw [Request.call_eq_dispatch, Option.map_eq_some_iff] at hcall
      obtain ⟨o, ho, rfl⟩ := hcall
      have henter : (r.enter s.manager).isAppScheduling = false ∧
          (r.enter s.manager).QueueWellFormed := by
        unfold Request.enter
        split <;> exact ⟨hlock, hwf⟩
      obtain ⟨hoko, hdrain⟩ := hok hlock o ho
      obtain ⟨hqueue, hgoes, hstops⟩ := k.operation (envs 0) _ o (k.enter r hinv) henter.1
        henter.2 (r.operation_wellFormed o ho) hoko
      revert hdrain hqueue hgoes hstops
      generalize build.operations.dispatch (envs 0) (r.enter s.manager) o = x
      intro hdrain hqueue hgoes hstops
      by_cases hx : goesOn x
      · have hx' := hx
        unfold goesOn at hx'
        simp only [hx', if_true]
        exact k.drain (hgoes hx) rfl hqueue (hdrain hx)
      · have hx' := hx
        unfold goesOn at hx'
        simp only [hx', if_false]
        exact ⟨hstops hx, hqueue⟩

/-- Every step keeps the invariant. -/
theorem step {s s' : System} {e : Event}
    (hs : Inv s.replies s.manager ∧ s.manager.QueueWellFormed) (hok : s.meets build cond e)
    (hnext : s.next build e = some s') :
    Inv s'.replies s'.manager ∧ s'.manager.QueueWellFormed := by
  obtain ⟨hinv, hwf⟩ := hs
  cases e with
  | request r envs =>
    simp only [System.next, Option.some.injEq] at hnext
    subst hnext
    exact k.request hinv hwf hok
  | answer i left =>
    simp only [System.next] at hnext
    cases hmsg : s.manager.sent[i]? with
    | none => simp [hmsg] at hnext
    | some msg =>
      simp only [hmsg] at hnext
      split at hnext
      · cases hnext
      · next hfirst =>
        cases hnext
        refine ⟨k.answer left hmsg (by simpa using hfirst) hinv, ?_⟩
        rcases leaveSavedData_eq s.manager msg left with heq | heq
        · rw [heq]
          exact hwf
        · rw [heq]
          exact hwf
  | reply envs =>
    simp only [System.next] at hnext
    cases hrs : s.replies with
    | nil => simp [hrs] at hnext
    | cons x rs =>
      obtain ⟨token, state⟩ := x
      simp only [hrs, Option.some.injEq] at hnext
      subst hnext
      obtain ⟨hreply, hdrain⟩ := hok token state (by rw [hrs]; rfl)
      rw [hrs] at hinv
      by_cases hst : state = .foreground
      · subst hst
        obtain ⟨hinv', hwf'⟩ := k.foreground (envs 0) _ token hinv hwf hreply
        exact k.drain hinv' rfl hwf' (hdrain rfl)
      · exact k.reply envs _ token state hst hinv hwf hreply
  | setCleanAbilityDataFlag b =>
    simp only [System.next, Option.some.injEq] at hnext
    subst hnext
    exact ⟨k.flag b hinv, hwf⟩

/-- Every state reached by steps that meet the condition has the invariant. -/
theorem reached {init : System → Prop}
    (hinit : ∀ s, init s → Inv s.replies s.manager ∧ s.manager.QueueWellFormed) {s : System}
    (h : Reached (System.next build) (fun s e => s.meets build cond e) init s) :
    Inv s.replies s.manager ∧ s.manager.QueueWellFormed :=
  h.invariant hinit fun _ _ _ hs hok hnext => k.step hs hok hnext

/-- What follows from the invariant where an operation is executed or a reply handled is
met by every step. -/
theorem meets {cond' : Condition} (hop : ∀ {rs} env m o, Inv rs m →
      m.isAppScheduling = false → o.WellFormed → cond.operation env m o → cond'.operation env m o)
    (hreply : ∀ {rs} env m token state, Inv ((token, state) :: rs) m →
      cond.reply env m token state → cond'.reply env m token state)
    {s : System} (hs : Inv s.replies s.manager ∧ s.manager.QueueWellFormed) {e : Event}
    (hok : s.meets build cond e) : s.meets build cond' e := by
  obtain ⟨hinv, hwf⟩ := hs
  cases e with
  | request r envs =>
    intro hlock o ho
    obtain ⟨hoko, hdrain⟩ := hok hlock o ho
    have henter : (r.enter s.manager).isAppScheduling = false ∧
        (r.enter s.manager).QueueWellFormed := by
      unfold Request.enter
      split <;> exact ⟨hlock, hwf⟩
    have hwfo := r.operation_wellFormed o ho
    have hl := k.operation (envs 0) _ o (k.enter r hinv) henter.1 henter.2 hwfo hoko
    refine ⟨hop (envs 0) _ o (k.enter r hinv) henter.1 hwfo hoko, fun hx => ?_⟩
    exact k.drainMeets hop (hl.goesOn hx) rfl hl.queue (hdrain hx)
  | answer i left => trivial
  | reply envs =>
    intro token state hhead
    obtain ⟨hr, hdrain⟩ := hok token state hhead
    obtain ⟨rs, hrs⟩ := List.head?_eq_some_iff.mp hhead
    rw [hrs] at hinv
    refine ⟨hreply (envs 0) _ token state hinv hr, fun hst => ?_⟩
    subst hst
    obtain ⟨hinv', hwf'⟩ := k.foreground (envs 0) _ token hinv hwf hr
    exact k.drainMeets hop hinv' rfl hwf' (hdrain rfl)
  | setCleanAbilityDataFlag b => trivial

end Keeps

/-- While the manager is free to execute the next request nothing is in flight. -/
def System.noOverlap (s : System) : Prop := s.manager.isAppScheduling = false → s.quiet

instance (s : System) : Decidable s.noOverlap := inferInstanceAs (Decidable (_ → _))

end AbilityLite.Slite
