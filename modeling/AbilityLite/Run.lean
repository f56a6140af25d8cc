/-
  Runs of a deterministic transition system.

  A system is a partial step function on states: `next s e = none` when the event
  `e` cannot happen in `s`. `Reached` is what a run can reach when each of its
  steps meets a condition; an invariant that each such step keeps holds there.
  `runIf` evaluates a run whose steps pass a check of the condition.
  `Logs` keeps what the steps of a run put out.
-/

namespace AbilityLite

universe u v w

variable {σ : Type u} {ε : Type v} {α : Type w} (next : σ → ε → Option σ)

/-- The state a list of events leads to. -/
def run : σ → List ε → Option σ
  | s, [] => some s
  | s, e :: es => (next s e).bind fun s => run s es

@[simp] theorem run_nil (s : σ) : run next s [] = some s := rfl

theorem run_cons {s s' : σ} {e : ε} (es : List ε) (h : next s e = some s') :
    run next s (e :: es) = run next s' es := by
  simp only [run, h, Option.bind_some]

theorem run_append {s s' : σ} {es : List ε} (es' : List ε) (h : run next s es = some s') :
    run next s (es ++ es') = run next s' es' := by
  induction es generalizing s with
  | nil =>
    simp only [run_nil, Option.some.injEq] at h
    rw [h, List.nil_append]
  | cons e es ih =>
    simp only [run, Option.bind_eq_some_iff] at h
    obtain ⟨s₁, h₁, h⟩ := h
    rw [List.cons_append, run_cons next _ h₁, ih h]

/-- The state a list of events leads to, if each passes the check in the state it finds. -/
def runIf (check : σ → ε → Bool) : σ → List ε → Option σ
  | s, [] => some s
  | s, e :: es => if check s e then (next s e).bind fun s => runIf check s es else none

theorem runIf_cons {check : σ → ε → Bool} {s s' : σ} {e : ε} {es : List ε}
    (h : runIf next check s (e :: es) = some s') :
    check s e = true ∧ ∃ s₁, next s e = some s₁ ∧ runIf next check s₁ es = some s' := by
  rw [runIf] at h
  split at h
  · next hcheck => exact ⟨hcheck, Option.bind_eq_some_iff.mp h⟩
  · cases h

theorem run_of_runIf {check : σ → ε → Bool} {s s' : σ} {es : List ε}
    (h : runIf next check s es = some s') : run next s es = some s' := by
  induction es generalizing s with
  | nil => exact h
  | cons e es ih =>
    obtain ⟨-, s₁, hnext, h⟩ := runIf_cons next h
    rw [run_cons next es hnext, ih h]

/-- The states reached from `init` by steps that meet `ok`. -/
inductive Reached (ok : σ → ε → Prop) (init : σ → Prop) : σ → Prop
  | init {s : σ} (h : init s) : Reached ok init s
  | step {s s' : σ} {e : ε} (h : Reached ok init s) (hok : ok s e) (hnext : next s e = some s') :
      Reached ok init s'

namespace Reached

variable {next} {ok ok' : σ → ε → Prop} {init : σ → Prop} {inv : σ → Prop}

/-- What the initial states have and each step keeps, every reached state has. -/
theorem invariant (hinit : ∀ s, init s → inv s)
    (hstep : ∀ s e s', inv s → ok s e → next s e = some s' → inv s') {s : σ}
    (h : Reached next ok init s) : inv s := by
  induction h with
  | init h => exact hinit _ h
  | step _ hok hnext ih => exact hstep _ _ _ ih hok hnext

theorem mono (himp : ∀ s e, ok s e → ok' s e) {s : σ} (h : Reached next ok init s) :
    Reached next ok' init s := by
  induction h with
  | init h => exact .init h
  | step _ hok hnext ih => exact .step ih (himp _ _ hok) hnext

/-- A run by events that meet the condition wherever they happen. -/
theorem steps {s s' : σ} (hs : Reached next ok init s) (es : List ε) (hok : ∀ e ∈ es, ∀ s, ok s e)
    (h : run next s es = some s') : Reached next ok init s' := by
  induction es generalizing s with
  | nil =>
    simp only [run_nil, Option.some.injEq] at h
    exact h ▸ hs
  | cons e es ih =>
    simp only [run, Option.bind_eq_some_iff] at h
    obtain ⟨s₁, h₁, h⟩ := h
    exact ih (hs.step (hok e List.mem_cons_self s) h₁) (fun e he => hok e (List.mem_cons_of_mem _ he)) h

/-- A run that need meet no condition. -/
theorem of_run {s s' : σ} (hs : Reached next (fun _ _ => True) init s) (es : List ε)
    (h : run next s es = some s') : Reached next (fun _ _ => True) init s' :=
  hs.steps es (fun _ _ _ => trivial) h

/-- A run whose events pass a check of the condition. -/
theorem of_runIf {check : σ → ε → Bool} {s s' : σ} (hs : Reached next ok init s) {es : List ε}
    (hok : ∀ e ∈ es, ∀ s, check s e = true → ok s e) (h : runIf next check s es = some s') :
    Reached next ok init s' := by
  induction es generalizing s with
  | nil => exact Option.some.inj h ▸ hs
  | cons e es ih =>
    obtain ⟨hcheck, s₁, hnext, h⟩ := runIf_cons next h
    exact ih (hs.step (hok e List.mem_cons_self s hcheck) hnext)
      (fun e he => hok e (List.mem_cons_of_mem _ he)) h

end Reached

/-- A run by steps that meet `ok`, with what its steps put out, in order. -/
inductive Logs (ok : σ → ε → Prop) (out : σ → ε → σ → List α) (s : σ) : List α → σ → Prop
  | init : Logs ok out s [] s
  | step {s' s'' : σ} {e : ε} {l : List α} (h : Logs ok out s l s') (hok : ok s' e)
      (hnext : next s' e = some s'') : Logs ok out s (l ++ out s' e s'') s''

namespace Logs

variable {next} {ok : σ → ε → Prop} {out : σ → ε → σ → List α}

/-- What holds of the first state and each step carries on, with what it puts out. -/
theorem invariant (inv : List α → σ → Prop) {s s' : σ} {l : List α} (hinit : inv [] s)
    (hstep : ∀ l s' e s'', inv l s' → ok s' e → next s' e = some s'' → inv (l ++ out s' e s'') s'')
    (h : Logs next ok out s l s') : inv l s' := by
  induction h with
  | init => exact hinit
  | step _ hok hnext ih => exact hstep _ _ _ _ ih hok hnext

/-- The state a list of events leads to, with what the steps put out. -/
def logRun (next : σ → ε → Option σ) (out : σ → ε → σ → List α) (s : σ) : List ε → Option (List α × σ)
  | [] => some ([], s)
  | e :: es => (next s e).bind fun s' => (logRun next out s' es).map fun (l, s'') => (out s e s' ++ l, s'')

/-- What comes out of the first step comes before what comes out of the rest. -/
theorem cons {out : σ → ε → σ → List α} {s s' s'' : σ} {e : ε} {l : List α} (hok : ok s e)
    (hnext : next s e = some s') (h : Logs next ok out s' l s'') :
    Logs next ok out s (out s e s' ++ l) s'' := by
  induction h with
  | init =>
    have hinit : Logs next ok out s [] s := .init
    have hone : Logs next ok out s ([] ++ out s e s') s' := hinit.step hok hnext
    rwa [List.append_nil]
  | step _ hok' hnext' ih =>
    rw [← List.append_assoc]
    exact ih.step hok' hnext'

theorem of_logRun {out : σ → ε → σ → List α} {s s' : σ} {es : List ε} {l : List α}
    (hok : ∀ e ∈ es, ∀ s, ok s e) (h : logRun next out s es = some (l, s')) :
    Logs next ok out s l s' := by
  induction es generalizing s l with
  | nil =>
    cases h
    exact .init
  | cons e es ih =>
    obtain ⟨s₁, h₁, h⟩ := Option.bind_eq_some_iff.mp h
    obtain ⟨⟨l', s₂⟩, h₂, heq⟩ := Option.map_eq_some_iff.mp h
    cases heq
    exact (ih (fun e he => hok e (List.mem_cons_of_mem _ he)) h₂).cons
      (hok e List.mem_cons_self s) h₁

end Logs
end AbilityLite
