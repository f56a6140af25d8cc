import AbilityLite.App.SliceNavigation
import AbilityLite.Mailbox

/-
  The process of an application, task by task: the threads that post to its event
  handler, the thread that runs the tasks, its abilities and their slices.

  `AbilityThread` is this process with its queue and its slices left out; the last
  section says in what sense it still tells what the process reports.

  What the code does not check: `Run` waits once on an empty queue and pops whatever
  the queue holds when the wait is over (`if`, not `while`, around
  `pthread_cond_wait`). A wait is taken to end only when a task has been pushed; after
  a spurious wakeup the source reads the front of an empty queue.

  Correspondence (C++ ↔ Lean):
    `AbilityEventHandler::PostTask`              ↔ `Mailbox.Event.check`, `Mailbox.Event.push`
    `AbilityEventHandler::Run`                   ↔ `Mailbox.Event.take`
    `AbilityEventHandler::PostQuit`              ↔ `Task.quit`
    the tasks of `AbilityScheduler`              ↔ `Task.transaction`
    `AbilityThread::PerformTransactAbilityState` ↔ `AppThread.performTransactAbilityState`
    `AbilityThread::StartAbilityCallback`        ↔ `AppThread.startAbilityCallback`
    `AbilityThread::PerformAppExit`              ↔ `Task.exit`
    what a slice calls in a UI task              ↔ `Task.present`, `Task.terminate`
-/

namespace AbilityLite.App

open AbilityLite.Ams

/-! ## The thread of the tasks -/

/-- What the code outside answers while a transaction is performed: what the loaders have, what
`OnConnect` returns and the slice made for the main route. -/
structure Outside where
  env : Env
  sid : SvcIdentity
  loaded : Option Nat

/-- `stopRunning` and `quit` are what `PerformAppExit` posts. -/
inductive Task where
  | transaction (outside : Outside) (m : Transaction)
  | present (token : Token) (caller target : Nat)
  | terminate (token : Token) (slice : Nat)
  | stopRunning
  | quit

/-- `exited` is the end of the process by `exit(-1)`; `replies` and `started` are what it has told
AMS and who started its abilities. -/
structure AppThread where
  abilities : Store Token PageAbility := .empty
  isNativeApp : Bool := true
  isAppRunning : Bool := true
  quit : Bool := false
  exited : Bool := false
  replies : List Reply := []
  started : List (SvcIdentity × ElementName) := []

namespace AppThread

/-- The thread without its queue and its slices. -/
def view (th : AppThread) : AbilityThread where
  abilities := fun t => (th.abilities t).map (·.abilityState)
  isNativeApp := th.isNativeApp
  isAppRunning := th.isAppRunning

def report (th : AppThread) (r : Reply) : AppThread := { th with replies := th.replies ++ [r] }

/-- `Ability::Init`; only a page of a native application has slices. -/
def newAbility (th : AppThread) (abilityType : AbilityType) : PageAbility :=
  { abilitySliceManager := th.isNativeApp && abilityType = .page }

def startAbilityCallback (th : AppThread) (want : Want) : AppThread :=
  match want.sid, want.element with
  | some sid, some element => { th with started := th.started ++ [(sid, element)] }
  | _, _ => th

/-- The ability of a token, made if the process does not have it. -/
def findAbility (th : AppThread) (env : Env) (want : Want) (token : Token)
    (abilityType : AbilityType) : Option PageAbility :=
  match th.abilities token with
  | some a => some a
  | none =>
    match want.element with
    | none => none
    | some e =>
      if env.loads (if th.isNativeApp then e.abilityName else some aceAbilityName) then
        some (th.newAbility abilityType)
      else none

/-- What `PerformTransactAbilityState` does once the ability is in its new state. -/
def settle (th : AppThread) (want : Want) (token : Token) (a : PageAbility) : AppThread :=
  let th := th.report (.lifecycleDone ⟨token, a.abilityState⟩)
  let th := if a.abilityState = .active then th.startAbilityCallback want else th
  if a.abilityState = .initial then { th with abilities := th.abilities.erase token }
  else { th with abilities := th.abilities.insert token a }

/-- `none` is the end of the process. -/
def performTransactAbilityState (th : AppThread) (o : Outside) (want : Want)
    (state : TransactionState) (abilityType : AbilityType) : Option AppThread :=
  match th.findAbility o.env want state.token abilityType with
  | none => some (th.report (.lifecycleDone ⟨state.token, .initial⟩))
  | some a =>
    (if a.abilityState ≠ state.state then
      run PageAbility.next a (PageAbility.lifecycleEvents o.loaded a.abilityState state.state)
    else some a).map (th.settle want state.token)

/-- A slice of an ability calls `Present` or `Terminate`. -/
def navigate (th : AppThread) (token : Token) (e : PageAbility.Event) : AppThread :=
  match (th.abilities token).bind (·.next e) with
  | none => th
  | some a => { th with abilities := th.abilities.insert token a }

/-- A task, with what it posts. -/
def handle (th : AppThread) : Task → AppThread × List Task
  | .transaction _ (.appInit info) =>
    ({ th with isNativeApp := (th.view.performAppInit info).isNativeApp }, [])
  | .transaction _ .appExit => (th, [.stopRunning, .quit])
  | .transaction o (.lifecycle state want abilityType) =>
    match th.performTransactAbilityState o want state abilityType with
    | none => ({ th with exited := true }, [])
    | some th => (th, [])
  | .transaction o (.connect _ token) =>
    match th.abilities token with
    | none => (th, [])
    | some _ => (th.report (.connectDone o.sid token), [])
  | .transaction _ (.disconnect _ token) =>
    match th.abilities token with
    | none => (th, [])
    | some _ => (th.report (.disconnectDone token), [])
  | .present token caller target => (th.navigate token (.present caller target), [])
  | .terminate token slice => (th.navigate token (.terminate slice), [])
  | .stopRunning => ({ th with isAppRunning := false }, [])
  | .quit => ({ th with quit := true }, [])

end AppThread

/-- The event handler of the process and its thread. -/
def taskQueue : Worker AppThread Task where
  capacity := 10240
  runs th := !th.quit && !th.exited
  handle := AppThread.handle

/-- The process, `ι` naming the threads that post to it. -/
abbrev Process (ι : Type) := Mailbox ι AppThread Task

/-! ## Abilities are moved along their lifecycle -/

/-- A state an ability of the process rests in between two tasks. -/
def resting (st : State) : Bool :=
  match st with
  | .inactive | .active | .background => true
  | .uninitialized | .initial => false

/-- Where an ability in state `st` ends up when it is asked for `target`: there, but one in the
background stays in the background when it is asked to be inactive. -/
def settledState (st target : State) : State :=
  match target with
  | .initial => .initial
  | .active => .active
  | .background => .background
  | .inactive | .uninitialized => if st = .background then .background else .inactive

theorem settledState_rests (st target : State) :
    settledState st target = .initial ∨ resting (settledState st target) = true := by
  cases target with
  | initial => exact .inl rfl
  | active | background => exact .inr rfl
  | inactive | uninitialized =>
    by_cases hst : st = .background
    · exact .inr (by rw [settledState, if_pos hst]; rfl)
    · exact .inr (by rw [settledState, if_neg hst]; rfl)

theorem settledState_self {st : State} (hst : st = .initial ∨ resting st = true) :
    settledState st st = st := by
  cases st with
  | uninitialized => cases hst with
    | inl h => cases h
    | inr h => cases h
  | initial | inactive | active | background => rfl

/-- From the states abilities rest in, no lifecycle transaction ends the process. -/
theorem handleLifecycleTransaction_ok {st : State} (target : State)
    (hst : st = .initial ∨ resting st = true) (hne : st ≠ target) :
    handleLifecycleTransaction st target = some (settledState st target) := by
  have hcases : st = .initial ∨ st = .inactive ∨ st = .active ∨ st = .background := by
    cases st <;> simp_all [resting]
  rcases hcases with rfl | rfl | rfl | rfl <;> cases target <;>
    first
    | exact absurd rfl hne
    | simp [handleLifecycleTransaction, Ability.onStart, Ability.onInactive, Ability.onActive,
        Ability.onBackground, Ability.onStop, settledState]

/-- A new ability: none of its slices has been started. -/
def Created (a : PageAbility) : Prop := ∃ manager, a = { abilitySliceManager := manager }

theorem Created.sound {a : PageAbility} (h : Created a) : PageAbility.Sound a := by
  obtain ⟨manager, rfl⟩ := h
  exact ⟨PageAbility.Sound.fresh.known, fun _ => rfl⟩

/-- What callbacks and calls of slices make of a new ability. -/
abbrev LivedAbility : PageAbility → Prop := Reached PageAbility.next (fun _ _ => True) Created

theorem LivedAbility.sound {a : PageAbility} (h : LivedAbility a) : PageAbility.Sound a :=
  h.invariant (fun _ hnew => hnew.sound) fun _ _ _ hs _ hnext => hs.next hnext

/-- The process runs, and its abilities are ones their callbacks and slices have made, at rest. -/
structure Alive (th : AppThread) : Prop where
  exited : th.exited = false
  lived : ∀ t a, th.abilities t = some a → LivedAbility a
  rests : ∀ t a, th.abilities t = some a → resting a.abilityState = true

theorem Alive.fresh : Alive {} :=
  ⟨rfl, fun _ _ h => (by cases h), fun _ _ h => (by cases h)⟩

/-- Only `abilities` and `exited` matter. -/
theorem Alive.congr {th th' : AppThread} (h : Alive th) (hexited : th'.exited = th.exited)
    (habilities : th'.abilities = th.abilities) : Alive th' :=
  ⟨hexited.trans h.exited, fun t a ha => h.lived t a (habilities ▸ ha),
    fun t a ha => h.rests t a (habilities ▸ ha)⟩

theorem Alive.insert {th : AppThread} (h : Alive th) (t : Token) {a : PageAbility}
    (hlived : LivedAbility a) (hrests : resting a.abilityState = true) :
    Alive { th with abilities := th.abilities.insert t a } := by
  refine ⟨h.exited, fun t' b hb => ?_, fun t' b hb => ?_⟩
  · obtain ⟨_, rfl⟩ | ⟨_, hb⟩ := Store.insert_cases hb
    · exact hlived
    · exact h.lived t' b hb
  · obtain ⟨_, rfl⟩ | ⟨_, hb⟩ := Store.insert_cases hb
    · exact hrests
    · exact h.rests t' b hb

theorem Alive.erase {th : AppThread} (h : Alive th) (t : Token) :
    Alive { th with abilities := th.abilities.erase t } :=
  ⟨h.exited, fun t' b hb => h.lived t' b (Store.erase_cases hb).2,
    fun t' b hb => h.rests t' b (Store.erase_cases hb).2⟩

section
variable {th : AppThread} {want : Want} {token : Token} {a : PageAbility} {abilityType : AbilityType}

theorem startAbilityCallback_abilities : (th.startAbilityCallback want).abilities = th.abilities := by
  unfold AppThread.startAbilityCallback
  split <;> rfl

theorem startAbilityCallback_exited : (th.startAbilityCallback want).exited = th.exited := by
  unfold AppThread.startAbilityCallback
  split <;> rfl

theorem startAbilityCallback_replies : (th.startAbilityCallback want).replies = th.replies := by
  unfold AppThread.startAbilityCallback
  split <;> rfl

theorem startAbilityCallback_isNativeApp :
    (th.startAbilityCallback want).isNativeApp = th.isNativeApp := by
  unfold AppThread.startAbilityCallback
  split <;> rfl

theorem startAbilityCallback_quit : (th.startAbilityCallback want).quit = th.quit := by
  unfold AppThread.startAbilityCallback
  split <;> rfl

theorem settle_replies : (th.settle want token a).replies =
    th.replies ++ [.lifecycleDone ⟨token, a.abilityState⟩] := by
  unfold AppThread.settle
  split <;> split <;> simp only [startAbilityCallback_replies, AppThread.report]

theorem settle_isNativeApp : (th.settle want token a).isNativeApp = th.isNativeApp := by
  unfold AppThread.settle
  split <;> split <;> simp only [startAbilityCallback_isNativeApp, AppThread.report]

theorem settle_quit : (th.settle want token a).quit = th.quit := by
  unfold AppThread.settle
  split <;> split <;> simp only [startAbilityCallback_quit, AppThread.report]

theorem settle_abilities : (th.settle want token a).abilities =
    if a.abilityState = .initial then th.abilities.erase token else th.abilities.insert token a := by
  unfold AppThread.settle
  split <;> split <;> simp only [startAbilityCallback_abilities, AppThread.report]

theorem Alive.settle (h : Alive th) (hlived : LivedAbility a)
    (hstate : a.abilityState = .initial ∨ resting a.abilityState = true) :
    Alive (th.settle want token a) := by
  have hexited : (th.settle want token a).exited = th.exited := by
    unfold AppThread.settle
    split <;> split <;> simp only [startAbilityCallback_exited, AppThread.report]
  by_cases hinitial : a.abilityState = .initial
  · refine (h.erase token).congr hexited ?_
    rw [settle_abilities, if_pos hinitial]
  · refine (h.insert token hlived (hstate.resolve_left hinitial)).congr hexited ?_
    rw [settle_abilities, if_neg hinitial]

/-- The ability a transaction is for is at rest or new. -/
theorem Alive.findAbility (h : Alive th) {env : Env}
    (ha : th.findAbility env want token abilityType = some a) :
    LivedAbility a ∧ (a.abilityState = .initial ∨ resting a.abilityState = true) := by
  unfold AppThread.findAbility at ha
  split at ha
  · next b hb =>
    cases ha
    exact ⟨h.lived token a hb, .inr (h.rests token a hb)⟩
  · split at ha
    · cases ha
    · next e _ =>
      by_cases hloads : env.loads (if th.isNativeApp then e.abilityName else some aceAbilityName)
      · rw [if_pos hloads] at ha
        cases ha
        exact ⟨.init ⟨_, rfl⟩, .inl rfl⟩
      · rw [if_neg hloads] at ha
        cases ha

/-- A lifecycle transaction moves an ability by its callbacks, and never to the end of the
process. -/
theorem lifecycle_moves (o : Outside) (target : State) (hlived : LivedAbility a)
    (hstate : a.abilityState = .initial ∨ resting a.abilityState = true) :
    ∃ b, (if a.abilityState ≠ target then
        run PageAbility.next a (PageAbility.lifecycleEvents o.loaded a.abilityState target)
      else some a) = some b ∧ LivedAbility b ∧
      b.abilityState = settledState a.abilityState target := by
  by_cases hne : a.abilityState ≠ target
  · have hst := handleLifecycleTransaction_ok target hstate hne
    rw [← PageAbility.lifecycle_run a o.loaded target, Option.map_eq_some_iff] at hst
    obtain ⟨b, hb, hsettled⟩ := hst
    rw [if_pos hne]
    exact ⟨b, hb, hlived.of_run _ hb, hsettled⟩
  · rw [if_neg hne]
    rw [not_not] at hne
    subst hne
    exact ⟨a, rfl, hlived, (settledState_self hstate).symm⟩

end
/-- A slice that presents another one or terminates does not move its ability. -/
def Navigates (e : PageAbility.Event) : Prop :=
  match e with
  | .present _ _ | .terminate _ => True
  | _ => False

theorem checkLegalForRemove_abilityState (a : PageAbility) (slice : Nat) :
    (a.checkLegalForRemove slice).2.abilityState = a.abilityState := by
  unfold PageAbility.checkLegalForRemove
  repeat' split
  all_goals rfl

theorem Navigates.abilityState {a b : PageAbility} {e : PageAbility.Event} (he : Navigates e)
    (h : a.next e = some b) : b.abilityState = a.abilityState := by
  cases e with
  | start | inactive | active | background | stop => exact he.elim
  | present caller target =>
    simp only [PageAbility.next] at h
    split at h
    · cases h
      unfold PageAbility.present PageAbility.addAbilitySlice
      repeat' split
      all_goals rfl
    · cases h
  | terminate slice =>
    simp only [PageAbility.next] at h
    split at h
    · cases h
      have hcheck := checkLegalForRemove_abilityState a slice
      unfold PageAbility.terminate PageAbility.removeAbilitySlice
      split
      · split
        · rfl
        · split <;> (next heq => rw [heq] at hcheck; exact hcheck)
      · rfl
    · cases h

theorem Alive.navigate {th : AppThread} (h : Alive th) (token : Token) {e : PageAbility.Event}
    (he : Navigates e) : Alive (th.navigate token e) := by
  unfold AppThread.navigate
  cases hb : (th.abilities token).bind (·.next e) with
  | none => exact h
  | some b =>
    obtain ⟨a, ha, hnext⟩ := Option.bind_eq_some_iff.mp hb
    refine h.insert token ((h.lived token a ha).step trivial hnext) ?_
    rw [he.abilityState hnext]
    exact h.rests token a ha

/-- No task ends the process, and each leaves its abilities at rest. -/
theorem Alive.handle {th : AppThread} (h : Alive th) (task : Task) : Alive (th.handle task).1 := by
  cases task with
  | transaction o m =>
    cases m with
    | appInit info => exact h.congr rfl rfl
    | appExit => exact h
    | lifecycle state want abilityType =>
      simp only [AppThread.handle, AppThread.performTransactAbilityState]
      cases ha : th.findAbility o.env want state.token abilityType with
      | none => exact h.congr rfl rfl
      | some a =>
        obtain ⟨hlived, hstate⟩ := h.findAbility ha
        obtain ⟨b, hb, hlived, hsettled⟩ := lifecycle_moves o state.state hlived hstate
        simp only [hb, Option.map_some]
        exact h.settle hlived (hsettled ▸ settledState_rests _ _)
    | connect want token =>
      simp only [AppThread.handle]
      split
      · exact h
      · exact h.congr rfl rfl
    | disconnect want token =>
      simp only [AppThread.handle]
      split
      · exact h
      · exact h.congr rfl rfl
  | present token caller target => exact h.navigate token trivial
  | terminate token slice => exact h.navigate token trivial
  | stopRunning => exact h.congr rfl rfl
  | quit => exact h.congr rfl rfl

theorem Alive.handleAll {th : AppThread} (h : Alive th) (l : List Task) :
    Alive (Mailbox.handleAll taskQueue th l) := by
  induction l generalizing th with
  | nil => exact h
  | cons task l ih => exact ih (h.handle task)

/-! ## What a task makes the process report -/

/-- What a process that runs `th` reports on a task. A lifecycle transaction is answered once, for
its ability; a request to connect or to disconnect is answered if the process has the service. -/
inductive Reports (th : AppThread) : Task → List Reply → Prop
  | settled (o : Outside) (state : TransactionState) (want : Want) (abilityType : AbilityType)
      (a : PageAbility) (hfound : th.findAbility o.env want state.token abilityType = some a) :
      Reports th (.transaction o (.lifecycle state want abilityType))
        [.lifecycleDone ⟨state.token, settledState a.abilityState state.state⟩]
  | missing (o : Outside) (state : TransactionState) (want : Want) (abilityType : AbilityType)
      (hmissing : th.findAbility o.env want state.token abilityType = none) :
      Reports th (.transaction o (.lifecycle state want abilityType))
        [.lifecycleDone ⟨state.token, .initial⟩]
  | connect (o : Outside) (want : Want) (token : Token) :
      Reports th (.transaction o (.connect want token))
        (if (th.abilities token).isSome then [.connectDone o.sid token] else [])
  | disconnect (o : Outside) (want : Want) (token : Token) :
      Reports th (.transaction o (.disconnect want token))
        (if (th.abilities token).isSome then [.disconnectDone token] else [])
  | appInit (o : Outside) (info : BundleInfo) : Reports th (.transaction o (.appInit info)) []
  | appExit (o : Outside) : Reports th (.transaction o .appExit) []
  | present (token : Token) (caller target : Nat) : Reports th (.present token caller target) []
  | terminate (token : Token) (slice : Nat) : Reports th (.terminate token slice) []
  | stopRunning : Reports th .stopRunning []
  | quit : Reports th .quit []

/-- What the thread reports on some tasks, each in the state the ones before it leave. -/
inductive Told : AppThread → List Task → List (List Reply) → Prop
  | nil (th : AppThread) : Told th [] []
  | cons {th : AppThread} {task : Task} {tasks : List Task} {rs : List Reply} {rss : List (List Reply)}
      (hreports : Reports th task rs) (hrest : Told (th.handle task).1 tasks rss) :
      Told th (task :: tasks) (rs :: rss)

theorem navigate_replies (th : AppThread) (token : Token) (e : PageAbility.Event) :
    (th.navigate token e).replies = th.replies := by
  unfold AppThread.navigate
  split <;> rfl

theorem navigate_isNativeApp (th : AppThread) (token : Token) (e : PageAbility.Event) :
    (th.navigate token e).isNativeApp = th.isNativeApp := by
  unfold AppThread.navigate
  split <;> rfl

/-- The replies of one task. -/
theorem Alive.reports {th : AppThread} (h : Alive th) (task : Task) :
    ∃ rs, (th.handle task).1.replies = th.replies ++ rs ∧ Reports th task rs := by
  have hnothing : ∀ task, (th.handle task).1.replies = th.replies → Reports th task [] →
      ∃ rs, (th.handle task).1.replies = th.replies ++ rs ∧ Reports th task rs :=
    fun task hsame hreports => ⟨[], by rw [hsame, List.append_nil], hreports⟩
  cases task with
  | transaction o m =>
    cases m with
    | appInit info => exact hnothing _ rfl (.appInit o info)
    | appExit => exact hnothing _ rfl (.appExit o)
    | lifecycle state want abilityType =>
      simp only [AppThread.handle, AppThread.performTransactAbilityState]
      cases ha : th.findAbility o.env want state.token abilityType with
      | none => exact ⟨_, rfl, .missing o state want abilityType ha⟩
      | some a =>
        obtain ⟨hlived, hstate⟩ := h.findAbility ha
        obtain ⟨b, hb, _, hsettled⟩ := lifecycle_moves o state.state hlived hstate
        simp only [hb, Option.map_some]
        refine ⟨_, settle_replies, ?_⟩
        rw [hsettled]
        exact .settled o state want abilityType a ha
    | connect want token =>
      refine ⟨_, ?_, .connect o want token⟩
      simp only [AppThread.handle]
      cases th.abilities token with
      | none => exact (List.append_nil _).symm
      | some a => rfl
    | disconnect want token =>
      refine ⟨_, ?_, .disconnect o want token⟩
      simp only [AppThread.handle]
      cases th.abilities token with
      | none => exact (List.append_nil _).symm
      | some a => rfl
  | present token caller target =>
    exact hnothing _ (navigate_replies th token _) (.present token caller target)
  | terminate token slice => exact hnothing _ (navigate_replies th token _) (.terminate token slice)
  | stopRunning => exact hnothing _ rfl .stopRunning
  | quit => exact hnothing _ rfl .quit

/-- The replies of some tasks, one after the other. -/
theorem Alive.told {th : AppThread} (h : Alive th) (tasks : List Task) :
    ∃ rss, (Mailbox.handleAll taskQueue th tasks).replies = th.replies ++ rss.flatten ∧
      Told th tasks rss := by
  induction tasks generalizing th with
  | nil => exact ⟨[], (List.append_nil _).symm, .nil th⟩
  | cons task tasks ih =>
    obtain ⟨rs, hrs, hreports⟩ := h.reports task
    obtain ⟨rss, hrss, htold⟩ := ih (h.handle task)
    refine ⟨rs :: rss, ?_, .cons hreports htold⟩
    rw [List.flatten_cons, ← List.append_assoc, ← hrs]
    exact hrss

/-! ## The process without its queue and its slices -/

/-- `AbilityThread` on one more transaction, with all it reports. -/
def performNext (x : AbilityThread × List Reply) : Task → AbilityThread × List Reply
  | .transaction o m => ((x.1.perform o.env o.sid m).1, x.2 ++ (x.1.perform o.env o.sid m).2)
  | _ => x

/-- The thread has the abilities of an `AbilityThread` and has reported the same. -/
structure Agrees (th : AppThread) (x : AbilityThread × List Reply) : Prop where
  abilities : x.1.abilities = th.view.abilities
  isNativeApp : x.1.isNativeApp = th.isNativeApp
  replies : x.2 = th.replies

theorem view_apply (th : AppThread) (t : Token) :
    th.view.abilities t = (th.abilities t).map (·.abilityState) := rfl

theorem view_insert (th : AppThread) (token : Token) (a : PageAbility) :
    ({ th with abilities := th.abilities.insert token a } : AppThread).view.abilities =
      th.view.abilities.insert token a.abilityState := by
  funext t
  rw [view_apply]
  dsimp only
  by_cases ht : t = token
  · subst ht
    rw [Store.insert_same, Store.insert_same, Option.map_some]
  · rw [Store.insert_ne _ _ ht, Store.insert_ne _ _ ht, view_apply]

theorem view_erase (th : AppThread) (token : Token) :
    ({ th with abilities := th.abilities.erase token } : AppThread).view.abilities =
      th.view.abilities.erase token := by
  funext t
  rw [view_apply]
  dsimp only
  by_cases ht : t = token
  · subst ht
    rw [Store.erase_same, Store.erase_same, Option.map_none]
  · rw [Store.erase_ne _ ht, Store.erase_ne _ ht, view_apply]

theorem view_settle (th : AppThread) (want : Want) (token : Token) (a : PageAbility) :
    (th.settle want token a).view.abilities =
      if a.abilityState = .initial then th.view.abilities.erase token
      else th.view.abilities.insert token a.abilityState := by
  have hview : ∀ th th' : AppThread, th.abilities = th'.abilities →
      th.view.abilities = th'.view.abilities :=
    fun _ _ h => funext fun t => by rw [view_apply, view_apply, h]
  have habilities : (th.settle want token a).abilities =
      if a.abilityState = .initial then th.abilities.erase token else th.abilities.insert token a :=
    settle_abilities
  split at habilities
  · rw [if_pos ‹_›, ← view_erase]
    exact hview _ _ habilities
  · rw [if_neg ‹_›, ← view_insert]
    exact hview _ _ habilities

/-- What `AbilityThread` does for the ability that the process finds or makes. -/
theorem performTransactAbilityState_view {th : AppThread} {ath : AbilityThread}
    (habilities : ath.abilities = th.view.abilities) (hnative : ath.isNativeApp = th.isNativeApp)
    (env : Env) (want : Want) (state : TransactionState) (abilityType : AbilityType) :
    ath.performTransactAbilityState env want state =
      match th.findAbility env want state.token abilityType with
      | none => some (ath, .lifecycleDone ⟨state.token, .initial⟩)
      | some a =>
        (if a.abilityState ≠ state.state then
          handleLifecycleTransaction a.abilityState state.state
        else some a.abilityState).map fun st =>
          ({ ath with abilities :=
              if st = .initial then ath.abilities.erase state.token
              else ath.abilities.insert state.token st }, .lifecycleDone ⟨state.token, st⟩) := by
  have hknown : ath.abilities state.token = (th.abilities state.token).map (·.abilityState) := by
    rw [habilities, view_apply]
  have hmap : ∀ {β : Type} (x : Option State) (f : State → β),
      (x.bind fun st => some (f st)) = x.map f := fun x f => by cases x <;> rfl
  unfold AbilityThread.performTransactAbilityState AppThread.findAbility
  rw [hknown, hnative]
  cases th.abilities state.token with
  | some a =>
    dsimp only [Option.map_some]
    split <;> exact hmap _ _
  | none =>
    cases want.element with
    | none => rfl
    | some e =>
      dsimp only [Option.map_none]
      by_cases hloads : env.loads (if th.isNativeApp then e.abilityName else some aceAbilityName)
      · rw [if_pos hloads, if_pos hloads]
        dsimp only [AppThread.newAbility]
        split <;> exact hmap _ _
      · rw [if_neg hloads, if_neg hloads]

theorem navigate_view {th : AppThread} (token : Token) {e : PageAbility.Event} (he : Navigates e) :
    (th.navigate token e).view.abilities = th.view.abilities := by
  unfold AppThread.navigate
  cases hb : (th.abilities token).bind (·.next e) with
  | none => rfl
  | some b =>
    obtain ⟨a, ha, hnext⟩ := Option.bind_eq_some_iff.mp hb
    rw [view_insert, he.abilityState hnext]
    funext t
    by_cases ht : t = token
    · subst ht
      rw [Store.insert_same, view_apply, ha, Option.map_some]
    · rw [Store.insert_ne _ _ ht]

theorem Agrees.congr {th th' : AppThread} {x : AbilityThread × List Reply} (h : Agrees th x)
    (habilities : th'.view.abilities = th.view.abilities) (hnative : th'.isNativeApp = th.isNativeApp)
    (hreplies : th'.replies = th.replies) : Agrees th' x :=
  ⟨h.abilities.trans habilities.symm, h.isNativeApp.trans hnative.symm,
    h.replies.trans hreplies.symm⟩

/-- A lifecycle transaction is performed alike. -/
theorem Agrees.lifecycle {th : AppThread} {x : AbilityThread × List Reply} (h : Agrees th x)
    (halive : Alive th) (o : Outside) (state : TransactionState) (want : Want)
    (abilityType : AbilityType) :
    Agrees (th.handle (.transaction o (.lifecycle state want abilityType))).1
      (performNext x (.transaction o (.lifecycle state want abilityType))) := by
  have hview :=
    performTransactAbilityState_view h.abilities h.isNativeApp o.env want state abilityType
  simp only [AppThread.handle, AppThread.performTransactAbilityState, performNext,
    AbilityThread.perform, hview]
  cases ha : th.findAbility o.env want state.token abilityType with
  | none => exact ⟨h.abilities, h.isNativeApp, congrArg (· ++ _) h.replies⟩
  | some a =>
    obtain ⟨hlived, hstate⟩ := halive.findAbility ha
    obtain ⟨b, hb, _, _⟩ := lifecycle_moves o state.state hlived hstate
    have hmoved : (if a.abilityState ≠ state.state then
          handleLifecycleTransaction a.abilityState state.state
        else some a.abilityState) = some b.abilityState := by
      split at hb
      · next hne =>
        rw [if_pos hne, ← PageAbility.lifecycle_run a o.loaded, hb, Option.map_some]
      · next heq =>
        cases hb
        rw [if_neg heq]
    simp only [hb, hmoved, Option.map_some]
    refine ⟨?_, ?_, ?_⟩
    · rw [view_settle, h.abilities]
    · rw [settle_isNativeApp]
      exact h.isNativeApp
    · rw [settle_replies, h.replies]

theorem performAppInit_abilities (th : AbilityThread) (info : BundleInfo) :
    (th.performAppInit info).abilities = th.abilities := by
  unfold AbilityThread.performAppInit
  split
  · rfl
  · split <;> rfl

theorem performAppInit_isNativeApp {th th' : AbilityThread} (info : BundleInfo)
    (h : th.isNativeApp = th'.isNativeApp) :
    (th.performAppInit info).isNativeApp = (th'.performAppInit info).isNativeApp := by
  unfold AbilityThread.performAppInit
  split
  · exact h
  · split
    · exact h
    · rfl

theorem Agrees.handle {th : AppThread} {x : AbilityThread × List Reply} (h : Agrees th x)
    (halive : Alive th) (task : Task) : Agrees (th.handle task).1 (performNext x task) := by
  cases task with
  | transaction o m =>
    cases m with
    | appInit info =>
      refine ⟨?_, performAppInit_isNativeApp info h.isNativeApp, ?_⟩
      · rw [show (performNext x (.transaction o (.appInit info))).1 = x.1.performAppInit info from rfl,
          performAppInit_abilities]
        exact h.abilities
      · exact (List.append_nil _).trans h.replies
    | appExit => exact ⟨h.abilities, h.isNativeApp, (List.append_nil _).trans h.replies⟩
    | lifecycle state want abilityType => exact h.lifecycle halive o state want abilityType
    | connect want token =>
      have hknown : x.1.abilities token = (th.abilities token).map (·.abilityState) := by
        rw [h.abilities, view_apply]
      simp only [AppThread.handle, performNext, AbilityThread.perform, hknown]
      cases th.abilities token with
      | none => exact ⟨h.abilities, h.isNativeApp, (List.append_nil _).trans h.replies⟩
      | some a => exact ⟨h.abilities, h.isNativeApp, congrArg (· ++ _) h.replies⟩
    | disconnect want token =>
      have hknown : x.1.abilities token = (th.abilities token).map (·.abilityState) := by
        rw [h.abilities, view_apply]
      simp only [AppThread.handle, performNext, AbilityThread.perform, hknown]
      cases th.abilities token with
      | none => exact ⟨h.abilities, h.isNativeApp, (List.append_nil _).trans h.replies⟩
      | some a => exact ⟨h.abilities, h.isNativeApp, congrArg (· ++ _) h.replies⟩
  | present token caller target =>
    exact h.congr (navigate_view token trivial) (navigate_isNativeApp th token _)
      (navigate_replies th token _)
  | terminate token slice =>
    exact h.congr (navigate_view token trivial) (navigate_isNativeApp th token _)
      (navigate_replies th token _)
  | stopRunning => exact h.congr rfl rfl rfl
  | quit => exact h.congr rfl rfl rfl

theorem Agrees.handleAll {th : AppThread} {x : AbilityThread × List Reply} (h : Agrees th x)
    (halive : Alive th) (tasks : List Task) :
    Agrees (Mailbox.handleAll taskQueue th tasks) (tasks.foldl performNext x) := by
  induction tasks generalizing th x with
  | nil => exact h
  | cons task tasks ih => exact ih (h.handle halive task) (halive.handle task)

/-! ## The end of the process -/

/-- The tasks other threads post. -/
def Posted (task : Task) : Prop := task ≠ .stopRunning ∧ task ≠ .quit

theorem performTransactAbilityState_quit {th th' : AppThread} {o : Outside} {want : Want}
    {state : TransactionState} {abilityType : AbilityType}
    (h : th.performTransactAbilityState o want state abilityType = some th') : th'.quit = th.quit := by
  unfold AppThread.performTransactAbilityState at h
  split at h
  · cases h
    rfl
  · obtain ⟨a, _, rfl⟩ := Option.map_eq_some_iff.mp h
    exact settle_quit

theorem handle_quit (th : AppThread) (task : Task) :
    (th.handle task).1.quit = true ↔ th.quit = true ∨ task = .quit := by
  have hsame : ∀ th' : AppThread, th'.quit = th.quit → task ≠ .quit →
      (th'.quit = true ↔ th.quit = true ∨ task = .quit) := by
    intro th' hquit hne
    rw [hquit]
    exact ⟨.inl, fun h => h.resolve_right hne⟩
  cases task with
  | transaction o m =>
    cases m with
    | appInit info => exact hsame _ rfl (by simp)
    | appExit => exact hsame _ rfl (by simp)
    | lifecycle state want abilityType =>
      simp only [AppThread.handle]
      split
      · exact hsame _ rfl (by simp)
      · next h => exact hsame _ (performTransactAbilityState_quit h) (by simp)
    | connect want token =>
      simp only [AppThread.handle]
      split <;> exact hsame _ rfl (by simp)
    | disconnect want token =>
      simp only [AppThread.handle]
      split <;> exact hsame _ rfl (by simp)
  | present token caller target =>
    refine hsame _ ?_ (by simp)
    simp only [AppThread.handle, AppThread.navigate]
    split <;> rfl
  | terminate token slice =>
    refine hsame _ ?_ (by simp)
    simp only [AppThread.handle, AppThread.navigate]
    split <;> rfl
  | stopRunning => exact hsame _ rfl (by simp)
  | quit => exact ⟨fun _ => .inr rfl, fun _ => rfl⟩

theorem handleAll_quit (th : AppThread) (tasks : List Task) :
    (Mailbox.handleAll taskQueue th tasks).quit = true ↔ th.quit = true ∨ Task.quit ∈ tasks := by
  induction tasks generalizing th with
  | nil => simp [Mailbox.handleAll]
  | cons task tasks ih =>
    show (Mailbox.handleAll taskQueue (th.handle task).1 tasks).quit = true ↔ _
    rw [ih, handle_quit, List.mem_cons, or_assoc, eq_comm (a := task)]

/-- Only a request to exit makes the thread post the end. -/
theorem handle_posts_quit {th : AppThread} {task : Task} (h : Task.quit ∈ (th.handle task).2) :
    ∃ o, task = .transaction o .appExit := by
  cases task with
  | transaction o m =>
    cases m with
    | appExit => exact ⟨o, rfl⟩
    | appInit info => cases h
    | lifecycle state want abilityType =>
      simp only [AppThread.handle] at h
      split at h <;> cases h
    | connect want token =>
      simp only [AppThread.handle] at h
      split at h <;> cases h
    | disconnect want token =>
      simp only [AppThread.handle] at h
      split at h <;> cases h
  | present | terminate | stopRunning | quit => cases h

/-! ## Runs of the process -/

section
variable {ι : Type} [DecidableEq ι] {ok : Process ι → Mailbox.Event ι Task → Prop}
  {l : List (Mailbox.Entry Task)} {p : Process ι}

/-- Whatever is posted and however the tasks interleave, the process never ends by a callback in a
state it does not expect; between two tasks each of its abilities is started, and among the slices
of one only the slice on top is active. -/
theorem abilities_lived (h : Mailbox.Runs taskQueue ok { state := {} } l p) :
    p.state.exited = false ∧ ∀ t a, p.state.abilities t = some a →
      LivedAbility a ∧ a.scheduler.Known ∧ resting a.abilityState = true := by
  have halive : Alive p.state := by
    rw [(Mailbox.run_in_order h).2]
    exact Alive.fresh.handleAll _
  exact ⟨halive.exited, fun t a ha =>
    ⟨halive.lived t a ha, (halive.lived t a ha).sound.known, halive.rests t a ha⟩⟩

/-- The process reports, in the order it took them, on the tasks that were pushed first, and on
each by what it had when it took it. -/
theorem replies_in_order (h : Mailbox.Runs taskQueue ok { state := {} } l p) :
    Mailbox.pushed l = Mailbox.taken l ++ p.queue ∧
    ∃ rss, p.state.replies = rss.flatten ∧ Told {} (Mailbox.taken l) rss := by
  obtain ⟨hqueue, hstate⟩ := Mailbox.run_in_order h
  obtain ⟨rss, hrss, htold⟩ := Alive.fresh.told (Mailbox.taken l)
  exact ⟨hqueue, rss, hstate ▸ hrss, htold⟩

/-- The process has reported what `AbilityThread` reports on the transactions taken, and its
abilities are in the states they have there. -/
theorem refines_abilityThread (h : Mailbox.Runs taskQueue ok { state := {} } l p) :
    Agrees p.state ((Mailbox.taken l).foldl performNext ({}, [])) := by
  rw [(Mailbox.run_in_order h).2]
  exact Agrees.handleAll ⟨rfl, rfl, rfl⟩ .fresh _

/-- When the process quits it has been asked to exit, and what it has taken is the quit and all that
was pushed before it. -/
theorem quits_when_asked (hposted : ∀ p t a, ok p (.check t a) → Posted a)
    (h : Mailbox.Runs taskQueue ok { state := {} } l p) (hquit : p.state.quit = true) :
    ∃ front o, Mailbox.pushed l = front ++ .quit :: p.queue ∧
      Mailbox.taken l = front ++ [.quit] ∧ Task.quit ∉ front ∧ .transaction o .appExit ∈ front := by
  have htaken : Task.quit ∈ Mailbox.taken l := by
    rw [(Mailbox.run_in_order h).2, handleAll_quit] at hquit
    exact hquit.resolve_left (by simp)
  obtain ⟨front, back, hsplit, hfront⟩ := List.eq_append_cons_of_mem htaken
  -- nothing follows the first task that quits
  have hback : back = [] := by
    cases back with
    | nil => rfl
    | cons task back =>
      have hruns := Mailbox.run_runs h (front ++ [.quit]) task back (by simpa using hsplit)
      have hstopped : (Mailbox.handleAll taskQueue {} (front ++ [.quit])).quit = true := by
        rw [handleAll_quit]
        exact .inr (by simp)
      have hgoes : ∀ th, taskQueue.runs th = true → th.quit = false := by
        intro th hth
        simp only [taskQueue, Bool.and_eq_true, Bool.not_eq_true'] at hth
        exact hth.1
      rw [hgoes _ hruns] at hstopped
      cases hstopped
  obtain ⟨task, htask, th, hth⟩ :=
    (Mailbox.run_origin hposted rfl h .quit (.inl htaken)).resolve_left fun h => h.2 rfl
  obtain ⟨o, rfl⟩ := handle_posts_quit hth
  subst hback
  refine ⟨front, o, ?_, hsplit, hfront, ?_⟩
  · calc Mailbox.pushed l = Mailbox.taken l ++ p.queue := (Mailbox.run_in_order h).1
      _ = front ++ .quit :: p.queue := by rw [hsplit, List.append_assoc, List.singleton_append]
  · rw [hsplit] at htask
    simpa using htask

/-- With `n` other threads posting, the queue holds at most `n` tasks more than its capacity. -/
theorem queue_bounded (threads : List ι)
    (hthreads : ∀ p e, ok p e → ∀ t, e.thread = some (some t) → t ∈ threads)
    (h : Mailbox.Runs taskQueue ok { state := {} } l p) : p.queue.length ≤ 10240 + threads.length := by
  have hknown : ∀ p e, ok p e → ∀ t, e.thread = some t → t ∈ none :: threads.map some := by
    intro p e he t ht
    cases t with
    | none => exact List.mem_cons_self
    | some t => exact List.mem_cons_of_mem _ (List.mem_map_of_mem (hthreads p e he t ht))
  have hfits : Mailbox.Fits taskQueue (none :: threads.map some) { state := {} } := by
    refine ⟨List.nodup_nil, fun c hc => (by cases hc), ?_⟩
    show 0 + 0 < 10240 + (threads.map some).length.succ
    omega
  have hlt := Mailbox.run_length_lt hknown hfits h
  simp only [taskQueue, List.length_cons, List.length_map] at hlt
  omega

end

/-! ### A process with one page that comes up and is asked to exit -/

/-- Everything outside the process works. -/
def homeEnv : Env where
  queryBundleInfo _ := none
  queryAbilityInfo _ := none
  bundleNameForUid _ := none
  spawn _ := none
  serializes _ := true
  sends _ _ := true
  notifies _ _ := true
  addDeathRecipient _ := true
  loadPermissions _ := none
  loads _ := true

def homeWant : Want := { element := some { bundleName := some (cstr "h"), abilityName := some (cstr "h") } }

/-- Another thread posts a task AMS asked for. -/
def postTransaction (m : Transaction) : List (Mailbox.Event Unit Task) :=
  [.check () (.transaction ⟨homeEnv, ⟨0, 0⟩, some 1⟩ m), .push (some ())]

def comeUp : List (Mailbox.Event Unit Task) :=
  postTransaction (.lifecycle ⟨7, .active⟩ homeWant .page) ++ [.take]

def askedToExit : List (Mailbox.Event Unit Task) :=
  comeUp ++ postTransaction .appExit ++
    [.take, .checkOwn, .push none, .checkOwn, .push none, .take, .take]

/-- The page goes to the background, is asked there to be inactive, and is connected to; so is an
ability the process does not have, and another one is asked for without a name. -/
def toldApart : List (Mailbox.Event Unit Task) :=
  comeUp ++ postTransaction (.lifecycle ⟨7, .background⟩ homeWant .page) ++
    postTransaction (.lifecycle ⟨7, .inactive⟩ homeWant .page) ++
    postTransaction (.connect homeWant 7) ++ postTransaction (.connect homeWant 8) ++
    postTransaction (.lifecycle ⟨9, .active⟩ {} .page) ++ [.take, .take, .take, .take, .take]

/-- What the runs below post. -/
def HomePosts (_ : Process Unit) (e : Mailbox.Event Unit Task) : Prop :=
  ∀ t a, e = .check t a → Posted a

def postsTransactions (e : Mailbox.Event Unit Task) : Bool :=
  match e with
  | .check _ (.transaction _ _) => true
  | .check _ _ => false
  | .checkOwn | .push _ | .take => true

theorem homePosts_of_transactions {e : Mailbox.Event Unit Task} (he : postsTransactions e = true)
    (p : Process Unit) : HomePosts p e := by
  rintro t a rfl
  cases a with
  | transaction o m => exact ⟨fun h => (by cases h), fun h => (by cases h)⟩
  | present | terminate | stopRunning | quit => cases he

theorem home_run (es : List (Mailbox.Event Unit Task)) (hes : es.all postsTransactions = true)
    {α : Type} {f : List (Mailbox.Entry Task) × Process Unit → α} {x : α}
    (h : (Logs.logRun (Mailbox.next taskQueue) (fun m e _ => Mailbox.entries taskQueue m e)
      { state := {} } es).map f = some x) :
    ∃ l p, Mailbox.Runs taskQueue HomePosts { state := {} } l p ∧ f (l, p) = x := by
  obtain ⟨⟨l, p⟩, hrun, hx⟩ := Option.map_eq_some_iff.mp h
  have hok : ∀ e ∈ es, ∀ p, HomePosts p e := fun e he =>
    homePosts_of_transactions (List.all_eq_true.mp hes e he)
  exact ⟨l, p, Logs.of_logRun hok hrun, hx⟩

theorem abilities_lived_home :
    ∃ p : Process Unit, (p.state.abilities 7).isSome = true ∧
      p.state.exited = false ∧ ∀ t a, p.state.abilities t = some a →
        LivedAbility a ∧ a.scheduler.Known ∧ resting a.abilityState = true := by
  obtain ⟨l, p, hrun, hup⟩ := home_run comeUp rfl
    (f := fun x => (x.2.state.abilities 7).isSome) (x := true) rfl
  exact ⟨p, hup, abilities_lived hrun⟩

theorem replies_in_order_home :
    ∃ (l : List (Mailbox.Entry Task)) (p : Process Unit),
      p.state.replies = [.lifecycleDone ⟨7, .active⟩, .lifecycleDone ⟨7, .background⟩,
        .lifecycleDone ⟨7, .background⟩, .connectDone ⟨0, 0⟩ 7, .lifecycleDone ⟨9, .initial⟩] ∧
      Mailbox.pushed l = Mailbox.taken l ++ p.queue ∧
      ∃ rss, p.state.replies = rss.flatten ∧ Told {} (Mailbox.taken l) rss := by
  obtain ⟨l, p, hrun, htold⟩ := home_run toldApart rfl
    (f := fun x => x.2.state.replies)
    (x := [.lifecycleDone ⟨7, .active⟩, .lifecycleDone ⟨7, .background⟩,
      .lifecycleDone ⟨7, .background⟩, .connectDone ⟨0, 0⟩ 7, .lifecycleDone ⟨9, .initial⟩]) rfl
  exact ⟨l, p, htold, replies_in_order hrun⟩

theorem refines_abilityThread_home :
    ∃ (l : List (Mailbox.Entry Task)) (p : Process Unit), p.state.replies = [.lifecycleDone ⟨7, .active⟩] ∧
      Agrees p.state ((Mailbox.taken l).foldl performNext ({}, [])) := by
  obtain ⟨l, p, hrun, hup⟩ := home_run comeUp rfl
    (f := fun x => x.2.state.replies) (x := [.lifecycleDone ⟨7, .active⟩]) rfl
  exact ⟨l, p, hup, refines_abilityThread hrun⟩

theorem quits_when_asked_home :
    ∃ (l : List (Mailbox.Entry Task)) (p : Process Unit), p.state.quit = true ∧
      ∃ front o, Mailbox.pushed l = front ++ .quit :: p.queue ∧
        Mailbox.taken l = front ++ [.quit] ∧ Task.quit ∉ front ∧
        .transaction o .appExit ∈ front := by
  obtain ⟨l, p, hrun, hquit⟩ := home_run askedToExit rfl
    (f := fun x => x.2.state.quit) (x := true) rfl
  exact ⟨l, p, hquit, quits_when_asked (fun p t a h => h t a rfl) hrun hquit⟩

theorem queue_bounded_home :
    ∃ p : Process Unit, p.state.quit = true ∧ p.queue.length ≤ 10240 + [()].length := by
  obtain ⟨l, p, hrun, hquit⟩ := home_run askedToExit rfl
    (f := fun x => x.2.state.quit) (x := true) rfl
  exact ⟨p, hquit, queue_bounded [()] (fun _ _ _ _ _ => List.mem_cons_self) hrun⟩

end AbilityLite.App
