import AbilityLite.Ams.AbilityThread
import AbilityLite.Run

/-
  The slices of a page ability: `AbilitySliceScheduler` moves the slice on top and the
  slices of its stack through their states as the ability itself is moved, and when a
  slice presents another one or terminates.

  A slice is named by an identity (the address of the object). The callbacks are those
  of the base class, which only set `sliceState_`; each call is recorded with the state
  it found the slice in.

  What is proved:
    1. `lifecycle_run`: a lifecycle transaction of `AbilityThread` is a run of the
       ability's callbacks here.
    2. `slices_consistent`: as long as no slice that lies in the stack is presented,
       the slices on top and in the stack are distinct and in the states they should
       be in; and the first such `Present` that is let through breaks this.

  Correspondence (C++ ↔ Lean):
    `AbilitySlice`                                  ↔ `AbilitySlice`, `Slices.invoke`
    `AbilitySliceStack`                             ↔ `Slices.abilitySliceStack` (front first)
    `AbilitySliceScheduler::HandleStartAbilitySlice` … `HandleStopAbilitySlice`
                                                    ↔ `Slices.handleStartAbilitySlice` …
    `CheckLegalForAdd`, `CheckLegalForRemove`       ↔ `checkLegalForAdd`, `checkLegalForRemove`
    `AddAbilitySlice`, `RemoveAbilitySlice`         ↔ `addAbilitySlice`, `removeAbilitySlice`
    `Ability::DeliverAbilityLifecycle`              ↔ `PageAbility.deliver`
-/

namespace AbilityLite.App

open AbilityLite.Ams

/-! ## Slices -/

/-- Whether the slice knows its manager, and the state it is in. -/
structure AbilitySlice where
  sliceState : State := .uninitialized
  abilitySliceManager : Bool := false
  deriving DecidableEq, Repr

inductive Callback where
  | onStart
  | onInactive
  | onActive
  | onBackground
  | onStop
  deriving DecidableEq, Repr

/-- The state a callback of the base class sets. -/
def Callback.target : Callback → State
  | onStart => .inactive
  | onInactive => .inactive
  | onActive => .active
  | onBackground => .background
  | onStop => .initial

/-- A callback, the slice it is called on and the state that slice is in. -/
structure Call where
  callback : Callback
  slice : Nat
  before : State
  deriving DecidableEq, Repr

/-- The scheduler, the slices of the ability and the callbacks called on them. -/
structure Slices where
  slices : Nat → AbilitySlice := fun _ => {}
  topAbilitySlice : Option Nat := none
  abilitySliceStack : List Nat := []
  calls : List Call := []

namespace Slices

def getState (s : Slices) (i : Nat) : State := (s.slices i).sliceState

def setSlice (s : Slices) (i : Nat) (a : AbilitySlice) : Slices :=
  { s with slices := fun j => if j = i then a else s.slices j }

/-- `AbilitySlice::Init`. -/
def init (s : Slices) (i : Nat) : Slices := s.setSlice i ⟨.initial, true⟩

/-- One of `AbilitySlice::OnStart` … `OnStop`. -/
def invoke (s : Slices) (c : Callback) (i : Nat) : Slices :=
  { s.setSlice i { s.slices i with sliceState := c.target } with
    calls := s.calls ++ [⟨c, i, s.getState i⟩] }

/-! ## Following the ability -/

/-- `GetTargetAbilitySlice` gives what the loader made for the main route. -/
def handleStartAbilitySlice (s : Slices) (loaded : Option Nat) : Slices :=
  match (match s.topAbilitySlice with | none => loaded | some top => some top) with
  | none => s
  | some top => ({ s with topAbilitySlice := some top }.init top).invoke .onStart top

/-- A callback of the slice on top, if there is one. -/
def onTop (s : Slices) (c : Callback) : Slices :=
  match s.topAbilitySlice with
  | none => s
  | some top => s.invoke c top

def handleInactiveAbilitySlice (s : Slices) : Slices := s.onTop .onInactive

def handleActiveAbilitySlice (s : Slices) : Slices := s.onTop .onActive

def handleMoveAbilitySliceToBackground (s : Slices) : Slices := s.onTop .onBackground

def handleStopAbilitySlice (s : Slices) : Slices :=
  match s.topAbilitySlice with
  | none => s
  | some top =>
    let s := s.abilitySliceStack.foldl (fun s i => s.invoke .onStop i) (s.invoke .onStop top)
    { s with topAbilitySlice := none, abilitySliceStack := [] }

end Slices

/-! ## The ability -/

/-- A page ability of a native application. `abilitySliceManager` is whether the manager is still
there, `terminateAbility` counts the requests to terminate the ability. -/
structure PageAbility where
  abilityState : State := .initial
  abilitySliceManager : Bool := true
  scheduler : Slices := {}
  terminateAbility : Nat := 0

namespace PageAbility

/-- `sliceState_ <= STATE_INITIAL`. -/
def notStarted (st : State) : Bool :=
  match st with
  | .uninitialized | .initial => true
  | .inactive | .active | .background => false

/-- `DeliverAbilityLifecycle`: nothing without a manager. -/
def deliver (s : PageAbility) (handle : Slices → Slices) : PageAbility :=
  if s.abilitySliceManager then { s with scheduler := handle s.scheduler } else s

/-- The slices in the stack are not looked at. -/
def checkLegalForAdd (s : PageAbility) (caller target : Nat) : Bool :=
  match s.scheduler.topAbilitySlice with
  | none => false
  | some top =>
    if s.abilityState ≠ .active then false
    else if notStarted (s.scheduler.getState caller) then false
    else if s.scheduler.getState target = .active then false
    else if target = top then false
    else true

/-- Whether the slice may go; asking for the last one asks for the end of the ability. -/
def checkLegalForRemove (s : PageAbility) (slice : Nat) : Bool × PageAbility :=
  match s.scheduler.topAbilitySlice with
  | none => (false, s)
  | some top =>
    if s.abilityState ≠ .active then (false, s)
    else if slice ∉ s.scheduler.abilitySliceStack ∧ slice ≠ top then (false, s)
    else if notStarted (s.scheduler.getState slice) then (false, s)
    else if s.scheduler.abilitySliceStack.isEmpty then
      (false, { s with terminateAbility := s.terminateAbility + 1 })
    else (true, s)

end PageAbility

namespace Slices

/-- `AddAbilitySlice` once the jump is legal. -/
def add (s : Slices) (top target : Nat) : Slices :=
  let s := if s.getState top = .active then s.invoke .onInactive top else s
  let s := if s.getState target = .uninitialized then s.init target else s
  let s := if s.getState target = .initial then s.invoke .onStart target else s
  let s := s.invoke .onActive target
  let s := if s.getState top = .inactive then s.invoke .onBackground top else s
  { s with abilitySliceStack := top :: s.abilitySliceStack, topAbilitySlice := some target }

/-- `RemoveAbilitySlice` once the slice may go. -/
def remove (s : Slices) (top slice : Nat) : Slices :=
  if slice = top then
    let s := s.invoke .onInactive top
    match s.abilitySliceStack with
    | [] => s.invoke .onActive top
    | next :: rest =>
      let s := { s with abilitySliceStack := rest }.invoke .onActive next
      let s := (s.invoke .onBackground top).invoke .onStop top
      { s with topAbilitySlice := some next }
  else
    let s := s.invoke .onStop slice
    { s with abilitySliceStack := s.abilitySliceStack.filter (· ≠ slice) }

end Slices

namespace PageAbility

def addAbilitySlice (s : PageAbility) (caller target : Nat) : PageAbility :=
  match s.scheduler.topAbilitySlice with
  | none => s
  | some top =>
    if s.checkLegalForAdd caller target then { s with scheduler := s.scheduler.add top target }
    else s

def removeAbilitySlice (s : PageAbility) (slice : Nat) : PageAbility :=
  match s.scheduler.topAbilitySlice with
  | none => s
  | some top =>
    match s.checkLegalForRemove slice with
    | (true, s) => { s with scheduler := s.scheduler.remove top slice }
    | (false, s) => s

/-- `AbilitySlice::Present`. -/
def present (s : PageAbility) (caller target : Nat) : PageAbility :=
  if (s.scheduler.slices caller).abilitySliceManager then s.addAbilitySlice caller target else s

/-- `AbilitySlice::Terminate`. -/
def terminate (s : PageAbility) (slice : Nat) : PageAbility :=
  if (s.scheduler.slices slice).abilitySliceManager then s.removeAbilitySlice slice else s

/-! ## Runs -/

/-- `start` names the slice the loader makes for the main route, if it makes one. -/
inductive Event where
  | start (loaded : Option Nat)
  | inactive
  | active
  | background
  | stop
  | present (caller target : Nat)
  | terminate (slice : Nat)
  deriving DecidableEq, Repr

/-- One callback of `Ability` or one call of a slice. A callback in a state it does not expect
ends the process, and with the manager gone no slice has anything left to call. -/
def next (s : PageAbility) : Event → Option PageAbility
  | .start loaded => (Ability.onStart s.abilityState).map fun st =>
      { s.deliver (·.handleStartAbilitySlice loaded) with abilityState := st }
  | .inactive => (Ability.onInactive s.abilityState).map fun st =>
      { s.deliver (·.handleInactiveAbilitySlice) with abilityState := st }
  | .active => (Ability.onActive s.abilityState).map fun st =>
      { s.deliver (·.handleActiveAbilitySlice) with abilityState := st }
  | .background => (Ability.onBackground s.abilityState).map fun st =>
      { s.deliver (·.handleMoveAbilitySliceToBackground) with abilityState := st }
  | .stop => (Ability.onStop s.abilityState).map fun st =>
      { s.deliver (·.handleStopAbilitySlice) with abilityState := st, abilitySliceManager := false }
  | .present caller target => if s.abilitySliceManager then some (s.present caller target) else none
  | .terminate slice => if s.abilitySliceManager then some (s.terminate slice) else none

/-- A new ability, none of whose slices has been started. -/
structure New (s : PageAbility) : Prop where
  state : s.abilityState = .initial
  manager : s.abilitySliceManager = true
  top : s.scheduler.topAbilitySlice = none
  stack : s.scheduler.abilitySliceStack = []
  calls : s.scheduler.calls = []
  slices : ∀ i, notStarted (s.scheduler.getState i) = true

/-- The callbacks `HandleLifecycleTransaction` calls on an ability in state `st`. -/
def lifecycleEvents (loaded : Option Nat) (st target : State) : List Event :=
  let first := if st = .initial then [.start loaded] else if st = .active then [.inactive] else []
  let between := if st = .initial ∨ st = .active then State.inactive else st
  first ++ match target with
    | .initial => if between = .inactive then [.background, .stop] else [.stop]
    | .inactive | .uninitialized => []
    | .active => [.active]
    | .background => if between = .inactive then [.background] else []

/-- A lifecycle transaction is a run of the callbacks of the ability. -/
theorem lifecycle_run (s : PageAbility) (loaded : Option Nat) (target : State) :
    (run next s (lifecycleEvents loaded s.abilityState target)).map (·.abilityState) =
      handleLifecycleTransaction s.abilityState target := by
  cases hst : s.abilityState <;> cases target <;>
    simp [lifecycleEvents, run, next, hst, handleLifecycleTransaction, Ability.onStart,
      Ability.onInactive, Ability.onActive, Ability.onBackground, Ability.onStop]

end PageAbility

/-! ## What a callback changes -/

namespace Slices

variable (s : Slices) (c : Callback) (i j : Nat)

@[simp] theorem invoke_topAbilitySlice : (s.invoke c i).topAbilitySlice = s.topAbilitySlice := rfl

@[simp] theorem invoke_abilitySliceStack :
    (s.invoke c i).abilitySliceStack = s.abilitySliceStack := rfl

@[simp] theorem invoke_calls :
    (s.invoke c i).calls = s.calls ++ [⟨c, i, s.getState i⟩] := rfl

@[simp] theorem init_topAbilitySlice : (s.init i).topAbilitySlice = s.topAbilitySlice := rfl

@[simp] theorem init_abilitySliceStack : (s.init i).abilitySliceStack = s.abilitySliceStack := rfl

@[simp] theorem init_calls : (s.init i).calls = s.calls := rfl

theorem getState_invoke :
    (s.invoke c i).getState j = if j = i then c.target else s.getState j := by
  simp only [getState, invoke, setSlice]
  split <;> rfl

theorem getState_init : (s.init i).getState j = if j = i then .initial else s.getState j := by
  simp only [getState, init, setSlice]
  split <;> rfl

@[simp] theorem getState_invoke_same : (s.invoke c i).getState i = c.target := by
  rw [getState_invoke, if_pos rfl]

theorem getState_invoke_ne (h : j ≠ i) : (s.invoke c i).getState j = s.getState j := by
  rw [getState_invoke, if_neg h]

/-- Stopping slices one after the other, a slice twice or not. -/
theorem getState_foldl_stop (l : List Nat) (s : Slices) :
    (l.foldl (fun s i => s.invoke .onStop i) s).getState j =
      if j ∈ l then .initial else s.getState j := by
  induction l generalizing s with
  | nil => simp
  | cons i l ih =>
    rw [List.foldl_cons, ih, getState_invoke]
    by_cases hj : j ∈ l
    · rw [if_pos hj, if_pos (List.mem_cons_of_mem i hj)]
    · by_cases hi : j = i
      · rw [if_neg hj, if_pos hi, if_pos (hi ▸ List.mem_cons_self ..)]
        rfl
      · rw [if_neg hj, if_neg hi, if_neg (by simp [hi, hj])]

/-- Where the slices that are stopped one after the other differ, each is found as it was. -/
theorem calls_foldl_stop (l : List Nat) (s : Slices) (hl : l.Nodup) :
    (l.foldl (fun s i => s.invoke .onStop i) s).calls =
      s.calls ++ l.map fun i => ⟨.onStop, i, s.getState i⟩ := by
  induction l generalizing s with
  | nil => simp
  | cons i l ih =>
    obtain ⟨hi, hl⟩ := List.nodup_cons.mp hl
    rw [List.foldl_cons, ih _ hl, invoke_calls, List.map_cons, List.append_assoc,
      List.singleton_append]
    congr 2
    refine List.map_congr_left fun j hj => ?_
    rw [getState_invoke_ne _ _ _ _ fun h : j = i => hi (h ▸ hj)]

/-- The lists do not matter to the states. -/
theorem getState_lists (t : Option Nat) (l : List Nat) :
    ({ s with topAbilitySlice := t, abilitySliceStack := l } : Slices).getState j =
      s.getState j := rfl

theorem add_abilitySliceStack (top target : Nat) :
    (s.add top target).abilitySliceStack = top :: s.abilitySliceStack := by
  simp only [add]
  repeat' split
  all_goals rfl

/-- Presenting a slice that is not started sends the active one on top to the background, under
it. -/
theorem add_notStarted {s : Slices} {top target : Nat} (hne : target ≠ top)
    (htop : s.getState top = .active)
    (htarget : PageAbility.notStarted (s.getState target) = true) :
    (∀ j, (s.add top target).getState j =
      if j = target then .active else if j = top then .background else s.getState j) ∧
    (s.add top target).calls = s.calls ++ [⟨.onInactive, top, .active⟩,
      ⟨.onStart, target, .initial⟩, ⟨.onActive, target, .inactive⟩,
      ⟨.onBackground, top, .inactive⟩] := by
  have hcases : s.getState target = .uninitialized ∨ s.getState target = .initial := by
    revert htarget
    cases s.getState target <;> simp [PageAbility.notStarted]
  refine ⟨fun j => ?_, ?_⟩
  · simp only [add, getState_lists]
    rcases hcases with h | h <;>
      simp only [getState_invoke, getState_init, htop, h, hne, hne.symm, Callback.target, if_true,
        if_false, reduceCtorEq] <;>
      by_cases hj : j = target <;> by_cases hj' : j = top <;> simp_all
  · rcases hcases with h | h <;>
      simp [add, getState_invoke, getState_init, htop, h, hne, hne.symm, Callback.target]

/-- The slice on top goes and the first one under it comes up again. -/
theorem remove_top {s : Slices} {top next : Nat} {rest : List Nat} (hne : next ≠ top)
    (hstack : s.abilitySliceStack = next :: rest) (htop : s.getState top = .active) :
    (s.remove top top).topAbilitySlice = some next ∧
    (s.remove top top).abilitySliceStack = rest ∧
    (∀ j, (s.remove top top).getState j =
      if j = top then .initial else if j = next then .active else s.getState j) ∧
    (s.remove top top).calls = s.calls ++ [⟨.onInactive, top, .active⟩,
      ⟨.onActive, next, s.getState next⟩, ⟨.onBackground, top, .inactive⟩,
      ⟨.onStop, top, .background⟩] := by
  simp only [remove, if_true, invoke_abilitySliceStack, hstack]
  refine ⟨trivial, trivial, fun j => ?_, ?_⟩
  · simp only [getState_lists, getState_invoke, Callback.target]
    by_cases hj : j = top <;> by_cases hj' : j = next <;> simp_all
  · simp only [invoke_calls, htop, getState_invoke, hne.symm, if_false, Callback.target, if_true,
      List.append_assoc, List.cons_append, List.nil_append]
    have hnext := s.getState_invoke_ne .onInactive top next hne
    have hself := s.getState_invoke_same .onInactive top
    simp only [getState, Callback.target] at hnext hself ⊢
    rw [hnext, hself]

end Slices

namespace PageAbility

/-! ## The invariant -/

/-- `OnActive` is called on a slice that has been started, `OnStop` on one not yet stopped. -/
def fine (c : Call) : Prop :=
  match c.callback with
  | .onActive => notStarted c.before = false
  | .onStop => c.before ≠ .initial
  | .onStart | .onInactive | .onBackground => True

/-- The slices on top and in the stack are distinct, those in the stack are in the background, only
the one on top is active, and every callback so far was called in a state it may be called in. -/
structure Consistent (s : PageAbility) : Prop where
  distinct : (s.scheduler.topAbilitySlice.toList ++ s.scheduler.abilitySliceStack).Nodup
  background : ∀ i ∈ s.scheduler.abilitySliceStack, s.scheduler.getState i = .background
  active : ∀ i, s.scheduler.getState i = .active → s.scheduler.topAbilitySlice = some i
  fine : ∀ c ∈ s.scheduler.calls, fine c

/-- What holds in every run: the slice on top is in the state of the ability, and the slices that
are neither on top nor in the stack are not started. -/
structure Inv (s : PageAbility) : Prop where
  top : ∀ i, s.scheduler.topAbilitySlice = some i →
    s.scheduler.getState i = s.abilityState ∧ i ∉ s.scheduler.abilitySliceStack ∧
      notStarted s.abilityState = false
  noTop : s.scheduler.topAbilitySlice = none → s.scheduler.abilitySliceStack = []
  gone : s.abilitySliceManager = false → s.scheduler.topAbilitySlice = none
  nodup : s.scheduler.abilitySliceStack.Nodup
  background : ∀ i ∈ s.scheduler.abilitySliceStack, s.scheduler.getState i = .background
  others : ∀ i, s.scheduler.topAbilitySlice ≠ some i → i ∉ s.scheduler.abilitySliceStack →
    notStarted (s.scheduler.getState i) = true
  fine : ∀ c ∈ s.scheduler.calls, PageAbility.fine c

theorem Inv.consistent {s : PageAbility} (h : Inv s) : Consistent s where
  distinct := by
    cases htop : s.scheduler.topAbilitySlice with
    | none => simp [h.noTop htop]
    | some i => exact List.nodup_cons.mpr ⟨(h.top i htop).2.1, h.nodup⟩
  background := h.background
  active := by
    intro i hi
    apply Decidable.byContradiction
    intro hne
    by_cases hs : i ∈ s.scheduler.abilitySliceStack
    · rw [h.background i hs] at hi
      cases hi
    · have := h.others i hne hs
      rw [hi] at this
      cases this
  fine := h.fine

theorem New.inv {s : PageAbility} (h : New s) : Inv s where
  top := by simp [h.top]
  noTop := fun _ => h.stack
  gone := fun _ => h.top
  nodup := by simp [h.stack]
  background := by simp [h.stack]
  others := fun i _ _ => h.slices i
  fine := by simp [h.calls]

/-! ## What each event keeps -/

/-- The slice on top follows the ability to a state the callback `c` sets. -/
theorem Inv.onTop {s : PageAbility} (h : Inv s) (c : Callback)
    (hc : notStarted c.target = false)
    (hfine : ∀ i, PageAbility.fine ⟨c, i, s.abilityState⟩) :
    Inv { s.deliver (·.onTop c) with abilityState := c.target } := by
  cases htop : s.scheduler.topAbilitySlice with
  | none =>
    have hsame : s.deliver (·.onTop c) = s := by
      simp only [deliver, Slices.onTop, htop, ite_self]
    rw [hsame]
    exact { h with top := by simp [htop] }
  | some i =>
    obtain ⟨hstate, hi, -⟩ := h.top i htop
    have hm : s.abilitySliceManager = true := by
      cases hm : s.abilitySliceManager with
      | true => rfl
      | false => rw [h.gone hm] at htop; cases htop
    simp only [deliver, hm, if_true, Slices.onTop, htop]
    constructor
    case top =>
      intro j hj
      rw [Slices.invoke_topAbilitySlice, htop] at hj
      cases hj
      exact ⟨s.scheduler.getState_invoke_same c i, hi, hc⟩
    case noTop => simp [htop]
    case gone => intro hgone; cases hgone
    case nodup => exact h.nodup
    case background =>
      intro j hj
      have hne : j ≠ i := fun hji => hi (hji ▸ hj)
      rw [Slices.getState_invoke_ne _ _ _ _ hne]
      exact h.background j hj
    case others =>
      intro j hj hs
      rw [Slices.invoke_topAbilitySlice] at hj
      have hne : j ≠ i := fun hji => hj (hji ▸ htop)
      rw [Slices.getState_invoke_ne _ _ _ _ hne]
      exact h.others j hj hs
    case fine =>
      intro call hcall
      rw [Slices.invoke_calls, List.mem_append, List.mem_singleton] at hcall
      rcases hcall with hcall | rfl
      · exact h.fine call hcall
      · rw [hstate]
        exact hfine i

/-- Before it is started an ability has no slice on top. -/
theorem Inv.top_of_initial {s : PageAbility} (h : Inv s) (hst : s.abilityState = .initial) :
    s.scheduler.topAbilitySlice = none := by
  cases htop : s.scheduler.topAbilitySlice with
  | none => rfl
  | some i =>
    have := (h.top i htop).2.2
    rw [hst] at this
    cases this

theorem Inv.start {s : PageAbility} (h : Inv s) (loaded : Option Nat)
    (hst : s.abilityState = .initial) :
    Inv { s.deliver (·.handleStartAbilitySlice loaded) with abilityState := .inactive } := by
  have htop := h.top_of_initial hst
  cases hm : s.abilitySliceManager with
  | false =>
    simp only [deliver, hm, Bool.false_eq_true, if_false]
    exact { h with top := by simp [htop], gone := fun _ => htop }
  | true =>
    simp only [deliver, hm, if_true, Slices.handleStartAbilitySlice, htop]
    cases loaded with
    | none => exact { h with top := by simp [htop], gone := fun _ => htop }
    | some i =>
      have hstack := h.noTop htop
      constructor
      case top =>
        intro j hj
        cases hj
        refine ⟨Slices.getState_invoke_same _ _ _, ?_, rfl⟩
        simp [hstack]
      case noTop => intro hnone; cases hnone
      case gone => intro hgone; cases hgone
      case nodup => exact h.nodup
      case background => simp [hstack]
      case others =>
        intro j hj hs
        have hne : j ≠ i := fun hji => hj (hji ▸ rfl)
        rw [Slices.getState_invoke_ne _ _ _ _ hne, Slices.getState_init, if_neg hne]
        exact h.others j (by simp [htop]) hs
      case fine =>
        intro call hcall
        rw [Slices.invoke_calls, List.mem_append, List.mem_singleton] at hcall
        rcases hcall with hcall | rfl
        · exact h.fine call hcall
        · trivial

theorem Inv.stop {s : PageAbility} (h : Inv s) (hst : s.abilityState = .background) :
    Inv { s.deliver (·.handleStopAbilitySlice) with
      abilityState := .initial, abilitySliceManager := false } := by
  cases htop : s.scheduler.topAbilitySlice with
  | none =>
    have hsame : s.deliver (·.handleStopAbilitySlice) = s := by
      simp only [deliver, Slices.handleStopAbilitySlice, htop, ite_self]
    rw [hsame]
    exact { h with top := by simp [htop], gone := fun _ => htop }
  | some i =>
    obtain ⟨hstate, hi, -⟩ := h.top i htop
    have hm : s.abilitySliceManager = true := by
      cases hm : s.abilitySliceManager with
      | true => rfl
      | false => rw [h.gone hm] at htop; cases htop
    simp only [deliver, hm, if_true, Slices.handleStopAbilitySlice, htop]
    have hstates (j : Nat) := Slices.getState_foldl_stop j s.scheduler.abilitySliceStack
      (s.scheduler.invoke .onStop i)
    have hcalls := Slices.calls_foldl_stop s.scheduler.abilitySliceStack
      (s.scheduler.invoke .onStop i) h.nodup
    constructor
    case top => intro j hj; cases hj
    case noTop => intro _; rfl
    case gone => intro _; rfl
    case nodup => exact List.nodup_nil
    case background => intro j hj; cases hj
    case others =>
      intro j _ _
      have := hstates j
      simp only [Slices.getState] at this ⊢
      rw [this]
      split
      · rfl
      · rename_i hj
        have := s.scheduler.getState_invoke .onStop i j
        simp only [Slices.getState] at this
        rw [this]
        split
        · rfl
        · rename_i hne
          refine h.others j (fun hsome => hne ?_) hj
          exact Option.some.inj (hsome.symm.trans htop)
    case fine =>
      intro call hcall
      simp only [hcalls, Slices.invoke_calls, List.mem_append, List.mem_singleton,
        List.mem_map] at hcall
      rcases hcall with (hcall | rfl) | ⟨j, hj, rfl⟩
      · exact h.fine call hcall
      · rw [hstate, hst]
        exact State.noConfusion
      · have hne : j ≠ i := fun hji => hi (hji ▸ hj)
        rw [Slices.getState_invoke_ne _ _ _ _ hne, h.background j hj]
        exact State.noConfusion

/-! ## Presenting and terminating -/

/-- A `Present` that is let through, of a slice that lies in the stack. -/
def PresentsBuried (s : PageAbility) (caller target : Nat) : Prop :=
  (s.scheduler.slices caller).abilitySliceManager = true ∧
    s.checkLegalForAdd caller target = true ∧ target ∈ s.scheduler.abilitySliceStack

/-- No `Present` that is let through names a slice in the stack. -/
def keepsBuried (s : PageAbility) : Event → Prop
  | .present caller target => ¬ PresentsBuried s caller target
  | _ => True

theorem checkLegalForAdd_eq_true {s : PageAbility} {caller target : Nat}
    (h : s.checkLegalForAdd caller target = true) :
    ∃ top, s.scheduler.topAbilitySlice = some top ∧ s.abilityState = .active ∧ target ≠ top := by
  unfold checkLegalForAdd at h
  split at h
  · cases h
  · rename_i top htop
    refine ⟨top, htop, ?_⟩
    split at h
    · cases h
    · rename_i hactive
      refine ⟨Decidable.of_not_not hactive, fun heq => ?_⟩
      simp [heq] at h

theorem Inv.present {s : PageAbility} (h : Inv s) (hm : s.abilitySliceManager = true)
    {caller target : Nat} (hkeep : ¬ PresentsBuried s caller target) :
    Inv (s.present caller target) := by
  simp only [PageAbility.present, addAbilitySlice]
  split
  case isFalse => exact h
  case isTrue hmanager =>
  split
  case h_1 => exact h
  case h_2 top htop =>
  split
  case isFalse => exact h
  case isTrue hlegal =>
  obtain ⟨top', htop', hactive, hne⟩ := checkLegalForAdd_eq_true hlegal
  cases htop.symm.trans htop'
  obtain ⟨hstate, hnotin, -⟩ := h.top top htop
  have htarget : target ∉ s.scheduler.abilitySliceStack :=
    fun hin => hkeep ⟨hmanager, hlegal, hin⟩
  have hnew := h.others target (fun hsome => hne (Option.some.inj (hsome.symm.trans htop))) htarget
  obtain ⟨hstates, hcalls⟩ := Slices.add_notStarted hne (hstate.trans hactive) hnew
  have hstack := s.scheduler.add_abilitySliceStack top target
  constructor
  case top =>
    intro i hi
    cases hi
    refine ⟨?_, ?_, by rw [hactive]; rfl⟩
    · rw [hstates, if_pos rfl, hactive]
    · rw [hstack, List.mem_cons, not_or]
      exact ⟨hne, htarget⟩
  case noTop => intro hnone; cases hnone
  case gone =>
    intro hgone
    rw [hm] at hgone
    cases hgone
  case nodup =>
    rw [hstack]
    exact List.nodup_cons.mpr ⟨hnotin, h.nodup⟩
  case background =>
    intro i hi
    rw [hstack] at hi
    rcases List.mem_cons.mp hi with rfl | hi
    · rw [hstates, if_neg hne.symm, if_pos rfl]
    · have hne' : i ≠ target := fun heq => htarget (heq ▸ hi)
      have hitop : i ≠ top := fun heq => hnotin (heq ▸ hi)
      rw [hstates, if_neg hne', if_neg hitop]
      exact h.background i hi
  case others =>
    intro i hi hs
    rw [hstack, List.mem_cons, not_or] at hs
    obtain ⟨hitop, hs⟩ := hs
    have hne' : i ≠ target := fun heq => hi (congrArg some heq.symm)
    rw [hstates, if_neg hne', if_neg hitop]
    exact h.others i (fun hsome => hitop (Option.some.inj (hsome.symm.trans htop))) hs
  case fine =>
    intro call hcall
    rw [hcalls] at hcall
    simp only [List.mem_append, List.mem_cons, List.not_mem_nil, or_false] at hcall
    rcases hcall with hcall | rfl | rfl | rfl | rfl
    · exact h.fine call hcall
    · trivial
    · trivial
    · rfl
    · trivial

theorem checkLegalForRemove_eq_true {s s' : PageAbility} {slice : Nat}
    (h : s.checkLegalForRemove slice = (true, s')) :
    s' = s ∧ ∃ top, s.scheduler.topAbilitySlice = some top ∧ s.abilityState = .active ∧
      (slice ∈ s.scheduler.abilitySliceStack ∨ slice = top) ∧
      s.scheduler.abilitySliceStack ≠ [] := by
  unfold checkLegalForRemove at h
  split at h
  · cases h
  · rename_i top htop
    split at h
    · cases h
    · rename_i hactive
      split at h
      · cases h
      · rename_i hin
        split at h
        · cases h
        · split at h
          · cases h
          · rename_i hempty
            cases h
            refine ⟨rfl, top, htop, Decidable.of_not_not hactive, ?_, fun hnil => ?_⟩
            · by_cases hmem : slice ∈ s.scheduler.abilitySliceStack
              · exact .inl hmem
              · exact .inr (Decidable.of_not_not fun hne => hin ⟨hmem, hne⟩)
            · exact hempty (by rw [hnil]; rfl)

theorem checkLegalForRemove_eq_false {s s' : PageAbility} {slice : Nat}
    (h : s.checkLegalForRemove slice = (false, s')) :
    s' = s ∨ s' = { s with terminateAbility := s.terminateAbility + 1 } := by
  unfold checkLegalForRemove at h
  repeat' split at h
  all_goals cases h <;> first | exact .inl rfl | exact .inr rfl

/-- The slice on top is terminated. -/
theorem Inv.removeTop {s : PageAbility} (h : Inv s) (hm : s.abilitySliceManager = true)
    {top next : Nat} {rest : List Nat} (htop : s.scheduler.topAbilitySlice = some top)
    (hactive : s.abilityState = .active)
    (hstack : s.scheduler.abilitySliceStack = next :: rest) :
    Inv { s with scheduler := s.scheduler.remove top top } := by
  obtain ⟨hstate, hnotin, -⟩ := h.top top htop
  rw [hstack, List.mem_cons, not_or] at hnotin
  obtain ⟨hne, hrest⟩ := hnotin
  have hne : next ≠ top := fun heq => hne heq.symm
  have hnodup := h.nodup
  rw [hstack] at hnodup
  obtain ⟨hnext, hnodup⟩ := List.nodup_cons.mp hnodup
  obtain ⟨htop', hstack', hstates, hcalls⟩ :=
    Slices.remove_top hne hstack (hstate.trans hactive)
  constructor
  case top =>
    intro i hi
    cases htop'.symm.trans hi
    refine ⟨?_, ?_, by rw [hactive]; rfl⟩
    · rw [hstates, if_neg hne, if_pos rfl, hactive]
    · rw [hstack']
      exact hnext
  case noTop => intro hnone; cases htop'.symm.trans hnone
  case gone => intro hgone; cases hm.symm.trans hgone
  case nodup =>
    rw [hstack']
    exact hnodup
  case background =>
    intro i hi
    rw [hstack'] at hi
    have hitop : i ≠ top := fun heq => hrest (heq ▸ hi)
    have hinext : i ≠ next := fun heq => hnext (heq ▸ hi)
    rw [hstates, if_neg hitop, if_neg hinext]
    exact h.background i (hstack ▸ List.mem_cons_of_mem next hi)
  case others =>
    intro i hi hs
    rw [hstack'] at hs
    have hinext : i ≠ next := fun heq => hi (htop'.trans (congrArg some heq.symm))
    by_cases hitop : i = top
    · rw [hstates, if_pos hitop]
      rfl
    · rw [hstates, if_neg hitop, if_neg hinext]
      refine h.others i (fun hsome => hitop (Option.some.inj (hsome.symm.trans htop))) ?_
      rw [hstack, List.mem_cons, not_or]
      exact ⟨hinext, hs⟩
  case fine =>
    intro call hcall
    rw [hcalls, h.background next (hstack ▸ List.mem_cons_self)] at hcall
    simp only [List.mem_append, List.mem_cons, List.not_mem_nil, or_false] at hcall
    rcases hcall with hcall | rfl | rfl | rfl | rfl
    · exact h.fine call hcall
    · trivial
    · rfl
    · trivial
    · exact State.noConfusion

/-- A slice in the stack is terminated. -/
theorem Inv.removeBuried {s : PageAbility} (h : Inv s) (hm : s.abilitySliceManager = true)
    {top slice : Nat} (htop : s.scheduler.topAbilitySlice = some top) (hne : slice ≠ top)
    (hin : slice ∈ s.scheduler.abilitySliceStack) :
    Inv { s with scheduler := s.scheduler.remove top slice } := by
  obtain ⟨hstate, hnotin, hstarted⟩ := h.top top htop
  simp only [Slices.remove, if_neg hne]
  constructor
  case top =>
    intro i hi
    cases htop.symm.trans hi
    refine ⟨?_, fun hmem => hnotin (List.mem_filter.mp hmem).1, hstarted⟩
    exact (s.scheduler.getState_invoke_ne .onStop slice top hne.symm).trans hstate
  case noTop => intro hnone; cases htop.symm.trans hnone
  case gone => intro hgone; cases hm.symm.trans hgone
  case nodup => exact h.nodup.filter _
  case background =>
    intro i hi
    obtain ⟨hi, hne'⟩ := List.mem_filter.mp hi
    refine (s.scheduler.getState_invoke_ne .onStop slice i ?_).trans (h.background i hi)
    exact of_decide_eq_true hne'
  case others =>
    intro i hi hs
    show notStarted ((s.scheduler.invoke .onStop slice).getState i) = true
    rw [Slices.getState_invoke]
    split
    · rfl
    · rename_i hislice
      exact h.others i hi fun hmem => hs (List.mem_filter.mpr ⟨hmem, decide_eq_true hislice⟩)
  case fine =>
    intro call hcall
    rw [Slices.invoke_calls, List.mem_append, List.mem_singleton] at hcall
    rcases hcall with hcall | rfl
    · exact h.fine call hcall
    · rw [h.background slice hin]
      exact State.noConfusion

theorem Inv.terminate {s : PageAbility} (h : Inv s) (hm : s.abilitySliceManager = true)
    (slice : Nat) : Inv (s.terminate slice) := by
  simp only [PageAbility.terminate, removeAbilitySlice]
  split
  case isFalse => exact h
  case isTrue =>
  split
  case h_1 => exact h
  case h_2 top htop =>
  split
  case h_2 s' hlegal =>
    rcases checkLegalForRemove_eq_false hlegal with rfl | rfl
    · exact h
    · exact { h with }
  case h_1 s' hlegal =>
  obtain ⟨hsame, top', htop', hactive, hin, hsome⟩ := checkLegalForRemove_eq_true hlegal
  subst hsame
  cases htop.symm.trans htop'
  by_cases hslice : slice = top
  · subst hslice
    cases hstack : s'.scheduler.abilitySliceStack with
    | nil => exact absurd hstack hsome
    | cons next rest => exact h.removeTop hm htop hactive hstack
  · exact h.removeBuried hm htop hslice (hin.resolve_right hslice)

/-! ## Every run -/

/-- Each event that presents no buried slice keeps the invariant. -/
theorem Inv.next {s s' : PageAbility} {e : Event} (h : Inv s) (hkeep : keepsBuried s e)
    (hnext : next s e = some s') : Inv s' := by
  cases e with
  | start loaded =>
    simp only [PageAbility.next, Ability.onStart, Option.map_if] at hnext
    split at hnext <;> cases hnext
    exact h.start loaded ‹_›
  | inactive =>
    simp only [PageAbility.next, Ability.onInactive, Option.map_if] at hnext
    split at hnext <;> cases hnext
    exact h.onTop .onInactive rfl fun _ => trivial
  | active =>
    simp only [PageAbility.next, Ability.onActive, Option.map_if] at hnext
    split at hnext <;> cases hnext
    rename_i hst
    refine h.onTop .onActive rfl fun _ => ?_
    rcases hst with hst | hst <;> rw [hst] <;> rfl
  | background =>
    simp only [PageAbility.next, Ability.onBackground, Option.map_if] at hnext
    split at hnext <;> cases hnext
    exact h.onTop .onBackground rfl fun _ => trivial
  | stop =>
    simp only [PageAbility.next, Ability.onStop, Option.map_if] at hnext
    split at hnext <;> cases hnext
    exact h.stop ‹_›
  | present caller target =>
    simp only [PageAbility.next] at hnext
    split at hnext <;> cases hnext
    exact h.present ‹_› hkeep
  | terminate slice =>
    simp only [PageAbility.next] at hnext
    split at hnext <;> cases hnext
    exact h.terminate ‹_› slice

/-- A buried slice that is presented is then on top and in the stack. -/
theorem PresentsBuried.not_consistent {s : PageAbility} {caller target : Nat}
    (h : PresentsBuried s caller target) : ¬ Consistent (s.present caller target) := by
  obtain ⟨hmanager, hlegal, hin⟩ := h
  obtain ⟨top, htop, -, -⟩ := checkLegalForAdd_eq_true hlegal
  intro hc
  have hdistinct := hc.distinct
  simp only [PageAbility.present, addAbilitySlice, hmanager, if_true, htop, hlegal] at hdistinct
  rw [s.scheduler.add_abilitySliceStack top target] at hdistinct
  exact (List.nodup_cons.mp hdistinct).1 (List.mem_cons_of_mem top hin)

theorem inv_of_reached {s : PageAbility} (h : Reached next keepsBuried New s) : Inv s :=
  h.invariant (fun _ hnew => hnew.inv) fun _ _ _ hinv hkeep hnext => hinv.next hkeep hnext

/-- As long as no slice that lies in the stack is presented, the slices stay consistent; from any
state so reached, a step keeps them consistent exactly when it does not present such a slice. -/
theorem slices_consistent (s : PageAbility) (h : Reached next keepsBuried New s) :
    Consistent s ∧ ∀ e s', next s e = some s' → (Consistent s' ↔ keepsBuried s e) := by
  refine ⟨(inv_of_reached h).consistent, fun e s' hnext => ?_⟩
  refine ⟨fun hc => ?_, fun hkeep => ((inv_of_reached h).next hkeep hnext).consistent⟩
  cases e with
  | present caller target =>
    intro hburied
    simp only [PageAbility.next] at hnext
    split at hnext <;> cases hnext
    exact hburied.not_consistent hc
  | _ => trivial

theorem slices_consistent_after_present :
    ∃ s, run next {} [.start (some 0), .active, .present 0 1] = some s ∧ Consistent s := by
  refine ⟨_, rfl, (slices_consistent _ ?_).1⟩
  have hnew : Reached next keepsBuried New {} := .init ⟨rfl, rfl, rfl, rfl, rfl, fun _ => rfl⟩
  have hstarted := hnew.step (show keepsBuried _ (.start (some 0)) from trivial) rfl
  have hactive := hstarted.step (show keepsBuried _ .active from trivial) rfl
  refine hactive.step (show keepsBuried _ (.present 0 1) from fun h => ?_) rfl
  cases h.2.2

/-- `a` presents `b`, and `b` presents `a` again, which lies in the stack. -/
def returnToBuried : List Event :=
  [.start (some 0), .active, .present 0 1, .present 1 0]

theorem slices_returnToBuried :
    ¬ ∀ s, Reached next (fun _ _ => True) New s → Consistent s := by
  intro h
  have hrun : ∃ s, run next {} returnToBuried = some s ∧
      s.scheduler.topAbilitySlice = some 0 ∧ s.scheduler.abilitySliceStack = [1, 0] :=
    ⟨_, rfl, rfl, rfl⟩
  obtain ⟨s, hs, htop, hstack⟩ := hrun
  have hnew : New {} := ⟨rfl, rfl, rfl, rfl, rfl, fun _ => rfl⟩
  have hdistinct := (h s (Reached.of_run (.init hnew) _ hs)).distinct
  rw [htop, hstack] at hdistinct
  revert hdistinct
  decide

end PageAbility
end AbilityLite.App
