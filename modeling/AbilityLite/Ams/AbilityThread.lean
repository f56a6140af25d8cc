import AbilityLite.Ams.Tasks

/-
  The process of an application: `AbilityThread` and the base-class callbacks of
  `Ability` it moves abilities with. A callback called in a state it does not expect
  ends the process (`exit(-1)`).

  Correspondence (C++ ↔ Lean):
    `Ability::OnStart` … `OnStop`                ↔ `Ability.onStart` … `Ability.onStop`
    `AbilityThread::HandleLifecycleTransaction`  ↔ `handleLifecycleTransaction`
    `AbilityThread::PerformTransactAbilityState` ↔ `performTransactAbilityState`
    `AbilityThread::PerformAppInit`              ↔ `performAppInit`
    `AbilityThread::PerformConnectAbility`, `PerformDisconnectAbility`, `PerformAppExit`
                                                 ↔ the branches of `perform`
-/

namespace AbilityLite.Ams

/-! ## Abilities -/

namespace Ability

def onStart (st : State) : Option State := if st = .initial then some .inactive else none

def onInactive (st : State) : Option State := if st = .active then some .inactive else none

def onActive (st : State) : Option State :=
  if st = .inactive ∨ st = .background then some .active else none

def onBackground (st : State) : Option State := if st = .inactive then some .background else none

def onStop (st : State) : Option State := if st = .background then some .initial else none

end Ability

open Ability

/-- `HandleLifecycleTransaction`: from the state an ability is in to the one it is asked for, by
way of inactive. -/
def handleLifecycleTransaction (st target : State) : Option State := do
  let st ← if st = .initial then onStart st else some st
  let st ← if st = .active then onInactive st else some st
  match target with
  | .initial => do
    let st ← if st = .inactive then onBackground st else some st
    onStop st
  | .inactive => some st
  | .active => onActive st
  | .background => if st = .inactive then onBackground st else some st
  | .uninitialized => some st

/-! ## The thread -/

/-- What a process reports to AMS. -/
inductive Reply where
  | lifecycleDone (state : TransactionState)
  | connectDone (serviceSid : SvcIdentity) (token : Token)
  | disconnectDone (token : Token)
  deriving DecidableEq, Repr

/-- `abilities_`, what the application is, and whether the process still runs. -/
structure AbilityThread where
  abilities : Store Token State := .empty
  isNativeApp : Bool := true
  isAppRunning : Bool := true

/-- A string that is null or has no characters. -/
def isEmptyName (name : Option CString) : Bool :=
  match name with
  | none => true
  | some name => name.bytes.isEmpty

namespace AbilityThread

/-- `PerformAppInit`; an application that is not native has one module. -/
def performAppInit (th : AbilityThread) (info : BundleInfo) : AbilityThread :=
  if isEmptyName info.bundleName || isEmptyName info.codePath || info.dataPath.isNone then th
  else if !info.isNativeApp && (info.moduleInfos.filter (!isEmptyName ·)).length != 1 then th
  else { th with isNativeApp := info.isNativeApp }

/-- `PerformTransactAbilityState`: an ability the process does not know is created. `none` is the
end of the process. -/
def performTransactAbilityState (th : AbilityThread) (env : Env) (want : Want)
    (state : TransactionState) : Option (AbilityThread × Reply) :=
  let start := match th.abilities state.token with
    | some st => some st
    | none =>
      match want.element with
      | none => none
      | some e =>
        if env.loads (if th.isNativeApp then e.abilityName else some aceAbilityName) then
          some .initial
        else none
  match start with
  | none => some (th, .lifecycleDone ⟨state.token, .initial⟩)
  | some st => do
    let st ← if st ≠ state.state then handleLifecycleTransaction st state.state else some st
    let abilities :=
      if st = .initial then th.abilities.erase state.token else th.abilities.insert state.token st
    some ({ th with abilities }, .lifecycleDone ⟨state.token, st⟩)

/-- One message of AMS; `sid` is what `OnConnect` of the service returns. -/
def perform (th : AbilityThread) (env : Env) (sid : SvcIdentity) (m : Transaction) :
    AbilityThread × List Reply :=
  match m with
  | .appInit info => (th.performAppInit info, [])
  | .appExit => ({ th with isAppRunning := false }, [])
  | .lifecycle state want _ =>
    match th.performTransactAbilityState env want state with
    | none => ({ th with isAppRunning := false }, [])
    | some (th, reply) => (th, [reply])
  | .connect _ token =>
    match th.abilities token with
    | none => (th, [])
    | some _ => (th, [.connectDone sid token])
  | .disconnect _ token =>
    match th.abilities token with
    | none => (th, [])
    | some _ => (th, [.disconnectDone token])

end AbilityThread
end AbilityLite.Ams
