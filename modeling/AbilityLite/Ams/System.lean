import AbilityLite.Ams.AbilityThread
import AbilityLite.Run

/-
  AMS and the processes of the applications, one event at a time.

  AMS handles requests in any order; each process handles what AMS sent it in the order
  it was sent, and AMS handles what a process reports in the order it was reported.
  After a fault nothing is defined, so a run ends there.
-/

namespace AbilityLite.Ams

/-- The processes are named by the identity id they were spawned with. `replies` is what
they reported and AMS has not handled. -/
structure System where
  ams : AbilityMgr := {}
  threads : Nat → AbilityThread := fun _ => {}
  replies : List (Nat × Reply) := []
  fault : Option Fault := none

inductive Event where
  | startAbility (want : Want) (callingUid : Int)
  | terminateAbility (token : Token)
  | attachBundle (client : AbilityThreadClient)
  | connectAbility (want : Want) (sid : SvcIdentity) (token : Token) (callingUid : Int)
  | disconnectAbility (sid : SvcIdentity) (token : Token)
  | terminateService (want : Want) (callingUid : Int)
  | terminateApp (bundleName : CString)
  | restartApp (bundleName : CString)
  | reply (a : Nat)
  | perform (a : Nat) (sid : SvcIdentity)
  deriving DecidableEq, Repr

/-- The first entry of a queue that is from or for a process, and the queue without it. -/
def takeFirst {α : Type} (a : Nat) : List (Nat × α) → Option (α × List (Nat × α))
  | [] => none
  | (b, x) :: q =>
    if b = a then some (x, q) else (takeFirst a q).map fun (y, q) => (y, (b, x) :: q)

namespace AbilityMgr

/-- A reply of a process, as `AbilityMgrFeature` passes it on. -/
def replyMsg (gen : TokenGenerate) (env : Env) (r : Reply) (s : AbilityMgr) : Except Fault AbilityMgr :=
  match r with
  | .lifecycleDone state => s.transactionMsg gen env state
  | .connectDone sid token => do
    let (_, s) ← s.connectDoneTask env sid token
    .ok s
  | .disconnectDone token => do
    let (_, s) ← s.disconnectDoneTask env token
    .ok s

/-- `ServiceMsgProcess` on a request that is not a reply. -/
def requestMsg (gen : TokenGenerate) (env : Env) (e : Event) (s : AbilityMgr) : Except Fault AbilityMgr :=
  match e with
  | .startAbility want callingUid => s.startAbilityMsg gen env want callingUid
  | .terminateAbility token => do
    let (_, s) ← s.terminateTask env token
    .ok s
  | .attachBundle client => do
    let (_, s) ← s.attachTask env client
    .ok s
  | .connectAbility want sid token callingUid =>
    s.connectAbilityMsg gen env want sid token callingUid
  | .disconnectAbility sid token => do
    let (_, s) ← s.disconnectTask env sid token
    .ok s
  | .terminateService want callingUid => s.terminateServiceMsg env want callingUid
  | .terminateApp bundleName => do
    let (_, s) ← s.appTerminateTask env bundleName
    .ok s
  | .restartApp bundleName => s.restartAppMsg gen env bundleName
  | .reply _ | .perform _ _ => .ok s

end AbilityMgr

namespace System

/-- AMS has handled a message, or the program has used a deleted object. -/
def handled (s : System) (x : Except Fault AbilityMgr) : System :=
  match x with
  | .ok ams => { s with ams }
  | .error f => { s with fault := some f }

/-- A process performs the first message sent to it. -/
def performFirst (s : System) (env : Env) (a : Nat) (sid : SvcIdentity) : Option System :=
  if (s.threads a).isAppRunning then do
    let (m, sent) ← takeFirst a s.ams.sent
    let (th, replies) := (s.threads a).perform env sid m
    some { s with
      ams := { s.ams with sent }
      threads := fun b => if b = a then th else s.threads b
      replies := s.replies ++ replies.map fun r => (a, r) }
  else none

def next (gen : TokenGenerate) (s : System) (e : Env × Event) : Option System :=
  match s.fault with
  | some _ => none
  | none =>
    match e.2 with
    | .perform a sid => s.performFirst e.1 a sid
    | .reply a => do
      let (r, replies) ← takeFirst a s.replies
      some ({ s with replies }.handled (s.ams.replyMsg gen e.1 r))
    | event => some (s.handled (s.ams.requestMsg gen e.1 event))

/-- The start of the service: nothing is registered, and no process runs an ability. -/
def IsInit (s : System) : Prop := s = {}

end System
end AbilityLite.Ams
