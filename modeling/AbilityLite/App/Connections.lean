import AbilityLite.Ipc.AbilityThreadClient
import AbilityLite.Run

/-
  The connections of an application to services: `AbilityServiceManager`.

  Each connection has a `StoreArgs`, named by an identity that is never used again. The
  identities handed to AMS all lead to the one `objectStub_` of the manager, so a message
  finds the `StoreArgs` that is in its `args` when the message arrives.

  A call of `ConnectAbility` or `DisconnectAbility`, and a callback that ends by removing
  its `StoreArgs`, takes two steps: up to `ScheduleAms` or the callback of the user, and
  what is left to do when that returns. Anything may happen in between, calls from within
  the callback included. The first of the two steps is taken to be one also where the
  source holds no lock: from `AddStoreArgs` to `ScheduleAms` in `ConnectAbility`, and up to
  the callback of the user in `ConnectAbilityCallBack`.

  What is proved (`connections_sound`): as long as each message is for the connection that
  `args` is of and that is not yet given up, and no two calls or callbacks remove the same
  `StoreArgs`, every message reaches its own connection and nothing freed is used; and the
  first step that is not so breaks this, at once or when a `DisconnectAbility` returns.

  Correspondence (C++ ↔ Lean):
    `StoreArgs`                             ↔ `StoreArgs`
    `ConnectAbility`                        ↔ `connectAbility`, `connectReturns`
    `DisconnectAbility`                     ↔ `disconnectAbility`, `disconnectReturns`
    `AddStoreArgs`, `GetStoreArgs`          ↔ `addStoreArgs`, `getStoreArgs`
    `ConnectAbilityCallBack`                ↔ `connectAbilityCallBack`, `callbackReturns`
-/

namespace AbilityLite.App

open AbilityLite.Ams AbilityLite.Ipc

/-! ## The manager -/

/-- The `IAbilityConnection` (by its address) and the argument of the user. -/
structure StoreArgs where
  conn : Nat
  storeArg : Nat
  deriving DecidableEq, Repr

/-- A call of `OnAbilityConnectDone` or `OnAbilityDisconnectDone`, with the `StoreArgs` it was
made through. -/
structure Invocation where
  connection : Nat
  disconnectDone : Bool
  conn : Nat
  storeArg : Nat
  element : Option ElementName
  serviceSid : Option SvcIdentity
  resultCode : Int
  deriving DecidableEq, Repr

/-- What has begun and will go on with a `StoreArgs` it took. -/
inductive Operation where
  | connect (k : Nat)
  | disconnect (k : Nat)
  | callback (k : Nat)
  deriving DecidableEq, Repr

/-- `connections` are the `StoreArgs` there ever were, `args` is that of `objectStub_`. `delivered`
holds each message's connection and the callback it led to, `usedFreed` is whether something freed
was used. -/
structure AbilityServiceManager where
  connections : List StoreArgs := []
  freed : List Nat := []
  storeList : List Nat := []
  args : Option Nat := none
  underWay : List Operation := []
  delivered : List (Nat × Option Invocation) := []
  usedFreed : Bool := false
  deriving DecidableEq, Repr

def storeListCapacity : Nat := 10240

/-- The connections whose two callbacks are there. -/
abbrev Callable := Nat → Bool

namespace AbilityServiceManager

/-- What is read through a pointer to a `StoreArgs`. -/
def load (s : AbilityServiceManager) (k : Nat) : Option StoreArgs :=
  if k ∈ s.freed then none else s.connections[k]?

/-- The first `StoreArgs` of a list with the connection; no result if a freed one is looked at. -/
def getStoreArgs (s : AbilityServiceManager) (conn : Nat) : List Nat → Option (Option Nat)
  | [] => some none
  | k :: rest =>
    match s.load k with
    | none => none
    | some storeArgs =>
      if storeArgs.conn = conn then some (some k) else s.getStoreArgs conn rest

def addStoreArgs (s : AbilityServiceManager) (conn storeArg : Nat) : AbilityServiceManager :=
  { s with connections := s.connections ++ [⟨conn, storeArg⟩],
           storeList := s.storeList ++ [s.connections.length] }

/-- `storeList_.remove`. -/
def remove (s : AbilityServiceManager) (k : Nat) : AbilityServiceManager :=
  { s with storeList := s.storeList.filter (· ≠ k) }

/-- `ClearStore`. -/
def clearStore (s : AbilityServiceManager) (k : Nat) : AbilityServiceManager :=
  { s with freed := k :: s.freed, usedFreed := s.usedFreed || k ∈ s.freed }

def begin (s : AbilityServiceManager) (o : Operation) : AbilityServiceManager :=
  { s with underWay := o :: s.underWay }

def finish (s : AbilityServiceManager) (o : Operation) : AbilityServiceManager :=
  { s with underWay := s.underWay.erase o }

variable (callable : Callable)

/-- `ConnectAbility` up to the answer of `ScheduleAms`. -/
def connectAbility (s : AbilityServiceManager) (conn storeArg : Nat) : AbilityServiceManager :=
  if !callable conn then s
  else
    match s.getStoreArgs conn s.storeList with
    | none => { s with usedFreed := true }
    | some (some _) => s
    | some none =>
      if s.storeList.length ≥ storeListCapacity then s
      else
        { s.addStoreArgs conn storeArg with args := some s.connections.length }.begin
          (.connect s.connections.length)

/-- The rest of `ConnectAbility`. -/
def connectReturns (s : AbilityServiceManager) (k : Nat) (success : Bool) : AbilityServiceManager :=
  if success then s.finish (.connect k) else ((s.finish (.connect k)).remove k).clearStore k

/-- `DisconnectAbility` up to the answer of `ScheduleAms`. -/
def disconnectAbility (s : AbilityServiceManager) (conn : Nat) : AbilityServiceManager :=
  match s.getStoreArgs conn s.storeList with
  | none => { s with usedFreed := true }
  | some none => s
  | some (some k) => (s.remove k).begin (.disconnect k)

/-- The rest of `DisconnectAbility`. -/
def disconnectReturns (s : AbilityServiceManager) (k : Nat) : AbilityServiceManager :=
  (s.finish (.disconnect k)).clearStore k

def connectCode : UInt32 := AbilityKitCommand.abilityConnect.code
def disconnectCode : UInt32 := AbilityKitCommand.abilityDisconnect.code
def connectFailCode : UInt32 := 6

variable (p : Platform)

/-- What a message is understood as: the service, the element and the result. -/
def parse (code : UInt32) (data : Io SvcIdentity) :
    Option SvcIdentity × Option ElementName × Int :=
  let (serviceSid, data) :=
    if code = connectCode then readRemoteObject data else (none, data)
  let (element, _) := p.element.read data
  let failed := code = connectFailCode ∨ (code = connectCode ∧ serviceSid = none) ∨ element = none
  (serviceSid, element, if failed then -1 else 0)

/-- The user's callback that a message is passed on to. -/
def invocation (j : Nat) (storeArgs : StoreArgs) (code : UInt32) (data : Io SvcIdentity) :
    Invocation :=
  let (serviceSid, element, resultCode) := parse p code data
  { connection := j, disconnectDone := code = disconnectCode, conn := storeArgs.conn,
    storeArg := storeArgs.storeArg, element, serviceSid, resultCode }

/-- `ConnectAbilityCallBack` on a message for connection `k`, up to the return of the user's
callback. -/
def connectAbilityCallBack (s : AbilityServiceManager) (k : Nat) (code : UInt32)
    (data : Io SvcIdentity) : AbilityServiceManager :=
  match s.args with
  | none => { s with delivered := s.delivered ++ [(k, none)] }
  | some j =>
    match s.load j with
    | none => { s with delivered := s.delivered ++ [(k, none)], usedFreed := true }
    | some storeArgs =>
      if !callable storeArgs.conn then
        ({ s with delivered := s.delivered ++ [(k, none)] }.remove j).clearStore j
      else
        let i := invocation p j storeArgs code data
        let s := { s with delivered := s.delivered ++ [(k, some i)] }
        if code ≠ connectCode ∨ i.resultCode = -1 then s.begin (.callback j) else s

/-- The rest of a callback that removes the `StoreArgs`. -/
def callbackReturns (s : AbilityServiceManager) (k : Nat) : AbilityServiceManager :=
  ((s.finish (.callback k)).remove k).clearStore k

/-! ## Runs -/

/-- A message is for the identity of a connection. -/
inductive Event where
  | connectAbility (conn storeArg : Nat)
  | connectReturns (k : Nat) (success : Bool)
  | disconnectAbility (conn : Nat)
  | disconnectReturns (k : Nat)
  | message (k : Nat) (code : UInt32) (data : Io SvcIdentity)
  | callbackReturns (k : Nat)
  deriving DecidableEq, Repr

/-- A message can come for any connection there ever was. -/
def next (s : AbilityServiceManager) : Event → Option AbilityServiceManager
  | .connectAbility conn storeArg => some (s.connectAbility callable conn storeArg)
  | .connectReturns k success =>
    if .connect k ∈ s.underWay then some (s.connectReturns k success) else none
  | .disconnectAbility conn => some (s.disconnectAbility conn)
  | .disconnectReturns k =>
    if .disconnect k ∈ s.underWay then some (s.disconnectReturns k) else none
  | .message k code data =>
    if k < s.connections.length then some (s.connectAbilityCallBack callable p k code data) else none
  | .callbackReturns k => if .callback k ∈ s.underWay then some (s.callbackReturns k) else none

/-- A message led to the callback of its own connection, with that connection's argument. -/
def Own (connections : List StoreArgs) (d : Nat × Option Invocation) : Prop :=
  ∃ i storeArgs, d.2 = some i ∧ i.connection = d.1 ∧ connections[d.1]? = some storeArgs ∧
    i.conn = storeArgs.conn ∧ i.storeArg = storeArgs.storeArg

/-- Every message so far reached its own connection, and nothing freed was used. -/
structure Sound (s : AbilityServiceManager) : Prop where
  own : ∀ d ∈ s.delivered, Own s.connections d
  used : s.usedFreed = false

/-- A message is for the connection that was made last, which is not given up; and what is
removed at the end of a `ConnectAbility` or of a callback is still in the list. -/
def keeps (s : AbilityServiceManager) : Event → Prop
  | .message k _ _ => s.args = some k ∧ (k ∈ s.storeList ∨ .disconnect k ∈ s.underWay)
  | .connectReturns k success => success = false → k ∈ s.storeList
  | .callbackReturns k => k ∈ s.storeList
  | _ => True

/-! ## The invariant -/

variable {callable p}

/-- Each connection is listed, or its `DisconnectAbility` is under way, or it is freed, and only
one of these. -/
structure Inv (callable : Callable) (s : AbilityServiceManager) : Prop where
  sound : Sound s
  listed : ∀ k ∈ s.storeList, k ∉ s.freed ∧ k < s.connections.length
  removed : ∀ k, .disconnect k ∈ s.underWay →
    k ∉ s.freed ∧ k ∉ s.storeList ∧ k < s.connections.length
  known : ∀ k, .connect k ∈ s.underWay ∨ .callback k ∈ s.underWay → k < s.connections.length
  once : ∀ k, s.underWay.count (.disconnect k) ≤ 1
  owned : ∀ k, k < s.connections.length →
    k ∈ s.freed ∨ k ∈ s.storeList ∨ .disconnect k ∈ s.underWay
  freed : ∀ k ∈ s.freed, k < s.connections.length
  args : ∀ j, s.args = some j → j < s.connections.length
  hasArgs : s.connections ≠ [] → s.args.isSome = true
  callable : ∀ (k : Nat) storeArgs, s.connections[k]? = some storeArgs →
    callable storeArgs.conn = true

theorem load_of_not_freed {s : AbilityServiceManager} {k : Nat} (hk : k ∉ s.freed)
    (hlt : k < s.connections.length) : s.load k = some s.connections[k] := by
  rw [load, if_neg hk, List.getElem?_eq_getElem hlt]

/-- Looking through a list of connections that are there. -/
theorem getStoreArgs_listed {s : AbilityServiceManager} (conn : Nat) {l : List Nat}
    (h : ∀ k ∈ l, k ∉ s.freed ∧ k < s.connections.length) :
    ∃ found, s.getStoreArgs conn l = some found ∧ ∀ k, found = some k → k ∈ l := by
  induction l with
  | nil => exact ⟨none, rfl, fun k hk => nomatch hk⟩
  | cons k l ih =>
    obtain ⟨hfreed, hlt⟩ := h k List.mem_cons_self
    rw [getStoreArgs, load_of_not_freed hfreed hlt]
    dsimp only
    split
    · exact ⟨some k, rfl, fun j hj => Option.some.inj hj ▸ List.mem_cons_self⟩
    · obtain ⟨found, hfound, hmem⟩ := ih fun j hj => h j (List.mem_cons_of_mem k hj)
      exact ⟨found, hfound, fun j hj => List.mem_cons_of_mem k (hmem j hj)⟩

theorem Own.append {connections : List StoreArgs} {d : Nat × Option Invocation}
    (h : Own connections d) (new : List StoreArgs) : Own (connections ++ new) d := by
  obtain ⟨i, storeArgs, hi, hconnection, hget, hconn, harg⟩ := h
  refine ⟨i, storeArgs, hi, hconnection, ?_, hconn, harg⟩
  rw [List.getElem?_append_left (List.getElem?_eq_some_iff.mp hget).1]
  exact hget

/-! ## What each event keeps -/

/-- Something other than a `DisconnectAbility` begins or ends. -/
theorem Inv.underWay {s : AbilityServiceManager} (h : Inv callable s) (l : List Operation)
    (hl : ∀ k, l.count (.disconnect k) = s.underWay.count (.disconnect k))
    (hknown : ∀ k, .connect k ∈ l ∨ .callback k ∈ l → k < s.connections.length) :
    Inv callable { s with underWay := l } := by
  have hmem : ∀ k, .disconnect k ∈ l ↔ .disconnect k ∈ s.underWay := fun k => by
    rw [← List.count_pos_iff, ← List.count_pos_iff, hl]
  constructor
  case sound => exact ⟨h.sound.own, h.sound.used⟩
  case listed => exact h.listed
  case removed => exact fun k hk => h.removed k ((hmem k).mp hk)
  case known => exact hknown
  case once => exact fun k => hl k ▸ h.once k
  case owned => exact fun k hk => (h.owned k hk).imp_right (Or.imp_right (hmem k).mpr)
  case freed => exact h.freed
  case args => exact h.args
  case hasArgs => exact h.hasArgs
  case callable => exact h.callable

/-- What is in the list is removed and freed. -/
theorem Inv.release {s : AbilityServiceManager} (h : Inv callable s) {k : Nat}
    (hk : k ∈ s.storeList) : Inv callable ((s.remove k).clearStore k) := by
  obtain ⟨hfreed, hlt⟩ := h.listed k hk
  constructor
  case sound => exact ⟨h.sound.own, by simp [clearStore, remove, h.sound.used, hfreed]⟩
  case listed =>
    intro j hj
    obtain ⟨hj, hne⟩ := List.mem_filter.mp hj
    obtain ⟨hjfreed, hjlt⟩ := h.listed j hj
    refine ⟨fun hmem => ?_, hjlt⟩
    rcases List.mem_cons.mp hmem with rfl | hmem
    · exact absurd rfl (of_decide_eq_true hne)
    · exact hjfreed hmem
  case removed =>
    intro j hj
    obtain ⟨hjfreed, hjlist, hjlt⟩ := h.removed j hj
    refine ⟨fun hmem => ?_, fun hmem => hjlist (List.mem_filter.mp hmem).1, hjlt⟩
    rcases List.mem_cons.mp hmem with rfl | hmem
    · exact hjlist hk
    · exact hjfreed hmem
  case known => exact h.known
  case once => exact h.once
  case owned =>
    intro j hj
    by_cases hjk : j = k
    · exact .inl (hjk ▸ List.mem_cons_self)
    · rcases h.owned j hj with hmem | hmem | hmem
      · exact .inl (List.mem_cons_of_mem k hmem)
      · exact .inr (.inl (List.mem_filter.mpr ⟨hmem, decide_eq_true hjk⟩))
      · exact .inr (.inr hmem)
  case freed =>
    intro j hj
    rcases List.mem_cons.mp hj with rfl | hj
    · exact hlt
    · exact h.freed j hj
  case args => exact h.args
  case hasArgs => exact h.hasArgs
  case callable => exact h.callable

theorem Inv.connectAbility {s : AbilityServiceManager} (h : Inv callable s) (conn storeArg : Nat) :
    Inv callable (s.connectAbility callable conn storeArg) := by
  unfold AbilityServiceManager.connectAbility
  obtain ⟨found, hfound, -⟩ := getStoreArgs_listed conn h.listed
  split
  · exact h
  · rename_i hcallable
    rw [hfound]
    cases found with
    | some k => exact h
    | none =>
      dsimp only
      split
      · exact h
      · have hnew : s.connections.length ∉ s.freed := fun hmem =>
          Nat.lt_irrefl _ (h.freed _ hmem)
        have hlength : (s.connections ++ [(⟨conn, storeArg⟩ : StoreArgs)]).length =
            s.connections.length + 1 := by simp
        refine Inv.underWay (s := { s.addStoreArgs conn storeArg with
          args := some s.connections.length }) ?_ _ (fun k => by simp) fun k hk => ?_
        rotate_left
        · simp only [List.mem_cons, Operation.connect.injEq, reduceCtorEq, false_or] at hk
          rcases hk with (rfl | hk) | hk
          · exact Nat.lt_of_lt_of_eq (Nat.lt_succ_self _) hlength.symm
          · exact Nat.lt_of_lt_of_eq (Nat.lt_succ_of_lt (h.known k (.inl hk))) hlength.symm
          · exact Nat.lt_of_lt_of_eq (Nat.lt_succ_of_lt (h.known k (.inr hk))) hlength.symm
        constructor
        case sound => exact ⟨fun d hd => (h.sound.own d hd).append _, h.sound.used⟩
        case listed =>
          intro k hk
          rcases List.mem_append.mp hk with hk | hk
          · obtain ⟨hfreed, hlt⟩ := h.listed k hk
            exact ⟨hfreed, Nat.lt_of_lt_of_eq (Nat.lt_succ_of_lt hlt) hlength.symm⟩
          · rw [List.mem_singleton] at hk
            subst hk
            exact ⟨hnew, Nat.lt_of_lt_of_eq (Nat.lt_succ_self _) hlength.symm⟩
        case removed =>
          intro k hk
          obtain ⟨hfreed, hlist, hlt⟩ := h.removed k hk
          refine ⟨hfreed, fun hmem => ?_, Nat.lt_of_lt_of_eq (Nat.lt_succ_of_lt hlt) hlength.symm⟩
          rcases List.mem_append.mp hmem with hmem | hmem
          · exact hlist hmem
          · exact Nat.ne_of_lt hlt (List.mem_singleton.mp hmem)
        case known =>
          exact fun k hk => Nat.lt_of_lt_of_eq (Nat.lt_succ_of_lt (h.known k hk)) hlength.symm
        case once => exact h.once
        case owned =>
          intro k hk
          rcases Nat.lt_succ_iff_lt_or_eq.mp (Nat.lt_of_lt_of_eq hk hlength) with hk | rfl
          · exact (h.owned k hk).imp_right (Or.imp_left (List.mem_append_left _))
          · exact .inr (.inl (List.mem_append_right _ List.mem_cons_self))
        case freed =>
          exact fun k hk => Nat.lt_of_lt_of_eq (Nat.lt_succ_of_lt (h.freed k hk)) hlength.symm
        case args =>
          intro j hj
          cases hj
          exact Nat.lt_of_lt_of_eq (Nat.lt_succ_self _) hlength.symm
        case hasArgs => exact fun _ => rfl
        case callable =>
          intro k storeArgs hget
          rcases Nat.lt_or_ge k s.connections.length with hk | hk
          · refine h.callable k storeArgs ?_
            rwa [addStoreArgs, List.getElem?_append_left hk] at hget
          · have hmem := List.mem_of_getElem? (by
              rwa [addStoreArgs, List.getElem?_append_right hk] at hget)
            rw [List.mem_singleton] at hmem
            subst hmem
            simpa using hcallable

/-- A connection that is listed goes from the list to a `DisconnectAbility` under way. -/
theorem Inv.disconnectAbility {s : AbilityServiceManager} (h : Inv callable s) (conn : Nat) :
    Inv callable (s.disconnectAbility conn) := by
  unfold AbilityServiceManager.disconnectAbility
  obtain ⟨found, hfound, hmem⟩ := getStoreArgs_listed conn h.listed
  rw [hfound]
  cases found with
  | none => exact h
  | some k =>
    have hk := hmem k rfl
    have hnot : .disconnect k ∉ s.underWay := fun hin => (h.removed k hin).2.1 hk
    constructor
    case sound => exact ⟨h.sound.own, h.sound.used⟩
    case listed => exact fun j hj => h.listed j (List.mem_filter.mp hj).1
    case removed =>
      intro j hj
      rcases List.mem_cons.mp hj with hj | hj
      · cases hj
        obtain ⟨hfreed, hlt⟩ := h.listed k hk
        refine ⟨hfreed, fun hin => ?_, hlt⟩
        exact absurd rfl (of_decide_eq_true (List.mem_filter.mp hin).2)
      · obtain ⟨hfreed, hlist, hlt⟩ := h.removed j hj
        exact ⟨hfreed, fun hin => hlist (List.mem_filter.mp hin).1, hlt⟩
    case known =>
      intro j hj
      simp only [begin, List.mem_cons, reduceCtorEq, false_or] at hj
      exact h.known j hj
    case once =>
      intro j
      simp only [begin, remove, List.count_cons]
      split
      · rename_i heq
        cases eq_of_beq heq
        exact Nat.le_of_eq (congrArg (· + 1) (List.count_eq_zero.mpr hnot))
      · exact h.once j
    case owned =>
      intro j hj
      by_cases hjk : j = k
      · exact .inr (.inr (hjk ▸ List.mem_cons_self))
      · rcases h.owned j hj with hin | hin | hin
        · exact .inl hin
        · exact .inr (.inl (List.mem_filter.mpr ⟨hin, decide_eq_true hjk⟩))
        · exact .inr (.inr (List.mem_cons_of_mem _ hin))
    case freed => exact h.freed
    case args => exact h.args
    case hasArgs => exact h.hasArgs
    case callable => exact h.callable

theorem Inv.disconnectReturns {s : AbilityServiceManager} (h : Inv callable s) {k : Nat}
    (hk : .disconnect k ∈ s.underWay) : Inv callable (s.disconnectReturns k) := by
  obtain ⟨hfreed, hlist, hlt⟩ := h.removed k hk
  have hcount : (s.underWay.erase (.disconnect k)).count (.disconnect k) = 0 := by
    rw [List.count_erase_self]
    have := h.once k
    omega
  have hnot : .disconnect k ∉ s.underWay.erase (.disconnect k) := List.count_eq_zero.mp hcount
  constructor
  case sound => exact ⟨h.sound.own, by simp [AbilityServiceManager.disconnectReturns, clearStore,
    finish, h.sound.used, hfreed]⟩
  case listed =>
    intro j hj
    obtain ⟨hjfreed, hjlt⟩ := h.listed j hj
    refine ⟨fun hin => ?_, hjlt⟩
    rcases List.mem_cons.mp hin with rfl | hin
    · exact hlist hj
    · exact hjfreed hin
  case removed =>
    intro j hj
    obtain ⟨hjfreed, hjlist, hjlt⟩ := h.removed j (List.mem_of_mem_erase hj)
    refine ⟨fun hin => ?_, hjlist, hjlt⟩
    rcases List.mem_cons.mp hin with rfl | hin
    · exact hnot hj
    · exact hjfreed hin
  case known =>
    exact fun j hj => h.known j (hj.imp List.mem_of_mem_erase List.mem_of_mem_erase)
  case once => exact fun j => Nat.le_trans (List.erase_sublist.count_le _) (h.once j)
  case owned =>
    intro j hj
    by_cases hjk : j = k
    · exact .inl (hjk ▸ List.mem_cons_self)
    · rcases h.owned j hj with hin | hin | hin
      · exact .inl (List.mem_cons_of_mem k hin)
      · exact .inr (.inl hin)
      · refine .inr (.inr ((List.mem_erase_of_ne fun heq => hjk ?_).mpr hin))
        cases heq
        rfl
  case freed =>
    intro j hj
    rcases List.mem_cons.mp hj with rfl | hj
    · exact hlt
    · exact h.freed j hj
  case args => exact h.args
  case hasArgs => exact h.hasArgs
  case callable => exact h.callable

theorem Inv.finish {s : AbilityServiceManager} (h : Inv callable s) {o : Operation}
    (ho : ∀ k, o ≠ .disconnect k) : Inv callable (s.finish o) :=
  h.underWay _ (fun k => List.count_erase_of_ne (ho k).symm)
    fun k hk => h.known k (hk.imp List.mem_of_mem_erase List.mem_of_mem_erase)

theorem Inv.connectReturns {s : AbilityServiceManager} (h : Inv callable s) {k : Nat}
    {success : Bool} (hkeep : success = false → k ∈ s.storeList) :
    Inv callable (s.connectReturns k success) := by
  have hfinish := h.finish (o := .connect k) fun _ heq => nomatch heq
  unfold AbilityServiceManager.connectReturns
  cases success with
  | true => exact hfinish
  | false => exact hfinish.release (hkeep rfl)

theorem Inv.callbackReturns {s : AbilityServiceManager} (h : Inv callable s) {k : Nat}
    (hkeep : k ∈ s.storeList) : Inv callable (s.callbackReturns k) :=
  (h.finish (o := .callback k) fun _ heq => nomatch heq).release hkeep

/-- A connection that is not freed has what it was made with. -/
theorem Inv.load {s : AbilityServiceManager} (h : Inv callable s) {k : Nat} (hk : k ∉ s.freed)
    (hlt : k < s.connections.length) :
    ∃ storeArgs, s.load k = some storeArgs ∧ s.connections[k]? = some storeArgs ∧
      callable storeArgs.conn = true := by
  have hget := List.getElem?_eq_getElem hlt
  exact ⟨_, load_of_not_freed hk hlt, hget, h.callable k _ hget⟩

theorem Inv.message {s : AbilityServiceManager} (h : Inv callable s) {k : Nat} (code : UInt32)
    (data : Io SvcIdentity) (hargs : s.args = some k)
    (hkeep : k ∈ s.storeList ∨ .disconnect k ∈ s.underWay) :
    Inv callable (s.connectAbilityCallBack callable p k code data) := by
  have hlive : k ∉ s.freed ∧ k < s.connections.length := by
    rcases hkeep with hin | hin
    · exact h.listed k hin
    · exact ⟨(h.removed k hin).1, (h.removed k hin).2.2⟩
  obtain ⟨storeArgs, hload, hget, hcallable⟩ := h.load hlive.1 hlive.2
  simp only [connectAbilityCallBack, hargs, hload, hcallable, Bool.not_true, Bool.false_eq_true,
    if_false]
  rw [← hargs]
  have hdelivered : Inv callable { s with
      delivered := s.delivered ++ [(k, some (invocation p k storeArgs code data))] } := by
    refine { h with sound := ⟨fun d hd => ?_, h.sound.used⟩ }
    rcases List.mem_append.mp hd with hd | hd
    · exact h.sound.own d hd
    · rw [List.mem_singleton] at hd
      subst hd
      exact ⟨_, storeArgs, rfl, rfl, hget, rfl, rfl⟩
  split
  · refine hdelivered.underWay _ (fun j => ?_) fun j hj => ?_
    · exact List.count_cons_of_ne fun heq => Operation.noConfusion heq
    simp only [List.mem_cons, Operation.callback.injEq, reduceCtorEq, false_or] at hj
    rcases hj with hj | rfl | hj
    · exact h.known j (.inl hj)
    · exact hlive.2
    · exact h.known j (.inr hj)
  · exact hdelivered

theorem Inv.next {s s' : AbilityServiceManager} {e : Event} (h : Inv callable s)
    (hkeep : keeps s e) (hnext : next callable p s e = some s') : Inv callable s' := by
  cases e with
  | connectAbility conn storeArg =>
    cases hnext
    exact h.connectAbility conn storeArg
  | disconnectAbility conn =>
    cases hnext
    exact h.disconnectAbility conn
  | connectReturns k success =>
    simp only [AbilityServiceManager.next] at hnext
    split at hnext <;> cases hnext
    exact h.connectReturns hkeep
  | disconnectReturns k =>
    simp only [AbilityServiceManager.next] at hnext
    split at hnext <;> cases hnext
    exact h.disconnectReturns ‹_›
  | message k code data =>
    simp only [AbilityServiceManager.next] at hnext
    split at hnext <;> cases hnext
    exact h.message code data hkeep.1 hkeep.2
  | callbackReturns k =>
    simp only [AbilityServiceManager.next] at hnext
    split at hnext <;> cases hnext
    exact h.callbackReturns hkeep

theorem inv_init : Inv callable {} := by
  refine ⟨⟨?_, rfl⟩, ?_, ?_, ?_, ?_, ?_, ?_, ?_, ?_, ?_⟩ <;> simp

theorem inv_of_reached {s : AbilityServiceManager}
    (h : Reached (next callable p) keeps (· = {}) s) : Inv callable s :=
  h.invariant (fun _ hinit => hinit ▸ inv_init) fun _ _ _ hinv hkeep hnext => hinv.next hkeep hnext

/-! ## The condition is needed -/

theorem not_sound_of_usedFreed {s : AbilityServiceManager} (h : s.usedFreed = true) : ¬ Sound s :=
  fun hs => Bool.noConfusion (h.symm.trans hs.used)

/-- Freeing what is no longer listed is a use of something freed, now or when the
`DisconnectAbility` that took it returns. -/
theorem Inv.release_unlisted {s : AbilityServiceManager} (h : Inv callable s) {k : Nat}
    (hk : k ∉ s.storeList) (hlt : k < s.connections.length) :
    ¬ Sound ((s.remove k).clearStore k) ∨
    ∃ s', AbilityServiceManager.next callable p ((s.remove k).clearStore k) (.disconnectReturns k) = some s' ∧
      ¬ Sound s' := by
  rcases h.owned k hlt with hin | hin | hin
  · refine .inl (not_sound_of_usedFreed ?_)
    simp [clearStore, remove, hin]
  · exact absurd hin hk
  · refine .inr ⟨_, if_pos hin, not_sound_of_usedFreed ?_⟩
    simp [AbilityServiceManager.disconnectReturns, AbilityServiceManager.finish, clearStore, remove]

theorem Inv.message_breaks {s : AbilityServiceManager} (h : Inv callable s) {k : Nat}
    (code : UInt32) (data : Io SvcIdentity) (hlt : k < s.connections.length)
    (hkeep : ¬ keeps s (.message k code data)) :
    ¬ Sound (s.connectAbilityCallBack callable p k code data) := by
  obtain ⟨j, hj⟩ := Option.isSome_iff_exists.mp
    (h.hasArgs (List.ne_nil_of_length_pos (Nat.zero_lt_of_lt hlt)))
  by_cases hfreed : j ∈ s.freed
  · apply not_sound_of_usedFreed
    simp only [connectAbilityCallBack, hj, AbilityServiceManager.load, if_pos hfreed]
  · obtain ⟨storeArgs, hload, -, hcallable⟩ := h.load hfreed (h.args j hj)
    have hjk : j ≠ k := by
      rintro rfl
      exact hkeep ⟨hj, (h.owned j hlt).resolve_left hfreed⟩
    intro hsound
    have hown := hsound.own (k, some (invocation p j storeArgs code data)) (by
      simp only [connectAbilityCallBack, hj, hload, hcallable, Bool.not_true, Bool.false_eq_true,
        if_false]
      split <;> exact List.mem_append_right _ List.mem_cons_self)
    obtain ⟨i, _, hi, hconnection, -⟩ := hown
    cases hi
    exact hjk hconnection

theorem Inv.not_keeps {s s' : AbilityServiceManager} {e : Event} (h : Inv callable s)
    (hkeep : ¬ keeps s e) (hnext : AbilityServiceManager.next callable p s e = some s') :
    ¬ Sound s' ∨ ∃ k s'', AbilityServiceManager.next callable p s' (.disconnectReturns k) = some s'' ∧ ¬ Sound s'' := by
  cases e with
  | connectAbility conn storeArg => exact absurd trivial hkeep
  | disconnectAbility conn => exact absurd trivial hkeep
  | disconnectReturns k => exact absurd trivial hkeep
  | message k code data =>
    simp only [AbilityServiceManager.next] at hnext
    split at hnext <;> cases hnext
    exact .inl (h.message_breaks code data ‹_› hkeep)
  | connectReturns k success =>
    simp only [AbilityServiceManager.next] at hnext
    split at hnext <;> cases hnext
    rename_i hin
    cases success with
    | true => exact absurd (fun hfail => nomatch hfail) hkeep
    | false =>
      have hfinish := h.finish (o := .connect k) fun _ heq => nomatch heq
      have hlist : k ∉ s.storeList := fun hin => hkeep fun _ => hin
      exact (hfinish.release_unlisted hlist (h.known k (.inl hin))).imp_right fun hex => ⟨k, hex⟩
  | callbackReturns k =>
    simp only [AbilityServiceManager.next] at hnext
    split at hnext <;> cases hnext
    rename_i hin
    have hfinish := h.finish (o := .callback k) fun _ heq => nomatch heq
    exact (hfinish.release_unlisted hkeep (h.known k (.inr hin))).imp_right fun hex => ⟨k, hex⟩

/-- As long as each step keeps to the condition every message reaches its own connection and
nothing freed is used; and a step that does not breaks this, at once or when a `DisconnectAbility`
returns. -/
theorem connections_sound (callable : Callable) (p : Platform) (s : AbilityServiceManager)
    (h : Reached (next callable p) keeps (· = {}) s) :
    Sound s ∧ ∀ e s', next callable p s e = some s' →
      (keeps s e → Sound s') ∧
      (¬ keeps s e → ¬ Sound s' ∨
        ∃ k s'', next callable p s' (.disconnectReturns k) = some s'' ∧ ¬ Sound s'') := by
  have hinv := inv_of_reached h
  refine ⟨hinv.sound, fun e s' hnext => ?_⟩
  exact ⟨fun hkeep => (hinv.next hkeep hnext).sound, fun hkeep => hinv.not_keeps hkeep hnext⟩

/-- The service that was connected to, and its element. -/
def connectDone : Io SvcIdentity :=
  [.object ⟨3, 4⟩, .word 0, .word 1, .string (cstr "a"), .word 0]

/-- A service is connected to, and answers. -/
theorem connections_sound_answer :
    ∃ s, run (next (fun _ => true) plain) {}
      [.connectAbility 1 10, .connectReturns 0 true, .message 0 connectCode connectDone] = some s ∧
      Sound s := by
  refine ⟨_, rfl, (connections_sound (fun _ => true) plain _ ?_).1⟩
  have hnew : Reached (next (fun _ => true) plain) keeps (· = {}) {} := .init rfl
  have hconnect := hnew.step (show keeps _ (.connectAbility 1 10) from trivial) rfl
  have hreturns := hconnect.step
    (show keeps _ (.connectReturns 0 true) from fun hfail => nomatch hfail) rfl
  exact hreturns.step (show keeps _ (.message 0 connectCode connectDone) from
    ⟨rfl, .inl List.mem_cons_self⟩) rfl

/-- Two services are connected to, and the answer for the first comes. -/
def secondConnection : List Event :=
  [.connectAbility 1 10, .connectReturns 0 true, .connectAbility 2 20, .connectReturns 1 true,
    .message 0 connectCode connectDone]

/-- The answer for the first connection is passed on to the second. -/
theorem connections_second :
    ¬ ∀ s, Reached (next (fun _ => true) plain) (fun _ _ => True) (· = {}) s → Sound s := by
  intro h
  have hrun : ∃ s i, run (next (fun _ => true) plain) {} secondConnection = some s ∧
      s.delivered = [(0, some i)] ∧ i.connection = 1 := ⟨_, _, rfl, rfl, rfl⟩
  obtain ⟨s, i, hs, hdelivered, hconnection⟩ := hrun
  have hown := (h s (Reached.of_run (.init rfl) _ hs)).own (0, some i)
    (hdelivered ▸ List.mem_cons_self)
  obtain ⟨i', _, hi, hzero, -⟩ := hown
  cases hi
  cases hconnection.symm.trans hzero

end AbilityServiceManager
end AbilityLite.App
