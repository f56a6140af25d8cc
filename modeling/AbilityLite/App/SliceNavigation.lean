import AbilityLite.App.SliceScheduler

/-
  Going forth and back between slices.

  `Terminate` undoes `Present`: slices presented one over the other and then terminated from
  the top leave the scheduler as it was. What this needs of the state is less than `Inv`
  and holds in every run, also where a slice of the stack was presented again: only the slice on top
  is active, and whoever may call `Present` knows the manager.
-/

namespace AbilityLite.App

open AbilityLite.Ams

namespace Slices

variable (s : Slices) (c : Callback) (i j : Nat)

/-! ## Managers -/

/-- The slice knows its manager. -/
def knowsManager (s : Slices) (i : Nat) : Bool := (s.slices i).abilitySliceManager

@[simp] theorem knowsManager_invoke : (s.invoke c i).knowsManager j = s.knowsManager j := by
  simp only [knowsManager, invoke, setSlice]
  split
  · next h => rw [h]
  · rfl

theorem knowsManager_init : (s.init i).knowsManager j = (decide (j = i) || s.knowsManager j) := by
  simp only [knowsManager, init, setSlice]
  by_cases h : j = i
  · simp [h]
  · simp [h]

theorem knowsManager_foldl_stop (l : List Nat) (s : Slices) :
    (l.foldl (fun s i => s.invoke .onStop i) s).knowsManager j = s.knowsManager j := by
  induction l generalizing s with
  | nil => rfl
  | cons i l ih => rw [List.foldl_cons, ih, knowsManager_invoke]

/-! ## What holds in every run -/

/-- Only the slice on top is active, and a slice that is on top, in the stack or initialised knows
its manager. -/
structure Known (s : Slices) : Prop where
  active : ∀ i, s.getState i = .active → s.topAbilitySlice = some i
  top : ∀ i, s.topAbilitySlice = some i → s.knowsManager i = true
  stack : ∀ i ∈ s.abilitySliceStack, s.knowsManager i = true
  others : ∀ i, s.getState i ≠ .uninitialized → s.knowsManager i = true

variable {s} {i}

theorem Known.onTop (h : Known s) (c : Callback) : Known (s.onTop c) := by
  unfold Slices.onTop
  split
  · exact h
  · next top htop =>
    constructor
    case active =>
      intro j hj
      by_cases hne : j = top
      · rw [hne]
        exact htop
      · rw [getState_invoke_ne _ _ _ _ hne] at hj
        exact h.active j hj
    case top => exact fun j hj => (knowsManager_invoke s c top j).trans (h.top j hj)
    case stack => exact fun j hj => (knowsManager_invoke s c top j).trans (h.stack j hj)
    case others =>
      intro j hj
      rw [knowsManager_invoke]
      by_cases hne : j = top
      · rw [hne]
        exact h.top top htop
      · rw [getState_invoke_ne _ _ _ _ hne] at hj
        exact h.others j hj

theorem Known.start (h : Known s) (loaded : Option Nat) : Known (s.handleStartAbilitySlice loaded) := by
  unfold handleStartAbilitySlice
  split
  · exact h
  · next top hloaded =>
    -- with a slice on top it is that one that is started, so no other was active
    have hactive : ∀ j, j ≠ top → s.getState j ≠ .active := by
      intro j hne hj
      rw [h.active j hj, Option.some.injEq] at hloaded
      exact hne hloaded
    have hknows : ∀ j, (({ s with topAbilitySlice := some top } : Slices).init top).knowsManager j =
        (decide (j = top) || s.knowsManager j) := fun j => knowsManager_init _ top j
    have hstate : ∀ j, j ≠ top →
        ((({ s with topAbilitySlice := some top } : Slices).init top).invoke .onStart top).getState j =
          s.getState j := by
      intro j hne
      rw [getState_invoke_ne _ _ _ _ hne, getState_init, if_neg hne]
      rfl
    constructor
    case active =>
      intro j hj
      by_cases hne : j = top
      · rw [hne, getState_invoke_same] at hj
        cases hj
      · rw [hstate j hne] at hj
        exact absurd hj (hactive j hne)
    case top =>
      intro j hj
      cases hj
      rw [knowsManager_invoke, hknows]
      simp
    case stack =>
      intro j hj
      rw [knowsManager_invoke, hknows, h.stack j hj, Bool.or_true]
    case others =>
      intro j hj
      rw [knowsManager_invoke, hknows]
      by_cases hne : j = top
      · simp [hne]
      · rw [hstate j hne] at hj
        rw [h.others j hj, Bool.or_true]

theorem Known.stop (h : Known s) : Known s.handleStopAbilitySlice := by
  unfold handleStopAbilitySlice
  split
  · exact h
  · next top htop =>
    simp only
    constructor
    case active =>
      intro j hj
      have hj' : ((s.abilitySliceStack.foldl (fun s i => s.invoke .onStop i)
          (s.invoke .onStop top)).getState j) = .active := hj
      rw [getState_foldl_stop] at hj'
      split at hj'
      · cases hj'
      · rw [getState_invoke] at hj'
        split at hj'
        · cases hj'
        · next hne =>
          have hat := h.active j hj'
          rw [htop, Option.some.injEq] at hat
          exact absurd hat.symm hne
    case top => intro j hj; cases hj
    case stack => intro j hj; cases hj
    case others =>
      intro j hj
      show ((s.abilitySliceStack.foldl (fun s i => s.invoke .onStop i)
        (s.invoke .onStop top)).knowsManager j) = true
      rw [knowsManager_foldl_stop, knowsManager_invoke]
      have hj' : ((s.abilitySliceStack.foldl (fun s i => s.invoke .onStop i)
          (s.invoke .onStop top)).getState j) ≠ .uninitialized := hj
      rw [getState_foldl_stop] at hj'
      split at hj'
      · next hmem => exact h.stack j hmem
      · rw [getState_invoke] at hj'
        split at hj'
        · next hne => exact h.top j (hne ▸ htop)
        · exact h.others j hj'

/-! ## Adding and removing -/

theorem getState_ite_invoke (p : Prop) [Decidable p] (s : Slices) (c : Callback) (i j : Nat) :
    (if p then s.invoke c i else s).getState j = if p ∧ j = i then c.target else s.getState j := by
  by_cases hp : p
  · simp only [hp, if_true, true_and]
    exact getState_invoke s c i j
  · simp only [hp, if_false, false_and]

theorem getState_ite_init (p : Prop) [Decidable p] (s : Slices) (i j : Nat) :
    (if p then s.init i else s).getState j = if p ∧ j = i then .initial else s.getState j := by
  by_cases hp : p
  · simp only [hp, if_true, true_and]
    exact getState_init s i j
  · simp only [hp, if_false, false_and]

/-- The slice that comes up is active, the one it covers is in the background if it was active. -/
theorem getState_add {top target : Nat} (hne : target ≠ top) (s : Slices) (j : Nat) :
    (s.add top target).getState j =
      if j = target then .active
      else if j = top ∧ (s.getState top = .active ∨ s.getState top = .inactive) then .background
      else s.getState j := by
  simp only [add, getState_lists]
  rw [getState_ite_invoke, getState_invoke, getState_ite_invoke, getState_ite_init,
    getState_ite_invoke]
  by_cases hj : j = target
  · simp [hj, hne, Callback.target]
  · by_cases hjt : j = top
    · by_cases hactive : s.getState top = .active
      · simp [getState_ite_init, hjt, hne.symm, hactive, Callback.target]
      · simp [getState_ite_invoke, getState_ite_init, getState_invoke, hjt, hne.symm, hactive,
          Callback.target]
    · simp [getState_ite_invoke, getState_ite_init, getState_invoke, hj, hjt]

theorem knowsManager_add {top target : Nat} (hne : target ≠ top) (s : Slices) (j : Nat) :
    (s.add top target).knowsManager j =
      (decide (j = target ∧ s.getState target = .uninitialized) || s.knowsManager j) := by
  have hlists (s : Slices) (t : Option Nat) (l : List Nat) :
      ({ s with topAbilitySlice := t, abilitySliceStack := l } : Slices).knowsManager j =
        s.knowsManager j := rfl
  have hite (p : Prop) [Decidable p] (s : Slices) (c : Callback) (i : Nat) :
      (if p then s.invoke c i else s).knowsManager j = s.knowsManager j := by
    split
    · exact knowsManager_invoke s c i j
    · rfl
  simp only [add, hlists, hite, knowsManager_invoke, getState_ite_invoke, hne, and_false, if_false]
  by_cases hfresh : s.getState target = .uninitialized
  · simp only [hfresh, if_true, knowsManager_init, hite, and_true]
  · simp only [hfresh, if_false, and_false, decide_false, Bool.false_or, hite]

theorem Known.add (h : Known s) {top target : Nat} (htop : s.topAbilitySlice = some top)
    (hne : target ≠ top) : Known (s.add top target) := by
  have hknows : ∀ j, s.knowsManager j = true → (s.add top target).knowsManager j = true := by
    intro j hj
    rw [knowsManager_add hne, hj, Bool.or_true]
  have htarget : (s.add top target).knowsManager target = true := by
    rw [knowsManager_add hne]
    by_cases hfresh : s.getState target = .uninitialized
    · simp [hfresh]
    · simp [h.others target hfresh]
  constructor
  case active =>
    intro j hj
    rw [getState_add hne] at hj
    split at hj
    · next hjt => exact hjt ▸ rfl
    · next hjt =>
      split at hj
      · cases hj
      · next hcovered =>
        -- an active slice would be the one on top, which is covered now
        have hat := h.active j hj
        rw [htop, Option.some.injEq] at hat
        exact absurd ⟨hat.symm, .inl (hat ▸ hj)⟩ hcovered
  case top =>
    intro j hj
    have hj' : target = j := Option.some.inj hj
    exact hj' ▸ htarget
  case stack =>
    intro j hj
    rw [add_abilitySliceStack, List.mem_cons] at hj
    rcases hj with rfl | hj
    · exact hknows j (h.top j htop)
    · exact hknows j (h.stack j hj)
  case others =>
    intro j hj
    rw [getState_add hne] at hj
    split at hj
    · next hjt => exact hjt ▸ htarget
    · split at hj
      · next hcovered => exact hknows j (hcovered.1 ▸ h.top top htop)
      · exact hknows j (h.others j hj)

/-- The slice on top goes, whatever state it is in. -/
theorem getState_remove_top (s : Slices) (top next j : Nat) (rest : List Nat)
    (hstack : s.abilitySliceStack = next :: rest) :
    (s.remove top top).getState j =
      if j = top then .initial else if j = next then .active else s.getState j := by
  simp only [remove, if_true, invoke_abilitySliceStack, hstack, getState_lists, getState_invoke,
    Callback.target]
  by_cases hj : j = top
  · simp [hj]
  · by_cases hj' : j = next
    · have hnt : next ≠ top := hj' ▸ hj
      simp [hj', hnt]
    · simp only [hj, hj', if_false]

theorem knowsManager_remove (s : Slices) (top slice j : Nat) :
    (s.remove top slice).knowsManager j = s.knowsManager j := by
  have hlists (s : Slices) (t : Option Nat) (l : List Nat) :
      ({ s with topAbilitySlice := t, abilitySliceStack := l } : Slices).knowsManager j =
        s.knowsManager j := rfl
  unfold remove
  split
  · simp only
    split
    · rw [knowsManager_invoke, knowsManager_invoke]
    · rw [hlists, knowsManager_invoke, knowsManager_invoke, knowsManager_invoke, hlists,
        knowsManager_invoke]
  · rw [hlists, knowsManager_invoke]

/-- Removing a slice takes it out of the lists. -/
theorem remove_lists {s : Slices} {top next : Nat} {rest : List Nat}
    (htop : s.topAbilitySlice = some top) (hstack : s.abilitySliceStack = next :: rest) (slice : Nat) :
    (s.remove top slice).topAbilitySlice = some (if slice = top then next else top) ∧
      (s.remove top slice).abilitySliceStack =
        if slice = top then rest else s.abilitySliceStack.filter (· ≠ slice) := by
  unfold remove
  split
  · simp only [invoke_abilitySliceStack, hstack, and_self]
  · exact ⟨htop, rfl⟩

theorem Known.remove (h : Known s) {top slice : Nat} (htop : s.topAbilitySlice = some top)
    (hslice : slice ∈ s.abilitySliceStack ∨ slice = top) (hstack : s.abilitySliceStack ≠ []) :
    Known (s.remove top slice) := by
  obtain ⟨next, rest, hcons⟩ := List.exists_cons_of_ne_nil hstack
  obtain ⟨htop', hstack'⟩ := remove_lists htop hcons slice
  have hnext : next ∈ s.abilitySliceStack := hcons ▸ List.mem_cons_self ..
  constructor
  case active =>
    intro j hj
    rw [htop']
    by_cases hst : slice = top
    · rw [hst, getState_remove_top s top next j rest hcons] at hj
      rw [if_pos hst]
      split at hj
      · cases hj
      · next hne =>
        split at hj
        · next hjn => rw [hjn]
        · have hat := h.active j hj
          rw [htop, Option.some.injEq] at hat
          exact absurd hat.symm hne
    · rw [if_neg hst, ← htop]
      have hj' : (s.invoke .onStop slice).getState j = .active := by
        rw [Slices.remove, if_neg hst] at hj
        exact hj
      rw [getState_invoke] at hj'
      split at hj'
      · cases hj'
      · exact h.active j hj'
  case top =>
    intro j hj
    rw [knowsManager_remove]
    rw [htop', Option.some.injEq] at hj
    split at hj
    · exact hj ▸ h.stack next hnext
    · exact hj ▸ h.top top htop
  case stack =>
    intro j hj
    rw [knowsManager_remove]
    rw [hstack'] at hj
    split at hj
    · exact h.stack j (hcons ▸ List.mem_cons_of_mem next hj)
    · exact h.stack j (List.mem_filter.mp hj |>.1)
  case others =>
    intro j hj
    rw [knowsManager_remove]
    by_cases hst : slice = top
    · rw [hst, getState_remove_top s top next j rest hcons] at hj
      split at hj
      · next hjt => exact hjt ▸ h.top top htop
      · split at hj
        · next hjn => exact hjn ▸ h.stack next hnext
        · exact h.others j hj
    · have hj' : (s.invoke .onStop slice).getState j ≠ .uninitialized := by
        rw [Slices.remove, if_neg hst] at hj
        exact hj
      rw [getState_invoke] at hj'
      split at hj'
      · next hjs =>
        rw [hjs]
        exact h.stack slice (hslice.resolve_right hst)
      · exact h.others j hj'

end Slices

namespace PageAbility

/-! ## Runs -/

/-- What holds in every run. -/
structure Sound (s : PageAbility) : Prop where
  known : s.scheduler.Known
  gone : s.abilitySliceManager = false → s.scheduler.topAbilitySlice = none

theorem Sound.fresh : Sound {} where
  known :=
    { active := fun i h => by cases h
      top := fun i h => by cases h
      stack := fun i h => by cases h
      others := fun i h => absurd rfl h }
  gone := fun _ => rfl

/-- A callback of the ability reaches the slices while the manager is there. -/
theorem Sound.deliver {s : PageAbility} (h : Sound s) {handle : Slices → Slices}
    (hknown : (handle s.scheduler).Known) (st : State) :
    Sound { s.deliver handle with abilityState := st } := by
  unfold PageAbility.deliver
  split
  · next hm =>
    refine ⟨hknown, fun hgone => ?_⟩
    rw [show s.abilitySliceManager = false from hgone] at hm
    cases hm
  · exact ⟨h.known, h.gone⟩

theorem Sound.present {s : PageAbility} (h : Sound s) (hm : s.abilitySliceManager = true)
    (caller target : Nat) : Sound (s.present caller target) := by
  simp only [PageAbility.present, addAbilitySlice]
  split
  case isFalse => exact h
  case isTrue =>
  split
  case h_1 => exact h
  case h_2 top htop =>
  split
  case isFalse => exact h
  case isTrue hlegal =>
  obtain ⟨top', htop', -, hne⟩ := checkLegalForAdd_eq_true hlegal
  cases htop.symm.trans htop'
  refine ⟨h.known.add htop hne, fun hgone => ?_⟩
  rw [show s.abilitySliceManager = false from hgone] at hm
  cases hm

theorem Sound.terminate {s : PageAbility} (h : Sound s) (hm : s.abilitySliceManager = true)
    (slice : Nat) : Sound (s.terminate slice) := by
  simp only [PageAbility.terminate, removeAbilitySlice]
  split
  case isFalse => exact h
  case isTrue =>
  split
  case h_1 => exact h
  case h_2 top htop =>
  split
  case h_2 s' hlegal =>
    rcases checkLegalForRemove_eq_false hlegal with rfl | rfl
    · exact h
    · exact { h with }
  case h_1 s' hlegal =>
  obtain ⟨hsame, top', htop', -, hin, hsome⟩ := checkLegalForRemove_eq_true hlegal
  subst hsame
  cases htop.symm.trans htop'
  refine ⟨h.known.remove htop hin hsome, fun hgone => ?_⟩
  rw [show s'.abilitySliceManager = false from hgone] at hm
  cases hm

theorem Sound.next {s s' : PageAbility} {e : Event} (h : Sound s) (hnext : next s e = some s') :
    Sound s' := by
  cases e with
  | start loaded =>
    simp only [PageAbility.next, Option.map_eq_some_iff] at hnext
    obtain ⟨st, -, rfl⟩ := hnext
    exact h.deliver (h.known.start loaded) st
  | inactive =>
    simp only [PageAbility.next, Option.map_eq_some_iff] at hnext
    obtain ⟨st, -, rfl⟩ := hnext
    exact h.deliver (h.known.onTop .onInactive) st
  | active =>
    simp only [PageAbility.next, Option.map_eq_some_iff] at hnext
    obtain ⟨st, -, rfl⟩ := hnext
    exact h.deliver (h.known.onTop .onActive) st
  | background =>
    simp only [PageAbility.next, Option.map_eq_some_iff] at hnext
    obtain ⟨st, -, rfl⟩ := hnext
    exact h.deliver (h.known.onTop .onBackground) st
  | stop =>
    simp only [PageAbility.next, Option.map_eq_some_iff] at hnext
    obtain ⟨st, -, rfl⟩ := hnext
    have hstopped := h.deliver h.known.stop st
    refine ⟨hstopped.known, fun _ => ?_⟩
    cases hm : s.abilitySliceManager with
    | false =>
      simp only [PageAbility.deliver, hm, Bool.false_eq_true, if_false]
      exact h.gone hm
    | true =>
      simp only [PageAbility.deliver, hm, if_true, Slices.handleStopAbilitySlice]
      split
      · next htop => exact htop
      · rfl
  | present caller target =>
    simp only [PageAbility.next] at hnext
    split at hnext <;> cases hnext
    exact h.present ‹_› caller target
  | terminate slice =>
    simp only [PageAbility.next] at hnext
    split at hnext <;> cases hnext
    exact h.terminate ‹_› slice

theorem sound_of_reached {s : PageAbility}
    (h : Reached PageAbility.next (fun _ _ => True) (· = {}) s) : Sound s :=
  h.invariant (fun _ hnew => hnew ▸ .fresh) fun _ _ _ hs _ hnext => hs.next hnext

/-! ## Forth and back -/

/-- The slice on top presents another one, or terminates. -/
inductive Move where
  | present (slice : Nat)
  | terminate
  deriving DecidableEq, Repr

def move (s : PageAbility) : Move → Option PageAbility
  | .present slice => s.scheduler.topAbilitySlice.bind fun top => s.next (.present top slice)
  | .terminate => s.scheduler.topAbilitySlice.bind fun top => s.next (.terminate top)

/-- The ability and its slice on top are active. -/
structure Shows (s : PageAbility) (top : Nat) (stack : List Nat) : Prop where
  sound : Sound s
  ability : s.abilityState = .active
  active : s.scheduler.getState top = .active
  top : s.scheduler.topAbilitySlice = some top
  stack : s.scheduler.abilitySliceStack = stack

theorem Shows.manager {s : PageAbility} {top : Nat} {stack : List Nat} (h : Shows s top stack) :
    s.abilitySliceManager = true := by
  cases hm : s.abilitySliceManager with
  | true => rfl
  | false =>
    have hnone := h.sound.gone hm
    rw [h.top] at hnone
    cases hnone

/-- A slice that is not shown yet is let on top. -/
theorem Shows.present {s : PageAbility} {top : Nat} {stack : List Nat} (h : Shows s top stack)
    {x : Nat} (hx : x ≠ top) :
    ∃ s', move s (.present x) = some s' ∧ Shows s' x (top :: stack) ∧
      (∀ j, s'.scheduler.getState j =
        if j = x then .active else if j = top then .background else s.scheduler.getState j) ∧
      s'.terminateAbility = s.terminateAbility := by
  have hknown := h.sound.known
  have hidle : s.scheduler.getState x ≠ .active := by
    intro hactive
    have hat := hknown.active x hactive
    rw [h.top, Option.some.injEq] at hat
    exact hx hat.symm
  have hstarted : notStarted (s.scheduler.getState top) = false := by
    rw [h.active]
    rfl
  have hlegal : s.checkLegalForAdd top x = true := by
    simp only [checkLegalForAdd, h.top, h.ability, hstarted, hidle, hx, ne_eq, not_true_eq_false,
      Bool.false_eq_true, if_false]
  have hmanager : (s.scheduler.slices top).abilitySliceManager = true := hknown.top top h.top
  have hmove : move s (.present x) = some { s with scheduler := s.scheduler.add top x } := by
    simp only [move, h.top, Option.bind_some, PageAbility.next, h.manager, if_true,
      PageAbility.present, hmanager, addAbilitySlice, hlegal]
  have hstate := fun j => Slices.getState_add hx s.scheduler j
  rw [h.active] at hstate
  simp only [true_or, and_true] at hstate
  refine ⟨_, hmove, ⟨⟨hknown.add h.top hx, ?_⟩, h.ability, ?_, rfl, ?_⟩, hstate, rfl⟩
  · exact fun hgone => Bool.noConfusion (hgone.symm.trans h.manager)
  · rw [hstate, if_pos rfl]
  · rw [Slices.add_abilitySliceStack, h.stack]

/-- The slice on top is let go and the one under it is shown again. -/
theorem Shows.terminate {s : PageAbility} {x top : Nat} {stack : List Nat}
    (h : Shows s x (top :: stack)) (hx : top ≠ x) :
    ∃ s', move s .terminate = some s' ∧ Shows s' top stack ∧
      (∀ j, s'.scheduler.getState j =
        if j = x then .initial else if j = top then .active else s.scheduler.getState j) ∧
      s'.terminateAbility = s.terminateAbility := by
  have hknown := h.sound.known
  have hstarted : notStarted (s.scheduler.getState x) = false := by
    rw [h.active]
    rfl
  have hlegal : s.checkLegalForRemove x = (true, s) := by
    simp only [checkLegalForRemove, h.top, h.ability, hstarted, h.stack, ne_eq, not_true_eq_false,
      Bool.false_eq_true, if_false, and_false, List.isEmpty_cons]
  have hmanager : (s.scheduler.slices x).abilitySliceManager = true := hknown.top x h.top
  have hmove : move s .terminate = some { s with scheduler := s.scheduler.remove x x } := by
    simp only [move, h.top, Option.bind_some, PageAbility.next, h.manager, if_true,
      PageAbility.terminate, hmanager, removeAbilitySlice, hlegal]
  have hstate := fun j => Slices.getState_remove_top s.scheduler x top j stack h.stack
  obtain ⟨htop', hstack'⟩ := Slices.remove_lists h.top h.stack x
  rw [if_pos rfl] at htop' hstack'
  have hsome : s.scheduler.abilitySliceStack ≠ [] := by
    rw [h.stack]
    exact List.cons_ne_nil _ _
  refine ⟨_, hmove, ⟨⟨hknown.remove h.top (.inr rfl) hsome, ?_⟩, h.ability, ?_, htop', hstack'⟩,
    hstate, rfl⟩
  · exact fun hgone => Bool.noConfusion (hgone.symm.trans h.manager)
  · rw [hstate, if_neg hx, if_pos rfl]

/-- The state `s'` is `s` with the slices `xs` no longer shown. -/
structure Undone (s s' : PageAbility) (xs : List Nat) : Prop where
  kept : ∀ j, j ∉ xs → s'.scheduler.getState j = s.scheduler.getState j
  gone : ∀ x ∈ xs, s'.scheduler.getState x = .initial
  terminateAbility : s'.terminateAbility = s.terminateAbility

theorem Shows.undo {s : PageAbility} {top : Nat} {stack : List Nat} (h : Shows s top stack)
    (xs : List Nat) (hxs : xs.Nodup) (hfresh : ∀ x ∈ xs, x ≠ top) :
    ∃ s', run move s (xs.map .present ++ List.replicate xs.length .terminate) = some s' ∧
      Shows s' top stack ∧ Undone s s' xs := by
  induction xs generalizing s top stack with
  | nil => exact ⟨s, rfl, h, fun _ _ => rfl, fun _ hx => absurd hx List.not_mem_nil, rfl⟩
  | cons x xs ih =>
    obtain ⟨hnotin, hxs⟩ := List.nodup_cons.mp hxs
    have hx : x ≠ top := hfresh x (List.mem_cons_self ..)
    obtain ⟨s₁, hmove₁, hshows₁, hstate₁, hcount₁⟩ := h.present hx
    obtain ⟨s₂, hrun, hshows₂, hundone⟩ := ih hshows₁ hxs fun y hy hyx => hnotin (hyx ▸ hy)
    obtain ⟨s₃, hmove₃, hshows₃, hstate₃, hcount₃⟩ := hshows₂.terminate hx.symm
    refine ⟨s₃, ?_, hshows₃, ?_, ?_, hcount₃.trans (hundone.terminateAbility.trans hcount₁)⟩
    · rw [List.length_cons, List.replicate_succ', List.map_cons, List.cons_append,
        run_cons _ _ hmove₁, ← List.append_assoc, run_append _ _ hrun, run_cons _ _ hmove₃]
      rfl
    · intro j hj
      rw [List.mem_cons, not_or] at hj
      rw [hstate₃, if_neg hj.1]
      by_cases hjt : j = top
      · rw [if_pos hjt, hjt, h.active]
      · rw [if_neg hjt, hundone.kept j hj.2, hstate₁, if_neg hj.1, if_neg hjt]
    · intro y hy
      rw [hstate₃]
      by_cases hyx : y = x
      · rw [if_pos hyx]
      · have hmem := List.mem_of_ne_of_mem hyx hy
        rw [if_neg hyx, if_neg (hfresh y (List.mem_cons_of_mem x hmem)), hundone.gone y hmem]

/-- In every run: slices that are neither on top nor in the stack, presented one over the other and
terminated from the top as many times, leave the scheduler as it was, but for being initialised. -/
theorem terminate_undoes_present (s : PageAbility)
    (hreached : Reached PageAbility.next (fun _ _ => True) (· = {}) s)
    (hability : s.abilityState = .active) (top : Nat)
    (htop : s.scheduler.topAbilitySlice = some top) (hactive : s.scheduler.getState top = .active)
    (xs : List Nat) (hxs : xs.Nodup)
    (hfresh : ∀ x ∈ xs, x ≠ top ∧ x ∉ s.scheduler.abilitySliceStack) :
    ∃ s', run move s (xs.map .present ++ List.replicate xs.length .terminate) = some s' ∧
      s'.scheduler.topAbilitySlice = s.scheduler.topAbilitySlice ∧
      s'.scheduler.abilitySliceStack = s.scheduler.abilitySliceStack ∧
      (∀ j, j ∉ xs → s'.scheduler.getState j = s.scheduler.getState j) ∧
      (∀ x ∈ xs, s'.scheduler.getState x = .initial) ∧
      s'.terminateAbility = s.terminateAbility := by
  have hshows : Shows s top s.scheduler.abilitySliceStack :=
    ⟨sound_of_reached hreached, hability, hactive, htop, rfl⟩
  obtain ⟨s', hrun, hshows', hundone⟩ := hshows.undo xs hxs fun x hx => (hfresh x hx).1
  exact ⟨s', hrun, hshows'.top.trans htop.symm, hshows'.stack, hundone.kept, hundone.gone,
    hundone.terminateAbility⟩

/-- Three slices over the main one, and back. -/
theorem terminate_undoes_present_three :
    ∃ s s', run PageAbility.next {} [.start (some 0), .active] = some s ∧
      run move s [.present 3, .present 1, .present 2, .terminate, .terminate, .terminate] = some s' ∧
      s'.scheduler.topAbilitySlice = some 0 := by
  have hreached := Reached.of_run (.init rfl : Reached PageAbility.next (fun _ _ => True) (· = {}) {})
    [.start (some 0), .active] rfl
  obtain ⟨s', hrun, htop, -⟩ := terminate_undoes_present _ hreached rfl 0 rfl rfl [3, 1, 2]
    (by decide) (by decide)
  exact ⟨_, s', rfl, hrun, htop⟩

end PageAbility
end AbilityLite.App
