import AbilityLite.Ams.Runs
import Mathlib.Data.List.TakeWhile

/-
  A page start that fails, and what it leaves of the missions.

  `AbilityStartTask::Execute` generates the target page before it knows whether the page on
  top gives way, and takes it back with `RemovePageAbility`, which knows neither whether the
  page is new nor what was on top.
-/

namespace AbilityLite.Ams
open AbilityMsStatus Fallible Relation
namespace AbilityMgr
variable {gen : TokenGenerate} {env : Env} {s s' s₁ s₂ : AbilityMgr} {t p : Token} {a id : Nat}
  {st : StackType} {status : AbilityMsStatus} {m m' : AbilityMissionRecord}
  {target : AbilityInfo} {want : Want} {bundleInfo : BundleInfo}

/-- The stacks and which of them is in front are the same, and no record is gone. -/
structure StacksUnchanged (s s' : AbilityMgr) : Prop where
  launcher : s'.launcherMissionStacks = s.launcherMissionStacks
  default : s'.defaultMissionStacks = s.defaultMissionStacks
  top : s'.topMissionStacks = s.topMissionStacks
  alive : ∀ t, (s.records t).isSome → (s'.records t).isSome

theorem StacksUnchanged.stack (h : StacksUnchanged s s') (st : StackType) : s'.stack st = s.stack st := by
  cases st
  · exact h.launcher
  · exact h.default

/-- A start that fails leaves the missions as they are: the ability has no name, or the mission of
its bundle is in front, or the bundle has no mission and the stack that is in front is the one
a page taken back leaves in front. -/
def failsCleanly (s : AbilityMgr) (target : AbilityInfo) : Prop :=
  target.name = none ∨
    match s.getTargetMissionRecord (targetStack target.bundleName) target.bundleName with
    | some m => m.getTopPageAbility = s.getTopPageAbility
    | none =>
      match s.getTopPageAbility with
      | some _ => isLauncherAbility target.bundleName = false
      | none => s.topMissionStacks = some .launcher

/-! ## The page in front -/

/-- The page in front is the last page of the last mission of the stack in front. -/
theorem getTopPageAbility_cases (h : s.getTopPageAbility = some p) :
    ∃ st m, s.topMissionStacks = some st ∧ (s.stack st).getLast? = some m ∧ m ∈ s.stack st ∧
      m.pageAbilityRecords.getLast? = some p ∧ p ∈ m.pageAbilityRecords := by
  unfold getTopPageAbility at h
  split at h
  · cases h
  · next st hst =>
    rw [Option.bind_eq_some_iff] at h
    obtain ⟨m, hm, hp⟩ := h
    exact ⟨st, m, hst, hm, List.mem_of_getLast? hm, hp, List.mem_of_getLast? hp⟩

theorem Shape.top_record (h : s.Shape) (hp : s.getTopPageAbility = some p) :
    ∃ st m r, s.topMissionStacks = some st ∧ (s.stack st).getLast? = some m ∧
      m.pageAbilityRecords.getLast? = some p ∧ s.records p = some r ∧
      targetStack r.abilityInfo.bundleName = st ∧ r.abilityInfo.bundleName = m.bundleName := by
  obtain ⟨st, m, hst, hlast, hm, hpl, hpm⟩ := getTopPageAbility_cases hp
  have hshape := h.missions m (mem_all_of_stack hm)
  obtain ⟨r, hr, _, _, hname⟩ := hshape.placed p hpm
  exact ⟨st, m, r, hst, hlast, hpl, hr, by rw [hname, hshape.home, h.listed st m hm], hname⟩

theorem targetStack_launcher {name : Option CString} :
    targetStack name = .launcher ↔ isLauncherAbility name = true := by
  unfold targetStack
  split
  · next h => exact ⟨fun _ => h, fun _ => rfl⟩
  · next h => exact ⟨fun h' => (by cases h'), fun h' => absurd h' h⟩

theorem targetStack_default {name : Option CString} :
    targetStack name = .default ↔ isLauncherAbility name = false := by
  unfold targetStack
  split
  · next h =>
    rw [h]
    exact ⟨fun h => (by cases h), fun h => (by cases h)⟩
  · next h => exact ⟨fun _ => Bool.eq_false_iff.mpr h, fun _ => rfl⟩

/-- The mission of the bundle whose page is in front is the one in front. -/
theorem Shape.front_of_top (h : s.Shape) (hm : m ∈ s.stack st) (hp : s.getTopPageAbility = some p)
    (htop : m.getTopPageAbility = some p) :
    s.topMissionStacks = some st ∧ (s.stack st).getLast? = some m := by
  obtain ⟨st', m', hst, hlast, hm', hpl, hpm⟩ := getTopPageAbility_cases hp
  have hpm' : p ∈ m.pageAbilityRecords := List.mem_of_getLast? htop
  have hmm : m = m' := h.one_mission (mem_all_of_stack hm) (mem_all_of_stack hm') hpm' hpm
  subst hmm
  have hst' : st' = st := (h.listed st' m hm').symm.trans (h.listed st m hm)
  subst hst'
  exact ⟨hst, hlast⟩

theorem Shape.getTop_isSome (h : s.Shape) (hm : m ∈ s.stack st) :
    ∃ p, m.getTopPageAbility = some p ∧ p ∈ m.pageAbilityRecords := by
  have hne := (h.missions m (mem_all_of_stack hm)).nonempty
  cases hl : m.pageAbilityRecords.getLast? with
  | none => exact absurd (List.getLast?_eq_none_iff.mp hl) hne
  | some p => exact ⟨p, hl, List.mem_of_getLast? hl⟩

/-- A stack with a mission on it, when it is in front, shows a page. -/
theorem Shape.no_top (h : s.Shape) (hm : m ∈ s.stack st) (hnone : s.getTopPageAbility = none) :
    s.topMissionStacks ≠ some st := by
  intro hst
  unfold getTopPageAbility at hnone
  rw [hst] at hnone
  dsimp only at hnone
  cases hl : (s.stack st).getLast? with
  | none =>
    rw [List.getLast?_eq_none_iff.mp hl] at hm
    cases hm
  | some m' =>
    obtain ⟨p, hp, _⟩ := h.getTop_isSome (List.mem_of_getLast? hl)
    unfold getTopMissionRecord at hnone
    rw [hl, Option.bind_some, hp] at hnone
    cases hnone

/-! ## Taking a new mission back -/

/-- The missions, wherever they are kept. -/
def lists (s : AbilityMgr) :
    List AbilityMissionRecord × List AbilityMissionRecord × List AbilityMissionRecord :=
  (s.launcherMissionStacks, s.defaultMissionStacks, s.unlisted)

theorem SameLists.lists (h : SameLists s s') : s'.lists = s.lists := by
  unfold AbilityMgr.lists
  rw [h.launcher, h.default, h.unlisted]

theorem stack_of_lists (h : s'.lists = s.lists) (st : StackType) : s'.stack st = s.stack st := by
  cases st
  · exact congrArg Prod.fst h
  · exact congrArg (fun l => l.2.1) h

theorem lists_dropMission_congr (h : s'.lists = s.lists) :
    (s'.dropMission st id).lists = (s.dropMission st id).lists := by
  have hl : s'.launcherMissionStacks = s.launcherMissionStacks := congrArg Prod.fst h
  have hd : s'.defaultMissionStacks = s.defaultMissionStacks := congrArg (fun l => l.2.1) h
  have hu : s'.unlisted = s.unlisted := congrArg (fun l => l.2.2) h
  unfold dropMission removeMissionRecord deleteMissionRecord lists
  cases st
  · simp only [stack, setStack, hl, hd, hu]
  · simp only [stack, setStack, hl, hd, hu]

/-- A mission that is not there and that no mission goes back to is dropped for nothing. -/
theorem drop_none {l : List AbilityMissionRecord}
    (h : ∀ m ∈ l, m.id ≠ id ∧ m.prevMissionRecord ≠ some id) :
    ((l.filter (·.id ≠ id)).map fun m =>
      if m.prevMissionRecord = some id then m.setPrevMissionRecord none else m) = l := by
  have hfilter : l.filter (·.id ≠ id) = l :=
    List.filter_eq_self.mpr fun m hm => decide_eq_true (h m hm).1
  rw [hfilter]
  refine (List.map_congr_left fun m hm => ?_).trans (List.map_id l)
  rw [if_neg (h m hm).2]
  rfl

/-- A new mission that is taken out again leaves the others as they were. -/
theorem Shape.drop_pushed (h : s.Shape) (hid : m.id = s.missions)
    (hst : m.abilityMissionStack = st) :
    ((s.pushTopMissionRecord m).dropMission st m.id).lists = s.lists := by
  have hnew : ∀ m' ∈ s.allMissions, m'.id ≠ m.id ∧ m'.prevMissionRecord ≠ some m.id := by
    intro m' hm'
    obtain ⟨hlt, hprev⟩ := h.below m' hm'
    rw [hid]
    exact ⟨Nat.ne_of_lt hlt, fun hp => Nat.lt_irrefl _ (hprev _ hp)⟩
  have hstack := drop_none fun m' hm' => hnew m' (mem_allMissions.mpr (.inl ⟨st, hm'⟩))
  have hun : s.unlisted.filter (·.id ≠ m.id) = s.unlisted :=
    List.filter_eq_self.mpr fun m' hm' =>
      decide_eq_true (hnew m' (mem_allMissions.mpr (.inr hm'))).1
  have hout : [m].filter (·.id ≠ m.id) = [] :=
    List.filter_cons_of_neg (by rw [decide_not, decide_eq_true rfl]; exact Bool.false_ne_true)
  unfold AbilityMgr.pushTopMissionRecord
  dsimp only
  rw [hst]
  split <;> cases st
  · show (List.map _ (List.filter _ s.launcherMissionStacks), s.defaultMissionStacks,
      List.filter _ (s.unlisted ++ [m])) = s.lists
    rw [show (List.map _ (List.filter _ s.launcherMissionStacks)) = _ from hstack,
      List.filter_append, hout, List.append_nil, hun]
    rfl
  · show (s.launcherMissionStacks, List.map _ (List.filter _ s.defaultMissionStacks),
      List.filter _ (s.unlisted ++ [m])) = s.lists
    rw [show (List.map _ (List.filter _ s.defaultMissionStacks)) = _ from hstack,
      List.filter_append, hout, List.append_nil, hun]
    rfl
  · show (List.map _ (List.filter _ (s.launcherMissionStacks ++ [m])), s.defaultMissionStacks,
      List.filter _ s.unlisted) = s.lists
    rw [List.filter_append, hout, List.append_nil,
      show (List.map _ (List.filter _ s.launcherMissionStacks)) = _ from hstack, hun]
    rfl
  · show (s.launcherMissionStacks, List.map _ (List.filter _ (s.defaultMissionStacks ++ [m])),
      List.filter _ s.unlisted) = s.lists
    rw [List.filter_append, hout, List.append_nil,
      show (List.map _ (List.filter _ s.defaultMissionStacks)) = _ from hstack, hun]
    rfl

theorem allMissions_of_lists (h : s'.lists = s.lists) : s'.allMissions = s.allMissions := by
  have hl : s'.launcherMissionStacks = s.launcherMissionStacks := congrArg Prod.fst h
  have hd : s'.defaultMissionStacks = s.defaultMissionStacks := congrArg (fun l => l.2.1) h
  have hu : s'.unlisted = s.unlisted := congrArg (fun l => l.2.2) h
  unfold allMissions
  rw [hl, hd, hu]

theorem mem_pushTopMissionRecord : m ∈ (s.pushTopMissionRecord m).allMissions := by
  unfold pushTopMissionRecord
  dsimp only
  split
  · exact mem_allMissions.mpr (.inr (List.mem_append_right _ (List.mem_singleton.mpr rfl)))
  · refine mem_allMissions.mpr (.inl ⟨m.abilityMissionStack, ?_⟩)
    rw [stack_setStack_same]
    exact List.mem_append_right _ (List.mem_singleton.mpr rfl)

theorem lists_setStack_self {l : List AbilityMissionRecord} (h : l = s.stack st) :
    (s.setStack st l).lists = s.lists := by
  subst h
  cases st <;> rfl

/-- The stack in front after a new mission is taken back. -/
def topAfter (prev : Option Nat) (top : Option StackType) : Option StackType :=
  match prev with
  | none => some .launcher
  | some _ => top

/-- A new mission that is taken back leaves the missions as they were, and in front the stack it was
brought up on if it could go back to a mission there, else the launcher's. -/
theorem rollback_pushed {r : PageAbilityRecord} (hs : s.Shape) (h₁ : s₁.Shape)
    (hlists : s₁.lists = (s.pushTopMissionRecord m).lists) (hid : m.id = s.missions)
    (hst : m.abilityMissionStack = st) (hpages : m.pageAbilityRecords = [t])
    (hprev : m.prevMissionRecord = none ∨
      ∃ m', (s.stack st).getLast? = some m' ∧ m.prevMissionRecord = some m'.id)
    (hr : s₁.records t = some r) (hrm : r.missionRecord = some m.id)
    (h : s₁.removePageAbility t = .ok s') :
    s'.lists = s.lists ∧ s'.topMissionStacks = topAfter m.prevMissionRecord s₁.topMissionStacks ∧
      ∀ t', t' ≠ t → (s'.records t').isSome = (s₁.records t').isSome := by
  obtain ⟨r', hr', hcases⟩ := removePageAbility_cases h₁ h
  rw [hr] at hr'
  cases hr'
  rcases hcases with ⟨hnone, _⟩ | ⟨m₁, hm₁, hid₁, below, above, hsplit, hcases⟩
  · rw [hrm] at hnone
    cases hnone
  have hmem : m ∈ s₁.allMissions := by
    rw [allMissions_of_lists hlists]
    exact mem_pushTopMissionRecord
  have hmm : m₁ = m := Keyed.eq_of_key_eq h₁.ids hm₁ hmem (Option.some.inj (hid₁.symm.trans hrm))
  subst hmm
  have hsplit' : splitAt t m₁.pageAbilityRecords = ([], [t]) := by
    rw [hpages, splitAt_eq]
    simp
  rw [hsplit'] at hsplit
  cases hsplit
  have hdrop : (s₁.dropMission st m₁.id).lists = s.lists :=
    (lists_dropMission_congr hlists).trans (hs.drop_pushed hid hst)
  have halive {x : AbilityMgr} (hx : x.records = s₁.records) (hg : Gone [t] x s') :
      ∀ t', t' ≠ t → (s'.records t').isSome = (s₁.records t').isSome := by
    intro t' ht'
    have hp := congrArg Option.isSome (hg.places t' (fun hmem => ht' (List.mem_singleton.mp hmem)))
    rwa [Option.isSome_map, Option.isSome_map, hx] at hp
  rcases hcases with ⟨hne, _⟩ | ⟨_, s₂, hreturn, hgone⟩
  · exact absurd rfl hne
  cases hreturn with
  | home hnone =>
    refine ⟨?_, ?_, halive ?_ hgone⟩
    · rw [hgone.toSameLists.lists, ← hdrop, hst]
      rfl
    · rw [hgone.top, hnone]
      rfl
    · exact records_dropMission
  | back prev hsome hmove =>
    rcases hprev with hnone | ⟨m', hlast, hp⟩
    · rw [hsome] at hnone
      cases hnone
    rw [hst] at hmove
    obtain ⟨l, hl, rfl⟩ := moveMissionRecordToTop_cases hmove
    rw [stack_of_lists hdrop st] at hl
    obtain ⟨_, m'', hm'', hid'', _, hsame⟩ := moveToTop_ok hl (hs.stack_ids st)
    have hmm : m'' = m' := by
      refine Keyed.eq_of_key_eq (hs.stack_ids st) hm'' (List.mem_of_getLast? hlast) ?_
      rw [hid'']
      exact Option.some.inj (hsome.symm.trans hp)
    subst hmm
    have hself : l = (s₁.dropMission st m₁.id).stack st := by
      rw [stack_of_lists hdrop st]
      exact hsame hlast
    refine ⟨?_, ?_, halive ((records_setStack l).trans records_dropMission) hgone⟩
    · rw [hgone.toSameLists.lists, lists_setStack_self hself, hdrop]
    · rw [hgone.top, top_setStack, hsome]
      exact top_setStack _

/-- The missions with one more on a stack. -/
def listsWith (s : AbilityMgr) (m : AbilityMissionRecord) : StackType →
    List AbilityMissionRecord × List AbilityMissionRecord × List AbilityMissionRecord
  | .launcher => (s.launcherMissionStacks ++ [m], s.defaultMissionStacks, s.unlisted)
  | .default => (s.launcherMissionStacks, s.defaultMissionStacks ++ [m], s.unlisted)

theorem lists_push (hst : m.abilityMissionStack = st) :
    (s.pushTopMissionRecord m).lists =
      if missionRecordListCapacity ≤ (s.stack st).length then
        (s.launcherMissionStacks, s.defaultMissionStacks, s.unlisted ++ [m])
      else s.listsWith m st := by
  unfold pushTopMissionRecord
  dsimp only
  rw [hst]
  split
  · rfl
  · cases st <;> rfl

theorem lists_push_congr (h : s'.lists = s.lists) :
    (s'.pushTopMissionRecord m).lists = (s.pushTopMissionRecord m).lists := by
  have hl : s'.launcherMissionStacks = s.launcherMissionStacks := congrArg Prod.fst h
  have hd : s'.defaultMissionStacks = s.defaultMissionStacks := congrArg (fun l => l.2.1) h
  have hu : s'.unlisted = s.unlisted := congrArg (fun l => l.2.2) h
  rw [lists_push rfl, lists_push rfl, stack_of_lists h, hl, hd, hu]
  split
  · rfl
  · unfold listsWith
    rw [hl, hd, hu]

/-- What generating a page on a new mission gives, up to the link back. -/
theorem newMission_lists (h : s.newMission gen target want st = (t, id, s')) :
    s'.lists = (s.pushTopMissionRecord (s.newMissionRecord target st t)).lists ∧
      ∃ r, s'.records t = some r ∧ r.missionRecord = some s.missions ∧
        r.abilityInfo = target ∧ r.currentState = .uninitialized := by
  obtain ⟨rfl, rfl, s₁, rfl, rfl⟩ := newMission_cases h
  have hrec : (({ (s.newPageAbility gen target want).2 with missions := s.missions + 1 } :
      AbilityMgr).modify (gen.generate s.generated) (·.setMissionRecord s.missions)).records
        (gen.generate s.generated) = some ((s.newRecord target want).setMissionRecord s.missions) := by
    show (s.records.insert _ _).modify _ _ _ = _
    rw [Store.modify_same, Store.insert_same]
    rfl
  refine ⟨?_, (s.newRecord target want).setMissionRecord s.missions, ?_, rfl, rfl, rfl⟩
  · exact lists_push_congr rfl
  · rw [← hrec]
    unfold pushTopMissionRecord
    dsimp only
    split
    · rfl
    · rw [records_setStack]

/-- The link back is part of the mission that was pushed. -/
theorem link_pushed (h : s.Shape) (hid : m.id = s.missions)
    (hlists : s₁.lists = (s.pushTopMissionRecord m).lists) :
    (s₁.link m.id m').lists =
      (s.pushTopMissionRecord (m.setPrevMissionRecord (some m'.id))).lists := by
  have hold (l : List AbilityMissionRecord) (hl : ∀ m ∈ l, m ∈ s.allMissions) :
      updateMission m.id (·.setPrevMissionRecord (some m'.id)) l = l := by
    refine updateMission_ne fun n hn => ?_
    rw [hid]
    exact Nat.ne_of_lt (h.below n (hl n hn)).1
  have happ (l : List AbilityMissionRecord) (hl : ∀ m ∈ l, m ∈ s.allMissions) :
      updateMission m.id (·.setPrevMissionRecord (some m'.id)) (l ++ [m]) =
        l ++ [m.setPrevMissionRecord (some m'.id)] := by
    unfold updateMission at hold ⊢
    rw [List.map_append, hold l hl, List.map_singleton, if_pos rfl]
  have hun : ∀ m ∈ s.unlisted, m ∈ s.allMissions := fun m hm => mem_allMissions.mpr (.inr hm)
  have hL : ∀ m ∈ s.launcherMissionStacks, m ∈ s.allMissions :=
    fun m hm => mem_allMissions.mpr (.inl ⟨.launcher, hm⟩)
  have hD : ∀ m ∈ s.defaultMissionStacks, m ∈ s.allMissions :=
    fun m hm => mem_allMissions.mpr (.inl ⟨.default, hm⟩)
  have hlink : (s₁.link m.id m').lists =
      (updateMission m.id (·.setPrevMissionRecord (some m'.id)) s₁.lists.1,
        updateMission m.id (·.setPrevMissionRecord (some m'.id)) s₁.lists.2.1,
        updateMission m.id (·.setPrevMissionRecord (some m'.id)) s₁.lists.2.2) := rfl
  have hst : (m.setPrevMissionRecord (some m'.id)).abilityMissionStack = m.abilityMissionStack := rfl
  rw [hlink, hlists, lists_push rfl, lists_push hst]
  split
  · exact Prod.ext (hold _ hL) (Prod.ext (hold _ hD) (happ _ hun))
  · cases m.abilityMissionStack
    · exact Prod.ext (happ _ hL) (Prod.ext (hold _ hD) (hold _ hun))
    · exact Prod.ext (hold _ hL) (Prod.ext (happ _ hD) (hold _ hun))

theorem returnsToTop_eq_true {top page : Option PageAbilityRecord} :
    returnsToTop top page = true ↔ ∃ r r', top = some r ∧ page = some r' ∧
      r.isLauncherAbility = false ∧ r'.isLauncherAbility = false := by
  unfold returnsToTop
  constructor
  · intro h
    split at h
    · next r r' =>
      rw [Bool.and_eq_true, Bool.not_eq_true', Bool.not_eq_true'] at h
      exact ⟨r, r', rfl, rfl, h⟩
    · cases h
  · rintro ⟨r, r', rfl, rfl, h, h'⟩
    dsimp only
    rw [h, h']
    rfl

/-- A new mission of the bundle is linked to the one on top of its stack when neither the page in
front nor the new one is the launcher's. -/
def Links (s : AbilityMgr) (target : AbilityInfo) (topAbility : Option Token) : Prop :=
  (∃ m, s.getTopMissionRecord (targetStack target.bundleName) = some m) ∧
    isLauncherAbility target.bundleName = false ∧
    ∃ r, topAbility.bind s.records = some r ∧ r.isLauncherAbility = false

theorem stacksUnchanged_of_lists (h : s'.lists = s.lists) (htop : s'.topMissionStacks = s.topMissionStacks)
    (halive : ∀ t, (s.records t).isSome → (s'.records t).isSome) : StacksUnchanged s s' :=
  ⟨congrArg Prod.fst h, congrArg (fun l => l.2.1) h, htop, halive⟩

/-- Taking back a page of a new mission. -/
theorem newMission_rollback {topAbility : Option Token} (hs : Sound gen s)
    (hpage : target.abilityType ≠ .service)
    (hnone : s.getTargetMissionRecord (targetStack target.bundleName) target.bundleName = none)
    (hname : target.name.isSome)
    (hgen : s.generatePageAbility gen target want topAbility = .ok (some t, s₁))
    (hkept : Kept s₁ s₂) (h : s₂.removePageAbility t = .ok s') :
    t = gen.generate s.generated ∧ ∃ prev : Option Nat,
      (prev.isSome ↔ s.Links target topAbility) ∧
      (StacksUnchanged s s' ↔
        topAfter prev (some (targetStack target.bundleName)) = s.topMissionStacks) := by
  have hshape := (hs.shape.generatePageAbility hs.known.fresh hpage hgen).of_kept hkept
  obtain ⟨hno, _, _⟩ | ⟨_, id, s₃, s₄, hf, hlink, rfl⟩ := generatePageAbility_cases hgen
  · rw [hno] at hname
    cases hname
  generalize hpo : some t = page at hf
  cases hf with
  | page hm =>
    rw [hnone] at hm
    cases hm
  | newPage hm =>
    rw [hnone] at hm
    cases hm
  | mission _ hnew =>
    cases hpo
    obtain ⟨ht, rfl, _⟩ := newMission_cases hnew
    obtain ⟨hlists, r, hr, hrm, hinfo, _⟩ := newMission_lists hnew
    have hquiet : ∀ t', t' ≠ t → (s₃.records t').isSome = (s.records t').isSome := by
      intro t' ht'
      obtain ⟨_, _, s₅, rfl, rfl⟩ := newMission_cases hnew
      have hrec : ∀ x : AbilityMgr, (x.pushTopMissionRecord (s.newMissionRecord target
          (targetStack target.bundleName) t)).records = x.records := by
        intro x
        unfold pushTopMissionRecord
        dsimp only
        split
        · rfl
        · rw [records_setStack]
      rw [hrec]
      show ((s.records.insert _ _).modify _ _ t').isSome = _
      rw [Store.modify_isSome, Store.insert_ne _ _ (ht ▸ ht')]
    -- The mission as it was pushed, with its link.
    have hpushed : ∃ m, s₄.lists = (s.pushTopMissionRecord m).lists ∧ m.id = s.missions ∧
        m.abilityMissionStack = targetStack target.bundleName ∧ m.pageAbilityRecords = [t] ∧
        (m.prevMissionRecord = none ∨ ∃ m', (s.stack (targetStack target.bundleName)).getLast? =
          some m' ∧ m.prevMissionRecord = some m'.id) ∧
        (m.prevMissionRecord.isSome ↔ s.Links target topAbility) ∧ s₄.records = s₃.records := by
      have hlauncher : r.isLauncherAbility = isLauncherAbility target.bundleName := by
        unfold PageAbilityRecord.isLauncherAbility
        rw [hinfo]
      rcases hlink with ⟨rfl, hno⟩ | ⟨m', hm', hback, _, rfl⟩
      · refine ⟨s.newMissionRecord target _ t, hlists, rfl, rfl, rfl, .inl rfl, ?_, rfl⟩
        refine ⟨fun h => (by cases h), ?_⟩
        rintro ⟨⟨m', hm'⟩, htarget, r', hr', hr'l⟩
        refine absurd ⟨returnsToTop_eq_true.mpr ⟨r', r, hr', hr, hr'l, hlauncher.trans htarget⟩, ?_⟩
          (hno m' hm')
        exact Nat.ne_of_gt (hs.shape.below m' (mem_all_of_stack (getTopMissionRecord_mem hm'))).1
      · refine ⟨(s.newMissionRecord target _ t).setPrevMissionRecord (some m'.id),
          link_pushed hs.shape rfl hlists, rfl, rfl, rfl, .inr ⟨m', hm', rfl⟩, ?_, rfl⟩
        obtain ⟨r', r'', hr', hr'', hl', hl''⟩ := returnsToTop_eq_true.mp hback
        have hrr : r'' = r := Option.some.inj (hr''.symm.trans hr)
        subst hrr
        exact ⟨fun _ => ⟨⟨m', hm'⟩, hlauncher.symm.trans hl'', r', hr', hl'⟩, fun _ => rfl⟩
    obtain ⟨m, hlists₄, hid, hst, hpages, hprev, hlinks, hrecords⟩ := hpushed
    obtain ⟨r₂, hr₂, hplace⟩ := hkept.record (show s₄.records t = some r by rw [hrecords]; exact hr)
    have hrm₂ : r₂.missionRecord = some m.id := by
      have hm : r₂.missionRecord = r.missionRecord := congrArg Prod.fst hplace
      rw [hm, hrm, hid]
    obtain ⟨hlists', htop', halive⟩ := rollback_pushed hs.shape hshape
      (hkept.toSameLists.lists.trans hlists₄) hid hst hpages hprev hr₂ hrm₂ h
    rw [hkept.top] at htop'
    refine ⟨ht, m.prevMissionRecord, hlinks, fun hu => htop'.symm.trans hu.top, fun he => ?_⟩
    refine stacksUnchanged_of_lists hlists' (htop'.trans he) fun t' ht' => ?_
    have hne : t' ≠ t := by
      intro he
      rw [he, ht, hs.known.fresh] at ht'
      cases ht'
    rw [halive t' hne, hkept.isSome]
    show (s₄.records t').isSome = true
    rw [hrecords, hquiet t' hne]
    exact ht'

/-! ## Taking back a page of a mission that was there -/

theorem mem_above {l : List Token} (h : t ∈ l) : t ∈ (splitAt t l).2 := by
  rw [splitAt_eq]
  induction l with
  | nil => cases h
  | cons p l ih =>
    by_cases hp : p = t
    · rw [List.dropWhile_cons_of_neg (by simpa using hp), hp]
      exact List.mem_cons_self
    · rw [List.dropWhile_cons_of_pos (by simpa using hp)]
      exact ih ((List.mem_cons.mp h).resolve_left (Ne.symm hp))

/-- A page that is taken back is deleted. -/
theorem removePageAbility_deletes (hs : s.Shape) (hm : m ∈ s.allMissions)
    (ht : t ∈ m.pageAbilityRecords) (h : s.removePageAbility t = .ok s') : s'.records t = none := by
  obtain ⟨r, hr, hid, _⟩ := (hs.missions m hm).placed t ht
  obtain ⟨r', hr', hcases⟩ := removePageAbility_cases hs h
  rw [hr] at hr'
  cases hr'
  rcases hcases with ⟨hnone, _⟩ | ⟨m', hm', hid', below, above, hsplit, hcases⟩
  · rw [hid] at hnone
    cases hnone
  have hmm : m' = m := Keyed.eq_of_key_eq hs.ids hm' hm (Option.some.inj (hid'.symm.trans hid))
  subst hmm
  have habove : t ∈ above := by
    have hmem := mem_above ht
    rw [hsplit] at hmem
    exact hmem
  rcases hcases with ⟨_, hgone⟩ | ⟨_, _, _, hgone⟩
  · exact hgone.gone t habove
  · exact hgone.gone t habove

theorem splitAt_fresh {l : List Token} (h : t ∉ l) : splitAt t l = (l, []) := by
  have htake : l.takeWhile (· ≠ t) = l :=
    List.takeWhile_eq_self_iff.mpr fun p hp => decide_eq_true fun he => h (he ▸ hp)
  have hdrop : l.dropWhile (· ≠ t) = [] :=
    List.dropWhile_eq_nil_iff.mpr fun p hp => decide_eq_true fun he => h (he ▸ hp)
  rw [splitAt_eq, htake, hdrop]

theorem splitAt_push {l : List Token} (h : t ∉ l) : splitAt t (l ++ [t]) = (l, [t]) := by
  rw [splitAt_eq]
  have hne : ∀ p ∈ l, decide (p ≠ t) = true := fun p hp => decide_eq_true fun he => h (he ▸ hp)
  rw [List.takeWhile_append_of_pos hne, List.dropWhile_append_of_pos hne]
  simp

/-- The pages of a mission when a page that was pushed on it is taken back. -/
theorem splitAt_pushPageAbility (h : t ∉ m.pageAbilityRecords) :
    ∃ above, splitAt t (m.pushPageAbility t).pageAbilityRecords = (m.pageAbilityRecords, above) ∧
      ∀ p ∈ above, p = t := by
  unfold AbilityMissionRecord.pushPageAbility
  split
  · exact ⟨[], splitAt_fresh h, fun _ hp => (by cases hp)⟩
  · exact ⟨[t], splitAt_push h, fun p hp => List.mem_singleton.mp hp⟩

theorem pushPageAbility_setPages (m : AbilityMissionRecord) (t : Token) :
    (m.pushPageAbility t).setPages m.pageAbilityRecords = m := by
  unfold AbilityMissionRecord.pushPageAbility
  split <;> rfl

/-- A page pushed and taken back leaves the missions as they were. -/
theorem updateMission_undo {l : List AbilityMissionRecord} (hids : (l.map (·.id)).Nodup)
    (hm : m ∈ l ∨ ∀ m' ∈ l, m'.id ≠ m.id) :
    updateMission m.id (·.setPages m.pageAbilityRecords)
      (updateMission m.id (·.pushPageAbility t) l) = l := by
  unfold updateMission
  rw [List.map_map]
  refine (List.map_congr_left fun m' hm' => ?_).trans (List.map_id l)
  simp only [Function.comp_apply]
  by_cases hid : m'.id = m.id
  · have hmm : m' = m := by
      rcases hm with hm | hm
      · exact Keyed.eq_of_key_eq hids hm' hm hid
      · exact absurd hid (hm m' hm')
    subst hmm
    rw [if_pos rfl, if_pos ((stays_pushPageAbility t).id m'), pushPageAbility_setPages]
    rfl
  · rw [if_neg hid, if_neg hid]
    rfl

theorem lists_modifyMission (f : AbilityMissionRecord → AbilityMissionRecord) :
    (s.modifyMission id f).lists = (updateMission id f s.lists.1, updateMission id f s.lists.2.1,
      updateMission id f s.lists.2.2) := rfl

/-- The list of a mission, and the others. -/
theorem Shape.mem_or_ne (h : s.Shape) (hm : m ∈ s.allMissions) {l : List AbilityMissionRecord}
    (hl : ∀ m' ∈ l, m' ∈ s.allMissions) : m ∈ l ∨ ∀ m' ∈ l, m'.id ≠ m.id := by
  by_cases hmem : m ∈ l
  · exact .inl hmem
  · exact .inr fun m' hm' hid => hmem (Keyed.eq_of_key_eq h.ids (hl m' hm') hm hid ▸ hm')

theorem Shape.lists_undo (h : s.Shape) (hm : m ∈ s.allMissions)
    (hlists : s₁.lists = (s.modifyMission m.id (·.pushPageAbility t)).lists) :
    (s₁.modifyMission m.id (·.setPages m.pageAbilityRecords)).lists = s.lists := by
  have hL : ∀ m ∈ s.launcherMissionStacks, m ∈ s.allMissions :=
    fun m hm => mem_allMissions.mpr (.inl ⟨.launcher, hm⟩)
  have hD : ∀ m ∈ s.defaultMissionStacks, m ∈ s.allMissions :=
    fun m hm => mem_allMissions.mpr (.inl ⟨.default, hm⟩)
  have hU : ∀ m ∈ s.unlisted, m ∈ s.allMissions := fun m hm => mem_allMissions.mpr (.inr hm)
  have hids := h.ids
  unfold allMissions at hids
  rw [List.map_append, List.map_append, List.nodup_append, List.nodup_append] at hids
  rw [lists_modifyMission, hlists, lists_modifyMission]
  exact Prod.ext (updateMission_undo hids.1.1 (h.mem_or_ne hm hL))
    (Prod.ext (updateMission_undo hids.1.2.1 (h.mem_or_ne hm hD))
      (updateMission_undo hids.2.1 (h.mem_or_ne hm hU)))

theorem switchesStack_eq_false {top : Option PageAbilityRecord}
    (h : switchesStack target top = false) : ∃ r, top = some r ∧
      r.isLauncherAbility = isLauncherAbility target.bundleName := by
  unfold switchesStack at h
  split at h
  · cases h
  · next r =>
    rw [Bool.or_eq_false_iff] at h
    refine ⟨r, rfl, ?_⟩
    have hne := h.2
    revert hne
    cases r.isLauncherAbility <;> cases isLauncherAbility target.bundleName <;> decide

theorem targetStack_congr {name name' : Option CString}
    (h : isLauncherAbility name = isLauncherAbility name') : targetStack name = targetStack name' := by
  unfold targetStack
  rw [h]

/-- When the stack is not switched, the stack of the target is the one in front. -/
theorem Shape.front_stack (h : s.Shape) (hp : s.getTopPageAbility = some p)
    (hswitch : switchesStack target (s.getTopPageAbility.bind s.records) = false) :
    s.topMissionStacks = some (targetStack target.bundleName) ∧
      ∃ m, (s.stack (targetStack target.bundleName)).getLast? = some m ∧
        m.getTopPageAbility = some p := by
  obtain ⟨st, m, r, hst, hlast, hpl, hr, hhome, _⟩ := h.top_record hp
  obtain ⟨r', hr', hlauncher⟩ := switchesStack_eq_false hswitch
  rw [hp] at hr'
  have hrr : some r = some r' := hr.symm.trans hr'
  cases hrr
  have he : st = targetStack target.bundleName := hhome.symm.trans (targetStack_congr hlauncher)
  subst he
  exact ⟨hst, m, hlast, hpl⟩

theorem getLast?_updateMission {f : AbilityMissionRecord → AbilityMissionRecord}
    {l : List AbilityMissionRecord} (hlast : l.getLast? = some m) (hid : m.id = id) :
    (updateMission id f l).getLast? = some (f m) := by
  unfold updateMission
  rw [List.getLast?_map, hlast, Option.map_some, if_pos hid]

/-- The missions after a page was pushed on one that was brought to the top. -/
theorem newPage_lists (h : s.newPage gen target want id = (t, s')) :
    t = gen.generate s.generated ∧ s'.lists = (s.modifyMission id (·.pushPageAbility t)).lists ∧
      s'.topMissionStacks = s.topMissionStacks ∧ (∃ r, s'.records t = some r ∧ r.missionRecord = some id) ∧
      ∀ t', t' ≠ t → (s'.records t').isSome = (s.records t').isSome := by
  obtain ⟨rfl, s₁, rfl, rfl⟩ := newPage_cases h
  refine ⟨rfl, rfl, rfl, ⟨_, modify_self newPageAbility_self, rfl⟩, fun t' ht' => ?_⟩
  show ((s.records.insert _ _).modify _ _ t').isSome = _
  rw [Store.modify_isSome, Store.insert_ne _ _ ht']

/-- Taking back a page that was pushed on a mission: nothing has changed exactly when the mission was
in front. -/
theorem newPage_rollback (hs : Sound gen s) (hpage : target.abilityType ≠ .service)
    (htop : s.getTopPageAbility = some p)
    (hm : s.getTargetMissionRecord (targetStack target.bundleName) target.bundleName = some m)
    (hgen : s.generatePageAbility gen target want s.getTopPageAbility = .ok (some t, s₁))
    (hf : switchesStack target (s.getTopPageAbility.bind s.records) = false ∧ ∃ s₃ s₄,
      s.newPage gen target want m.id = (t, s₃) ∧
      s₃.moveMissionRecordToTop (targetStack target.bundleName) m.id = .ok s₄ ∧
      ((s₁ = { s₄ with topMissionStacks := some (targetStack target.bundleName) }) ∨
        ∃ m', s.getTopMissionRecord (targetStack target.bundleName) = some m' ∧ m.id ≠ m'.id ∧
          s₁ = { s₄.link m.id m' with topMissionStacks := some (targetStack target.bundleName) }))
    (hkept : Kept s₁ s₂) (h : s₂.removePageAbility t = .ok s') :
    StacksUnchanged s s' ↔ m.getTopPageAbility = some p := by
  have hshape := (hs.shape.generatePageAbility hs.known.fresh hpage hgen).of_kept hkept
  obtain ⟨hswitch, s₃, s₄, hnew, hmove, hlink⟩ := hf
  obtain ⟨hmem, hbundle, _⟩ := getTargetMissionRecord_mem hm
  have hall := mem_all_of_stack hmem
  obtain ⟨htopst, mf, hfront, hfrontp⟩ := hs.shape.front_stack htop hswitch
  obtain ⟨ht, hlists₃, _, ⟨r, hr, hrm⟩, halive₃⟩ := newPage_lists hnew
  have hfreshm : t ∉ m.pageAbilityRecords := fun hmem =>
    hs.shape.fresh (ht ▸ hs.known.fresh) (.inl ⟨m, hall, hmem⟩)
  obtain ⟨l, hl, rfl⟩ := moveMissionRecordToTop_cases hmove
  have hstack₃ : s₃.stack (targetStack target.bundleName) =
      updateMission m.id (·.pushPageAbility t) (s.stack (targetStack target.bundleName)) := by
    rw [stack_of_lists hlists₃, stack_modifyMission]
  have hids₃ : ((s₃.stack (targetStack target.bundleName)).map (·.id)).Nodup := by
    rw [hstack₃, updateMission_ids (stays_pushPageAbility t)]
    exact hs.shape.stack_ids _
  obtain ⟨hperm, m₄, hm₄, hid₄, hlast₄, hsame⟩ := moveToTop_ok hl hids₃
  -- The record of the page, and the branch the rollback takes.
  have hrecords₁ : s₁.records = s₃.records := by
    rcases hlink with rfl | ⟨m', _, _, rfl⟩ <;> exact records_setStack l
  obtain ⟨r₂, hr₂, hplace⟩ := hkept.record (show s₁.records t = some r by rw [hrecords₁]; exact hr)
  have hrm₂ : r₂.missionRecord = some m.id := (congrArg Prod.fst hplace).trans hrm
  obtain ⟨r', hr', hcases⟩ := removePageAbility_cases hshape h
  rw [hr₂] at hr'
  cases hr'
  rcases hcases with ⟨hnone, _⟩ | ⟨m₂, hm₂, hid₂, below, above, hsplit, hcases⟩
  · rw [hrm₂] at hnone
    cases hnone
  have hid₂' : m₂.id = m.id := Option.some.inj (hid₂.symm.trans hrm₂)
  have hm₄' : m₄ = m.pushPageAbility t := by
    rw [hstack₃] at hm₄
    obtain ⟨m₀, hm₀, ⟨hid₀, rfl⟩ | ⟨hne₀, rfl⟩⟩ := mem_updateMission hm₄
    · rw [Keyed.eq_of_key_eq (hs.shape.stack_ids _) hm₀ hmem hid₀]
    · exact absurd hid₄ hne₀
  -- The mission is the last of its stack when the rollback finds it, with the page on it.
  have hlast₂ : ∃ m₅, (s₂.stack (targetStack target.bundleName)).getLast? = some m₅ ∧ m₅.id = m.id ∧
      m₅.pageAbilityRecords = (m.pushPageAbility t).pageAbilityRecords := by
    rw [hkept.stack]
    rcases hlink with rfl | ⟨m', _, _, rfl⟩
    · refine ⟨m₄, ?_, hid₄, by rw [hm₄']⟩
      show (stack (s₃.setStack _ l) _).getLast? = _
      rw [stack_setStack_same, hlast₄]
    · refine ⟨m₄.setPrevMissionRecord (some m'.id), ?_, hid₄, by rw [hm₄']; rfl⟩
      rw [stack_setTop, AbilityMgr.link, stack_modifyMission, stack_setStack_same]
      exact getLast?_updateMission hlast₄ hid₄
  obtain ⟨m₅, hlast₅, hid₅, hpages⟩ := hlast₂
  have hmm : m₂ = m₅ := Keyed.eq_of_key_eq hshape.ids hm₂
    (mem_all_of_stack (List.mem_of_getLast? hlast₅)) (hid₂'.trans hid₅.symm)
  subst hmm
  obtain ⟨above', hsplit', habove⟩ := splitAt_pushPageAbility hfreshm
  rw [hpages, hsplit'] at hsplit
  obtain ⟨hbelow', habove'⟩ := Prod.mk.inj hsplit
  subst hbelow'
  rw [← habove'] at hcases
  have hnonempty := (hs.shape.missions m hall).nonempty
  obtain ⟨_, hgone⟩ : _ ∧ Gone above' (s₂.modifyMission m₂.id (·.setPages m.pageAbilityRecords)) s' :=
    hcases.resolve_right fun h => hnonempty h.1
  rw [hid₂'] at hgone
  constructor
  · -- The mission of the page is the last now, so it was.
    intro hu
    have hstack' : (s'.stack (targetStack target.bundleName)).getLast? = some (m₂.setPages m.pageAbilityRecords) := by
      rw [hgone.toSameLists.stack, stack_modifyMission]
      exact getLast?_updateMission hlast₅ hid₅
    rw [hu.stack, hfront] at hstack'
    have hid' : mf.id = m.id := (congrArg (·.id) (Option.some.inj hstack')).trans hid₅
    have hmf : mf = m := Keyed.eq_of_key_eq (hs.shape.stack_ids _) (List.mem_of_getLast? hfront) hmem hid'
    rw [← hmf]
    exact hfrontp
  · intro hmtop
    obtain ⟨_, hlast⟩ := hs.shape.front_of_top hmem htop hmtop
    have hl₃ : l = s₃.stack (targetStack target.bundleName) := by
      refine hsame ?_
      rw [hstack₃, hm₄']
      exact getLast?_updateMission hlast rfl
    have hnolink : s₁ = { s₃.setStack (targetStack target.bundleName) l with
        topMissionStacks := some (targetStack target.bundleName) } := by
      rcases hlink with rfl | ⟨m', hm', hne, _⟩
      · rfl
      · have hm'' : m = m' := Option.some.inj (hlast.symm.trans hm')
        exact absurd (congrArg (·.id) hm'') hne
    have hlists₂ : s₂.lists = (s.modifyMission m.id (·.pushPageAbility t)).lists := by
      rw [hkept.toSameLists.lists, hnolink, ← hlists₃]
      exact lists_setStack_self hl₃
    refine stacksUnchanged_of_lists ?_ ?_ fun t' ht' => ?_
    · rw [hgone.toSameLists.lists]
      exact hs.shape.lists_undo hall hlists₂
    · rw [hgone.top]
      show s₂.topMissionStacks = _
      rw [hkept.top, hnolink, htopst]
    · have hne : t' ≠ t := by
        intro he
        rw [he, ht, hs.known.fresh] at ht'
        cases ht'
      have hp := congrArg Option.isSome (hgone.places t' fun hin => hne (habove t' hin))
      rw [Option.isSome_map, Option.isSome_map] at hp
      rw [hp]
      show (s₂.records t').isSome = true
      rw [hkept.isSome, hrecords₁, halive₃ t' hne]
      exact ht'

/-- A page that was there is deleted when it is taken back. -/
theorem page_rollback (hs : Sound gen s) (hpage : target.abilityType ≠ .service)
    (hm : s.getTargetMissionRecord (targetStack target.bundleName) target.bundleName = some m)
    (ht : m.getTopPageAbility = some t)
    (hgen : s.generatePageAbility gen target want s.getTopPageAbility = .ok (some t, s₁))
    (hf : ∃ s₃ s₄, s.moveMissionRecordToTop (targetStack target.bundleName) m.id = .ok s₃ ∧
      (s₄ = s₃ ∨ ∃ m', s₄ = s₃.link m.id m') ∧
      s₁ = { s₄ with topMissionStacks := some (targetStack target.bundleName) })
    (hkept : Kept s₁ s₂) (h : s₂.removePageAbility t = .ok s') : ¬ StacksUnchanged s s' := by
  have hshape := (hs.shape.generatePageAbility hs.known.fresh hpage hgen).of_kept hkept
  obtain ⟨s₃, s₄, hmove, hlink, rfl⟩ := hf
  obtain ⟨hmem, _, _⟩ := getTargetMissionRecord_mem hm
  obtain ⟨l, hl, rfl⟩ := moveMissionRecordToTop_cases hmove
  obtain ⟨hperm, _⟩ := moveToTop_ok hl (hs.shape.stack_ids _)
  have hlisted : ∃ m' ∈ s₂.allMissions, t ∈ m'.pageAbilityRecords := by
    have hml : m ∈ (s.setStack (targetStack target.bundleName) l).stack (targetStack target.bundleName) := by
      rw [stack_setStack_same]
      exact hperm.mem_iff.mpr hmem
    have hpages : t ∈ m.pageAbilityRecords := List.mem_of_getLast? ht
    rcases hlink with rfl | ⟨m', rfl⟩
    · refine ⟨m, mem_allMissions.mpr (.inl ⟨targetStack target.bundleName, ?_⟩), hpages⟩
      rw [hkept.stack, stack_setTop]
      exact hml
    · refine ⟨m.setPrevMissionRecord (some m'.id),
        mem_allMissions.mpr (.inl ⟨targetStack target.bundleName, ?_⟩), hpages⟩
      rw [hkept.stack, stack_setTop, AbilityMgr.link, stack_modifyMission]
      exact List.mem_map.mpr ⟨m, hml, if_pos rfl⟩
  obtain ⟨m', hm', ht'⟩ := hlisted
  have hgone := removePageAbility_deletes hshape hm' ht' h
  obtain ⟨r, hr, _⟩ := (hs.shape.missions m (mem_all_of_stack hmem)).placed t (List.mem_of_getLast? ht)
  intro hu
  have halive := hu.alive t (by rw [hr]; rfl)
  rw [hgone] at halive
  cases halive

theorem launcher_stack_front (hs : s.Shape) (hp : s.getTopPageAbility = some p)
    (hnone : s.getTargetMissionRecord (targetStack target.bundleName) target.bundleName = none)
    (hlauncher : isLauncherAbility target.bundleName = true) : s.topMissionStacks = some .default := by
  obtain ⟨st, m, r, hst, hlast, _, _, hhome, hname⟩ := hs.top_record hp
  cases st with
  | default => exact hst
  | launcher =>
    have hbundle : target.bundleName = some launcherBundleName := of_decide_eq_true hlauncher
    have hr : r.abilityInfo.bundleName = some launcherBundleName :=
      of_decide_eq_true (targetStack_launcher.mp hhome)
    rw [targetStack_launcher.mpr hlauncher] at hnone
    refine absurd ?_ (getTargetMissionRecord_none hnone (by rw [hbundle]; rfl) m (List.mem_of_getLast? hlast))
    rw [← hname, hr, hbundle]

/-- Which stack a page on a new mission that is taken back leaves in front: the launcher's, unless it
could go back. So the stack in front stays when the page was not the launcher's. -/
theorem topAfter_iff (hs : s.Shape) (hp : s.getTopPageAbility = some p)
    (hnone : s.getTargetMissionRecord (targetStack target.bundleName) target.bundleName = none)
    {prev : Option Nat} (hprev : prev.isSome ↔ s.Links target (some p)) :
    topAfter prev (some (targetStack target.bundleName)) = s.topMissionStacks ↔
      isLauncherAbility target.bundleName = false := by
  cases hlauncher : isLauncherAbility target.bundleName with
  | true =>
    have hno : prev = none := Option.not_isSome_iff_eq_none.mp fun hsome => by
      have hl := (hprev.mp hsome).2.1
      rw [hlauncher] at hl
      cases hl
    rw [hno, launcher_stack_front hs hp hnone hlauncher]
    exact iff_of_false (fun h => by cases h) (fun h => by cases h)
  | false =>
    refine iff_of_true ?_ rfl
    obtain ⟨st, m, r, hst, hlast, _, hr, hhome, _⟩ := hs.top_record hp
    rw [hst]
    cases hrl : r.isLauncherAbility with
    | true =>
      have hno : prev = none := Option.not_isSome_iff_eq_none.mp fun hsome => by
        obtain ⟨_, _, r', hr', hrl'⟩ := hprev.mp hsome
        have hrr : r' = r := Option.some.inj (hr'.symm.trans hr)
        rw [hrr, hrl] at hrl'
        cases hrl'
      rw [hno, ← hhome]
      exact congrArg some (targetStack_launcher.mpr hrl).symm
    | false =>
      have hdefault : st = .default := hhome.symm.trans (targetStack_default.mpr hrl)
      subst hdefault
      have htarget := targetStack_default.mpr hlauncher
      obtain ⟨id, hid⟩ := Option.isSome_iff_exists.mp
        (hprev.mpr ⟨⟨m, by rw [htarget]; exact hlast⟩, hlauncher, r, hr, hrl⟩)
      rw [hid, htarget]
      rfl

/-- A page that is taken back, whether it is new or was there, leaves the missions as they were
exactly when `failsCleanly` says so. -/
theorem rollback_iff (hs : Sound gen s) (hpage : target.abilityType ≠ .service)
    (hgen : s.generatePageAbility gen target want s.getTopPageAbility = .ok (some t, s₁))
    (hne : s.getTopPageAbility ≠ some t) (hkept : Kept s₁ s₂)
    (h : s₂.removePageAbility t = .ok s') : StacksUnchanged s s' ↔ s.failsCleanly target := by
  obtain ⟨_, hno, _⟩ | ⟨hname, id, s₃, s₄, hf, hlink, hs₁⟩ := generatePageAbility_cases hgen
  · cases hno
  have hname' : target.name ≠ none := fun hno => by rw [hno] at hname; cases hname
  unfold failsCleanly
  rw [or_iff_right hname']
  generalize hpo : some t = page at hf
  cases hf with
  | mission hnone hnew =>
    rw [hnone]
    obtain ⟨_, prev, hprev, hiff⟩ := newMission_rollback hs hpage hnone hname hgen hkept h
    rw [hiff]
    dsimp only
    cases htop : s.getTopPageAbility with
    | none =>
      have hno : prev = none := by
        refine Option.not_isSome_iff_eq_none.mp fun hsome => ?_
        obtain ⟨_, _, r, hr, _⟩ := hprev.mp hsome
        rw [htop] at hr
        cases hr
      rw [hno]
      exact eq_comm
    | some p =>
      rw [htop] at hprev
      exact topAfter_iff hs.shape htop hnone hprev
  | page hm hsame hmove =>
    rw [hm]
    dsimp only
    refine iff_of_false (page_rollback hs hpage hm hpo.symm hgen ⟨_, s₄, hmove, ?_, hs₁⟩ hkept h) ?_
    · rcases hlink with ⟨rfl, _⟩ | ⟨m', _, _, _, rfl⟩
      · exact .inl rfl
      · exact .inr ⟨m', rfl⟩
    · rw [← hpo]
      exact fun he => hne he.symm
  | newPage hm hswitch hnew hmove =>
    rw [hm]
    dsimp only
    cases hpo
    cases htop : s.getTopPageAbility with
    | none =>
      rw [htop] at hswitch
      obtain ⟨r, hr, _⟩ := switchesStack_eq_false hswitch
      cases hr
    | some p =>
      refine newPage_rollback hs hpage htop hm hgen ⟨hswitch, _, _, hnew, hmove, ?_⟩ hkept h
      rcases hlink with ⟨rfl, _⟩ | ⟨m', hm', _, hid, rfl⟩
      · exact .inl hs₁
      · exact .inr ⟨m', hm', hid, hs₁⟩

/-- A page that is in front is brought up as it is, and nothing moves. -/
theorem refused_iff (hs : Sound gen s) {page : Option Token}
    (hgen : s.generatePageAbility gen target want s.getTopPageAbility = .ok (page, s'))
    (hpage : page = none ∨ s.getTopPageAbility = page) : StacksUnchanged s s' ↔ s.failsCleanly target := by
  obtain ⟨hname, _, rfl⟩ | ⟨hname, id, s₃, s₄, hf, hlink, rfl⟩ := generatePageAbility_cases hgen
  · exact iff_of_true ⟨rfl, rfl, rfl, fun _ h => h⟩ (.inl hname)
  have hfresh {t : Token} (ht : t = gen.generate s.generated) : s.getTopPageAbility ≠ some t := by
    intro htop
    obtain ⟨_, _, r, _, _, _, hr, _⟩ := hs.shape.top_record htop
    rw [ht, hs.known.fresh] at hr
    cases hr
  cases hf with
  | mission _ hnew =>
    rcases hpage with hno | htop
    · cases hno
    · exact absurd htop (hfresh (newMission_cases hnew).1)
  | newPage _ _ hnew _ =>
    rcases hpage with hno | htop
    · cases hno
    · exact absurd htop (hfresh (newPage_cases hnew).1)
  | @page m _ hm _ hmove =>
    obtain ⟨hmem, _, _⟩ := getTargetMissionRecord_mem hm
    obtain ⟨p, hp, _⟩ := hs.shape.getTop_isSome hmem
    have htop : s.getTopPageAbility = m.getTopPageAbility := by
      refine hpage.resolve_left fun hno => ?_
      rw [hp] at hno
      cases hno
    obtain ⟨hst, hlast⟩ := hs.shape.front_of_top hmem (htop.trans hp) hp
    obtain ⟨l, hl, rfl⟩ := moveMissionRecordToTop_cases hmove
    obtain ⟨_, m', hm', hid', _, hsame⟩ := moveToTop_ok hl (hs.shape.stack_ids _)
    have hmm : m' = m := Keyed.eq_of_key_eq (hs.shape.stack_ids _) hm' hmem hid'
    subst hmm
    have hs₄ : s₄ = s.setStack (targetStack target.bundleName) l := by
      rcases hlink with ⟨rfl, _⟩ | ⟨m₀, hm₀, _, hne, _⟩
      · rfl
      · have heq : m' = m₀ := Option.some.inj (hlast.symm.trans hm₀)
        exact absurd (congrArg (·.id) heq) hne
    refine iff_of_true (stacksUnchanged_of_lists ?_ hst.symm fun t ht => ?_) (.inr ?_)
    · rw [hs₄]
      exact lists_setStack_self (hsame hlast)
    · show (s₄.records t).isSome = true
      rw [hs₄, records_setStack]
      exact ht
    · rw [hm]
      exact htop.symm

/-- A page that is started at once fails without being taken back when it is active already: it was
there, and its mission has come up. -/
theorem starts_iff (hs : Sound gen s) (htop : s.getTopPageAbility = none)
    (hgen : s.generatePageAbility gen target want s.getTopPageAbility = .ok (some t, s₁))
    (h : (s₁.modify t (·.setBundleInfo bundleInfo)).startAbility gen env t = .ok (status, s'))
    (hkeep : ¬ undoes status) (hfail : status.isOk = false) :
    StacksUnchanged s s' ↔ s.failsCleanly target := by
  have hkept : Kept s₁ s' :=
    ((Still.edit fun r => mild_setBundleInfo r _).trans (startAbility_still h)).kept
  -- The only failure that is not undone is that of an active page.
  have hactive : ∃ r, s₁.records t = some r ∧ r.currentState = .active := by
    obtain ⟨r, hr, ⟨_, hproc, _⟩ | ⟨_, rfl, _⟩ | ⟨_, s₂, h₂, _⟩⟩ := startWith_cases h
    · exact absurd (.inl hproc) hkeep
    · cases hfail
    · obtain ⟨r', hr', ⟨hst, _, _⟩ | ⟨_, htr, _⟩ | ⟨_, rfl, _⟩⟩ := activeAbility_cases h₂
      · obtain ⟨r₀, hr₀, hcases⟩ := Store.modify_cases hr'
        rcases hcases with ⟨_, rfl⟩ | ⟨hne, _⟩
        · exact ⟨r₀, hr₀, hst⟩
        · exact absurd rfl hne
      · exact absurd (.inr htr) hkeep
      · cases hfail
  obtain ⟨r, hr, hst⟩ := hactive
  obtain ⟨_, hno, _⟩ | ⟨hname, id, s₃, s₄, hf, hlink, hs₁⟩ := generatePageAbility_cases hgen
  · cases hno
  have hrecords : s₁.records = s₃.records := by
    rw [hs₁]
    rcases hlink with ⟨rfl, _⟩ | ⟨_, _, _, _, rfl⟩ <;> rfl
  generalize hpo : some t = page at hf
  cases hf with
  | mission _ hnew =>
    cases hpo
    obtain ⟨_, r', hr', _, _, hnew'⟩ := newMission_lists hnew
    rw [hrecords, hr'] at hr
    cases hr
    rw [hst] at hnew'
    cases hnew'
  | newPage _ hswitch _ _ =>
    rw [htop] at hswitch
    obtain ⟨_, hno, _⟩ := switchesStack_eq_false hswitch
    cases hno
  | page hm _ _ =>
    obtain ⟨hmem, _, _⟩ := getTargetMissionRecord_mem hm
    refine iff_of_false (fun hu => ?_) ?_
    · refine hs.shape.no_top hmem htop ?_
      rw [← hu.top, hkept.top, hs₁]
    · rintro (hno | hclean)
      · rw [hno] at hname
        cases hname
      · rw [hm, htop] at hclean
        dsimp only at hclean
        rw [← hpo] at hclean
        cases hclean

/-- A page start that fails leaves the missions as they were exactly when `failsCleanly` says so. -/
theorem startPageTask_failed (hs : Sound gen s) (hpage : target.abilityType ≠ .service)
    (h : s.startPageTask gen env want target bundleInfo = .ok (status, s')) (hfail : status.isOk = false) :
    StacksUnchanged s s' ↔ s.failsCleanly target := by
  have hset (s : AbilityMgr) (t : Token) : Still gen env s (s.modify t (·.setBundleInfo bundleInfo)) :=
    .edit fun r => mild_setBundleInfo r _
  cases startPageTask_cases h with
  | refused hgen hpage => exact refused_iff hs hgen hpage
  | givesWay _ _ _ _ hok =>
    rw [hok] at hfail
    cases hfail
  | stays hgen htop hne h₂ _ h₃ =>
    refine rollback_iff hs hpage hgen (fun he => ?_) ((hset _ _).trans (.inactiveAbility h₂)).kept h₃
    exact hne (Option.some.inj (htop.symm.trans he))
  | starts hgen htop h₂ hkeep => exact starts_iff hs htop hgen h₂ hkeep hfail
  | fails hgen htop h₂ _ h₃ =>
    refine rollback_iff hs hpage hgen (fun he => ?_) ((hset _ _).trans (startAbility_still h₂)).kept h₃
    rw [htop] at he
    cases he

end AbilityMgr

namespace System
variable {gen : TokenGenerate} {env : Env} {s : System} {ams : AbilityMgr} {status : AbilityMsStatus}
  {target : AbilityInfo} {want : Want} {bundleInfo : BundleInfo}

/-- In every reachable state a start of a page that fails leaves the two stacks, the stack in front and
the pages as they were exactly when `failsCleanly` says so. -/
theorem failedStart_unchanged_iff (h : Reached (System.next gen) (fun _ _ => True) IsInit s)
    (hpage : target.abilityType ≠ .service) {waitConnect : Bool}
    (hs : s.ams.startTask gen env want target bundleInfo waitConnect = .ok (status, ams))
    (hfail : status.isOk = false) :
    AbilityMgr.StacksUnchanged s.ams ams ↔ s.ams.failsCleanly target := by
  unfold AbilityMgr.startTask at hs
  rw [if_neg hpage] at hs
  exact AbilityMgr.startPageTask_failed (sound_of_reached h) hpage hs hfail

/-! ## Two applications -/

def counter : TokenGenerate := ⟨id, fun _ _ h => h⟩

def pageBundle (name : Option CString) : BundleInfo where
  bundleName := name
  codePath := some (cstr "p")
  dataPath := some (cstr "d")
  moduleInfos := [some (cstr "m")]

def pageInfo (name : Option CString) : AbilityInfo where
  bundleName := name
  name := name
  abilityType := .page
  isVisible := true

def pageWant (name : CString) : Want :=
  { element := some { bundleName := some name, abilityName := some name } }

/-- Everything outside AMS works, and each bundle has one page of its name. -/
def pageEnv : Env where
  queryBundleInfo name := some (pageBundle name)
  queryAbilityInfo want := some (pageInfo (want.element.bind (·.bundleName)))
  bundleNameForUid _ := none
  spawn _ := some 7
  serializes _ := true
  sends _ _ := true
  notifies _ _ := true
  addDeathRecipient _ := true
  loadPermissions _ := none
  loads _ := true

def startA : Event := .startAbility (pageWant (cstr "a")) 5
def startB : Event := .startAbility (pageWant (cstr "b")) 5

/-- A page that is not active yet does not give way, and the new one is taken back. -/
theorem failedStart_unchanged_second :
    ∃ s ams status, System.next counter {} (pageEnv, startA) = some s ∧
      s.ams.startTask counter pageEnv (pageWant (cstr "b")) (pageInfo (some (cstr "b")))
        (pageBundle (some (cstr "b"))) false = .ok (status, ams) ∧ status.isOk = false ∧
      (AbilityMgr.StacksUnchanged s.ams ams ↔ s.ams.failsCleanly (pageInfo (some (cstr "b")))) := by
  have h : ((System.next counter {} (pageEnv, startA)).map fun s =>
      match s.ams.startTask counter pageEnv (pageWant (cstr "b")) (pageInfo (some (cstr "b")))
        (pageBundle (some (cstr "b"))) false with
      | .ok (status, _) => some status.isOk
      | .error _ => none) = some (some false) := by decide
  obtain ⟨s, hs, hstart⟩ := Option.map_eq_some_iff.mp h
  split at hstart
  · next status ams hok =>
    have hfail : status.isOk = false := Option.some.inj hstart
    exact ⟨s, ams, status, hs, hok, hfail, failedStart_unchanged_iff
      (.step (.init rfl) trivial hs) (fun he => by cases he) hok hfail⟩
  · cases hstart

/-- Page a has been active and was asked to give way to b, which is not up yet. -/
def handOver : List (Env × Event) :=
  [startA, .attachBundle ⟨1, 7, ⟨9, 9⟩⟩, .perform 1 ⟨0, 0⟩, .perform 1 ⟨0, 0⟩, .reply 1, startB].map
    fun e => (pageEnv, e)

/-- A second start of a meanwhile fails, and deletes the page that was there. -/
theorem failedStart_deletes :
    ∃ s ams status, Reached (System.next counter) (fun _ _ => True) IsInit s ∧
      s.ams.startTask counter pageEnv (pageWant (cstr "a")) (pageInfo (some (cstr "a")))
        (pageBundle (some (cstr "a"))) false = .ok (status, ams) ∧ status.isOk = false ∧
      (s.ams.records 0).isSome ∧ ams.records 0 = none ∧ ¬ AbilityMgr.StacksUnchanged s.ams ams := by
  have h : ((run (System.next counter) {} handOver).map fun s =>
      match s.ams.startTask counter pageEnv (pageWant (cstr "a")) (pageInfo (some (cstr "a")))
        (pageBundle (some (cstr "a"))) false with
      | .ok (status, ams) => some (status.isOk, (s.ams.records 0).isSome, (ams.records 0).isSome)
      | .error _ => none) = some (some (false, true, false)) := by decide
  obtain ⟨s, hs, hstart⟩ := Option.map_eq_some_iff.mp h
  split at hstart
  · next status ams hok =>
    simp only [Option.some.injEq, Prod.mk.injEq] at hstart
    obtain ⟨hfail, hbefore, hafter⟩ := hstart
    refine ⟨s, ams, status, Reached.of_run (.init rfl) _ hs, hok, hfail, hbefore,
      Option.not_isSome_iff_eq_none.mp (by rw [hafter]; exact Bool.false_ne_true), fun hu => ?_⟩
    have halive := hu.alive 0 hbefore
    rw [hafter] at halive
    cases halive
  · cases hstart

end System
end AbilityLite.Ams
