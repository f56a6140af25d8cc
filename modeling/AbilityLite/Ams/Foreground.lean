import AbilityLite.Ams.Clearing

/-
  What the end of an application in the background does to the foreground.

  `ClearAbilityStack` brings the mission up that the cleared one goes back to, whether the
  cleared one was on top or not, and the task activates the page that is then on top.
-/

namespace AbilityLite.Ams
open AbilityMsStatus Fallible Relation
namespace AbilityMgr
variable {gen : TokenGenerate} {env : Env} {s s' s₁ s₂ : AbilityMgr} {t p : Token} {a id prev : Nat}
  {st : StackType} {status : AbilityMsStatus} {m : AbilityMissionRecord} {name : CString}

/-- The missions of the other bundles on a stack, from the bottom. -/
def others (s : AbilityMgr) (name : CString) (st : StackType) : List Nat :=
  ((s.stack st).filter (·.bundleName ≠ some name)).map (·.id)

/-- The page in front is the same, the missions of the other bundles are in the order they were in,
and only the page in front was asked to be active. -/
structure InFront (name : CString) (s s' : AbilityMgr) : Prop where
  top : s'.getTopPageAbility = s.getTopPageAbility
  order : ∀ st, s'.others name st = s.others name st
  sent : ∃ l, s'.sent = s.sent ++ l ∧ ∀ x ∈ l, ∀ state want type,
    x.2 = .lifecycle state want type → state.state = .active → s.getTopPageAbility = some state.token

/-- No mission of another bundle is above the one the mission of a bundle goes back to. -/
def GoesBackToTop (s : AbilityMgr) (name : CString) : Prop :=
  ∀ m, s.getTargetMissionRecord (targetStack (some name)) (some name) = some m →
    ∀ prev, m.prevMissionRecord = some prev →
      ((s.others name (targetStack (some name))).dropWhile (· ≠ prev)).tail = []

/-! ## The order of the others -/

/-- Moving an element to the end leaves a list alone exactly when nothing is behind it. -/
theorem raise_eq_iff {l : List Nat} (hnodup : l.Nodup) :
    l.filter (· ≠ prev) ++ (if prev ∈ l then [prev] else []) = l ↔
      (l.dropWhile (· ≠ prev)).tail = [] := by
  by_cases hmem : prev ∈ l
  · obtain ⟨xs, ys, rfl, hxs⟩ := List.eq_append_cons_of_mem hmem
    have hys : prev ∉ ys := by
      rw [List.nodup_append] at hnodup
      exact (List.nodup_cons.mp hnodup.2.1).1
    have hkeep {l : List Nat} (h : prev ∉ l) : l.filter (· ≠ prev) = l :=
      List.filter_eq_self.mpr fun x hx => decide_eq_true fun he : x = prev => h (he ▸ hx)
    have hdrop : (xs ++ prev :: ys).dropWhile (· ≠ prev) = prev :: ys := by
      have hall : ∀ x ∈ xs, decide (x ≠ prev) = true :=
        fun x hx => decide_eq_true fun he => hxs (he ▸ hx)
      rw [List.dropWhile_append_of_pos hall]
      exact List.dropWhile_cons_of_neg (by simp)
    rw [if_pos hmem, hdrop, List.tail_cons, List.filter_append, hkeep hxs,
      List.filter_cons_of_neg (by simp), hkeep hys, List.append_assoc, List.append_right_inj]
    cases ys with
    | nil => exact iff_of_true rfl rfl
    | cons y ys =>
      refine iff_of_false (fun he => ?_) (fun he => by cases he)
      rw [List.cons_append, List.cons.injEq] at he
      exact hys (he.1 ▸ List.mem_cons_self)
  · have hfilter : l.filter (· ≠ prev) = l :=
      List.filter_eq_self.mpr fun x hx => decide_eq_true fun he : x = prev => hmem (he ▸ hx)
    have hdrop : l.dropWhile (· ≠ prev) = [] :=
      List.dropWhile_eq_nil_iff.mpr fun x hx => decide_eq_true fun he : x = prev => hmem (he ▸ hx)
    rw [if_neg hmem, List.append_nil, hdrop]
    exact iff_of_true hfilter rfl

theorem Shape.others_nodup (h : s.Shape) : (s.others name st).Nodup :=
  (h.stack_ids st).sublist (List.filter_sublist.map _)

theorem mem_others (h : s.Shape) (hm : m ∈ s.stack st) :
    m.id ∈ s.others name st ↔ m.bundleName ≠ some name := by
  unfold others
  constructor
  · intro hid
    obtain ⟨m', hm', hid'⟩ := List.mem_map.mp hid
    rw [List.mem_filter, decide_eq_true_eq] at hm'
    rw [← Keyed.eq_of_key_eq (h.stack_ids st) hm'.1 hm hid']
    exact hm'.2
  · intro hname
    exact List.mem_map.mpr ⟨m, List.mem_filter.mpr ⟨hm, decide_eq_true hname⟩, rfl⟩

theorem others_raise (name : CString) (h : s.Shape) (hs : s.moveMissionRecordToTop st prev = .ok s') :
    s'.others name st = (s.others name st).filter (· ≠ prev) ++
      (if prev ∈ s.others name st then [prev] else []) := by
  obtain ⟨l, hl, rfl⟩ := moveMissionRecordToTop_cases hs
  obtain ⟨m, hm, rfl, rfl⟩ := moveToTop_eq hl (h.stack_ids st)
  have hlast : (([m].filter (·.bundleName ≠ some name)).map (·.id)) =
      if m.id ∈ s.others name st then [m.id] else [] := by
    by_cases hname : m.bundleName ≠ some name
    · rw [if_pos ((mem_others h hm).mpr hname)]
      simp [hname]
    · rw [if_neg fun hmem => hname ((mem_others h hm).mp hmem)]
      simp [not_not.mp hname]
  rw [← hlast]
  unfold others
  rw [stack_setStack_same, List.filter_append, List.map_append, List.filter_map]
  congr 2
  rw [List.filter_filter, List.filter_filter]
  refine List.filter_congr fun x _ => ?_
  exact Bool.and_comm _ _

theorem others_congr (h : s'.stack st = s.stack st) : s'.others name st = s.others name st := by
  unfold others
  rw [h]

theorem goesBackToTop_congr (h : ∀ st, s'.stack st = s.stack st) :
    s'.GoesBackToTop name ↔ s.GoesBackToTop name := by
  unfold GoesBackToTop getTargetMissionRecord others
  simp only [h]

/-- What `ClearAbilityStack` brings up leaves the others in their order exactly when none of them is
above the mission the bundle goes back to. -/
theorem returnFrom_order (h : s.Shape) (hs : s.returnFrom name = .ok s')
    (hfront : ∀ st, s.topMissionStacks = some st → s.isTopMissionRecord st (some name) = false) :
    ((∀ st, s'.others name st = s.others name st) ↔ s.GoesBackToTop name) ∧
      s'.topMissionStacks = s.topMissionStacks := by
  unfold returnFrom at hs
  dsimp only at hs
  split at hs
  · next hnone =>
    cases hs
    refine ⟨iff_of_true (fun _ => rfl) fun m hm => ?_, rfl⟩
    rw [hnone] at hm
    cases hm
  · next m hm =>
    have hprev (hno : m.prevMissionRecord = none) : s.GoesBackToTop name := by
      intro m' hm' prev hp
      rw [hm] at hm'
      cases hm'
      rw [hno] at hp
      cases hp
    -- With no mission to go back to the top stays: it is not of the bundle.
    split at hs
    · next prev hp =>
      have hraise := others_raise name h hs
      obtain ⟨l, _, rfl⟩ := moveMissionRecordToTop_cases hs
      refine ⟨⟨fun horder => ?_, fun hback st => ?_⟩, top_setStack l⟩
      · intro m' hm' prev' hp'
        rw [hm] at hm'
        cases hm'
        rw [hp] at hp'
        cases hp'
        exact (raise_eq_iff h.others_nodup).mp (hraise.symm.trans (horder _))
      · by_cases hst : st = targetStack (some name)
        · subst hst
          exact hraise.trans ((raise_eq_iff h.others_nodup).mpr (hback m hm prev hp))
        · exact others_congr (stack_setStack_ne l hst)
    · next hp =>
      split at hs
      · cases hs
        exact ⟨iff_of_true (fun _ => rfl) (hprev hp), rfl⟩
      · next top htop =>
        rw [hfront top htop] at hs
        cases hs
        exact ⟨iff_of_true (fun _ => rfl) (hprev hp), rfl⟩

/-- Dropping the mission of a bundle does not touch the others. -/
theorem others_dropMission (h : s.Shape) (hm : m ∈ s.stack st) (hname : m.bundleName = some name)
    (st' : StackType) : (s.dropMission st m.id).others name st' = s.others name st' := by
  unfold others
  rw [stack_dropMission, removeMissionRecord]
  by_cases hst : st' = st
  · subst hst
    rw [stack_setStack_same, List.filter_map, List.map_map, List.filter_filter]
    have hkeep (x : AbilityMissionRecord) : (if x.prevMissionRecord = some m.id then
        x.setPrevMissionRecord none else x).bundleName = x.bundleName ∧
        (if x.prevMissionRecord = some m.id then x.setPrevMissionRecord none else x).id = x.id := by
      split <;> exact ⟨rfl, rfl⟩
    refine Eq.trans (List.map_congr_left fun x _ => (hkeep x).2) (congrArg _ ?_)
    refine List.filter_congr fun x hx => ?_
    rw [Function.comp_apply, (hkeep x).1, ← Bool.decide_and, decide_eq_decide]
    refine and_iff_left_of_imp fun hother hid => hother ?_
    rw [Keyed.eq_of_key_eq (h.stack_ids st') hx hm hid]
    exact hname
  · rw [stack_setStack_ne _ hst]

theorem top_dropMission : (s.dropMission st id).topMissionStacks = s.topMissionStacks := top_setStack _

theorem sent_dropMission : (s.dropMission st id).sent = s.sent := sent_setStack _

/-! ## Clearing a bundle that is not in front -/

/-- The bundle of the page in front is not on top of its stack. -/
theorem Shape.not_top (h : s.Shape) (hfront : ∀ p, s.getTopPageAbility = some p → p ∉ s.pagesOf name)
    (hst : s.topMissionStacks = some st) : s.isTopMissionRecord st (some name) = false := by
  unfold isTopMissionRecord
  split
  · rfl
  · next m hlast =>
    rw [Bool.eq_false_iff]
    intro hsame
    unfold AbilityMissionRecord.isSameMissionRecord at hsame
    rw [Option.isSome_some, Bool.true_and, beq_iff_eq] at hsame
    have hm := List.mem_of_getLast? hlast
    obtain ⟨p, hp, hmem⟩ := h.getTop_isSome hm
    refine hfront p ?_ ?_
    · unfold getTopPageAbility getTopMissionRecord
      rw [hst]
      dsimp only
      rw [hlast, Option.bind_some, hp]
    · unfold pagesOf
      rw [(h.mission_of hm hsame).2]
      exact hmem

/-- A stack whose other missions keep their order shows the page it showed. -/
theorem Shape.top_same (h : s.Shape) (hfront : ∀ p, s.getTopPageAbility = some p → p ∉ s.pagesOf name)
    (htop : s'.topMissionStacks = s.topMissionStacks) (horder : ∀ st, s'.others name st = s.others name st)
    (hmem : ∀ st, ∀ m' ∈ s'.stack st, ∃ m ∈ s.stack st, Detached m m')
    (hgone : ∀ st, ∀ m ∈ s'.stack st, m.bundleName ≠ some name) :
    s'.getTopPageAbility = s.getTopPageAbility := by
  have hsame (st : StackType) (hst : s.topMissionStacks = some st) :
      ((s'.stack st).getLast?).bind (·.getTopPageAbility) =
        ((s.stack st).getLast?).bind (·.getTopPageAbility) := by
    cases hlast : (s.stack st).getLast? with
    | none =>
      have hempty : s'.stack st = [] := by
        refine List.eq_nil_iff_forall_not_mem.mpr fun m' hm' => ?_
        obtain ⟨m, hm, -⟩ := hmem st m' hm'
        rw [List.getLast?_eq_none_iff.mp hlast] at hm
        cases hm
      rw [hempty]
      rfl
    -- The top is not of the bundle, so it is the last of the others before and after.
    | some m =>
      have hnot := h.not_top hfront hst
      unfold isTopMissionRecord at hnot
      rw [hlast] at hnot
      have hother : m.bundleName ≠ some name := by
        intro hname
        unfold AbilityMissionRecord.isSameMissionRecord at hnot
        dsimp only at hnot
        rw [hname, beq_self_eq_true, Option.isSome_some] at hnot
        cases hnot
      have hold : (s.others name st).getLast? = some m.id := by
        obtain ⟨ys, hys⟩ := List.getLast?_eq_some_iff.mp hlast
        unfold others
        rw [hys, List.filter_append, List.map_append]
        simp [hother]
      have hnew : s'.others name st = (s'.stack st).map (·.id) := by
        unfold others
        rw [List.filter_eq_self.mpr fun m' hm' => decide_eq_true (hgone st m' hm')]
      rw [← horder, hnew, List.getLast?_map, Option.map_eq_some_iff] at hold
      obtain ⟨m', hlast', hid⟩ := hold
      obtain ⟨m₀, hm₀, hd⟩ := hmem st m' (List.mem_of_getLast? hlast')
      have hmm : m₀ = m :=
        Keyed.eq_of_key_eq (h.stack_ids st) hm₀ (List.mem_of_getLast? hlast) (hd.id_eq.symm.trans hid)
      rw [hlast', Option.bind_some, Option.bind_some, AbilityMissionRecord.getTopPageAbility, hd.pages, hmm]
      rfl
  unfold getTopPageAbility
  rw [htop]
  cases hst : s.topMissionStacks with
  | none => rfl
  | some st => exact hsame st hst

/-- What `ClearAbilityStack` does to the missions of the other bundles, and what it sends. -/
theorem clearAbilityStack_others (h : s.Shape)
    (hfront : ∀ p, s.getTopPageAbility = some p → p ∉ s.pagesOf name)
    (hs : s.clearAbilityStack env name = .ok s') :
    ((∀ st, s'.others name st = s.others name st) ↔ s.GoesBackToTop name) ∧
      s'.topMissionStacks = s.topMissionStacks ∧
      (∀ st, ∀ m' ∈ s'.stack st, ∃ m ∈ s.stack st, Detached m m') ∧
      ∃ l, s'.sent = s.sent ++ l ∧ ∀ x ∈ l, x.2.activates = false := by
  obtain ⟨s₁, s₂, h₁, h₂, hs⟩ := clearAbilityStack_cases hs
  -- First the services: no mission is touched.
  obtain ⟨hapart, -, -⟩ := removeServiceRecords_apart h₁
  have hshape₁ := h.removeServiceRecords h₁
  have hfront₁ (st : StackType) (hst : s₁.topMissionStacks = some st) :
      s₁.isTopMissionRecord st (some name) = false := by
    have hnot := h.not_top hfront (hapart.top.symm.trans hst)
    unfold isTopMissionRecord at hnot ⊢
    rw [hapart.stack]
    exact hnot
  -- Then the mission it goes back to comes up: the only step that can change the order.
  obtain ⟨hmem₂, -, -, hsent₂⟩ := returnFrom_keeps hshape₁ h₂
  obtain ⟨horder₂, htop₂⟩ := returnFrom_order hshape₁ h₂ hfront₁
  have hshape₂ := hshape₁.returnFrom h₂
  have horder : (∀ st, s₂.others name st = s.others name st) ↔ s.GoesBackToTop name := by
    rw [← goesBackToTop_congr hapart.stack, ← horder₂]
    exact forall_congr' fun st => by rw [others_congr (hapart.stack st)]
  have hmembers (st : StackType) (m : AbilityMissionRecord) : m ∈ s₂.stack st ↔ m ∈ s.stack st := by
    rw [hmem₂, hapart.stack]
  obtain ⟨l, hl, hno⟩ := hapart.sent
  -- Last its own mission goes, if it has one.
  obtain ⟨-, rfl⟩ | ⟨m, hm, htarget, hst, hgone, s₃, h₃, rfl⟩ := removeMissionRecordByName_cases hshape₂ hs
  · refine ⟨horder, htop₂.trans hapart.top, fun st m hm => ⟨m, (hmembers st m).mp hm, .inl rfl⟩, l, ?_, hno⟩
    rw [hsent₂, hl]
  · obtain ⟨hmem, hname⟩ := hshape₂.getTargetMissionRecord_eq_some.mp htarget
    have hlists := hgone.toSameLists
    rw [hst] at hlists
    rw [hname] at h₃
    obtain ⟨⟨_, _, l', hl', hno'⟩, -, -⟩ := clearPageAbility_apart h₃
    refine ⟨?_, ?_, fun st m' hm' => ?_, l ++ l', ?_, fun x hx => ?_⟩
    · rw [← horder]
      refine forall_congr' fun st => ?_
      rw [others_congr (hlists.stack st), others_dropMission hshape₂ hmem hname]
    · rw [hlists.top, top_dropMission, htop₂, hapart.top]
    · rw [hlists.stack, stack_dropMission] at hm'
      by_cases hhome : st = targetStack (some name)
      · subst hhome
        obtain ⟨m₀, hm₀, -, hd⟩ := mem_removeMissionRecord hm'
        exact ⟨m₀, (hmembers _ m₀).mp hm₀, hd⟩
      · unfold removeMissionRecord at hm'
        rw [stack_setStack_ne _ hhome] at hm'
        exact ⟨m', (hmembers st m').mp hm', .inl rfl⟩
    · rw [sent_dropMission, hl']
      show s₂.sent ++ l' = _
      rw [hsent₂, hl, List.append_assoc]
    · rcases List.mem_append.mp hx with hx | hx
      · exact hno x hx
      · exact hno' x hx

/-- Only the page in front is asked to be active when it resumes. -/
theorem Resumes.front (h : Resumes env s s') : SameLists s s' ∧
    ∃ l, s'.sent = s.sent ++ l ∧ ∀ x ∈ l, ∀ state want type, x.2 = .lifecycle state want type →
      s.getTopPageAbility = some state.token := by
  have hstill : Still ⟨id, fun _ _ h => h⟩ env s s' := h.still
  refine ⟨hstill.kept.toSameLists, ?_⟩
  obtain ⟨_, rfl⟩ | ⟨top, status, htop, h⟩ := h
  · exact ⟨[], (List.append_nil _).symm, fun x hx => (by cases hx)⟩
  · obtain ⟨r, _, ⟨_, _, rfl⟩ | ⟨_, _, rfl | rfl⟩ | ⟨_, _, s₁, ⟨r₁, a, _, _, _, rfl⟩, rfl⟩⟩ :=
      activeAbility_cases h
    · exact ⟨[], (List.append_nil _).symm, fun x hx => (by cases hx)⟩
    · exact ⟨[], (List.append_nil _).symm, fun x hx => (by cases hx)⟩
    · exact ⟨[], (List.append_nil _).symm, fun x hx => (by cases hx)⟩
    · refine ⟨[(a, .lifecycle ⟨top, .active⟩ r₁.want r₁.abilityInfo.abilityType)], rfl, fun x hx => ?_⟩
      intro state want type he
      rw [List.mem_singleton.mp hx] at he
      cases he
      exact htop

theorem getTopPageAbility_congr (h : SameLists s s') : s'.getTopPageAbility = s.getTopPageAbility := by
  unfold getTopPageAbility getTopMissionRecord
  rw [h.top]
  cases s.topMissionStacks with
  | none => rfl
  | some st =>
    dsimp only
    rw [h.stack]

theorem Apart.getTopPageAbility_eq (h : Apart s s') : s'.getTopPageAbility = s.getTopPageAbility := by
  unfold getTopPageAbility getTopMissionRecord
  rw [h.top]
  simp only [h.stack]

theorem Apart.pagesOf_eq (h : Apart s s') : s'.pagesOf name = s.pagesOf name := by
  unfold pagesOf getTargetMissionRecord
  rw [h.stack]

/-- A bundle that is not in front is cleared away without touching the foreground exactly when no
other mission is above the one it goes back to. -/
theorem Clears.inFront_iff (h : s₁.Shape)
    (hfront : ∀ p, s.getTopPageAbility = some p → p ∉ s.pagesOf name) (hapart : Apart s s₁)
    (hs : Clears env name s₁ s') : InFront name s s' ↔ s.GoesBackToTop name := by
  obtain ⟨s₂, h₂, h₃⟩ := hs
  have hfront₁ : ∀ p, s₁.getTopPageAbility = some p → p ∉ s₁.pagesOf name := by
    rw [hapart.getTopPageAbility_eq, hapart.pagesOf_eq]
    exact hfront
  obtain ⟨horder, htop, hmem, l, hl, hno⟩ := clearAbilityStack_others h hfront₁ h₂
  obtain ⟨hgone, -⟩ := clearAbilityStack_gone h h₂
  have hremove : SameLists s₂ (s₂.removeAppRecordByName (some name)) := ⟨rfl, rfl, rfl, rfl, rfl, rfl⟩
  obtain ⟨hsame, l', hl', hactive⟩ := h₃.front
  have hlists := hremove.trans hsame
  have hothers (st : StackType) : s'.others name st = s₂.others name st := others_congr (hlists.stack st)
  have hbefore (st : StackType) : s₁.others name st = s.others name st := others_congr (hapart.stack st)
  rw [← goesBackToTop_congr hapart.stack, ← horder]
  constructor
  · rintro ⟨-, hkeep, -⟩ st
    rw [← hothers, hbefore]
    exact hkeep st
  · intro hkeep
    have hpage : s₂.getTopPageAbility = s.getTopPageAbility :=
      (h.top_same hfront₁ htop hkeep hmem hgone).trans hapart.getTopPageAbility_eq
    obtain ⟨l₀, hl₀, hno₀⟩ := hapart.sent
    refine ⟨(getTopPageAbility_congr hlists).trans hpage,
      fun st => (hothers st).trans ((hkeep st).trans (hbefore st)), l₀ ++ l ++ l', ?_,
      fun x hx state want type he hstate => ?_⟩
    · rw [hl']
      show s₂.sent ++ l' = _
      rw [hl, hl₀, List.append_assoc, List.append_assoc, List.append_assoc]
    · have hsilent : x ∈ l₀ ++ l → False := by
        intro hx
        have hquiet : x.2.activates = false := (List.mem_append.mp hx).elim (hno₀ x) (hno x)
        rw [he] at hquiet
        exact of_decide_eq_false hquiet hstate
      rcases List.mem_append.mp hx with hx | hx
      · exact absurd hx hsilent
      · rw [← hpage, ← getTopPageAbility_congr hremove]
        exact hactive x hx state want type he

theorem InFront.refl (s : AbilityMgr) : InFront name s s :=
  ⟨rfl, fun _ => rfl, [], (List.append_nil _).symm, fun x hx => (by cases hx)⟩

/-- `TerminateApp` does nothing when the process of the bundle cannot be told to exit. -/
def RefusesExit (s : AbilityMgr) (env : Env) (name : CString) : Prop :=
  ∃ app, s.getAppRecordByBundleName (some name) = some app ∧ ¬ s.Reaches env app.identityId .appExit

theorem appTerminateTask_inFront_iff (h : s.Shape)
    (hfront : ∀ p, s.getTopPageAbility = some p → p ∉ s.pagesOf name)
    (hs : s.appTerminateTask env name = .ok (status, s')) :
    InFront name s s' ↔ s.RefusesExit env name ∨ s.GoesBackToTop name := by
  cases appTerminateTask_cases hs with
  | refused happ hreach => exact iff_of_true (.refl s) (.inl ⟨_, happ, hreach⟩)
  | alone happ hclears =>
    have hrefuses : ¬ s.RefusesExit env name := by
      rintro ⟨app, happ', -⟩
      rw [happ] at happ'
      cases happ'
    rw [or_iff_right hrefuses]
    exact hclears.inFront_iff h hfront (.refl s)
  | @exits app _ happ hreach hclears =>
    have hrefuses : ¬ s.RefusesExit env name := by
      rintro ⟨app', happ', hno⟩
      rw [happ] at happ'
      cases happ'
      exact hno hreach
    rw [or_iff_right hrefuses]
    have hsend : Apart s (s.send app.identityId .appExit) := .send rfl
    exact hclears.inFront_iff (h.of_kept (.send .appExit)) hfront hsend

theorem appRestartTask_inFront_iff {bundleInfo : BundleInfo} (h : s.Shape)
    (hname : bundleInfo.bundleName = some name)
    (hfront : ∀ p, s.getTopPageAbility = some p → p ∉ s.pagesOf name)
    (hs : s.appRestartTask env bundleInfo = .ok (status, s')) :
    InFront name s s' ↔ s.GoesBackToTop name := by
  obtain ⟨hnone, _, _⟩ | ⟨name', hname', hclears⟩ := appRestartTask_cases hs
  · rw [hname] at hnone
    cases hnone
  · rw [hname] at hname'
    cases hname'
    exact hclears.inFront_iff h hfront (.refl s)

end AbilityMgr

namespace System
variable {gen : TokenGenerate} {env : Env} {s : System} {name : CString}

/-- In every reachable state the end of an application that is not in front leaves the foreground alone
exactly when no other mission is above the one its mission goes back to, or when its process
cannot be told to exit and nothing is done. -/
theorem background_end_inFront_iff (h : Reached (System.next gen) (fun _ _ => True) IsInit s)
    (hfront : ∀ p, s.ams.getTopPageAbility = some p → p ∉ s.ams.pagesOf name) :
    (∀ status ams, s.ams.appTerminateTask env name = .ok (status, ams) →
      (AbilityMgr.InFront name s.ams ams ↔ s.ams.RefusesExit env name ∨ s.ams.GoesBackToTop name)) ∧
    ∀ bundleInfo status ams, bundleInfo.bundleName = some name →
      s.ams.appRestartTask env bundleInfo = .ok (status, ams) →
      (AbilityMgr.InFront name s.ams ams ↔ s.ams.GoesBackToTop name) := by
  have hshape := (sound_of_reached h).shape
  exact ⟨fun _ _ hs => AbilityMgr.appTerminateTask_inFront_iff hshape hfront hs,
    fun _ _ _ hname hs => AbilityMgr.appRestartTask_inFront_iff hshape hname hfront hs⟩

/-- A process starts, and its page comes up. -/
def comesUp (a : Nat) : List Event :=
  [.attachBundle ⟨a, 7, ⟨9, 9⟩⟩, .perform a ⟨0, 0⟩, .perform a ⟨0, 0⟩, .reply a]

/-- The page of a process gives way. -/
def givesWay (a : Nat) : List Event := [.perform a ⟨0, 0⟩, .reply a]

/-- a opens b, and b opens c. -/
def openedInTurn : List (Env × Event) :=
  ([startA] ++ comesUp 1 ++ [startB] ++ givesWay 1 ++ comesUp 3 ++ givesWay 1 ++
    [Event.startAbility (pageWant (cstr "c")) 5] ++ givesWay 3 ++ comesUp 5 ++ givesWay 3).map
      fun e => (pageEnv, e)

theorem background_end_first :
    ∃ s status ams, run (System.next counter) {} openedInTurn = some s ∧
      s.ams.appTerminateTask pageEnv (cstr "a") = .ok (status, ams) ∧
      (AbilityMgr.InFront (cstr "a") s.ams ams ↔
        s.ams.RefusesExit pageEnv (cstr "a") ∨ s.ams.GoesBackToTop (cstr "a")) := by
  have h : ((run (System.next counter) {} openedInTurn).map fun s =>
      (s.ams.getTopPageAbility, s.ams.pagesOf (cstr "a"),
        (s.ams.appTerminateTask pageEnv (cstr "a")).toOption.isSome)) =
      some (some 4, [0], true) := by decide
  obtain ⟨s, hs, hstate⟩ := Option.map_eq_some_iff.mp h
  simp only [Prod.mk.injEq] at hstate
  obtain ⟨htop, hpages, hok⟩ := hstate
  have hfront : ∀ p, s.ams.getTopPageAbility = some p → p ∉ s.ams.pagesOf (cstr "a") := by
    rw [htop, hpages]
    intro p hp
    cases hp
    decide
  cases hend : s.ams.appTerminateTask pageEnv (cstr "a") with
  | error f =>
    rw [hend] at hok
    cases hok
  | ok result =>
    obtain ⟨status, ams⟩ := result
    exact ⟨s, status, ams, hs, hend,
      (background_end_inFront_iff (Reached.of_run (.init rfl) _ hs) hfront).1 status ams hend⟩

/-- c is in front when b ends in the background, and a comes up in its place. -/
theorem background_end_raises :
    ∃ s status ams, Reached (System.next counter) (fun _ _ => True) IsInit s ∧
      s.ams.getTopPageAbility = some 4 ∧ 4 ∉ s.ams.pagesOf (cstr "b") ∧
      s.ams.appTerminateTask pageEnv (cstr "b") = .ok (status, ams) ∧
      ams.getTopPageAbility = some 0 ∧ ¬ AbilityMgr.InFront (cstr "b") s.ams ams := by
  have h : ((run (System.next counter) {} openedInTurn).map fun s =>
      (s.ams.getTopPageAbility, s.ams.pagesOf (cstr "b"),
        match s.ams.appTerminateTask pageEnv (cstr "b") with
        | .ok (_, ams) => ams.getTopPageAbility
        | .error _ => none)) = some (some 4, [2], some 0) := by decide
  obtain ⟨s, hs, hstate⟩ := Option.map_eq_some_iff.mp h
  simp only [Prod.mk.injEq] at hstate
  obtain ⟨htop, hpages, hend⟩ := hstate
  split at hend
  · next status ams hok =>
    refine ⟨s, status, ams, Reached.of_run (.init rfl) _ hs, htop, ?_, hok, hend, fun hf => ?_⟩
    · rw [hpages]
      decide
    · have hsame := hf.top
      rw [hend, htop] at hsame
      cases hsame
  · cases hend

end System
end AbilityLite.Ams
