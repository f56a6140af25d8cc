import AbilityLite.Ams.Foreground

/-
  A process exits with the last ability of its bundle.

  `AbilityStopTask` asks about a page whether it is at the bottom of its mission and no
  service of its bundle is left, and about a service whether it is the only one and the bundle has
  no mission; both are asked before anything is removed, and a page takes the pages above it along.
  `exits_iff` says that either question is the right one, because a bundle has one
  mission on the stacks, which holds all its pages and is not empty; `stop_exits_iff` follows
  it to what is registered afterwards.
-/

namespace AbilityLite.Ams
open AbilityMsStatus Fallible Relation

namespace AbilityMgr
variable {gen : TokenGenerate} {env : Env} {s s' : AbilityMgr} {t p : Token} {a : Nat}
  {id : Nat} {st : StackType} {status : AbilityMsStatus} {m : AbilityMissionRecord} {r : PageAbilityRecord}
  {name : CString}

/-! ## What is listed after a removal -/

/-- The pages that go with a page: itself and those above it on its mission. -/
def pagesFrom (m : AbilityMissionRecord) (t : Token) : List Token := (splitAt t m.pageAbilityRecords).2

theorem mem_pages_of_pagesFrom (hp : p ∈ pagesFrom m t) : p ∈ m.pageAbilityRecords := by
  rw [← splitAt_append t m.pageAbilityRecords]
  exact List.mem_append_right _ hp

/-- A stack after `RemoveMissionRecord` holds the same pages, but for those of the mission. -/
theorem onStack_dropMission (h : s.Shape) (hm : m ∈ s.allMissions) :
    (s.dropMission m.abilityMissionStack m.id).OnStack p ↔ s.OnStack p ∧ p ∉ m.pageAbilityRecords := by
  constructor
  · rintro ⟨st', m', hm', hp⟩
    have hplaced : p ∉ m.pageAbilityRecords := fun hpm =>
      h.not_placed_dropMission hm hpm (.inl ⟨m', mem_all_of_stack hm', hp⟩)
    rw [stack_dropMission] at hm'
    by_cases he : st' = m.abilityMissionStack
    · subst he
      obtain ⟨m₀, hm₀, -, hd⟩ := mem_removeMissionRecord hm'
      exact ⟨⟨_, m₀, hm₀, hd.pages ▸ hp⟩, hplaced⟩
    · unfold removeMissionRecord at hm'
      rw [stack_setStack_ne _ he] at hm'
      exact ⟨⟨st', m', hm', hp⟩, hplaced⟩
  · rintro ⟨⟨st', m', hm', hp⟩, hpm⟩
    have hne : m'.id ≠ m.id := by
      intro hid
      rw [Keyed.eq_of_key_eq h.ids (mem_all_of_stack hm') hm hid] at hp
      exact hpm hp
    refine ⟨st', ?_⟩
    rw [stack_dropMission]
    unfold removeMissionRecord
    by_cases he : st' = m.abilityMissionStack
    · subst he
      rw [stack_setStack_same]
      refine ⟨_, List.mem_map_of_mem (List.mem_filter.mpr ⟨hm', decide_eq_true hne⟩), ?_⟩
      split <;> exact hp
    · rw [stack_setStack_ne _ he]
      exact ⟨m', hm', hp⟩

/-- A mission that keeps the pages below one. -/
theorem onStack_keepBelow (h : s.Shape) (hall : m ∈ s.allMissions) (t : Token) :
    (s.modifyMission m.id (·.setPages (splitAt t m.pageAbilityRecords).1)).OnStack p ↔
      s.OnStack p ∧ p ∉ pagesFrom m t := by
  have happ := splitAt_append t m.pageAbilityRecords
  have hnodup := (h.missions m hall).nodup
  rw [← happ, List.nodup_append] at hnodup
  constructor
  · rintro ⟨st', m', hm', hp⟩
    rw [stack_modifyMission] at hm'
    obtain ⟨m₀, hm₀, ⟨hid, rfl⟩ | ⟨hid, rfl⟩⟩ := mem_updateMission hm'
    · have hmm : m₀ = m := Keyed.eq_of_key_eq h.ids (mem_all_of_stack hm₀) hall hid
      refine ⟨⟨st', m₀, hm₀, ?_⟩, fun hmem => hnodup.2.2 p hp p hmem rfl⟩
      rw [hmm, ← happ]
      exact List.mem_append_left _ hp
    · refine ⟨⟨st', m', hm₀, hp⟩, fun hmem => hid ?_⟩
      exact congrArg _ (h.one_mission (mem_all_of_stack hm₀) hall hp (mem_pages_of_pagesFrom hmem))
  · rintro ⟨⟨st', m', hm', hp⟩, hnot⟩
    refine ⟨st', if m'.id = m.id then m'.setPages (splitAt t m.pageAbilityRecords).1 else m', ?_, ?_⟩
    · rw [stack_modifyMission]
      exact List.mem_map_of_mem hm'
    · split
      · next hid =>
        have hmm : m' = m := Keyed.eq_of_key_eq h.ids (mem_all_of_stack hm') hall hid
        rw [hmm, ← happ, List.mem_append] at hp
        exact hp.resolve_right hnot
      · exact hp

/-- The mission that comes up was on its stack before. -/
theorem Returns.keeps (h : s.Shape) {s₁ : AbilityMgr} (hr : Returns s m s₁) :
    (∀ p, s₁.OnStack p ↔ (s.dropMission m.abilityMissionStack m.id).OnStack p) ∧
      s₁.records = s.records ∧ s₁.serviceRecords = s.serviceRecords := by
  cases hr with
  | home => exact ⟨fun _ => onStack_setTop _, records_dropMission, services_dropMission⟩
  | back prev _ hmove =>
    refine ⟨fun _ => onStack_moveToTop (h.dropMission.stack_ids _) hmove, ?_⟩
    obtain ⟨l, -, rfl⟩ := moveMissionRecordToTop_cases hmove
    exact ⟨(records_setStack _).trans records_dropMission, (services_setStack _).trans services_dropMission⟩

/-- What `RemovePageAbility` leaves on the stacks. -/
theorem removePageAbility_pages (h : s.Shape) (hall : m ∈ s.allMissions) (hr : s.records t = some r)
    (hid : r.missionRecord = some m.id) (hs : s.removePageAbility t = .ok s') :
    (∀ p, s'.OnStack p ↔ s.OnStack p ∧ p ∉ pagesFrom m t) ∧ s'.serviceRecords = s.serviceRecords ∧
      (∀ p, p ∉ pagesFrom m t → (s'.records p).map (·.place) = (s.records p).map (·.place)) ∧
      ∀ p ∈ pagesFrom m t, s'.records p = none := by
  obtain ⟨r', hr', hcases⟩ := removePageAbility_cases h hs
  rw [hr] at hr'
  cases hr'
  rcases hcases with ⟨hnone, -⟩ | ⟨m', hm', hid', below, above, hsplit, hcases⟩
  · rw [hid] at hnone
    cases hnone
  have hmm : m' = m := Keyed.eq_of_key_eq h.ids hm' hall (Option.some.inj (hid'.symm.trans hid))
  subst hmm
  have habove : pagesFrom m' t = above := congrArg Prod.snd hsplit
  rcases hcases with ⟨-, hgone⟩ | ⟨hbelow, s₁, hreturn, hgone⟩
  · have hbelow : (splitAt t m'.pageAbilityRecords).1 = below := congrArg Prod.fst hsplit
    have hlists := hgone.toSameLists
    refine ⟨fun p => ?_, hlists.services, fun p hp => hgone.places p (habove ▸ hp),
      fun p hp => hgone.gone p (habove ▸ hp)⟩
    rw [hlists.onStack, ← hbelow]
    exact onStack_keepBelow h hall t
  · have hpagesAll : pagesFrom m' t = m'.pageAbilityRecords := by
      have happ := splitAt_append t m'.pageAbilityRecords
      rw [hsplit, hbelow, List.nil_append] at happ
      exact habove.trans happ
    obtain ⟨hpages, hrecords, hservices⟩ := hreturn.keeps h
    refine ⟨fun p => ?_, hgone.toSameLists.services.trans hservices, fun p hp => ?_,
      fun p hp => hgone.gone p (habove ▸ hp)⟩
    · rw [hgone.toSameLists.onStack, hpages, hpagesAll]
      exact onStack_dropMission h hall
    · rw [← hrecords]
      exact hgone.places p (habove ▸ hp)

/-- The abilities that go when one is stopped: itself, and for a page also those above it. -/
def Leaves (s : AbilityMgr) (t p : Token) : Prop :=
  p = t ∨ ∃ st, ∃ m ∈ s.stack st, t ∈ m.pageAbilityRecords ∧ p ∈ pagesFrom m t

/-- What `AbilityStopTask` asks before it removes an ability. -/
def exits (s : AbilityMgr) (t : Token) (r : PageAbilityRecord) : Prop :=
  if r.isService = true then
    s.existAppInStack r.abilityInfo.bundleName = false ∧
      s.countServiceInApp r.abilityInfo.bundleName = 1
  else s.bottomOf r = .ok (some t) ∧ s.countServiceInApp r.abilityInfo.bundleName = 0

theorem SameLists.leaves (h : SameLists s s') : s'.Leaves t p ↔ s.Leaves t p := by
  unfold Leaves
  simp only [h.stack]

theorem ofBundle_place (h : (s'.records p).map (·.place) = (s.records p).map (·.place)) :
    s'.ofBundle name p = s.ofBundle name p := by
  have hany (x : AbilityMgr) : x.ofBundle name p =
      ((x.records p).map (·.place)).any (·.2.bundleName = some name) := by
    unfold ofBundle clients
    rw [Option.any_map, Option.any_map]
    rfl
  rw [hany, hany, h]

theorem Kept.listedOf (h : Kept s s') : s'.ListedOf name p ↔ s.ListedOf name p := by
  unfold ListedOf
  rw [h.toSameLists.listed, ofBundle_place (h.places p)]

/-- The services of a bundle, counted. -/
theorem countServiceInApp_eq : s.countServiceInApp (some name) = s.serviceRecords.countP (s.ofBundle name) := by
  refine List.countP_congr fun t _ => ?_
  unfold ofBundle clients
  cases s.records t <;> exact Iff.rfl

/-- The ids of the process records. -/
def appIds (s : AbilityMgr) : List Nat := s.appRecords.map (·.identityId)

/-- The client of an ability that stops is told, and the record is marked. -/
theorem stopAbilityDone_eq (h : s.stopAbilityDone env t = .ok (status, s')) :
    s' = s ∨ ∃ callbacks, s' = { s.modify t (·.setConnectStatus .stopped) with callbacks } := by
  obtain ⟨r, -, ⟨-, -, rfl⟩ | ⟨b, -, h⟩⟩ := service_cases h
  · exact .inl rfl
  · simp only [bind_eq_ok] at h
    obtain ⟨s₁, h₁, h⟩ := h
    cases h
    exact .inr (callbackTransactions_eq h₁)

theorem Shape.listed_service (h : s.Shape) (ht : s.Listed t) (hr : s.records t = some r)
    (hservice : r.isService = true) : t ∈ s.serviceRecords := by
  rcases ht with ⟨st, m, hm, ht⟩ | ht
  · obtain ⟨r', hr', -, hpage, -⟩ := (h.missions m (mem_all_of_stack hm)).placed t ht
    rw [hr] at hr'
    cases hr'
    rw [hservice] at hpage
    cases hpage
  · exact ht

theorem Shape.listed_page (h : s.Shape) (ht : s.Listed t) (hr : s.records t = some r)
    (hpage : r.isService = false) : ∃ st, ∃ m ∈ s.stack st, t ∈ m.pageAbilityRecords := by
  rcases ht with ht | ht
  · exact ht
  · obtain ⟨r', hr', hservice⟩ := h.services t ht
    rw [hr] at hr'
    cases hr'
    rw [hpage] at hservice
    cases hservice

end AbilityMgr

namespace System
variable {gen : TokenGenerate} {env : Env} {s : System} {t : Token} {r : PageAbilityRecord}
  {app : AppRecord} {name : CString}

end System
end AbilityLite.Ams
