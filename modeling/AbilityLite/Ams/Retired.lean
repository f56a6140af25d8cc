import AbilityLite.Ams.FailedStart

/-
  A token that was deleted stays deleted.

  Processes and clients keep the tokens of abilities that AMS has deleted, and messages about
  them arrive in any order with those about abilities that were created since. Tokens are
  not generated twice, so such a message finds nothing, however late it is; and AMS sends
  nothing about a token that has no record.
-/

namespace AbilityLite.Ams
open AbilityMsStatus Fallible Relation

/-- The transactions on their way that are about an ability. -/
def about (t : Token) (sent : List (Nat × Transaction)) : List (Nat × Transaction) :=
  sent.filter fun c => c.2.token = some t

/-- The ability that a reply is about. -/
def Reply.token : Reply → Token
  | .lifecycleDone state => state.token
  | .connectDone _ token => token
  | .disconnectDone token => token

namespace AbilityMgr
variable {gen : TokenGenerate} {env : Env} {s s' : AbilityMgr} {t : Token} {a : Nat}

/-- A token that was generated and has no record. -/
structure Retired (gen : TokenGenerate) (t : Token) (s : AbilityMgr) : Prop where
  generated : ∃ k < s.generated, t = gen.generate k
  gone : s.records t = none

namespace Retired

theorem ne (h : Retired gen t s) {u : Token} {r : PageAbilityRecord} (hr : s.records u = some r) : u ≠ t := by
  rintro rfl
  rw [h.gone] at hr
  cases hr

/-- What neither generates nor allocates. -/
theorem same (h : Retired gen t s) (hgenerated : s'.generated = s.generated)
    (hgone : s.records t = none → s'.records t = none) : Retired gen t s' :=
  ⟨hgenerated ▸ h.generated, hgone h.gone⟩

theorem tick (h : Retired gen t s) (hgenerated : s'.generated = s.generated + 1)
    (hgone : s'.records t = s.records t) : Retired gen t s' := by
  obtain ⟨k, hk, ht⟩ := h.generated
  exact ⟨⟨k, hgenerated ▸ Nat.lt_succ_of_lt hk, ht⟩, hgone.trans h.gone⟩

theorem modify (h : Retired gen t s) {u : Token} (f : PageAbilityRecord → PageAbilityRecord) :
    Retired gen t (s.modify u f) := h.same rfl (Store.modify_eq_none f).mpr

/-- Nothing is sent about it. -/
theorem send (h : Retired gen t s) {m : Transaction} (hm : m.token ≠ some t) :
    Retired gen t (s.send a m) ∧ about t (s.send a m).sent = about t s.sent := by
  have habout (l : List (Nat × Transaction)) : about t (l ++ [(a, m)]) = about t l := by
    unfold about
    rw [List.filter_append, List.filter_cons_of_neg (by simpa using hm), List.filter_nil, List.append_nil]
  cases m with
  | lifecycle state want type => exact ⟨(h.modify (u := state.token) (·.transact)).same rfl id, habout _⟩
  | _ => exact ⟨h.same rfl id, habout _⟩

theorem calm (h : Retired gen t s) (hs : Calm gen env s s') :
    Retired gen t s' ∧ about t s'.sent = about t s.sent := by
  cases hs with
  | tick => exact ⟨h.tick rfl rfl, rfl⟩
  | process => exact ⟨h.tick rfl rfl, rfl⟩
  | edit u f => exact ⟨h.modify f, rfl⟩
  | ask u r a m hr _ _ hm =>
    refine h.send fun he => ?_
    rw [hm, Option.some.injEq] at he
    exact h.ne hr he
  | tell a m hm =>
    refine h.send fun he => ?_
    rw [hm] at he
    cases he
  | callback => exact ⟨h.same rfl id, rfl⟩

theorem quiet (h : Retired gen t s) (hs : Quiet gen env s s') :
    Retired gen t s' ∧ about t s'.sent = about t s.sent := by
  cases hs with
  | calm hcalm => exact h.calm hcalm
  | create info want =>
    refine ⟨h.tick rfl (Store.insert_ne s.records _ ?_), rfl⟩
    obtain ⟨k, hk, ht⟩ := h.generated
    exact fun he => Nat.ne_of_lt hk (gen.injective _ _ (ht.symm.trans he))
  | place u id => exact ⟨h.modify _, rfl⟩
  | reach u r => exact ⟨h.modify _, rfl⟩
  | accept u r => exact ⟨h.modify _, rfl⟩
  | delete _ u hd =>
    have herase : s.records t = none → s.records.erase u t = none := by
      intro hnone
      unfold Store.erase
      split
      · rfl
      · exact hnone
    obtain ⟨r, _, ⟨_, rfl⟩ | ⟨a, app, _, _, rfl⟩⟩ := delete_cases hd
    · exact ⟨h.same rfl herase, rfl⟩
    · exact ⟨h.same rfl herase, rfl⟩
  | shelve hl => exact ⟨h.same hl.generated (hl.records ▸ id), congrArg _ hl.sent⟩

theorem step (h : Retired gen t s) (hs : Step gen env s s') :
    Retired gen t s' ∧ about t s'.sent = about t s.sent := by
  cases hs with
  | quiet hquiet => exact h.quiet hquiet
  | reach u => exact ⟨h.modify _, rfl⟩
  | next u o => exact ⟨h.modify _, rfl⟩
  | prev u o => exact ⟨h.modify _, rfl⟩
  | ask u r a m hr _ hm =>
    refine h.send fun he => ?_
    rw [hm, Option.some.injEq] at he
    exact h.ne hr he
  | accept u r => exact ⟨h.modify _, rfl⟩
  | await u r a => exact ⟨h.same rfl (Store.modify_eq_none _).mpr, rfl⟩
  | client => exact ⟨h.same rfl id, rfl⟩
  | launched => exact ⟨h.same rfl id, rfl⟩
  | drop => exact ⟨h.same rfl id, rfl⟩
  | forget u => exact ⟨h.modify _, rfl⟩

theorem steps (h : Retired gen t s) (hs : ReflTransGen (Step gen env) s s') :
    Retired gen t s' ∧ about t s'.sent = about t s.sent := by
  induction hs with
  | refl => exact ⟨h, rfl⟩
  | tail _ hstep ih =>
    obtain ⟨hretired, habout⟩ := ih.1.step hstep
    exact ⟨hretired, habout.trans ih.2⟩

theorem not_listed (h : Retired gen t s) (hs : s.Shape) : ¬ s.Listed t := by
  intro hl
  obtain ⟨r, hr⟩ := hs.live hl
  exact h.ne hr rfl

end Retired

/-! ## Late messages -/

theorem findPageAbility_unlisted (ht : ¬ s.Listed t) : s.findPageAbility t = none := by
  cases hp : s.findPageAbility t with
  | none => rfl
  | some p => exact absurd (findPageAbility_eq_some.mp hp).2 ht

theorem findServiceAbility_unlisted (ht : ¬ s.Listed t) : s.findServiceAbility t = none := by
  cases hp : s.findServiceAbility t with
  | none => rfl
  | some p => exact absurd (.inr (findServiceRecord_eq_some.mp hp).2) ht

/-- AMS does not find an ability that is not listed, and does nothing. -/
theorem terminateAbility_unlisted (ht : ¬ s.Listed t) :
    s.requestMsg gen env (.terminateAbility t) = .ok s := by
  show (s.terminateTask env t).bind _ = _
  unfold terminateTask
  rw [findPageAbility_unlisted ht]
  rfl

theorem replyMsg_unlisted {r : Reply} (ht : ¬ s.Listed r.token) : s.replyMsg gen env r = .ok s := by
  cases r with
  | lifecycleDone state =>
    obtain ⟨t, st⟩ := state
    have hfind : s.findPageAbility t = none := findPageAbility_unlisted ht
    have hworker : ∃ status, status.isNoActiveAbility = false ∧
        s.workerAbilityTransaction gen env ⟨t, st⟩ = .ok (status, s) := by
      unfold workerAbilityTransaction backgroundTask inactivateTask activateTask stopTask
      cases st <;> simp only [hfind] <;> exact ⟨_, rfl, rfl⟩
    obtain ⟨status, hstatus, hworker⟩ := hworker
    simp only [replyMsg, transactionMsg, hworker]
    show (if status.isNoActiveAbility = true then _ else _) = _
    rw [hstatus]
    rfl
  | connectDone sid t =>
    have hfind : s.findServiceAbility t = none := findServiceAbility_unlisted ht
    show (s.connectDoneTask env sid t).bind _ = _
    unfold connectDoneTask
    rw [hfind]
    rfl
  | disconnectDone t =>
    have hfind : s.findServiceAbility t = none := findServiceAbility_unlisted ht
    show (s.disconnectDoneTask env t).bind _ = _
    unfold disconnectDoneTask
    rw [hfind]
    rfl

end AbilityMgr

theorem takeFirst_sublist {α : Type} {a : Nat} {x : α} {l l' : List (Nat × α)}
    (h : takeFirst a l = some (x, l')) : l'.Sublist l := by
  induction l generalizing l' with
  | nil => cases h
  | cons c l ih =>
    obtain ⟨b, y⟩ := c
    simp only [takeFirst] at h
    split at h
    · cases h
      exact List.sublist_cons_self _ _
    · obtain ⟨⟨x', l₁⟩, h₁, h⟩ := Option.map_eq_some_iff.mp h
      cases h
      exact (ih h₁).cons_cons (b, y)

namespace System
variable {gen : TokenGenerate} {env : Env} {s s' : System} {e : Event} {t : Token}

theorem Happens.retired (hs : s.ams.Sound gen) (ht : s.ams.Retired gen t) (h : Happens gen env s e s') :
    s'.ams.Retired gen t ∧ (about t s'.ams.sent).Sublist (about t s.ams.sent) := by
  have hsteps {ams : AbilityMgr} (hams : ReflTransGen (AbilityMgr.Step gen env) s.ams ams) :
      ams.Retired gen t ∧ (about t ams.sent).Sublist (about t s.ams.sent) := by
    obtain ⟨hretired, habout⟩ := ht.steps hams
    exact ⟨hretired, habout ▸ List.Sublist.refl _⟩
  cases h with
  | request hm => exact hsteps (AbilityMgr.requestMsg_goes hs hm).steps
  | requestFault => exact ⟨ht, .refl _⟩
  | reply _ hm => exact hsteps (AbilityMgr.replyMsg_goes hs hm).steps
  | replyFault => exact ⟨ht, .refl _⟩
  | perform _ htake => exact ⟨ht.same rfl id, (takeFirst_sublist htake).filter _⟩

/-- Over a run, what is retired stays so, and fewer and fewer messages are about it. -/
theorem run_retired {es : List (Env × Event)} (hs : s.ams.Sound gen) (ht : s.ams.Retired gen t)
    (h : run (System.next gen) s es = some s') :
    s'.ams.Sound gen ∧ s'.ams.Retired gen t ∧ (about t s'.ams.sent).Sublist (about t s.ams.sent) := by
  induction es generalizing s with
  | nil =>
    cases h
    exact ⟨hs, ht, .refl _⟩
  | cons e es ih =>
    obtain ⟨s₁, h₁, h⟩ := Option.bind_eq_some_iff.mp h
    have hhappens := (next_cases h₁).2
    obtain ⟨hretired, hfewer⟩ := hhappens.retired hs ht
    obtain ⟨hs', hretired', hfewer'⟩ := ih (hhappens.sound hs) hretired h
    exact ⟨hs', hretired', hfewer'.trans hfewer⟩

/-- Once an ability is deleted, its token is never registered or listed again, no further transaction about
it is sent, and what a client or a process still says about it changes nothing, in whatever order the
messages arrive. -/
theorem deleted_for_good (h : Reached (System.next gen) (fun _ _ => True) IsInit s)
    (hold : ∃ k < s.ams.generated, t = gen.generate k) (hgone : s.ams.records t = none)
    {es : List (Env × Event)} (hrun : run (System.next gen) s es = some s') :
    s'.ams.records t = none ∧ ¬ s'.ams.Listed t ∧
      (about t s'.ams.sent).Sublist (about t s.ams.sent) ∧
      ∀ env, s'.ams.requestMsg gen env (.terminateAbility t) = .ok s'.ams ∧
        ∀ r : Reply, r.token = t → s'.ams.replyMsg gen env r = .ok s'.ams := by
  obtain ⟨hsound, hretired, hfewer⟩ := run_retired (sound_of_reached h) ⟨hold, hgone⟩ hrun
  have hnot := hretired.not_listed hsound.shape
  refine ⟨hretired.gone, hnot, hfewer, fun env => ⟨AbilityMgr.terminateAbility_unlisted hnot, fun r hr => ?_⟩⟩
  exact AbilityMgr.replyMsg_unlisted (hr ▸ hnot)

/-- Page a is deleted before the report that it is active is handled, and page b is created since. -/
theorem deleted_reported_late :
    ∃ s s', run (System.next counter) {}
        ([startA, .attachBundle ⟨1, 7, ⟨9, 9⟩⟩, .perform 1 ⟨0, 0⟩, .perform 1 ⟨0, 0⟩,
          .terminateApp (cstr "a")].map fun e => (pageEnv, e)) = some s ∧
      run (System.next counter) s [(pageEnv, startB)] = some s' ∧
      s'.replies = [(1, .lifecycleDone ⟨0, .active⟩)] ∧
      s'.ams.records 0 = none ∧ ¬ s'.ams.Listed 0 ∧
      (about 0 s'.ams.sent).Sublist (about 0 s.ams.sent) ∧
      ∀ env, s'.ams.requestMsg counter env (.terminateAbility 0) = .ok s'.ams ∧
        ∀ r : Reply, r.token = 0 → s'.ams.replyMsg counter env r = .ok s'.ams := by
  have h : ((run (System.next counter) {}
      ([startA, .attachBundle ⟨1, 7, ⟨9, 9⟩⟩, .perform 1 ⟨0, 0⟩, .perform 1 ⟨0, 0⟩,
        .terminateApp (cstr "a")].map fun e => (pageEnv, e))).bind fun s =>
      (run (System.next counter) s [(pageEnv, startB)]).map fun s' =>
        (s'.replies, s.ams.generated, (s.ams.records 0).isNone)) =
      some ([(1, .lifecycleDone ⟨0, .active⟩)], 2, true) := by decide
  obtain ⟨s, hs, h⟩ := Option.bind_eq_some_iff.mp h
  obtain ⟨s', hs', h⟩ := Option.map_eq_some_iff.mp h
  simp only [Prod.mk.injEq, Option.isNone_iff_eq_none] at h
  obtain ⟨hreplies, hgenerated, hgone⟩ := h
  have hold : ∃ k < s.ams.generated, (0 : Token) = counter.generate k := ⟨0, by rw [hgenerated]; decide, rfl⟩
  exact ⟨s, s', hs, hs', hreplies, deleted_for_good (Reached.of_run (.init rfl) _ hs) hold hgone hs'⟩

end System
end AbilityLite.Ams
