import AbilityLite.Ams.Processes
import AbilityLite.Ams.Stopping

/-
  AMS and the process of a page agree on the state of the page.

  A process reports each state that one of its abilities reaches, and AMS sets the state
  of a page to what is reported and to nothing else. So the last report on its way, or the
  state that AMS has where none is, is the state of the ability in the process. A page that
  a full list did not take is left out (`Off`): AMS does not find it when it is reported.

  `Peers` is what AMS relies on: which abilities a process has heard of, and with which
  state of AMS it agrees. `Accords` is kept by all moves that set no state and let no
  process exit; a report sets the one state it is about.
-/

namespace AbilityLite.Ams
open AbilityMsStatus Fallible Relation

/-- What the processes know and have reported. -/
structure Peers where
  heard : Nat → Token → Prop
  agrees : Nat → Token → State → Prop
  unheard : ∀ b t, ¬ heard b t → agrees b t .uninitialized

/-- A record as far as agreement depends on it. -/
structure SameLife (r r' : PageAbilityRecord) : Prop where
  isService : r'.isService = r.isService
  appRecord : r'.appRecord = r.appRecord
  currentState : r'.currentState = r.currentState

theorem SameLife.refl (r : PageAbilityRecord) : SameLife r r := ⟨rfl, rfl, rfl⟩

theorem Mild.sameLife {r r' : PageAbilityRecord} (h : Mild r r') : SameLife r r' :=
  ⟨by unfold PageAbilityRecord.isService; rw [h.abilityInfo], h.appRecord, h.currentState⟩

namespace AbilityMgr
variable {gen : TokenGenerate} {env : Env} {s s' : AbilityMgr} {t t₀ : Token} {a : Nat}
  {status : AbilityMsStatus} {P P' : Peers} {x : Token → Prop}

/-- A process has heard of an ability, or will. -/
def Heard (P : Peers) (s : AbilityMgr) (b : Nat) (t : Token) : Prop :=
  P.heard b t ∨ ∃ m, (b, m) ∈ s.sent ∧ m.token = some t

/-- Only the process of a page hears of it, and they agree on its state; `x` are the pages it need not
hold of. -/
structure Accords (gen : TokenGenerate) (P : Peers) (x : Token → Prop) (s : AbilityMgr) : Prop where
  tokens : ∀ b t, Heard P s b t → ∃ k < s.generated, t = gen.generate k
  heard : ∀ b t r, Heard P s b t → s.records t = some r → r.isService = false → ¬ x t →
    r.appRecord = some b
  unbound : ∀ t r, s.records t = some r → r.isService = false → ¬ x t → r.appRecord = none →
    r.currentState = .uninitialized
  bound : ∀ t r b, s.records t = some r → r.isService = false → ¬ x t → r.appRecord = some b →
    P.agrees b t r.currentState

namespace Accords

theorem mono (h : Accords gen P x s) {y : Token → Prop} (hxy : ∀ t, x t → y t) : Accords gen P y s :=
  ⟨h.tokens, fun b t r hb hr hpage hy => h.heard b t r hb hr hpage fun hx => hy (hxy t hx),
    fun t r hr hpage hy => h.unbound t r hr hpage fun hx => hy (hxy t hx),
    fun t r b hr hpage hy => h.bound t r b hr hpage fun hx => hy (hxy t hx)⟩

/-- No message is new, and the pages that are left live as they did. -/
theorem same (h : Accords gen P x s) (hgenerated : s.generated ≤ s'.generated)
    (hsent : ∀ b m, (b, m) ∈ s'.sent → (b, m) ∈ s.sent ∨ m.token = none)
    (hrecords : ∀ t r', s'.records t = some r' → r'.isService = false → ¬ x t →
      ∃ r, s.records t = some r ∧ SameLife r r') : Accords gen P x s' := by
  have hheard : ∀ b t, Heard P s' b t → Heard P s b t := by
    intro b t hb
    obtain hb | ⟨m, hm, ht⟩ := hb
    · exact .inl hb
    · obtain hm | hnone := hsent b m hm
      · exact .inr ⟨m, hm, ht⟩
      · rw [hnone] at ht
        cases ht
  refine ⟨fun b t hb => ?_, fun b t r' hb hr hpage hx => ?_, fun t r' hr hpage hx ha => ?_,
    fun t r' b hr hpage hx ha => ?_⟩
  · obtain ⟨k, hk, ht⟩ := h.tokens b t (hheard b t hb)
    exact ⟨k, Nat.lt_of_lt_of_le hk hgenerated, ht⟩
  · obtain ⟨r, hold, hlife⟩ := hrecords t r' hr hpage hx
    rw [hlife.appRecord]
    exact h.heard b t r (hheard b t hb) hold (hlife.isService ▸ hpage) hx
  · obtain ⟨r, hold, hlife⟩ := hrecords t r' hr hpage hx
    rw [hlife.currentState]
    exact h.unbound t r hold (hlife.isService ▸ hpage) hx (hlife.appRecord ▸ ha)
  · obtain ⟨r, hold, hlife⟩ := hrecords t r' hr hpage hx
    rw [hlife.currentState]
    exact h.bound t r b hold (hlife.isService ▸ hpage) hx (hlife.appRecord ▸ ha)

theorem modify (h : Accords gen P x s) {f : PageAbilityRecord → PageAbilityRecord}
    (hf : ∀ r, s.records t = some r → (f r).isService = false → ¬ x t → SameLife r (f r)) :
    Accords gen P x (s.modify t f) := by
  refine h.same (Nat.le_refl _) (fun b m hm => .inl hm) fun u r' hr' hpage hx => ?_
  obtain ⟨r, hr, ⟨rfl, rfl⟩ | ⟨_, rfl⟩⟩ := Store.modify_cases hr'
  · exact ⟨r, hr, hf r hr hpage hx⟩
  · exact ⟨r', hr, .refl r'⟩

/-- The records of abilities after a transaction is sent. -/
theorem send_sameLife {m : Transaction} {r' : PageAbilityRecord} (hr' : (s.send a m).records t = some r') :
    ∃ r, s.records t = some r ∧ SameLife r r' := by
  cases m with
  | lifecycle state want type =>
    obtain ⟨r, hr, ⟨_, rfl⟩ | ⟨_, rfl⟩⟩ := Store.modify_cases hr'
    · exact ⟨r, hr, ⟨rfl, rfl, rfl⟩⟩
    · exact ⟨_, hr, .refl _⟩
  | _ => exact ⟨r', hr', .refl r'⟩

/-- A transaction goes to the process of the ability it is about. -/
theorem send (h : Accords gen P x s) (hk : Known gen s) {m : Transaction}
    (hm : ∀ t, m.token = some t → ∃ r, s.records t = some r ∧ (r.isService = false → r.appRecord = some a)) :
    Accords gen P x (s.send a m) := by
  have hheard : ∀ b t, Heard P (s.send a m) b t → Heard P s b t ∨ (b = a ∧ m.token = some t) := by
    intro b t hb
    obtain hb | ⟨m', hm', ht⟩ := hb
    · exact .inl (.inl hb)
    · obtain hold | hnew := List.mem_append.mp hm'
      · exact .inl (.inr ⟨m', hold, ht⟩)
      · rw [List.mem_singleton, Prod.mk.injEq] at hnew
        obtain ⟨rfl, rfl⟩ := hnew
        exact .inr ⟨rfl, ht⟩
  refine ⟨fun b t hb => ?_, fun b t r' hb hr hpage hx => ?_, fun t r' hr hpage hx ha => ?_,
    fun t r' b hr hpage hx ha => ?_⟩
  · obtain hb | ⟨_, ht⟩ := hheard b t hb
    · exact h.tokens b t hb
    · obtain ⟨r, hr, _⟩ := hm t ht
      exact hk.records t (by rw [hr]; rfl)
  · obtain ⟨r, hold, hlife⟩ := send_sameLife hr
    rw [hlife.appRecord]
    have hpage₀ : r.isService = false := hlife.isService ▸ hpage
    obtain hb | ⟨rfl, ht⟩ := hheard b t hb
    · exact h.heard b t r hb hold hpage₀ hx
    · obtain ⟨r₁, hr₁, hprocess⟩ := hm t ht
      rw [hold] at hr₁
      cases hr₁
      exact hprocess hpage₀
  · obtain ⟨r, hold, hlife⟩ := send_sameLife hr
    rw [hlife.currentState]
    exact h.unbound t r hold (hlife.isService ▸ hpage) hx (hlife.appRecord ▸ ha)
  · obtain ⟨r, hold, hlife⟩ := send_sameLife hr
    rw [hlife.currentState]
    exact h.bound t r b hold (hlife.isService ▸ hpage) hx (hlife.appRecord ▸ ha)

/-- No process has heard of a new page. -/
theorem create (h : Accords gen P x s) (info : AbilityInfo) (want : Want) :
    Accords gen P x (s.newPageAbility gen info want).2 := by
  have hnew : ∀ b, ¬ Heard P s b (gen.generate s.generated) := by
    intro b hb
    obtain ⟨k, hk, he⟩ := h.tokens b _ hb
    exact absurd (gen.injective _ _ he) (Nat.ne_of_gt hk)
  have hcases : ∀ t r', (s.newPageAbility gen info want).2.records t = some r' →
      (t = gen.generate s.generated ∧ r'.currentState = .uninitialized) ∨ s.records t = some r' := by
    intro t r' hr'
    obtain ⟨ht, rfl⟩ | ⟨_, hr⟩ := Store.insert_cases hr'
    · exact .inl ⟨ht, rfl⟩
    · exact .inr hr
  refine ⟨fun b t hb => ?_, fun b t r' hb hr hpage hx => ?_, fun t r' hr hpage hx ha => ?_,
    fun t r' b hr hpage hx ha => ?_⟩
  · obtain ⟨k, hk, ht⟩ := h.tokens b t hb
    exact ⟨k, Nat.lt_succ_of_lt hk, ht⟩
  · obtain ⟨ht, _⟩ | hr := hcases t r' hr
    · rw [ht] at hb
      exact absurd hb (hnew b)
    · exact h.heard b t r' hb hr hpage hx
  · obtain ⟨_, hstate⟩ | hr := hcases t r' hr
    · exact hstate
    · exact h.unbound t r' hr hpage hx ha
  · obtain ⟨ht, hstate⟩ | hr := hcases t r' hr
    · rw [hstate, ht]
      exact P.unheard b _ fun hb => hnew b (.inl hb)
    · exact h.bound t r' b hr hpage hx ha

/-- A page that waits for a process was not heard of, so nobody says otherwise. -/
theorem await (h : Accords gen P x s) {r : PageAbilityRecord} (hr : s.records t = some r)
    (hnone : r.appRecord = none) : Accords gen P x (s.await t a) := by
  have hunheard : r.isService = false → ¬ x t → ∀ b, ¬ Heard P s b t := by
    intro hpage hx b hb
    have ha := h.heard b t r hb hr hpage hx
    rw [hnone] at ha
    cases ha
  have hcases : ∀ u r', (s.await t a).records u = some r' → r'.isService = false → ¬ x u →
      (u = t ∧ r'.appRecord = some a ∧ r'.currentState = .uninitialized ∧ ∀ b, ¬ Heard P s b t) ∨
        s.records u = some r' := by
    intro u r' hr' hpage hx
    obtain ⟨old, hold, ⟨rfl, rfl⟩ | ⟨_, rfl⟩⟩ := Store.modify_cases hr'
    · rw [hr] at hold
      cases hold
      exact .inl ⟨rfl, rfl, h.unbound u r hr hpage hx hnone, hunheard hpage hx⟩
    · exact .inr hold
  refine ⟨h.tokens, fun b u r' hb hu hpage hx => ?_, fun u r' hu hpage hx ha => ?_,
    fun u r' b hu hpage hx ha => ?_⟩
  · obtain ⟨rfl, _, _, hno⟩ | hu := hcases u r' hu hpage hx
    · exact absurd hb (hno b)
    · exact h.heard b u r' hb hu hpage hx
  · obtain ⟨_, hsome, _⟩ | hu := hcases u r' hu hpage hx
    · rw [hsome] at ha
      cases ha
    · exact h.unbound u r' hu hpage hx ha
  · obtain ⟨rfl, _, hstate, hno⟩ | hu := hcases u r' hu hpage hx
    · rw [hstate]
      exact P.unheard b u fun hb => hno b (.inl hb)
    · exact h.bound u r' b hu hpage hx ha

theorem calm (h : Accords gen P x s) (hk : Known gen s) (hcalm : Calm gen env s s') :
    Accords gen P x s' := by
  have hsame : ∀ s' : AbilityMgr, s.generated ≤ s'.generated → s'.sent = s.sent →
      s'.records = s.records → Accords gen P x s' := by
    intro s' hgenerated hsent hrecords
    refine h.same hgenerated (fun b m hm => .inl (hsent ▸ hm)) fun t r' hr' _ _ => ?_
    exact ⟨r', hrecords ▸ hr', .refl r'⟩
  cases hcalm with
  | tick => exact hsame _ (Nat.le_succ _) rfl rfl
  | process => exact hsame _ (Nat.le_succ _) rfl rfl
  | edit t f hf => exact h.modify fun r _ _ _ => (hf r).sameLife
  | ask t r a m hr hservice _ hm =>
    refine h.send hk fun u hu => ?_
    rw [hm] at hu
    cases hu
    refine ⟨r, hr, fun hpage => ?_⟩
    rw [hservice] at hpage
    cases hpage
  | tell a m hm =>
    refine h.send hk fun u hu => ?_
    rw [hm] at hu
    cases hu
  | callback => exact hsame _ (Nat.le_refl _) rfl rfl

theorem quiet (h : Accords gen P x s) (hk : Known gen s) (hquiet : Quiet gen env s s') :
    Accords gen P x s' := by
  cases hquiet with
  | calm hcalm => exact h.calm hk hcalm
  | create info want => exact h.create info want
  | place t id => exact h.modify fun _ _ _ _ => ⟨rfl, rfl, rfl⟩
  | reach t r hr hservice st =>
    refine h.modify fun r' hr' hpage _ => ?_
    rw [hr] at hr'
    cases hr'
    have hpage₀ : r.isService = false := hpage
    rw [hservice] at hpage₀
    cases hpage₀
  | accept t => exact h.modify fun _ _ _ _ => ⟨rfl, rfl, rfl⟩
  | delete _ t hd =>
    obtain ⟨r, _, ⟨_, rfl⟩ | ⟨a, app, _, _, rfl⟩⟩ := delete_cases hd
    all_goals
      refine h.same (Nat.le_refl _) (fun b m hm => .inl hm) fun u r' hr' _ _ => ?_
      exact ⟨r', (Store.erase_cases hr').2, .refl r'⟩
  | shelve hl =>
    refine h.same (Nat.le_of_eq hl.generated.symm) (fun b m hm => .inl (hl.sent ▸ hm)) fun u r' hr' _ _ => ?_
    exact ⟨r', hl.records ▸ hr', .refl r'⟩

/-- What only the pages of `x` may do besides: reach a state and leave their process. -/
theorem move (h : Accords gen P x s) (hk : Known gen s) (hmove : Move gen env (fun t _ => x t) s s') :
    Accords gen P x s' := by
  cases hmove with
  | plain hplain =>
    cases hplain with
    | quiet hquiet => exact h.quiet hk hquiet
    | reach t _ hx => exact h.modify fun _ _ _ hnot => absurd hx hnot
    | next t o => exact h.modify fun _ _ _ _ => ⟨rfl, rfl, rfl⟩
    | prev t o => exact h.modify fun _ _ _ _ => ⟨rfl, rfl, rfl⟩
    | ask t r a m hr ha hm =>
      refine h.send hk fun u hu => ?_
      rw [hm] at hu
      cases hu
      exact ⟨r, hr, fun _ => ha⟩
    | accept t => exact h.modify fun _ _ _ _ => ⟨rfl, rfl, rfl⟩
    | exit t r a s₁ _ _ _ hx hremove =>
      obtain ⟨_, l, _, _, _, _, rfl⟩ := removeAppRecord_cases hremove
      have hdropped : Accords gen P x { s with appRecords := l } :=
        h.same (Nat.le_refl _) (fun b m hm => .inl hm) fun u r' hr' _ _ => ⟨r', hr', .refl r'⟩
      exact hdropped.modify fun _ _ _ hnot => absurd hx hnot
  | await t r app hr ha _ => exact h.await hr ha
  | client a c =>
    exact h.same (Nat.le_refl _) (fun b m hm => .inl hm) fun u r' hr' _ _ => ⟨r', hr', .refl r'⟩
  | launched a =>
    exact h.same (Nat.le_refl _) (fun b m hm => .inl hm) fun u r' hr' _ _ => ⟨r', hr', .refl r'⟩
  | drop l hl =>
    exact h.same (Nat.le_refl _) (fun b m hm => .inl hm) fun u r' hr' _ _ => ⟨r', hr', .refl r'⟩

theorem moves (h : Accords gen P x s) (hk : Known gen s) (hmoves : Moves gen env (fun t _ => x t) s s') :
    Accords gen P x s' := by
  have hboth : Known gen s' ∧ Accords gen P x s' := by
    refine keeps (p := fun s => Known gen s ∧ Accords gen P x s) ?_ hmoves ⟨hk, h⟩
    intro s₁ s₂ hstep ⟨hk₁, h₁⟩
    exact ⟨hk₁.steps hstep.steps, h₁.move hk₁ hstep⟩
  exact hboth.2

end Accords

/-! ## Reports -/

/-- A process has reported that an ability is in a state, and AMS has taken the report. -/
structure Reported (P P' : Peers) (a : Nat) (t : Token) (st : State) : Prop where
  reporter : P.heard a t
  heard : ∀ b u, P'.heard b u → P.heard b u
  others : ∀ b u c, ¬ (b = a ∧ u = t) → P.agrees b u c → P'.agrees b u c
  own : ∀ c, P.agrees a t c → P'.agrees a t st

namespace Accords
variable {st : State}

theorem heard_of_reported (h : Reported P P' a t st) {b : Nat} {u : Token} (hb : Heard P' s b u) :
    Heard P s b u := by
  obtain hb | hm := hb
  · exact .inl (h.heard b u hb)
  · exact .inr hm

/-- Messages may be taken, and processes may report what they were asked for. -/
theorem peers (h : Accords gen P x s) {sent : List (Nat × Transaction)} (hsent : ∀ c ∈ sent, c ∈ s.sent)
    (hheard : ∀ b u, P'.heard b u → Heard P s b u)
    (hagrees : ∀ b u c, P.agrees b u c → P'.agrees b u c) : Accords gen P' x { s with sent } := by
  have hold : ∀ b u, Heard P' { s with sent } b u → Heard P s b u := by
    intro b u hb
    obtain hb | ⟨m, hm, hu⟩ := hb
    · exact hheard b u hb
    · exact .inr ⟨m, hsent _ hm, hu⟩
  exact ⟨fun b u hb => h.tokens b u (hold b u hb), fun b u r hb => h.heard b u r (hold b u hb),
    h.unbound, fun u r b hr hpage hx ha => hagrees b u _ (h.bound u r b hr hpage hx ha)⟩

/-- The report does not concern the other pages. -/
theorem but (h : Accords gen P x s) (hreported : Reported P P' a t st) :
    Accords gen P' (fun u => x u ∨ u = t) s := by
  refine ⟨fun b u hb => h.tokens b u (heard_of_reported hreported hb),
    fun b u r hb hr hpage hu => ?_, fun u r hr hpage hu => ?_, fun u r b hr hpage hu ha => ?_⟩
  all_goals rw [not_or] at hu
  · exact h.heard b u r (heard_of_reported hreported hb) hr hpage hu.1
  · exact h.unbound u r hr hpage hu.1
  · exact hreported.others b u _ (fun hsame => hu.2 hsame.2) (h.bound u r b hr hpage hu.1 ha)

/-- A page that is gone need not be left out. -/
theorem gone (h : Accords gen P (fun u => x u ∨ u = t) s) (hgone : (s.records t).isSome → x t) :
    Accords gen P x s := by
  have hin : ∀ {u r}, s.records u = some r → ¬ x u → ¬ (x u ∨ u = t) := by
    rintro u r hr hx (hu | rfl)
    · exact hx hu
    · exact hx (hgone (by rw [hr]; rfl))
  exact ⟨h.tokens, fun b u r hb hr hpage hx => h.heard b u r hb hr hpage (hin hr hx),
    fun u r hr hpage hx => h.unbound u r hr hpage (hin hr hx),
    fun u r b hr hpage hx => h.bound u r b hr hpage (hin hr hx)⟩

/-- The page is set to the state that its process reported. -/
theorem reach (h : Accords gen P x s) (hreported : Reported P P' a t st) :
    Accords gen P' x (s.modify t (·.setCurrentState st)) := by
  have hothers : Accords gen P' (fun u => x u ∨ u = t) (s.modify t (·.setCurrentState st)) :=
    (h.but hreported).modify fun _ _ _ hne => absurd (.inr rfl) hne
  have hprocess : ∀ r, s.records t = some r → r.isService = false → ¬ x t → r.appRecord = some a :=
    fun r hr hpage => h.heard a t r (.inl hreported.reporter) hr hpage
  refine ⟨hothers.tokens, fun b u r' hb hr' hpage hx => ?_, fun u r' hr' hpage hx ha => ?_,
    fun u r' b hr' hpage hx ha => ?_⟩
  all_goals obtain ⟨r, hr, ⟨rfl, rfl⟩ | ⟨hne, rfl⟩⟩ := Store.modify_cases hr'
  · exact h.heard b u r (heard_of_reported hreported hb) hr hpage hx
  · exact hothers.heard b u r' hb hr' hpage (not_or.mpr ⟨hx, hne⟩)
  · have ha' : r.appRecord = none := ha
    rw [hprocess r hr hpage hx] at ha'
    cases ha'
  · exact hothers.unbound u r' hr' hpage (not_or.mpr ⟨hx, hne⟩) ha
  · have ha' : r.appRecord = some b := ha
    rw [hprocess r hr hpage hx] at ha'
    cases ha'
    exact hreported.own _ (h.bound u r a hr hpage hx (hprocess r hr hpage hx))
  · exact hothers.bound u r' b hr' hpage (not_or.mpr ⟨hx, hne⟩) ha

end Accords

/-- An ability that stopped is gone, unless it is a service that had stopped before. -/
theorem stopTask_gone (hs : Sound gen s) (hl : s.Listed t) (h : s.stopTask env t = .ok (status, s')) :
    s'.records t = none ∨ s' = s.modify t (·.setCurrentState .initial) := by
  cases stopTask_cases h with
  | unknown hnot => exact absurd hl hnot
  | stopped => exact .inr rfl
  | @service r status₁ s₁ s₂ _ _ hr hservice _ h₁ h₂ h₃ =>
    have hstill : Still gen env s s₂ :=
      (Still.reach .initial).trans ((Still.calm (stopAbilityDone_calm h₁)).trans h₂.still)
    have hmem : t ∈ s₂.serviceRecords := by
      rw [hstill.kept.services]
      exact hs.shape.listed_service hl hr hservice
    obtain ⟨_, h₃⟩ | ⟨hnot, _⟩ := removeServiceRecord_cases h₃
    · exact .inl ((delete_gone h₃).gone t (List.mem_singleton_self t))
    · exact absurd hmem hnot
  | @page r bottom s₁ _ _ hr hpage _ h₁ h₂ =>
    have hstill : Still gen env s s₁ := (Still.reach .initial).trans h₁.still
    have hshape := hs.shape.of_kept hstill.kept
    obtain ⟨st, m, hm, ht⟩ := hs.shape.listed_page hl hr hpage
    have hall : m ∈ s₁.allMissions := by
      rw [hstill.kept.allMissions]
      exact mem_all_of_stack hm
    obtain ⟨r₁, hr₁, hid, -⟩ := (hshape.missions m hall).placed t ht
    obtain ⟨r₂, hr₂, hremoved⟩ := removePageAbility_cases hshape h₂
    rw [hr₁] at hr₂
    cases hr₂
    obtain ⟨hnone, _⟩ | ⟨m', hm', hid', below, above, hsplit, hgone⟩ := hremoved
    · rw [hid] at hnone
      cases hnone
    · have hsame : m' = m := Keyed.eq_of_key_eq hshape.ids hm' hall (Option.some.inj (hid'.symm.trans hid))
      subst hsame
      have habove : t ∈ above := by
        have hparts := splitAt_append t m'.pageAbilityRecords
        rw [hsplit] at hparts
        rw [splitAt_eq, Prod.mk.injEq] at hsplit
        rw [← hparts, List.mem_append] at ht
        refine ht.resolve_left fun hbelow => ?_
        rw [← hsplit.1] at hbelow
        simpa using List.mem_takeWhile_imp hbelow
      obtain ⟨_, hgone⟩ | ⟨_, s₂, _, hgone⟩ := hgone
      · exact .inl (hgone.gone t habove)
      · exact .inl (hgone.gone t habove)

namespace Accords
variable {st : State}

/-- AMS sets the state of the page whose report it takes, if it finds it, and no other. -/
theorem workerAbilityTransaction (h : Accords gen P x s) (hs : Sound gen s)
    (hreported : Reported P P' a t st) (hst : st ≠ .uninitialized)
    (hoff : (s.records t).isSome → ¬ s.Listed t → x t)
    (hw : s.workerAbilityTransaction gen env ⟨t, st⟩ = .ok (status, s')) : Accords gen P' x s' := by
  have hreached := h.reach hreported
  have hk : Known gen (s.modify t (·.setCurrentState st)) := hs.known.modify _
  have hunknown : ¬ s.Listed t → Accords gen P' x s := fun hnot =>
    (h.but hreported).gone fun hsome => hoff hsome hnot
  unfold AbilityMgr.workerAbilityTransaction at hw
  cases st with
  | uninitialized => exact absurd rfl hst
  | background =>
    obtain ⟨hnot, rfl⟩ | ⟨_, _, rfl⟩ := backgroundTask_cases hw
    · exact hunknown hnot
    · exact hreached
  | active =>
    obtain ⟨hnot, rfl⟩ | ⟨_, hplains⟩ := activateTask_reaches hw
    · exact hunknown hnot
    · exact hreached.moves hk (Plains.moves hplains)
  | inactive =>
    obtain ⟨hnot, rfl⟩ | ⟨_, hyields⟩ := inactivateTask_yields hs.known hw
    · exact hunknown hnot
    · exact hreached.moves hk hyields.moves
  | initial =>
    by_cases hl : s.Listed t
    · obtain hnone | rfl := stopTask_gone hs hl hw
      · have hplains : Plains gen env (fun u _ => x u ∨ u = t) s s' := stopTask_plains (.inr rfl) hw
        refine ((h.but hreported).moves hs.known hplains.moves).gone fun hsome => ?_
        rw [hnone] at hsome
        cases hsome
      · exact hreached
    · cases stopTask_cases hw with
      | unknown => exact hunknown hl
      | stopped hl' => exact absurd hl' hl
      | service hl' => exact absurd hl' hl
      | page hl' => exact absurd hl' hl

theorem transactionMsg (h : Accords gen P x s) (hs : Sound gen s)
    (hreported : Reported P P' a t st) (hst : st ≠ .uninitialized)
    (hoff : (s.records t).isSome → ¬ s.Listed t → x t) (hm : s.transactionMsg gen env ⟨t, st⟩ = .ok s') :
    Accords gen P' x s' := by
  obtain ⟨status, s₁, h₁, hthen⟩ := transactionMsg_cases hm
  have hs₁ : Sound gen s₁ := hs.goes (workerAbilityTransaction_goes hs h₁)
  have hmoves : Moves gen env (fun t _ => x t) s₁ s' :=
    ((rule_moves s₁).thenLauncher .refl hs₁ (fun _ => trivial) hthen).1
  exact (h.workerAbilityTransaction hs hreported hst hoff h₁).moves hs₁.known hmoves

end Accords
end AbilityMgr

/-! ## In the processes and on the way -/

/-- The state of an ability that a reply reports. -/
def Reply.reached (t : Token) : Reply → Option State
  | .lifecycleDone ⟨token, st⟩ => if token = t then some st else none
  | _ => none

/-- The states of an ability that a process has reported and AMS has not handled. -/
def reports (a : Nat) (t : Token) (l : List (Nat × Reply)) : List State :=
  l.filterMap fun x => if x.1 = a then x.2.reached t else none

/-- The state that AMS has fits the ability in its process; one that the process does not have was not
launched, could not be loaded or has been stopped. -/
def Fits (ability : Option State) (st : State) : Prop :=
  match ability with
  | some st' => st = st'
  | none => st = .uninitialized ∨ st = .initial

/-- The ability that a process has after it has reported a state. -/
def State.kept (st : State) : Option State := if st = .initial then none else some st

theorem State.kept_fits (st : State) : Fits st.kept st := by
  unfold State.kept
  split
  · exact .inr ‹_›
  · rfl

theorem reports_append (a : Nat) (t : Token) (l l' : List (Nat × Reply)) :
    reports a t (l ++ l') = reports a t l ++ reports a t l' := List.filterMap_append

theorem reports_other {a b : Nat} (h : a ≠ b) (t : Token) (rs : List Reply) :
    reports b t (rs.map fun r => (a, r)) = [] := by
  refine List.filterMap_eq_nil_iff.mpr fun x hx => ?_
  obtain ⟨r, _, rfl⟩ := List.mem_map.mp hx
  exact if_neg h

theorem reports_own (a : Nat) (t : Token) (rs : List Reply) :
    reports a t (rs.map fun r => (a, r)) = rs.filterMap (·.reached t) := by
  unfold reports
  rw [List.filterMap_map]
  refine congrArg (rs.filterMap ·) (funext fun r => ?_)
  exact if_pos rfl

theorem takeFirst_perm {α : Type} {a : Nat} {x : α} {l l' : List (Nat × α)}
    (h : takeFirst a l = some (x, l')) : l.Perm ((a, x) :: l') := by
  induction l generalizing l' with
  | nil => cases h
  | cons c l ih =>
    obtain ⟨b, y⟩ := c
    simp only [takeFirst] at h
    split at h
    · next hb =>
      cases h
      rw [hb]
    · obtain ⟨⟨x', l₁⟩, h₁, h⟩ := Option.map_eq_some_iff.mp h
      cases h
      exact ((ih h₁).cons (b, y)).trans (.swap _ _ _)

/-- A process reports in order: what is taken first was reported first. -/
theorem reports_takeFirst {a : Nat} {r : Reply} {l l' : List (Nat × Reply)}
    (h : takeFirst a l = some (r, l')) (b : Nat) (t : Token) :
    reports b t l = reports b t [(a, r)] ++ reports b t l' := by
  induction l generalizing l' with
  | nil => cases h
  | cons c l ih =>
    obtain ⟨a', y⟩ := c
    have hcons (q : List (Nat × Reply)) :
        reports b t ((a', y) :: q) = reports b t [(a', y)] ++ reports b t q := reports_append b t [(a', y)] q
    simp only [takeFirst] at h
    split at h
    · next ha =>
      cases h
      rw [hcons, ha]
    · next ha =>
      obtain ⟨⟨r', l₁⟩, h₁, h⟩ := Option.map_eq_some_iff.mp h
      rw [Prod.mk.injEq] at h
      obtain ⟨rfl, rfl⟩ := h
      rw [hcons l, hcons l₁, ih h₁]
      -- `b` is not the process of both
      by_cases hb : a' = b
      · have hother : reports b t [(a, r')] = [] := reports_other (fun hab => ha (hb.trans hab.symm)) t [r']
        rw [hother, List.nil_append, List.nil_append]
      · have hother : reports b t [(a', y)] = [] := reports_other hb t [y]
        rw [hother, List.nil_append, List.nil_append]

namespace AbilityThread
variable {th th' : AbilityThread} {env : Env} {want : Want} {state : TransactionState} {reply : Reply}

theorem handleLifecycleTransaction_ne {st target st' : State} (hst : st ≠ .uninitialized)
    (h : handleLifecycleTransaction st target = some st') : st' ≠ .uninitialized := by
  cases st <;> cases target <;>
    simp_all [handleLifecycleTransaction, Ability.onStart, Ability.onInactive, Ability.onActive,
      Ability.onBackground, Ability.onStop] <;> (subst h; decide)

/-- The process reports the state that the ability is left in. -/
theorem performTransactAbilityState_spec (hth : ∀ t, th.abilities t ≠ some .uninitialized)
    (h : th.performTransactAbilityState env want state = some (th', reply)) :
    ∃ st, reply = .lifecycleDone ⟨state.token, st⟩ ∧ st ≠ .uninitialized ∧
      th'.abilities state.token = st.kept ∧ ∀ t, t ≠ state.token → th'.abilities t = th.abilities t := by
  -- an ability that is there or was made, moved to `st`
  have hsettled : ∀ st, st ≠ .uninitialized →
      ({ th with abilities := if st = .initial then th.abilities.erase state.token
        else th.abilities.insert state.token st }, Reply.lifecycleDone ⟨state.token, st⟩) = (th', reply) →
      ∃ st, reply = .lifecycleDone ⟨state.token, st⟩ ∧ st ≠ .uninitialized ∧
        th'.abilities state.token = st.kept ∧ ∀ t, t ≠ state.token → th'.abilities t = th.abilities t := by
    intro st hst h
    cases h
    refine ⟨st, rfl, hst, ?_, fun t ht => ?_⟩
    · unfold State.kept
      dsimp only
      split
      · exact Store.erase_same th.abilities
      · exact Store.insert_same th.abilities _
    · dsimp only
      split
      · exact Store.erase_ne th.abilities ht
      · exact Store.insert_ne th.abilities _ ht
  unfold AbilityThread.performTransactAbilityState at h
  dsimp only at h
  split at h
  · next hstart =>
    cases h
    refine ⟨.initial, rfl, by decide, ?_, fun _ _ => rfl⟩
    split at hstart
    · cases hstart
    · assumption
  · next st hstart =>
    have hst : st ≠ .uninitialized := by
      intro he
      subst he
      split at hstart
      · next hknown => exact hth _ (hstart ▸ hknown)
      · split at hstart
        · cases hstart
        · obtain ⟨_, hstart⟩ | ⟨_, hstart⟩ := ite_eq_iff.mp hstart <;> cases hstart
    split at h
    · obtain ⟨st', hst', h⟩ := Option.bind_eq_some_iff.mp h
      exact hsettled st' (handleLifecycleTransaction_ne hst hst') (Option.some.inj h)
    · exact hsettled st hst (Option.some.inj h)

/-- A message moves only the ability it is about, and then the state it is left in is reported. -/
theorem perform_spec (hth : ∀ t, th.abilities t ≠ some .uninitialized) (env : Env) (sid : SvcIdentity)
    (m : Transaction) (t : Token) :
    ((th.perform env sid m).1.abilities t = th.abilities t ∧
        (th.perform env sid m).2.filterMap (·.reached t) = []) ∨
      (m.token = some t ∧ ∃ st, st ≠ .uninitialized ∧
        (th.perform env sid m).2.filterMap (·.reached t) = [st] ∧
        (th.perform env sid m).1.abilities t = st.kept) := by
  cases m with
  | appInit info =>
    refine .inl ⟨?_, rfl⟩
    show (th.performAppInit info).abilities t = _
    unfold performAppInit
    split
    · rfl
    · split <;> rfl
  | appExit => exact .inl ⟨rfl, rfl⟩
  | lifecycle state want type =>
    simp only [perform]
    cases hp : th.performTransactAbilityState env want state with
    | none => exact .inl ⟨rfl, rfl⟩
    | some y =>
      obtain ⟨th', reply⟩ := y
      obtain ⟨st, rfl, hst, hkept, hothers⟩ := performTransactAbilityState_spec hth hp
      by_cases ht : state.token = t
      · subst ht
        exact .inr ⟨rfl, st, hst, by simp [Reply.reached], hkept⟩
      · refine .inl ⟨hothers t (Ne.symm ht), ?_⟩
        simp [Reply.reached, ht]
  | connect want token =>
    simp only [perform]
    split <;> exact .inl ⟨rfl, rfl⟩
  | disconnect want token =>
    simp only [perform]
    split <;> exact .inl ⟨rfl, rfl⟩

end AbilityThread

/-! ## Runs -/

namespace System
variable {gen : TokenGenerate} {env : Env} {s s' : System} {e : Event}

def peers (s : System) : Peers where
  heard b t := ((s.threads b).abilities t).isSome ∨ reports b t s.replies ≠ []
  agrees b t st := Fits ((s.threads b).abilities t) ((reports b t s.replies).getLast?.getD st)
  unheard b t h := by
    rw [not_or, not_not, Bool.not_eq_true, Option.isSome_eq_false_iff, Option.isNone_iff_eq_none] at h
    rw [h.1, h.2]
    exact .inl rfl

/-- What the invariant says of a state: the processes keep and report no ability that was not brought up,
and unless the program has gone wrong AMS accords with them on what it lists. -/
structure Agreed (gen : TokenGenerate) (s : System) : Prop where
  sound : s.ams.Sound gen
  states : ∀ b t, (s.threads b).abilities t ≠ some .uninitialized
  reported : ∀ b t, .uninitialized ∉ reports b t s.replies
  accords : s.fault = none → s.ams.Accords gen s.peers (s.ams.Off gen)

theorem Agreed.init : Agreed gen {} := by
  refine ⟨⟨shape_init, known_init⟩, fun b t h => (by cases h), fun b t h => (by cases h), fun _ => ?_⟩
  refine ⟨fun b t hb => ?_, fun b t r _ hr => (by cases hr), fun t r hr => (by cases hr),
    fun t r b hr => (by cases hr)⟩
  obtain (h | h) | ⟨m, hm, _⟩ := hb
  · cases h
  · exact absurd rfl h
  · cases hm

/-- A report is taken from its process. -/
theorem reported_of_takeFirst {a : Nat} {t : Token} {st : State} {replies : List (Nat × Reply)}
    (ams : AbilityMgr) (h : takeFirst a s.replies = some (.lifecycleDone ⟨t, st⟩, replies)) :
    AbilityMgr.Reported s.peers (peers { s with replies, ams }) a t st := by
  have hsplit := reports_takeFirst h
  have hown : reports a t [(a, .lifecycleDone ⟨t, st⟩)] = [st] := by
    simp [reports, Reply.reached]
  refine ⟨.inr ?_, fun b u hb => ?_, fun b u c hne hagrees => ?_, fun c hagrees => ?_⟩
  · rw [hsplit, hown]
    exact List.cons_ne_nil _ _
  · refine hb.imp id fun hreports hnone => hreports ?_
    rw [hsplit] at hnone
    exact (List.append_eq_nil_iff.mp hnone).2
  · have hnone : reports b u [(a, .lifecycleDone ⟨t, st⟩)] = [] := by
      by_cases hb : a = b
      · have hu : t ≠ u := fun hu => hne ⟨hb.symm, hu.symm⟩
        simp [reports, Reply.reached, hu]
      · exact reports_other hb u [_]
    have hsame : Fits ((s.threads b).abilities u) ((reports b u s.replies).getLast?.getD c) := hagrees
    rw [hsplit, hnone, List.nil_append] at hsame
    exact hsame
  · have hlast : Fits ((s.threads a).abilities t) ((reports a t s.replies).getLast?.getD c) := hagrees
    rw [hsplit, hown, List.singleton_append, List.getLast?_cons, Option.getD_some] at hlast
    exact hlast

/-- A process that performs a message moves only the ability it is about, and reports it. -/
theorem perform_reports (hstates : ∀ b t, (s.threads b).abilities t ≠ some .uninitialized) (env : Env)
    (a : Nat) (sid : SvcIdentity) (m : Transaction) (b : Nat) (t : Token) :
    ((if b = a then ((s.threads a).perform env sid m).1 else s.threads b).abilities t =
        (s.threads b).abilities t ∧
      reports b t (s.replies ++ ((s.threads a).perform env sid m).2.map fun r => (a, r)) =
        reports b t s.replies) ∨
      (b = a ∧ m.token = some t ∧ ∃ st, st ≠ .uninitialized ∧
        (if b = a then ((s.threads a).perform env sid m).1 else s.threads b).abilities t = st.kept ∧
        reports b t (s.replies ++ ((s.threads a).perform env sid m).2.map fun r => (a, r)) =
          reports b t s.replies ++ [st]) := by
  rw [reports_append]
  by_cases hb : b = a
  · subst hb
    rw [if_pos rfl, reports_own]
    obtain ⟨hsame, hnone⟩ | ⟨htoken, st, hst, hone, hkept⟩ :=
      AbilityThread.perform_spec (hstates b) env sid m t
    · rw [hnone, List.append_nil]
      exact .inl ⟨hsame, rfl⟩
    · rw [hone]
      exact .inr ⟨rfl, htoken, st, hst, hkept, rfl⟩
  · rw [if_neg hb, reports_other (fun h => hb h.symm), List.append_nil]
    exact .inl ⟨rfl, rfl⟩

theorem Agreed.perform (h : Agreed gen s) (a : Nat) (sid : SvcIdentity) {m : Transaction}
    {sent : List (Nat × Transaction)} (htake : takeFirst a s.ams.sent = some (m, sent))
    (hsound : ({ s.ams with sent } : AbilityMgr).Sound gen) :
    Agreed gen { s with
      ams := { s.ams with sent }
      threads := fun b => if b = a then ((s.threads a).perform env sid m).1 else s.threads b
      replies := s.replies ++ ((s.threads a).perform env sid m).2.map fun r => (a, r) } := by
  have hreports := perform_reports h.states env a sid m
  have hperm := takeFirst_perm htake
  refine ⟨hsound, fun b t hb => ?_, fun b t hb => ?_, fun hfault => ?_⟩
  · obtain ⟨hsame, _⟩ | ⟨_, _, st, hst, hkept, _⟩ := hreports b t
    · exact h.states b t (hsame ▸ hb)
    · have hstored : st.kept = some .uninitialized := hkept ▸ hb
      unfold State.kept at hstored
      split at hstored
      · cases hstored
      · exact hst (Option.some.inj hstored)
  · obtain ⟨_, hsame⟩ | ⟨_, _, st, hst, _, hone⟩ := hreports b t
    · exact h.reported b t (hsame ▸ hb)
    · have hmem : State.uninitialized ∈ reports b t s.replies ++ [st] := hone ▸ hb
      rw [List.mem_append, List.mem_singleton] at hmem
      exact hmem.elim (h.reported b t) fun he => hst he.symm
  · refine (h.accords hfault).peers (fun c hc => hperm.mem_iff.mpr (List.mem_cons_of_mem _ hc))
      (fun b t hb => ?_) fun b t st hagrees => ?_
    · obtain ⟨hsame, hreport⟩ | ⟨rfl, htoken, _⟩ := hreports b t
      · refine .inl (hb.imp (fun hsome => ?_) fun hne => ?_)
        · exact hsame ▸ hsome
        · exact hreport ▸ hne
      · exact .inr ⟨m, hperm.mem_iff.mpr List.mem_cons_self, htoken⟩
    · obtain ⟨hsame, hreport⟩ | ⟨_, _, st', _, hkept, hone⟩ := hreports b t
      · have hold : Fits ((s.threads b).abilities t) ((reports b t s.replies).getLast?.getD st) := hagrees
        rw [← hsame, ← hreport] at hold
        exact hold
      · have hlast : Fits st'.kept ((reports b t s.replies ++ [st']).getLast?.getD st) := by
          rw [List.getLast?_concat, Option.getD_some]
          exact st'.kept_fits
        rw [← hkept, ← hone] at hlast
        exact hlast

theorem Agreed.next (h : Agreed gen s) (hnext : System.next gen s (env, e) = some s') : Agreed gen s' := by
  obtain ⟨hnone, hhappens⟩ := next_cases hnext
  have hsound : s'.ams.Sound gen := hhappens.sound h.sound
  have haccords := h.accords hnone
  have hless : ∀ {a r replies}, takeFirst a s.replies = some (r, replies) →
      ∀ b t, .uninitialized ∉ reports b t replies := by
    intro a r replies htake b t hmem
    refine h.reported b t ?_
    rw [reports_takeFirst htake]
    exact List.mem_append_right _ hmem
  cases hhappens with
  | @request e ams hm =>
    have hmoves : AbilityMgr.Moves gen env (fun t _ => s.ams.Off gen t) s.ams ams :=
      AbilityMgr.requestMsg_moves h.sound hm
    have harrives : AbilityMgr.Arrives gen s.ams ams := AbilityMgr.requestMsg_arrives h.sound hm
    exact ⟨hsound, h.states, h.reported, fun _ =>
      (haccords.moves h.sound.known hmoves).mono fun _ => harrives.off⟩
  | requestFault => exact ⟨hsound, h.states, h.reported, fun hf => (by cases hf)⟩
  | @reply a r replies ams htake hm =>
    have harrives : AbilityMgr.Arrives gen s.ams ams := AbilityMgr.replyMsg_arrives h.sound hm
    refine ⟨hsound, h.states, hless htake, fun _ => AbilityMgr.Accords.mono ?_ fun _ => harrives.off⟩
    have hother (hr : ∀ b t, reports b t [(a, r)] = [])
        (hmoves : AbilityMgr.Moves gen env (fun t _ => s.ams.Off gen t) s.ams ams) :
        ams.Accords gen (peers { s with replies, ams }) (s.ams.Off gen) := by
      have hsame : ∀ b t, reports b t replies = reports b t s.replies := by
        intro b t
        rw [reports_takeFirst htake b t, hr, List.nil_append]
      refine (haccords.moves h.sound.known hmoves).peers (fun c hc => hc)
        (fun b t hb => .inl (hb.imp id fun hne => hsame b t ▸ hne)) fun b t st hagrees => ?_
      have hold : Fits ((s.threads b).abilities t) ((reports b t s.replies).getLast?.getD st) := hagrees
      rw [← hsame] at hold
      exact hold
    cases r with
    | lifecycleDone state =>
      obtain ⟨t, st⟩ := state
      have hst : st ≠ .uninitialized := by
        intro hst
        refine h.reported a t ?_
        rw [reports_takeFirst htake, hst]
        simp [reports, Reply.reached]
      exact haccords.transactionMsg h.sound (reported_of_takeFirst ams htake) hst
        (fun hsome hnot => ⟨h.sound.known.records t hsome, hnot⟩) hm
    | connectDone sid token =>
      refine hother (fun b t => by simp [reports, Reply.reached]) ?_
      exact AbilityMgr.replyMsg_moves h.sound (fun _ he => (by cases he)) hm
    | disconnectDone token =>
      refine hother (fun b t => by simp [reports, Reply.reached]) ?_
      exact AbilityMgr.replyMsg_moves h.sound (fun _ he => (by cases he)) hm
  | @replyFault a r replies f htake hm => exact ⟨hsound, h.states, hless htake, fun hf => (by cases hf)⟩
  | @perform a sid m sent _ htake => exact h.perform a sid htake hsound

/-- In every state reached without a fault, only the process of a page on the stacks has an ability for it,
and what the process reported last, or the state that AMS has where all it reported is handled, is the state
of that ability; a page that has no process was never brought up. -/
theorem agrees_of_reached {ok : System → Env × Event → Prop} (h : Reached (System.next gen) ok IsInit s)
    (hfault : s.fault = none) {t : Token} (ht : s.ams.OnStack t) :
    ∃ r, s.ams.records t = some r ∧
      (∀ b, ((s.threads b).abilities t).isSome → r.appRecord = some b) ∧
      (r.appRecord = none → r.currentState = .uninitialized) ∧
      ∀ a, r.appRecord = some a →
        Fits ((s.threads a).abilities t) ((reports a t s.replies).getLast?.getD r.currentState) := by
  have hinit : ∀ s, IsInit s → Agreed gen s := by
    intro s hs
    rw [hs]
    exact .init
  have hagreed : Agreed gen s := Reached.invariant hinit (fun _ _ _ hs _ hnext => hs.next hnext) h
  obtain ⟨st, m, hm, hmem⟩ := ht
  obtain ⟨r, hr, -, hpage, -⟩ := (hagreed.sound.shape.missions m (AbilityMgr.mem_all_of_stack hm)).placed t hmem
  have haccords := hagreed.accords hfault
  have hin : ¬ s.ams.Off gen t := fun hoff => hoff.2 (.inl ⟨st, m, hm, hmem⟩)
  exact ⟨r, hr, fun b hb => haccords.heard b t r (.inl (.inl hb)) hr hpage hin,
    haccords.unbound t r hr hpage hin, fun a => haccords.bound t r a hr hpage hin⟩

/-- Page a is up, and is asked to terminate: what its process reports is on its way. -/
theorem agrees_terminating :
    ∃ s r, run (System.next counter) {}
        ([startA, .attachBundle ⟨1, 7, ⟨9, 9⟩⟩, .perform 1 ⟨0, 0⟩, .perform 1 ⟨0, 0⟩, .reply 1,
          .terminateAbility 0, .perform 1 ⟨0, 0⟩].map fun e => (pageEnv, e)) = some s ∧
      (s.threads 1).abilities 0 = some .inactive ∧ s.ams.records 0 = some r ∧ r.currentState = .active ∧
      (∀ b, ((s.threads b).abilities 0).isSome → r.appRecord = some b) ∧
      (r.appRecord = none → r.currentState = .uninitialized) ∧
      ∀ a, r.appRecord = some a →
        Fits ((s.threads a).abilities 0) ((reports a 0 s.replies).getLast?.getD r.currentState) := by
  have h : (run (System.next counter) {}
      ([startA, .attachBundle ⟨1, 7, ⟨9, 9⟩⟩, .perform 1 ⟨0, 0⟩, .perform 1 ⟨0, 0⟩, .reply 1,
        .terminateAbility 0, .perform 1 ⟨0, 0⟩].map fun e => (pageEnv, e))).map
      (fun s => (s.ams.defaultMissionStacks.any (·.pageAbilityRecords.contains 0),
        s.fault.isNone, (s.threads 1).abilities 0, (s.ams.records 0).map (·.currentState))) =
      some (true, true, some .inactive, some .active) := by decide
  obtain ⟨s, hrun, h⟩ := Option.map_eq_some_iff.mp h
  simp only [Prod.mk.injEq] at h
  obtain ⟨hlisted, hfault, hability, hstate⟩ := h
  obtain ⟨m, hm, hpage⟩ := List.any_eq_true.mp hlisted
  have hreached : Reached (System.next counter) (fun _ _ => True) IsInit s := Reached.of_run (.init rfl) _ hrun
  obtain ⟨r, hr, hagrees⟩ := agrees_of_reached hreached (Option.isNone_iff_eq_none.mp hfault)
    (t := 0) ⟨.default, m, hm, List.contains_iff_mem.mp hpage⟩
  rw [hr, Option.map_some, Option.some.injEq] at hstate
  exact ⟨s, r, hrun, hability, hr, hstate, hagrees⟩

end System
end AbilityLite.Ams
