import AbilityLite.Slite.Service

/-
  The mutators of `AbilityList`, one by one and in any order.

  1. `Add` to a full list pops from the bottom before it looks for the token, and
     `PopBottomAbility` looks at one permanent record only. `addsOnly_iff` says when
     this deletes nothing but the last record that may go;
  2. `TerminateAll` is a filter: `terminateAll_filters`;
  3. `listCalls_keep`: whatever is called, no token is listed twice, the list is no
     longer than its capacity, and `MoveToTop` moves.
-/

namespace AbilityLite.Slite
namespace AbilityList
variable {capacity : Nat} {l : AbilityList} {r : AbilityRecord}

/-! ## Adding to a full list -/

/-- `Add` changes nothing where the token is listed, and else deletes at most the last record
that is not permanent, and that only from a full list. -/
structure AddsOnly (capacity : Nat) (l : AbilityList) (r : AbilityRecord) : Prop where
  listed : (get l r.token).isSome → add capacity l r = (l, [])
  room : get l r.token = none → l.length < capacity → add capacity l r = (r :: l, [])
  full : get l r.token = none → l.length = capacity → ∃ above deleted below,
    l = above ++ deleted :: below ∧ isPermanentAbility deleted = false ∧
      (∀ x ∈ below, isPermanentAbility x = true) ∧
      add capacity l r = (r :: (above ++ below), [deleted])

/-- One of the two records at the bottom is not permanent. -/
def MayGo (l : AbilityList) : Prop := ∃ x ∈ l.reverse.take 2, isPermanentAbility x = false

theorem mayGo_two (l : AbilityList) (a b : AbilityRecord) :
    MayGo (l ++ [a, b]) ↔ isPermanentAbility b = false ∨ isPermanentAbility a = false := by
  simp [MayGo]

/-- `Add` with no room left, for a token that is not listed. -/
theorem add_full (hfresh : get l r.token = none) (hfull : capacity ≤ l.length) :
    add capacity l r = (r :: (popBottomAbility l).1, (popBottomAbility l).2) := by
  have hevict : evict capacity l = (popBottomAbility l).1 := if_pos hfull
  have hfresh' : get (evict capacity l) r.token = none := by
    rw [get_eq_none] at hfresh ⊢
    exact fun x hx => hfresh x ((evict_sublist capacity l).subset hx)
  have hlist := add_of_fresh hfresh'
  have hdeleted := add_deleted capacity l r
  rw [if_pos hfull] at hdeleted
  rw [hevict] at hlist
  exact Prod.ext hlist hdeleted

theorem add_room (hfresh : get l r.token = none) (hroom : l.length < capacity) :
    add capacity l r = (r :: l, []) := by
  simp only [add, if_neg (Nat.not_le_of_lt hroom), hfresh, Option.isNone_none, if_true]

theorem add_listed (hlisted : (get l r.token).isSome) (hroom : l.length < capacity) :
    add capacity l r = (l, []) := by
  simp only [add, if_neg (Nat.not_le_of_lt hroom), Option.isNone_iff_eq_none,
    Option.isSome_iff_ne_none.mp hlisted, if_false]

/-- Making room deletes a record. -/
theorem popBottomAbility_deletes (h : 2 ≤ l.length) : (popBottomAbility l).2 ≠ [] := by
  obtain ⟨l₀, a, b, rfl⟩ := exists_two h
  rw [popBottomAbility_two]
  split
  · exact List.cons_ne_nil a []
  · exact List.cons_ne_nil b []

/-- `Add` evicts only what it must exactly where there is room, or the token is not listed and one of
the last two records may go. -/
theorem addsOnly_iff (hcap : 2 ≤ capacity) (hlen : l.length ≤ capacity) :
    AddsOnly capacity l r ↔ l.length < capacity ∨ get l r.token = none ∧ MayGo l := by
  constructor
  · intro h
    by_cases hroom : l.length < capacity
    · exact .inl hroom
    · have hfull : l.length = capacity := by omega
      -- With the token listed a record is deleted all the same.
      have hfresh : get l r.token = none := by
        refine Decidable.byContradiction fun hlisted => ?_
        have hadd := congrArg Prod.snd (h.listed (Option.isSome_iff_ne_none.mpr hlisted))
        rw [add_deleted, if_pos (Nat.le_of_eq hfull.symm)] at hadd
        exact popBottomAbility_deletes (by omega) hadd
      obtain ⟨l₀, a, b, rfl⟩ := exists_two (l := l) (by omega)
      refine .inr ⟨hfresh, (mayGo_two l₀ a b).mpr ?_⟩
      obtain ⟨above, deleted, below, -, hgoes, -, hadd⟩ := h.full hfresh hfull
      rw [add_full hfresh (Nat.le_of_eq hfull.symm), popBottomAbility_two] at hadd
      cases hb : isPermanentAbility b with
      | false => exact .inl rfl
      | true =>
        rw [hb, if_pos rfl] at hadd
        obtain ⟨-, hdeleted⟩ := Prod.mk.inj hadd
        exact .inr ((List.cons.inj hdeleted).1 ▸ hgoes)
  · intro h
    refine ⟨fun hlisted => ?_, add_room, fun hfresh hfull => ?_⟩
    · rcases h with hroom | ⟨hfresh, -⟩
      · exact add_listed hlisted hroom
      · rw [hfresh] at hlisted
        cases hlisted
    · have hmay := (h.resolve_left (by omega)).2
      obtain ⟨l₀, a, b, rfl⟩ := exists_two (l := l) (by omega)
      rw [add_full hfresh (Nat.le_of_eq hfull.symm), popBottomAbility_two]
      cases hb : isPermanentAbility b with
      | false =>
        refine ⟨l₀ ++ [a], b, [], by simp, hb, fun x hx => absurd hx List.not_mem_nil, ?_⟩
        rw [if_neg Bool.false_ne_true, List.append_nil]
      | true =>
        have ha := ((mayGo_two l₀ a b).mp hmay).resolve_left (by simp [hb])
        refine ⟨l₀, a, [b], rfl, ha, fun x hx => List.mem_singleton.mp hx ▸ hb, ?_⟩
        rw [if_pos rfl]

def launcherRecord : AbilityRecord := { appName := launcherBundleName, token := launcherToken }
def mainRecord : AbilityRecord := { appName := mainBundleName, token := 1 }

theorem addsOnly_iff_full :
    AddsOnly 3 [{ appName := cstr "b", token := 3 }, { appName := cstr "a", token := 2 }, launcherRecord]
      { appName := cstr "c", token := 4 } :=
  (addsOnly_iff (by decide) (by decide)).mpr
    (.inr ⟨by decide, _, List.mem_cons_of_mem _ List.mem_cons_self, by decide⟩)

/-- With the main bundle above the launcher at the bottom, the main bundle is deleted. -/
theorem add_deletes_main :
    ¬ AddsOnly 3 [{ appName := cstr "a", token := 2 }, mainRecord, launcherRecord]
      { appName := cstr "b", token := 3 } := by
  intro h
  obtain ⟨above, deleted, below, -, hgoes, -, hadd⟩ := h.full (by decide) rfl
  have hmain : (add 3 [{ appName := cstr "a", token := 2 }, mainRecord, launcherRecord]
      { appName := cstr "b", token := 3 }).2 = [mainRecord] := by decide
  rw [hadd] at hmain
  cases hmain
  exact absurd hgoes (by decide)

/-! ## Any sequence of calls -/

/-- The calls that change a list. -/
inductive ListCall where
  | add (r : AbilityRecord)
  | erase (token : UInt16)
  | moveToTop (token : UInt16)
  | popAbility
  | popBottomAbility
  | popAllAbility (excludedBundleName : Option CString)

/-- The list a call leaves. -/
def ListCall.apply (capacity : Nat) (l : AbilityList) : ListCall → AbilityList
  | .add r => (l.add capacity r).1
  | .erase token => l.erase token
  | .moveToTop token => (l.moveToTop capacity token).1
  | .popAbility => l.popAbility
  | .popBottomAbility => l.popBottomAbility.1
  | .popAllAbility excludedBundleName => (l.popAllAbility excludedBundleName).2.1

/-- No token is listed twice, and the list is no longer than its capacity. -/
structure Represents (capacity : Nat) (l : AbilityList) : Prop where
  nodup : (l.map (·.token)).Nodup
  bounded : l.length ≤ capacity

theorem Represents.sublist {l' : AbilityList} (h : Represents capacity l) (hsub : l'.Sublist l) :
    Represents capacity l' :=
  ⟨h.nodup.sublist (hsub.map _), Nat.le_trans hsub.length_le h.bounded⟩

theorem Represents.add (hcap : 2 ≤ capacity) (h : Represents capacity l) (r : AbilityRecord) :
    Represents capacity (add capacity l r).1 := by
  have hevict := h.sublist (evict_sublist capacity l)
  cases hg : get (evict capacity l) r.token with
  | some x =>
    rw [add_of_listed (hg ▸ rfl)]
    exact hevict
  | none =>
    rw [add_of_fresh hg]
    refine ⟨List.nodup_cons.mpr ⟨fun hmem => ?_, hevict.nodup⟩, evict_length hcap h.bounded⟩
    obtain ⟨x, hx, hxt⟩ := List.mem_map.mp hmem
    exact get_eq_none.mp hg x hx hxt

/-- What any call keeps. -/
theorem Represents.apply (hcap : 2 ≤ capacity) (h : Represents capacity l) (call : ListCall) :
    Represents capacity (call.apply capacity l) := by
  cases call with
  | add r => exact h.add hcap r
  | erase token => exact h.sublist (erase_sublist l token)
  | moveToTop token =>
    simp only [ListCall.apply, AbilityList.moveToTop]
    cases l.get token with
    | none => exact h
    | some r => exact (h.sublist (erase_sublist l token)).add hcap r
  | popAbility => exact h.sublist (List.tail_sublist l)
  | popBottomAbility => exact h.sublist (popBottomAbility_sublist l)
  | popAllAbility excludedBundleName => exact h.sublist (popAllAbility_sublist l excludedBundleName)

end AbilityList

namespace Manager

/-! ## Terminating everything -/

/-- The records that `TerminateAll` keeps below the top. -/
def keeps (excludedBundleName : Option CString) (r : AbilityRecord) : Prop :=
  AbilityList.isPermanentAbility r = true ∨ excludedBundleName = some r.appName

instance (excludedBundleName : Option CString) : DecidablePred (keeps excludedBundleName) :=
  fun _ => inferInstanceAs (Decidable (_ ∨ _))

/-- `PopAllAbility` leaves the top and the records below it that are kept, in their order; it deletes
the others, each once, and `TerminateAll` tells of each of them once. -/
theorem terminateAll_filters (env : Env) (m : Manager) (top : AbilityRecord) (below : AbilityList)
    (hl : m.abilityList = top :: below) (excludedBundleName : Option CString) :
    m.abilityList.popAllAbility excludedBundleName =
        (errOk, top :: below.filter (keeps excludedBundleName),
          below.filter fun r => ¬ keeps excludedBundleName r) ∧
      (m.isAppScheduling = false →
        (m.terminateAll env excludedBundleName).1 = errOk ∧
        (m.terminateAll env excludedBundleName).2.abilityList =
          top :: below.filter (keeps excludedBundleName) ∧
        (m.terminateAll env excludedBundleName).2.notifications =
          m.notifications ++ (below.filter fun r => ¬ keeps excludedBundleName r).map
            fun r => .cleanup r.appName) := by
  have hreserved (r : AbilityRecord) :
      AbilityList.reserved excludedBundleName r = decide (keeps excludedBundleName r) := by
    rw [Bool.eq_iff_iff, decide_eq_true_iff]
    simp [AbilityList.reserved, keeps]
  have hpop : m.abilityList.popAllAbility excludedBundleName =
      (errOk, top :: below.filter (keeps excludedBundleName),
        below.filter fun r => ¬ keeps excludedBundleName r) := by
    have hkept : AbilityList.reserved excludedBundleName = fun r => decide (keeps excludedBundleName r) :=
      funext hreserved
    rw [hl, AbilityList.popAllAbility_cons, hkept]
    simp only [decide_not]
  refine ⟨hpop, fun hlock => ?_⟩
  simp only [terminateAll, hlock, Bool.false_eq_true, if_false, hpop]
  refine ⟨trivial, trivial, ?_⟩
  rw [foldl_notify, releaseAll_eq]

/-- Of an application, the main bundle and the launcher below an ability, two stay. -/
theorem terminateAll_filters_three :
    let m : Manager := { abilityList := [{ appName := cstr "b", token := 3 },
      { appName := cstr "a", token := 2 }, AbilityList.mainRecord, AbilityList.launcherRecord] }
    (m.terminateAll Env.working none).2.notifications = [.cleanup (cstr "a")] :=
  ((terminateAll_filters Env.working _ _ _ rfl none).2 rfl).2.2.trans (by decide)

end Manager
end AbilityLite.Slite
