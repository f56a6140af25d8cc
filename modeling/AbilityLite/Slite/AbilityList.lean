import AbilityLite.Slite.Record

/-
  `AbilityList`: the manager's stack of ability records, front first. The list
  holds pointers to records the manager owns; the model holds the records. A
  function that deletes records returns them next to the list it leaves.

  `List::Front` and `List::Back` are null on an empty list, `PopFront` and
  `PopBack` do nothing there.
-/

namespace AbilityLite.Slite

abbrev AbilityList := List AbilityRecord

namespace AbilityList

/-- `AbilityList::Get(uint16_t)`: the first record with the token. -/
def get (l : AbilityList) (token : UInt16) : Option AbilityRecord :=
  l.find? fun r => r.token == token

/-- `AbilityList::Get(const char *)`: the first record with the name. -/
def getByName (l : AbilityList) (bundleName : CString) : Option AbilityRecord :=
  l.find? fun r => r.appName == bundleName

/-- `AbilityList::GetByTaskId`. -/
def getByTaskId (l : AbilityList) (taskId : Option Nat) : Option AbilityRecord :=
  l.find? fun r => r.taskId == taskId

/-- `AbilityList::GetTopAbility`. -/
def getTopAbility (l : AbilityList) : Option AbilityRecord := l.head?

/-- `AbilityList::IsPermanentAbility`. -/
def isPermanentAbility (r : AbilityRecord) : Bool :=
  r.token == launcherToken || r.appName == mainBundleName

/-- `AbilityList::Erase`: unlink the first record with the token. -/
def erase (l : AbilityList) (token : UInt16) : AbilityList :=
  l.eraseP fun r => r.token == token

/-- `AbilityList::PopAbility`. -/
def popAbility (l : AbilityList) : AbilityList := l.tail

/-- `AbilityList::PopBottomAbility`: delete the last record, or the one before it
when the last is permanent. -/
def popBottomAbility (l : AbilityList) : AbilityList × List AbilityRecord :=
  match l.getLast? with
  | none => (l.dropLast, [])
  | some lastRecord =>
    if isPermanentAbility lastRecord then
      (l.dropLast.dropLast ++ [lastRecord], l.dropLast.getLast?.toList)
    else (l.dropLast, [lastRecord])

/-- `AbilityList::Add`: make room when the list is full, then push the record to
the front unless its token is listed. -/
def add (capacity : Nat) (l : AbilityList) (r : AbilityRecord) :
    AbilityList × List AbilityRecord :=
  let (l, deleted) := if capacity ≤ l.length then popBottomAbility l else (l, [])
  if (get l r.token).isNone then (r :: l, deleted) else (l, deleted)

/-- What is left of the list after making room for one record. -/
def evict (capacity : Nat) (l : AbilityList) : AbilityList :=
  if capacity ≤ l.length then (popBottomAbility l).1 else l

/-- `AbilityList::MoveToTop`. -/
def moveToTop (capacity : Nat) (l : AbilityList) (token : UInt16) :
    AbilityList × List AbilityRecord :=
  match get l token with
  | none => (l, [])
  | some r => add capacity (erase l token) r

/-- `AbilityList::GetAbilityList`: the tokens of a mission, pushed to the front as
they are met. -/
def getAbilityList (l : AbilityList) (mission : UInt32) : List UInt16 :=
  l.foldl (fun result r => if r.mission == mission then r.token :: result else result) []

/-- The records `PopAllAbility` keeps besides the top. -/
def reserved (excludedBundleName : Option CString) (r : AbilityRecord) : Bool :=
  isPermanentAbility r || excludedBundleName == some r.appName

/-- `AbilityList::PopAllAbility`, its first loop: `kept` is the list of reserved
records, the last one met in front, and `deleted` the records deleted, in order. -/
def popAllAbilityLoop (excludedBundleName : Option CString) :
    AbilityList → AbilityList → List AbilityRecord → AbilityList × List AbilityRecord
  | [], kept, deleted => (kept, deleted)
  | r :: l, kept, deleted =>
    if reserved excludedBundleName r then
      popAllAbilityLoop excludedBundleName l (r :: kept) deleted
    else popAllAbilityLoop excludedBundleName l kept (deleted ++ [r])

/-- `AbilityList::PopAllAbility`: the second loop pushes the reserved records back
one by one. -/
def popAllAbility (l : AbilityList) (excludedBundleName : Option CString) :
    ErrCode × AbilityList × List AbilityRecord :=
  match l with
  | [] => (paramNullError, [], [])
  | topRecord :: l =>
    let (kept, deleted) := popAllAbilityLoop excludedBundleName l [topRecord] []
    (errOk, kept.foldl (fun l r => r :: l) [], deleted)

/-- The record with a token, changed in place through its pointer. -/
def modify (l : AbilityList) (token : UInt16) (f : AbilityRecord → AbilityRecord) : AbilityList :=
  l.map fun r => if r.token == token then f r else r

/-! ## Lookups and updates -/

theorem get_eq_some {l : AbilityList} {token : UInt16} {r : AbilityRecord}
    (h : get l token = some r) : r ∈ l ∧ r.token = token :=
  ⟨List.mem_of_find?_eq_some h, by simpa using List.find?_some h⟩

theorem get_isSome {l : AbilityList} {token : UInt16} :
    (get l token).isSome ↔ ∃ r ∈ l, r.token = token := by
  simp [get, List.find?_isSome]

theorem get_eq_none {l : AbilityList} {token : UInt16} :
    get l token = none ↔ ∀ r ∈ l, r.token ≠ token := by
  simp [get]

theorem get_of_mem {l : AbilityList} (h : (l.map (·.token)).Nodup) {r : AbilityRecord} (hr : r ∈ l) :
    get l r.token = some r := by
  induction l with
  | nil => cases hr
  | cons x l ih =>
    simp only [List.map_cons, List.nodup_cons] at h
    rcases List.mem_cons.mp hr with rfl | hr
    · simp [get]
    · have hne : x.token ≠ r.token := fun e => h.1 (List.mem_map.mpr ⟨r, hr, e.symm⟩)
      simpa [get, hne] using ih h.2 hr

theorem getByName_eq_some {l : AbilityList} {bundleName : CString} {r : AbilityRecord}
    (h : getByName l bundleName = some r) : r ∈ l ∧ r.appName = bundleName :=
  ⟨List.mem_of_find?_eq_some h, by simpa using List.find?_some h⟩

/-- The top is the first record found under its own name. -/
theorem getByName_top {r : AbilityRecord} (l : AbilityList) :
    getByName (r :: l) r.appName = some r := by
  simp [getByName]

theorem getByName_modify {l : AbilityList} {f : AbilityRecord → AbilityRecord}
    (hf : ∀ r, (f r).appName = r.appName) (token : UInt16) (bundleName : CString) :
    getByName (modify l token f) bundleName =
      (getByName l bundleName).map fun r => if r.token == token then f r else r := by
  unfold modify getByName
  rw [List.find?_map]
  congr 2
  funext r
  simp only [Function.comp_apply]
  split
  · rw [hf r]
  · rfl

theorem get_top {r : AbilityRecord} (l : AbilityList) : get (r :: l) r.token = some r := by
  simp [get]

theorem modify_cons (r : AbilityRecord) (l : AbilityList) (token : UInt16)
    (f : AbilityRecord → AbilityRecord) :
    modify (r :: l) token f = (if r.token = token then f r else r) :: modify l token f := by
  simp [modify]

theorem modify_tokens {l : AbilityList} {token : UInt16} {f : AbilityRecord → AbilityRecord}
    (hf : ∀ r, (f r).token = r.token) :
    (modify l token f).map (·.token) = l.map (·.token) := by
  simp only [modify, List.map_map]
  refine List.map_congr_left fun r _ => ?_
  simp only [Function.comp_apply]
  split
  · exact hf r
  · rfl

theorem modify_eq_self {l : AbilityList} {token : UInt16} {f : AbilityRecord → AbilityRecord}
    (h : get l token = none) : modify l token f = l := by
  rw [get_eq_none] at h
  refine (List.map_congr_left fun r hr => ?_).trans (List.map_id l)
  simp [h r hr]

theorem get_modify {l : AbilityList} {token : UInt16} {f : AbilityRecord → AbilityRecord}
    (hf : ∀ r, (f r).token = r.token) (t : UInt16) :
    get (modify l token f) t = (get l t).map fun r => if r.token = token then f r else r := by
  induction l with
  | nil => rfl
  | cons r l ih =>
    have hr : (if r.token = token then f r else r).token = r.token := by
      split
      · exact hf r
      · rfl
    simp only [get, modify, List.map_cons, List.find?_cons, beq_iff_eq, hr] at ih ⊢
    by_cases h : r.token = t
    · simp [h]
    · have hb : (r.token == t) = false := by simp [h]
      simp only [hb]
      exact ih

/-- Erasing a record forgets what was changed in it. -/
theorem erase_modify {l : AbilityList} {token : UInt16} {f : AbilityRecord → AbilityRecord}
    (hf : ∀ r, (f r).token = r.token) (h : (l.map (·.token)).Nodup) :
    erase (modify l token f) token = erase l token := by
  induction l with
  | nil => rfl
  | cons r l ih =>
    simp only [List.map_cons, List.nodup_cons] at h
    by_cases hr : r.token = token
    · have hl : get l token = none := by
        rw [get_eq_none]
        intro x hx hxt
        exact h.1 (List.mem_map.mpr ⟨x, hx, by rw [hxt, hr]⟩)
      have hm : modify (r :: l) token f = f r :: l := by
        simpa [modify, hr] using modify_eq_self (f := f) hl
      rw [hm]
      simp [erase, hf, hr]
    · have ih := ih h.2
      simp only [erase, modify, List.map_cons, beq_iff_eq, hr, if_false] at ih ⊢
      rw [List.eraseP_cons_of_neg (by simpa using hr), List.eraseP_cons_of_neg (by simpa using hr),
        ih]

theorem modify_top {r : AbilityRecord} {l : AbilityList} {f : AbilityRecord → AbilityRecord}
    (h : ((r :: l).map (·.token)).Nodup) : modify (r :: l) r.token f = f r :: l := by
  rw [modify_cons, if_pos rfl, modify_eq_self]
  rw [get_eq_none]
  intro x hx hxt
  rw [List.map_cons, List.nodup_cons] at h
  exact h.1 (List.mem_map.mpr ⟨x, hx, hxt⟩)

theorem mem_erase {l : AbilityList} {token : UInt16} (h : (l.map (·.token)).Nodup)
    {r : AbilityRecord} (hr : r ∈ erase l token) : r ∈ l ∧ r.token ≠ token := by
  induction l with
  | nil => cases hr
  | cons x l ih =>
    simp only [List.map_cons, List.nodup_cons] at h
    by_cases hx : x.token = token
    · rw [erase, List.eraseP_cons_of_pos (by simpa using hx)] at hr
      refine ⟨List.mem_cons_of_mem x hr, fun e => ?_⟩
      exact h.1 (List.mem_map.mpr ⟨r, hr, e.trans hx.symm⟩)
    · rw [erase, List.eraseP_cons_of_neg (by simpa using hx)] at hr
      rcases List.mem_cons.mp hr with rfl | hr
      · exact ⟨List.mem_cons_self, hx⟩
      · obtain ⟨hm, ht⟩ := ih h.2 hr
        exact ⟨List.mem_cons_of_mem x hm, ht⟩

theorem erase_top {r : AbilityRecord} (l : AbilityList) : erase (r :: l) r.token = l := by
  simp [erase]

theorem erase_below {r : AbilityRecord} (l : AbilityList) {token : UInt16} (h : r.token ≠ token) :
    erase (r :: l) token = r :: erase l token :=
  List.eraseP_cons_of_neg (by simpa using h)

theorem erase_sublist (l : AbilityList) (token : UInt16) : (erase l token).Sublist l :=
  List.eraseP_sublist ..

/-! ## Removals -/

theorem add_of_listed {capacity : Nat} {l : AbilityList} {r : AbilityRecord}
    (h : (get (evict capacity l) r.token).isSome) : (add capacity l r).1 = evict capacity l := by
  simp only [evict, add] at h ⊢
  split at h
  · next hc => simp [hc, Option.isSome_iff_ne_none.mp h]
  · next hc => simp [hc, Option.isSome_iff_ne_none.mp h]

theorem add_of_fresh {capacity : Nat} {l : AbilityList} {r : AbilityRecord}
    (h : get (evict capacity l) r.token = none) :
    (add capacity l r).1 = r :: evict capacity l := by
  simp only [evict, add] at h ⊢
  split at h
  · next hc => simp [hc, h]
  · next hc => simp [hc, h]

theorem add_deleted (capacity : Nat) (l : AbilityList) (r : AbilityRecord) :
    (add capacity l r).2 = if capacity ≤ l.length then (popBottomAbility l).2 else [] := by
  simp only [add]
  split <;> split <;> rfl

theorem popBottomAbility_concat (l : AbilityList) (last : AbilityRecord) :
    (popBottomAbility (l ++ [last])).1 =
      if isPermanentAbility last then l.dropLast ++ [last] else l := by
  simp only [popBottomAbility, List.getLast?_concat, List.dropLast_concat]
  split <;> rfl

theorem popBottomAbility_sublist (l : AbilityList) : (popBottomAbility l).1.Sublist l := by
  cases hl : l.getLast? with
  | none =>
    rw [List.getLast?_eq_none_iff] at hl
    subst hl
    exact List.Sublist.refl []
  | some last =>
    obtain ⟨l, rfl⟩ := List.getLast?_eq_some_iff.mp hl
    rw [popBottomAbility_concat]
    split
    · exact (List.dropLast_sublist l).append_right [last]
    · exact List.sublist_append_left l [last]

theorem evict_sublist (capacity : Nat) (l : AbilityList) : (evict capacity l).Sublist l := by
  unfold evict
  split
  · exact popBottomAbility_sublist l
  · exact List.Sublist.refl l

/-- A permanent record alone is never deleted to make room. -/
theorem evict_permanent (capacity : Nat) {r : AbilityRecord} (h : isPermanentAbility r = true) :
    evict capacity [r] = [r] := by
  unfold evict
  split
  · have hpop := popBottomAbility_concat [] r
    rw [h, if_pos rfl] at hpop
    exact hpop
  · rfl

theorem add_permanent (capacity : Nat) (top : AbilityRecord) {r : AbilityRecord} (h : isPermanentAbility r = true)
    (hne : r.token ≠ top.token) : (add capacity [r] top).1 = [top, r] := by
  have hevict := evict_permanent capacity h
  rw [add_of_fresh, hevict]
  rw [hevict, get_eq_none]
  intro x hx
  rw [List.mem_singleton.mp hx]
  exact hne

/-- Making room never deletes the first of three or more records. -/
theorem popBottomAbility_deleted {r : AbilityRecord} {l : AbilityList} (hl : 2 ≤ l.length) :
    ∀ d ∈ (popBottomAbility (r :: l)).2, d ∈ l := by
  have hne : l.getLast? ≠ none := by
    rw [ne_eq, List.getLast?_eq_none_iff]
    rintro rfl
    simp at hl
  obtain ⟨last, hlast⟩ := Option.ne_none_iff_exists'.mp hne
  obtain ⟨l, rfl⟩ := List.getLast?_eq_some_iff.mp hlast
  match l with
  | [] => simp at hl
  | x :: l =>
    intro d hd
    rw [← List.cons_append] at hd
    simp only [popBottomAbility, List.getLast?_concat, List.dropLast_concat] at hd
    split at hd
    · simp only [List.getLast?_cons_cons, Option.mem_toList] at hd
      exact List.mem_append_left _ (List.mem_of_getLast? hd)
    · simp only [List.mem_singleton] at hd
      simp [hd]

/-- Making room never takes the first of three or more records. -/
theorem evict_cons {capacity : Nat} (hcap : 3 ≤ capacity) (r : AbilityRecord) (l : AbilityList) :
    ∃ l', evict capacity (r :: l) = r :: l' ∧ l'.Sublist l := by
  unfold evict
  split
  · next hc =>
    have hl : l.getLast? ≠ none := by
      rw [ne_eq, List.getLast?_eq_none_iff]
      rintro rfl
      simp only [List.length_cons, List.length_nil] at hc
      omega
    obtain ⟨last, hlast⟩ := Option.ne_none_iff_exists'.mp hl
    obtain ⟨l, rfl⟩ := List.getLast?_eq_some_iff.mp hlast
    match l with
    | [] =>
      simp only [List.nil_append, List.length_cons, List.length_nil] at hc
      omega
    | x :: l =>
      rw [← List.cons_append, popBottomAbility_concat]
      split
      · exact ⟨(x :: l).dropLast ++ [last], rfl, (List.dropLast_sublist _).append_right [last]⟩
      · exact ⟨x :: l, rfl, List.sublist_append_left _ [last]⟩
  · exact ⟨l, rfl, List.Sublist.refl l⟩

theorem popBottomAbility_two (l : AbilityList) (a b : AbilityRecord) :
    popBottomAbility (l ++ [a, b]) =
      if isPermanentAbility b then (l ++ [b], [a]) else (l ++ [a], [b]) := by
  have hlast : l ++ [a, b] = (l ++ [a]) ++ [b] := by rw [List.append_assoc]; rfl
  rw [hlast]
  simp only [popBottomAbility, List.getLast?_concat, List.dropLast_concat, Option.toList_some]

/-- A list of two or more, by its last two. -/
theorem exists_two {l : AbilityList} (h : 2 ≤ l.length) : ∃ l₀ a b, l = l₀ ++ [a, b] := by
  obtain ⟨l₁, b, rfl⟩ := List.eq_nil_or_concat l |>.resolve_left (by rintro rfl; simp at h)
  obtain ⟨l₀, a, rfl⟩ := List.eq_nil_or_concat l₁ |>.resolve_left (by rintro rfl; simp at h)
  exact ⟨l₀, a, b, by simp⟩

/-- There is room after making room. -/
theorem evict_length {capacity : Nat} (hcap : 2 ≤ capacity) {l : AbilityList} (hlen : l.length ≤ capacity) :
    (evict capacity l).length < capacity := by
  unfold evict
  split
  · next hfull =>
    obtain ⟨l₀, a, b, rfl⟩ := exists_two (l := l) (by omega)
    rw [popBottomAbility_two]
    simp only [List.length_append, List.length_cons, List.length_nil] at hlen
    split
    all_goals
      simp only [List.length_append, List.length_cons, List.length_nil]
      omega
  · next hroom => exact Nat.lt_of_not_le hroom

theorem popAllAbilityLoop_eq (excludedBundleName : Option CString) (l kept : AbilityList)
    (deleted : List AbilityRecord) :
    popAllAbilityLoop excludedBundleName l kept deleted =
      ((l.filter (reserved excludedBundleName)).reverse ++ kept,
        deleted ++ l.filter fun r => !reserved excludedBundleName r) := by
  induction l generalizing kept deleted with
  | nil => simp [popAllAbilityLoop]
  | cons r l ih =>
    unfold popAllAbilityLoop
    split
    · next h => simp [ih, h]
    · next h => simp [ih, h]

theorem popAllAbility_nil (excludedBundleName : Option CString) :
    popAllAbility [] excludedBundleName = (paramNullError, [], []) := rfl

/-- `PopAllAbility` keeps the top and filters the rest. -/
theorem popAllAbility_cons (r : AbilityRecord) (l : AbilityList)
    (excludedBundleName : Option CString) :
    popAllAbility (r :: l) excludedBundleName =
      (errOk, r :: l.filter (reserved excludedBundleName),
        l.filter fun r => !reserved excludedBundleName r) := by
  simp only [popAllAbility, popAllAbilityLoop_eq, List.nil_append, Prod.mk.injEq, true_and, and_true]
  rw [List.foldl_flip_cons_eq_append]
  simp

theorem popAllAbility_sublist (l : AbilityList) (excludedBundleName : Option CString) :
    (popAllAbility l excludedBundleName).2.1.Sublist l := by
  cases l with
  | nil => exact List.Sublist.refl _
  | cons top below =>
    rw [popAllAbility_cons]
    exact List.filter_sublist.cons_cons top

end AbilityList
end AbilityLite.Slite
