/-
  Allocated objects by identity, and computations that stop at a fault.

  A `Store` is a partial map: an identity has an object or, before the object is
  allocated and after it is deleted, none. Computations over a state that may use a
  deleted object are functions into `Except`; the rules at the end take one apart, by how
  it ended, or show that it avoids a fault (`Avoids`).
-/

namespace AbilityLite

universe u v w

/-- What is allocated, by identity. -/
def Store (κ : Type u) (α : Type v) := κ → Option α

namespace Store
variable {κ : Type u} {α : Type v} [DecidableEq κ]

def empty : Store κ α := fun _ => none

def insert (m : Store κ α) (k : κ) (a : α) : Store κ α := fun j => if j = k then some a else m j

def erase (m : Store κ α) (k : κ) : Store κ α := fun j => if j = k then none else m j

/-- Change the object of an identity, if there is one. -/
def modify (m : Store κ α) (k : κ) (f : α → α) : Store κ α :=
  fun j => if j = k then (m j).map f else m j

/-- Every object changed. -/
def map {β : Type w} (m : Store κ α) (f : α → β) : Store κ β := fun k => (m k).map f

variable (m : Store κ α) {j k : κ}

omit [DecidableEq κ] in
@[simp] theorem empty_apply : (empty : Store κ α) k = none := rfl

@[simp] theorem insert_same (a : α) : m.insert k a k = some a := if_pos rfl

theorem insert_ne (a : α) (h : j ≠ k) : m.insert k a j = m j := if_neg h

@[simp] theorem erase_same : m.erase k k = none := if_pos rfl

theorem erase_ne (h : j ≠ k) : m.erase k j = m j := if_neg h

@[simp] theorem modify_same (f : α → α) : m.modify k f k = (m k).map f := if_pos rfl

theorem modify_ne (f : α → α) (h : j ≠ k) : m.modify k f j = m j := if_neg h

theorem map_insert {β : Type w} (f : α → β) (a : α) : (m.insert k a).map f = (m.map f).insert k (f a) := by
  funext j
  simp only [map, insert]
  split <;> rfl

theorem map_erase {β : Type w} (f : α → β) : (m.erase k).map f = (m.map f).erase k := by
  funext j
  simp only [map, erase]
  split <;> rfl

theorem map_modify {β : Type w} {f : α → β} {g : α → α} {g' : β → β} (h : ∀ a, f (g a) = g' (f a)) :
    (m.modify k g).map f = (m.map f).modify k g' := by
  funext j
  simp only [map, modify]
  split
  · rw [Option.map_map, Option.map_map]
    exact congrArg (Option.map · (m j)) (funext h)
  · rfl

variable {m}

/-- An object after an insertion is the inserted one or an old one. -/
theorem insert_cases {a b : α} (h : m.insert k a j = some b) :
    (j = k ∧ b = a) ∨ (j ≠ k ∧ m j = some b) := by
  by_cases hj : j = k
  · subst hj
    rw [insert_same] at h
    exact .inl ⟨rfl, (Option.some.inj h).symm⟩
  · rw [insert_ne m a hj] at h
    exact .inr ⟨hj, h⟩

/-- An object after an erasure was there before, under another identity. -/
theorem erase_cases {b : α} (h : m.erase k j = some b) : j ≠ k ∧ m j = some b := by
  by_cases hj : j = k
  · subst hj
    rw [erase_same] at h
    cases h
  · rw [erase_ne m hj] at h
    exact ⟨hj, h⟩

/-- An object after a change is the changed one or an old one. -/
theorem modify_cases {f : α → α} {b : α} (h : m.modify k f j = some b) :
    ∃ a, m j = some a ∧ ((j = k ∧ b = f a) ∨ (j ≠ k ∧ b = a)) := by
  by_cases hj : j = k
  · subst hj
    rw [modify_same, Option.map_eq_some_iff] at h
    obtain ⟨a, ha, hb⟩ := h
    exact ⟨a, ha, .inl ⟨rfl, hb.symm⟩⟩
  · rw [modify_ne m f hj] at h
    exact ⟨b, h, .inr ⟨hj, rfl⟩⟩

/-- A change neither allocates nor deletes. -/
@[simp] theorem modify_isSome (f : α → α) : (m.modify k f j).isSome = (m j).isSome := by
  by_cases hj : j = k
  · subst hj
    rw [modify_same, Option.isSome_map]
  · rw [modify_ne m f hj]

@[simp] theorem modify_eq_none (f : α → α) : m.modify k f j = none ↔ m j = none := by
  rw [← Option.not_isSome_iff_eq_none, ← Option.not_isSome_iff_eq_none, modify_isSome]

end Store

/-! ## Lists whose elements have keys -/

namespace Keyed
variable {α : Type u} {κ : Type v} [DecidableEq κ] {key : α → κ} {l : List α} {a b : α} {k : κ}

omit [DecidableEq κ] in
/-- Two elements with one key are one element. -/
theorem eq_of_key_eq (hnodup : (l.map key).Nodup) (ha : a ∈ l) (hb : b ∈ l) (h : key a = key b) :
    a = b := by
  induction l with
  | nil => cases ha
  | cons c l ih =>
    rw [List.map_cons, List.nodup_cons] at hnodup
    rcases List.mem_cons.mp ha with hac | hal <;> rcases List.mem_cons.mp hb with hbc | hbl
    · rw [hac, hbc]
    · exact absurd (List.mem_map.mpr ⟨b, hbl, by rw [← h, hac]⟩) hnodup.1
    · exact absurd (List.mem_map.mpr ⟨a, hal, by rw [h, hbc]⟩) hnodup.1
    · exact ih hnodup.2 hal hbl

/-- An element is found by its key. -/
theorem find?_key (hnodup : (l.map key).Nodup) (ha : a ∈ l) (h : key a = k) :
    l.find? (fun b => decide (key b = k)) = some a := by
  cases hf : l.find? (fun b => decide (key b = k)) with
  | none =>
    have hne := List.find?_eq_none.mp hf a ha
    exact absurd h (by simpa using hne)
  | some b =>
    have hb : key b = k := of_decide_eq_true (List.find?_some (p := fun b => decide (key b = k)) hf)
    rw [eq_of_key_eq hnodup ha (List.mem_of_find?_eq_some hf) (h.trans hb.symm)]

theorem key_of_find? (h : l.find? (fun b => decide (key b = k)) = some a) : a ∈ l ∧ key a = k :=
  ⟨List.mem_of_find?_eq_some h,
    of_decide_eq_true (List.find?_some (p := fun b => decide (key b = k)) h)⟩

/-- Taking an element out and putting it at the end keeps the elements. -/
theorem filter_append_perm (hnodup : (l.map key).Nodup) (ha : a ∈ l) (h : key a = k) :
    (l.filter (fun b => decide (key b ≠ k)) ++ [a]).Perm l := by
  induction l with
  | nil => cases ha
  | cons c l ih =>
    rw [List.map_cons, List.nodup_cons] at hnodup
    by_cases hc : key c = k
    · have hca : c = a := eq_of_key_eq (l := c :: l)
        (by rw [List.map_cons, List.nodup_cons]; exact hnodup) List.mem_cons_self ha (hc.trans h.symm)
      subst hca
      have hrest : l.filter (fun b => decide (key b ≠ k)) = l := by
        refine List.filter_eq_self.mpr fun b hb => decide_eq_true fun hbk => ?_
        exact hnodup.1 (List.mem_map.mpr ⟨b, hb, hbk.trans hc.symm⟩)
      rw [List.filter_cons_of_neg (by simpa using hc), hrest]
      exact List.perm_append_singleton c l
    · rw [List.filter_cons_of_pos (by simpa using hc), List.cons_append]
      rcases List.mem_cons.mp ha with rfl | ha
      · exact absurd h hc
      · exact (ih hnodup.2 ha).cons c

/-- Taking the last element out and putting it at the end changes nothing. -/
theorem filter_append_getLast (hnodup : (l.map key).Nodup) (ha : l.getLast? = some a) (h : key a = k) :
    l.filter (fun b => decide (key b ≠ k)) ++ [a] = l := by
  obtain ⟨ys, rfl⟩ := List.getLast?_eq_some_iff.mp ha
  rw [List.map_append, List.nodup_append] at hnodup
  have hys : ys.filter (fun b => decide (key b ≠ k)) = ys := by
    refine List.filter_eq_self.mpr fun b hb => decide_eq_true fun hbk => ?_
    exact hnodup.2.2 _ (List.mem_map_of_mem hb) _ (List.mem_map_of_mem List.mem_cons_self)
      (hbk.trans h.symm)
  rw [List.filter_append, hys, List.filter_cons_of_neg (by simpa using h), List.filter_nil,
    List.append_nil]

end Keyed

/-! ## Computations that may fault -/

namespace Fallible
variable {ε : Type u} {α : Type v} {β : Type v}

theorem bind_eq_ok {x : Except ε α} {f : α → Except ε β} {b : β} :
    (x >>= f) = .ok b ↔ ∃ a, x = .ok a ∧ f a = .ok b := by
  cases x with
  | error e => exact ⟨fun h => (by cases h), fun ⟨_, h, _⟩ => (by cases h)⟩
  | ok a => exact ⟨fun h => ⟨a, rfl, h⟩, fun ⟨_, h, h'⟩ => (by cases h; exact h')⟩

theorem bind_eq_error {x : Except ε α} {f : α → Except ε β} {e : ε} :
    (x >>= f) = .error e ↔ x = .error e ∨ ∃ a, x = .ok a ∧ f a = .error e := by
  cases x with
  | error e' =>
    constructor
    · exact fun h => .inl (congrArg Except.error (Except.error.inj h))
    · rintro (h | ⟨_, h, _⟩)
      · exact congrArg Except.error (Except.error.inj h)
      · cases h
  | ok a =>
    constructor
    · exact fun h => .inr ⟨a, rfl, h⟩
    · rintro (h | ⟨_, h, h'⟩)
      · cases h
      · cases h
        exact h'

/-- What follows goes on from a changed result as it goes on from the result, changed. -/
theorem map_bind {α' β' : Type v} {x : Except ε α} {f : α → α'} {f' : β → β'} {g : α → Except ε β}
    {g' : α' → Except ε β'} (h : ∀ a, g' (f a) = (g a).map f') : (x.map f >>= g') = (x >>= g).map f' := by
  cases x with
  | error e => rfl
  | ok a => exact h a

/-- The computation does not stop at the fault, and what it returns meets the condition. -/
def Avoids (e : ε) (p : α → Prop) : Except ε α → Prop
  | .ok a => p a
  | .error e' => e' ≠ e

namespace Avoids
variable {e : ε} {p : α → Prop} {q : β → Prop} {x : Except ε α}

theorem ok {a : α} (h : p a) : Avoids e p (.ok a : Except ε α) := h

theorem of_ok {a : α} (h : Avoids e p x) (hx : x = .ok a) : p a := by
  rw [hx] at h
  exact h

theorem ne_error (h : Avoids e p x) : x ≠ .error e := by
  intro hx
  rw [hx] at h
  exact h rfl

theorem mono {p' : α → Prop} (h : Avoids e p x) (hp : ∀ a, x = .ok a → p a → p' a) : Avoids e p' x := by
  cases x with
  | ok a => exact hp a rfl h
  | error e' => exact h

/-- A step avoids the fault, and so does what goes on from there. -/
theorem bind {f : α → Except ε β} (h : Avoids e p x) (hf : ∀ a, p a → Avoids e q (f a)) :
    Avoids e q (x >>= f) := by
  cases x with
  | ok a => exact hf a h
  | error e' => exact h

end Avoids

end Fallible
end AbilityLite
