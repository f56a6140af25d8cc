import AbilityLite.Run
import Mathlib.Data.List.Nodup
import Mathlib.Data.List.Perm.Subperm

/-
  Threads that post tasks to one worker, through a bounded queue.

  Whether there is room is looked at before the lock is taken, so a thread that found
  room pushes later, when the queue may be full again. The worker takes the tasks in
  the order they were pushed; a task may post others, which the worker posts as any
  thread does before it takes the next one. A worker that finds the queue empty waits
  until a task has been pushed: that no wait ends sooner is assumed of the primitive
  it waits with.
-/

namespace AbilityLite

universe u v w

/-- The capacity of the queue, whether the worker goes on, and what it does with a task: the state
after it, and what the task posts. -/
structure Worker (σ : Type u) (α : Type v) where
  capacity : Nat
  runs : σ → Bool
  handle : σ → α → σ × List α

/-- `checked` are the threads that found room and have yet to push, with what they push; `none`
is the worker. `todo` is what the last task has yet to post. -/
structure Mailbox (ι : Type w) (σ : Type u) (α : Type v) where
  state : σ
  queue : List α := []
  checked : List (Option ι × α) := []
  todo : List α := []

namespace Mailbox

variable {ι : Type w} {σ : Type u} {α : Type v}

inductive Event (ι : Type w) (α : Type v) where
  | check (thread : ι) (a : α)
  | checkOwn
  | push (thread : Option ι)
  | take

/-- What a step did with a task. -/
inductive Entry (α : Type v) where
  | dropped (a : α)
  | pushed (a : α)
  | taken (a : α)

/-- The worker has looked for room for the next task of its own. -/
def IsChecking [DecidableEq ι] (m : Mailbox ι σ α) (thread : Option ι) : Bool :=
  m.checked.any fun c => decide (c.1 = thread)

variable [DecidableEq ι] (w : Worker σ α)

def look (m : Mailbox ι σ α) (thread : Option ι) (a : α) : Mailbox ι σ α :=
  if w.capacity ≤ m.queue.length then m else { m with checked := m.checked ++ [(thread, a)] }

def next (m : Mailbox ι σ α) : Event ι α → Option (Mailbox ι σ α)
  | .check thread a => if m.IsChecking (some thread) then none else some (m.look w (some thread) a)
  | .checkOwn =>
    match m.todo with
    | [] => none
    | a :: todo => if m.IsChecking none then none else some ({ m with todo }.look w none a)
  | .push thread =>
    match m.checked.find? fun c => decide (c.1 = thread) with
    | none => none
    | some c => some { m with
        queue := m.queue ++ [c.2], checked := m.checked.filter fun c => decide (c.1 ≠ thread) }
  | .take =>
    match m.queue with
    | [] => none
    | a :: queue =>
      if w.runs m.state ∧ m.todo = [] ∧ m.IsChecking none = false then
        some { m with state := (w.handle m.state a).1, queue, todo := (w.handle m.state a).2 }
      else none

/-- A task looked at with no room is dropped. -/
def entries (m : Mailbox ι σ α) : Event ι α → List (Entry α)
  | .check _ a => if w.capacity ≤ m.queue.length then [.dropped a] else []
  | .checkOwn => if w.capacity ≤ m.queue.length then (m.todo.take 1).map .dropped else []
  | .push thread => ((m.checked.find? fun c => decide (c.1 = thread)).map fun c => .pushed c.2).toList
  | .take => (m.queue.take 1).map .taken

def pushed (l : List (Entry α)) : List α :=
  l.filterMap fun e => match e with | .pushed a => some a | _ => none

def taken (l : List (Entry α)) : List α :=
  l.filterMap fun e => match e with | .taken a => some a | _ => none

/-- The runs, with what became of the tasks. -/
abbrev Runs (ok : Mailbox ι σ α → Event ι α → Prop) : Mailbox ι σ α → List (Entry α) →
    Mailbox ι σ α → Prop :=
  Logs (next w) ok fun m e _ => entries w m e

/-- The worker alone, on a list of tasks. -/
def handleAll (s : σ) (l : List α) : σ := l.foldl (fun s a => (w.handle s a).1) s

omit [DecidableEq ι] in
@[simp] theorem pushed_append (l l' : List (Entry α)) : pushed (l ++ l') = pushed l ++ pushed l' :=
  List.filterMap_append

omit [DecidableEq ι] in
@[simp] theorem taken_append (l l' : List (Entry α)) : taken (l ++ l') = taken l ++ taken l' :=
  List.filterMap_append

theorem taken_entries (m : Mailbox ι σ α) (e : Event ι α) :
    taken (entries w m e) = [] ∨ ∃ a, taken (entries w m e) = [a] := by
  cases e with
  | check thread a =>
    simp only [entries]
    split <;> exact .inl rfl
  | checkOwn =>
    simp only [entries]
    split
    · cases m.todo <;> exact .inl rfl
    · exact .inl rfl
  | push thread =>
    simp only [entries]
    cases m.checked.find? (fun c => decide (c.1 = thread)) <;> exact .inl rfl
  | take =>
    simp only [entries]
    cases m.queue with
    | nil => exact .inl rfl
    | cons a queue => exact .inr ⟨a, rfl⟩

variable {w}

/-! ## What one step does -/

omit [DecidableEq ι] in
theorem look_queue (m : Mailbox ι σ α) (thread : Option ι) (a : α) :
    (m.look w thread a).queue = m.queue := by
  unfold look
  split <;> rfl

omit [DecidableEq ι] in
theorem look_state (m : Mailbox ι σ α) (thread : Option ι) (a : α) :
    (m.look w thread a).state = m.state := by
  unfold look
  split <;> rfl

/-- A step pushes at the back and takes at the front, and what it takes the worker handles. -/
structure Moves (w : Worker σ α) (m m' : Mailbox ι σ α) (l : List (Entry α)) : Prop where
  queue : m.queue ++ pushed l = taken l ++ m'.queue
  state : m'.state = handleAll w m.state (taken l)
  runs : taken l ≠ [] → w.runs m.state = true

theorem next_moves {m m' : Mailbox ι σ α} {e : Event ι α} (h : next w m e = some m') :
    Moves w m m' (entries w m e) := by
  cases e with
  | check thread a =>
    simp only [next] at h
    split at h
    · cases h
    · cases h
      have hnone : pushed (entries w m (.check thread a)) = [] ∧
          taken (entries w m (.check thread a)) = [] := by
        simp only [entries]
        split <;> exact ⟨rfl, rfl⟩
      refine ⟨?_, ?_, fun hne => absurd hnone.2 hne⟩
      · rw [hnone.1, hnone.2, look_queue, List.append_nil, List.nil_append]
      · rw [hnone.2, look_state]
        rfl
  | checkOwn =>
    simp only [next] at h
    cases htodo : m.todo with
    | nil =>
      rw [htodo] at h
      cases h
    | cons a todo =>
      simp only [htodo] at h
      split at h
      · cases h
      · cases h
        have hnone : pushed (entries w m .checkOwn) = [] ∧ taken (entries w m .checkOwn) = [] := by
          simp only [entries, htodo]
          split <;> exact ⟨rfl, rfl⟩
        refine ⟨?_, ?_, fun hne => absurd hnone.2 hne⟩
        · rw [hnone.1, hnone.2, look_queue, List.append_nil, List.nil_append]
        · rw [hnone.2, look_state]
          rfl
  | push thread =>
    simp only [next] at h
    cases hfind : m.checked.find? (fun c => decide (c.1 = thread)) with
    | none =>
      rw [hfind] at h
      cases h
    | some c =>
      rw [hfind] at h
      cases h
      have hentries : entries w m (.push thread) = [.pushed c.2] := by
        simp only [entries, hfind, Option.map_some, Option.toList_some]
      rw [hentries]
      exact ⟨rfl, rfl, fun hne => absurd rfl hne⟩
  | take =>
    simp only [next] at h
    cases hqueue : m.queue with
    | nil =>
      rw [hqueue] at h
      cases h
    | cons a queue =>
      simp only [hqueue] at h
      split at h
      · next hruns =>
        cases h
        have hentries : entries w m .take = [.taken a] := by
          simp only [entries, hqueue, List.take_succ_cons, List.take_zero, List.map_cons,
            List.map_nil]
        rw [hentries]
        refine ⟨?_, rfl, fun _ => hruns.1⟩
        rw [hqueue]
        exact List.append_nil _
      · cases h

/-! ## Runs -/

omit [DecidableEq ι] in
theorem handleAll_append (s : σ) (l l' : List α) :
    handleAll w s (l ++ l') = handleAll w (handleAll w s l) l' := List.foldl_append

/-- In every run the worker has handled, one after the other, the tasks pushed first; the rest of
them wait, in the order they were pushed. -/
theorem run_in_order {ok : Mailbox ι σ α → Event ι α → Prop} {m m' : Mailbox ι σ α}
    {l : List (Entry α)} (h : Runs w ok m l m') :
    m.queue ++ pushed l = taken l ++ m'.queue ∧ m'.state = handleAll w m.state (taken l) := by
  refine h.invariant
    (fun l m' => m.queue ++ pushed l = taken l ++ m'.queue ∧ m'.state = handleAll w m.state (taken l))
    ?_ ?_
  · exact ⟨List.append_nil _, rfl⟩
  · intro l m₁ e m₂ ⟨hqueue, hstate⟩ _ hnext
    have hmoves := next_moves hnext
    constructor
    · calc m.queue ++ pushed (l ++ entries w m₁ e)
        _ = (m.queue ++ pushed l) ++ pushed (entries w m₁ e) := by
          rw [pushed_append, List.append_assoc]
        _ = taken l ++ (m₁.queue ++ pushed (entries w m₁ e)) := by rw [hqueue, List.append_assoc]
        _ = taken (l ++ entries w m₁ e) ++ m₂.queue := by
          rw [hmoves.queue, taken_append, List.append_assoc]
    · rw [taken_append, handleAll_append, ← hstate, hmoves.state]

/-! ## Where a task comes from -/

/-- The tasks that wait to be taken, pushed or looked at. -/
def held (m : Mailbox ι σ α) : List α := m.queue ++ (m.checked.map (·.2) ++ m.todo)

omit [DecidableEq ι] in
theorem held_look {m : Mailbox ι σ α} {thread : Option ι} {a b : α}
    (hb : b ∈ (m.look w thread a).held) : b = a ∨ b ∈ m.held := by
  unfold look at hb
  split at hb
  · exact .inr hb
  · simp only [held, List.map_append, List.map_cons, List.map_nil, List.mem_append,
      List.mem_singleton] at hb ⊢
    tauto

/-- What waits after a step waited before, was posted from outside in the step, or was posted by the
task the step took; and what the step took waited before. -/
theorem next_held {m m' : Mailbox ι σ α} {e : Event ι α} (h : next w m e = some m') :
    (∀ b ∈ taken (entries w m e), b ∈ m.held) ∧
    ∀ b ∈ m'.held, b ∈ m.held ∨ (∃ t, e = .check t b) ∨
      ∃ a ∈ taken (entries w m e), b ∈ (w.handle m.state a).2 := by
  cases e with
  | check thread a =>
    simp only [next] at h
    split at h
    · cases h
    · cases h
      refine ⟨fun b hb => ?_, fun b hb => ?_⟩
      · simp only [entries] at hb
        split at hb <;> cases hb
      · rcases held_look hb with rfl | hb
        · exact .inr (.inl ⟨thread, rfl⟩)
        · exact .inl hb
  | checkOwn =>
    simp only [next] at h
    split at h
    · cases h
    · next a todo htodo =>
      split at h
      · cases h
      · cases h
        refine ⟨fun b hb => ?_, fun b hb => .inl ?_⟩
        · simp only [entries, htodo] at hb
          split at hb <;> cases hb
        · simp only [held, htodo, List.mem_append, List.mem_cons]
          rcases held_look hb with rfl | hb
          · exact .inr (.inr (.inl rfl))
          · simp only [held, List.mem_append] at hb
            tauto
  | push thread =>
    simp only [next] at h
    split at h
    · cases h
    · next c hfind =>
      cases h
      refine ⟨fun b hb => ?_, fun b hb => .inl ?_⟩
      · simp only [entries, hfind, Option.map_some, Option.toList_some] at hb
        cases hb
      · simp only [held, List.mem_append, List.mem_map, List.mem_singleton] at hb ⊢
        rcases hb with (hb | rfl) | ⟨d, hd, rfl⟩ | hb
        · exact .inl hb
        · exact .inr (.inl ⟨c, List.mem_of_find?_eq_some hfind, rfl⟩)
        · exact .inr (.inl ⟨d, List.mem_of_mem_filter hd, rfl⟩)
        · exact .inr (.inr hb)
  | take =>
    simp only [next] at h
    split at h
    · cases h
    · next a queue hqueue =>
      split at h
      · next hruns =>
        cases h
        have htaken : taken (entries w m .take) = [a] := by
          simp only [entries, hqueue, List.take_succ_cons, List.take_zero, List.map_cons,
            List.map_nil]
          rfl
        rw [htaken]
        refine ⟨fun b hb => ?_, fun b hb => ?_⟩
        · rw [List.mem_singleton] at hb
          simp only [held, hqueue, List.mem_append, List.mem_cons]
          exact .inl (.inl hb)
        · simp only [held, hqueue, List.mem_append, List.mem_cons] at hb ⊢
          rcases hb with hb | hb | hb
          · exact .inl (.inl (.inr hb))
          · exact .inl (.inr (.inl hb))
          · exact .inr (.inr ⟨a, .inl rfl, hb⟩)
      · cases h

/-- Each task the worker has taken and each that waits was posted from outside, or by a task it has
taken. -/
theorem run_origin {ok : Mailbox ι σ α → Event ι α → Prop} {posted : α → Prop}
    (hposted : ∀ m t a, ok m (.check t a) → posted a) {m m' : Mailbox ι σ α} {l : List (Entry α)}
    (hempty : m.held = []) (h : Runs w ok m l m') :
    ∀ b, b ∈ taken l ∨ b ∈ m'.held →
      posted b ∨ ∃ a ∈ taken l, ∃ s, b ∈ (w.handle s a).2 := by
  refine h.invariant
    (fun l m' => ∀ b, b ∈ taken l ∨ b ∈ m'.held →
      posted b ∨ ∃ a ∈ taken l, ∃ s, b ∈ (w.handle s a).2) ?_ ?_
  · rintro b (hb | hb)
    · cases hb
    · rw [hempty] at hb
      cases hb
  · intro l m₁ e m₂ ih hok hnext b hb
    obtain ⟨htaken, hheld⟩ := next_held hnext
    have hold : b ∈ taken l ∨ b ∈ m₁.held →
        posted b ∨ ∃ a ∈ taken (l ++ entries w m₁ e), ∃ s, b ∈ (w.handle s a).2 := by
      intro hb
      rcases ih b hb with hb | ⟨a, ha, hs⟩
      · exact .inl hb
      · exact .inr ⟨a, by rw [taken_append]; exact List.mem_append_left _ ha, hs⟩
    rw [taken_append, List.mem_append] at hb
    rcases hb with (hb | hb) | hb
    · exact hold (.inl hb)
    · exact hold (.inr (htaken b hb))
    · rcases hheld b hb with hb | ⟨t, rfl⟩ | ⟨a, ha, hb⟩
      · exact hold (.inr hb)
      · exact .inl (hposted m₁ t b hok)
      · exact .inr ⟨a, by rw [taken_append]; exact List.mem_append_right _ ha, m₁.state, hb⟩

/-- The worker went on whenever it took a task. -/
theorem run_runs {ok : Mailbox ι σ α → Event ι α → Prop} {m m' : Mailbox ι σ α} {l : List (Entry α)}
    (h : Runs w ok m l m') :
    ∀ front a back, taken l = front ++ a :: back → w.runs (handleAll w m.state front) = true := by
  refine (h.invariant
    (fun l m' => m'.state = handleAll w m.state (taken l) ∧ ∀ front a back,
      taken l = front ++ a :: back → w.runs (handleAll w m.state front) = true) ?_ ?_).2
  · refine ⟨rfl, fun front a back h => ?_⟩
    cases front <;> cases h
  · intro l m₁ e m₂ ⟨hstate, ih⟩ _ hnext
    have hmoves := next_moves hnext
    refine ⟨?_, fun front a back hsplit => ?_⟩
    · rw [taken_append, handleAll_append, ← hstate, hmoves.state]
    · rw [taken_append] at hsplit
      rcases taken_entries w m₁ e with hnil | ⟨b, hone⟩
      · rw [hnil, List.append_nil] at hsplit
        exact ih front a back hsplit
      · rcases List.eq_nil_or_concat' back with rfl | ⟨back, c, rfl⟩
        · rw [hone] at hsplit
          obtain ⟨hfront, _⟩ := List.append_inj' hsplit rfl
          rw [← hfront, ← hstate]
          exact hmoves.runs (by rw [hone]; exact List.cons_ne_nil _ _)
        · rw [hone, ← List.cons_append, ← List.append_assoc] at hsplit
          exact ih front a back (List.append_inj' hsplit rfl).1

/-! ## Room -/

/-- The thread of an event that posts. -/
def Event.thread : Event ι α → Option (Option ι)
  | .check thread _ => some (some thread)
  | .checkOwn => some none
  | .push thread => some thread
  | .take => none

/-- Each thread of a list has found room at most once, and there was room. -/
structure Fits (w : Worker σ α) (threads : List (Option ι)) (m : Mailbox ι σ α) : Prop where
  once : (m.checked.map (·.1)).Nodup
  known : ∀ c ∈ m.checked, c.1 ∈ threads
  room : m.queue.length + m.checked.length < w.capacity + threads.length

theorem isChecking_eq_false {m : Mailbox ι σ α} {thread : Option ι} :
    m.IsChecking thread = false ↔ thread ∉ m.checked.map (·.1) := by
  simp only [IsChecking, List.any_eq_false, decide_eq_true_eq, List.mem_map, not_exists, not_and]

theorem Fits.look {threads : List (Option ι)} {m : Mailbox ι σ α} (h : Fits w threads m)
    {thread : Option ι} (a : α) (hmem : thread ∈ threads) (hfree : m.IsChecking thread = false) :
    Fits w threads (m.look w thread a) := by
  unfold Mailbox.look
  split
  · exact h
  · next hroom =>
    have hnew := isChecking_eq_false.mp hfree
    have honce : (m.checked.map (·.1) ++ [thread]).Nodup := by
      rw [List.nodup_append]
      refine ⟨h.once, List.nodup_singleton _, ?_⟩
      intro t ht t' ht' heq
      rw [List.mem_singleton] at ht'
      exact hnew (ht' ▸ heq ▸ ht)
    have hsub : m.checked.map (·.1) ++ [thread] ⊆ threads := by
      intro t ht
      rcases List.mem_append.mp ht with ht | ht
      · obtain ⟨c, hc, rfl⟩ := List.mem_map.mp ht
        exact h.known c hc
      · rw [List.mem_singleton] at ht
        exact ht ▸ hmem
    have hmore : (m.checked ++ [(thread, a)]).length ≤ threads.length := by
      simpa using (honce.subperm hsub).length_le
    refine ⟨?_, ?_, ?_⟩
    · rw [List.map_append]
      exact honce
    · intro c hc
      rcases List.mem_append.mp hc with hc | hc
      · exact h.known c hc
      · rw [List.mem_singleton] at hc
        exact hc ▸ hmem
    · dsimp only
      omega

/-- What a thread pushes it had found room for; nothing else makes the queue longer. -/
theorem Fits.next {threads : List (Option ι)} {m m' : Mailbox ι σ α} {e : Event ι α}
    (h : Fits w threads m) (hmem : ∀ t, e.thread = some t → t ∈ threads)
    (hnext : next w m e = some m') : Fits w threads m' := by
  cases e with
  | check thread a =>
    simp only [Mailbox.next] at hnext
    split at hnext
    · cases hnext
    · next hfree =>
      cases hnext
      exact h.look a (hmem _ rfl) (Bool.not_eq_true _ ▸ hfree)
  | checkOwn =>
    simp only [Mailbox.next] at hnext
    split at hnext
    · cases hnext
    · next a todo _ =>
      split at hnext
      · cases hnext
      · next hfree =>
        cases hnext
        have hsame : Fits w threads { m with todo } := ⟨h.once, h.known, h.room⟩
        exact hsame.look a (hmem _ rfl) (Bool.not_eq_true _ ▸ hfree)
  | push thread =>
    simp only [Mailbox.next] at hnext
    split at hnext
    · cases hnext
    · next c hfind =>
      cases hnext
      have hc : c ∈ m.checked := List.mem_of_find?_eq_some hfind
      have hthread : c.1 = thread := of_decide_eq_true
        (List.find?_some (p := fun d : Option ι × α => decide (d.1 = thread)) hfind)
      have hsub : (m.checked.filter fun d : Option ι × α => decide (d.1 ≠ thread)).Sublist m.checked :=
        List.filter_sublist
      have hless : (m.checked.filter fun d : Option ι × α => decide (d.1 ≠ thread)).length <
          m.checked.length := by
        refine List.length_filter_lt_length_iff_exists.mpr ⟨c, hc, ?_⟩
        simp only [hthread, ne_eq, not_true_eq_false, decide_false, Bool.false_eq_true,
          not_false_eq_true]
      refine ⟨h.once.sublist (hsub.map _), fun c hc => h.known c (hsub.subset hc), ?_⟩
      have hroom := h.room
      dsimp only
      rw [List.length_append, List.length_singleton]
      omega
  | take =>
    simp only [Mailbox.next] at hnext
    split at hnext
    · cases hnext
    · next a queue hqueue =>
      split at hnext
      · cases hnext
        have hroom := h.room
        rw [hqueue, List.length_cons] at hroom
        exact ⟨h.once, h.known, by dsimp only; omega⟩
      · cases hnext

/-- With `threads` posting, the queue never holds as many tasks more than its capacity as there
are threads. -/
theorem run_length_lt {ok : Mailbox ι σ α → Event ι α → Prop} {threads : List (Option ι)}
    (hok : ∀ m e, ok m e → ∀ t, e.thread = some t → t ∈ threads) {m m' : Mailbox ι σ α}
    {l : List (Entry α)} (hm : Fits w threads m) (h : Runs w ok m l m') :
    m'.queue.length < w.capacity + threads.length := by
  have hfits : Fits w threads m' := by
    refine h.invariant (fun _ m => Fits w threads m) hm ?_
    intro _ m₁ e m₂ hfits he hnext
    exact hfits.next (hok m₁ e he) hnext
  have hroom := hfits.room
  omega

end Mailbox
end AbilityLite
