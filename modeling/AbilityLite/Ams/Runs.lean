import AbilityLite.Ams.Turns

/-
  What one event does to AMS and the processes, and what holds in every reachable state:
  the lists have their shape, and what is allocated was generated.
-/

namespace AbilityLite.Ams
open AbilityMsStatus Fallible Relation
namespace System
variable {gen : TokenGenerate} {env : Env} {s s' : System} {e : Event}

/-- One event: AMS handles a request or a reply, or runs into a deleted object while it does, or a
process performs a message. -/
inductive Happens (gen : TokenGenerate) (env : Env) (s : System) : Event → System → Prop
  | request {e : Event} {ams : AbilityMgr} (h : s.ams.requestMsg gen env e = .ok ams) :
      Happens gen env s e { s with ams }
  | requestFault {e : Event} {f : Fault} (h : s.ams.requestMsg gen env e = .error f) :
      Happens gen env s e { s with fault := some f }
  | reply {a : Nat} {r : Reply} {replies : List (Nat × Reply)} {ams : AbilityMgr}
      (htake : takeFirst a s.replies = some (r, replies)) (h : s.ams.replyMsg gen env r = .ok ams) :
      Happens gen env s (.reply a) { s with replies, ams }
  | replyFault {a : Nat} {r : Reply} {replies : List (Nat × Reply)} {f : Fault}
      (htake : takeFirst a s.replies = some (r, replies))
      (h : s.ams.replyMsg gen env r = .error f) :
      Happens gen env s (.reply a) { s with replies, fault := some f }
  | perform {a : Nat} {sid : SvcIdentity} {m : Transaction} {sent : List (Nat × Transaction)}
      (hrun : (s.threads a).isAppRunning = true) (htake : takeFirst a s.ams.sent = some (m, sent)) :
      Happens gen env s (.perform a sid)
        { s with
          ams := { s.ams with sent }
          threads := fun b => if b = a then ((s.threads a).perform env sid m).1 else s.threads b
          replies := s.replies ++ ((s.threads a).perform env sid m).2.map fun r => (a, r) }

theorem handled_cases {P : System → Prop} (x : Except Fault AbilityMgr)
    (hok : ∀ ams, x = .ok ams → P { s with ams })
    (hfault : ∀ f, x = .error f → P { s with fault := some f }) : P (s.handled x) := by
  cases x with
  | ok ams => exact hok ams rfl
  | error f => exact hfault f rfl

theorem next_cases (h : System.next gen s (env, e) = some s') :
    s.fault = none ∧ Happens gen env s e s' := by
  unfold System.next at h
  split at h
  · cases h
  · next hfault =>
    refine ⟨hfault, ?_⟩
    split at h
    · next a sid he =>
      dsimp only at he
      subst he
      unfold performFirst at h
      split at h
      · next hrun =>
        simp only [Option.bind_eq_bind, Option.bind_eq_some_iff] at h
        obtain ⟨⟨m, sent⟩, htake, h⟩ := h
        cases h
        exact .perform hrun htake
      · cases h
    · next a he =>
      dsimp only at he
      subst he
      simp only [Option.bind_eq_bind, Option.bind_eq_some_iff] at h
      obtain ⟨⟨r, replies⟩, htake, h⟩ := h
      cases h
      exact handled_cases _ (fun _ hok => .reply htake hok) fun _ hf => .replyFault htake hf
    · cases h
      exact handled_cases _ (fun _ hok => .request hok) fun _ hf => .requestFault hf

theorem shape_init : ({} : AbilityMgr).Shape := by
  refine ⟨List.nodup_nil, fun m hm => ?_, fun m hm => ?_, fun st m hm => ?_, fun st m hm => ?_,
    fun t ht => ?_, List.nodup_nil⟩
  · cases hm
  · cases hm
  · cases st <;> cases hm
  · cases st <;> cases hm
  · cases ht

theorem known_init : AbilityMgr.Known gen {} :=
  ⟨fun _ ht => (by cases ht), fun _ h => (by cases h), List.nodup_nil⟩

/-- What AMS goes to from a sound state is sound, and messages may be taken from its queue. -/
theorem Happens.sound (hs : s.ams.Sound gen) (h : Happens gen env s e s') : s'.ams.Sound gen := by
  cases h with
  | request h => exact hs.goes (AbilityMgr.requestMsg_goes hs h)
  | requestFault => exact hs
  | reply _ h => exact hs.goes (AbilityMgr.replyMsg_goes hs h)
  | replyFault => exact hs
  | perform =>
    exact ⟨hs.shape.of_kept ⟨⟨rfl, rfl, rfl, rfl, rfl, rfl⟩, fun _ => rfl⟩,
      hs.known.same (fun _ ht => ht) (List.Sublist.refl _) rfl⟩

/-- In every reachable state the lists have their shape, and what is allocated was generated. -/
theorem sound_of_reached {ok : System → Env × Event → Prop}
    (h : Reached (System.next gen) ok IsInit s) : s.ams.Sound gen := by
  have hinit : ∀ s, IsInit s → s.ams.Sound gen := by
    rintro s rfl
    exact ⟨shape_init, known_init⟩
  have hstep : ∀ s e s', s.ams.Sound gen → ok s e → System.next gen s e = some s' → s'.ams.Sound gen := by
    rintro s ⟨env, e⟩ s' hs _ hnext
    exact (next_cases hnext).2.sound hs
  exact Reached.invariant hinit hstep h

end System
end AbilityLite.Ams
