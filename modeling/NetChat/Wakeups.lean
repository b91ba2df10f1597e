/-
No wake-up is lost. `Push` notifies after it has unlocked, and `WaitAndPop` looks at the
queue under the lock before it sleeps; so a thread that sleeps while there is something
in its queue is about to be woken: whoever queued it has not notified yet
(`no_lost_wakeup`).
-/
import NetChat.Races

namespace NetChat

open Interleave Prog

variable {SHA256 : Bytes → Bytes} {t u : Tid} {σ σ' : LockState} {x : LockOp} {q : Queue} {c' c₁ : LockConfig}
  {file : DbFile} {disk : Bytes → Option Bytes}

/-! ## After a push -/

/-- A push is followed by its unlock and its notify. -/
def Notifies (t : Tid) (x : Interleave.Entry LockOp LockOp.Res) (p : LockCode Unit) : Prop :=
  ∀ q v, x.op = .queue q (.push v) → ∃ k k', p = .op (.unlock t (.queue q)) k ∧ k () = .op (.notify_all q) k'

/-- No function but `Push` pushes. -/
def LockOp.Quiet (x : LockOp) : Prop := ∀ q v, x ≠ .queue q (.push v)

abbrev Silent {α : Type} (p : LockCode α) : Prop := p.Sat LockOp.Quiet fun _ => True

theorem Silent.meets {α : Type} {p : LockCode α} {f : α → LockCode Unit} (hp : Silent p)
    (hf : ∀ a, (f a).Meets (Notifies t)) : (p.bind f).Meets (Notifies t) := by
  induction p with
  | ret a => exact hf a
  | op o k ih => exact fun r => ⟨fun q v h => absurd h (hp.1 q v), ih r (hp.2 r)⟩
  | terminate => trivial

theorem silent_impl {α : Type} {i : LockImpl α} {f : α → LockCode Unit} (hact : Silent i.act)
    (hfin : ∀ r, Silent (i.fin r)) (hf : ∀ r, (f r).Meets (Notifies t)) : (i.act.bind (i.next f)).Meets (Notifies t) := by
  refine Silent.meets hact fun out => ?_
  cases out with
  | none => trivial
  | some r => exact Silent.meets (hfin r) fun _ => hf r

theorem silent_op {α : Type} {k : x.Res → LockCode α} (hx : ∀ q v, x ≠ .queue q (.push v)) (hk : ∀ r, Silent (k r)) :
    Silent (.op x k) := ⟨hx, hk⟩

theorem silent_queue {α : Type} {a : QueueAccess q.Elem} {k : a.Res → LockCode α} (ha : ∀ v, a ≠ .push v)
    (hk : ∀ r, Silent (k r)) : Silent (.op (.queue q a) k) := by
  refine silent_op (fun q' v h => ?_) hk
  cases h
  exact ha v rfl

theorem silent_ite {α : Type} {c : Prop} [Decidable c] {p p' : LockCode α} (hp : Silent p) (hp' : Silent p') :
    Silent (if c then p else p') := by
  split
  · exact hp
  · exact hp'

theorem silent_unlock {m : Mutex} : Silent (.op (.unlock t m) .ret) := silent_op (by simp) fun _ => trivial

theorem silent_returns {α : Type} {a : α} : Silent (returns a).act := silent_op (by simp) fun _ => trivial

theorem silent_put {p : Pool} {k : p.Key} {v : p.Val} : Silent (p.put t k v).act :=
  silent_op (by simp) fun _ => silent_op (by simp) fun _ => trivial

theorem silent_lookup {p : Pool} {k : p.Key} : Silent (p.lookup t k).act :=
  silent_op (by simp) fun _ => silent_op (by simp) fun _ => silent_ite (silent_op (by simp) fun _ => trivial) trivial

theorem silent_del {p : Pool} {k : p.Key} : Silent (p.del t k).act :=
  silent_op (by simp) fun _ => silent_op (by simp) fun _ => silent_ite (silent_op (by simp) fun _ => trivial) trivial

theorem silent_WaitAndPop : Silent (q.WaitAndPop t).act :=
  silent_op (by simp) fun _ => silent_queue (by simp) fun _ => silent_ite (silent_op (by simp) fun _ => trivial)
    (silent_queue (by simp) fun _ => silent_queue (by simp) fun _ => trivial)

theorem silent_drain (n : Nat) : Silent (q.drain n) := by
  induction n with
  | zero => exact silent_queue (by simp) fun _ => trivial
  | succ n ih => exact silent_queue (by simp) fun _ => silent_ite trivial (silent_queue (by simp) fun _ => ih)

theorem silent_calls {o : Op} : Silent (calls o).act := silent_op (by simp) fun _ => trivial

theorem notifies_push {v : q.Elem} {f : Unit → LockCode Unit} (hf : ∀ r, (f r).Meets (Notifies t)) :
    ((q.Push t v).act.bind ((q.Push t v).next f)).Meets (Notifies t) := by
  refine fun _ => ⟨by simp [Notifies], fun _ => ⟨?_, fun _ => ⟨by simp [Notifies], fun _ => ?_⟩⟩⟩
  · intro q' v' h
    cases h
    exact ⟨_, _, rfl, rfl⟩
  · exact ⟨by simp [Notifies], hf ()⟩

theorem notifies_locked {o : Op} {f : o.Res → LockCode Unit} (hf : ∀ r, (f r).Meets (Notifies t)) :
    ((locked t o).act.bind ((locked t o).next f)).Meets (Notifies t) := by
  cases o with
  | addSendTask | pushRecvSocket => exact notifies_push hf
  | setChallengeMp | setUserIdByToken | setFileMsg => exact silent_impl silent_put (fun _ => silent_unlock) hf
  | getChallengeMp | getFileMsg => exact silent_impl silent_lookup (fun _ => silent_unlock) hf
  | delChallengeMp | delFileMsg => exact silent_impl silent_del (fun _ => silent_unlock) hf
  | WaitAndPop | popRecvSocket => exact silent_impl silent_WaitAndPop (fun _ => silent_unlock) hf
  | getUserIdByToken token =>
    by_cases htoken : token = []
    · rw [show locked t (.getUserIdByToken token) = returns 0 from if_pos htoken]
      exact silent_impl silent_returns (fun _ => trivial) hf
    · rw [show locked t (.getUserIdByToken token) = Pool.lookup t .token_pool token from if_neg htoken]
      exact silent_impl silent_lookup (fun _ => silent_unlock) hf
  | getSender id =>
    by_cases hid : id = 0
    · rw [show locked t (.getSender id) = returns false from if_pos hid]
      exact silent_impl silent_returns (fun _ => trivial) hf
    · rw [show locked t (.getSender id) = guarded t .keepalive_sender_mp _ from if_neg hid]
      refine silent_impl (silent_op (by simp) fun _ => silent_op (by simp) fun _ => ?_) (fun _ => silent_unlock) hf
      exact silent_ite (silent_op (by simp) fun _ => trivial) trivial
  | setFd uid fd =>
    refine silent_impl (silent_op (by simp) fun _ => silent_op (by simp) fun _ => ?_) (fun _ => silent_unlock) hf
    refine silent_ite (silent_op (by simp) fun _ => silent_op (by simp) fun _ => ?_) ?_
    · exact silent_op (by simp) fun _ => trivial
    · exact silent_op (by simp) fun _ => trivial
  | Clear uid =>
    refine silent_impl (silent_op (by simp) fun _ => silent_op (by simp) fun _ => ?_) (fun _ => ?_) hf
    · exact silent_queue (by simp) silent_drain
    · exact silent_op (by simp) fun _ => silent_unlock
  | lock uid =>
    exact silent_impl (silent_op (by simp) fun _ => silent_op (by simp) fun _ => trivial) (fun _ => trivial) hf
  | unlock uid => exact silent_impl (silent_op (by simp) fun _ => trivial) (fun _ => trivial) hf
  | Send | Recv | close =>
    cases t with
    | sender uid => exact silent_impl (silent_op (by simp) fun _ => silent_calls) (fun _ => trivial) hf
    | acceptor | worker => exact silent_impl silent_calls (fun _ => trivial) hf
  | _ => exact silent_impl silent_calls (fun _ => trivial) hf

theorem notifies_implement (p : Code Unit) : (p.implement (locked t)).Meets (Notifies t) := by
  induction p with
  | ret | terminate => trivial
  | op o k ih => exact notifies_locked ih

/-! ## One step -/

/-- Who sleeps slept before, or went to sleep now. -/
theorem asleep_step {r : x.Res} (hs : σ.step x r = some σ') (h : σ'.asleep q u = true) :
    (σ.asleep q u = true ∨ ∃ t, x = .wait t q) ∧ x ≠ .notify_all q := by
  cases x with
  | lock t m =>
    simp only [LockState.step, Option.ite_none_right_eq_some] at hs
    obtain rfl := Option.some.inj hs.2
    simp only [LockState.lockedBy, Bool.and_eq_true] at h
    exact ⟨.inl h.1, by simp⟩
  | unlock t m =>
    simp only [LockState.step, Option.ite_none_right_eq_some] at hs
    obtain rfl := Option.some.inj hs.2
    exact ⟨.inl h, by simp⟩
  | wait t q' =>
    simp only [LockState.step, Option.ite_none_right_eq_some] at hs
    obtain rfl := Option.some.inj hs.2
    simp only [LockState.asleepAt, LockState.unlocked, Bool.or_eq_true, decide_eq_true_eq] at h
    rcases h with h | ⟨rfl, -⟩
    · exact ⟨.inl h, by simp⟩
    · exact ⟨.inr ⟨t, rfl⟩, by simp⟩
  | notify_all q' =>
    obtain rfl := Option.some.inj hs
    simp only [LockState.notified, Bool.and_eq_true, bne_iff_ne, ne_eq] at h
    refine ⟨.inl h.1, fun he => ?_⟩
    cases he
    exact h.2 rfl
  | skip =>
    obtain rfl := Option.some.inj hs
    exact ⟨.inl h, by simp⟩
  | queue q' a =>
    simp only [LockState.step, Option.bind_eq_some_iff, Option.map_eq_some_iff] at hs
    obtain ⟨ql, -, ql', -, rfl⟩ := hs
    exact ⟨.inl h, by simp⟩
  | pool | senders | fd | setFd | call =>
    simp only [LockState.step, Option.map_eq_some_iff] at hs
    obtain ⟨d, -, rfl⟩ := hs
    exact ⟨.inl h, by simp⟩

/-- There is something in the queue. -/
def Waiting (σ : LockState) (q : Queue) : Prop := ∃ v l, q.get σ.data = some (v :: l)

theorem Waiting.of_val {d : State} (hd : d.val (.queue q) = σ.data.val (.queue q)) (h : Waiting (σ.withData d) q) :
    Waiting σ q := by
  obtain ⟨v, l, hv⟩ := h
  exact ⟨v, l, hd.symm.trans hv⟩

/-- Something is there that was not: somebody pushed. -/
theorem waiting_step {r : x.Res} (hpre : Pre t σ x) (hs : σ.step x r = some σ') (h : Waiting σ' q) :
    Waiting σ q ∨ ∃ v, x = .queue q (.push v) := by
  cases x with
  | lock | unlock | wait =>
    simp only [LockState.step, Option.ite_none_right_eq_some] at hs
    obtain rfl := Option.some.inj hs.2
    exact .inl h
  | notify_all | skip =>
    obtain rfl := Option.some.inj hs
    exact .inl h
  | pool p a =>
    simp only [LockState.step, Option.map_eq_some_iff] at hs
    obtain ⟨f, -, rfl⟩ := hs
    exact .inl (h.of_val ((touches_pool p σ.data f).others _ (by simp)))
  | senders a =>
    simp only [LockState.step, Option.map_eq_some_iff] at hs
    obtain ⟨d, hd, rfl⟩ := hs
    cases a with
    | find | sender =>
      simp only [LockState.onSenders, Option.ite_none_right_eq_some] at hd
      obtain rfl := Option.some.inj hd.2
      exact .inl h
    | make_unique uid fd =>
      obtain rfl := Option.some.inj hd
      by_cases hq : q = .msg_queue_ uid
      · subst hq
        obtain ⟨v, l, hv⟩ := h
        simp [LockState.withData, Queue.get] at hv
      · exact .inl (h.of_val (val_withSender (by simp) (by simp) (by simpa using hq)))
  | fd uid =>
    obtain ⟨d, hd, rfl⟩ := Option.map_eq_some_iff.mp hs
    obtain ⟨⟨fd, ql, b⟩, hsnd, hd⟩ := Option.bind_eq_some_iff.mp hd
    obtain ⟨snd', hf, rfl⟩ := Option.map_eq_some_iff.mp hd
    obtain rfl := Option.some.inj (Option.ite_none_right_eq_some.mp hf).2
    exact .inl (h.of_val ((touches_sender fd b hsnd).others _ (by simp)))
  | setFd uid fd' =>
    obtain ⟨d, hd, rfl⟩ := Option.map_eq_some_iff.mp hs
    obtain ⟨⟨fd, ql, b⟩, hsnd, hd⟩ := Option.bind_eq_some_iff.mp hd
    obtain ⟨snd', hf, rfl⟩ := Option.map_eq_some_iff.mp hd
    obtain rfl := Option.some.inj hf
    exact .inl (h.of_val ((touches_sender fd' b hsnd).others _ (by simp)))
  | queue q' a =>
    simp only [LockState.step, Option.bind_eq_some_iff, Option.map_eq_some_iff] at hs
    obtain ⟨ql, hql, ql', ha, rfl⟩ := hs
    by_cases hq : q = q'
    · subst hq
      obtain ⟨v, l, hv⟩ := h
      have hv : ql' = v :: l := Option.some.inj ((Queue.get_set hql ql').symm.trans hv)
      subst hv
      cases a with
      | push w => exact .inr ⟨w, rfl⟩
      | size | empty | front =>
        simp only [QueueAccess.step, Option.ite_none_right_eq_some] at ha
        obtain rfl := Option.some.inj ha.2
        exact .inl ⟨v, l, hql⟩
      | pop =>
        simp only [QueueAccess.step, Option.ite_none_left_eq_some] at ha
        obtain ⟨w, ql, rfl⟩ := List.exists_cons_of_ne_nil ha.1
        exact .inl ⟨w, ql, hql⟩
    · exact .inl (h.of_val ((touches_queue q' σ.data ql').others _ (by simpa using hq)))
  | call o =>
    obtain ⟨d, hd, rfl⟩ := Option.map_eq_some_iff.mp hs
    rw [step_outside hpre hd] at h
    exact .inl (h.of_val val_withWorld)

/-! ## Every run -/

/-- `p` is about to notify, or to unlock and then to notify. -/
def AboutToNotify (c' : LockConfig) (p : Tid) (q : Queue) : Prop :=
  Next c' p (.notify_all q) ∨
    ∃ k k', (c'.threads p).rest = .op (.unlock p (.queue q)) k ∧ k () = .op (.notify_all q) k'

theorem AboutToNotify.step {e : Interleave.Event Tid LockOp LockOp.Res} {p : Tid} (h : AboutToNotify c' p q)
    (hs : (lockedServer SHA256).Step c' e c₁) (he : e.act.op ≠ .notify_all q) : AboutToNotify c₁ p q := by
  cases hs with
  | @mk t o k r σ' hrun hrest hstep =>
    by_cases hp : p = t
    · subst hp
      rcases h with ⟨k', hk'⟩ | ⟨k', k'', hk', hnext⟩
      · obtain ⟨rfl, -⟩ := Prog.op.inj (hk'.symm.trans hrest)
        exact absurd rfl he
      · obtain ⟨rfl, hk⟩ := Prog.op.inj (hk'.symm.trans hrest)
        obtain rfl := eq_of_heq hk
        refine .inl ⟨k'', ?_⟩
        simp [Machine.after, hnext, Machine.resume]
    · unfold AboutToNotify Next
      simp only [Machine.after, Function.update_of_ne hp]
      exact h

/-- Whoever sleeps while something is in the queue is about to be woken. -/
def NoLostWakeup (c' : LockConfig) : Prop :=
  ∀ q u, c'.state.asleep q u = true → Waiting c'.state q → ∃ p, AboutToNotify c' p q

/-- **No wake-up is lost.** -/
theorem no_lost_wakeup (h : (lockedServer SHA256).Reachable (.of (.boot file disk)) c') : NoLostWakeup c' := by
  refine h.invariant NoLostWakeup (fun q u hu => by cases hu) fun c' e c₁ hr hi hs _ q u hu hw => ?_
  have hrun := hs.running
  obtain ⟨c, -, hc⟩ := coupled_of_boot hr
  have hpath := hr.path e.tid
  have hs' := hs
  cases hs with
  | @mk t o k r σ' _ hrest hstep =>
    have hmeets := notifies_implement (t := t) ((server SHA256).body t)
    have hpre : Pre t c'.state o := hc.pre hrun hrest
    obtain ⟨hslept, hne⟩ := asleep_step hstep hu
    rcases waiting_step hpre hstep hw with hbefore | ⟨v, rfl⟩
    · rcases hslept with hslept | ⟨t', rfl⟩
      · obtain ⟨p, hp⟩ := hi q u hslept hbefore
        exact ⟨p, hp.step hs' hne⟩
      · -- it went to sleep on an empty queue
        obtain ⟨-, -, hempty⟩ := hpre
        obtain ⟨w, l, hw⟩ := hbefore
        rw [hempty] at hw
        cases hw
    · rw [hrest] at hpath
      obtain ⟨k', k'', hk, hk'⟩ := hmeets.path (hpath.snoc r) q v rfl
      refine ⟨t, .inr ⟨k', k'', ?_, hk'⟩⟩
      simp [Machine.after, hk, Machine.resume]

/-- Worker 0 sleeps, a descriptor is queued and the accepting thread is about to notify. -/
theorem no_lost_wakeup_sleeps : ∃ c', c'.state.asleep .RecvSocketQueue_ (.worker 0) = true ∧
    c'.state.data.RecvSocketQueue = [5] ∧ NoLostWakeup c' := by
  obtain ⟨c', hr, -, hasleep, -, -, hqueue⟩ := reachable_sleeps
  exact ⟨c', hasleep, hqueue, no_lost_wakeup hr⟩

end NetChat
