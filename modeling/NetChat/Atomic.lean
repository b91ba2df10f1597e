/-
The functions under locks, step by step. Each takes effect at its last access, under
its locks; until then it only looked, or emptied a queue that it alone can see, and
what is left then is to unlock and to notify. First a rule for each kind of step, then
the functions, and how they take effect.
-/
import NetChat.Holding

namespace NetChat

open Interleave Prog Server

variable {SHA256 : Bytes → Bytes} {t : Tid} {L : Holding} {σ : LockState} {s s' : State} {l : List Entry} {o : Op}
  {m : Mutex} {v u : m.Val}

/-! ## The rules -/

section
variable {α : Type} {Q : α → LockState → State → Prop}

/-- A step of a thread that holds `L`. -/
theorem along_seen {sees : α → Option Entry} {x : LockOp} {k : x.Res → LockCode α} (hi : Agree σ s) (hL : Owns t L σ s)
    (hx : ∀ r, lockCalls? ⟨x, r⟩ = Coupling.shows sees (k r))
    (h : ∀ σ₁ s₁, Relies t (σ, s) (σ₁, s₁) → Agree σ₁ s₁ → Owns t L σ₁ s₁ → Pre t σ₁ x ∧
      ∀ r σ₂, σ₁.step x r = some σ₂ → (∀ t', t' ≠ t → Relies t' (σ₁, s₁) (σ₂, s₁)) ∧
        (locking SHA256).Along t sees Q (k r) σ₂ s₁) : (locking SHA256).Along t sees Q (.op x k) σ s := by
  refine ⟨hi, fun σ₁ s₁ hr h₁ => ?_⟩
  obtain ⟨hpre, hstep⟩ := h σ₁ s₁ hr h₁ (hL.rely hr)
  refine ⟨hpre, fun r σ₂ hs => ?_⟩
  obtain ⟨hk, ha⟩ := hstep r σ₂ hs
  exact ⟨hx r, hk, ha⟩

/-- One nothing of which is seen. -/
theorem along_op {x : LockOp} {k : x.Res → LockCode α} (hi : Agree σ s) (hL : Owns t L σ s)
    (hx : ∀ r, lockCalls? ⟨x, r⟩ = none)
    (h : ∀ σ₁ s₁, Relies t (σ, s) (σ₁, s₁) → Agree σ₁ s₁ → Owns t L σ₁ s₁ → Pre t σ₁ x ∧
      ∀ r σ₂, σ₁.step x r = some σ₂ → (∀ t', t' ≠ t → Relies t' (σ₁, s₁) (σ₂, s₁)) ∧
        (locking SHA256).Along t (fun _ => none) Q (k r) σ₂ s₁) :
    (locking SHA256).Along t (fun _ => none) Q (.op x k) σ s :=
  along_seen hi hL (fun r => (hx r).trans (Coupling.shows_none _).symm) h

theorem along_lock {k : Unit → LockCode α} (hi : Agree σ s) (hL : Owns t L σ s) (hrank : ∀ e ∈ L, e.1.rank < m.rank)
    (hhas : ∀ σ₁ s₁, Relies t (σ, s) (σ₁, s₁) → Owns t L σ₁ s₁ →
      (σ₁.started t = true ∨ ∃ m', σ₁.holder m' = some t) → σ₁.data.has m = true)
    (hk : ∀ v σ₁ s₁, Agree σ₁ s₁ → Owns t (⟨m, v, v⟩ :: L) σ₁ s₁ →
      (locking SHA256).Along t (fun _ => none) Q (k ()) σ₁ s₁) :
    (locking SHA256).Along t (fun _ => none) Q (.op (.lock t m) k) σ s := by
  refine along_op hi hL (fun _ => rfl) fun σ₁ s₁ hr h₁ hL₁ => ⟨⟨rfl, fun m' hm' => ?_, hhas σ₁ s₁ hr hL₁⟩, ?_⟩
  · obtain ⟨e, he, rfl⟩ := (hL₁.holder m').mp hm'
    exact hrank e he
  · intro r σ₂ hs
    simp only [LockState.step, Option.ite_none_right_eq_some] at hs
    obtain ⟨⟨hfree, hhas⟩, hs⟩ := hs
    obtain rfl := Option.some.inj hs
    obtain ⟨hk', h₂, hL₂⟩ := hL₁.take (σ₁.lockedBy t m) h₁ hfree hhas rfl rfl
    exact ⟨hk', hk _ _ _ h₂ hL₂⟩

theorem along_unlock {k : Unit → LockCode α} (hi : Agree σ s) (hL : Owns t (⟨m, v, v⟩ :: L) σ s)
    (hLm : ∀ e ∈ L, e.1 ≠ m)
    (hk : ∀ σ₁ s₁, (∀ m', σ.data.has m' = true → σ₁.data.has m' = true) → Agree σ₁ s₁ → Owns t L σ₁ s₁ →
      (locking SHA256).Along t (fun _ => none) Q (k ()) σ₁ s₁) :
    (locking SHA256).Along t (fun _ => none) Q (.op (.unlock t m) k) σ s := by
  refine along_op hi hL (fun _ => rfl) fun σ₁ s₁ hr h₁ hL₁ => ⟨⟨rfl, hL₁.held⟩, fun r σ₂ hs => ?_⟩
  simp only [LockState.step, Option.ite_none_right_eq_some] at hs
  obtain rfl := Option.some.inj hs.2
  obtain ⟨hk', h₂, hL₂⟩ := hL₁.drop (σ₁.unlocked m) h₁ hLm rfl rfl
  exact ⟨hk', hk _ _ hr.has h₂ hL₂⟩

theorem along_skip {k : Unit → LockCode α} (hi : Agree σ s) (hL : Owns t L σ s)
    (hk : ∀ σ₁ s₁, Agree σ₁ s₁ → Owns t L σ₁ s₁ → (locking SHA256).Along t (fun _ => none) Q (k ()) σ₁ s₁) :
    (locking SHA256).Along t (fun _ => none) Q (.op .skip k) σ s := by
  refine along_op hi hL (fun _ => rfl) fun σ₁ s₁ hr h₁ hL₁ => ⟨trivial, fun r σ₂ hs => ?_⟩
  obtain rfl := Option.some.inj hs
  exact ⟨fun t' _ => .refl t' _, hk _ _ h₁ hL₁⟩

/-- Only who sleeps changes. -/
theorem Owns.awake (hL : Owns t L σ s) (hi : Agree σ s) (asleep : Queue → Tid → Bool) :
    (∀ t', t' ≠ t → Relies t' (σ, s) ({ σ with asleep }, s)) ∧ Agree { σ with asleep } s ∧
      Owns t L { σ with asleep } s :=
  ⟨fun _ _ => ⟨fun _ => Iff.rfl, fun _ _ => rfl, fun _ _ => rfl, fun _ h => h⟩, ⟨hi.1, hi.2, hi.3, hi.4, hi.5⟩,
    ⟨hL.1, hL.2, hL.3⟩⟩

theorem along_notify {q : Queue} {k : Unit → LockCode α} (hi : Agree σ s) (hL : Owns t L σ s)
    (hk : ∀ σ₁ s₁, Agree σ₁ s₁ → Owns t L σ₁ s₁ → (locking SHA256).Along t (fun _ => none) Q (k ()) σ₁ s₁) :
    (locking SHA256).Along t (fun _ => none) Q (.op (.notify_all q) k) σ s := by
  refine along_op hi hL (fun _ => rfl) fun σ₁ s₁ hr h₁ hL₁ => ⟨trivial, fun r σ₂ hs => ?_⟩
  obtain rfl := Option.some.inj hs
  obtain ⟨hk', h₂, hL₂⟩ := hL₁.awake h₁ fun q' u => σ₁.asleep q' u && q' != q
  exact ⟨hk', hk _ _ h₂ hL₂⟩

theorem along_wait {q : Queue} {k : Unit → LockCode α} (hi : Agree σ s)
    (hL : Owns t [⟨.queue q, some [], some []⟩] σ s)
    (hk : ∀ σ₁ s₁, Agree σ₁ s₁ → Owns t [] σ₁ s₁ → (locking SHA256).Along t (fun _ => none) Q (k ()) σ₁ s₁) :
    (locking SHA256).Along t (fun _ => none) Q (.op (.wait t q) k) σ s := by
  refine along_op hi hL (fun _ => rfl) fun σ₁ s₁ hr h₁ hL₁ => ⟨⟨rfl, hL₁.held, hL₁.val⟩, fun r σ₂ hs => ?_⟩
  simp only [LockState.step, Option.ite_none_right_eq_some] at hs
  obtain rfl := Option.some.inj hs.2
  obtain ⟨hk', h₂, hL₂⟩ := hL₁.drop (σ₁.asleepAt t q) h₁ (by simp) rfl rfl
  exact ⟨hk', hk _ _ h₂ hL₂⟩

/-- An access to what is behind a mutex that is held, but a sender's. -/
theorem along_access {x : LockOp} {k : x.Res → LockCode α} (hi : Agree σ s) (hL : Owns t (⟨m, v, u⟩ :: L) σ s)
    (hx : ∀ r, lockCalls? ⟨x, r⟩ = none) (hLm : ∀ e ∈ L, e.1 ≠ m) (hm : m ≠ .keepalive_sender_mp)
    (hmu : ∀ uid, m ≠ .mu_ uid) (hpre : ∀ σ₁ s₁, Owns t (⟨m, v, u⟩ :: L) σ₁ s₁ → Pre t σ₁ x)
    (hstep : ∀ (σ₁ : LockState) r σ₂, σ₁.data.val m = v → σ₁.step x r = some σ₂ →
      ∃ d, σ₂ = σ₁.withData d ∧ Touches m σ₁.data d ∧ ∀ σ₃ s₃, Agree σ₃ s₃ → Owns t (⟨m, d.val m, u⟩ :: L) σ₃ s₃ →
        (locking SHA256).Along t (fun _ => none) Q (k r) σ₃ s₃) :
    (locking SHA256).Along t (fun _ => none) Q (.op x k) σ s := by
  refine along_op hi hL hx fun σ₁ s₁ hr h₁ hL₁ => ⟨hpre σ₁ s₁ hL₁, fun r σ₂ hs => ?_⟩
  obtain ⟨d, rfl, hw, hk⟩ := hstep σ₁ r σ₂ hL₁.val hs
  obtain ⟨hk', h₂, hL₂⟩ := hL₁.access h₁ hLm hm hw fun uid y hy =>
    h₁.unlocked uid y ((hw.others _ (hmu uid).symm).symm.trans hy)
  exact ⟨hk', hk _ _ h₂ hL₂⟩

theorem touches_pool (p : Pool) (s : State) (f : p.Key → Option p.Val) : Touches (.pool p) s (p.set s f) where
  world := by cases p <;> rfl
  others := by
    intro m hm
    cases m with
    | pool p' => cases p <;> cases p' <;> first | rfl | exact absurd rfl hm
    | queue q => cases p <;> cases q <;> rfl
    | _ => cases p <;> rfl

@[simp] theorem Pool.get_set (p : Pool) (s : State) (f : p.Key → Option p.Val) : p.get (p.set s f) = f := by
  cases p <;> rfl

theorem along_pool {p : Pool} {a : MapAccess p.Key p.Val} {k : a.Res → LockCode α} {f g : p.Key → Option p.Val}
    (hi : Agree σ s) (hL : Owns t [⟨.pool p, f, g⟩] σ s) (hread : ∀ key, a = .read key → (f key).isSome = true)
    (hk : ∀ r f' σ₁ s₁, a.step f r = some f' → Agree σ₁ s₁ → Owns t [⟨.pool p, f', g⟩] σ₁ s₁ →
      (locking SHA256).Along t (fun _ => none) Q (k r) σ₁ s₁) :
    (locking SHA256).Along t (fun _ => none) Q (.op (.pool p a) k) σ s := by
  refine along_access hi hL (fun _ => rfl) (by simp) (by simp) (by simp) (fun σ₁ s₁ h => ⟨h.held, fun key ha => ?_⟩) ?_
  · have hv : p.get σ₁.data = f := h.val
    rw [hv]
    exact hread key ha
  · intro σ₁ r σ₂ hv hs
    simp only [LockState.step, Option.map_eq_some_iff] at hs
    obtain ⟨f', hs, rfl⟩ := hs
    have hv : p.get σ₁.data = f := hv
    rw [hv] at hs
    refine ⟨_, rfl, touches_pool p _ f', fun σ₃ s₃ h₃ hL₃ => hk r f' σ₃ s₃ hs h₃ ?_⟩
    have hval : (p.set σ₁.data f').val (.pool p) = f' := p.get_set _ _
    rwa [hval] at hL₃

theorem touches_queue (q : Queue) (s : State) (ql : List q.Elem) : Touches (.queue q) s (q.set s ql) where
  world := by cases q <;> rfl
  others := by
    intro m hm
    cases q with
    | RecvSocketQueue_ =>
      cases m with
      | pool p => cases p <;> rfl
      | queue q =>
        cases q with
        | msg_queue_ => rfl
        | RecvSocketQueue_ => exact absurd rfl hm
      | _ => rfl
    | msg_queue_ uid =>
      cases m with
      | pool p => cases p <;> rfl
      | keepalive_sender_mp =>
        funext uid'
        by_cases hu : uid' = uid <;> simp [State.val, Queue.set, hu]
      | mu_ uid' =>
        by_cases hu : uid' = uid
        · simp [State.val, Queue.set, hu, Function.comp_def]
        · simp [State.val, Queue.set, hu]
      | queue q =>
        cases q with
        | RecvSocketQueue_ => rfl
        | msg_queue_ uid' =>
          have hu : uid' ≠ uid := fun h => hm (by rw [h])
          simp [State.val, Queue.get, Queue.set, hu]

theorem Queue.get_set {q : Queue} {s : State} {ql : List q.Elem} (h : q.get s = some ql) (ql' : List q.Elem) :
    q.get (q.set s ql') = some ql' := by
  cases q with
  | RecvSocketQueue_ => rfl
  | msg_queue_ uid =>
    obtain ⟨snd, hsnd, -⟩ := Option.map_eq_some_iff.mp h
    simp [Queue.get, Queue.set, hsnd]

theorem Queue.get_of_has {q : Queue} (h : s.has (.queue q) = true) : ∃ ql, q.get s = some ql := by
  cases q with
  | RecvSocketQueue_ => exact ⟨_, rfl⟩
  | msg_queue_ uid =>
    obtain ⟨snd, hsnd⟩ := Option.isSome_iff_exists.mp h
    exact ⟨snd.msg_queue_, by rw [Queue.get, hsnd, Option.map_some]⟩

/-- The queue is there while its mutex is held. -/
theorem Owns.queue {q : Queue} {v u : (Mutex.queue q).Val} (h : Owns t (⟨.queue q, v, u⟩ :: L) σ s) (hi : Agree σ s) :
    ∃ ql, v = some ql := by
  obtain ⟨ql, hql⟩ := Queue.get_of_has (hi.has _ _ h.held)
  exact ⟨ql, h.val.symm.trans hql⟩

/-- So is a sender, and no `run` has it locked. -/
theorem Owns.mu {uid : Int32} {v u : (Mutex.mu_ uid).Val} (h : Owns t (⟨.mu_ uid, v, u⟩ :: L) σ s) (hi : Agree σ s) :
    ∃ fd, v = some (fd, false) := by
  have hv : (σ.data.keepalive_sender_mp uid).map (fun snd => (snd.fd_, snd.locked)) = v := h.val
  obtain ⟨snd, hsnd⟩ := Option.isSome_iff_exists.mp (hi.has _ _ h.held)
  rw [hsnd, Option.map_some] at hv
  have hx : snd.locked = false := hi.unlocked uid _ (h.val.trans hv.symm)
  exact ⟨snd.fd_, by rw [← hv, hx]⟩

theorem along_queue {q : Queue} {a : QueueAccess q.Elem} {k : a.Res → LockCode α} {ql : List q.Elem}
    {u : (Mutex.queue q).Val} (hi : Agree σ s) (hL : Owns t (⟨.queue q, some ql, u⟩ :: L) σ s)
    (hLm : ∀ e ∈ L, e.1 ≠ .queue q) (hpop : a = .front ∨ a = .pop → ql ≠ [])
    (hk : ∀ r ql' σ₁ s₁, a.step ql r = some ql' → Agree σ₁ s₁ → Owns t (⟨.queue q, some ql', u⟩ :: L) σ₁ s₁ →
      (locking SHA256).Along t (fun _ => none) Q (k r) σ₁ s₁) :
    (locking SHA256).Along t (fun _ => none) Q (.op (.queue q a) k) σ s := by
  refine along_access hi hL (fun _ => rfl) hLm (by simp) (by simp) (fun σ₁ s₁ h => ⟨h.held, fun ha => ?_⟩) ?_
  · obtain ⟨x, ql₁, rfl⟩ := List.exists_cons_of_ne_nil (hpop ha)
    exact ⟨x, ql₁, h.val⟩
  · intro σ₁ r σ₂ hv hs
    have hv : q.get σ₁.data = some ql := hv
    simp only [LockState.step, hv, Option.bind_some, Option.map_eq_some_iff] at hs
    obtain ⟨ql', hs, rfl⟩ := hs
    refine ⟨_, rfl, touches_queue q _ ql', fun σ₃ s₃ h₃ hL₃ => hk r ql' σ₃ s₃ hs h₃ ?_⟩
    have hval : (q.set σ₁.data ql').val (.queue q) = some ql' := Queue.get_set hv ql'
    rwa [hval] at hL₃

/-- A look into the map of the senders. -/
theorem along_find {uid : Int32} {k : Bool → LockCode α} {f g : Int32 → Bool} (hi : Agree σ s)
    (hL : Owns t [⟨.keepalive_sender_mp, f, g⟩] σ s)
    (hk : ∀ σ₁ s₁, Agree σ₁ s₁ → Owns t [⟨.keepalive_sender_mp, f, g⟩] σ₁ s₁ →
      (locking SHA256).Along t (fun _ => none) Q (k (f uid)) σ₁ s₁) :
    (locking SHA256).Along t (fun _ => none) Q (.op (.senders (.find uid)) k) σ s := by
  refine along_op hi hL (fun _ => rfl) fun σ₁ s₁ hr h₁ hL₁ => ⟨⟨hL₁.held, by simp, by simp⟩, fun r σ₂ hs => ?_⟩
  have hv := congrFun hL₁.val uid
  simp only [State.val] at hv
  simp only [LockState.step, LockState.onSenders, map_guard, Option.ite_none_right_eq_some, Option.some.injEq] at hs
  obtain ⟨rfl, rfl⟩ := hs
  rw [hv]
  exact ⟨fun t' _ => .refl t' _, hk _ _ h₁ hL₁⟩

theorem along_sender {uid : Int32} {k : Unit → LockCode α} {f g : Int32 → Bool} (hi : Agree σ s)
    (hL : Owns t [⟨.keepalive_sender_mp, f, g⟩] σ s) (hf : f uid = true)
    (hk : ∀ σ₁ s₁, Agree σ₁ s₁ → Owns t [⟨.keepalive_sender_mp, f, g⟩] σ₁ s₁ →
      (locking SHA256).Along t (fun _ => none) Q (k ()) σ₁ s₁) :
    (locking SHA256).Along t (fun _ => none) Q (.op (.senders (.sender uid)) k) σ s := by
  refine along_op hi hL (fun _ => rfl) fun σ₁ s₁ hr h₁ hL₁ => ⟨⟨hL₁.held, ?_, by simp⟩, fun r σ₂ hs => ?_⟩
  · intro uid' h
    cases h
    exact (congrFun hL₁.val uid).trans hf
  · simp only [LockState.step, LockState.onSenders, map_guard, Option.ite_none_right_eq_some, Option.some.injEq] at hs
    obtain ⟨-, rfl⟩ := hs
    exact ⟨fun t' _ => .refl t' _, hk _ _ h₁ hL₁⟩

/-- What a sender holds under its `mu_`. -/
theorem val_mu {uid : Int32} {x : Int32 × Bool} :
    s.val (.mu_ uid) = some x ↔ ∃ q, s.keepalive_sender_mp uid = some ⟨x.1, q, x.2⟩ := by
  simp only [State.val, Option.map_eq_some_iff]
  constructor
  · rintro ⟨⟨fd, q, b⟩, hsnd, rfl⟩
    exact ⟨q, hsnd⟩
  · rintro ⟨q, hsnd⟩
    exact ⟨_, hsnd, rfl⟩

/-- `s` with `snd` for the sender of `uid`. -/
abbrev State.withSender (s : State) (uid : Int32) (snd : Sender) : State :=
  { s with keepalive_sender_mp := Function.update s.keepalive_sender_mp uid (some snd) }

theorem onSender_eq {uid : Int32} {snd : Sender} (h : s.keepalive_sender_mp uid = some snd)
    (f : Sender → Option Sender) : s.onSender uid f = (f snd).map (s.withSender uid) := by
  rw [State.onSender, h, Option.bind_some]

/-- What is not the sender's is as it was. -/
theorem val_withSender {uid : Int32} {snd : Sender} (hmp : m ≠ .keepalive_sender_mp) (hmu : m ≠ .mu_ uid)
    (hq : m ≠ .queue (.msg_queue_ uid)) : (s.withSender uid snd).val m = s.val m := by
  cases m with
  | pool p => cases p <;> rfl
  | keepalive_sender_mp => exact absurd rfl hmp
  | mu_ uid' =>
    have hu : uid' ≠ uid := fun h => hmu (by rw [h])
    simp [State.val, hu]
  | queue q =>
    cases q with
    | RecvSocketQueue_ => rfl
    | msg_queue_ uid' =>
      have hu : uid' ≠ uid := fun h => hq (by rw [h])
      simp [State.val, Queue.get, hu]

theorem touches_sender {uid fd : Int32} {q : List Packet} {b : Bool} (fd' : Int32) (b' : Bool)
    (h : s.keepalive_sender_mp uid = some ⟨fd, q, b⟩) : Touches (.mu_ uid) s (s.withSender uid ⟨fd', q, b'⟩) where
  world := rfl
  others := by
    intro m hm
    by_cases hmp : m = .keepalive_sender_mp
    · subst hmp
      funext uid'
      by_cases hu : uid' = uid <;> simp [State.val, hu, h]
    by_cases hq : m = .queue (.msg_queue_ uid)
    · subst hq
      simp [State.val, Queue.get, h]
    exact val_withSender hmp hm hq

theorem along_fd {sees : α → Option Entry} {uid fd : Int32} {b : Bool} {k : Int32 → LockCode α}
    {u : (Mutex.mu_ uid).Val} (hi : Agree σ s) (hL : Owns t [⟨.mu_ uid, some (fd, b), u⟩] σ s)
    (hsees : ∀ r, Coupling.shows sees (k r) = none)
    (hk : ∀ σ₁ s₁, Agree σ₁ s₁ → Owns t [⟨.mu_ uid, some (fd, b), u⟩] σ₁ s₁ →
      (locking SHA256).Along t sees Q (k fd) σ₁ s₁) : (locking SHA256).Along t sees Q (.op (.fd uid) k) σ s := by
  refine along_seen hi hL (fun r => (hsees r).symm) fun σ₁ s₁ hr h₁ hL₁ => ⟨hL₁.held, fun r σ₂ hs => ?_⟩
  obtain ⟨q, hsnd⟩ := val_mu.mp hL₁.val
  simp only [LockState.step, onSender_eq hsnd, map_guard, Option.ite_none_right_eq_some, Option.some.injEq] at hs
  obtain ⟨rfl, rfl⟩ := hs
  have hsame : ∀ snd : Sender, σ₁.data.keepalive_sender_mp uid = some snd →
      σ₁.withData (σ₁.data.withSender uid snd) = σ₁ := by
    intro snd h
    rw [State.withSender, ← h, Function.update_eq_self]
    rfl
  rw [hsame _ hsnd]
  exact ⟨fun t' _ => .refl t' _, hk _ _ h₁ hL₁⟩

theorem along_setFd {uid fd fd₀ : Int32} {k : Unit → LockCode α} {u : (Mutex.mu_ uid).Val} (hi : Agree σ s)
    (hL : Owns t (⟨.mu_ uid, some (fd₀, false), u⟩ :: L) σ s) (hLm : ∀ e ∈ L, e.1 ≠ .mu_ uid)
    (hk : ∀ σ₁ s₁, Agree σ₁ s₁ → Owns t (⟨.mu_ uid, some (fd, false), u⟩ :: L) σ₁ s₁ →
      (locking SHA256).Along t (fun _ => none) Q (k ()) σ₁ s₁) :
    (locking SHA256).Along t (fun _ => none) Q (.op (.setFd uid fd) k) σ s := by
  refine along_op hi hL (fun _ => rfl) fun σ₁ s₁ hr h₁ hL₁ => ⟨hL₁.held, fun r σ₂ hs => ?_⟩
  obtain ⟨q, hsnd⟩ := val_mu.mp hL₁.val
  simp only [LockState.step, onSender_eq hsnd, Option.map_some, Option.some.injEq] at hs
  subst hs
  have hw := touches_sender fd false hsnd
  obtain ⟨hk', h₂, hL₂⟩ := hL₁.access h₁ hLm (by simp) hw fun uid' y hy => by
    by_cases hu : uid' = uid
    · subst hu
      simp only [State.val, Function.update_self, Option.map_some, Option.some.injEq] at hy
      rw [← hy]
    · exact h₁.unlocked uid' y ((hw.others _ (by simp [hu])).symm.trans hy)
  refine ⟨hk', hk _ _ h₂ ?_⟩
  simpa [State.val] using hL₂

/-! ## The functions -/

theorem put_along {p : Pool} {key : p.Key} {val : p.Val} {Q : Option Unit → LockState → State → Prop} (hi : Agree σ s)
    (hL : Owns t [] σ s)
    (hQ : ∀ f σ₁ s₁, Agree σ₁ s₁ → Owns t [⟨.pool p, Function.update f key (some val), f⟩] σ₁ s₁ → Q (some ()) σ₁ s₁) :
    (locking SHA256).Along t (fun _ => none) Q (p.put t key val).act σ s := by
  refine along_lock hi hL (by simp) (fun _ _ _ _ _ => rfl) fun f σ₁ s₁ h₁ hL₁ => ?_
  refine along_pool h₁ hL₁ (by simp) fun _ f' σ₂ s₂ hs h₂ hL₂ => ?_
  obtain rfl := Option.some.inj hs
  exact hQ f σ₂ s₂ h₂ hL₂

theorem lookup_along {p : Pool} {key : p.Key} {Q : Option p.Val → LockState → State → Prop} (hi : Agree σ s)
    (hL : Owns t [] σ s)
    (hQ : ∀ f σ₁ s₁, Agree σ₁ s₁ → Owns t [⟨.pool p, f, f⟩] σ₁ s₁ → Q (some ((f key).getD default)) σ₁ s₁) :
    (locking SHA256).Along t (fun _ => none) Q (p.lookup t key).act σ s := by
  refine along_lock hi hL (by simp) (fun _ _ _ _ _ => rfl) fun f σ₁ s₁ h₁ hL₁ => ?_
  refine along_pool h₁ hL₁ (by simp) fun found f' σ₂ s₂ hs h₂ hL₂ => ?_
  simp only [MapAccess.step, Option.ite_none_right_eq_some, Option.some.injEq] at hs
  obtain ⟨rfl, rfl⟩ := hs
  cases hf : f key with
  | none =>
    have hq := hQ f σ₂ s₂ h₂ hL₂
    rw [hf] at hq
    exact hq
  | some val =>
    refine along_pool h₂ hL₂ (fun key' h => by cases h; simp [hf]) fun r f' σ₃ s₃ hs h₃ hL₃ => ?_
    simp only [MapAccess.step, hf, Option.getD_some, Option.ite_none_right_eq_some, Option.some.injEq] at hs
    obtain ⟨rfl, rfl⟩ := hs
    rw [← hf, Function.update_eq_self] at hL₃
    have hq := hQ f σ₃ s₃ h₃ hL₃
    rwa [hf] at hq

theorem del_along {p : Pool} {key : p.Key} {Q : Option Unit → LockState → State → Prop} (hi : Agree σ s)
    (hL : Owns t [] σ s)
    (hQ : ∀ f σ₁ s₁, Agree σ₁ s₁ → Owns t [⟨.pool p, Function.update f key none, f⟩] σ₁ s₁ → Q (some ()) σ₁ s₁) :
    (locking SHA256).Along t (fun _ => none) Q (p.del t key).act σ s := by
  refine along_lock hi hL (by simp) (fun _ _ _ _ _ => rfl) fun f σ₁ s₁ h₁ hL₁ => ?_
  refine along_pool h₁ hL₁ (by simp) fun found f' σ₂ s₂ hs h₂ hL₂ => ?_
  simp only [MapAccess.step, Option.ite_none_right_eq_some, Option.some.injEq] at hs
  obtain ⟨rfl, rfl⟩ := hs
  cases hf : f key with
  | none =>
    refine hQ f σ₂ s₂ h₂ ?_
    rwa [← hf, Function.update_eq_self]
  | some val =>
    refine along_pool h₂ hL₂ (by simp) fun _ f' σ₃ s₃ hs h₃ hL₃ => ?_
    obtain rfl := Option.some.inj hs
    exact hQ f σ₃ s₃ h₃ hL₃

theorem push_along {q : Queue} {val : q.Elem} {Q : Option Unit → LockState → State → Prop} (hi : Agree σ s)
    (hL : Owns t [] σ s) (hhas : σ.data.has (.queue q) = true)
    (hQ : ∀ ql σ₁ s₁, Agree σ₁ s₁ → Owns t [⟨.queue q, some (ql ++ [val]), some ql⟩] σ₁ s₁ → Q (some ()) σ₁ s₁) :
    (locking SHA256).Along t (fun _ => none) Q (q.Push t val).act σ s := by
  refine along_lock hi hL (by simp) (fun σ₁ s₁ hr _ _ => hr.has _ hhas) fun v σ₁ s₁ h₁ hL₁ => ?_
  obtain ⟨ql, rfl⟩ := hL₁.queue h₁
  refine along_queue h₁ hL₁ (by simp) (by simp) fun _ ql' σ₂ s₂ hs h₂ hL₂ => ?_
  obtain rfl := Option.some.inj hs
  exact hQ ql σ₂ s₂ h₂ hL₂

theorem pop_along {q : Queue} {Q : Option q.Elem → LockState → State → Prop} (hi : Agree σ s) (hL : Owns t [] σ s)
    (hhas : ∀ σ₁ s₁, Relies t (σ, s) (σ₁, s₁) → Owns t [] σ₁ s₁ → σ₁.started t = true → σ₁.data.has (.queue q) = true)
    (hnone : ∀ σ₁ s₁, Agree σ₁ s₁ → Owns t [] σ₁ s₁ → Q none σ₁ s₁)
    (hQ : ∀ val ql σ₁ s₁, Agree σ₁ s₁ → Owns t [⟨.queue q, some ql, some (val :: ql)⟩] σ₁ s₁ → Q (some val) σ₁ s₁) :
    (locking SHA256).Along t (fun _ => none) Q (q.WaitAndPop t).act σ s := by
  refine along_lock hi hL (by simp) (fun σ₁ s₁ hr hL₁ hst => hhas σ₁ s₁ hr hL₁ (hst.resolve_right hL₁.holds_none))
    fun v σ₁ s₁ h₁ hL₁ => ?_
  obtain ⟨ql, rfl⟩ := hL₁.queue h₁
  refine along_queue h₁ hL₁ (by simp) (by simp) fun empty ql' σ₂ s₂ hs h₂ hL₂ => ?_
  simp only [QueueAccess.step, Option.ite_none_right_eq_some, Option.some.injEq] at hs
  obtain ⟨rfl, rfl⟩ := hs
  cases ql with
  | nil => exact along_wait h₂ hL₂ fun σ₃ s₃ h₃ hL₃ => hnone σ₃ s₃ h₃ hL₃
  | cons val ql =>
    refine along_queue h₂ hL₂ (by simp) (by simp) fun val' ql' σ₃ s₃ hs h₃ hL₃ => ?_
    simp only [QueueAccess.step, List.head?_cons, Option.some.injEq, Option.ite_none_right_eq_some] at hs
    obtain ⟨rfl, rfl⟩ := hs
    refine along_queue h₃ hL₃ (by simp) (by simp) fun _ ql' σ₄ s₄ hs h₄ hL₄ => ?_
    obtain rfl := Option.some.inj hs
    exact hQ val ql σ₄ s₄ h₄ hL₄

/-- The loop of `Clear` ends with an empty queue. -/
theorem drain_along {q : Queue} {u : (Mutex.queue q).Val} {Q : Option Unit → LockState → State → Prop} (n : Nat) :
    ∀ {σ : LockState} {s : State} {ql : List q.Elem}, Agree σ s → Owns t (⟨.queue q, some ql, u⟩ :: L) σ s →
    (∀ e ∈ L, e.1 ≠ .queue q) → ql.length = n →
    (∀ σ₁ s₁, Agree σ₁ s₁ → Owns t (⟨.queue q, some [], u⟩ :: L) σ₁ s₁ → Q (some ()) σ₁ s₁) →
    (locking SHA256).Along t (fun _ => none) Q (q.drain n) σ s := by
  induction n with
  | zero =>
    intro σ s ql hi hL hLm hlen hQ
    obtain rfl := List.eq_nil_of_length_eq_zero hlen
    refine along_queue hi hL hLm (by simp) fun empty ql' σ₁ s₁ hs h₁ hL₁ => ?_
    simp only [QueueAccess.step, Option.ite_none_right_eq_some, Option.some.injEq] at hs
    obtain ⟨-, rfl⟩ := hs
    exact hQ σ₁ s₁ h₁ hL₁
  | succ n ih =>
    intro σ s ql hi hL hLm hlen hQ
    obtain ⟨val, ql, rfl⟩ := List.exists_cons_of_length_eq_add_one hlen
    refine along_queue hi hL hLm (by simp) fun empty ql' σ₁ s₁ hs h₁ hL₁ => ?_
    simp only [QueueAccess.step, Option.ite_none_right_eq_some, Option.some.injEq] at hs
    obtain ⟨rfl, rfl⟩ := hs
    refine along_queue h₁ hL₁ hLm (by simp) fun _ ql' σ₂ s₂ hs h₂ hL₂ => ?_
    obtain rfl := Option.some.inj hs
    exact ih h₂ hL₂ hLm (by simpa using hlen) hQ

theorem lookupSender_along {id : Int32} {Q : Option Bool → LockState → State → Prop} (hi : Agree σ s)
    (hL : Owns t [] σ s) (hid : id ≠ 0)
    (hQ : ∀ f σ₁ s₁, Agree σ₁ s₁ → Owns t [⟨.keepalive_sender_mp, f, f⟩] σ₁ s₁ → Q (some (f id)) σ₁ s₁) :
    (locking SHA256).Along t (fun _ => none) Q (UM.lookupSender t id).act σ s := by
  rw [UM.lookupSender, if_neg hid]
  refine along_lock hi hL (by simp) (fun _ _ _ _ _ => rfl) fun f σ₁ s₁ h₁ hL₁ => ?_
  refine along_find h₁ hL₁ fun σ₂ s₂ h₂ hL₂ => ?_
  cases hf : f id with
  | false =>
    have hq := hQ f σ₂ s₂ h₂ hL₂
    rwa [hf] at hq
  | true =>
    refine along_sender h₂ hL₂ hf fun σ₃ s₃ h₃ hL₃ => ?_
    have hq := hQ f σ₃ s₃ h₃ hL₃
    rwa [hf] at hq

end

/-! ## Taking effect -/

/-- An operation of which nothing is seen. -/
theorem acting_eq (ho : o.outside = false) : (locking SHA256).Acting t l o =
    (locking SHA256).Along t (fun _ => none) ((locking SHA256).Effect t l o) := by
  have hnone : (fun out : Option o.Res => out.bind fun r => (locking SHA256).seen ⟨o, r⟩) = fun _ => none := by
    funext out
    cases out with
    | none => rfl
    | some r => exact if_neg (by rw [ho]; exact Bool.false_ne_true)
  rw [Coupling.Acting, hnone]

theorem effect {r : o.Res} (hi : Agree σ s) (hL : Owns t (⟨m, v, u⟩ :: L) σ s) (hLm : ∀ e ∈ L, e.1 ≠ m)
    (hm : m ≠ .keepalive_sender_mp) (hs : s.step o r = some s') (hw : Touches m s s')
    (hk : ∀ s₁, Agree σ s₁ → Owns t (⟨m, v, s'.val m⟩ :: L) σ s₁ →
      (locking SHA256).Finishing t (l ++ [⟨o, r⟩]) ((locked t o).fin r) σ s₁) :
    (locking SHA256).Effect t l o (some r) σ s := by
  obtain ⟨hkeeps, h', hL'⟩ := hL.commit hi hLm hm hw
  exact ⟨s', hs, hkeeps, hk s' h' hL'⟩

/-- An operation that changes nothing takes effect. -/
theorem effect_look {r : o.Res} (hs : s.step o r = some s)
    (hk : (locking SHA256).Finishing t (l ++ [⟨o, r⟩]) ((locked t o).fin r) σ s) :
    (locking SHA256).Effect t l o (some r) σ s :=
  ⟨s, hs, fun t' _ => .refl t' _, hk⟩

theorem queue_effect {q : Queue} {ql ql' : List q.Elem} {r : o.Res} (hi : Agree σ s)
    (hL : Owns t (⟨.queue q, some ql', some ql⟩ :: L) σ s) (hLm : ∀ e ∈ L, e.1 ≠ .queue q)
    (hs : s.step o r = some (q.set s ql'))
    (hk : ∀ s₁, Agree σ s₁ → Owns t (⟨.queue q, some ql', some ql'⟩ :: L) σ s₁ →
      (locking SHA256).Finishing t (l ++ [⟨o, r⟩]) ((locked t o).fin r) σ s₁) :
    (locking SHA256).Effect t l o (some r) σ s := by
  refine effect hi hL hLm (by simp) hs (touches_queue q s ql') fun s₁ h₁ hL₁ => ?_
  have hget : q.get s = some ql := hL.base
  have hval : (q.set s ql').val (.queue q) = some ql' := Queue.get_set hget ql'
  rw [hval] at hL₁
  exact hk s₁ h₁ hL₁

/-- What a sender's function does to its queue. -/
theorem onSender_queue {uid : Int32} {ql : List Packet} (h : (Queue.msg_queue_ uid).get s = some ql)
    {f : Sender → Option Sender} (g : List Packet → Option (List Packet))
    (hf : ∀ snd, f snd = (g snd.msg_queue_).map fun ql' => { snd with msg_queue_ := ql' }) :
    s.onSender uid f = (g ql).map fun ql' => (Queue.msg_queue_ uid).set s ql' := by
  obtain ⟨snd, hsnd, rfl⟩ := Option.map_eq_some_iff.mp h
  rw [onSender_eq hsnd, hf, Option.map_map]
  congr 1
  funext ql'
  simp [Queue.set, hsnd]

/-- A step at which both change is a step of `lockedServer` and then one of `server`. -/
theorem Relies.split (h : Relies t (σ, s) (σ', s')) : Relies t (σ, s) (σ', s) ∧ Relies t (σ', s) (σ', s') :=
  ⟨⟨h.holder, h.now, fun _ _ => rfl, h.has⟩,
    ⟨fun _ => Iff.rfl, fun _ _ => rfl, fun m hm => h.stood m ((h.holder m).mp hm), fun _ h => h⟩⟩

theorem Relies.withWorld {w : State} : Relies t (σ, s) (σ.withData (σ.data.withWorld w), s.withWorld w) :=
  ⟨fun _ => Iff.rfl, fun _ _ => val_withWorld, fun _ _ => val_withWorld, fun _ h => h⟩

theorem Agree.withWorld (h : Agree σ s) (w : State) : Agree (σ.withData (σ.data.withWorld w)) (s.withWorld w) where
  world := rfl
  free m hm := val_withWorld.trans ((h.free m hm).trans val_withWorld.symm)
  senders := h.senders
  has := h.has
  unlocked := h.unlocked

theorem has_withSender {uid : Int32} {snd : Sender} (h : s.has m = true) : (s.withSender uid snd).has m = true := by
  have hsome : ∀ uid', (s.keepalive_sender_mp uid').isSome = true →
      ((s.withSender uid snd).keepalive_sender_mp uid').isSome = true := by
    intro uid' hs
    by_cases hu : uid' = uid
    · simp [hu]
    · simpa [hu] using hs
  cases m with
  | mu_ uid' => exact hsome uid' h
  | queue q =>
    cases q with
    | msg_queue_ uid' => exact hsome uid' h
    | RecvSocketQueue_ => rfl
  | _ => rfl

theorem senders_withSender {uid : Int32} {snd : Sender} :
    (s.withSender uid snd).val .keepalive_sender_mp = Function.update (s.val .keepalive_sender_mp) uid true := by
  funext uid'
  by_cases hu : uid' = uid <;> simp [State.val, hu]

/-- A sender is put where none was. -/
theorem Owns.install {uid : Int32} {f g : Int32 → Bool} (fd : Int32) (h : Owns t [⟨.keepalive_sender_mp, f, g⟩] σ s)
    (hi : Agree σ s) (hf : f uid = false) :
    (∀ t', t' ≠ t → Relies t' (σ, s)
      (σ.withData (σ.data.withSender uid ⟨fd, [], false⟩), s.withSender uid ⟨fd, [], false⟩)) ∧
    Agree (σ.withData (σ.data.withSender uid ⟨fd, [], false⟩)) (s.withSender uid ⟨fd, [], false⟩) ∧
    Owns t [⟨.keepalive_sender_mp, Function.update f uid true, Function.update g uid true⟩]
      (σ.withData (σ.data.withSender uid ⟨fd, [], false⟩)) (s.withSender uid ⟨fd, [], false⟩) := by
  have hnone : σ.data.has (.mu_ uid) = false := (congrFun h.val uid).trans hf
  -- nobody holds a mutex of a sender that is not there
  have hother : ∀ m t', σ.holder m = some t' → m ≠ .mu_ uid ∧ m ≠ .queue (.msg_queue_ uid) := by
    refine fun m t' hm => ⟨fun he => ?_, fun he => ?_⟩
    · exact Bool.false_ne_true (hnone.symm.trans (he ▸ hi.has m t' hm))
    · exact Bool.false_ne_true (hnone.symm.trans (hi.has (.queue (.msg_queue_ uid)) t' (he ▸ hm)))
  refine ⟨fun t' ht => ⟨fun _ => Iff.rfl, fun m hm => ?_, fun m hm => ?_, fun m => has_withSender⟩,
    ⟨hi.world, fun m hm => ?_, ?_, fun m t' hm => has_withSender (hi.has m t' hm), fun uid' x hx => ?_⟩,
    ⟨fun m => (h.holder m).trans (by simp), ?_, ?_⟩⟩
  · exact val_withSender (h.other ht hm) (hother m t' hm).1 (hother m t' hm).2
  · exact val_withSender (h.other ht hm) (hother m t' hm).1 (hother m t' hm).2
  · have hmp : m ≠ .keepalive_sender_mp := by
      rintro rfl
      exact absurd (h.held.symm.trans hm) (by simp)
    by_cases hmu : m = .mu_ uid
    · subst hmu
      simp [State.val, LockState.withData]
    by_cases hq : m = .queue (.msg_queue_ uid)
    · subst hq
      simp [State.val, Queue.get, LockState.withData]
    exact (val_withSender hmp hmu hq).trans ((hi.free m hm).trans (val_withSender hmp hmu hq).symm)
  · show (s.withSender uid _).val _ = (σ.data.withSender uid _).val _
    rw [senders_withSender, senders_withSender, hi.senders]
  · by_cases hu : uid' = uid
    · subst hu
      simp only [LockState.withData, State.val, Function.update_self, Option.map_some, Option.some.injEq] at hx
      rw [← hx]
    · exact hi.unlocked uid' x ((val_withSender (by simp) (by simp [hu]) (by simp)).symm.trans hx)
  · simp [LockState.withData, senders_withSender, h.val]
  · simp [senders_withSender, h.base]

/-- A call from outside is a step of both. -/
theorem along_call (ho : o.outside = true) (hi : Agree σ s) (hL : Owns t L σ s)
    (hfin : ∀ r, (locked t o).fin r = .ret ())
    (hl : ∀ r σ₁ s₁, Owns t L σ₁ s₁ → (carried t (l ++ [⟨o, r⟩])).Has t σ₁ s₁) :
    (locking SHA256).Acting t l o (.op (.call o) fun r => .ret (some r)) σ s := by
  refine along_seen hi hL (fun r => (if_pos ho).symm) fun σ₁ s₁ hr h₁ hL₁ => ⟨ho, fun r σ₂ hs => ?_⟩
  simp only [LockState.step, Option.map_eq_some_iff] at hs
  obtain ⟨d, hd, rfl⟩ := hs
  have hdata := step_outside ho hd
  have hstood := step_withWorld ho s₁ σ₁.data r
  rw [withWorld_eq h₁.world, hd, Option.map_some] at hstood
  have h₂ := h₁.withWorld d
  rw [← hdata] at h₂
  have hkeeps : ∀ t', Relies t' (σ₁, s₁) (σ₁.withData d, s₁.withWorld d) := fun t' => by
    have hw : Relies t' (σ₁, s₁) (σ₁.withData (σ₁.data.withWorld d), s₁.withWorld d) := .withWorld
    rwa [← hdata] at hw
  refine ⟨fun t' _ => (hkeeps t').split.1, s₁.withWorld d, hstood, fun t' _ => (hkeeps t').split.2, ?_⟩
  show (locking SHA256).Finishing t (l ++ [⟨o, r⟩]) ((locked t o).fin r) _ _
  rw [hfin]
  exact ⟨h₂, hl r _ _ (hL₁.rely (hkeeps t))⟩

end NetChat
