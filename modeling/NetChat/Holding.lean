/-
What a thread holds. While a thread holds a mutex nobody else touches what is
behind it (`Relies`), so what it knows of that stays true. `Agree` says which
state of `server` a state of `lockedServer` stands for: the same, but for what is
behind the mutexes that are held. The rules say, step by step, what a thread that
holds something holds next; `Atomic` goes through the functions with them.
-/
import NetChat.Locks

namespace NetChat

open Interleave Prog Server

/-! ## What each mutex guards -/

@[reducible] def Mutex.Val : Mutex → Type
  | .pool p => p.Key → Option p.Val
  | .keepalive_sender_mp => Int32 → Bool
  | .mu_ _ => Option (Int32 × Bool)
  | .queue q => Option (List q.Elem)

/-- What is behind a mutex: of `_keepalive_sender_mp` the users that have a sender, of a
sender `fd_` and whether its `run` holds it. -/
def State.val (s : State) : (m : Mutex) → m.Val
  | .pool p => p.get s
  | .keepalive_sender_mp => fun uid => (s.keepalive_sender_mp uid).isSome
  | .mu_ uid => (s.keepalive_sender_mp uid).map fun snd => (snd.fd_, snd.locked)
  | .queue q => q.get s

/-- What is behind no mutex. -/
def State.world (s : State) : DataAccess × (Bytes → Option Bytes) × (Int32 → Option Conn) × (Int32 → Bool) × Nat :=
  (s.db, s.disk, s.fds, s.epoll, s.accepted)

/-- `s` with what is behind no mutex taken from `w`. -/
def State.withWorld (s w : State) : State :=
  { s with db := w.db, disk := w.disk, fds := w.fds, epoll := w.epoll, accepted := w.accepted }

@[simp] theorem val_withWorld {s w : State} {m : Mutex} : (s.withWorld w).val m = s.val m := by
  cases m with
  | pool p => cases p <;> rfl
  | queue q => cases q <;> rfl
  | _ => rfl

theorem withWorld_eq {s w : State} (h : s.world = w.world) : s.withWorld w = s := by
  simp only [State.world, Prod.mk.injEq] at h
  obtain ⟨hdb, hdisk, hfds, hepoll, haccepted⟩ := h
  simp [State.withWorld, ← hdb, ← hdisk, ← hfds, ← hepoll, ← haccepted]

/-- The operations that touch nothing behind a mutex. -/
def Op.outside : Op → Bool
  | .pushRecvSocket _ | .popRecvSocket | .setChallengeMp _ _ | .getChallengeMp _ | .delChallengeMp _
  | .getUserIdByToken _ | .setUserIdByToken _ _ | .getSender _ | .setFileMsg _ _ _ | .delFileMsg _ | .getFileMsg _
  | .setFd _ _ | .Clear _ | .addSendTask _ _ | .WaitAndPop _ | .lock _ | .unlock _ => false
  | _ => true

theorem map_guard {α β : Type} {p : Prop} [Decidable p] {a : α} {f : α → β} :
    (if p then some a else none).map f = if p then some (f a) else none := by
  split <;> rfl

/-- They depend on nothing else either. -/
theorem step_withWorld {o : Op} (ho : o.outside = true) (s w : State) (r : o.Res) :
    (s.withWorld w).step o r = (w.step o r).map s.withWorld := by
  cases o with
  | insertUser | insertMessage | insertFile =>
    cases r with
    | ok changed =>
      simp only [State.step, State.insert, apply_ite (Option.map _), Option.map_map, Option.map_none]
      rfl
    | error => rfl
  | getUser | getUserById | getAllUsers | getMessage | getAllMessages | getFile | updateFile =>
    cases r with
    | ok =>
      simp only [State.step, State.query, map_guard]
      rfl
    | error => rfl
  | accept | loadFromDisk =>
    cases r with
    | some =>
      simp only [State.step, State.accept, map_guard]
      rfl
    | none => rfl
  | Recv fd =>
    cases r with
    | failed => rfl
    | _ =>
      simp only [State.step, State.recv, map_guard]
      rfl
  | epoll_wait =>
    have hrep : State.reportable (s.withWorld w) = State.reportable w := by
      funext ev
      cases ev <;> rfl
    simp only [State.step, map_guard, hrep]
  | epollAdd | epollDel | close | Send | getLastInsertRowid | checkDiskExistence =>
    simp only [State.step, map_guard]
    rfl
  | genChallenge | getUUID => simp only [State.step, map_guard]
  | saveToDisk =>
    cases r with
    | writeFailed | lost =>
      simp only [State.step, State.saveToDisk, map_guard]
      rfl
    | openFailed | saved => rfl
  | time | getTimestamp => rfl
  | _ => cases ho

theorem step_outside {o : Op} (ho : o.outside = true) {s d : State} {r : o.Res} (h : s.step o r = some d) :
    d = s.withWorld d := by
  have hs := step_withWorld ho s s r
  rwa [withWorld_eq rfl, h, Option.map_some, Option.some.injEq] at hs

/-! ## Two states that agree -/

/-- `_keepalive_sender_mp_mu` is held over the others, and these over none. -/
def Mutex.rank : Mutex → Nat
  | .keepalive_sender_mp => 0
  | _ => 1

/-- `s` is what `σ` stands for. -/
structure Agree (σ : LockState) (s : State) : Prop where
  world : s.world = σ.data.world
  free : ∀ m, σ.holder m = none → s.val m = σ.data.val m
  senders : s.val .keepalive_sender_mp = σ.data.val .keepalive_sender_mp
  has : ∀ m t, σ.holder m = some t → σ.data.has m = true
  unlocked : ∀ uid x, σ.data.val (.mu_ uid) = some x → x.2 = false

/-- What `t` relies on the others to keep: the mutexes it holds and what is behind them. -/
structure Relies (t : Tid) (x y : LockState × State) : Prop where
  holder : ∀ m, y.1.holder m = some t ↔ x.1.holder m = some t
  now : ∀ m, x.1.holder m = some t → y.1.data.val m = x.1.data.val m
  stood : ∀ m, x.1.holder m = some t → y.2.val m = x.2.val m
  has : ∀ m, x.1.data.has m = true → y.1.data.has m = true

theorem Relies.refl (t : Tid) (x : LockState × State) : Relies t x x :=
  ⟨fun _ => Iff.rfl, fun _ _ => rfl, fun _ _ => rfl, fun _ h => h⟩

theorem Relies.trans {t : Tid} {x y z : LockState × State} (h : Relies t x y) (h' : Relies t y z) : Relies t x z where
  holder m := (h'.holder m).trans (h.holder m)
  now m hm := (h'.now m ((h.holder m).mpr hm)).trans (h.now m hm)
  stood m hm := (h'.stood m ((h.holder m).mpr hm)).trans (h.stood m hm)
  has m hm := h'.has m (h.has m hm)

/-- What a thread holds: mutexes, each with what is behind it, now and in the state that is
stood for. -/
abbrev Holding := List (Σ m : Mutex, m.Val × m.Val)

/-- `t` holds `L` and no more. -/
structure Owns (t : Tid) (L : Holding) (σ : LockState) (s : State) : Prop where
  holder : ∀ m, σ.holder m = some t ↔ ∃ e ∈ L, e.1 = m
  now : ∀ e ∈ L, σ.data.val e.1 = e.2.1
  stood : ∀ e ∈ L, s.val e.1 = e.2.2

theorem Owns.holds_none {t : Tid} {σ : LockState} {s : State} (h : Owns t [] σ s) : ¬ ∃ m, σ.holder m = some t := by
  rintro ⟨m, hm⟩
  obtain ⟨e, he, -⟩ := (h.holder m).mp hm
  cases he

theorem Owns.rely {t : Tid} {L : Holding} {σ σ' : LockState} {s s' : State} (h : Owns t L σ s)
    (hr : Relies t (σ, s) (σ', s')) : Owns t L σ' s' where
  holder m := (hr.holder m).trans (h.holder m)
  now e he := (hr.now e.1 ((h.holder e.1).mpr ⟨e, he, rfl⟩)).trans (h.now e he)
  stood e he := (hr.stood e.1 ((h.holder e.1).mpr ⟨e, he, rfl⟩)).trans (h.stood e he)

/-- The thread is there: a sender's is once its sender is. -/
def LockState.started (σ : LockState) : Tid → Bool
  | .sender uid => (σ.data.keepalive_sender_mp uid).isSome
  | _ => true

/-- What `t` must find before a step: an access only under its mutex, a lock only over what
it may be held over, `front` and `pop` only on a queue with an element, a sleep only on an
empty one. -/
def Pre (t : Tid) (σ : LockState) : LockOp → Prop
  | .lock t' m => t' = t ∧ (∀ m', σ.holder m' = some t → m'.rank < m.rank) ∧
      ((σ.started t = true ∨ ∃ m', σ.holder m' = some t) → σ.data.has m = true)
  | .unlock t' m => t' = t ∧ σ.holder m = some t
  | .wait t' q => t' = t ∧ σ.holder (.queue q) = some t ∧ q.get σ.data = some []
  | .notify_all _ | .skip => True
  | .pool p a => σ.holder (.pool p) = some t ∧ ∀ k, a = .read k → (p.get σ.data k).isSome = true
  | .senders a => σ.holder .keepalive_sender_mp = some t ∧
      (∀ uid, a = .sender uid → (σ.data.keepalive_sender_mp uid).isSome = true) ∧
      ∀ uid fd, a = .make_unique uid fd → σ.data.keepalive_sender_mp uid = none
  | .fd uid | .setFd uid _ => σ.holder (.mu_ uid) = some t
  | .queue q a => σ.holder (.queue q) = some t ∧ (a = .front ∨ a = .pop → ∃ v l, q.get σ.data = some (v :: l))
  | .call o => o.outside = true

/-- What a thread has from one operation to the next: nothing, a sender it was told of,
`_keepalive_sender_mp_mu`, or the `mu_` of its sender with the `fd_` it read. -/
inductive Carry
  | nothing
  | told (uid : Int32)
  | senders (uid : Int32)
  | mu (uid fd : Int32)

/-- What a thread has after the operations of a log. -/
def carried (t : Tid) (l : List Entry) : Carry :=
  match t with
  | .acceptor => .nothing
  | .worker _ =>
    match l.getLast? with
    | some ⟨.setFd uid _, true⟩ => .senders uid
    | some ⟨.getSender uid, true⟩ => .told uid
    | _ => .nothing
  | .sender uid =>
    match l with
    | _ :: ⟨.lock _, fd⟩ :: rest => if rest.getLast? = some ⟨.unlock uid, ()⟩ then .nothing else .mu uid fd
    | _ => .nothing

def Carry.Has (t : Tid) (σ : LockState) (s : State) : Carry → Prop
  | .nothing => Owns t [] σ s
  | .told uid => Owns t [] σ s ∧ σ.data.has (.mu_ uid) = true
  | .senders uid => ∃ v, v uid = true ∧ Owns t [⟨.keepalive_sender_mp, v, v⟩] σ s
  | .mu uid fd => Owns t [⟨.mu_ uid, some (fd, false), some (fd, true)⟩] σ s

theorem Carry.Has.rely {t : Tid} {σ σ' : LockState} {s s' : State} {c : Carry} (h : c.Has t σ s)
    (hr : Relies t (σ, s) (σ', s')) : c.Has t σ' s' := by
  cases c with
  | nothing => exact Owns.rely h hr
  | told uid => exact ⟨h.1.rely hr, hr.has _ h.2⟩
  | senders uid =>
    obtain ⟨v, hv, h⟩ := h
    exact ⟨v, hv, h.rely hr⟩
  | mu uid fd => exact Owns.rely h hr

/-- What is seen of the server from outside: the calls it makes. -/
def calls? (x : Entry) : Option Entry := if x.op.outside = true then some x else none

def lockCalls? : Interleave.Entry LockOp LockOp.Res → Option Entry
  | ⟨.call o, r⟩ => some ⟨o, r⟩
  | _ => none

/-- How `lockedServer` and `server` go together. -/
def locking (SHA256 : Bytes → Bytes) : Coupling (server SHA256) LockOp LockOp.Res LockState Entry where
  impl := locked
  step σ x := σ.step x.op x.res
  inv := Agree
  rely := Relies
  pre t o σ := Pre t σ o
  between t l σ s := (carried t l).Has t σ s
  seen := calls?
  seen' := lockCalls?
  rely_refl := Relies.refl
  rely_trans _ _ _ _ := Relies.trans
  between_rely _ _ _ _ _ _ := Carry.Has.rely

/-! ## One step of a thread that holds something -/

/-- `s'` is `s` but for what is behind `m`. -/
structure Touches (m : Mutex) (s s' : State) : Prop where
  world : s'.world = s.world
  others : ∀ m', m' ≠ m → s'.val m' = s.val m'

section
variable {t : Tid} {L : Holding} {σ : LockState} {s s' d : State} {m : Mutex} {v u : m.Val}

theorem has_of_val (h : d.val .keepalive_sender_mp = s.val .keepalive_sender_mp) (m : Mutex) : d.has m = s.has m := by
  cases m with
  | mu_ uid => exact congrFun h uid
  | queue q =>
    cases q with
    | msg_queue_ uid => exact congrFun h uid
    | RecvSocketQueue_ => rfl
  | _ => rfl

theorem Touches.has (h : Touches m s s') (hm : m ≠ .keepalive_sender_mp) (m' : Mutex) : s'.has m' = s.has m' :=
  has_of_val (h.others _ hm.symm) m'

theorem Owns.held (h : Owns t (⟨m, v, u⟩ :: L) σ s) : σ.holder m = some t :=
  (h.holder m).mpr ⟨⟨m, v, u⟩, by simp, rfl⟩

theorem Owns.val (h : Owns t (⟨m, v, u⟩ :: L) σ s) : σ.data.val m = v := h.now ⟨m, v, u⟩ (by simp)

theorem Owns.base (h : Owns t (⟨m, v, u⟩ :: L) σ s) : s.val m = u := h.stood ⟨m, v, u⟩ (by simp)

theorem Owns.tail (h : Owns t (⟨m, v, u⟩ :: L) σ s) {e : Σ m : Mutex, m.Val × m.Val} (he : e ∈ L) :
    σ.holder e.1 = some t ∧ σ.data.val e.1 = e.2.1 ∧ s.val e.1 = e.2.2 :=
  ⟨(h.holder _).mpr ⟨e, List.mem_cons_of_mem _ he, rfl⟩, h.now e (List.mem_cons_of_mem _ he),
    h.stood e (List.mem_cons_of_mem _ he)⟩

/-- Another thread does not hold what `t` does. -/
theorem Owns.other (h : Owns t (⟨m, v, u⟩ :: L) σ s) {t' : Tid} (ht : t' ≠ t) {m' : Mutex}
    (hm' : σ.holder m' = some t') : m' ≠ m := by
  rintro rfl
  rw [h.held] at hm'
  exact ht (Option.some.inj hm').symm

/-- `t` touches what is behind a mutex it holds. -/
theorem Owns.access (h : Owns t (⟨m, v, u⟩ :: L) σ s) (hi : Agree σ s) (hL : ∀ e ∈ L, e.1 ≠ m)
    (hm : m ≠ .keepalive_sender_mp) (hw : Touches m σ.data d) (hl : ∀ uid x, d.val (.mu_ uid) = some x → x.2 = false) :
    (∀ t', t' ≠ t → Relies t' (σ, s) (σ.withData d, s)) ∧ Agree (σ.withData d) s ∧
      Owns t (⟨m, d.val m, u⟩ :: L) (σ.withData d) s := by
  refine ⟨fun t' ht => ⟨fun _ => Iff.rfl, fun m' hm' => hw.others m' (h.other ht hm'), fun _ _ => rfl,
    fun m' hm' => (hw.has hm m').trans hm'⟩, ⟨?_, ?_, ?_, ?_, hl⟩, ⟨?_, ?_, ?_⟩⟩
  · exact hi.world.trans hw.world.symm
  · intro m' hfree
    have hne : m' ≠ m := by
      rintro rfl
      exact absurd (h.held.symm.trans hfree) (by simp)
    exact (hi.free m' hfree).trans (hw.others m' hne).symm
  · exact hi.senders.trans (hw.others _ hm.symm).symm
  · exact fun m' t' hm' => (hw.has hm m').trans (hi.has m' t' hm')
  · exact fun m' => (h.holder m').trans (by simp)
  · intro e he
    rcases List.mem_cons.mp he with rfl | he
    · rfl
    · exact (hw.others _ (hL e he)).trans (h.tail he).2.1
  · intro e he
    rcases List.mem_cons.mp he with rfl | he
    · exact h.stood ⟨m, v, u⟩ (by simp)
    · exact (h.tail he).2.2

/-- The state that is stood for changes behind a mutex `t` holds. -/
theorem Owns.commit (h : Owns t (⟨m, v, u⟩ :: L) σ s) (hi : Agree σ s) (hL : ∀ e ∈ L, e.1 ≠ m)
    (hm : m ≠ .keepalive_sender_mp) (hw : Touches m s s') :
    (∀ t', t' ≠ t → Relies t' (σ, s) (σ, s')) ∧ Agree σ s' ∧ Owns t (⟨m, v, s'.val m⟩ :: L) σ s' := by
  refine ⟨fun t' ht => ⟨fun _ => Iff.rfl, fun _ _ => rfl, fun m' hm' => hw.others m' (h.other ht hm'),
    fun _ h => h⟩, ⟨?_, ?_, ?_, hi.has, hi.unlocked⟩, ⟨?_, ?_, ?_⟩⟩
  · exact hw.world.trans hi.world
  · intro m' hfree
    have hne : m' ≠ m := by
      rintro rfl
      exact absurd (h.held.symm.trans hfree) (by simp)
    exact (hw.others m' hne).trans (hi.free m' hfree)
  · exact (hw.others _ hm.symm).trans hi.senders
  · exact fun m' => (h.holder m').trans (by simp)
  · intro e he
    rcases List.mem_cons.mp he with rfl | he
    · exact h.val
    · exact (h.tail he).2.1
  · intro e he
    rcases List.mem_cons.mp he with rfl | he
    · rfl
    · exact (hw.others _ (hL e he)).trans (h.tail he).2.2

/-- `t` takes a mutex that is free. -/
theorem Owns.take (h : Owns t L σ s) (σ' : LockState) (hi : Agree σ s) (hfree : σ.holder m = none)
    (hhas : σ.data.has m = true) (hdata : σ'.data = σ.data) (hholder : σ'.holder = Function.update σ.holder m (some t)) :
    (∀ t', t' ≠ t → Relies t' (σ, s) (σ', s)) ∧ Agree σ' s ∧
      Owns t (⟨m, σ.data.val m, σ.data.val m⟩ :: L) σ' s := by
  have hother : ∀ m', m' ≠ m → σ'.holder m' = σ.holder m' := fun m' hne => by
    rw [hholder, Function.update_of_ne hne]
  have hself : σ'.holder m = some t := by rw [hholder, Function.update_self]
  have hL : ∀ e ∈ L, e.1 ≠ m := by
    rintro e he rfl
    exact absurd (((h.holder e.1).mpr ⟨e, he, rfl⟩).symm.trans hfree) (by simp)
  refine ⟨fun t' ht => ⟨fun m' => ?_, fun _ _ => by rw [hdata], fun _ _ => rfl, fun _ h => by rwa [hdata]⟩,
    ⟨?_, ?_, ?_, ?_, ?_⟩, ⟨?_, ?_, ?_⟩⟩
  · by_cases hm' : m' = m
    · subst hm'
      simp [hself, hfree, ht.symm]
    · simp [hother m' hm']
  · rw [hdata]
    exact hi.world
  · intro m' hm'
    have hne : m' ≠ m := by
      rintro rfl
      rw [hself] at hm'
      cases hm'
    rw [hdata]
    exact hi.free m' ((hother m' hne).symm.trans hm')
  · rw [hdata]
    exact hi.senders
  · intro m' t' hm'
    rw [hdata]
    by_cases hne : m' = m
    · rwa [hne]
    · exact hi.has m' t' ((hother m' hne).symm.trans hm')
  · rw [hdata]
    exact hi.unlocked
  · intro m'
    by_cases hne : m' = m
    · subst hne
      simp [hself]
    · simp [hother m' hne, h.holder, Ne.symm hne]
  · intro e he
    rw [hdata]
    rcases List.mem_cons.mp he with rfl | he
    · rfl
    · exact h.now e he
  · intro e he
    rcases List.mem_cons.mp he with rfl | he
    · exact hi.free m hfree
    · exact h.stood e he

/-- `t` gives a mutex up, what is behind it being what it stands for. -/
theorem Owns.drop (h : Owns t (⟨m, v, v⟩ :: L) σ s) (σ' : LockState) (hi : Agree σ s) (hL : ∀ e ∈ L, e.1 ≠ m)
    (hdata : σ'.data = σ.data) (hholder : σ'.holder = Function.update σ.holder m none) :
    (∀ t', t' ≠ t → Relies t' (σ, s) (σ', s)) ∧ Agree σ' s ∧ Owns t L σ' s := by
  have hother : ∀ m', m' ≠ m → σ'.holder m' = σ.holder m' := fun m' hne => by
    rw [hholder, Function.update_of_ne hne]
  have hself : σ'.holder m = none := by rw [hholder, Function.update_self]
  refine ⟨fun t' ht => ⟨fun m' => ?_, fun _ _ => by rw [hdata], fun _ _ => rfl, fun _ h => by rwa [hdata]⟩,
    ⟨?_, ?_, ?_, ?_, ?_⟩, ⟨?_, ?_, ?_⟩⟩
  · by_cases hm' : m' = m
    · subst hm'
      simp [hself, h.held, ht.symm]
    · simp [hother m' hm']
  · rw [hdata]
    exact hi.world
  · intro m' hm'
    rw [hdata]
    by_cases hne : m' = m
    · subst hne
      exact (h.stood ⟨m', v, v⟩ (by simp)).trans h.val.symm
    · exact hi.free m' ((hother m' hne).symm.trans hm')
  · rw [hdata]
    exact hi.senders
  · intro m' t' hm'
    rw [hdata]
    by_cases hne : m' = m
    · rw [hne, hself] at hm'
      cases hm'
    · exact hi.has m' t' ((hother m' hne).symm.trans hm')
  · rw [hdata]
    exact hi.unlocked
  · intro m'
    by_cases hne : m' = m
    · subst hne
      simp only [hself, reduceCtorEq, false_iff, not_exists, not_and]
      exact fun e he => hL e he
    · simp [hother m' hne, h.holder, Ne.symm hne]
  · intro e he
    rw [hdata]
    exact (h.tail he).2.1
  · exact fun e he => (h.tail he).2.2

end

end NetChat
