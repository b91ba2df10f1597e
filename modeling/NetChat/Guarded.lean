/-
Every thread carries out its operations under their locks. What a thread has from
one operation to the next (`carried`) is read off its body: `Clear` follows the
`setFd` that left the map of the senders locked, `addSendTask` the `getSender` that
found the sender, and what a sender does with its `fd_` stands between its `lock`
and its `unlock`. `locks_atomic` puts them together: `lockedServer` does nothing
`server` does not do.
-/
import NetChat.Atomic
import NetChat.Follows
import NetChat.Boot

namespace NetChat

open Interleave Prog Server

variable {SHA256 : Bytes → Bytes} {t : Tid} {L : Holding} {σ : LockState} {s s' : State} {l : List Entry} {o : Op}
  {m : Mutex} {v u : m.Val}

/-! ## The operations of the workers and of the accepting thread -/

/-- The operations after which a worker has something. -/
def Op.tells : Op → Bool
  | .setFd _ _ | .getSender _ => true
  | _ => false

theorem carried_nil : carried t [] = .nothing := by
  cases t <;> rfl

section
variable (ht : ∀ uid, t ≠ .sender uid)
include ht

theorem carried_plain {x : Entry} (hx : x.op.tells = false) : carried t (l ++ [x]) = .nothing := by
  cases t with
  | acceptor => rfl
  | sender uid => exact absurd rfl (ht uid)
  | worker i =>
    obtain ⟨o, r⟩ := x
    simp only [carried, List.getLast?_append, List.getLast?_singleton, Option.some_or]
    cases o <;> first | rfl | cases hx

/-- The operation is done. -/
theorem done_plain {x : Entry} (hx : x.op.tells = false) (hi : Agree σ s) (hL : Owns t [] σ s) :
    (locking SHA256).Done t (l ++ [x]) () σ s := by
  refine ⟨hi, ?_⟩
  show (carried t (l ++ [x])).Has t σ s
  rw [carried_plain ht hx]
  exact hL

/-- A `lock_guard` goes out of scope. -/
theorem finishing_guard {x : Entry} {v : m.Val} (hx : x.op.tells = false) (hi : Agree σ s)
    (hL : Owns t [⟨m, v, v⟩] σ s) : (locking SHA256).Finishing t (l ++ [x]) (.op (.unlock t m) .ret) σ s :=
  along_unlock hi hL (by simp) fun _ _ _ h₁ hL₁ => done_plain ht hx h₁ hL₁

theorem pool_effect {p : Pool} {f f' : p.Key → Option p.Val} {r : o.Res} (hx : o.tells = false) (hi : Agree σ s)
    (hL : Owns t [⟨.pool p, f', f⟩] σ s) (hs : s.step o r = some (p.set s f'))
    (hfin : (locked t o).fin r = .op (.unlock t (.pool p)) .ret) : (locking SHA256).Effect t l o (some r) σ s := by
  refine effect hi hL (by simp) (by simp) hs (touches_pool p s f') fun s₁ h₁ hL₁ => ?_
  rw [hfin]
  have hval : (p.set s f').val (.pool p) = f' := p.get_set _ _
  rw [hval] at hL₁
  exact finishing_guard ht hx h₁ hL₁

theorem pool_look {p : Pool} {f : p.Key → Option p.Val} {r : o.Res} (hx : o.tells = false) (hi : Agree σ s)
    (hL : Owns t [⟨.pool p, f, f⟩] σ s) (hs : s.step o r = some s)
    (hfin : (locked t o).fin r = .op (.unlock t (.pool p)) .ret) : (locking SHA256).Effect t l o (some r) σ s := by
  refine effect_look hs ?_
  rw [hfin]
  exact finishing_guard ht hx hi hL

/-- `Push` unlocks and notifies. -/
theorem finishing_push {q : Queue} {x : Entry} {v : (Mutex.queue q).Val} (hx : x.op.tells = false) (hi : Agree σ s)
    (hL : Owns t [⟨.queue q, v, v⟩] σ s) : (locking SHA256).Finishing t (l ++ [x])
      (.op (.unlock t (.queue q)) fun _ => .op (.notify_all q) .ret) σ s :=
  along_unlock hi hL (by simp) fun _ _ _ h₁ hL₁ => along_notify h₁ hL₁ fun _ _ h₂ hL₂ => done_plain ht hx h₂ hL₂

theorem acts_getUserIdByToken {token : Bytes} (hi : Agree σ s) (hL : Owns t [] σ s) :
    (locking SHA256).Acting t l (.getUserIdByToken token) (locked t (.getUserIdByToken token)).act σ s := by
  rw [acting_eq rfl]
  by_cases htoken : token = []
  · have hlock : locked t (.getUserIdByToken token) = returns 0 := if_pos htoken
    rw [hlock]
    refine along_skip hi hL fun σ₁ s₁ h₁ hL₁ => effect_look ?_ ?_
    · exact if_pos (if_pos htoken).symm
    · show (locking SHA256).Finishing t _ ((locked t (.getUserIdByToken token)).fin 0) σ₁ s₁
      rw [hlock]
      exact done_plain ht rfl h₁ hL₁
  · have hlock : locked t (.getUserIdByToken token) = Pool.lookup t .token_pool token := if_neg htoken
    rw [hlock]
    refine lookup_along hi hL fun f σ₁ s₁ h₁ hL₁ => pool_look ht rfl h₁ hL₁ (if_pos ?_) (by rw [hlock]; rfl)
    rw [State.getUserIdByToken, if_neg htoken, ← hL₁.base]
    rfl

/-- A function with one mutex, and nothing of it left when it returned. -/
theorem acts_plain (hi : Agree σ s) (hL : Owns t [] σ s) (ho : o.outside = false) (hx : o.tells = false)
    (hsender : o.ofSenders = false) (hclear : ∀ uid, o ≠ .Clear uid)
    (hhas : ∀ uid pkt, o = .addSendTask uid pkt → σ.data.has (.mu_ uid) = true) (hpop : o = .popRecvSocket → l = []) :
    (locking SHA256).Acting t l o (locked t o).act σ s := by
  cases o with
  | getUserIdByToken token => exact acts_getUserIdByToken ht hi hL
  | setFd | getSender => cases hx
  | Clear uid => exact absurd rfl (hclear uid)
  | WaitAndPop | lock | unlock => cases hsender
  | setChallengeMp id challenge =>
    rw [acting_eq rfl]
    refine put_along hi hL fun f σ₁ s₁ h₁ hL₁ => pool_effect ht rfl h₁ hL₁ ?_ rfl
    rw [← hL₁.base]
    rfl
  | setUserIdByToken token uid =>
    rw [acting_eq rfl]
    refine put_along hi hL fun f σ₁ s₁ h₁ hL₁ => pool_effect ht rfl h₁ hL₁ ?_ rfl
    rw [← hL₁.base]
    rfl
  | setFileMsg fileid uid msg =>
    rw [acting_eq rfl]
    refine put_along hi hL fun f σ₁ s₁ h₁ hL₁ => pool_effect ht rfl h₁ hL₁ ?_ rfl
    rw [← hL₁.base]
    rfl
  | delChallengeMp id =>
    rw [acting_eq rfl]
    refine del_along hi hL fun f σ₁ s₁ h₁ hL₁ => pool_effect ht rfl h₁ hL₁ ?_ rfl
    rw [← hL₁.base]
    rfl
  | delFileMsg fileid =>
    rw [acting_eq rfl]
    refine del_along hi hL fun f σ₁ s₁ h₁ hL₁ => pool_effect ht rfl h₁ hL₁ ?_ rfl
    rw [← hL₁.base]
    rfl
  | getChallengeMp id =>
    rw [acting_eq rfl]
    refine lookup_along hi hL fun f σ₁ s₁ h₁ hL₁ => pool_look ht rfl h₁ hL₁ (if_pos ?_) rfl
    rw [← hL₁.base]
    rfl
  | getFileMsg fileid =>
    rw [acting_eq rfl]
    refine lookup_along hi hL fun f σ₁ s₁ h₁ hL₁ => pool_look ht rfl h₁ hL₁ (if_pos ?_) rfl
    rw [← hL₁.base]
    rfl
  | addSendTask uid pkt =>
    rw [acting_eq rfl]
    refine push_along hi hL (hhas uid pkt rfl) fun ql σ₁ s₁ h₁ hL₁ => queue_effect h₁ hL₁ (by simp) ?_
      fun s₂ h₂ hL₂ => finishing_push ht rfl h₂ hL₂
    exact onSender_queue hL₁.base (fun ql => some (ql ++ [pkt])) fun _ => rfl
  | pushRecvSocket fd =>
    rw [acting_eq rfl]
    refine push_along hi hL rfl fun ql σ₁ s₁ h₁ hL₁ => queue_effect h₁ hL₁ (by simp) ?_
      fun s₂ h₂ hL₂ => finishing_push ht rfl h₂ hL₂
    have hql : s₁.RecvSocketQueue = ql := Option.some.inj hL₁.base
    rw [← hql]
    rfl
  | popRecvSocket =>
    rw [acting_eq rfl]
    refine pop_along hi hL (fun _ _ _ _ _ => rfl) (fun σ₁ s₁ h₁ hL₁ => ⟨hpop rfl, h₁, ?_⟩)
      fun fd ql σ₁ s₁ h₁ hL₁ => queue_effect h₁ hL₁ (by simp) ?_ fun s₂ h₂ hL₂ => finishing_guard ht rfl h₂ hL₂
    · show (carried t []).Has t σ₁ s₁
      rw [carried_nil]
      exact hL₁
    · have hql : s₁.RecvSocketQueue = fd :: ql := Option.some.inj hL₁.base
      simp only [State.step, hql, if_true]
      rfl
  | _ => cases ho

/-- A call of one of these threads. -/
theorem acts_outside (hi : Agree σ s) (hL : Owns t [] σ s) (ho : o.outside = true) :
    (locking SHA256).Acting t l o (locked t o).act σ s := by
  have hlock : locked t o = calls o := by
    cases t with
    | sender uid => exact absurd rfl (ht uid)
    | acceptor | worker => cases o <;> first | rfl | cases ho
  have hx : o.tells = false := by
    cases o <;> first | rfl | cases ho
  rw [hlock]
  refine along_call ho hi hL (fun r => by rw [hlock]; rfl) fun r σ₁ s₁ hL₁ => ?_
  rw [carried_plain ht hx]
  exact hL₁

end

theorem carried_setFd {i : Nat} {uid fd : Int32} {found : Bool} :
    carried (.worker i) (l ++ [⟨.setFd uid fd, found⟩]) = if found = true then .senders uid else .nothing := by
  cases found <;> simp [carried]

theorem carried_getSender {i : Nat} {uid : Int32} {found : Bool} :
    carried (.worker i) (l ++ [⟨.getSender uid, found⟩]) = if found = true then .told uid else .nothing := by
  cases found <;> simp [carried]

/-- Who was told of a sender knows that it is there. -/
theorem acts_getSender {i : Nat} {uid : Int32} (hi : Agree σ s) (hL : Owns (.worker i) [] σ s) :
    (locking SHA256).Acting (.worker i) l (.getSender uid) (locked (.worker i) (.getSender uid)).act σ s := by
  rw [acting_eq rfl]
  by_cases hid : uid = 0
  · have hlock : locked (.worker i) (.getSender uid) = returns false := if_pos hid
    rw [hlock]
    refine along_skip hi hL fun σ₁ s₁ h₁ hL₁ => effect_look ?_ ?_
    · exact if_pos (if_pos hid).symm
    · show (locking SHA256).Finishing (.worker i) _ ((locked (.worker i) (.getSender uid)).fin false) σ₁ s₁
      rw [hlock]
      refine ⟨h₁, ?_⟩
      show (carried (.worker i) (l ++ [⟨.getSender uid, false⟩])).Has (.worker i) σ₁ s₁
      rw [carried_getSender]
      exact hL₁
  · refine lookupSender_along hi hL hid fun f σ₁ s₁ h₁ hL₁ => effect_look ?_ ?_
    · refine if_pos ?_
      rw [State.getSender, if_neg hid]
      exact (congrFun hL₁.base uid).symm
    · have hfin : (locked (.worker i) (.getSender uid)).fin (f uid) =
          .op (.unlock (.worker i) .keepalive_sender_mp) .ret := by
        rw [show locked (.worker i) (.getSender uid) = UM.lookupSender (.worker i) uid from rfl, UM.lookupSender,
          if_neg hid]
        rfl
      show (locking SHA256).Finishing (.worker i) _ ((locked (.worker i) (.getSender uid)).fin (f uid)) σ₁ s₁
      rw [hfin]
      refine along_unlock h₁ hL₁ (by simp) fun σ₂ s₂ hhas h₂ hL₂ => ⟨h₂, ?_⟩
      show (carried (.worker i) (l ++ [⟨.getSender uid, f uid⟩])).Has (.worker i) σ₂ s₂
      rw [carried_getSender]
      cases hf : f uid with
      | true => exact ⟨hL₂, hhas (.mu_ uid) ((congrFun hL₁.val uid).trans hf)⟩
      | false => exact hL₂

/-- `setKpAliveSender` up to its call of `Clear`, which finds the map locked. -/
theorem acts_setFd {i : Nat} {uid fd : Int32} (hi : Agree σ s) (hL : Owns (.worker i) [] σ s) :
    (locking SHA256).Acting (.worker i) l (.setFd uid fd) (locked (.worker i) (.setFd uid fd)).act σ s := by
  rw [acting_eq rfl]
  refine along_lock hi hL (by simp) (fun _ _ _ _ _ => rfl) fun f σ₁ s₁ h₁ hL₁ => ?_
  refine along_find h₁ hL₁ fun σ₂ s₂ h₂ hL₂ => ?_
  cases hf : f uid with
  | true =>
    refine along_sender h₂ hL₂ hf fun σ₃ s₃ h₃ hL₃ => ?_
    refine along_lock h₃ hL₃ (by simp [Mutex.rank]) (fun σ' _ _ hL' _ => (congrFun hL'.val uid).trans hf)
      fun v σ₄ s₄ h₄ hL₄ => ?_
    obtain ⟨fd₀, rfl⟩ := hL₄.mu h₄
    refine along_setFd h₄ hL₄ (by simp) fun σ₅ s₅ h₅ hL₅ => ?_
    obtain ⟨q, hsnd⟩ := val_mu.mp hL₅.base
    have hs : s₅.step (.setFd uid fd) true = some (s₅.withSender uid ⟨fd, q, false⟩) := by
      show s₅.onSender uid _ = _
      rw [onSender_eq hsnd]
      rfl
    refine effect h₅ hL₅ (by simp) (by simp) hs (touches_sender fd false hsnd) fun s₆ h₆ hL₆ => ?_
    have hval : (s₅.withSender uid ⟨fd, q, false⟩).val (.mu_ uid) = some (fd, false) := val_mu.mpr ⟨q, by simp⟩
    rw [hval] at hL₆
    refine along_unlock h₆ hL₆ (by simp) fun σ₇ s₇ _ h₇ hL₇ => ⟨h₇, ?_⟩
    show (carried (.worker i) (l ++ [⟨.setFd uid fd, true⟩])).Has (.worker i) σ₇ s₇
    rw [carried_setFd]
    exact ⟨f, hf, hL₇⟩
  | false =>
    refine along_op h₂ hL₂ (fun _ => rfl) fun σ₃ s₃ hr h₃ hL₃ => ⟨⟨hL₃.held, by simp, fun uid' fd' he => ?_⟩,
      fun _ σ₄ hs => ?_⟩
    · cases he
      have hnone : (σ₃.data.keepalive_sender_mp uid).isSome = false := (congrFun hL₃.val uid).trans hf
      simpa using hnone
    obtain rfl := Option.some.inj hs
    obtain ⟨hk, h₄, hL₄⟩ := hL₃.install fd h₃ hf
    refine ⟨fun t' ht => (hk t' ht).split.1, s₃.withSender uid ⟨fd, [], false⟩, ?_, fun t' ht => (hk t' ht).split.2, ?_⟩
    · have hnone : (s₃.keepalive_sender_mp uid).isSome = false := (congrFun hL₃.base uid).trans hf
      show (if (s₃.keepalive_sender_mp uid).isSome then none else _) = _
      rw [hnone]
      rfl
    · refine along_unlock h₄ hL₄ (by simp) fun σ₅ s₅ _ h₅ hL₅ => ⟨h₅, ?_⟩
      show (carried (.worker i) (l ++ [⟨.setFd uid fd, false⟩])).Has (.worker i) σ₅ s₅
      rw [carried_setFd]
      exact hL₅

theorem acts_Clear {i : Nat} {uid : Int32} {f : Int32 → Bool} (hi : Agree σ s) (hf : f uid = true)
    (hL : Owns (.worker i) [⟨.keepalive_sender_mp, f, f⟩] σ s) :
    (locking SHA256).Acting (.worker i) l (.Clear uid) (locked (.worker i) (.Clear uid)).act σ s := by
  rw [acting_eq rfl]
  refine along_sender hi hL hf fun σ₁ s₁ h₁ hL₁ => ?_
  refine along_lock h₁ hL₁ (by simp [Mutex.rank]) (fun σ' _ _ hL' _ => (congrFun hL'.val uid).trans hf)
    fun v σ₂ s₂ h₂ hL₂ => ?_
  obtain ⟨ql, rfl⟩ := hL₂.queue h₂
  refine along_queue h₂ hL₂ (by simp) (by simp) fun n ql' σ₃ s₃ hs h₃ hL₃ => ?_
  simp only [QueueAccess.step, Option.ite_none_right_eq_some, Option.some.injEq] at hs
  obtain ⟨rfl, rfl⟩ := hs
  refine drain_along _ h₃ hL₃ (by simp) rfl fun σ₄ s₄ h₄ hL₄ => ?_
  refine queue_effect h₄ hL₄ (by simp) (onSender_queue hL₄.base (fun _ => some []) fun _ => rfl) fun s₅ h₅ hL₅ => ?_
  refine along_unlock h₅ hL₅ (by simp) fun σ₆ s₆ _ h₆ hL₆ => ?_
  exact along_unlock h₆ hL₆ (by simp) fun σ₇ s₇ _ h₇ hL₇ => done_plain (by simp) rfl h₇ hL₇

/-! ## The operations of the senders -/

section
variable {uid fd : Int32} {pkt : Packet}

theorem acts_WaitAndPop (hi : Agree σ s) (hL : Owns (.sender uid) [] σ s) :
    (locking SHA256).Acting (.sender uid) [] (.WaitAndPop uid) (locked (.sender uid) (.WaitAndPop uid)).act σ s := by
  rw [acting_eq rfl]
  refine pop_along hi hL (fun _ _ _ _ h => h) (fun σ₁ s₁ h₁ hL₁ => ⟨rfl, h₁, hL₁⟩) fun pkt ql σ₁ s₁ h₁ hL₁ => ?_
  refine queue_effect h₁ hL₁ (by simp) ?_ fun s₂ h₂ hL₂ => along_unlock h₂ hL₂ (by simp) fun _ _ _ h₃ hL₃ => ⟨h₃, hL₃⟩
  refine (onSender_queue hL₁.base (fun ql => if ql.head? = some pkt then some ql.tail else none) fun snd => ?_).trans ?_
  · obtain ⟨fd, q, b⟩ := snd
    cases q with
    | nil => rfl
    | cons pkt' rest =>
      show (if pkt = pkt' then _ else none) = _
      simp only [List.head?_cons, Option.some.injEq, List.tail_cons, map_guard, eq_comm]
  · simp

/-- A sender takes its `mu_`, and reads `fd_`. -/
theorem acts_lock (hi : Agree σ s) (hL : Owns (.sender uid) [] σ s) :
    (locking SHA256).Acting (.sender uid) [⟨.WaitAndPop uid, pkt⟩] (.lock uid) (locked (.sender uid) (.lock uid)).act
      σ s := by
  rw [acting_eq rfl]
  refine along_lock hi hL (by simp) (fun _ _ _ hL₁ hst => hst.resolve_right hL₁.holds_none) fun v σ₁ s₁ h₁ hL₁ => ?_
  obtain ⟨fd, rfl⟩ := hL₁.mu h₁
  refine along_fd h₁ hL₁ (fun _ => rfl) fun σ₂ s₂ h₂ hL₂ => ?_
  obtain ⟨q, hsnd⟩ := val_mu.mp hL₂.base
  have hs : s₂.step (.lock uid) fd = some (s₂.withSender uid ⟨fd, q, true⟩) := by
    show s₂.onSender uid _ = _
    rw [onSender_eq hsnd]
    simp
  refine effect h₂ hL₂ (by simp) (by simp) hs (touches_sender fd true hsnd) fun s₃ h₃ hL₃ => ⟨h₃, ?_⟩
  have hval : (s₂.withSender uid ⟨fd, q, true⟩).val (.mu_ uid) = some (fd, true) := val_mu.mpr ⟨q, by simp⟩
  rwa [hval] at hL₃

/-- It gives its `mu_` up. -/
theorem acts_unlock (hi : Agree σ s) (hL : Owns (.sender uid) [⟨.mu_ uid, some (fd, false), some (fd, true)⟩] σ s)
    (hl : carried (.sender uid) (l ++ [⟨.unlock uid, ()⟩]) = .nothing) :
    (locking SHA256).Acting (.sender uid) l (.unlock uid) (locked (.sender uid) (.unlock uid)).act σ s := by
  rw [acting_eq rfl]
  refine along_op hi hL (fun _ => rfl) fun σ₁ s₁ hr h₁ hL₁ => ⟨⟨rfl, hL₁.held⟩, fun _ σ₂ hs => ?_⟩
  simp only [LockState.step, Option.ite_none_right_eq_some] at hs
  obtain rfl := Option.some.inj hs.2
  obtain ⟨q, hsnd⟩ := val_mu.mp hL₁.base
  have hval : (s₁.withSender uid ⟨fd, q, false⟩).val (.mu_ uid) = some (fd, false) := val_mu.mpr ⟨q, by simp⟩
  obtain ⟨hk, h₂, hL₂⟩ := hL₁.commit h₁ (by simp) (by simp) (touches_sender fd false hsnd)
  rw [hval] at hL₂
  obtain ⟨hk', h₃, hL₃⟩ := hL₂.drop (σ₁.unlocked (.mu_ uid)) h₂ (by simp) rfl rfl
  have hkeeps : ∀ t', t' ≠ .sender uid →
      Relies t' (σ₁, s₁) (σ₁.unlocked (.mu_ uid), s₁.withSender uid ⟨fd, q, false⟩) :=
    fun t' ht => (hk t' ht).trans (hk' t' ht)
  refine ⟨fun t' ht => (hkeeps t' ht).split.1, s₁.withSender uid ⟨fd, q, false⟩, ?_,
    fun t' ht => (hkeeps t' ht).split.2, h₃, ?_⟩
  · show s₁.onSender uid _ = _
    rw [onSender_eq hsnd]
    rfl
  · show (carried (.sender uid) (l ++ [⟨.unlock uid, ()⟩])).Has _ _ _
    rw [hl]
    exact hL₃

/-- A call on the descriptor it read, which it reads again. -/
theorem acts_onFd {k : Int32 → LockCode (Option o.Res)} (hi : Agree σ s)
    (hL : Owns (.sender uid) [⟨.mu_ uid, some (fd, false), some (fd, true)⟩] σ s) (ho : o.outside = true)
    (hact : (locked (.sender uid) o).act = .op (.fd uid) k) (hk : k fd = .op (.call o) fun r => .ret (some r))
    (hsees : ∀ fd', Coupling.shows (fun out => out.bind fun r => calls? ⟨o, r⟩) (k fd') = none)
    (hfin : ∀ r, (locked (.sender uid) o).fin r = .ret ())
    (hl : ∀ r, carried (.sender uid) (l ++ [⟨o, r⟩]) = .mu uid fd) :
    (locking SHA256).Acting (.sender uid) l o (locked (.sender uid) o).act σ s := by
  rw [hact]
  refine along_fd hi hL hsees fun σ₁ s₁ h₁ hL₁ => ?_
  rw [hk]
  refine along_call ho h₁ hL₁ hfin fun r σ₂ s₂ hL₂ => ?_
  rw [hl]
  exact hL₂

end

/-! ## The operations of every thread -/

/-- A worker that is not about to `Clear` holds nothing. -/
theorem owns_nothing {i : Nat} {q : Code Unit} (h : (RevcSocketThreadFunc SHA256).Path l q)
    (hq : ∀ uid k, q ≠ .op (.Clear uid) k) (hb : (carried (.worker i) l).Has (.worker i) σ s) :
    Owns (.worker i) [] σ s := by
  rcases List.eq_nil_or_concat l with rfl | ⟨l, x, rfl⟩
  · rwa [carried_nil] at hb
  rw [List.concat_eq_append] at h hb
  by_cases hx : x.op.tells = false
  · rwa [carried_plain (by simp) hx] at hb
  obtain ⟨o, r⟩ := x
  cases o with
  | getSender uid =>
    rw [carried_getSender] at hb
    cases r with
    | true => exact hb.1
    | false => exact hb
  | setFd uid fd =>
    rw [carried_setFd] at hb
    cases r with
    | true =>
      obtain ⟨k, rfl⟩ := clear_follows h
      exact absurd rfl (hq uid k)
    | false => exact hb
  | _ => exact absurd rfl hx

theorem acts_worker {i : Nat} (h : (RevcSocketThreadFunc SHA256).Issues l o)
    (hb : (carried (.worker i) l).Has (.worker i) σ s) (hi : Agree σ s) :
    (locking SHA256).Acting (.worker i) l o (locked (.worker i) o).act σ s := by
  by_cases hclear : ∃ uid, o = .Clear uid
  · obtain ⟨uid, rfl⟩ := hclear
    obtain ⟨fd, hlast⟩ := issues_clear_last h
    obtain ⟨l, rfl⟩ := List.getLast?_eq_some_iff.mp hlast
    rw [carried_setFd] at hb
    obtain ⟨f, hf, hL⟩ := hb
    exact acts_Clear hi hf hL
  have hL : Owns (.worker i) [] σ s := by
    obtain ⟨k, hk⟩ := h
    refine owns_nothing hk (fun uid k' hq => ?_) hb
    cases hq
    exact hclear ⟨uid, rfl⟩
  by_cases ho : o.outside = true
  · exact acts_outside (by simp) hi hL ho
  have hsender : o.ofSenders = false := by
    cases hof : o.ofSenders with
    | false => rfl
    | true =>
      have hown : o.ownSender ≠ none := by
        cases o <;> first | exact absurd rfl ho | exact Option.some_ne_none _ | cases hof
      obtain ⟨uid, hown⟩ := Option.ne_none_iff_exists'.mp hown
      have hw : ((server SHA256).body (.worker i)).Issues l o := h
      cases issues_ownSender hw hown
  cases o with
  | getSender uid => exact acts_getSender hi hL
  | setFd uid fd => exact acts_setFd hi hL
  | addSendTask uid pkt =>
    have hw : ((server SHA256).body (.worker i)).Issues l (.addSendTask uid pkt) := h
    obtain ⟨l, rfl⟩ := List.getLast?_eq_some_iff.mp (issues_push_last hw)
    rw [carried_getSender] at hb
    refine acts_plain (by simp) hi hL rfl rfl rfl (by simp) (fun uid' pkt' he => ?_) (by simp)
    cases he
    exact hb.2
  | _ =>
    refine acts_plain (by simp) hi hL (by simpa using ho) rfl hsender (fun uid he => hclear ⟨uid, he⟩) ?_
      fun he => worker_issues_pop (he ▸ h)
    intro uid pkt he
    cases he

/-- What a sender has between its `lock` and its `unlock`. -/
theorem carried_held {uid fd : Int32} {pkt : Packet} (h : l.getLast? ≠ some ⟨.unlock uid, ()⟩) :
    carried (.sender uid) (held uid pkt fd ++ l) = .mu uid fd := if_neg h

theorem last_ne {uid : Int32} (h : ∀ x ∈ l, x.op ≠ .unlock uid) : l.getLast? ≠ some ⟨.unlock uid, ()⟩ :=
  fun hlast => h _ (List.mem_of_getLast? hlast) rfl

theorem acts_sender {uid : Int32} (h : (KeepAliveMsgSender.run uid).Issues l o)
    (hb : (carried (.sender uid) l).Has (.sender uid) σ s) (hi : Agree σ s) :
    (locking SHA256).Acting (.sender uid) l o (locked (.sender uid) o).act σ s := by
  have hstep := sender_issues h
  -- what it has, where it works on the descriptor it read
  have hheld : ∀ {pkt : Packet} {fd : Int32} {l' : List Entry}, l = held uid pkt fd ++ l' →
      (∀ x ∈ l', x.op ≠ .unlock uid) → Owns (.sender uid) [⟨.mu_ uid, some (fd, false), some (fd, true)⟩] σ s := by
    intro pkt fd l' hl hl'
    rw [hl, carried_held (last_ne hl')] at hb
    exact hb
  have hnext : ∀ {pkt : Packet} {fd : Int32} {l' : List Entry} {x : Entry}, l = held uid pkt fd ++ l' →
      x.op ≠ .unlock uid → carried (.sender uid) (l ++ [x]) = .mu uid fd := by
    intro pkt fd l' x hl hx
    rw [hl, List.append_assoc]
    refine carried_held ?_
    rw [List.getLast?_append]
    simp only [List.getLast?_singleton, Option.some_or, ne_eq, Option.some.injEq]
    intro he
    exact hx (by rw [he])
  cases o with
  | WaitAndPop uid' =>
    cases hstep
    exact acts_WaitAndPop hi hb
  | lock uid' =>
    cases hstep
    exact acts_lock hi hb
  | unlock uid' =>
    cases hstep with
    | @unlock pkt fd out l =>
      have hlast : (⟨.Send fd pkt, out⟩ :: l : List Entry).getLast? ≠ some ⟨.unlock uid, ()⟩ := by
        intro hlast
        obtain ⟨l', hl'⟩ := List.getLast?_eq_some_iff.mp hlast
        obtain ⟨k, hk⟩ := h
        rw [hl', ← List.append_assoc] at hk
        cases (meets_run uid).path hk rfl
      rw [carried_held hlast] at hb
      refine acts_unlock hi hb ?_
      rw [List.append_assoc]
      exact if_pos (by simp [List.getLast?_cons])
  | Send fd pkt =>
    obtain ⟨pkt', l', hl, hun, -⟩ := hstep.on_fd (.inl ⟨pkt, rfl⟩)
    exact acts_onFd hi (hheld hl hun) rfl rfl rfl (fun _ => rfl) (fun _ => rfl) fun _ => hnext hl (by simp)
  | Recv fd =>
    obtain ⟨pkt', l', hl, hun, -⟩ := hstep.on_fd (.inr (.inl rfl))
    exact acts_onFd hi (hheld hl hun) rfl rfl rfl (fun _ => rfl) (fun _ => rfl) fun _ => hnext hl (by simp)
  | close fd =>
    obtain ⟨pkt', l', hl, hun, -⟩ := hstep.on_fd (.inr (.inr rfl))
    exact acts_onFd hi (hheld hl hun) rfl rfl rfl (fun _ => rfl) (fun _ => rfl) fun _ => hnext hl (by simp)
  | _ => cases hstep

/-- **Every operation is carried out under its locks.** -/
theorem locking_implements : (locking SHA256).Implements where
  body_op t := by cases t <;> exact ⟨_, _, rfl⟩
  act_op t o := by
    show ∃ o' k, (locked t o).act = .op o' k
    cases o with
    | getUserIdByToken token =>
      by_cases htoken : token = []
      · exact ⟨_, _, congrArg Impl.act (if_pos htoken)⟩
      · exact ⟨_, _, congrArg Impl.act (if_neg htoken)⟩
    | getSender id =>
      by_cases hid : id = 0
      · exact ⟨_, _, congrArg Impl.act (if_pos hid)⟩
      · exact ⟨_, _, congrArg Impl.act (if_neg hid)⟩
    | Send | Recv | close => cases t <;> exact ⟨_, _, rfl⟩
    | _ => exact ⟨_, _, rfl⟩
  acts t l o σ s h hb hi := by
    cases t with
    | acceptor =>
      have ho := sat_acceptor.issues h
      have hL : Owns .acceptor [] σ s := hb
      cases o with
      | pushRecvSocket fd => exact acts_plain (by simp) hi hL rfl rfl rfl (by simp) (by simp) (by simp)
      | _ => first | exact acts_outside (by simp) hi hL rfl | cases ho
    | worker i => exact acts_worker h hb hi
    | sender uid => exact acts_sender h hb hi
  turn t l σ s h hb := by
    show (carried t []).Has t σ s
    rw [carried_nil]
    cases t with
    | acceptor => exact hb
    | worker i => exact owns_nothing h (by simp) hb
    | sender uid =>
      obtain ⟨pkt, fd, l, rfl⟩ := run_unlocks h
      have hl : carried (.sender uid) (held uid pkt fd ++ (l ++ [⟨.unlock uid, ()⟩])) = .nothing := if_pos (by simp)
      rwa [show (locking SHA256).between = fun t l σ s => (carried t l).Has t σ s from rfl, hl] at hb
  last t l o r h := by
    have ho := last_outside h
    show (locked t o).fin r = .ret ()
    cases o with
    | Send | Recv | close => cases t <;> rfl
    | _ => first | rfl | cases ho

/-! ## The server under locks -/

abbrev LockConfig := Interleave.Config Tid LockOp LockOp.Res LockState

/-- The calls that were made, with their results and by whom, latest first. -/
def callsMade (h : List Event) : List (Tid × Entry) := h.filterMap fun e => (calls? e.act).map (e.tid, ·)

def lockCallsMade (h : List (Interleave.Event Tid LockOp LockOp.Res)) : List (Tid × Entry) :=
  h.filterMap fun e => (lockCalls? e.act).map (e.tid, ·)

/-- The two cannot be told from each other: by the calls made, by what is behind no mutex
and by what is behind a mutex that is free. -/
structure Indistinct (c' : LockConfig) (c : Config) : Prop where
  crashed : c'.crashed = c.crashed
  calls : lockCallsMade c'.history = callsMade c.history
  world : c'.crashed = false → c.state.world = c'.state.data.world
  objects : c'.crashed = false → ∀ m, c'.state.holder m = none → c.state.val m = c'.state.data.val m

theorem coupled_of_boot {file : DbFile} {disk : Bytes → Option Bytes} {c' : LockConfig}
    (h : (lockedServer SHA256).Reachable (.of (.boot file disk)) c') :
    ∃ c, (server SHA256).Reachable (.boot file disk) c ∧ (locking SHA256).Coupled c' c := by
  refine Coupling.refines locking_implements ⟨rfl, fun _ _ => rfl, rfl, by simp [LockState.of], ?_⟩ (fun t => ?_) h
  · intro uid x hx
    cases hx
  · show (carried t []).Has t _ _
    rw [carried_nil]
    exact ⟨by simp [LockState.of], by simp, by simp⟩

/-- **The functions under locks are atomic**: whatever the threads do inside them, the
server cannot be told from one that carries each out in a single step. -/
theorem locks_atomic {file : DbFile} {disk : Bytes → Option Bytes} {c' : LockConfig}
    (h : (lockedServer SHA256).Reachable (.of (.boot file disk)) c') :
    ∃ c, (server SHA256).Reachable (.boot file disk) c ∧ Indistinct c' c := by
  obtain ⟨c, hr, hc⟩ := coupled_of_boot h
  exact ⟨c, hr, hc.crashed, hc.observed, fun hrun => (hc.inv hrun).world, fun hrun => (hc.inv hrun).free⟩

namespace Example

/-- Worker 0 finds `RecvSocketQueue_` empty and sleeps; Bob connects, and the accepting
thread is inside the `Push` of his descriptor. -/
def sleeps : List (Tid × Interleave.Entry LockOp LockOp.Res) :=
  [(.worker 0, ⟨.lock (.worker 0) (.queue .RecvSocketQueue_), ()⟩),
    (.worker 0, ⟨.queue .RecvSocketQueue_ .empty, true⟩), (.worker 0, ⟨.wait (.worker 0) .RecvSocketQueue_, ()⟩),
    (.acceptor, ⟨.call .epoll_wait, [.server]⟩), (.acceptor, ⟨.call .accept, some 5⟩),
    (.acceptor, ⟨.call (.epollAdd 5), true⟩), (.acceptor, ⟨.call .epoll_wait, [.client 5 true]⟩),
    (.acceptor, ⟨.lock .acceptor (.queue .RecvSocketQueue_), ()⟩),
    (.acceptor, ⟨.queue .RecvSocketQueue_ (.push 5), ()⟩)]

end Example

theorem reachable_sleeps : ∃ c', (lockedServer Example.SHA256).Reachable (.of (.boot .absent fun _ => none)) c' ∧
    c'.crashed = false ∧ c'.state.asleep .RecvSocketQueue_ (.worker 0) = true ∧
    c'.state.holder (.queue .RecvSocketQueue_) = some .acceptor ∧ (lockCallsMade c'.history).length = 4 ∧
    c'.state.data.RecvSocketQueue = [5] := by
  have hexec : ((lockedServer Example.SHA256).execAll (fun _ _ => true)
      ((lockedServer Example.SHA256).init (.of (.boot .absent fun _ => none))) Example.sleeps).any
      (fun c' => decide (c'.crashed = false ∧ c'.state.asleep .RecvSocketQueue_ (.worker 0) = true ∧
        c'.state.holder (.queue .RecvSocketQueue_) = some .acceptor ∧ (lockCallsMade c'.history).length = 4 ∧
        c'.state.data.RecvSocketQueue = [5])) = true := by
    decide +kernel
  obtain ⟨c', hc', hp⟩ := (Option.any_eq_true _ _).mp hexec
  exact ⟨c', .execAll (fun _ _ _ _ _ _ _ => trivial) hc', of_decide_eq_true hp⟩

/-- The four calls are made, and the accepting thread is inside `Push`. -/
theorem locks_atomic_sleeps : ∃ c' c, c'.state.asleep .RecvSocketQueue_ (.worker 0) = true ∧
    c'.state.holder (.queue .RecvSocketQueue_) = some .acceptor ∧ (lockCallsMade c'.history).length = 4 ∧
    Reachable Example.SHA256 c ∧ Indistinct c' c := by
  obtain ⟨c', hr', -, hasleep, hholder, hcalls, -⟩ := reachable_sleeps
  obtain ⟨c, hr, hi⟩ := locks_atomic hr'
  exact ⟨c', c, hasleep, hholder, hcalls, hr, hi⟩

end NetChat
