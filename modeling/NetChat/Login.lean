/-
Logging in. Who registered, asks for a challenge and answers it is logged in,
whatever else the server handles meanwhile: the row of a registration is found
by its name from then on, and only the user's own requests write the user's
challenge.
-/
import Mathlib.Tactic.Tauto
import NetChat.Consumed
import NetChat.Tokens

namespace NetChat

open Interleave Prog DataAccess

variable {SHA256 : Bytes → Bytes} {ok : Config → Event → Prop} {c c' : Config} {e : Event} {uid : Int32}
  {n p challenge : Bytes}

/-! ## A registration -/

/-- The row that the turn of `e` inserted, `earlier` being what happened before `e`. -/
def Created (c : Config) (earlier : List Event) (e : Event) (row : UserRow) : Prop :=
  row ∈ c.state.db.users ∧ ∃ mid past l, Machine.SameTurn e.tid mid ∧
    earlier = mid ++ ⟨e.tid, l, .insertUser row.username row.password, .ok 1⟩ :: past

/-- A row inserted is found by its name. -/
theorem insertUser_getUser {s s' : State} (h : s.step (.insertUser (cstr n) p) (.ok 1) = some s') :
    ∃ row ∈ s'.db.users, row.username = cstr n ∧ row.password = p ∧ s'.db.getUser n = some row.toUser := by
  simp only [State.step, State.insert_eq_some, true_and, reduceCtorEq, exists_false, false_and, or_false] at h
  obtain ⟨db, hdb, rfl⟩ := h
  simp only [insertUser, Option.ite_none_left_eq_some, Option.some.injEq, List.any_eq_true, beq_iff_eq, not_exists,
    not_and] at hdb
  obtain ⟨hnew, rfl⟩ := hdb
  refine ⟨⟨s.db.users.length + 1, cstr n, p⟩, by simp, rfl, rfl, ?_⟩
  have hnone : s.db.users.find? (fun r => r.username == cstr n) = none :=
    List.find?_eq_none.mpr fun r hr => by simpa using hnew r hr
  simp only [getUser, List.find?_append, hnone, Option.none_or, List.find?_singleton, beq_self_eq_true, if_true,
    Option.map_some]

/-- It is found by it from then on. -/
theorem inserted_getUser (h : (server SHA256).ReachableWhen ok State.initial c) (he : e ∈ c.history)
    (hx : e.act = ⟨.insertUser (cstr n) p, .ok 1⟩) :
    ∃ row ∈ c.state.db.users, row.username = cstr n ∧ row.password = p ∧ c.state.db.getUser n = some row.toUser := by
  obtain ⟨c₁, c₂, -, hs, -, hsteps⟩ := h.event_mem he
  have hins := hs.state
  rw [hx] at hins
  obtain ⟨row, hrow, hname, hpass, hget⟩ := insertUser_getUser hins
  have hgrow := steps_users_grow hsteps
  exact ⟨row, hgrow.subset hrow, hname, hpass, getUser_grow hgrow hget⟩

/-- The turn of a successful registration inserted the user. -/
theorem register_inserts (h : (server SHA256).ReachableWhen ok State.initial c) {later earlier : List Event}
    (hh : c.history = later ++ e :: earlier)
    (he : Responds .RegisterRequest (⟨n, p⟩ : RegisterRequest)
      (packToPacket .RegisterResponse (.RegisterResponse true)) e) :
    ∃ mid past l, Machine.SameTurn e.tid mid ∧
      earlier = mid ++ ⟨e.tid, l, .insertUser (cstr n) (cstr (SHA256 p)), .ok 1⟩ :: past := by
  obtain ⟨c₁, c₂, h₁, rfl, hs, -, -⟩ := h.event hh
  obtain ⟨pkt, fd, hpkt, ht, hq, ho⟩ := he
  obtain ⟨i, conn, k, hd, l, cb, -, hl, hhd, hrun⟩ := reply_run h₁ hs hpkt ho
  rw [handler_register ht] at hhd
  cases hhd
  rcases onRegisterRequest_runs hrun with ⟨-, -, hreply⟩ | ⟨ret, -, rfl, hreply⟩
  · simp at hreply
  simp only [Prod.mk.injEq, packToPacket_inj, true_and, Body.RegisterResponse.injEq] at hreply
  rw [hq] at hl
  obtain ⟨mid, past, hmid, hturn⟩ := h.pre_since hh (q := []) hl
  obtain ⟨c₃, c₄, -, -, hs₃, -, -⟩ := h₁.event hmid
  have hins := hs₃.state
  simp only [server, State.step, State.insert_eq_some] at hins
  rcases hins with ⟨-, rfl, -⟩ | ⟨⟨err, rfl⟩, -⟩
  · exact ⟨mid, past, _, hturn, hmid⟩
  · simp [g_db.caught] at hreply

/-- **A successful registration** created a user, who is found ever after by the name
registered. -/
theorem register_creates (h : (server SHA256).ReachableWhen ok State.initial c) {later earlier : List Event}
    (hh : c.history = later ++ e :: earlier)
    (he : Responds .RegisterRequest (⟨n, p⟩ : RegisterRequest)
      (packToPacket .RegisterResponse (.RegisterResponse true)) e) :
    ∃ row, Created c earlier e row ∧ row.password = cstr (SHA256 p) ∧
      ∀ g ∈ later, ∀ u, g.act = ⟨.getUser n, .ok u⟩ → u = some row.toUser := by
  obtain ⟨mid, past, l, hturn, hmid⟩ := register_inserts h hh he
  have hin : ⟨e.tid, l, .insertUser (cstr n) (cstr (SHA256 p)), .ok 1⟩ ∈ earlier := by rw [hmid]; simp
  have hall : ⟨e.tid, l, .insertUser (cstr n) (cstr (SHA256 p)), .ok 1⟩ ∈ c.history := by rw [hh]; simp [hin]
  obtain ⟨row, hrow, hname, hpass, hget⟩ := inserted_getUser h hall rfl
  refine ⟨row, ⟨hrow, mid, past, l, hturn, by rw [hname, hpass]; exact hmid⟩, hpass, fun g hg u hgact => ?_⟩
  obtain ⟨a, b, rfl⟩ := List.append_of_mem hg
  have hsplit : c.history = a ++ g :: (b ++ e :: earlier) := by rw [hh]; simp
  obtain ⟨c₁, c₂, h₁, hh₁, hs, -, hsteps⟩ := h.event hsplit
  have hall₁ : ⟨e.tid, l, .insertUser (cstr n) (cstr (SHA256 p)), .ok 1⟩ ∈ c₁.history := by rw [hh₁]; simp [hin]
  obtain ⟨row₁, -, -, -, hget₁⟩ := inserted_getUser h₁ hall₁ rfl
  have hsel := hs.state
  rw [hgact] at hsel
  rw [(State.query_ok hsel).2, hget₁, ← hget]
  exact (getUser_grow ((users_grow_step hs).trans (steps_users_grow hsteps)) hget₁).symm

/-! ## The turns of a login -/

/-- `start` is the first operation of the turn of `e`, and `mid` what happened in between. -/
def TurnFrom (start : Event) (mid : List Event) (e : Event) : Prop :=
  start.tid = e.tid ∧ start.pre = [] ∧ Machine.SameTurn e.tid mid

/-- `e` is of a turn that handles a `LoginPreRequest` or a `LoginRequest`, which resolved
to `uid`. -/
def Resolved (uid : Int32) (e : Event) : Prop :=
  ∃ pkt n user, handling e.pre = some pkt ∧
    (pkt.packetid = PacketType.val .LoginPreRequest ∨ pkt.packetid = PacketType.val .LoginRequest) ∧
    ⟨.getUser n, .ok (some user)⟩ ∈ e.pre ∧ user.id = uid

/-- What a turn did before `e`, but its first operation, came since its start. -/
theorem TurnFrom.pre (h : (server SHA256).ReachableWhen ok State.initial c) {later mid before : List Event}
    {start : Event} (hh : c.history = later ++ e :: (mid ++ start :: before)) (hturn : TurnFrom start mid e)
    {l l' : List Entry} {x : Entry} (hl : e.pre = l ++ x :: l') (hne : l ≠ []) :
    ∃ a b, mid = a ++ ⟨e.tid, l, x⟩ :: b ∧ Machine.SameTurn e.tid a := by
  obtain ⟨ht, hpre, hsame⟩ := hturn
  obtain ⟨mid', past, hmid, hturn'⟩ := h.pre_since hh hl
  rcases split_cases hmid with ⟨-, rfl, -⟩ | ⟨m, rfl, -⟩ | ⟨m, rfl, -⟩
  · exact absurd hpre hne
  · exact absurd hpre (hturn' start (by simp) ht)
  · exact ⟨mid', m, rfl, hturn'⟩

/-- **Who writes a challenge**: a request that resolved to its user, and that stored
none before. -/
theorem writes_resolved (h : (server SHA256).ReachableWhen ok State.initial c) (hs : (server SHA256).Step c e c')
    (hw : e.act.op.writesChallenge uid ≠ none) :
    Resolved uid e ∧ ∀ x ∈ e.pre, ∀ id ch, x.op ≠ .setChallengeMp id ch := by
  have ho : (∃ ch, e.act.op = .setChallengeMp uid ch) ∨ e.act.op = .delChallengeMp uid := by
    cases hop : e.act.op <;> rw [hop] at hw <;> simp only [Op.writesChallenge, ne_eq, not_true_eq_false] at hw
    · split at hw <;> simp_all
    · split at hw <;> simp_all
  rcases ho with ⟨ch, ho⟩ | ho
  · obtain ⟨i, fd, conn, k, pkt, user, seed, -, hp, hpre, rfl, -⟩ := setChallengeMp_gives h hs ho
    rw [hpre]
    exact ⟨⟨pkt, (pkt.request LoginPreRequest).username, user, by rw [hpre]; rfl, .inl hp, by rw [hpre]; simp, rfl⟩,
      by simp [received]⟩
  · obtain ⟨i, fd, conn, k, pkt, l, -, hl, hp, hi⟩ := step_handler handler_login h hs ho rfl
    obtain ⟨user, ch, rest, rfl, rfl, hrest⟩ := onLoginRequest_delChallengeMp hi
    refine ⟨⟨pkt, (pkt.request LoginRequest).username, user, by rw [hl]; rfl, .inr hp, by rw [hl]; simp, rfl⟩, ?_⟩
    rw [hl]
    intro x hx id ch'
    simp only [received, List.cons_append, List.nil_append, List.mem_cons] at hx
    rcases hx with rfl | rfl | rfl | rfl | hx
    · simp
    · simp
    · simp
    · simp
    · exact (hrest x hx id).2 ch'

/-! ## Login completeness -/

/-- A `LoginPreRequest` and a `LoginRequest` after it: the replies to them, the first
operations of their turns, and what happened in between, latest first. -/
structure LoginSession where
  login : Event
  mid : List Event
  start : Event
  between : List Event
  preLogin : Event
  preMid : List Event
  preStart : Event

namespace LoginSession

def events (s : LoginSession) : List Event :=
  s.login :: (s.mid ++ s.start :: (s.between ++ s.preLogin :: (s.preMid ++ [s.preStart])))

/-- The `LoginPreRequest` for `n` returned `challenge`, and the `LoginRequest`, which
answers it with the password `p`, was answered with `r`. -/
structure Answers (SHA256 : Bytes → Bytes) (s : LoginSession) (n p challenge : Bytes) (r : LoginResponse) : Prop where
  preTurn : TurnFrom s.preStart s.preMid s.preLogin
  given : Responds .LoginPreRequest (⟨n⟩ : LoginPreRequest)
    (packToPacket .LoginPreResponse (.LoginPreResponse challenge)) s.preLogin
  turn : TurnFrom s.start s.mid s.login
  answered : Responds .LoginRequest (⟨n, SHA256 (SHA256 p ++ challenge)⟩ : LoginRequest)
    (packToPacket .LoginResponse (.LoginResponse r)) s.login

/-- No other request that resolved to `uid` was in progress. -/
structure Apart (s : LoginSession) (uid : Int32) : Prop where
  preMid : ∀ x ∈ s.preMid, Resolved uid x → x.tid = s.preLogin.tid
  between : ∀ x ∈ s.between, ¬ Resolved uid x
  mid : ∀ x ∈ s.mid, Resolved uid x → x.tid = s.login.tid

end LoginSession

/-- **Login completeness**: after a successful registration, a login that answers a
challenge given to the name registered is accepted, for the user created, and its
token stands for that user. -/
def LoginsComplete (SHA256 : Bytes → Bytes) (c : Config) : Prop :=
  ∀ (s : LoginSession) later before register earlier n p challenge r,
    c.history = later ++ s.events ++ (before ++ register :: earlier) →
    Responds .RegisterRequest (⟨n, p⟩ : RegisterRequest) (packToPacket .RegisterResponse (.RegisterResponse true))
      register →
    s.Answers SHA256 n p challenge r → (∀ row, Created c earlier register row → s.Apart (getInt row.user_id)) →
    ∃ row token, Created c earlier register row ∧ r = ⟨true, getInt row.user_id, token⟩ ∧
      c.state.getUserIdByToken token = getInt row.user_id

namespace LoginSession

variable {s : LoginSession} {later rest : List Event} {r : LoginResponse} {user : User}

theorem history_login (hh : c.history = later ++ s.events ++ rest) :
    c.history = later ++ s.login ::
      (s.mid ++ s.start :: (s.between ++ s.preLogin :: (s.preMid ++ s.preStart :: rest))) := by
  rw [hh]
  simp [events]

theorem history_preLogin (hh : c.history = later ++ s.events ++ rest) :
    c.history = (later ++ s.login :: (s.mid ++ s.start :: s.between)) ++
      s.preLogin :: (s.preMid ++ s.preStart :: rest) := by
  rw [hh]
  simp [events]

/-- The challenge that is returned was stored, when the name is found. -/
theorem Answers.stored (hs : s.Answers SHA256 n p challenge r) (h : (server SHA256).ReachableWhen ok State.initial c)
    (hh : c.history = later ++ s.events ++ rest)
    (hfound : ∀ g ∈ s.preMid, ∀ u, g.act = ⟨.getUser n, .ok u⟩ → u = some user) :
    ∃ a given b, s.preMid = a ++ given :: b ∧ given.tid = s.preLogin.tid ∧ Machine.SameTurn given.tid a ∧
      given.act.op = .setChallengeMp user.id challenge := by
  obtain ⟨c₁, c₂, h₁, -, hs₁, -, -⟩ := h.event (history_preLogin hh)
  obtain ⟨pkt, fd, hpkt, hp, hq, ho⟩ := hs.given
  obtain ⟨i, conn, k, hd, l, cb, -, hl, hhd, hrun⟩ := reply_run h₁ hs₁ hpkt ho
  rw [handler_loginPre hp] at hhd
  cases hhd
  obtain ⟨ch, hrun, hreply⟩ := onLoginPreRequest_runs hrun
  simp only [Prod.mk.injEq, packToPacket_inj, true_and, Body.LoginPreResponse.injEq] at hreply
  obtain ⟨rfl, -⟩ := hreply
  rw [hq] at hrun
  cases hrun with
  | unknown =>
    obtain ⟨a, b, hab, -⟩ := hs.preTurn.pre h (history_preLogin hh) hl (by simp [received])
    have hin : ⟨s.preLogin.tid, received fd conn k pkt, ⟨.getUser n, .ok none⟩⟩ ∈ s.preMid := by rw [hab]; simp
    exact absurd (hfound _ hin none rfl) (by simp)
  | @given user' seed =>
    obtain ⟨a, b, hab, -⟩ := hs.preTurn.pre h (history_preLogin hh) hl (by simp [received])
    have hin : ⟨s.preLogin.tid, received fd conn k pkt, ⟨.getUser n, .ok (some user')⟩⟩ ∈ s.preMid := by
      rw [hab]
      simp
    obtain rfl := Option.some.inj (hfound _ hin (some user') rfl)
    have hset : s.preLogin.pre = (received fd conn k pkt ++ [⟨.getUser n, .ok (some user')⟩, ⟨.time, seed⟩,
        ⟨.genChallenge seed, challenge⟩]) ++ ⟨.setChallengeMp user'.id challenge, ()⟩ :: [] := by rw [hl]; simp
    obtain ⟨a, b, hab, hturn⟩ := hs.preTurn.pre h (history_preLogin hh) hset (by simp [received])
    exact ⟨a, _, b, hab, rfl, hturn, rfl⟩

/-- Nothing writes the challenge between its store and the login's read. -/
theorem Apart.unwritten (hpart : s.Apart uid) (hs : s.Answers SHA256 n p challenge r)
    (h : (server SHA256).ReachableWhen ok State.initial c) (hh : c.history = later ++ s.events ++ rest)
    {a b a' b' : List Event} {given attempt : Event} (hgiven : s.preMid = a ++ given :: b)
    (ht : given.tid = s.preLogin.tid) (hturn : Machine.SameTurn given.tid a)
    (ho : given.act.op = .setChallengeMp uid challenge) (hattempt : s.mid = a' ++ attempt :: b')
    (ht' : attempt.tid = s.login.tid) (ho' : attempt.act.op = .getChallengeMp uid) :
    Unwritten uid (b' ++ s.start :: (s.between ++ s.preLogin :: a)) := by
  have hlogin := history_login hh
  have hpre := history_preLogin hh
  rw [hattempt] at hlogin
  rw [hgiven] at hpre
  intro x hx
  by_contra hw
  have hin : x ∈ c.history := by
    rw [hlogin, hgiven]
    simp only [List.mem_append, List.mem_cons] at hx ⊢
    tauto
  obtain ⟨c₁, c₂, h₁, hs₁, -, -⟩ := h.event_mem hin
  obtain ⟨hres, hno⟩ := writes_resolved h₁ hs₁ hw
  rcases List.mem_append.mp hx with hx | hx
  · -- the login's own turn, up to the read, wrote nothing
    have htx := hpart.mid x (by rw [hattempt]; simp [hx]) hres
    obtain ⟨u, v, rfl⟩ := List.append_of_mem hx
    have hsplit : c.history = (later ++ s.login :: a') ++ attempt :: (u ++ x :: (v ++ s.start ::
        (s.between ++ s.preLogin :: (s.preMid ++ s.preStart :: rest)))) := by rw [hlogin]; simp
    obtain ⟨c₃, c₄, h₃, hh₃, hs₃, -, -⟩ := h.event hsplit
    have hlog := h₃.log_of_sameTurn hh₃ fun y hy => htx ▸ hs.turn.2.2 y (by rw [hattempt]; simp [hy])
    rw [htx, ← ht', hs₃.log] at hlog
    obtain ⟨-, fd, conn, k, pkt, user, -, -, hl, -, -⟩ := getChallengeMp_reads h₃ hs₃ ho'
    rcases hlog with hlog | ⟨q, hlog⟩
    · rw [hlog] at hl
      simp [received] at hl
    · have hact : x.act ∈ attempt.pre := by rw [hlog]; simp
      rw [hl] at hact
      simp only [received, List.cons_append, List.nil_append, List.mem_cons, List.not_mem_nil, or_false] at hact
      rcases hact with hact | hact | hact <;> rw [hact] at hw <;> exact hw rfl
  rcases List.mem_cons.mp hx with rfl | hx
  · obtain ⟨pkt, -, -, hpkt, -⟩ := hres
    rw [hs.turn.2.1] at hpkt
    cases hpkt
  rcases List.mem_append.mp hx with hx | hx
  · exact hpart.between x hx hres
  rcases List.mem_cons.mp hx with rfl | hx
  · obtain ⟨-, fd, -, -, -, hsend⟩ := hs.given
    rw [hsend] at hw
    exact hw rfl
  · -- the turn that stored the challenge wrote no more
    have htx := hpart.preMid x (by rw [hgiven]; simp [hx]) hres
    obtain ⟨u, v, rfl⟩ := List.append_of_mem hx
    have hsplit : c.history = (later ++ s.login :: (s.mid ++ s.start :: s.between) ++ s.preLogin :: u) ++
        x :: (v ++ given :: (b ++ s.preStart :: rest)) := by rw [hpre]; simp
    obtain ⟨c₃, c₄, h₃, hh₃, hs₃, -, -⟩ := h.event hsplit
    have hlog := h₃.log_of_sameTurn hh₃ fun y hy => hturn y (by simp [hy])
    rw [ht, ← htx, hs₃.log] at hlog
    rcases hlog with hlog | ⟨q, hlog⟩
    · obtain ⟨pkt, -, -, hpkt, -⟩ := hres
      rw [hlog] at hpkt
      cases hpkt
    · exact hno given.act (by rw [hlog]; simp) _ _ ho

/-- The login reads the challenge returned. -/
theorem Apart.reads (hpart : s.Apart user.id) (hs : s.Answers SHA256 n p challenge r)
    (h : (server SHA256).ReachableWhen ok State.initial c) (hh : c.history = later ++ s.events ++ rest)
    (hfound : ∀ g ∈ s.preMid, ∀ u, g.act = ⟨.getUser n, .ok u⟩ → u = some user) {l l' : List Entry} {ch : Bytes}
    (hl : s.login.pre = l ++ ⟨.getChallengeMp user.id, ch⟩ :: l') (hne : l ≠ []) : ch = challenge := by
  obtain ⟨a, given, b, hgiven, ht, hturn, ho⟩ := hs.stored h hh hfound
  obtain ⟨a', b', hattempt, -⟩ := hs.turn.pre h (history_login hh) hl hne
  have hw := hpart.unwritten hs h hh hgiven ht hturn ho hattempt rfl rfl
  have hsplit : c.history = (later ++ s.login :: a') ++ ⟨s.login.tid, l, ⟨.getChallengeMp user.id, ch⟩⟩ ::
      ((b' ++ s.start :: (s.between ++ s.preLogin :: a)) ++ given :: (b ++ s.preStart :: rest)) := by
    rw [history_login hh, hattempt, hgiven]
    simp
  obtain ⟨c₁, c₂, h₁, -, hs₁, -, hpool⟩ := challenge_kept h hsplit ho hw
  have hread := hs₁.state
  simp only [server, State.step, Option.ite_none_right_eq_some, Option.some.injEq] at hread
  rw [hread.1, hpool]
  rfl

end LoginSession

open LoginSession in
/-- **Logins complete**, in every run that generates no token twice. -/
theorem login_complete (hhex : ∀ s, ∀ b ∈ SHA256 s, b ≠ 0) (h : ReachableWhen SHA256 FreshTokens c) :
    LoginsComplete SHA256 c := by
  intro s later before register earlier n p challenge r hh hreg hs hapart
  have hregister : c.history = (later ++ s.events ++ before) ++ register :: earlier := by rw [hh]; simp
  obtain ⟨row, hrow, hpass, hfound⟩ := register_creates h hregister hreg
  have hpre : ∀ g ∈ s.preMid, ∀ u, g.act = ⟨.getUser n, .ok u⟩ → u = some row.toUser :=
    fun g hg => hfound g (by simp [events, hg])
  have hmid : ∀ g ∈ s.mid, ∀ u, g.act = ⟨.getUser n, .ok u⟩ → u = some row.toUser :=
    fun g hg => hfound g (by simp [events, hg])
  have hlogin := history_login hh
  obtain ⟨c₁, c₂, h₁, -, hs₁, -, -⟩ := h.event hlogin
  obtain ⟨pkt, fd, hpkt, hp, hq, ho⟩ := hs.answered
  obtain ⟨i, conn, k, hd, l, cb, -, hl, hhd, hrun⟩ := reply_run h₁ hs₁ hpkt ho
  rw [handler_login hp] at hhd
  cases hhd
  obtain ⟨r', hrun, hreply⟩ := onLoginRequest_runs hrun
  simp only [Prod.mk.injEq, packToPacket_inj, true_and, Body.LoginResponse.injEq] at hreply
  obtain ⟨rfl, -⟩ := hreply
  rw [hq] at hrun
  -- the name is found
  have huser : ∀ u rest, l = ⟨.getUser n, .ok u⟩ :: rest → u = some row.toUser := by
    intro u rest hu
    rw [hu] at hl
    obtain ⟨a, b, hab, -⟩ := hs.turn.pre h hlogin hl (by simp [received])
    have hin : ⟨s.login.tid, received fd conn k pkt, ⟨.getUser n, .ok u⟩⟩ ∈ s.mid := by rw [hab]; simp
    exact hmid _ hin u rfl
  cases hrun with
  | unknown => exact absurd (huser none [] rfl) (by simp)
  | @accepted user ch token hash =>
    obtain rfl := Option.some.inj (huser _ _ rfl)
    refine ⟨row, token, hrow, rfl, ?_⟩
    have hset : ⟨.setUserIdByToken token row.toUser.id, ()⟩ ∈ s.login.pre := by rw [hl]; simp
    obtain ⟨g, hg, -, hact⟩ := h.pre_mem hlogin hset
    have hin : g ∈ c.history := by
      rw [hlogin]
      exact List.mem_append_right _ (List.mem_cons_of_mem _ hg)
    obtain ⟨c₃, c₄, h₃, hs₃, -, -⟩ := h.event_mem hin
    obtain ⟨hne, hpool⟩ := issued_stays h hin (setUserIdByToken_issuesToken h₃ hs₃ (by rw [hact]))
    rw [State.getUserIdByToken, if_neg hne, hpool]
    rfl
  | @refused user ch hash =>
    obtain rfl := Option.some.inj (huser _ _ rfl)
    have hread : s.login.pre = (received fd conn k pkt ++ [⟨.getUser n, .ok (some row.toUser)⟩]) ++
        ⟨.getChallengeMp row.toUser.id, ch⟩ :: [⟨.delChallengeMp row.toUser.id, ()⟩] := by rw [hl]; simp
    have hch := (hapart row hrow).reads hs h hh hpre hread (by simp [received])
    have hpassword : row.toUser.password = SHA256 p := by
      rw [UserRow.toUser, User.new, hpass, cstr_cstr, cstr_eq_self (hhex p)]
    rw [hpassword, hch] at hash
    exact absurd rfl hash

/-! ## A login with a registration meanwhile -/

namespace Example

/-- Alice registers between Bob's challenge and his login. -/
def registersMeanwhile : Schedule :=
  connects 5 ++ registers 5 0 bob.username password digest ++ challenges 5 0 bob Example.challenge ++
    handles 1 5 0 (packToPacket .RegisterRequest (.RegisterRequest ⟨bytes "alice", password⟩))
      [⟨.insertUser (bytes "alice") digest, .ok 1⟩, replies 5 0 .RegisterResponse (.RegisterResponse true)] ++
    logsIn 5 0 bob Example.challenge response token

theorem SHA256_ne_zero : ∀ s, ∀ b ∈ Example.SHA256 s, b ≠ 0 := by
  have hdigests : (∀ b ∈ digest, b ≠ 0) ∧ (∀ b ∈ response, b ≠ 0) ∧ ∀ b ∈ blankResponse, b ≠ 0 := by
    decide +kernel
  intro s
  unfold Example.SHA256
  split
  · exact hdigests.1
  split
  · exact hdigests.2.1
  split
  · exact hdigests.2.2
  · simp

end Example

theorem login_complete_bob : ∃ c, LoginsComplete Example.SHA256 c ∧ c.state.db.users.length = 2 ∧
    (c.history.head?.map fun e => (handling e.pre, e.act.op)) = some (some Example.login,
      .Send 5 (packToPacket .LoginResponse (.LoginResponse ⟨true, 1, Example.token⟩))) := by
  obtain ⟨c, hr, hlen, hlast⟩ := reachableWhen_of_run Example.SHA256 FreshTokens checkFirstUUID
    Example.registersMeanwhile
    (fun c => c.state.db.users.length = 2 ∧
      (c.history.head?.map fun e => (handling e.pre, e.act.op)) = some (some Example.login,
        .Send 5 (packToPacket .LoginResponse (.LoginResponse ⟨true, 1, Example.token⟩))))
    (fun _ _ _ _ _ _ hcheck => freshTokens_of_check hcheck) (by decide +kernel)
  exact ⟨c, login_complete Example.SHA256_ne_zero hr, hlen, hlast⟩

end NetChat
