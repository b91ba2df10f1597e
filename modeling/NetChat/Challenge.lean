/-
Logging in by challenge. The pool holds, for each user, the challenge the last
`LoginPreRequest` was given and no `LoginRequest` has read since; a login is
sound when it answers that challenge. When the pool holds none,
`getChallengeMp` gives the empty string all the same, and the hash of the
password hash alone answers that.
-/
import NetChat.Frames
import NetChat.Turns

namespace NetChat

open Interleave

variable {SHA256 : Bytes → Bytes} {ok : Config → Event → Prop} {c c' : Config} {e : Event}

/-! ## The requests of a user -/

/-- The step by which a `LoginPreRequest` that resolved to `uid` gets `challenge`. -/
def GivesChallenge (uid : Int32) (challenge : Bytes) (e : Event) : Prop :=
  ∃ i fd conn n pkt user seed, e.tid = .worker i ∧ pkt.packetid = PacketType.val .LoginPreRequest ∧
    e.pre = received fd conn n pkt ++ [⟨.getUser (pkt.request LoginPreRequest).username, .ok (some user)⟩,
      ⟨.time, seed⟩, ⟨.genChallenge seed, challenge⟩] ∧
    uid = user.id ∧ e.act = ⟨.setChallengeMp uid challenge, ()⟩

/-- The step by which a `LoginRequest` that resolved to `uid` reads its challenge. -/
def ReadsChallenge (uid : Int32) (e : Event) : Prop :=
  ∃ i fd conn n pkt user, e.tid = .worker i ∧ pkt.packetid = PacketType.val .LoginRequest ∧
    e.pre = received fd conn n pkt ++ [⟨.getUser (pkt.request LoginRequest).username, .ok (some user)⟩] ∧
    uid = user.id ∧ e.act.op = .getChallengeMp uid

/-- `e` answers the `LoginRequest` `pkt` with `logined = true` for `uid`. -/
def LogsIn (pkt : Packet) (uid : Int32) (e : Event) : Prop :=
  handling e.pre = some pkt ∧ pkt.packetid = PacketType.val .LoginRequest ∧
    ∃ fd token, e.act.op = .Send fd (packToPacket .LoginResponse (.LoginResponse ⟨true, uid, token⟩))

theorem setChallengeMp_gives {s : State} (hr : (server SHA256).ReachableWhen ok s c)
    (h : (server SHA256).Step c e c') {uid : Int32} {challenge : Bytes}
    (ho : e.act.op = .setChallengeMp uid challenge) : GivesChallenge uid challenge e := by
  obtain ⟨i, fd, conn, n, pkt, l, ht, hl, hp, hi⟩ := step_handler handler_loginPre hr h ho rfl
  obtain ⟨_, hact⟩ := Entry.of_op ho
  obtain ⟨user, seed, rfl, huid⟩ := onLoginPreRequest_setChallengeMp hi
  exact ⟨i, fd, conn, n, pkt, user, seed, ht, hp, hl, huid, hact⟩

theorem getChallengeMp_reads (hr : (server SHA256).ReachableWhen ok State.initial c)
    (h : (server SHA256).Step c e c') {uid : Int32} (ho : e.act.op = .getChallengeMp uid) :
    ReadsChallenge uid e := by
  obtain ⟨i, fd, conn, n, pkt, l, ht, hl, hp, hi⟩ := step_handler handler_login hr h ho rfl
  obtain ⟨user, rfl, huid⟩ := onLoginRequest_getChallengeMp hi
  exact ⟨i, fd, conn, n, pkt, user, ht, hp, hl, huid, ho⟩

/-- What a successful login does between reading the challenge and its reply. -/
def loggedIn (uid : Int32) (token : Bytes) : List Entry :=
  [⟨.getUUID, token⟩, ⟨.setUserIdByToken token uid, ()⟩, ⟨.delChallengeMp uid, ()⟩]

/-- The turn of a successful login up to its reply. -/
theorem logsIn_pre {s : State} (hr : (server SHA256).ReachableWhen ok s c) (h : (server SHA256).Step c e c')
    {pkt : Packet} {uid : Int32} (hl : LogsIn pkt uid e) :
    ∃ i fd conn n user challenge token, e.tid = .worker i ∧
      e.pre = received fd conn n pkt ++ [⟨.getUser (pkt.request LoginRequest).username, .ok (some user)⟩] ++
        ⟨.getChallengeMp user.id, challenge⟩ :: loggedIn user.id token ∧
      uid = user.id ∧ SHA256 (user.password ++ challenge) = (pkt.request LoginRequest).hashpassword := by
  obtain ⟨hpkt, hp, fd, token, ho⟩ := hl
  obtain ⟨i, conn, n, hd, l', cb, ht, hl, hh, hrun⟩ := reply_run hr h hpkt ho
  rw [handler_login hp] at hh
  cases hh
  obtain ⟨r, hr, hreply⟩ := onLoginRequest_runs hrun
  simp only [Prod.mk.injEq, packToPacket_inj, true_and, Body.LoginResponse.injEq] at hreply
  obtain ⟨rfl, -⟩ := hreply
  cases hr with
  | @accepted user challenge token hash => exact ⟨i, fd, conn, n, user, challenge, token, ht, hl, rfl, hash⟩

/-! ## Sound logins -/

/-- The successful login `e` of `uid`, after `earlier`, answers the challenge given
at the head of `issued`: it was tried at the head of `tried`, in the turn of `e`;
no other request of `uid` came in between; and the hash it sent is that of the
stored password hash followed by the challenge. -/
def AnswersChallenge (SHA256 : Bytes → Bytes) (c : Config) (pkt : Packet) (uid : Int32) (e : Event)
    (earlier tried issued : List Event) : Prop :=
  ∃ mid attempt between given before user challenge,
    earlier = mid ++ tried ∧ tried = attempt :: (between ++ issued) ∧ issued = given :: before ∧
    attempt.tid = e.tid ∧ Machine.SameTurn e.tid mid ∧ ReadsChallenge uid attempt ∧
    GivesChallenge uid challenge given ∧
    (∀ x ∈ between, ¬ ReadsChallenge uid x ∧ ∀ ch, ¬ GivesChallenge uid ch x) ∧
    c.state.db.getUser (pkt.request LoginRequest).username = some user ∧ uid = user.id ∧
    (pkt.request LoginRequest).hashpassword = SHA256 (user.password ++ challenge)

/-- **Challenge-response soundness**: every successful login answers the challenge
last given to its user, tried for the first time, and no two logins answer one
challenge. -/
structure ChallengeSound (SHA256 : Bytes → Bytes) (c : Config) : Prop where
  answers : ∀ later e earlier pkt uid, c.history = later ++ e :: earlier → LogsIn pkt uid e →
    ∃ tried issued, AnswersChallenge SHA256 c pkt uid e earlier tried issued
  once : ∀ later e earlier pkt later' e' earlier' pkt' uid tried tried' issued,
    c.history = later ++ e :: earlier → c.history = later' ++ e' :: earlier' →
    LogsIn pkt uid e → LogsIn pkt' uid e' → AnswersChallenge SHA256 c pkt uid e earlier tried issued →
    AnswersChallenge SHA256 c pkt' uid e' earlier' tried' issued → earlier = earlier'

/-- The condition on the step that reads the challenge of a `LoginRequest`: when
the user has none, the hash sent is not that of the password hash alone. -/
def NoBlankAnswer (SHA256 : Bytes → Bytes) (c : Config) (e : Event) : Prop :=
  ∀ pkt user, handling e.pre = some pkt → pkt.packetid = PacketType.val .LoginRequest →
    e.act.op = .getChallengeMp user.id → c.state.db.getUser (pkt.request LoginRequest).username = some user →
    c.state.challenge_pool user.id = none → SHA256 user.password ≠ (pkt.request LoginRequest).hashpassword

/-! ## Runs that handle one request at a time -/

/-- Thread `t` is between reading the challenge of `uid` and deleting it. -/
def Consuming (c : Config) (t : Tid) (uid : Int32) : Prop :=
  ∃ p challenge q, (c.threads t).log = p ++ ⟨.getChallengeMp uid, challenge⟩ :: q ∧
    ∀ x ∈ q, x.op ≠ .delChallengeMp uid

/-- A read is followed by a delete, or its turn has yet to come to it. -/
theorem reads_deletes (hr : (server SHA256).ReachableWhen ok State.initial c) {uid : Int32} {later earlier : List Event}
    (hh : c.history = later ++ e :: earlier) (hread : ReadsChallenge uid e) :
    (∃ x ∈ later, x.act.op = .delChallengeMp uid) ∨ Consuming c e.tid uid := by
  obtain ⟨i, fd, conn, n, pkt, user, ht, hp, hl, rfl, ho⟩ := hread
  obtain ⟨challenge, hact⟩ := Entry.of_op ho
  obtain ⟨q, hq, hlog | hruns⟩ := hr.turn_after hh
  · by_cases hdel : ∃ x ∈ q, x.op = .delChallengeMp user.id
    · obtain ⟨x, hx, hxo⟩ := hdel
      obtain ⟨a, b, hab⟩ := List.append_of_mem hx
      exact .inl ⟨_, hq a x b hab, hxo⟩
    · exact .inr ⟨e.pre, challenge, q, by rw [hlog, hact], fun x hx hxo => hdel ⟨x, hx, hxo⟩⟩
  -- the whole turn is one of the runs of the handler, followed by the reply
  rw [ht, hl, List.append_assoc] at hruns
  obtain ⟨reply, l₁, l₂, hl', hrun, -⟩ := worker_runs (handler_login hp) hruns
  obtain ⟨r, hlr, -⟩ := onLoginRequest_runs hrun
  have hdel : ⟨.delChallengeMp user.id, ()⟩ ∈ q := by
    cases hlr with
    | unknown => simp at hl'
    | accepted hash =>
      simp only [List.cons_append, List.nil_append, List.cons.injEq, Interleave.Entry.mk.injEq, heq_eq_eq,
        true_and, Except.ok.injEq, Option.some.injEq] at hl'
      obtain ⟨rfl, -, rfl⟩ := hl'
      simp
    | refused hash =>
      simp only [List.cons_append, List.nil_append, List.cons.injEq, Interleave.Entry.mk.injEq, heq_eq_eq,
        true_and, Except.ok.injEq, Option.some.injEq] at hl'
      obtain ⟨rfl, -, rfl⟩ := hl'
      simp
  obtain ⟨a, b, hab⟩ := List.append_of_mem hdel
  exact .inl ⟨_, hq a _ b hab, rfl⟩

/-- While only worker `i` is at work and has read no challenge, every read of `uid`
has been followed by a delete. -/
theorem not_reads_since (hr : (server SHA256).ReachableWhen ok State.initial c) (ha : AtMostOne c) {i : Nat}
    (hbusy : (c.threads (.worker i)).log ≠ [])
    (hnone : ∀ x ∈ (c.threads (.worker i)).log, ∀ id, x.op ≠ .getChallengeMp id) {uid : Int32}
    {between past : List Event} (hh : c.history = between ++ past)
    (hw : ∀ x ∈ between, x.act.op.writesChallenge uid = none) : ∀ x ∈ between, ¬ ReadsChallenge uid x := by
  intro x hx hread
  obtain ⟨b₁, b₂, rfl⟩ := List.append_of_mem hx
  rw [List.append_assoc, List.cons_append] at hh
  rcases reads_deletes hr hh hread with ⟨y, hy, ho⟩ | ⟨p, challenge, q, hlog, -⟩
  · have hwy := hw y (by simp [hy])
    rw [ho] at hwy
    simp [Op.writesChallenge] at hwy
  · obtain ⟨j, -, -, -, -, -, ht, -⟩ := hread
    rw [ht] at hlog
    by_cases hij : j = i
    · subst hij
      exact hnone ⟨.getChallengeMp uid, challenge⟩ (by rw [hlog]; simp) uid rfl
    · rcases ha j i hij with h' | h'
      · rw [hlog] at h'
        simp at h'
      · exact hbusy h'

/-- Suffixes of one history that continue at `issued` without another read are equal. -/
theorem tried_unique {uid : Int32} {h x x' : List Event} {attempt attempt' : Event}
    {between between' issued : List Event}
    (hh : h = x ++ attempt :: (between ++ issued)) (hh' : h = x' ++ attempt' :: (between' ++ issued))
    (ha : ReadsChallenge uid attempt) (ha' : ReadsChallenge uid attempt')
    (hb : ∀ y ∈ between, ¬ ReadsChallenge uid y) (hb' : ∀ y ∈ between', ¬ ReadsChallenge uid y) :
    attempt :: (between ++ issued) = attempt' :: (between' ++ issued) := by
  rw [hh, ← List.cons_append, ← List.cons_append, ← List.append_assoc, ← List.append_assoc] at hh'
  rcases Prog.split_cases (List.append_cancel_right hh') with ⟨-, rfl, rfl⟩ | ⟨a, -, rfl⟩ | ⟨a, -, rfl⟩
  · rfl
  · exact absurd ha' (hb attempt' (by simp))
  · exact absurd ha (hb' attempt (by simp))

/-- What a worker finds in the pool, when it is the only one at work, was given last,
and nothing read it since. -/
theorem challenge_given (h : (server SHA256).ReachableWhen ok State.initial c) (ha : AtMostOne c)
    (hs : (server SHA256).Step c e c') {uid : Int32} {challenge : Bytes} (hread : ReadsChallenge uid e)
    (hpool : c.state.challenge_pool uid = some challenge) :
    ∃ between given before, c.history = between ++ given :: before ∧ GivesChallenge uid challenge given ∧
      ∀ x ∈ between, ¬ ReadsChallenge uid x ∧ ∀ ch, ¬ GivesChallenge uid ch x := by
  rcases h.last_write (fun s => s.challenge_pool uid) (Op.writesChallenge uid)
    (fun _ _ _ hs => step_challenge_pool hs uid) with ⟨-, hinit⟩ | ⟨between, given, before, hgiven, hbetween, hw⟩
  · rw [hinit] at hpool
    cases hpool
  rw [hpool] at hw
  have ho : given.act.op = .setChallengeMp uid challenge := by
    cases hop : given.act.op <;> rw [hop] at hw <;> simp only [Op.writesChallenge, reduceCtorEq] at hw
    · split at hw <;> simp_all
    · split at hw <;> simp_all
  have hgives : GivesChallenge uid challenge given := by
    obtain ⟨c₁, c₂, h₁, -, hs₁, -, -⟩ := h.event hgiven
    exact setChallengeMp_gives h₁ hs₁ ho
  obtain ⟨i, fd, conn, n, pkt, user, ht, -, hl, -, -⟩ := hread
  have hlog := hs.log
  rw [ht, hl] at hlog
  have hno := not_reads_since h ha (i := i) (by rw [hlog]; simp [received]) (by rw [hlog]; simp [received])
    hgiven hbetween
  refine ⟨between, given, before, hgiven, hgives, fun x hx => ⟨hno x hx, fun ch hch => ?_⟩⟩
  obtain ⟨-, -, -, -, -, -, -, -, -, -, -, hact⟩ := hch
  have hwx := hbetween x hx
  rw [hact] at hwx
  simp [Op.writesChallenge] at hwx

/-- The condition of the runs below. -/
def LoginsChallenged (SHA256 : Bytes → Bytes) (c : Config) (e : Event) : Prop :=
  OneAtATime c e ∧ NoBlankAnswer SHA256 c e

theorem challenge_answers (h : ReachableWhen SHA256 (LoginsChallenged SHA256) c) {later earlier : List Event}
    {pkt : Packet} {uid : Int32} (hh : c.history = later ++ e :: earlier) (hl : LogsIn pkt uid e) :
    ∃ tried issued, AnswersChallenge SHA256 c pkt uid e earlier tried issued := by
  obtain ⟨c₁, c₂, h₁, rfl, hs, -, -⟩ := h.event hh
  obtain ⟨i, fd, conn, n, user, challenge, token, ht, hpre, rfl, hash⟩ := logsIn_pre h₁ hs hl
  have hpkt := hl.2.1
  -- the read of the challenge, and the configuration `c₃` it happened in
  obtain ⟨mid, past, hmid, hturn⟩ := h.pre_since hh hpre
  obtain ⟨c₃, c₄, h₃, rfl, hs₃, hok, hsteps⟩ := h₁.event hmid
  have hread : ReadsChallenge user.id ⟨e.tid, _, ⟨.getChallengeMp user.id, challenge⟩⟩ :=
    ⟨i, fd, conn, n, pkt, user, ht, hpkt, rfl, rfl, rfl⟩
  have huser : c₃.state.db.getUser (pkt.request LoginRequest).username = some user := by
    obtain ⟨g, hg, -, hact⟩ := h₃.log_mem_history (t := e.tid)
      (x := ⟨.getUser (pkt.request LoginRequest).username, .ok (some user)⟩) (by rw [hs₃.log]; simp)
    exact getUser_past h₃ hg hact
  have hpool : c₃.state.challenge_pool user.id = some challenge := by
    have hget := hs₃.state
    simp only [server, State.step, Option.ite_none_right_eq_some, Option.some.injEq] at hget
    cases hcp : c₃.state.challenge_pool user.id with
    | none =>
      rw [hcp] at hget
      have hblank := hok.2 pkt user handling_received hpkt rfl huser hcp
      rw [hget.1, Option.getD_none, List.append_nil] at hash
      exact absurd hash hblank
    | some ch =>
      rw [hcp] at hget
      rw [hget.1]
      rfl
  obtain ⟨between, given, before, hgiven, hgives, hno⟩ :=
    challenge_given h₃ (atMostOne_reachable h₃ fun _ _ hk => hk.1) hs₃ hread hpool
  refine ⟨_, given :: before, mid, ⟨e.tid, received fd conn n pkt ++
      [⟨.getUser (pkt.request LoginRequest).username, .ok (some user)⟩], ⟨.getChallengeMp user.id, challenge⟩⟩,
    between, given, before, user, challenge, by rw [hmid, hgiven], rfl, rfl, rfl, hturn, hread, hgives, hno, ?_, rfl,
    hash.symm⟩
  obtain ⟨g, hg, -, hact⟩ := h₁.log_mem_history (t := e.tid)
    (x := ⟨.getUser (pkt.request LoginRequest).username, .ok (some user)⟩) (by rw [hs.log, hpre]; simp)
  exact getUser_past h (by rw [hh]; simp [hg]) hact

/-- A turn replies once. -/
theorem logsIn_once (hr : (server SHA256).ReachableWhen ok State.initial c) {later past mid : List Event}
    {e' attempt : Event} {pkt pkt' : Packet} {uid uid' : Int32} (hl : LogsIn pkt uid e) (hl' : LogsIn pkt' uid' e')
    (hh : c.history = later ++ e' :: (mid ++ attempt :: past)) (hturn : Machine.SameTurn e'.tid mid)
    (htid : e.tid = e'.tid) : e ∉ mid := by
  intro hmem
  obtain ⟨a, b, rfl⟩ := List.append_of_mem hmem
  rw [List.append_assoc, List.cons_append] at hh
  obtain ⟨c₁, c₂, h₁, -, hs, -, -⟩ := hr.event hh
  obtain ⟨i, -, -, -, -, -, -, ht, -⟩ := logsIn_pre h₁ hs hl'
  obtain ⟨-, -, fd, token, ho⟩ := hl
  obtain ⟨-, -, fd', token', ho'⟩ := hl'
  rw [ht] at hturn htid
  exact worker_sends_once hr hh (fun y hy => hturn y (by simp [hy])) htid ht ho ho'

/-- **Logins answer challenges**, in every run that handles requests one at a time
and meets no blank answer. -/
theorem challenge_sound (h : ReachableWhen SHA256 (LoginsChallenged SHA256) c) : ChallengeSound SHA256 c where
  answers := fun _ _ _ _ _ hh hl => challenge_answers h hh hl
  once := by
    rintro later e earlier pkt later' e' earlier' pkt' uid tried tried' issued hh hh' hl hl' ha ha'
    obtain ⟨mid, attempt, between, -, -, -, -, rfl, rfl, -, ht, hturn, hread, -, hno, -, -, -⟩ := ha
    obtain ⟨mid', attempt', between', -, -, -, -, rfl, rfl, -, ht', hturn', hread', -, hno', -, -, -⟩ := ha'
    have hsplit : c.history = (later ++ e :: mid) ++ attempt :: (between ++ issued) := by rw [hh]; simp
    have hsplit' : c.history = (later' ++ e' :: mid') ++ attempt' :: (between' ++ issued) := by rw [hh']; simp
    have htried := tried_unique hsplit hsplit' hread hread' (fun y hy => (hno y hy).1) fun y hy => (hno' y hy).1
    rw [htried]
    have htid : e.tid = e'.tid := by rw [← ht, ← ht', (List.cons.inj htried).1]
    -- the two replies are in one turn, so neither is before the other
    rw [← htried] at hh' hsplit'
    rw [hsplit] at hsplit'
    rcases Prog.split_cases (List.append_cancel_right hsplit') with ⟨-, -, rfl⟩ | ⟨a, -, rfl⟩ | ⟨a, -, rfl⟩
    · rfl
    · exact absurd (by simp) (logsIn_once h hl' hl hh hturn htid.symm)
    · exact absurd (by simp) (logsIn_once h hl hl' hh' hturn' htid)

/-! ## Logging in without a challenge -/

namespace Example

/-- Bob registers and logs in at once, with the hash of his password hash. -/
def blankLogin : Schedule :=
  connects 5 ++ registers 5 0 bob.username password digest ++ logsIn 5 0 bob [] blankResponse token

theorem blankLogin_alone : ∀ y ∈ blankLogin, y.1 = .acceptor ∨ y.1 = .worker 0 := by decide +kernel

def blankRequest : Packet := packToPacket .LoginRequest (.LoginRequest ⟨bob.username, blankResponse⟩)

end Example

/-- A user who was given no challenge can log in. -/
theorem not_challengeSound : ¬ ∀ SHA256 c, ReachableWhen SHA256 OneAtATime c → ChallengeSound SHA256 c := by
  intro h
  obtain ⟨c, hr, hlast, hnone⟩ := reachableWhen_of_run Example.SHA256 OneAtATime (fun _ _ => true)
    Example.blankLogin
    (fun c => (c.history.head?.map fun e => (handling e.pre, e.act.op)) = some (some Example.blankRequest,
        .Send 5 (packToPacket .LoginResponse (.LoginResponse ⟨true, 1, Example.token⟩))) ∧
      ∀ e ∈ c.history, e.act.op.writesChallenge 1 = none ∨ e.act.op.writesChallenge 1 = some none)
    (fun _ _ he hr hh _ _ => oneAtATime_alone hr hh Example.blankLogin_alone he) (by decide +kernel)
  obtain ⟨e, earlier, hh, hlast⟩ := last_event hlast
  rw [Prod.mk.injEq] at hlast
  obtain ⟨tried, issued, mid, attempt, between, given, before, user, challenge, rfl, rfl, rfl, -, -, -, hgives, -⟩ :=
    (h _ c hr).answers [] e earlier Example.blankRequest 1 hh ⟨hlast.1, rfl, 5, Example.token, hlast.2⟩
  obtain ⟨-, -, -, -, -, -, -, -, -, -, -, hact⟩ := hgives
  have hw := hnone given (by rw [hh]; simp)
  rw [hact] at hw
  simp [Op.writesChallenge] at hw

theorem Example.session_alone : ∀ y ∈ Example.session, y.1 = .acceptor ∨ y.1 = .worker 0 := by decide +kernel

/-- Bob logs in with the challenge he was given. -/
theorem challenge_sound_session : ∃ c, c.state.token_pool Example.token = some 1 ∧
    ChallengeSound Example.SHA256 c := by
  obtain ⟨c, hr, htoken⟩ := reachableWhen_of_run Example.SHA256 (LoginsChallenged Example.SHA256)
    (fun c e => match e.act.op with
      | .getChallengeMp id => (c.state.challenge_pool id).isSome
      | _ => true)
    Example.session (fun c => c.state.token_pool Example.token = some 1)
    (by
      intro c e he hr hh hlog hcheck
      refine ⟨oneAtATime_alone hr hh Example.session_alone he, fun pkt user hpkt hp ho huser hnone => ?_⟩
      rw [ho] at hcheck
      have hsome : (c.state.challenge_pool user.id).isSome = true := hcheck
      rw [hnone] at hsome
      cases hsome)
    (by decide +kernel)
  exact ⟨c, htoken, challenge_sound hr⟩

end NetChat
