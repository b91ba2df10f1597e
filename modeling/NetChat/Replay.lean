/-
Hashes sent once. An accepted hash is that of the password and of the
challenge it answers, so it is accepted again only for the same challenge.
`genChallenge` seeds `rand` with the current second: a user who is given two
challenges within one second is given one challenge twice.
-/
import NetChat.Challenge
import NetChat.Sequential

namespace NetChat

open Interleave Prog

variable {SHA256 : Bytes → Bytes} {gen : Int → Bytes} {ok : Config → Event → Prop} {c c' : Config} {e : Event}
  {uid : Int32}

/-! ## The runs -/

/-- A `LoginRequest` of a user comes after a `LoginPreRequest` made since the user's
previous `LoginRequest`. -/
def Prechallenged (c : Config) (e : Event) : Prop :=
  ∀ uid, e.act.op = .getChallengeMp uid → ∃ between given before challenge,
    c.history = between ++ given :: before ∧ given.act.op = .setChallengeMp uid challenge ∧
      ∀ x ∈ between, x.act.op ≠ .getChallengeMp uid

/-- The runs in question: one request at a time, each login after a pre-login of its
own, a clock that does not go back, and a generator that is a function of its seed. -/
structure ReplayRun (gen : Int → Bytes) (c : Config) (e : Event) : Prop where
  one : OneAtATime c e
  prechallenged : Prechallenged c e
  clock : ∀ seed seed' g, e.act = ⟨.time, seed⟩ → g ∈ c.history → g.act = ⟨.time, seed'⟩ → seed' ≤ seed
  generator : ∀ seed challenge, e.act = ⟨.genChallenge seed, challenge⟩ → challenge = gen seed

/-- **Replay resistance**: what one `LoginRequest` was accepted with, no later one is. -/
def ReplayResistant (c : Config) : Prop :=
  ∀ later e' mid e before pkt pkt' uid uid', c.history = later ++ e' :: (mid ++ e :: before) →
    LogsIn pkt uid e → LogsIn pkt' uid' e' → pkt'.request LoginRequest ≠ pkt.request LoginRequest

/-- The condition on the clock read for a `LoginPreRequest`: the second gives none of
the challenges its user has logged in with. -/
def NewChallenge (gen : Int → Bytes) (c : Config) (e : Event) : Prop :=
  ∀ seed n user, e.act = ⟨.time, seed⟩ → ⟨.getUser n, .ok (some user)⟩ ∈ e.pre →
    ∀ g ∈ c.history, ∀ pkt, LogsIn pkt user.id g → ⟨.getChallengeMp user.id, gen seed⟩ ∉ g.pre

/-- A `LoginRequest` that comes after a `LoginPreRequest` finds a challenge. -/
theorem prechallenged_pool (h : (server SHA256).ReachableWhen ok State.initial c)
    (hok : ∀ c e, ok c e → OneAtATime c e) (hp : Prechallenged c e) (ho : e.act.op = .getChallengeMp uid) :
    c.state.challenge_pool uid ≠ none := by
  intro hnone
  obtain ⟨between, given, before, challenge, hgiven, hgo, hbetween⟩ := hp uid ho
  have hgw : given.act.op.writesChallenge uid = some (some challenge) := by rw [hgo]; simp [Op.writesChallenge]
  rcases h.last_write (fun s => s.challenge_pool uid) (Op.writesChallenge uid)
    (fun _ _ _ hs => step_challenge_pool hs uid) with ⟨hno, -⟩ | ⟨later, del, earlier, hdel, hlater, hw⟩
  · rw [hno given (by rw [hgiven]; simp)] at hgw
    cases hgw
  rw [hnone] at hw
  have hdo : del.act.op = .delChallengeMp uid := by
    cases hop : del.act.op <;> rw [hop] at hw <;> simp only [Op.writesChallenge, reduceCtorEq] at hw
    · split at hw <;> simp_all
    · split at hw <;> simp_all
  -- the turn that deletes read the challenge, before it was given or after
  obtain ⟨c₁, c₂, h₁, hh₁, hs₁, -, -⟩ := h.event hdel
  obtain ⟨i, fd, conn, n, pkt, l, ht, hl, -, hi⟩ := step_handler handler_login h₁ hs₁ hdo rfl
  obtain ⟨user, ch, rest, rfl, rfl, hrest⟩ := onLoginRequest_delChallengeMp hi
  obtain ⟨mid, past, hmid, hturn⟩ := alone_pre h hok hdel ht (x := ⟨.getChallengeMp user.id, ch⟩) (q := rest)
    (p := received fd conn n pkt ++ [⟨.getUser (pkt.request LoginRequest).username, .ok (some user)⟩])
      (by rw [hl]; simp)
  have hsplit := hgiven.symm.trans hdel
  rw [hmid, ← List.cons_append, ← List.append_assoc] at hsplit
  rcases split_cases hsplit with ⟨-, rfl, -⟩ | ⟨m, hm, -⟩ | ⟨m, rfl, -⟩
  · cases hgo
  · have hin : given ∈ later ++ del :: mid := by rw [hm]; simp
    rcases List.mem_append.mp hin with hin | hin
    · rw [hlater given hin] at hgw
      cases hgw
    · rcases List.mem_cons.mp hin with rfl | hin
      · rw [hdo] at hgo
        cases hgo
      · obtain ⟨c₃, c₄, h₃, hs₃, -, -⟩ := h₁.event_mem (e := given) (by rw [hh₁, hmid]; simp [hin])
        obtain ⟨j, -, -, -, -, -, -, hj, -⟩ := setChallengeMp_gives h₃ hs₃ hgo
        exact (hrest _ (hturn given hin j hj).2 _).2 _ hgo
  · exact hbetween _ (List.mem_append_right _ List.mem_cons_self) rfl

/-- A login does not read a challenge from before the last one given: that one would
have been given within its turn. -/
theorem given_before_login (h : (server SHA256).ReachableWhen ok State.initial c)
    (hok : ∀ c e, ok c e → OneAtATime c e) {later mid before : List Event} {given : Event} {pkt : Packet}
    {challenge : Bytes} (hh : c.history = later ++ e :: (mid ++ given :: before)) (hl : LogsIn pkt uid e)
    (hgives : GivesChallenge uid challenge given) : ∃ x ∈ mid, ReadsChallenge uid x := by
  obtain ⟨c₁, c₂, h₁, -, hs, -, -⟩ := h.event hh
  obtain ⟨i, fd, conn, n, user, ch, token, ht, hpre, rfl, -⟩ := logsIn_pre h₁ hs hl
  obtain ⟨mid', past, hmid, hturn⟩ := alone_pre h hok hh ht hpre
  obtain ⟨j, -, -, -, -, -, -, hj, -, -, -, hact⟩ := hgives
  rcases split_cases hmid with ⟨-, rfl, -⟩ | ⟨m, rfl, -⟩ | ⟨m, rfl, -⟩
  · cases hact
  · have hq := (hturn given (by simp) j hj).2
    simp [hact, loggedIn] at hq
  · exact ⟨_, List.mem_append_right _ List.mem_cons_self, i, fd, conn, n, pkt, user, rfl, hl.2.1, rfl, rfl, rfl⟩

/-- **Accepted hashes are accepted once**, when every challenge drawn is new to those
its user has logged in with. -/
theorem replay_resistant (hinj : Function.Injective SHA256)
    (h : ReachableWhen SHA256 (fun c e => ReplayRun gen c e ∧ NewChallenge gen c e) c) : ReplayResistant c := by
  intro later e' mid e before pkt pkt' uid uid' hh hl hl' hsame
  have hone : ∀ c e, ReplayRun gen c e ∧ NewChallenge gen c e → OneAtATime c e := fun _ _ hk => hk.1.one
  have hearlier : c.history = (later ++ e' :: mid) ++ e :: before := by rw [hh]; simp
  obtain ⟨c₁, c₂, h₁, -, hs, -, -⟩ := h.event hearlier
  obtain ⟨c₁', c₂', h₁', -, hs', -, -⟩ := h.event hh
  obtain ⟨i, fd, conn, n, user, challenge, token, ht, hpre, rfl, hash⟩ := logsIn_pre h₁ hs hl
  obtain ⟨i', fd', conn', n', user', challenge', token', ht', hpre', rfl, hash'⟩ := logsIn_pre h₁' hs' hl'
  obtain ⟨-, -, fd₁, token₁, ho⟩ := id hl
  -- one user and, the hash being injective, one challenge
  have huser : user' = user := by
    have hget := getUser_pre h hearlier (n := (pkt.request LoginRequest).username) (u := user) (by rw [hpre]; simp)
    have hget' := getUser_pre h hh (n := (pkt'.request LoginRequest).username) (u := user') (by rw [hpre']; simp)
    rw [hsame, hget] at hget'
    exact (Option.some.inj hget').symm
  subst huser
  rw [hsame, ← hash] at hash'
  obtain rfl := List.append_cancel_left (hinj hash')
  -- the later login read the challenge after the earlier one was answered
  have hsend : ∀ x : Entry, (∀ fd p, x.op ≠ .Send fd p) → e.act ≠ x := fun x hx hex => hx _ _ (hex ▸ ho)
  obtain ⟨mid₁, past₁, hmid₁, he⟩ := before_pre h hone hh ht' hpre' (g := e) (by simp) ht
    (by simp [loggedIn, hsend])
  -- that challenge was given since the user's previous read, so after the earlier answer
  rw [hmid₁, ← List.cons_append, ← List.append_assoc] at hh
  obtain ⟨c₃, c₄, h₃, rfl, hs₃, hk₃, -⟩ := h.event hh
  have hread := getChallengeMp_reads h₃ hs₃ rfl
  have hpool : c₃.state.challenge_pool user'.id = some challenge' := by
    have hget := hs₃.state
    simp only [server, State.step, Option.ite_none_right_eq_some, Option.some.injEq] at hget
    cases hcp : c₃.state.challenge_pool user'.id with
    | none => exact absurd hcp (prechallenged_pool h₃ hone hk₃.1.prechallenged rfl)
    | some ch =>
      rw [hcp] at hget
      rw [hget.1]
      rfl
  obtain ⟨between, given, before', hgiven, hgives, hno⟩ :=
    challenge_given h₃ (atMostOne_reachable h₃ hone) hs₃ hread hpool
  obtain ⟨j, fd₂, conn₂, n₂, pkt₂, user₂, seed, hj, -, hgpre, hgid, hgact⟩ := id hgives
  rw [hgiven] at he
  have he : e ∈ before' := by
    rcases List.mem_append.mp he with he | he
    · obtain ⟨b₁, b₂, rfl⟩ := List.append_of_mem he
      rw [List.append_assoc, List.cons_append] at hgiven
      obtain ⟨x, hx, hread⟩ := given_before_login h₃ hone hgiven hl hgives
      exact absurd hread (hno x (by simp [hx])).1
    · rcases List.mem_cons.mp he with rfl | he
      · exact absurd hgact (hsend _ (by simp))
      · exact he
  -- and its turn read the clock after the earlier answer
  obtain ⟨mid₄, past₄, rfl, he₄⟩ := before_pre h₃ hone hgiven hj (x := ⟨.time, seed⟩)
    (p := received fd₂ conn₂ n₂ pkt₂ ++ [⟨.getUser (pkt₂.request LoginPreRequest).username, .ok (some user₂)⟩])
    (q := [⟨.genChallenge seed, challenge'⟩]) (by rw [hgpre]; simp) he ht (by simp [hsend])
  have hgen : challenge' = gen seed := by
    obtain ⟨g, hg, -, hact⟩ := h₃.pre_mem hgiven (x := ⟨.genChallenge seed, challenge'⟩) (by rw [hgpre]; simp)
    obtain ⟨_, _, -, -, hk, -⟩ := h₃.event_mem (e := g) (by rw [hgiven]; simp [hg])
    exact hk.1.generator _ _ hact
  rw [← List.cons_append, ← List.append_assoc] at hgiven
  obtain ⟨c₅, c₆, h₅, rfl, hs₅, hk₅, -⟩ := h₃.event hgiven
  refine hk₅.2 seed (pkt₂.request LoginPreRequest).username user₂ rfl (by simp) e he₄ pkt (hgid ▸ hl) ?_
  rw [← hgid, ← hgen, hpre]
  simp

/-! ## Two logins within one second -/

namespace Example

/-- The challenge of the second after that of `challenge`, and what answers it. -/
def challenge' : Bytes := bytes "012345abcdefghijklmnopqrstuvwxyz"
def response' : Bytes := bytes "40c5f6b3522c6f2ef6f5bccf71e86f19659a473c4699a49cfe940be595151c7b"

/-- The challenge of a second. -/
def drawn (seed : Int) : Bytes := if seed = 0 then challenge else challenge'

/-- An injective function that is SHA-256 where the runs below use it. -/
def SHA256i (s : Bytes) : Bytes :=
  if s = password then digest else if s = digest ++ challenge then response
  else if s = digest ++ challenge' then response' else 0 :: s

theorem SHA256i_injective : Function.Injective SHA256i := by
  refine Function.LeftInverse.injective (g := fun d => if d = digest then password
    else if d = response then digest ++ challenge else if d = response' then digest ++ challenge' else d.tail) fun s => ?_
  have hdigest : (0 :: s : Bytes) ≠ digest := by simp [digest, bytes]
  have hresponse : (0 :: s : Bytes) ≠ response := by simp [response, bytes]
  have hresponse' : (0 :: s : Bytes) ≠ response' := by simp [response', bytes]
  have hne : response ≠ digest := by decide
  have hne' : response' ≠ digest ∧ response' ≠ response := by decide
  unfold SHA256i
  split
  · rename_i hs
    simp [hs]
  split
  · rename_i hs
    simp [hs, hne]
  split
  · rename_i hs
    simp [hs, hne']
  · simp [hdigest, hresponse, hresponse']

def replayed : Packet := packToPacket .LoginRequest (.LoginRequest ⟨bob.username, response⟩)

def token' : Bytes := bytes "5f0c7b1e-0d5a-4c1b-9a37-2b8f6f4f1d02"

/-- In the second of his login Bob is given a challenge again. -/
def sameSecond : Schedule := session ++ challenges 5 0 bob challenge ++ logsIn 5 0 bob challenge response token'

/-- One second later he is given another one, and his first hash is sent again. -/
def nextSecond : Schedule :=
  session ++
    handles 0 5 0 (packToPacket .LoginPreRequest (.LoginPreRequest ⟨bob.username⟩))
      [⟨.getUser bob.username, .ok (some bob)⟩, ⟨.time, 1⟩, ⟨.genChallenge 1, challenge'⟩,
        ⟨.setChallengeMp 1 challenge', ()⟩, replies 5 0 .LoginPreResponse (.LoginPreResponse challenge')] ++
    handles 0 5 0 (packToPacket .LoginRequest (.LoginRequest ⟨bob.username, response⟩))
      [⟨.getUser bob.username, .ok (some bob)⟩, ⟨.getChallengeMp 1, challenge'⟩, ⟨.delChallengeMp 1, ()⟩,
        replies 5 0 .LoginResponse (.LoginResponse ⟨false, -1, bytes "wrong password"⟩)]

end Example

/-- Whether a step asks for a challenge, if it does, given since the last was asked for. -/
def checkPrechallenged (c : Config) (e : Event) : Bool :=
  match e.act.op with
  | .getChallengeMp uid => (c.history.find? fun x =>
      x.act.op == .getChallengeMp uid || (x.act.op.writesChallenge uid).any Option.isSome).any fun x =>
        x.act.op != .getChallengeMp uid
  | _ => true

theorem prechallenged_of_check (h : checkPrechallenged c e = true) : Prechallenged c e := by
  intro uid ho
  simp only [checkPrechallenged, ho, Option.any_eq_true, bne_iff_ne] at h
  obtain ⟨given, hfind, hne⟩ := h
  obtain ⟨hgiven, between, before, hh, hno⟩ := List.find?_eq_some_iff_append.mp hfind
  have hset : ∃ challenge, given.act.op = .setChallengeMp uid challenge := by
    simp only [beq_iff_eq, Bool.or_eq_true, hne, false_or] at hgiven
    cases hop : given.act.op <;> rw [hop] at hgiven <;> simp [Op.writesChallenge] at hgiven
    · split at hgiven <;> simp_all
    · split at hgiven <;> simp_all
  obtain ⟨challenge, hset⟩ := hset
  refine ⟨between, given, before, challenge, hh, hset, fun x hx hxo => ?_⟩
  have hx' := hno x hx
  rw [hxo] at hx'
  simp at hx'

/-- Whether the clock, if the step reads it, is not before an earlier reading, and a
challenge it draws is that of its seed. -/
def checkClock (gen : Int → Bytes) (c : Config) (e : Event) : Bool :=
  match e.act with
  | ⟨.time, seed⟩ => c.history.all fun g => match g.act with
    | ⟨.time, seed'⟩ => decide ((seed' : Int) ≤ seed)
    | _ => true
  | ⟨.genChallenge seed, challenge⟩ => challenge == gen seed
  | _ => true

theorem replayRun_of_check (hone : OneAtATime c e) (h : (checkPrechallenged c e && checkClock gen c e) = true) :
    ReplayRun gen c e := by
  rw [Bool.and_eq_true] at h
  refine ⟨hone, prechallenged_of_check h.1, fun seed seed' g hact hg hgact => ?_, fun seed challenge hact => ?_⟩
  · have hclock := h.2
    simp only [checkClock, hact, List.all_eq_true] at hclock
    have hle := hclock g hg
    rw [hgact] at hle
    simpa using hle
  · have hclock := h.2
    simp only [checkClock, hact, beq_iff_eq] at hclock
    exact hclock

/-- Whether the challenge of a second read is one no turn read. -/
def checkNew (gen : Int → Bytes) (c : Config) (e : Event) : Bool :=
  match e.act with
  | ⟨.time, seed⟩ => c.history.all fun g => g.pre.all fun
    | ⟨.getChallengeMp _, challenge⟩ => challenge != gen seed
    | _ => true
  | _ => true

theorem newChallenge_of_check (h : checkNew gen c e = true) : NewChallenge gen c e := by
  intro seed n user hact _ g hg pkt _ hmem
  simp only [checkNew, hact, List.all_eq_true] at h
  have hne := h g hg _ hmem
  simp at hne

theorem Example.sameSecond_alone : ∀ y ∈ Example.sameSecond, y.1 = .acceptor ∨ y.1 = .worker 0 := by decide +kernel

/-- One hash is accepted twice within one second. -/
theorem not_replayResistant : ¬ ∀ SHA256 gen c, Function.Injective SHA256 →
    ReachableWhen SHA256 (ReplayRun gen) c → ReplayResistant c := by
  intro h
  obtain ⟨c, hr, hlast, e, he, hlogin⟩ := reachableWhen_of_run Example.SHA256i (ReplayRun fun _ => Example.challenge)
    (fun c e => checkPrechallenged c e && checkClock (fun _ => Example.challenge) c e) Example.sameSecond
    (fun c => (c.history.head?.map fun e => (handling e.pre, e.act.op)) = some (some Example.replayed,
        .Send 5 (packToPacket .LoginResponse (.LoginResponse ⟨true, 1, Example.token'⟩))) ∧
      ∃ e ∈ c.history.tail, (handling e.pre, e.act.op) = (some Example.replayed,
        .Send 5 (packToPacket .LoginResponse (.LoginResponse ⟨true, 1, Example.token⟩))))
    (fun _ _ he hr hh _ hcheck =>
      replayRun_of_check (oneAtATime_alone hr hh Example.sameSecond_alone he) hcheck) (by decide +kernel)
  obtain ⟨e', earlier, hh, hlast⟩ := last_event hlast
  rw [Prod.mk.injEq] at hlast hlogin
  rw [hh] at he
  obtain ⟨mid, before, hmid⟩ := List.append_of_mem he
  rw [List.tail_cons] at hmid
  rw [hmid] at hh
  exact h _ _ c Example.SHA256i_injective hr [] e' mid e before _ _ 1 1 hh ⟨hlogin.1, rfl, 5, Example.token, hlogin.2⟩
    ⟨hlast.1, rfl, 5, Example.token', hlast.2⟩ rfl

theorem Example.nextSecond_alone : ∀ y ∈ Example.nextSecond, y.1 = .acceptor ∨ y.1 = .worker 0 := by decide +kernel

/-- A second later the hash is refused. -/
theorem replay_resistant_nextSecond : ∃ c, c.state.token_pool Example.token = some 1 ∧ ReplayResistant c ∧
    (c.history.head?.map fun e => (handling e.pre, e.act.op)) = some (some Example.replayed,
      .Send 5 (packToPacket .LoginResponse (.LoginResponse ⟨false, -1, bytes "wrong password"⟩))) := by
  obtain ⟨c, hr, htoken, hlast⟩ := reachableWhen_of_run Example.SHA256i
    (fun c e => ReplayRun Example.drawn c e ∧ NewChallenge Example.drawn c e)
    (fun c e => (checkPrechallenged c e && checkClock Example.drawn c e) && checkNew Example.drawn c e)
    Example.nextSecond
    (fun c => c.state.token_pool Example.token = some 1 ∧
      (c.history.head?.map fun e => (handling e.pre, e.act.op)) = some (some Example.replayed,
        .Send 5 (packToPacket .LoginResponse (.LoginResponse ⟨false, -1, bytes "wrong password"⟩))))
    (fun _ _ he hr hh _ hcheck => by
      rw [Bool.and_eq_true] at hcheck
      exact ⟨replayRun_of_check (oneAtATime_alone hr hh Example.nextSecond_alone he) hcheck.1,
        newChallenge_of_check hcheck.2⟩)
    (by decide +kernel)
  exact ⟨c, htoken, replay_resistant Example.SHA256i_injective hr, hlast⟩

end NetChat
