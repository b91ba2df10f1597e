/-
A challenge is used once. `getChallengeMp`, the comparison and
`delChallengeMp` are separate steps: between the first and the last another
login of the user can read the same challenge, and a new challenge can come
in, which the last then deletes.
-/
import NetChat.Challenge

namespace NetChat

open Interleave

variable {SHA256 : Bytes → Bytes} {ok : Config → Event → Prop} {c c' : Config} {e : Event} {uid : Int32}

/-- Nothing wrote the challenge of `uid`. -/
def Unwritten (uid : Int32) (mid : List Event) : Prop := ∀ x ∈ mid, x.act.op.writesChallenge uid = none

/-- **Consumed once**: no two logins read one stored challenge, and the challenge a
login deletes is the one it read. -/
structure ConsumedOnce (c : Config) : Prop where
  once : ∀ uid later given before challenge mid attempt between mid' attempt' between',
    c.history = later ++ given :: before → given.act.op = .setChallengeMp uid challenge →
    later = mid ++ attempt :: between → attempt.act.op = .getChallengeMp uid → Unwritten uid between →
    later = mid' ++ attempt' :: between' → attempt'.act.op = .getChallengeMp uid → Unwritten uid between' → mid = mid'
  own : ∀ uid later e mid given before challenge, c.history = later ++ e :: (mid ++ given :: before) →
    e.act.op = .delChallengeMp uid → given.act.op = .setChallengeMp uid challenge → Unwritten uid mid →
    ∃ mid₁ attempt mid₂, mid = mid₁ ++ attempt :: mid₂ ∧ attempt.act.op = .getChallengeMp uid ∧
      attempt.tid = e.tid ∧ Machine.SameTurn e.tid mid₁

/-- The condition on the steps that read a challenge there is, or store one: no other
login of the user is between its read and its delete. -/
def LoginsApart (c : Config) (e : Event) : Prop :=
  ∀ uid, (e.act.op = .getChallengeMp uid ∧ c.state.challenge_pool uid ≠ none) ∨
      (∃ challenge, e.act.op = .setChallengeMp uid challenge) →
    ∀ t, t ≠ e.tid → ¬ Consuming c t uid

/-- What was stored is there until it is written again. -/
theorem challenge_kept (h : (server SHA256).ReachableWhen ok State.initial c) {later mid before : List Event}
    {given : Event} {challenge : Bytes} (hh : c.history = later ++ e :: (mid ++ given :: before))
    (hg : given.act.op = .setChallengeMp uid challenge) (hmid : Unwritten uid mid) :
    ∃ c₁ c₂, (server SHA256).ReachableWhen ok State.initial c₁ ∧ c₁.history = mid ++ given :: before ∧
      (server SHA256).Step c₁ e c₂ ∧ ok c₁ e ∧ c₁.state.challenge_pool uid = some challenge := by
  obtain ⟨c₁, c₂, h₁, hh₁, hs, hk, -⟩ := h.event hh
  refine ⟨c₁, c₂, h₁, hh₁, hs, hk, ?_⟩
  obtain ⟨c₃, c₄, h₃, rfl, hs₃, hk₃, hsteps⟩ := h₁.event hh₁
  have hset := step_challenge_pool hs₃.state uid
  rw [hg] at hset
  simp only [Op.writesChallenge, if_true, Option.getD_some] at hset
  rw [← hset]
  have hsince : c₁.history = mid ++ c₄.history := by rw [hh₁, hs₃.history]
  refine hsteps.keeps (fun s => s.challenge_pool uid) (.step h₃ hs₃ hk₃) hsince fun _ _ _ _ hs he => ?_
  have hstep := step_challenge_pool hs.state uid
  rw [hmid _ he] at hstep
  exact hstep

/-- Two reads of one stored challenge are one. -/
theorem reads_once (h : ReachableWhen SHA256 LoginsApart c) {later mid between before : List Event}
    {given attempt attempt' : Event} {challenge : Bytes}
    (hh : c.history = later ++ attempt' :: (mid ++ attempt :: (between ++ given :: before)))
    (hg : given.act.op = .setChallengeMp uid challenge) (ho : attempt.act.op = .getChallengeMp uid)
    (ho' : attempt'.act.op = .getChallengeMp uid) (hmid : Unwritten uid (mid ++ attempt :: between)) : False := by
  have hall : c.history = later ++ attempt' :: ((mid ++ attempt :: between) ++ given :: before) := by rw [hh]; simp
  obtain ⟨c₁, c₂, h₁, hh₁, hs, hk, hpool⟩ := challenge_kept h hall hg hmid
  have hsplit : c₁.history = mid ++ attempt :: (between ++ given :: before) := by rw [hh₁]; simp
  obtain ⟨c₃, c₄, h₃, -, hs₃, -, -⟩ := h₁.event hsplit
  rcases reads_deletes h₁ hsplit (getChallengeMp_reads h₃ hs₃ ho) with ⟨x, hx, hdel⟩ | hcons
  · have hw := hmid x (by simp [hx])
    rw [hdel] at hw
    simp [Op.writesChallenge] at hw
  · refine hk uid (.inl ⟨ho', by rw [hpool]; simp⟩) attempt.tid (fun ht => ?_) hcons
    -- the log of the second read has no read on it
    obtain ⟨-, fd, conn, n, pkt, user, -, -, hpre, -, -⟩ := getChallengeMp_reads h₁ hs ho'
    obtain ⟨p, ch, q, hlog, -⟩ := hcons
    have hmem : (⟨.getChallengeMp uid, ch⟩ : Entry) ∈ attempt'.pre := by
      rw [← hs.log, ← ht, hlog]
      simp
    rw [hpre] at hmem
    simp [received] at hmem

/-- **Challenges are consumed once, by their own login**, when no two logins of a
user overlap over a challenge. -/
theorem consumed_once (h : ReachableWhen SHA256 LoginsApart c) : ConsumedOnce c where
  once := by
    rintro uid later given before challenge mid attempt between mid' attempt' between' hh hg rfl ho hw hh' ho' hw'
    rcases Prog.split_cases hh' with ⟨rfl, -, -⟩ | ⟨a, -, rfl⟩ | ⟨a, -, rfl⟩
    · rfl
    · have hall : c.history = mid ++ attempt :: (a ++ attempt' :: (between' ++ given :: before)) := by rw [hh]; simp
      exact (reads_once h hall hg ho' ho hw).elim
    · have hall : c.history = mid' ++ attempt' :: (a ++ attempt :: (between ++ given :: before)) := by
        rw [hh, hh']
        simp
      exact (reads_once h hall hg ho ho' hw').elim
  own := by
    intro uid later e mid given before challenge hh ho hg hw
    obtain ⟨c₁, c₂, h₁, hh₁, hs, -, -⟩ := h.event hh
    -- the read of the turn
    obtain ⟨i, fd, conn, n, pkt, l, -, hl, hp, hi⟩ := step_handler handler_login h₁ hs ho rfl
    obtain ⟨user, ch, rest, rfl, rfl, hno⟩ := onLoginRequest_delChallengeMp hi
    obtain ⟨mid', past, hmid, hturn⟩ := h.pre_since hh (x := ⟨.getChallengeMp user.id, ch⟩) (q := rest)
      (p := received fd conn n pkt ++ [⟨.getUser (pkt.request LoginRequest).username, .ok (some user)⟩])
      (by rw [hl]; simp)
    rcases Prog.split_cases hmid with ⟨-, rfl, -⟩ | ⟨a, rfl, rfl⟩ | ⟨a, rfl, rfl⟩
    · cases hg
    · -- a challenge stored after the read, while the turn was consuming
      exfalso
      obtain ⟨c₃, c₄, h₃, hh₃, hs₃, hk₃, hsteps⟩ := h₁.event hh₁
      have hsince : c₁.history = (mid ++ [given]) ++ c₃.history := by rw [hh₁, hh₃]; simp
      have hgrow := (Machine.Steps.trans (.tail .refl hs₃ hk₃) hsteps).log_sameTurn (t := e.tid) hsince fun y hy => by
        rcases List.mem_append.mp hy with hy | hy
        · exact hturn y (by simp [hy])
        · exact hturn y (by simp [List.mem_singleton.mp hy])
      rw [hs.log, hl] at hgrow
      rcases hgrow with hgrow | ⟨hne, r, hr⟩
      · simp [received] at hgrow
      have hlog := h₃.log_of_sameTurn hh₃ fun y hy => hturn y (by simp [hy])
      rcases hlog with hlog | ⟨q, hlog⟩
      · exact hne hlog
      have hq : ∀ x ∈ q, x.op ≠ .delChallengeMp user.id := by
        intro x hx hxo
        rw [hlog, List.append_assoc, List.append_assoc] at hr
        have hr' := List.append_cancel_left hr
        simp only [List.cons_append, List.nil_append, List.cons.injEq, true_and] at hr'
        exact (hno x (by rw [← hr']; simp [hx]) _).1 hxo
      refine hk₃ user.id (.inr ⟨challenge, hg⟩) e.tid (fun ht => ?_) ⟨_, ch, q, hlog, hq⟩
      -- what the store follows is no read
      obtain ⟨-, fd', conn', n', pkt', user', seed, -, -, hpre, -, -⟩ := setChallengeMp_gives h₃ hs₃ hg
      have hmem : (⟨.getChallengeMp user.id, ch⟩ : Entry) ∈ given.pre := by
        rw [← hs₃.log, ← ht, hlog]
        simp
      rw [hpre] at hmem
      simp [received] at hmem
    · exact ⟨mid', _, a, rfl, rfl, rfl, hturn⟩

/-! ## Two logins at once -/

namespace Example

def preLogin : Packet := packToPacket .LoginPreRequest (.LoginPreRequest ⟨bob.username⟩)

def secondToken : Bytes := bytes "5f0c7b1e-0d5a-4c1b-9a37-2b8f6f4f1d04"

def login : Packet := packToPacket .LoginRequest (.LoginRequest ⟨bob.username, response⟩)

/-- A challenge for Bob is stored while two logins of his are about to read it. -/
def twoLogins : Schedule :=
  connects 5 ++ registers 5 0 bob.username password digest ++
    handles 2 5 0 preLogin
      [⟨.getUser bob.username, .ok (some bob)⟩, ⟨.time, 0⟩, ⟨.genChallenge 0, challenge⟩] ++
    handles 0 5 0 login [⟨.getUser bob.username, .ok (some bob)⟩] ++
    handles 1 5 0 login [⟨.getUser bob.username, .ok (some bob)⟩] ++
    [(.worker 2, ⟨.setChallengeMp 1 challenge, ()⟩), (.worker 0, ⟨.getChallengeMp 1, challenge⟩),
      (.worker 1, ⟨.getChallengeMp 1, challenge⟩)]

end Example

/-- Two logins can read one challenge. -/
theorem not_consumedOnce : ¬ ∀ SHA256 c, Reachable SHA256 c → ConsumedOnce c := by
  intro h
  obtain ⟨c, hr, hlast⟩ := reachable_of_run Example.SHA256 Example.twoLogins
    (fun c => (c.history.take 3).map (fun e => e.act.op) =
      [.getChallengeMp 1, .getChallengeMp 1, .setChallengeMp 1 Example.challenge]) (by decide +kernel)
  rcases hh : c.history with _ | ⟨attempt', _ | ⟨attempt, _ | ⟨given, before⟩⟩⟩ <;>
    simp only [hh, List.take_succ_cons, List.take_zero, List.take_nil, List.map_cons, List.map_nil, List.cons.injEq,
      and_true, and_false, reduceCtorEq] at hlast
  obtain ⟨ho', ho, hg⟩ := hlast
  have hmid := (h _ c hr).once 1 [attempt', attempt] given before _ [] attempt' [attempt] [attempt'] attempt [] hh hg
    rfl ho' (by intro x hx; rw [List.mem_singleton.mp hx, ho]; rfl) rfl ho (by intro x hx; cases hx)
  cases hmid

namespace Example

/-- Bob logs in once more, with another worker. -/
def logsInTwice : Schedule :=
  session ++ challenges 5 0 bob challenge ++
    handles 1 5 0 login [⟨.getUser bob.username, .ok (some bob)⟩, ⟨.getChallengeMp 1, challenge⟩,
      ⟨.getUUID, secondToken⟩, ⟨.setUserIdByToken secondToken 1, ()⟩, ⟨.delChallengeMp 1, ()⟩,
      replies 5 0 .LoginResponse (.LoginResponse ⟨true, 1, secondToken⟩)]

end Example

/-- Whether no thread but that of a step that reads or stores a challenge is in a login. -/
def checkApart (c : Config) (e : Event) : Bool :=
  match e.act.op with
  | .getChallengeMp _ | .setChallengeMp _ _ => [.acceptor, .worker 0, .worker 1].all fun t =>
      t == e.tid || (c.threads t).log.all fun x => match x.op with
        | .getChallengeMp _ => false
        | _ => true
  | _ => true

theorem loginsApart_of_check (hidle : ∀ t, t ∉ [Tid.acceptor, .worker 0, .worker 1] → (c.threads t).log = [])
    (h : checkApart c e = true) : LoginsApart c e := by
  rintro uid ho t ht ⟨p, ch, q, hlog, -⟩
  have hmem : t ∈ [Tid.acceptor, .worker 0, .worker 1] := by
    by_contra hno
    rw [hidle t hno] at hlog
    simp at hlog
  have hall : ([.acceptor, .worker 0, .worker 1] : List Tid).all (fun t =>
      t == e.tid || (c.threads t).log.all fun x => match x.op with
        | .getChallengeMp _ => false
        | _ => true) = true := by
    rcases ho with ⟨ho, -⟩ | ⟨_, ho⟩ <;> simpa only [checkApart, ho] using h
  have hno := List.all_eq_true.mp hall t hmem
  simp [ht, hlog] at hno

theorem Example.logsInTwice_threads : ∀ y ∈ Example.logsInTwice, y.1 ∈ [Tid.acceptor, .worker 0, .worker 1] := by
  decide +kernel

theorem consumed_once_logins : ∃ c, c.state.token_pool Example.token = some 1 ∧
    c.state.token_pool Example.secondToken = some 1 ∧ ConsumedOnce c := by
  obtain ⟨c, hr, htoken, hsecond⟩ := reachableWhen_of_run Example.SHA256 LoginsApart checkApart Example.logsInTwice
    (fun c => c.state.token_pool Example.token = some 1 ∧ c.state.token_pool Example.secondToken = some 1)
    (fun c e _ hr hh _ hcheck => loginsApart_of_check
      (fun t ht => by rw [hr.fresh (t := t) fun g hg htid => ht (htid ▸ Example.logsInTwice_threads _ (hh g hg))])
      hcheck)
    (by decide +kernel)
  exact ⟨c, htoken, hsecond, consumed_once hr⟩

end NetChat
