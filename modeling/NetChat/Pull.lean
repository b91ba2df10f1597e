/-
What a pull reveals. The reply to a `ContactMessageRequest` is a function of
what its token resolves to and of one query, for the rows from that user; so
the holder of a token sees its own rows and no other. A token that resolves to
nobody queries for the rows from 0 all the same, and there can be some.
-/
import Mathlib.Tactic.Tauto
import NetChat.Addressed
import NetChat.Provenance

namespace NetChat

open Interleave Prog Server

variable {SHA256 : Bytes → Bytes} {ok : Config → Event → Prop} {c c' : Config} {pkt : Packet}
  {reply : Reply} {s s' : State}

/-- The rows whose sender or receiver is `u`. -/
def DataAccess.ownRows (db : DataAccess) (u : Int32) : List MessageRow :=
  db.messages.filter fun row => row.sender_id == u || row.receiver_id == u

/-- `s` and `s'` have one token pool, and the same rows of the user that `token`
resolves to, if it resolves to one. -/
structure LookAlike (token : Bytes) (s s' : State) : Prop where
  token_pool : s.token_pool = s'.token_pool
  rows : s.getUserIdByToken token ≠ 0 →
    s.db.ownRows (s.getUserIdByToken token) = s'.db.ownRows (s.getUserIdByToken token)

/-- In the state `s` the request `pkt` is answered with `reply`. -/
def Replies (SHA256 : Bytes → Bytes) (s : State) (pkt : Packet) (reply : Reply) : Prop :=
  ∃ l, (onContactMessageRequest pkt).Runs l reply ∧ (server SHA256).stepAll s l = some s

/-- The reply, of what the query gave. -/
def pulled (r : Option Message) : Reply :=
  (packToPacket .ContactMessageResponse (.ContactMessageResponse (r.getD { (default : Message) with id := -1 })), none)

theorem pulled_runs (uid : Int32) (r : Option Message) :
    (onContactMessageRequest pkt).Runs [⟨.getUserIdByToken (pkt.request ContactMessageRequest).token, uid⟩,
      ⟨.getMessage uid (pkt.request ContactMessageRequest).id (pkt.request ContactMessageRequest).internalid, .ok r⟩]
      (pulled r) := by
  simp only [onContactMessageRequest, bind_eq, pure_eq, op_bind, ret_bind, runs_op, runs_orTerminate]
  refine ⟨_, _, rfl, _, _, rfl, _, rfl, ?_⟩
  cases r <;> exact runs_ret.mpr ⟨rfl, rfl⟩

theorem replies_iff : Replies SHA256 s pkt reply ↔
    reply = pulled (s.db.getMessage (s.getUserIdByToken (pkt.request ContactMessageRequest).token)
      (pkt.request ContactMessageRequest).id (pkt.request ContactMessageRequest).internalid) := by
  constructor
  · rintro ⟨l, hrun, hsteps⟩
    obtain ⟨uid, r, rfl, rfl⟩ := onContactMessageRequest_runs hrun
    simp only [Machine.stepAll, server, State.step, Option.bind_eq_some_iff, Option.ite_none_right_eq_some,
      Option.some.injEq, State.query_eq_some, Except.ok.injEq, forall_eq'] at hsteps
    obtain ⟨_, ⟨rfl, rfl⟩, _, ⟨-, rfl⟩, -⟩ := hsteps
    rfl
  · rintro rfl
    refine ⟨_, pulled_runs (s.getUserIdByToken (pkt.request ContactMessageRequest).token) _, ?_⟩
    simp [Machine.stepAll, server, State.step, State.query]

/-- The query sees the user's own rows only. -/
theorem getMessage_ownRows {db : DataAccess} {u r k : Int32} :
    db.getMessage u r k = ((db.ownRows u).find? fun row =>
      row.sender_id == u && row.receiver_id == r && row.internal_id == k).map MessageRow.toMessage := by
  simp only [DataAccess.getMessage, DataAccess.ownRows, List.find?_filter]
  congr 2
  funext row
  rw [Bool.eq_iff_iff]
  simp only [Bool.and_eq_true, Bool.or_eq_true, beq_iff_eq, decide_eq_true_eq]
  tauto

/-! ## Messages are sent to registered users -/

theorem user_id_pos (h : (server SHA256).ReachableWhen ok State.initial c) {u : UserRow} (hu : u ∈ c.state.db.users) :
    0 < u.user_id := by
  refine h.state_invariant (fun s => ∀ u ∈ s.db.users, 0 < u.user_id) (by intro u hu; cases hu) ?_ u hu
  intro s x s' hi hs u hu
  rcases step_users hs with heq | ⟨n, p, -, -, heq⟩
  · exact hi u (heq ▸ hu)
  · rw [heq] at hu
    rcases List.mem_append.mp hu with hu | hu
    · exact hi u hu
    · rw [List.mem_singleton.mp hu]
      exact Nat.succ_pos _

theorem receiver_ne_zero (h : (server SHA256).ReachableWhen ok State.initial c) {row : MessageRow}
    (hrow : row ∈ c.state.db.messages) : row.receiver_id ≠ 0 := by
  obtain ⟨e, m, he, hx, hm⟩ := row_inserted h hrow
  obtain ⟨c₁, c₂, h₁, hs, -, -⟩ := h.event_mem he
  have hi := hs.issues h₁
  rw [hx] at hi
  obtain ⟨i, fd, conn, n, pkt, u, msgs, timestamp, -, -, hl, rfl⟩ := issues_insertMessage hi
  have huser := h.pre_past he (x := ⟨.getUserById (pkt.request SendMessageRequest).message.to_, .ok (some u)⟩)
    (p := received fd conn n pkt ++ [⟨.getUserIdByToken (pkt.request SendMessageRequest).token,
      (pkt.request SendMessageRequest).message.from_⟩]) (by rw [hl]; rfl)
  obtain ⟨urow, hurow, hid⟩ := getUserById_past h huser rfl
  have hpos := user_id_pos h hurow
  intro hzero
  rw [hm] at hzero
  simp only [DataAccess.toRow, numbered] at hzero
  rw [hzero, Int32.toInt_zero] at hid
  omega

/-- A message that was found does not look like the reply for none. -/
theorem pulled_inj (h : (server SHA256).ReachableWhen ok State.initial c)
    (h' : (server SHA256).ReachableWhen ok State.initial c') {u r k : Int32} :
    pulled (c.state.db.getMessage u r k) = pulled (c'.state.db.getMessage u r k) ↔
      c.state.db.getMessage u r k = c'.state.db.getMessage u r k := by
  have found : ∀ {c : Config} {m : Message}, (server SHA256).ReachableWhen ok State.initial c →
      c.state.db.getMessage u r k = some m → m ≠ { (default : Message) with id := -1 } := by
    rintro c m h hm rfl
    obtain ⟨row, hrow, heq⟩ := Option.map_eq_some_iff.mp hm
    exact receiver_ne_zero h (List.mem_of_find?_eq_some hrow) (congrArg (fun m => m.message.to_) heq)
  refine ⟨fun heq => ?_, fun heq => by rw [heq]⟩
  simp only [pulled, Prod.mk.injEq, packToPacket_inj, true_and, and_true, Body.ContactMessageResponse.injEq] at heq
  cases hm : c.state.db.getMessage u r k with
  | none =>
    cases hm' : c'.state.db.getMessage u r k with
    | none => rfl
    | some m' =>
      rw [hm, hm'] at heq
      exact absurd heq.symm (found h' hm')
  | some m =>
    cases hm' : c'.state.db.getMessage u r k with
    | none =>
      rw [hm, hm'] at heq
      exact absurd heq (found h hm)
    | some m' =>
      rw [hm, hm'] at heq
      exact congrArg some heq

theorem pulls_same (h : (server SHA256).ReachableWhen ok State.initial c)
    (h' : (server SHA256).ReachableWhen ok State.initial c') {u r k : Int32} :
    (∀ reply, reply = pulled (c.state.db.getMessage u r k) ↔ reply = pulled (c'.state.db.getMessage u r k)) ↔
      c.state.db.getMessage u r k = c'.state.db.getMessage u r k := by
  rw [← pulled_inj h h']
  exact ⟨fun hr => (hr _).mp rfl, fun heq reply => by rw [heq]⟩

/-! ## Two states -/

/-- **A pull reveals the user's own rows only**, if and only if its token resolves to
a user, or the query for a row from 0 gives the same in the two states. -/
theorem pull_own (h : Reachable SHA256 c) (h' : Reachable SHA256 c')
    (hl : LookAlike (pkt.request ContactMessageRequest).token c.state c'.state) :
    (∀ reply, Replies SHA256 c.state pkt reply ↔ Replies SHA256 c'.state pkt reply) ↔
      (c.state.getUserIdByToken (pkt.request ContactMessageRequest).token ≠ 0 ∨
        c.state.db.getMessage 0 (pkt.request ContactMessageRequest).id (pkt.request ContactMessageRequest).internalid =
          c'.state.db.getMessage 0 (pkt.request ContactMessageRequest).id
            (pkt.request ContactMessageRequest).internalid) := by
  have htoken : c'.state.getUserIdByToken (pkt.request ContactMessageRequest).token =
      c.state.getUserIdByToken (pkt.request ContactMessageRequest).token := by
    rw [State.getUserIdByToken, State.getUserIdByToken, hl.token_pool]
  have hrows := hl.rows
  simp only [replies_iff, htoken]
  generalize c.state.getUserIdByToken (pkt.request ContactMessageRequest).token = u at hrows
  rw [pulls_same h h']
  by_cases hu : u = 0
  · subst hu
    simp
  · refine iff_of_true ?_ (.inl hu)
    rw [getMessage_ownRows, getMessage_ownRows, hrows hu]

/-! ## With no token -/

namespace Example

/-- Anyone asks for the first message from 0 to 1. -/
def pullsAnonymous : Packet := packToPacket .ContactMessageRequest (.ContactMessageRequest ⟨[], 1, 1⟩)

end Example

/-- Without a token, a pull tells whether there is an anonymous message. -/
theorem not_pull_own : ¬ ∀ SHA256 c c' pkt, Reachable SHA256 c → Reachable SHA256 c' →
    LookAlike (pkt.request ContactMessageRequest).token c.state c'.state →
    ∀ reply, Replies SHA256 c.state pkt reply ↔ Replies SHA256 c'.state pkt reply := by
  intro h
  obtain ⟨c, hr, hmsg, hno⟩ := reachable_of_run Example.SHA256 Example.anonymousSend
    (fun c => (c.state.db.getMessage 0 1 1).isSome = true ∧ ∀ e ∈ c.history, e.act.op.part ≠ some .token_pool)
    (by decide +kernel)
  have hpool : c.state.token_pool = State.initial.token_pool := by
    funext token
    rcases hr.last_write (fun s => s.token_pool token) (Op.writesToken token)
      (fun _ _ _ hs => step_token_pool hs token) with ⟨-, hinit⟩ | ⟨mid, g, past, hg, -, hw⟩
    · exact hinit
    · have hpart := hno g (by rw [hg]; simp)
      cases ho : g.act.op <;> rw [ho] at hw hpart <;> simp [Op.writesToken, Op.part] at hw hpart
  have hlook : LookAlike (Example.pullsAnonymous.request ContactMessageRequest).token c.state State.initial :=
    ⟨hpool, fun hne => absurd rfl hne⟩
  have hpull := h _ c _ Example.pullsAnonymous hr .init hlook
  simp only [replies_iff] at hpull
  have hsame : c.state.db.getMessage 0 1 1 = none := (pulls_same hr .init).mp hpull
  rw [hsame] at hmsg
  cases hmsg

namespace Example

/-- A request from 0, with no token, to the second user. -/
def anonymousToAlice : SendMessageRequest := ⟨[], ⟨0, 2, MessageType.TEXT, bytes "a"⟩⟩

/-- Alice registers, and anyone is about to store a message to her. -/
def beforeAnonymous : Schedule :=
  session ++ registers 5 0 alice.username password digest ++
    handles 0 5 0 (packToPacket .SendMessageRequest (.SendMessageRequest anonymousToAlice))
      (checked anonymousToAlice alice [] 1700000000)

/-- Bob asks for the first message from him to Alice. -/
def pullsToAlice : Packet := packToPacket .ContactMessageRequest (.ContactMessageRequest ⟨token, 2, 1⟩)

end Example

/-- Before and after the message to Alice, Bob is told the same. -/
theorem pull_own_bob : ∃ c c' : Config, c.state.db.messages.length ≠ c'.state.db.messages.length ∧
    ((∀ reply, Replies Example.SHA256 c.state Example.pullsToAlice reply ↔
        Replies Example.SHA256 c'.state Example.pullsToAlice reply) ↔
      (c.state.getUserIdByToken Example.token ≠ 0 ∨
        c.state.db.getMessage 0 2 1 = c'.state.db.getMessage 0 2 1)) := by
  obtain ⟨c, hr, huser, hrows, hexec⟩ := reachable_of_run Example.SHA256 Example.beforeAnonymous
    (fun c => c.state.getUserIdByToken Example.token = 1 ∧ c.state.db.messages = [] ∧
      ((server Example.SHA256).exec c (.worker 0)
        ⟨.insertMessage (numbered Example.anonymousToAlice.message [] 0 1700000000), .ok 1⟩).map
          (fun c' => (c'.state.db.messages.length, c'.state.db.ownRows 1)) = some (1, [])) (by decide +kernel)
  obtain ⟨c', hexec, hrows'⟩ := Option.map_eq_some_iff.mp hexec
  obtain ⟨hlen, hown⟩ := Prod.mk.inj hrows'
  have hs := Machine.exec_step hexec
  refine ⟨c, c', by rw [hrows, hlen]; decide, ?_⟩
  have hlook : LookAlike (Example.pullsToAlice.request ContactMessageRequest).token c.state c'.state := by
    refine ⟨?_, fun _ => ?_⟩
    · funext token
      exact (step_token_pool (x := ⟨.insertMessage (numbered Example.anonymousToAlice.message [] 0 1700000000), .ok 1⟩)
        hs.state token).symm
    · rw [show c.state.getUserIdByToken (Example.pullsToAlice.request ContactMessageRequest).token = 1 from huser,
        hown, DataAccess.ownRows, hrows]
      rfl
  exact pull_own hr (.step hr hs trivial) hlook

end NetChat
