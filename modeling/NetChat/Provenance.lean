/-
Who a stored message is from. The sender of a row passed the comparison of
`from` with the id its token gave, so it is the user some login issued the
token to: unless the token gave no id at all, since the 0 that
`getUserIdByToken` answers then equals a `from` of 0.
-/
import NetChat.Frames
import NetChat.Turns

namespace NetChat

open Interleave

variable {SHA256 : Bytes → Bytes} {ok : Config → Event → Prop} {c c' : Config} {e : Event}

/-! ## Tokens -/

/-- The step of a successful `LoginRequest` that issues `token` to `uid`: the
user the request named, whose password hash and challenge give the hash sent. -/
def IssuesToken (SHA256 : Bytes → Bytes) (token : Bytes) (uid : Int32) (e : Event) : Prop :=
  ∃ i fd conn n pkt user challenge, e.tid = .worker i ∧ pkt.packetid = PacketType.val .LoginRequest ∧
    e.pre = received fd conn n pkt ++ [⟨.getUser (pkt.request LoginRequest).username, .ok (some user)⟩,
      ⟨.getChallengeMp user.id, challenge⟩, ⟨.getUUID, token⟩] ∧
    uid = user.id ∧ SHA256 (user.password ++ challenge) = (pkt.request LoginRequest).hashpassword ∧
    e.act = ⟨.setUserIdByToken token uid, ()⟩

theorem setUserIdByToken_issuesToken {s : State} (hr : (server SHA256).ReachableWhen ok s c)
    (h : (server SHA256).Step c e c') {token : Bytes} {uid : Int32} (ho : e.act.op = .setUserIdByToken token uid) :
    IssuesToken SHA256 token uid e := by
  obtain ⟨i, fd, conn, n, pkt, l, ht, hl, hp, hi⟩ := step_handler handler_login hr h ho rfl
  obtain ⟨_, hact⟩ := Entry.of_op ho
  obtain ⟨user, challenge, rfl, huid, hash⟩ := onLoginRequest_setUserIdByToken hi
  exact ⟨i, fd, conn, n, pkt, user, challenge, ht, hp, hl, huid, hash, hact⟩

/-- The last step that issued `token`, before the history `h`, issued it to `uid`. -/
def IssuedTo (SHA256 : Bytes → Bytes) (token : Bytes) (uid : Int32) (h : List Event) : Prop :=
  ∃ later login earlier, h = later ++ login :: earlier ∧ IssuesToken SHA256 token uid login ∧
    ∀ e ∈ later, ∀ uid', e.act.op ≠ .setUserIdByToken token uid'

/-- A token that was not in the pool at the start was issued. -/
theorem token_pool_issuedTo_of_empty {s : State} (h : (server SHA256).ReachableWhen ok s c) {token : Bytes}
    {uid : Int32} (hempty : s.token_pool token = none) (ht : c.state.token_pool token = some uid) :
    IssuedTo SHA256 token uid c.history := by
  rcases h.last_write (fun s => s.token_pool token) (Op.writesToken token)
    (fun _ _ _ hs => step_token_pool hs token) with ⟨-, hinit⟩ | ⟨later, e, earlier, hh, hlater, he⟩
  · rw [hinit, hempty] at ht
    cases ht
  · rw [ht] at he
    have ho : e.act.op = .setUserIdByToken token uid := by
      cases hop : e.act.op <;> rw [hop] at he <;> simp only [Op.writesToken, reduceCtorEq] at he
      split at he <;> simp_all
    obtain ⟨c₁, c₂, h₁, -, hs, -, -⟩ := h.event hh
    refine ⟨later, e, earlier, hh, setUserIdByToken_issuesToken h₁ hs ho, fun e' he' uid' ho' => ?_⟩
    have hn := hlater e' he'
    rw [ho'] at hn
    simp [Op.writesToken] at hn

/-- The token pool holds what the logins issued. -/
theorem token_pool_issuedTo (h : (server SHA256).ReachableWhen ok State.initial c) {token : Bytes} {uid : Int32}
    (ht : c.state.token_pool token = some uid) : IssuedTo SHA256 token uid c.history :=
  token_pool_issuedTo_of_empty h rfl ht

/-- A token is issued to registered users only. -/
theorem issuesToken_registered {s : State} (h : (server SHA256).ReachableWhen ok s c) {token : Bytes}
    {uid : Int32} (he : e ∈ c.history) (hi : IssuesToken SHA256 token uid e) :
    ∃ u ∈ c.state.db.getAllUsers, u.id = uid := by
  obtain ⟨i, fd, conn, n, pkt, user, challenge, ht, -, hl, rfl, -, -⟩ := hi
  have hget := getUser_past h (h.pre_past he hl) rfl
  obtain ⟨row, hrow, hu⟩ := Option.map_eq_some_iff.mp hget
  exact ⟨user, List.mem_map.mpr ⟨row, List.mem_of_find?_eq_some hrow, hu⟩, rfl⟩

/-! ## Rows -/

/-- The step that inserted `row`: handling a `SendMessageRequest` for it, whose
token had been issued, when it was looked up, to the sender. -/
def InsertedByOwner (SHA256 : Bytes → Bytes) (history : List Event) (row : MessageRow) : Prop :=
  ∃ later e earlier m fd conn n pkt rest, history = later ++ e :: earlier ∧
    e.act = ⟨.insertMessage m, .ok 1⟩ ∧ row = DataAccess.toRow m row.message_id ∧
    e.pre = received fd conn n pkt ++ ⟨.getUserIdByToken (pkt.request SendMessageRequest).token, row.sender_id⟩ :: rest ∧
    pkt.packetid = PacketType.val .SendMessageRequest ∧ m.message = (pkt.request SendMessageRequest).message ∧
    ∃ later' earlier', earlier = later' ++ ⟨e.tid, received fd conn n pkt,
        ⟨.getUserIdByToken (pkt.request SendMessageRequest).token, row.sender_id⟩⟩ :: earlier' ∧
      Machine.SameTurn e.tid later' ∧ IssuedTo SHA256 (pkt.request SendMessageRequest).token row.sender_id earlier'

/-- **Message provenance**: every row is from a registered user, whose token
the request that stored it had. -/
def Provenance (SHA256 : Bytes → Bytes) (c : Config) : Prop :=
  ∀ row ∈ c.state.db.messages,
    (∃ u ∈ c.state.db.getAllUsers, u.id = row.sender_id) ∧ InsertedByOwner SHA256 c.history row

/-- The condition on the step that looks up the token of a `SendMessageRequest`:
a request with `from` 0 has a token that some login issued. -/
def ZeroSenderKnown (c : Config) (e : Event) : Prop :=
  ∀ pkt token, handling e.pre = some pkt → pkt.packetid = PacketType.val .SendMessageRequest →
    e.act.op = .getUserIdByToken token → (pkt.request SendMessageRequest).message.from_ = 0 →
    token ≠ [] ∧ c.state.token_pool token ≠ none

/-- A lookup that passes the comparison with `from` found the token in the pool. -/
theorem lookup_token {s s' : State} {token : Bytes} {sender : Int32}
    (h : s.step (.getUserIdByToken token) sender = some s')
    (hz : sender = 0 → token ≠ [] ∧ s.token_pool token ≠ none) : s.token_pool token = some sender := by
  simp only [State.step, Option.ite_none_right_eq_some, Option.some.injEq] at h
  have hlook := h.1
  simp only [State.getUserIdByToken] at hlook
  split at hlook
  · rename_i htoken
    exact absurd htoken (hz hlook).1
  · cases hp : s.token_pool token with
    | none =>
      rw [hp] at hlook
      exact absurd hp (hz hlook).2
    | some uid =>
      rw [hp] at hlook
      rw [hlook]
      rfl

/-- **Every stored message is its token owner's**, when no request from 0 comes
with a token nobody was issued. -/
theorem provenance (h : ReachableWhen SHA256 ZeroSenderKnown c) : Provenance SHA256 c := by
  intro row hrow
  obtain ⟨e, m, he, hact, hrowm⟩ := row_inserted h hrow
  obtain ⟨later, earlier, hh⟩ := List.append_of_mem he
  obtain ⟨c₁, c₂, h₁, rfl, hs, -, -⟩ := h.event hh
  have hi := hs.issues h₁
  rw [hact] at hi
  obtain ⟨i, fd, conn, n, pkt, u, msgs, timestamp, ht, hp, hl, hm⟩ := issues_insertMessage hi
  have hsender : row.sender_id = (pkt.request SendMessageRequest).message.from_ := by
    rw [hrowm, hm]
    rfl
  obtain ⟨later', earlier', hh', hturn⟩ := h.pre_since hh hl
  obtain ⟨c₃, c₄, h₃, rfl, hs₃, hok, -⟩ := h₁.event hh'
  have hpool := lookup_token hs₃.state fun hz => hok pkt _ handling_received hp rfl hz
  have hissued := token_pool_issuedTo h₃ hpool
  rw [← hsender] at hissued hh'
  refine ⟨?_, later, e, c₁.history, m, fd, conn, n, pkt,
    (checked (pkt.request SendMessageRequest) u msgs timestamp).tail, hh, hact, hrowm, ?_, hp, by rw [hm]; rfl,
    later', c₃.history, hh', hturn, hissued⟩
  · obtain ⟨later'', login, earlier'', hh'', hlogin, -⟩ := hissued
    refine issuesToken_registered h ?_ hlogin
    rw [hh, hh', hh'']
    simp
  · rw [hl, hsender]
    rfl

namespace Example

/-- A request from 0, with no token, to the first user. -/
def anonymous : SendMessageRequest := ⟨[], ⟨0, 1, MessageType.TEXT, [104, 105]⟩⟩

/-- Bob registers, and anyone sends him a message. -/
def anonymousSend : Schedule :=
  connects 5 ++ registers 5 0 bob.username password digest ++
    handles 0 5 0 (packToPacket .SendMessageRequest (.SendMessageRequest anonymous))
      (checked anonymous bob [] 1700000000 ++
        [⟨.insertMessage (numbered anonymous.message [] 0 1700000000), .ok 1⟩])

end Example

/-- A request from 0 needs no token. -/
theorem not_provenance : ¬ ∀ SHA256 c, Reachable SHA256 c → Provenance SHA256 c := by
  intro h
  obtain ⟨c, hr, hc⟩ := reachable_of_run Example.SHA256 Example.anonymousSend
    (fun c => ¬ ∀ row ∈ c.state.db.messages, ∃ u ∈ c.state.db.getAllUsers, u.id = row.sender_id)
    (by decide +kernel)
  exact hc fun row hrow => (h _ c hr row hrow).1

/-- Every request of Bob's is from 1. -/
theorem Example.oneInsert_sender : ∀ y ∈ Example.oneSend ++ [Example.insertsNote 0 [97] []],
    (received? y.2).all fun pkt =>
      pkt.packetid != PacketType.val .SendMessageRequest ||
        (pkt.request SendMessageRequest).message.from_ != 0 := by
  decide +kernel

theorem provenance_note : ∃ c, c.state.db.messages.length = 1 ∧ Provenance Example.SHA256 c := by
  obtain ⟨c, hr, hlen⟩ := reachableWhen_of_run Example.SHA256 ZeroSenderKnown (fun _ _ => true)
    (Example.oneSend ++ [Example.insertsNote 0 [97] []]) (fun c => c.state.db.messages.length = 1)
    (by
      intro c e _ hr hh hlog _ pkt token hpkt hp _ hz
      rw [← hlog] at hpkt
      obtain ⟨y, hy, hrecv⟩ := handling_scheduled hr hh hpkt
      have hs := Example.oneInsert_sender y hy
      rw [hrecv] at hs
      simp [hp, hz] at hs)
    (by decide +kernel)
  exact ⟨c, hlen, provenance hr⟩

end NetChat
