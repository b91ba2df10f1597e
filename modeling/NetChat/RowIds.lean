/-
The id a message is reported under. `createMsg` inserts the row and then asks
the connection for its last rowid, two operations on a connection that every
worker and every table shares; what it is told is the number of whichever row
was inserted last.
-/
import NetChat.Queues
import NetChat.OneMessage

namespace NetChat

open Interleave DataAccess Server

variable {SHA256 : Bytes → Bytes} {ok : Config → Event → Prop} {c c' : Config} {e e' : Event}
  {pkt : Packet} {m : Message}

/-! ## The numbers of the rows -/

/-- Whether an entry is an INSERT that stored a message. -/
def insertsRow : Entry → Bool
  | ⟨.insertMessage _, .ok _⟩ => true
  | _ => false

/-- How many messages were stored. -/
def rowsInserted (h : List Event) : Nat := h.countP fun e => insertsRow e.act

theorem step_messages_length {s s' : State} {x : Entry} (h : s.step x.op x.res = some s') :
    s'.db.messages.length = s.db.messages.length + if insertsRow x then 1 else 0 := by
  obtain ⟨o, r⟩ := x
  by_cases hp : o.part = some .messages
  · cases o <;> simp only [Op.part, Option.some.injEq, reduceCtorEq] at hp
    simp only [State.step, State.insert_eq_some, Option.some.injEq] at h
    rcases h with ⟨db, rfl, rfl, rfl⟩ | ⟨⟨err, rfl⟩, rfl⟩
    · simp [insertsRow, insertMessage]
    · simp [insertsRow]
  · have hno : insertsRow ⟨o, r⟩ = false := by cases o <;> first | rfl | exact absurd rfl hp
    rw [hno, (State.step_unchanged h).messages hp]
    rfl

theorem rowsInserted_length (h : (server SHA256).ReachableWhen ok State.initial c) :
    c.state.db.messages.length = rowsInserted c.history := by
  refine h.invariant (fun c => c.state.db.messages.length = rowsInserted c.history) rfl
    fun c e c' _ hi hs _ => ?_
  rw [hs.history, rowsInserted, List.countP_cons, step_messages_length hs.state, hi]
  rfl

/-- The row an INSERT stored, under the number after those stored before. -/
theorem row_at (h : (server SHA256).ReachableWhen ok State.initial c) {later earlier : List Event}
    (hh : c.history = later ++ e :: earlier) (hx : e.act = ⟨.insertMessage m, .ok 1⟩) :
    toRow m (rowsInserted earlier + 1) ∈ c.state.db.messages := by
  obtain ⟨c₁, c₂, h₁, rfl, hs, -, hsteps⟩ := h.event hh
  refine (steps_messages_grow hsteps).subset ?_
  rw [State.step_insertMessage_ok hs.state hx, ← rowsInserted_length h₁]
  simp [insertMessage]

theorem rowsInserted_lt (mid earlier : List Event) (he : insertsRow e.act = true) :
    rowsInserted earlier < rowsInserted (mid ++ e :: earlier) := by
  simp only [rowsInserted, List.countP_append, List.countP_cons, he, if_true]
  omega

/-- Two INSERTs with one number are one INSERT. -/
theorem rowsInserted_inj {h later later' earlier earlier' : List Event} (hh : h = later ++ e :: earlier)
    (hh' : h = later' ++ e' :: earlier') (he : insertsRow e.act = true) (he' : insertsRow e'.act = true)
    (heq : rowsInserted earlier = rowsInserted earlier') : later = later' ∧ e = e' ∧ earlier = earlier' := by
  rcases Prog.split_cases (hh.symm.trans hh') with hsame | ⟨mid, -, rfl⟩ | ⟨mid, -, rfl⟩
  · exact hsame
  · exact absurd (rowsInserted_lt mid earlier' he') (by rw [heq]; exact lt_irrefl _)
  · exact absurd (rowsInserted_lt mid earlier he) (by rw [heq]; exact lt_irrefl _)

/-! ## The row of a request -/

/-- The row that the turn of `e` stored, `earlier` being what happened before `e`. -/
def OwnRow (earlier : List Event) (e : Event) (row : MessageRow) : Prop :=
  ∃ mid past p m q, earlier = mid ++ ⟨e.tid, p, .insertMessage m, .ok 1⟩ :: past ∧ Machine.SameTurn e.tid mid ∧
    e.pre = p ++ ⟨.insertMessage m, .ok 1⟩ :: q ∧ row = toRow m (rowsInserted past + 1)

/-- Every `SendMessageResponse` that reports success, and every push of a message,
carries the id of the row its request stored; no two responses carry one id. -/
structure IdsReported (c : Config) : Prop where
  answered : ∀ later e earlier pkt m, c.history = later ++ e :: earlier → Answers pkt m e →
    ∃ row ∈ c.state.db.messages, OwnRow earlier e row ∧ m.id.toInt = row.message_id
  pushes : ∀ e pkt m r p, e ∈ c.history → Answers pkt m e → Pushes c e r p → p = messageList m
  pushed : ∀ g r m, g ∈ c.history → g.act.op = .addSendTask r (messageList m) →
    ∃ e pkt, e ∈ c.history ∧ Answers pkt m e ∧ Pushes c e r (messageList m)
  distinct : ∀ later e earlier pkt m later' e' earlier' pkt' m', c.history = later ++ e :: earlier →
    c.history = later' ++ e' :: earlier' → Answers pkt m e → Answers pkt' m' e' → m.id = m'.id → earlier = earlier'

/-- The condition on the step that asks for the rowid: the connection's last one
is, in the low 32 bits that are read of it, still that of the row this turn
stored, whose number fits an `int`. -/
def RowidKept (c : Config) (e : Event) : Prop :=
  e.act.op = .getLastInsertRowid → ∀ row, OwnRow c.history e row →
    getInt c.state.db.lastInsertRowid = getInt row.message_id ∧ row.message_id < 2 ^ 31

/-- Whether an entry is an INSERT that stored a row, of whichever table. -/
def storesRow : Entry → Bool
  | ⟨.insertUser _ _, .ok _⟩ | ⟨.insertMessage _, .ok _⟩ | ⟨.insertFile _, .ok _⟩ => true
  | _ => false

theorem step_lastInsertRowid {s s' : State} {x : Entry} (h : s.step x.op x.res = some s') (hx : storesRow x = false) :
    s'.db.lastInsertRowid = s.db.lastInsertRowid := by
  by_cases hdb : x.op.keepsDb
  · rw [step_db h hdb]
  obtain ⟨o, r⟩ := x
  cases o <;> simp only [Op.keepsDb, Op.part, ne_eq, reduceCtorEq, not_false_eq_true, and_self, not_true_eq_false,
    Option.some.injEq, false_and, and_false] at hdb
  case updateFile f =>
    cases r with
    | ok n =>
      simp only [State.step, Option.ite_none_right_eq_some, Option.some.injEq] at h
      rw [← h.2]
      rfl
    | error =>
      simp only [State.step, Option.some.injEq] at h
      rw [h]
  all_goals
    cases r with
    | ok => cases hx
    | error =>
      simp only [State.step, State.insert, Option.some.injEq] at h
      rw [h]

/-- **A turn is told its own row's number** when nobody stored a row, in any of the
tables, between its INSERT and its question. -/
theorem rowidKept_of_alone (h : (server SHA256).ReachableWhen ok State.initial c)
    (hlt : c.state.db.messages.length < 2 ^ 31)
    (halone : ∀ later past p m, c.history = later ++ ⟨e.tid, p, .insertMessage m, .ok 1⟩ :: past →
      Machine.SameTurn e.tid later → ∀ y ∈ later, storesRow y.act = false) : RowidKept c e := by
  rintro - row ⟨mid, past, p, m, q, hh, hturn, -, rfl⟩
  obtain ⟨c₁, c₂, h₁, rfl, hs, hk, hsteps⟩ := h.event hh
  have hrow : c₂.state.db.lastInsertRowid = rowsInserted c₁.history + 1 := by
    rw [State.step_insertMessage_ok (x := ⟨.insertMessage m, .ok 1⟩) hs.state rfl, ← rowsInserted_length h₁]
    rfl
  have hkept : c.state.db.lastInsertRowid = c₂.state.db.lastInsertRowid :=
    hsteps.keeps (fun s => s.db.lastInsertRowid) (.step h₁ hs hk) (by rw [hs.history]; exact hh)
      fun _ y _ _ hs hy => step_lastInsertRowid hs.state (halone mid _ p m hh hturn y hy)
  have hnum := rowsInserted_lt mid c₁.history (e := ⟨e.tid, p, .insertMessage m, .ok 1⟩) rfl
  rw [← hh, ← rowsInserted_length h] at hnum
  exact ⟨by rw [hkept, hrow]; rfl, lt_of_le_of_lt hnum hlt⟩

theorem own_row (h : ReachableWhen SHA256 RowidKept c) {later earlier : List Event}
    (hh : c.history = later ++ e :: earlier) {p q : List Entry} {rowid : Nat}
    (hpre : e.pre = (p ++ [⟨.insertMessage m, .ok 1⟩]) ++ ⟨.getLastInsertRowid, rowid⟩ :: q) :
    ∃ row ∈ c.state.db.messages, OwnRow earlier e row ∧ (Int32.ofNat rowid).toInt = row.message_id := by
  -- the step that asked for the rowid, and before it the INSERT
  obtain ⟨mid, past, rfl, hturn⟩ := h.pre_since hh hpre
  obtain ⟨c₁, c₂, h₁, hh₁, -, -, -⟩ := h.event hh
  obtain ⟨c₃, c₄, h₃, rfl, hs₃, hk, -⟩ := h₁.event hh₁
  obtain ⟨mid₃, past, hpast, hturn₃⟩ := h₃.log_since (q := []) hs₃.log
  have hown : OwnRow c₃.history ⟨e.tid, p ++ [⟨.insertMessage m, .ok 1⟩], .getLastInsertRowid, rowid⟩
      (toRow m (rowsInserted past + 1)) := ⟨mid₃, past, p, m, [], hpast, hturn₃, rfl, rfl⟩
  obtain ⟨hlast, hlt⟩ := hk rfl _ hown
  refine ⟨toRow m (rowsInserted past + 1), ?_, ⟨mid ++ ⟨e.tid, p ++ [⟨.insertMessage m, .ok 1⟩],
    .getLastInsertRowid, rowid⟩ :: mid₃, past, p, m, ⟨.getLastInsertRowid, rowid⟩ :: q, by rw [hpast]; simp, ?_,
    by rw [hpre]; simp, rfl⟩, ?_⟩
  · have hins : c.history = (later ++ e :: (mid ++ ⟨e.tid, p ++ [⟨.insertMessage m, .ok 1⟩], .getLastInsertRowid,
        rowid⟩ :: mid₃)) ++ ⟨e.tid, p, .insertMessage m, .ok 1⟩ :: past := by
      rw [hh, hpast]
      simp
    exact row_at h hins rfl
  · intro y hy
    rcases List.mem_append.mp hy with hy | hy
    · exact hturn y hy
    · rcases List.mem_cons.mp hy with rfl | hy
      · simp
      · exact hturn₃ y hy
  · have hread := hs₃.state
    simp only [server, State.step, Option.ite_none_right_eq_some, Option.some.injEq] at hread
    rw [hread.1]
    exact (congrArg Int32.toInt hlast).trans (Int32.toInt_ofNat_of_lt hlt)

theorem Answers.own_row (ha : Answers pkt m e) (h : ReachableWhen SHA256 RowidKept c) {later earlier : List Event}
    (hh : c.history = later ++ e :: earlier) :
    ∃ row ∈ c.state.db.messages, OwnRow earlier e row ∧ m.id.toInt = row.message_id := by
  obtain ⟨c₁, c₂, h₁, -, hs, -, -⟩ := h.event hh
  obtain ⟨i, fd, conn, n, l, cb, -, hl, -, -, hrun⟩ := ha.run h₁ hs
  obtain ⟨u, msgs, timestamp, rowid, rest, rfl, -, hid, -⟩ := (onSendMessageRequest_runs hrun).stored_eq ha.ok
  rw [hid]
  have hpre : e.pre = (received fd conn n pkt ++ checked (pkt.request SendMessageRequest) u msgs timestamp ++
      [⟨.insertMessage (numbered (pkt.request SendMessageRequest).message msgs 0 timestamp), .ok 1⟩]) ++
      ⟨.getLastInsertRowid, rowid⟩ :: rest := by
    rw [hl]
    simp [stored]
  exact NetChat.own_row h hh hpre

/-- An answer whose turn went on past its reply. -/
theorem answers_of_stored (h : ReachableWhen SHA256 RowidKept c) {later earlier : List Event} {pkt : Packet}
    {fd : Int32} {out : SendOut} (hh : c.history = later ++ e :: earlier)
    (hp : pkt.packetid = PacketType.val .SendMessageRequest) (hact : e.act = answered fd m out)
    (hpre : ∃ conn n u msgs timestamp rowid rest, m.id = Int32.ofNat rowid ∧
      e.pre = received fd conn n pkt ++ (stored (pkt.request SendMessageRequest) u msgs timestamp rowid ++ rest)) :
    Answers pkt m e := by
  obtain ⟨conn, n, u, msgs, timestamp, rowid, rest, hid, hpre⟩ := hpre
  have hstored : e.pre = (received fd conn n pkt ++ checked (pkt.request SendMessageRequest) u msgs timestamp ++
      [⟨.insertMessage (numbered (pkt.request SendMessageRequest).message msgs 0 timestamp), .ok 1⟩]) ++
      ⟨.getLastInsertRowid, rowid⟩ :: rest := by
    rw [hpre]
    simp [stored]
  obtain ⟨row, -, -, hrow⟩ := NetChat.own_row h hh hstored
  refine ⟨by rw [hpre]; rfl, hp, ⟨fd, by rw [hact]; rfl⟩, fun hneg => ?_⟩
  rw [← hid, hneg] at hrow
  have hpos : (0 : Int) ≤ row.message_id := Int.natCast_nonneg _
  rw [← hrow] at hpos
  exact absurd hpos (by decide)

/-- Every message pushed was answered, by the request it is pushed for. -/
theorem pushed_answered (h : ReachableWhen SHA256 RowidKept c) {r : Int32} (he : e ∈ c.history)
    (ho : e.act.op = .addSendTask r (messageList m)) :
    ∃ g pkt, g ∈ c.history ∧ Answers pkt m g ∧ Pushes c g r (messageList m) := by
  obtain ⟨later, earlier, hh⟩ := List.append_of_mem he
  obtain ⟨c₁, c₂, h₁, rfl, hs, -, -⟩ := h.event hh
  have hi := hs.issues h₁
  rw [ho] at hi
  obtain ⟨-, hpush⟩ := issues_push hi
  generalize hpre : e.pre = l at hpush
  generalize hp : messageList m = p at hpush
  cases hpush with
  | contacts => simp [messageList, contactPacket] at hp
  | @notice fd conn n pkt out u msgs timestamp rowid m' ht hf hm =>
    simp only [messageList, packToPacket_inj, true_and, Body.ContactMessageListRequest.injEq, List.cons.injEq,
      and_true] at hp
    subst hp
    -- the reply came before in this turn
    obtain ⟨mid, past, hmid, hturn⟩ := h.pre_since hh (x := answered fd m out)
      (p := received fd conn n pkt ++ stored (pkt.request SendMessageRequest) u msgs timestamp rowid)
      (q := [⟨.getSender (pkt.request SendMessageRequest).message.to_, true⟩,
        ⟨.getSender (pkt.request SendMessageRequest).message.to_, true⟩]) (by rw [hpre]; simp)
    rw [hmid] at hh
    have hall := hh
    rw [← List.cons_append, ← List.append_assoc] at hall
    refine ⟨_, pkt, by rw [hall]; simp, answers_of_stored h hall ht rfl
      ⟨conn, n, u, msgs, timestamp, rowid, [], by rw [hm]; rfl, by simp⟩, .atOnce hh rfl ?_ ho⟩
    intro y hy
    rcases List.mem_cons.mp hy with rfl | hy
    · simp [hpre, received]
    · exact hturn y hy
  | @forward fd conn n pkt out uid row wrote ret r m' ht hr =>
    simp only [messageList, packToPacket_inj, true_and, Body.ContactMessageListRequest.injEq, List.cons.injEq,
      and_true] at hp
    subst hp
    -- the pool gave the message, and the turn that put it there had answered it
    have hget := h.pre_history hh (x := ⟨.getFileMsg (pkt.request FileUploadRequest).id, (r, m)⟩)
      (p := received fd conn n pkt ++ (stowed (pkt.request FileUploadRequest) uid row wrote ret ++
        [⟨.Send fd (uploadResponse true), out⟩])) (by rw [hpre]; simp; rfl)
    obtain ⟨g, hg, hgo⟩ := getFileMsg_set h₁ hget rfl hr
    obtain ⟨later₁, earlier₁, hh₁⟩ := List.append_of_mem hg
    rw [hh₁] at hh
    have hset : c.history = (later ++ e :: later₁) ++ g :: earlier₁ := by rw [hh]; simp
    obtain ⟨c₃, c₄, h₃, -, hs₃, -, -⟩ := h.event hset
    have hi₃ := hs₃.issues h₃
    rw [hgo] at hi₃
    obtain ⟨i', fd', conn', n', pkt', u, msgs, timestamp, rowid, out', -, ht', -, -, -, hm, hpre'⟩ :=
      issues_setFileMsg hi₃
    obtain ⟨mid, past, hmid, -⟩ := h.pre_since hset (x := answered fd' m out')
      (p := received fd' conn' n' pkt' ++ filed (pkt'.request SendMessageRequest) u msgs timestamp rowid
        (pkt.request FileUploadRequest).id)
      (q := []) (by rw [hpre']; simp)
    rw [hmid, ← List.cons_append, ← List.append_assoc] at hset
    refine ⟨_, pkt', by rw [hset]; simp, answers_of_stored h hset ht' rfl
      ⟨conn', n', u, msgs, timestamp, rowid, _, by rw [hm]; rfl, rfl⟩, .uploaded he (by rw [hpre]; rfl) ht ?_ ho⟩
    simp [filed]

theorem Answers.once {pkt' : Packet} {m' : Message} (ha : Answers pkt m e) (ha' : Answers pkt' m' e')
    (h : (server SHA256).ReachableWhen ok State.initial c) {later mid past : List Event}
    (hh : c.history = later ++ e' :: (mid ++ e :: past)) (hturn : Machine.SameTurn e.tid mid) (ht : e'.tid = e.tid) :
    False := by
  have hreply : c.history = (later ++ e' :: mid) ++ e :: past := by rw [hh]; simp
  obtain ⟨c₁, c₂, h₁, -, hs, -, -⟩ := h.event hreply
  obtain ⟨i, -, -, -, -, -, hi, -⟩ := ha.run h₁ hs
  obtain ⟨fd, ho⟩ := ha.sent
  obtain ⟨fd', ho'⟩ := ha'.sent
  rw [hi] at hturn ht
  exact worker_sends_once h hh hturn hi ht ho ho'

/-- **Every message is reported under its own row's id**, when no turn is told
another row's. -/
theorem ids_reported (h : ReachableWhen SHA256 RowidKept c) : IdsReported c where
  answered := fun _ _ _ _ _ hh ha => ha.own_row h hh
  pushes := by
    intro e pkt m r p he ha hp
    cases hp with
    | atOnce hh htid hturn ho => exact (ha.pushed_atOnce h hh htid hturn ho).2
    | uploaded he' hup htype hfile ho => exact (ha.pushed_uploaded h he he' hup htype hfile ho).2
  pushed := fun _ _ _ hg ho => pushed_answered h hg ho
  distinct := by
    intro later e earlier pkt m later' e' earlier' pkt' m' hh hh' ha ha' hid
    obtain ⟨row, -, ⟨mid, past, p, m₀, q, rfl, hturn, -, rfl⟩, hrow⟩ := ha.own_row h hh
    obtain ⟨row', -, ⟨mid', past', p', m₀', q', rfl, hturn', -, rfl⟩, hrow'⟩ := ha'.own_row h hh'
    -- one number, so one INSERT
    have hnum : rowsInserted past = rowsInserted past' := by
      rw [hid, hrow'] at hrow
      simp only [toRow, Int.natCast_inj] at hrow
      omega
    have hins : c.history = (later ++ e :: mid) ++ ⟨e.tid, p, .insertMessage m₀, .ok 1⟩ :: past := by rw [hh]; simp
    have hins' : c.history = (later' ++ e' :: mid') ++ ⟨e'.tid, p', .insertMessage m₀', .ok 1⟩ :: past' := by
      rw [hh']; simp
    obtain ⟨hlater, hevent, rfl⟩ := rowsInserted_inj hins hins' rfl rfl hnum
    have htid : e.tid = e'.tid := (Interleave.Event.mk.inj hevent).1
    rw [hevent]
    -- of two replies after it in its turn, neither is before the other
    rcases Prog.split_cases hlater with ⟨-, -, rfl⟩ | ⟨a, -, rfl⟩ | ⟨a, -, rfl⟩
    · rfl
    · rw [List.append_assoc, List.cons_append] at hh
      exact (ha'.once ha h hh (fun y hy => htid ▸ hturn y (by simp [hy])) htid).elim
    · rw [List.append_assoc, List.cons_append] at hh'
      exact (ha.once ha' h hh' (fun y hy => htid ▸ hturn' y (by simp [hy])) htid.symm).elim

/-! ## A registration in between -/

namespace Example

/-- Alice registers while Bob's note is between its INSERT and its rowid. -/
def registersBetween : Schedule :=
  session ++ selects 0 (bytes "a") [] ++ [insertsNote 0 (bytes "a") []] ++
    handles 1 5 0 (packToPacket .RegisterRequest (.RegisterRequest ⟨bytes "alice", password⟩))
      [⟨.insertUser (bytes "alice") digest, .ok 1⟩,
        replies 5 0 .RegisterResponse (.RegisterResponse true)] ++
    [(.worker 0, ⟨.getLastInsertRowid, 2⟩),
      (.worker 0, replies 5 0 .SendMessageResponse
        (.SendMessageResponse (numbered (note (bytes "a")).message [] 2 1700000000)))]

end Example

/-- The only message can be reported as the second. -/
theorem not_idsReported : ¬ ∀ SHA256 c, Reachable SHA256 c → IdsReported c := by
  intro h
  obtain ⟨c, hr, hrows, hlast⟩ := reachable_of_run Example.SHA256 Example.registersBetween
    (fun c => (∀ row ∈ c.state.db.messages, row.message_id = 1) ∧
      (c.history.head?.map fun e => (handling e.pre, e.act.op)) =
        some (some (packToPacket .SendMessageRequest (.SendMessageRequest (Example.note (bytes "a")))),
          .Send 5 (packToPacket .SendMessageResponse
            (.SendMessageResponse (numbered (Example.note (bytes "a")).message [] 2 1700000000)))))
    (by decide +kernel)
  obtain ⟨e, earlier, hh, hlast⟩ := last_event hlast
  rw [Prod.mk.injEq] at hlast
  obtain ⟨row, hrow, -, hid⟩ := (h _ c hr).answered [] e earlier _ _ hh ⟨hlast.1, rfl, ⟨5, hlast.2⟩, by decide⟩
  rw [hrows row hrow] at hid
  exact absurd hid (by decide)

/-- Whether a step that asks for the rowid does so when nobody but its turn stored
a row last, and its worker no message before. -/
def checkAlone (c : Config) (e : Event) : Bool :=
  e.act.op != .getLastInsertRowid || (c.state.db.messages.length < 2 ^ 31 &&
    c.history.tail.all fun y => y.tid != e.tid || !insertsRow y.act)

theorem rowidKept_of_check (h : (server SHA256).ReachableWhen ok State.initial c) (hcheck : checkAlone c e = true) :
    RowidKept c e := by
  by_cases ho : e.act.op = .getLastInsertRowid
  · simp only [checkAlone, ho, bne_self_eq_false, Bool.false_or, Bool.and_eq_true, decide_eq_true_eq,
      List.all_eq_true] at hcheck
    refine rowidKept_of_alone h hcheck.1 fun later past p m hh _ y hy => ?_
    cases later with
    | nil => cases hy
    | cons x later =>
      have hno := hcheck.2 ⟨e.tid, p, .insertMessage m, .ok 1⟩ (by rw [hh]; simp)
      simp [insertsRow] at hno
  · exact fun ho' => absurd ho' ho

namespace Example

/-- Bob's note to Alice, which another worker stores between the rowid of his first
note to himself and the reply to it. -/
def storesBetween : Schedule :=
  session ++ registers 5 0 alice.username password digest ++ selects 0 [97] [] ++
    [insertsNote 0 [97] [], (.worker 0, ⟨.getLastInsertRowid, 1⟩)] ++
    stores 1 ⟨token, ⟨1, 2, MessageType.TEXT, [99]⟩⟩ alice [] 2 ++
    [(.worker 0, replies 5 0 .SendMessageResponse (.SendMessageResponse firstNote))]

end Example

theorem ids_reported_notes : ∃ c, c.state.db.messages.length = 2 ∧ (∃ e ∈ c.history,
      e.tid = .worker 0 ∧ e.act.op = .Send 5 (packToPacket .SendMessageResponse
        (.SendMessageResponse Example.firstNote))) ∧ IdsReported c := by
  obtain ⟨c, hr, hlen, hsent⟩ := reachableWhen_of_run Example.SHA256 RowidKept checkAlone Example.storesBetween
    (fun c => c.state.db.messages.length = 2 ∧ ∃ e ∈ c.history, e.tid = .worker 0 ∧ e.act.op = .Send 5
      (packToPacket .SendMessageResponse (.SendMessageResponse Example.firstNote)))
    (fun _ _ _ hr _ _ hcheck => rowidKept_of_check hr hcheck) (by decide +kernel)
  exact ⟨c, hlen, hsent, ids_reported hr⟩

end NetChat
