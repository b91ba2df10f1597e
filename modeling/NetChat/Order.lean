/-
The order of a conversation's pushes. A sender that waits for each answer has
its messages inserted one after the other, under growing internal ids; but the
push of a message comes after its answer, and the worker that is to do it can
be overtaken by those of the messages that follow.
-/
import Mathlib.Data.List.Flatten
import NetChat.Addressed
import NetChat.InternalIds

namespace NetChat

open Interleave Numbering DataAccess Server

variable {SHA256 : Bytes → Bytes} {ok : Config → Event → Prop} {c c' : Config} {e g : Event} {s r : Int32} {i j : Nat}
  {m m' : Message}

/-! ## What is queued, in order -/

/-- The packets an operation queues for the user `r`. -/
def Op.queues (r : Int32) : Op → List Packet
  | .addSendTask uid p => if uid = r then [p] else []
  | _ => []

/-- The packets queued for the user `r`, in order. -/
def pushedTo (r : Int32) : List Event → List Packet
  | [] => []
  | e :: past => pushedTo r past ++ e.act.op.queues r

/-- The TEXT messages from `s` that packets bring, in order. -/
def texts (s : Int32) (ps : List Packet) : List Message :=
  (ps.flatMap Packet.messages).filter fun m => m.message.from_ = s ∧ m.message.type = MessageType.TEXT

/-- The TEXT messages from `s` to `r` are in the order of their internal ids: those ever
queued for `r`, and those in its queue. -/
structure InOrder (s r : Int32) (c : Config) : Prop where
  pushed : (texts s (pushedTo r c.history)).Pairwise fun m m' => m.internalid < m'.internalid
  queued : (texts s (c.state.queue r)).Pairwise fun m m' => m.internalid < m'.internalid

@[simp] theorem queues_addSendTask (r : Int32) (p : Packet) : (Op.addSendTask r p).queues r = [p] := if_pos rfl

theorem mem_queues {o : Op} {p : Packet} : p ∈ o.queues r ↔ o = .addSendTask r p := by
  constructor
  · intro h
    cases o <;> simp only [Op.queues, List.not_mem_nil] at h
    rename_i uid q
    split at h
    · rename_i huid
      rw [List.mem_singleton] at h
      rw [huid, h]
    · cases h
  · rintro rfl
    simp

theorem mem_pushedTo {h : List Event} {p : Packet} : p ∈ pushedTo r h ↔ ∃ g ∈ h, g.act.op = .addSendTask r p := by
  induction h with
  | nil => simp [pushedTo]
  | cons e past ih => simp [pushedTo, ih, mem_queues, or_comm]

theorem mem_texts {ps : List Packet} : m ∈ texts s ps ↔
    (∃ p ∈ ps, m ∈ p.messages) ∧ m.message.from_ = s ∧ m.message.type = MessageType.TEXT := by
  simp [texts]

@[simp] theorem texts_append (s : Int32) (ps ps' : List Packet) : texts s (ps ++ ps') = texts s ps ++ texts s ps' := by
  simp [texts]

theorem texts_sublist {ps ps' : List Packet} (h : ps.Sublist ps') : (texts s ps).Sublist (texts s ps') :=
  (h.flatMap _).filter _

/-- A queue holds what was queued, in order. -/
theorem queue_sublist (h : (server SHA256).ReachableWhen ok State.initial c) (r : Int32) :
    (c.state.queue r).Sublist (pushedTo r c.history) := by
  induction h with
  | init => exact List.Sublist.refl _
  | @step c c' e _ hs _ ih =>
    rw [hs.history, pushedTo]
    rcases step_queue hs.state r with ⟨p, hx, hq⟩ | ⟨-, hq⟩ | ⟨p, -, hq⟩ | hq
    · rw [hq, hx, queues_addSendTask]
      exact ih.append_right _
    · rw [hq]
      exact List.nil_sublist _
    · rw [hq] at ih
      exact ((List.sublist_cons_self p _).trans ih).trans (List.sublist_append_left _ _)
    · rw [hq]
      exact ih.trans (List.sublist_append_left _ _)

/-! ## A sender that waits -/

/-- `pkt` asks to send a message from `s` to `r`. -/
def Packet.sends (pkt : Packet) (s r : Int32) : Prop :=
  pkt.packetid = PacketType.val .SendMessageRequest ∧ (pkt.request SendMessageRequest).message.from_ = s ∧
    (pkt.request SendMessageRequest).message.to_ = r

/-- `e` accepts a request of `s` to `r`: its token is a token of `s`. -/
def Accepts (s r : Int32) (e : Event) : Prop :=
  ∃ fd conn n pkt, e.pre = received fd conn n pkt ∧ pkt.sends s r ∧
    e.act = ⟨.getUserIdByToken (pkt.request SendMessageRequest).token, s⟩

/-- In `later`, which came after `g`, the turn of `g` has sent its answer. -/
def AnsweredIn (later : List Event) (g : Event) : Prop :=
  ∃ l₁ a l₂, later = l₁ ++ a :: l₂ ∧ a.tid = g.tid ∧ Machine.SameTurn g.tid (a :: l₂) ∧
    ∃ fd p conn, a.act = ⟨.Send fd p, ⟨conn, true⟩⟩

/-- The sender waits: when a request of `s` to `r` is accepted, each that was accepted
before it had been answered when it was received. -/
def Awaits (s r : Int32) (c : Config) (e : Event) : Prop :=
  Accepts s r e → ∀ later g earlier, c.history = later ++ g :: earlier → Accepts s r g →
    ∃ since recv before, later = since ++ recv :: before ∧ (∀ y ∈ since, y.tid ≠ e.tid) ∧ recv.tid = e.tid ∧
      e.pre = recv.pre ++ [recv.act] ∧ AnsweredIn before g

/-- The condition on a step: the sender waits, the conversation has room for one more
number, and a TEXT message is not queued while the turn of an earlier one is still to
queue it. -/
structure Orderly (s r : Int32) (c : Config) (e : Event) : Prop where
  awaits : Awaits s r c e
  room : inserts (s, r) e → (c.state.db.conversation (s, r)).length < 2 ^ 31 - 1
  pushes : ∀ m, e.act.op = .addSendTask r (messageList m) → m.message.from_ = s → m.message.type = MessageType.TEXT →
    ∀ i m', .worker i ≠ e.tid → ⟨.insertMessage m', .ok 1⟩ ∈ (c.threads (.worker i)).log → m'.pair = (s, r) →
      m'.message.type = MessageType.TEXT → ¬ m'.internalid < m.internalid

/-! ## One accepted request at a time -/

/-- Worker `i` has accepted a request of `s` to `r`, and not come to its answer. -/
def Accepted (s r : Int32) (c : Config) (i : Nat) : Prop :=
  ∃ fd conn n pkt rest, (c.threads (.worker i)).log = received fd conn n pkt ++
    ⟨.getUserIdByToken (pkt.request SendMessageRequest).token, s⟩ :: rest ∧ pkt.sends s r ∧
      ∀ x ∈ rest, ∀ fd p, x.op ≠ .Send fd p

/-- A worker that has accepted did so at this step, or had. -/
theorem Accepted.before (ha : Accepted s r c' i) (hs : (server SHA256).Step c e c') :
    Accepted s r c i ∨ e.tid = .worker i ∧ Accepts s r e := by
  obtain ⟨fd, conn, n, pkt, rest, hl, hp, hno⟩ := ha
  by_cases ht : e.tid = .worker i
  · rw [← ht] at hl
    rcases hs.self with hl' | hl' <;> rw [hl'] at hl
    · rcases List.eq_nil_or_concat rest with rfl | ⟨rest, x, rfl⟩
      · obtain ⟨hpre, hx⟩ := List.append_inj' hl rfl
        exact .inr ⟨ht, fd, conn, n, pkt, hpre, hp, List.singleton_inj.mp hx⟩
      · rw [List.concat_eq_append, ← List.cons_append, ← List.append_assoc] at hl
        obtain ⟨hpre, -⟩ := List.append_inj' hl rfl
        rw [← hs.log, ht] at hpre
        exact .inl ⟨fd, conn, n, pkt, rest, hpre, hp, fun x hx => hno x (by simp [hx])⟩
    · cases hl
  · rw [hs.other (Ne.symm ht)] at hl
    exact .inl ⟨fd, conn, n, pkt, rest, hl, hp, hno⟩

/-- While a worker has not come to its answer, nobody else accepts. -/
theorem Accepted.awaited (ha : Accepted s r c i) (h : (server SHA256).ReachableWhen ok State.initial c)
    (hw : Awaits s r c e) : ¬ Accepts s r e := by
  intro he
  obtain ⟨fd, conn, n, pkt, rest, hl, hp, hno⟩ := ha
  obtain ⟨mid, past, hh, hturn⟩ := h.log_since hl
  obtain ⟨since, recv, before, hmid, -, -, -, l₁, a, l₂, hbefore, hat, -, fd', p, conn', hact⟩ :=
    hw he mid _ past hh ⟨fd, conn, n, pkt, rfl, hp, rfl⟩
  -- the answer would be on the worker's log
  have hh' : c.history = (since ++ recv :: l₁) ++ a :: (l₂ ++ ⟨.worker i, received fd conn n pkt,
      ⟨.getUserIdByToken (pkt.request SendMessageRequest).token, s⟩⟩ :: past) := by
    rw [hh, hmid, hbefore]
    simp
  have hlog := h.log_of_sameTurn hh' fun y hy ht => hturn y (by rw [hmid, hbefore]; simp at hy ⊢; tauto) (ht.trans hat)
  rw [hat, hl] at hlog
  rcases hlog with hlog | ⟨q, hlog⟩
  · simp [received] at hlog
  · have hmem : a.act ∈ received fd conn n pkt ++
        ⟨.getUserIdByToken (pkt.request SendMessageRequest).token, s⟩ :: rest := by
      rw [hlog]
      simp
    simp only [received, List.cons_append, List.nil_append, List.mem_cons, hact, Interleave.Entry.mk.injEq, reduceCtorEq,
      false_and, false_or] at hmem
    exact hno _ hmem fd' p rfl

/-- A sender that waits has one request in progress. -/
theorem accepted_unique (h : ReachableWhen SHA256 (Awaits s r) c) (hi : Accepted s r c i) (hj : Accepted s r c j) :
    i = j := by
  induction h with
  | init =>
    obtain ⟨fd, conn, n, pkt, rest, hl, -, -⟩ := hi
    cases hl
  | @step c c' e hr hs hw ih =>
    rcases hi.before hs with hi | ⟨hti, hae⟩
    · rcases hj.before hs with hj | ⟨-, hae⟩
      · exact ih hi hj
      · exact absurd hae (hi.awaited hr hw)
    · rcases hj.before hs with hj | ⟨htj, -⟩
      · exact absurd hae (hj.awaited hr hw)
      · rw [hti] at htj
        cases htj
        rfl

/-- What inserts into the conversation is a request of the sender's. -/
theorem inserts_accepted (h : (server SHA256).ReachableWhen ok State.initial c) (hs : (server SHA256).Step c e c')
    (hi : inserts (s, r) e) : ∃ i, e.tid = .worker i ∧ Accepted s r c i := by
  obtain ⟨m, hm, hpair⟩ := hi
  have hiss := hs.issues h
  rw [hm] at hiss
  obtain ⟨i, fd, conn, n, pkt, u, msgs, timestamp, ht, hp, hl, rfl⟩ := issues_insertMessage hiss
  obtain ⟨rfl, rfl⟩ := Prod.mk.inj hpair
  refine ⟨i, ht, fd, conn, n, pkt, _, by rw [← ht, hs.log, hl]; rfl, ⟨hp, rfl, rfl⟩, ?_⟩
  simp only [List.mem_cons, List.not_mem_nil, or_false]
  rintro x (rfl | rfl | rfl) fd p ho <;> cases ho

/-! ## The numbers of the conversation -/

/-- What the request in progress selected, and has not inserted after, is what the
conversation has. -/
def SelectedCurrent (s r : Int32) (c : Config) : Prop :=
  ∀ i msgs, Accepted s r c i → ⟨.getAllMessages s r, .ok msgs⟩ ∈ (c.threads (.worker i)).log →
    (∀ x ∈ (c.threads (.worker i)).log, ∀ m, x.op ≠ .insertMessage m) → msgs = c.state.db.getAllMessages s r

theorem selectedCurrent_step (h : ReachableWhen SHA256 (Awaits s r) c) (hsel : SelectedCurrent s r c)
    (hs : (server SHA256).Step c e c') : SelectedCurrent s r c' := by
  intro i msgs ha hmem hno
  have hkeep : ¬ inserts (s, r) e → c'.state.db.getAllMessages s r = c.state.db.getAllMessages s r := by
    intro hn
    rw [getAllMessages_eq, getAllMessages_eq, conversation_step_of_not hs hn]
  by_cases ht : e.tid = .worker i
  · rw [← ht] at hmem hno
    have hlog := hs.log
    rcases hs.self with hl | hl
    · rw [hl] at hmem hno
      have hn : ¬ inserts (s, r) e := by
        rintro ⟨m, hm, -⟩
        exact hno e.act (by simp) m hm
      rw [hkeep hn]
      rcases List.mem_append.mp hmem with hmem | hmem
      · rcases ha.before hs with ha | ⟨-, fd, conn, n, pkt, hpre, -, -⟩
        · rw [← hlog, ht] at hmem
          exact hsel i msgs ha hmem fun x hx => hno x (List.mem_append_left _ (by rwa [← hlog, ht]))
        · rw [hpre] at hmem
          simp [received] at hmem
      · have hstate := hs.state
        rw [List.mem_singleton] at hmem
        rw [← hmem] at hstate
        exact (State.query_ok hstate).2
    · rw [hl] at hmem
      cases hmem
  · have ha' : Accepted s r c i := (ha.before hs).resolve_right fun hn => ht hn.1
    rw [hs.other (Ne.symm ht)] at hmem hno
    rw [hkeep fun hi => ?_]
    · exact hsel i msgs ha' hmem hno
    · obtain ⟨j, hj, haj⟩ := inserts_accepted h hs hi
      exact ht (by rw [hj, accepted_unique h ha' haj])

theorem selectedCurrent (h : ReachableWhen SHA256 (Awaits s r) c) : SelectedCurrent s r c :=
  h.invariant (SelectedCurrent s r) (by intro i msgs ha hmem; cases hmem) fun _ _ _ hr hi hs _ =>
    selectedCurrent_step hr hi hs

/-- An INSERT into the conversation gives its message the next internal id. -/
theorem insert_next (h : ReachableWhen SHA256 (Awaits s r) c) (hs : (server SHA256).Step c e c')
    (hx : e.act.op = .insertMessage m) (hp : m.pair = (s, r)) :
    m.internalid = g_db.maxInternalId (c.state.db.getAllMessages s r) + 1 := by
  obtain ⟨j, hj, ha⟩ := inserts_accepted h hs ⟨m, hx, hp⟩
  have hiss := hs.issues h
  rw [hx] at hiss
  obtain ⟨i, fd, conn, n, pkt, u, msgs, timestamp, ht, -, hl, rfl⟩ := issues_insertMessage hiss
  obtain ⟨rfl, rfl⟩ := Prod.mk.inj hp
  have hlog := hs.log
  rw [hl, hj] at hlog
  have hcur := selectedCurrent h j msgs ha (by rw [hlog]; simp [checked, numbered]) ?_
  · simp only [numbered] at hcur ⊢
    rw [← hcur]
  · rw [hlog]
    simp only [received, checked, List.cons_append, List.nil_append, List.mem_cons, List.not_mem_nil, or_false]
    rintro x (rfl | rfl | rfl | rfl | rfl | rfl) m ho <;> cases ho

/-- The rows of the conversation are numbered 1, 2, ... -/
theorem conversation_numbered (h : ReachableWhen SHA256 (Orderly s r) c) :
    Numbered MessageRow.number (c.state.db.conversation (s, r)) := by
  refine h.invariant (fun c => Numbered MessageRow.number (c.state.db.conversation (s, r))) numbered_nil
    fun c e c' hr hi hs hk => ?_
  rcases step_messages hs.state with hm | ⟨m, hx, hdb⟩
  · rw [conversation, hm]
    exact hi
  · rw [hdb]
    have hop : e.act.op = .insertMessage m := by rw [hx]
    by_cases hp : m.pair = (s, r)
    · obtain ⟨row, hid, hconv⟩ := conversation_insertMessage_self c.state.db m
      rw [← hp, hconv]
      rw [← hp] at hi
      refine hi.append ?_
      rw [MessageRow.number, hid, insert_next (hr.mono fun _ _ hk => hk.awaits) hs hop hp, hp]
      rw [hp] at hi
      exact next_of_numbered hi (hk.room ⟨m, hop, hp⟩)
    · rw [conversation_insertMessage_other hp]
      exact hi

/-- **Of two INSERTs into the conversation the later has the larger id.** -/
theorem inserts_increase (h : ReachableWhen SHA256 (Orderly s r) c) {later mid past : List Event}
    (hh : c.history = later ++ e :: (mid ++ g :: past)) (hx : e.act = ⟨.insertMessage m, .ok 1⟩)
    (hx' : g.act = ⟨.insertMessage m', .ok 1⟩) (hp : m.pair = (s, r)) (hp' : m'.pair = (s, r)) :
    m'.internalid < m.internalid := by
  obtain ⟨c₁, c₂, h₁, hh₁, hs, hk, -⟩ := h.event hh
  have hn := conversation_numbered h₁
  have hop : e.act.op = .insertMessage m := by rw [hx]
  have hnext := next_of_numbered hn (hk.room ⟨m, hop, hp⟩)
  rw [← insert_next (h₁.mono fun _ _ hk => hk.awaits) hs hop hp] at hnext
  -- the row of the earlier one is in the conversation
  have hrow : toRow m' (rowsInserted past + 1) ∈ c₁.state.db.conversation (s, r) := by
    simp only [conversation, book, List.mem_filter, decide_eq_true_eq]
    exact ⟨row_at h₁ hh₁ hx', hp'⟩
  obtain ⟨k, hk, hrow⟩ := List.getElem_of_mem hrow
  have hnum := hn k hk
  rw [hrow] at hnum
  simp only [MessageRow.number, toRow] at hnum
  rw [Int32.lt_iff_toInt_lt, hnext, hnum]
  omega

/-! ## No push is overtaken -/

/-- What a step queues of the conversation is one message, in a packet of its own, or nothing. -/
theorem texts_queues (h : (server SHA256).ReachableWhen ok State.initial c) (hs : (server SHA256).Step c e c')
    (s r : Int32) : texts s (e.act.op.queues r) = [] ∨ ∃ m, e.act.op = .addSendTask r (messageList m) ∧
      m.message.from_ = s ∧ m.message.type = MessageType.TEXT ∧ texts s (e.act.op.queues r) = [m] := by
  rcases List.eq_nil_or_concat (e.act.op.queues r) with hnil | ⟨ps, p, hp⟩
  · exact .inl (by rw [hnil]; rfl)
  have ho := mem_queues.mp (show p ∈ e.act.op.queues r by simp [hp])
  have hi := hs.issues h
  rw [ho] at hi
  rw [ho, queues_addSendTask]
  rcases push_messages hi with hnone | ⟨m, rfl⟩
  · exact .inl (by simp [texts, hnone])
  · by_cases hm : m.message.from_ = s ∧ m.message.type = MessageType.TEXT
    · exact .inr ⟨m, rfl, hm.1, hm.2, by simp [texts, hm]⟩
    · exact .inl (by simpa [texts] using hm)

theorem mem_texts_pushed (h : (server SHA256).ReachableWhen ok State.initial c)
    (hm : m ∈ texts s (pushedTo r c.history)) :
    ∃ g ∈ c.history, g.act.op = .addSendTask r (messageList m) ∧ m.message.from_ = s ∧
      m.message.type = MessageType.TEXT := by
  obtain ⟨⟨p, hp, hmem⟩, hfrom, htext⟩ := mem_texts.mp hm
  obtain ⟨g, hg, ho⟩ := mem_pushedTo.mp hp
  obtain ⟨c₁, c₂, h₁, hs, -, -⟩ := h.event_mem hg
  have hin : m ∈ texts s (g.act.op.queues r) := mem_texts.mpr ⟨⟨p, mem_queues.mpr ho, hmem⟩, hfrom, htext⟩
  rcases texts_queues h₁ hs s r with hnil | ⟨m', ho', -, -, hone⟩
  · rw [hnil] at hin
    cases hin
  · rw [hone, List.mem_singleton] at hin
    exact ⟨g, hg, hin ▸ ho', hfrom, htext⟩

/-- **What a turn queues without a file it inserted**, and has queued nothing before. -/
theorem push_inserted (h : (server SHA256).ReachableWhen ok State.initial c) (hs : (server SHA256).Step c e c')
    (ho : e.act.op = .addSendTask r (messageList m)) (hf : ¬ hasFile m.message.type) :
    ∃ i p m₀ q, e.tid = .worker i ∧ e.pre = p ++ ⟨.insertMessage m₀, .ok 1⟩ :: q ∧ m₀.message = m.message ∧
      m₀.internalid = m.internalid ∧ m.message.to_ = r ∧ ∀ x ∈ e.pre, ∀ uid p, x.op ≠ .addSendTask uid p := by
  have hi := hs.issues h
  rw [ho] at hi
  obtain ⟨⟨i, hti⟩, hpush⟩ := issues_push hi
  generalize hpre : e.pre = l at hpush
  generalize hp : messageList m = p at hpush
  cases hpush with
  | contacts => simp [messageList, contactPacket] at hp
  | @notice fd conn n pkt out u msgs timestamp rowid m' ht hf' hm =>
    simp only [messageList, packToPacket_inj, true_and, Body.ContactMessageListRequest.injEq, List.cons.injEq,
      and_true] at hp
    subst hp
    subst hm
    refine ⟨i, received fd conn n pkt ++ checked (pkt.request SendMessageRequest) u msgs timestamp,
      numbered (pkt.request SendMessageRequest).message msgs 0 timestamp, _, hti,
      by rw [List.append_assoc, stored, List.append_assoc]; rfl, rfl, rfl, rfl, ?_⟩
    simp only [received, stored, checked, answered, List.cons_append, List.nil_append, List.mem_cons, List.not_mem_nil,
      or_false]
    rintro x (rfl | rfl | rfl | rfl | rfl | rfl | rfl | rfl | rfl | rfl | rfl) uid p hx <;> cases hx
  | @forward fd conn n pkt out uid row wrote ret r m' ht hr =>
    simp only [messageList, packToPacket_inj, true_and, Body.ContactMessageListRequest.injEq, List.cons.injEq,
      and_true] at hp
    subst hp
    -- the pool gives messages with a file only
    obtain ⟨c₁, c₂, h₁, hs₁, -, -⟩ := h.log_event (x := ⟨.getFileMsg (pkt.request FileUploadRequest).id, (r, m)⟩)
      (p := received fd conn n pkt ++ (stowed (pkt.request FileUploadRequest) uid row wrote ret ++
        [⟨.Send fd (uploadResponse true), out⟩])) (hs.log.trans (hpre.trans (by simp; rfl)))
    exact absurd (pending_addressed h₁ (getFileMsg_pool hs₁.state hr)).2.1 hf

/-- **A push comes after those of the smaller ids**: what was queued before it of the
conversation has a smaller id. -/
theorem pushed_before (h : ReachableWhen SHA256 (Orderly s r) c) (hs : (server SHA256).Step c e c')
    (ho : e.act.op = .addSendTask r (messageList m)) (hfrom : m.message.from_ = s)
    (htext : m.message.type = MessageType.TEXT) {later earlier : List Event} (hh : c.history = later ++ g :: earlier)
    (ho' : g.act.op = .addSendTask r (messageList m')) (hfrom' : m'.message.from_ = s)
    (htext' : m'.message.type = MessageType.TEXT) : m'.internalid < m.internalid := by
  have nofile : ∀ m : Message, m.message.type = MessageType.TEXT → ¬ hasFile m.message.type := by
    intro m hm
    rw [hm]
    decide
  obtain ⟨i, p, m₀, q, hti, hpre, hm₀, hid, hto, hnone⟩ := push_inserted h hs ho (nofile m htext)
  obtain ⟨c₁, c₂, h₁, rfl, hs₁, hk₁, hsteps⟩ := h.event hh
  obtain ⟨j, p', m₀', q', -, hpre', hm₀', hid', hto', -⟩ := push_inserted h₁ hs₁ ho' (nofile m' htext')
  have hpair : m₀.pair = (s, r) := by rw [Message.pair, hm₀, hfrom, hto]
  have hpair' : m₀'.pair = (s, r) := by rw [Message.pair, hm₀', hfrom', hto']
  -- the two INSERTs
  obtain ⟨mid, past, hins, hturn⟩ := h.log_since (hs.log.trans hpre)
  obtain ⟨mid', past', hins', -⟩ := h₁.log_since (hs₁.log.trans hpre')
  have hall := hh
  rw [hins', ← List.cons_append, ← List.append_assoc] at hall
  -- the turn of the push has queued nothing before
  have hother : ∀ since, mid = later ++ g :: since → g.tid ≠ e.tid := by
    intro since hmid ht
    have hlog := h.log_of_sameTurn hh fun y hy hty => hturn y (by rw [hmid]; simp [hy]) (hty.trans ht)
    rw [ht, hs.log] at hlog
    rcases hlog with hlog | ⟨q, hlog⟩
    · rw [hpre] at hlog
      exact List.append_ne_nil_of_right_ne_nil _ (List.cons_ne_nil _ _) hlog
    · exact hnone g.act (by simp [hlog]) _ _ ho'
  rcases Prog.split_cases (hins.symm.trans hall) with ⟨hmid, hone, -⟩ | ⟨since, -, hpast⟩ | ⟨since, hmid, hpast⟩
  · -- one INSERT
    exact absurd (congrArg Interleave.Event.tid hone).symm (hother mid' hmid)
  · -- the other INSERT came before
    rw [hpast] at hins
    rw [← hid, ← hid']
    exact inserts_increase h hins rfl rfl hpair hpair'
  · -- the other INSERT came after: its push would have overtaken
    rw [hpast] at hins'
    have hlt := inserts_increase h₁ hins' rfl rfl hpair' hpair
    have hturn₁ : Machine.SameTurn e.tid (later ++ [g]) := fun y hy => hturn y (by rw [hmid]; simp at hy ⊢; tauto)
    have hturn₂ : Machine.SameTurn e.tid (mid' ++ ⟨g.tid, p', ⟨.insertMessage m₀', .ok 1⟩⟩ :: since) :=
      fun y hy => hturn y (by rw [hmid]; simp at hy ⊢; tauto)
    have hsplit : c₁.history = (mid' ++ ⟨g.tid, p', ⟨.insertMessage m₀', .ok 1⟩⟩ :: since) ++
        ⟨e.tid, p, ⟨.insertMessage m₀, .ok 1⟩⟩ :: past := by
      rw [hins']
      simp
    have hlog : ⟨.insertMessage m₀, .ok 1⟩ ∈ (c₁.threads (.worker i)).log := by
      rcases h₁.log_of_sameTurn hsplit hturn₂ with hl | ⟨q, hl⟩
      · rcases (Machine.Steps.trans (.tail .refl hs₁ hk₁) hsteps).log_sameTurn (by rw [hh]; simp) hturn₁ with hl' | ⟨hl', -⟩
        · rw [hs.log, hpre] at hl'
          exact absurd hl' (List.append_ne_nil_of_right_ne_nil _ (List.cons_ne_nil _ _))
        · exact absurd hl hl'
      · rw [← hti]
        simp [hl]
    have hnot := hk₁.pushes m' ho' hfrom' htext' i m₀ (by rw [← hti]; exact (hother _ (by rw [hmid]; simp; rfl)).symm)
      hlog hpair (by rw [hm₀, htext])
    rw [← hid'] at hnot
    exact absurd hlt hnot

/-- **Pushes keep the order of their conversation**, whatever the interleaving, in
every run of a sender that waits in which no push of it is overtaken. -/
theorem pushes_in_order (h : ReachableWhen SHA256 (Orderly s r) c) : InOrder s r c := by
  have hpushed : (texts s (pushedTo r c.history)).Pairwise fun m m' => m.internalid < m'.internalid := by
    refine h.invariant (fun c => (texts s (pushedTo r c.history)).Pairwise fun m m' => m.internalid < m'.internalid)
      .nil fun c e c' hr hi hs _ => ?_
    rw [hs.history, pushedTo, texts_append, List.pairwise_append]
    rcases texts_queues hr hs s r with hnil | ⟨m, ho, hfrom, htext, hone⟩
    · rw [hnil]
      exact ⟨hi, .nil, by simp⟩
    · rw [hone]
      refine ⟨hi, List.pairwise_singleton _ _, fun m' hm' m₁ hm => ?_⟩
      obtain rfl := List.mem_singleton.mp hm
      obtain ⟨g, hg, ho', hfrom', htext'⟩ := mem_texts_pushed hr hm'
      obtain ⟨later, earlier, hh⟩ := List.append_of_mem hg
      exact pushed_before hr hs ho hfrom htext hh ho' hfrom' htext'
  exact ⟨hpushed, hpushed.sublist (texts_sublist (queue_sublist h r))⟩

namespace Example

/-- Whether an operation looks the token of a `SendMessageRequest` up. -/
def asksSender (e : Event) : Bool :=
  match handling e.pre, e.act.op with
  | some pkt, .getUserIdByToken _ => pkt.packetid == PacketType.val .SendMessageRequest
  | _, _ => false

theorem asksSender_of_accepts (h : Accepts s r e) : asksSender e = true := by
  obtain ⟨fd, conn, n, pkt, hpre, hp, hact⟩ := h
  simp only [asksSender, hpre, hact]
  rw [show handling (received fd conn n pkt) = some pkt from rfl]
  simp [hp.1]

def sendsOk : Entry → Bool
  | ⟨.Send _ _, out⟩ => out.ok
  | _ => false

theorem sendsOk_iff {x : Entry} (h : sendsOk x = true) : ∃ fd p conn, x = ⟨.Send fd p, ⟨conn, true⟩⟩ := by
  obtain ⟨o, out⟩ := x
  cases o <;> simp only [sendsOk, Bool.false_eq_true] at h
  exact ⟨_, _, out.conn, by rw [← h]⟩

/-- Whether the turn of thread `t` that began before these events has sent its answer. -/
def checkAnswered (t : Tid) : List Event → Bool
  | [] => false
  | a :: l => (a.tid == t && sendsOk a.act && (a :: l).all fun y => y.tid != t || y.pre != []) || checkAnswered t l

theorem answeredIn_of_check {later : List Event} (h : checkAnswered g.tid later = true) : AnsweredIn later g := by
  induction later with
  | nil => cases h
  | cons a l ih =>
    simp only [checkAnswered, Bool.or_eq_true, Bool.and_eq_true, beq_iff_eq, List.all_eq_true, bne_iff_ne, ne_eq] at h
    rcases h with ⟨⟨ht, hsend⟩, hturn⟩ | h
    · exact ⟨[], a, l, rfl, ht, fun y hy hty => (hturn y hy).resolve_left (not_not.mpr hty), sendsOk_iff hsend⟩
    · obtain ⟨l₁, a', l₂, rfl, ha⟩ := ih h
      exact ⟨a :: l₁, a', l₂, rfl, ha⟩

/-- Whether each request of these events was answered after, `later` being what came after them. -/
def checkAllAnswered (later : List Event) : List Event → Bool
  | [] => true
  | g :: earlier => (!asksSender g || checkAnswered g.tid later) && checkAllAnswered (later ++ [g]) earlier

theorem answeredIn_of_checkAll {later mid before earlier : List Event} (h : checkAllAnswered later before = true)
    (hb : before = mid ++ g :: earlier) (hg : Accepts s r g) : AnsweredIn (later ++ mid) g := by
  induction mid generalizing later before with
  | nil =>
    subst hb
    simp only [List.nil_append, checkAllAnswered, asksSender_of_accepts hg, Bool.not_true, Bool.false_or,
      Bool.and_eq_true] at h
    rw [List.append_nil]
    exact answeredIn_of_check h.1
  | cons y mid ih =>
    subst hb
    simp only [List.cons_append, checkAllAnswered, Bool.and_eq_true] at h
    have ha := ih h.2 rfl
    rwa [List.append_assoc] at ha

def checkAwaits (c : Config) (e : Event) : Bool :=
  !asksSender e || match c.history with
    | recv :: before => recv.tid == e.tid && e.pre == recv.pre ++ [recv.act] && checkAllAnswered [] before
    | [] => false

theorem awaits_of_check (h : checkAwaits c e = true) : Awaits s r c e := by
  intro he later g earlier hh hg
  rw [checkAwaits, asksSender_of_accepts he, Bool.not_true, Bool.false_or, hh] at h
  cases later with
  | nil =>
    -- the step before received the packet
    simp only [List.nil_append, Bool.and_eq_true, beq_iff_eq] at h
    obtain ⟨fd, conn, n, pkt, hpre, -, -⟩ := he
    obtain ⟨fd', conn', n', pkt', hpre', -, -⟩ := hg
    rw [hpre, hpre'] at h
    simp [received] at h
  | cons recv later =>
    simp only [List.cons_append, Bool.and_eq_true, beq_iff_eq] at h
    exact ⟨[], recv, later, rfl, by simp, h.1.1, h.1.2, answeredIn_of_checkAll h.2 rfl hg⟩

/-- Bob's second note, and the answer to it. -/
def noteAgain : SendMessageRequest := note (bytes "b")

def answerAgain : Message := numbered noteAgain.message [noteAnswer] 2 1700000000

/-- Bob sets up his channel, and on another connection writes to himself up to the answer. -/
def answersNote : Schedule :=
  session ++ setsUp ++ connects 6 ++
    handles 0 6 1 (packToPacket .SendMessageRequest (.SendMessageRequest (note (bytes "a"))))
      (stored (note (bytes "a")) bob [] 1700000000 1 ++
        [replies 6 1 .SendMessageResponse (.SendMessageResponse noteAnswer)])

/-- Worker `i` pushes a message to Bob. -/
def pushes (i : Nat) (m : Message) : Schedule :=
  [⟨.getSender 1, true⟩, ⟨.getSender 1, true⟩, ⟨.addSendTask 1 (messageList m), ()⟩].map fun x => (.worker i, x)

/-- Worker `i` handles Bob's second note. -/
def sendsAgain (i : Nat) : Schedule :=
  handles i 6 1 (packToPacket .SendMessageRequest (.SendMessageRequest noteAgain))
    (stored noteAgain bob [noteAnswer] 1700000000 2 ++
      [replies 6 1 .SendMessageResponse (.SendMessageResponse answerAgain)]) ++ pushes i answerAgain

/-- One worker handles the second note when the first was pushed. -/
def pushesInOrder : Schedule := answersNote ++ pushes 0 noteAnswer ++ sendsAgain 0

theorem pushesInOrder_alone : ∀ y ∈ pushesInOrder, y.1 = .acceptor ∨ y.1 = .worker 0 := by decide +kernel

theorem pushesInOrder_acceptor : ∀ y ∈ pushesInOrder, y.1 = .acceptor → y.2.op.queues 1 = [] := by decide +kernel

theorem orderly_alone (hr : ReachableWhen SHA256 (Orderly 1 1) c)
    (hh : ∀ e ∈ c.history, (e.tid, e.act) ∈ pushesInOrder) (he : (e.tid, e.act) ∈ pushesInOrder)
    (hcheck : (checkAwaits c e && checkRoom c e) = true) : Orderly 1 1 c e := by
  obtain ⟨haw, hroom⟩ := Bool.and_eq_true_iff.mp hcheck
  refine ⟨awaits_of_check haw, ?_, fun m ho _ _ i m' hi hmem => ?_⟩
  · rintro ⟨m, hm, hp⟩
    exact hp ▸ roomFor_of_check hroom m hm
  · -- the other workers have not moved
    rcases pushesInOrder_alone _ he with ht | ht
    · have hq := pushesInOrder_acceptor _ he ht
      rw [ho, queues_addSendTask] at hq
      cases hq
    · rw [worker_idle hr hh pushesInOrder_alone fun hi0 => hi (by rw [hi0]; exact ht.symm)] at hmem
      cases hmem

end Example

/-- The push of the first note comes after that of the second, which Bob sent when
he had the answer to the first. -/
theorem not_inOrder : ¬ ∀ SHA256 s r c, ReachableWhen SHA256 (Awaits s r) c → InOrder s r c := by
  intro h
  obtain ⟨c, hr, hc⟩ := reachableWhen_of_run Example.SHA256 (Awaits 1 1) Example.checkAwaits
    (Example.answersNote ++ Example.sendsAgain 1 ++ Example.pushes 0 Example.noteAnswer)
    (fun c => texts 1 (c.state.queue 1) = [Example.answerAgain, Example.noteAnswer])
    (fun _ _ _ _ _ _ hcheck => Example.awaits_of_check hcheck) (by decide +kernel)
  have hqueued := (h _ _ _ c hr).queued
  rw [hc] at hqueued
  exact absurd hqueued (by decide)

theorem pushes_in_order_notes : ∃ c, texts 1 (c.state.queue 1) = [Example.noteAnswer, Example.answerAgain] ∧
    InOrder 1 1 c := by
  obtain ⟨c, hr, hq⟩ := reachableWhen_of_run Example.SHA256 (Orderly 1 1)
    (fun c e => Example.checkAwaits c e && checkRoom c e) Example.pushesInOrder
    (fun c => texts 1 (c.state.queue 1) = [Example.noteAnswer, Example.answerAgain])
    (fun _ _ he hr hh _ hcheck => Example.orderly_alone hr hh he hcheck) (by decide +kernel)
  exact ⟨c, hq, pushes_in_order hr⟩

end NetChat
