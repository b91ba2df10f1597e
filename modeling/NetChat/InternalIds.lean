/-
Internal ids. `createMsgByRawMsg` reads the messages of the ordered pair
(sender, receiver), takes the largest internal id plus one, and inserts: two
operations, and nothing keeps another worker from inserting between them.
While no insert is stale, the rows of every pair are numbered 1, 2, ... in
insertion order (`Numbering`), which is what makes the three ways a
conversation is looked at agree: the count the contact list advertises, the
largest internal id, and `getMessage`.
-/
import NetChat.Lib.Numbering
import NetChat.Frames
import NetChat.Turns

namespace NetChat

open Interleave Numbering

variable {SHA256 : Bytes → Bytes} {ok : Config → Event → Prop} {c c' : Config} {e : Event}

/-! ## Conversations -/

/-- The ordered pair a row, or a message about to be one, belongs to. -/
def MessageRow.pair (r : MessageRow) : Int32 × Int32 := (r.sender_id, r.receiver_id)

def Message.pair (m : Message) : Int32 × Int32 := (m.message.from_, m.message.to_)

def MessageRow.number (r : MessageRow) : Int := r.internal_id.toInt

namespace DataAccess

variable {db : DataAccess}

/-- The rows of an ordered pair, in insertion order. -/
def conversation (db : DataAccess) (p : Int32 × Int32) : List MessageRow :=
  book MessageRow.pair db.messages p

theorem getAllMessages_eq {s r : Int32} :
    db.getAllMessages s r = (db.conversation (s, r)).map MessageRow.toMessage := by
  simp only [getAllMessages, conversation, book]
  congr 1
  refine List.filter_congr fun row _ => ?_
  rw [Bool.eq_iff_iff]
  simp [MessageRow.pair]

theorem getMessage_eq {s r k : Int32} :
    db.getMessage s r k =
      ((db.conversation (s, r)).find? fun row => row.number == k.toInt).map MessageRow.toMessage := by
  simp only [getMessage, conversation, book, List.find?_filter]
  congr 2
  funext row
  rw [Bool.eq_iff_iff]
  simp [MessageRow.pair, MessageRow.number, Int32.toInt_inj, and_assoc]

theorem conversation_insertMessage_self (db : DataAccess) (m : Message) :
    ∃ row : MessageRow, row.internal_id = m.internalid ∧
      (db.insertMessage m).conversation m.pair = db.conversation m.pair ++ [row] :=
  ⟨_, rfl, book_append_self⟩

theorem conversation_insertMessage_other {m : Message} {p : Int32 × Int32} (h : m.pair ≠ p) :
    (db.insertMessage m).conversation p = db.conversation p :=
  book_append_other h

/-- Every pair's rows are numbered 1, 2, ... -/
def GapFree (db : DataAccess) : Prop := NumberedBy MessageRow.pair MessageRow.number db.messages

theorem GapFree.conversation (h : db.GapFree) (p : Int32 × Int32) :
    Numbered MessageRow.number (db.conversation p) :=
  h p

theorem maxInternalId_toInt (msgs : List Message) :
    (g_db.maxInternalId msgs).toInt = maxNum (fun m : Message => m.internalid.toInt) msgs := by
  have key : ∀ (msgs : List Message) (acc : Int32),
      (msgs.foldl (fun max_internal_id msg =>
        if msg.internalid > max_internal_id then msg.internalid else max_internal_id) acc).toInt =
      msgs.foldl (fun m a => if m < a.internalid.toInt then a.internalid.toInt else m) acc.toInt := by
    intro msgs
    induction msgs with
    | nil => intro acc; rfl
    | cons m msgs ih =>
      intro acc
      rw [List.foldl_cons, List.foldl_cons, ih]
      congr 1
      simp only [gt_iff_lt, Int32.lt_iff_toInt_lt]
      split <;> rfl
  exact key msgs 0

/-- The largest internal id of a pair whose rows are numbered is how many they are. -/
theorem maxInternalId_of_numbered {s r : Int32} (h : Numbered MessageRow.number (db.conversation (s, r))) :
    (g_db.maxInternalId (db.getAllMessages s r)).toInt = (db.conversation (s, r)).length := by
  rw [maxInternalId_toInt, getAllMessages_eq, maxNum, List.foldl_map]
  exact h.maxNum_eq

/-- The next internal id is the next number, while it fits an `int32`. -/
theorem next_of_numbered {s r : Int32} (h : Numbered MessageRow.number (db.conversation (s, r)))
    (hlt : (db.conversation (s, r)).length < 2 ^ 31 - 1) :
    (g_db.maxInternalId (db.getAllMessages s r) + 1).toInt = (db.conversation (s, r)).length + 1 := by
  have hone : (1 : Int32).toInt = 1 := rfl
  rw [Int32.toInt_add, maxInternalId_of_numbered h, hone]
  exact Int.bmod_eq_of_le (by omega) (by omega)

theorem GapFree.next (h : db.GapFree) {s r : Int32} (hlt : (db.conversation (s, r)).length < 2 ^ 31 - 1) :
    (g_db.maxInternalId (db.getAllMessages s r) + 1).toInt = (db.conversation (s, r)).length + 1 :=
  next_of_numbered (h.conversation (s, r)) hlt

/-- **One insert**: computed from the pair's present rows, it keeps every
pair's numbering. -/
theorem GapFree.insertMessage (h : db.GapFree) {m : Message}
    (hm : m.internalid = g_db.maxInternalId (db.getAllMessages m.message.from_ m.message.to_) + 1)
    (hlt : (db.conversation m.pair).length < 2 ^ 31 - 1) : (db.insertMessage m).GapFree := by
  refine NumberedBy.append h ?_
  simp only [MessageRow.number, toRow, hm]
  exact h.next hlt

end DataAccess

/-! ## Runs without stale inserts -/

open DataAccess

/-- An insert of the pair `p`. -/
def inserts (p : Int32 × Int32) (e : Event) : Prop := ∃ m : Message, e.act.op = .insertMessage m ∧ m.pair = p

/-- **What a step does to a conversation**: an insert of its pair adds a row,
anything else leaves it. -/
theorem conversation_step (h : (server SHA256).Step c e c') (p : Int32 × Int32) :
    c'.state.db.conversation p = c.state.db.conversation p ∨
      inserts p e ∧ ∃ row, c'.state.db.conversation p = c.state.db.conversation p ++ [row] := by
  rcases step_messages h.state with hm | ⟨m, hx, hdb⟩
  · left
    rw [conversation, hm]
    rfl
  · rw [hdb]
    by_cases hp : m.pair = p
    · subst hp
      obtain ⟨row, -, hrow⟩ := conversation_insertMessage_self c.state.db m
      exact .inr ⟨⟨m, by rw [hx], rfl⟩, row, hrow⟩
    · exact .inl (conversation_insertMessage_other hp)

theorem conversation_step_of_not (h : (server SHA256).Step c e c') {p : Int32 × Int32} (hp : ¬ inserts p e) :
    c'.state.db.conversation p = c.state.db.conversation p :=
  (conversation_step h p).resolve_right fun h => hp h.1

theorem conversation_steps {p : Int32 × Int32} {later : List Event}
    (hr : (server SHA256).ReachableWhen ok State.initial c)
    (h : (server SHA256).Steps ok c c') (hl : c'.history = later ++ c.history) (hp : ∀ e ∈ later, ¬ inserts p e) :
    c'.state.db.conversation p = c.state.db.conversation p :=
  h.keeps (fun s => s.db.conversation p) hr hl fun _ _ _ _ hs he => conversation_step_of_not hs (hp _ he)

/-- No insert is computed from rows that are not the pair's present ones, nor
makes the pair have 2^31 rows. -/
def Current (c : Config) (e : Event) : Prop :=
  ∀ m, e.act.op = .insertMessage m →
    m.internalid = g_db.maxInternalId (c.state.db.getAllMessages m.message.from_ m.message.to_) + 1 ∧
      (c.state.db.conversation m.pair).length < 2 ^ 31 - 1

theorem gapFree_step (hg : c.state.db.GapFree) (h : (server SHA256).Step c e c') (hc : Current c e) :
    c'.state.db.GapFree := by
  rcases step_messages h.state with hm | ⟨m, hx, hdb⟩
  · rw [GapFree, hm]
    exact hg
  · rw [hdb]
    obtain ⟨hid, hlt⟩ := hc m (by rw [hx])
    exact hg.insertMessage hid hlt

theorem gapFree_of_current (h : (server SHA256).ReachableWhen ok State.initial c)
    (hok : ∀ c e c', (server SHA256).ReachableWhen ok State.initial c → (server SHA256).Step c e c' → ok c e →
      Current c e) : c.state.db.GapFree :=
  h.invariant (fun c => c.state.db.GapFree) numberedBy_nil fun _ _ _ hr hi hs hk =>
    gapFree_step hi hs (hok _ _ _ hr hs hk)

/-- No two rows of one ordered pair have the same internal id. -/
def UniqueInternalIds (db : DataAccess) : Prop :=
  db.messages.Pairwise fun r r' =>
    r.sender_id = r'.sender_id → r.receiver_id = r'.receiver_id → r.internal_id ≠ r'.internal_id

theorem DataAccess.GapFree.unique {db : DataAccess} (h : db.GapFree) : UniqueInternalIds db := by
  refine NumberedBy.pairwise h |>.imp fun hab hs hr hid => ?_
  exact hab (by simp [MessageRow.pair, hs, hr]) (by simp [MessageRow.number, hid])

/-- No row of the pair was inserted since the turn's SELECT, and the pair has
fewer than 2^31 - 1 rows: the condition on the step that inserts `m`. -/
def FreshSelect (c : Config) (e : Event) : Prop :=
  ∀ m, e.act.op = .insertMessage m → (c.state.db.conversation m.pair).length < 2 ^ 31 - 1 ∧
    ∃ later earlier p x q, e.pre = p ++ x :: q ∧ x.op = .getAllMessages m.message.from_ m.message.to_ ∧
      c.history = later ++ ⟨e.tid, p, x⟩ :: earlier ∧ ∀ e' ∈ later, ¬ inserts m.pair e'

theorem FreshSelect.current (hf : FreshSelect c e) (hr : (server SHA256).ReachableWhen ok State.initial c)
    (h : (server SHA256).Step c e c') : Current c e := by
  intro m hm
  obtain ⟨hlt, later, earlier, p, x, q, hpre, hx, hhist, hlater⟩ := hf m hm
  refine ⟨?_, hlt⟩
  have hi := h.issues hr
  rw [hm] at hi
  obtain ⟨i, fd, conn, n, pkt, u, msgs, timestamp, -, -, hl, rfl⟩ := issues_insertMessage hi
  -- the SELECT of the turn is the only one, and gave `msgs`
  have hmem : x ∈ e.pre := by simp [hpre]
  have hsel : x = ⟨.getAllMessages (pkt.request SendMessageRequest).message.from_
      (pkt.request SendMessageRequest).message.to_, .ok msgs⟩ := by
    rw [hl] at hmem
    simp only [received, checked, List.cons_append, List.nil_append, List.mem_cons, List.not_mem_nil,
      or_false] at hmem
    rcases hmem with rfl | rfl | rfl | rfl | rfl | rfl <;> simp [numbered] at hx ⊢
  obtain ⟨c₁, c₂, hr₁, hearlier, h₁, hk, hsteps⟩ := hr.event hhist
  have hstate := h₁.state
  simp only [server, hsel, State.step, State.query_eq_some, Except.ok.injEq, forall_eq'] at hstate
  have hconv := conversation_steps (.step hr₁ h₁ hk) hsteps (by rw [h₁.history, hearlier]; exact hhist) hlater
  simp only [numbered] at hconv ⊢
  rw [hstate.2, getAllMessages_eq, getAllMessages_eq, ← hstate.1]
  simp only [Message.pair] at hconv
  rw [hconv]

/-- **Internal ids are unique in every run whose inserts are fresh.** -/
theorem internalIds_unique (h : ReachableWhen SHA256 FreshSelect c) : UniqueInternalIds c.state.db :=
  (gapFree_of_current h fun _ _ _ hr hs hk => hk.current hr hs).unique

instance (db : DataAccess) : Decidable (UniqueInternalIds db) :=
  inferInstanceAs (Decidable (List.Pairwise _ _))

namespace Example

/-- Two workers select before either inserts. -/
def twoSends : Schedule :=
  session ++ selects 0 [97] [] ++ selects 1 [98] [] ++ [insertsNote 0 [97] [], insertsNote 1 [98] []]

/-- Bob's second note to himself is selected for and stored by another worker than
the first, and in between a third stores one to Alice. -/
def threeNotes : Schedule :=
  session ++ registers 5 0 alice.username password digest ++ stores 0 (note [97]) bob [] 1 ++
    selects 1 [98] [firstNote] ++ stores 2 ⟨token, ⟨1, 2, MessageType.TEXT, [99]⟩⟩ alice [] 2 ++
      [insertsNote 1 [98] [firstNote]]

end Example

/-- Two requests at once can get one internal id. -/
theorem internalIds_not_unique : ¬ ∀ SHA256 c, Reachable SHA256 c → UniqueInternalIds c.state.db := by
  intro h
  obtain ⟨c, hr, hc⟩ := reachable_of_run Example.SHA256 Example.twoSends
    (fun c => ¬ UniqueInternalIds c.state.db) (by decide +kernel)
  exact hc (h _ c hr)

/-- What happened since the turn of `e` selected the messages of the pair of `m`. -/
def sinceSelect (e : Event) (m : Message) (h : List Event) : List Event :=
  h.takeWhile fun g => g.tid != e.tid || g.act.op != .getAllMessages m.message.from_ m.message.to_

/-- Whether an INSERT is of what its turn selected, and nobody inserted a row of the pair since. -/
def checkFresh (c : Config) (e : Event) : Bool :=
  match e.act.op with
  | .insertMessage m =>
    let later := sinceSelect e m c.history
    c.state.db.messages.length < 2 ^ 31 - 1 && (c.history.drop later.length).head?.any (fun g =>
        g.tid == e.tid && g.act.op == .getAllMessages m.message.from_ m.message.to_ &&
          (g.pre ++ [g.act]).isPrefixOf e.pre) &&
      later.all fun g => match g.act.op with
        | .insertMessage m' => m'.pair != m.pair
        | _ => true
  | _ => true

theorem freshSelect_of_check (h : checkFresh c e = true) : FreshSelect c e := by
  intro m hm
  simp only [checkFresh, hm, Bool.and_eq_true, decide_eq_true_eq, Option.any_eq_true, List.all_eq_true] at h
  obtain ⟨⟨hlt, g, hg, ⟨ht, hop⟩, hpre⟩, hlater⟩ := h
  obtain ⟨earlier, hdrop⟩ := List.head?_eq_some_iff.mp hg
  obtain ⟨q, hq⟩ := List.isPrefixOf_iff_prefix.mp hpre
  refine ⟨(List.length_filter_le _ _).trans_lt hlt, sinceSelect e m c.history, earlier, g.pre, g.act, q, ?_,
    eq_of_beq hop, ?_, ?_⟩
  · rw [← hq, List.append_assoc]
    rfl
  · have htake : sinceSelect e m c.history = c.history.take (sinceSelect e m c.history).length :=
      List.prefix_iff_eq_take.mp (List.takeWhile_prefix _)
    rw [← eq_of_beq ht]
    exact (List.take_append_drop _ c.history).symm.trans (congrArg₂ (· ++ ·) htake.symm hdrop)
  · rintro x hx ⟨m', hm', hpair⟩
    have hne := hlater x hx
    simp [hm', hpair] at hne

/-- Three notes, each INSERT of which is of what its turn selected. -/
theorem internalIds_unique_notes : ∃ c, ReachableWhen Example.SHA256 FreshSelect c ∧
    (c.state.db.conversation (1, 1)).length = 2 ∧ (c.state.db.conversation (1, 2)).length = 1 ∧
    UniqueInternalIds c.state.db := by
  obtain ⟨c, hr, hself, halice⟩ := reachableWhen_of_run Example.SHA256 FreshSelect checkFresh Example.threeNotes
    (fun c => (c.state.db.conversation (1, 1)).length = 2 ∧ (c.state.db.conversation (1, 2)).length = 1)
    (fun _ _ _ _ _ _ hcheck => freshSelect_of_check hcheck) (by decide +kernel)
  exact ⟨c, hr, hself, halice, internalIds_unique hr⟩

/-! ## One request of a pair at a time -/

/-- The ordered pair of the `SendMessageRequest` a worker's log is handling. -/
def sending (l : List Entry) : Option (Int32 × Int32) :=
  (handling l).bind fun pkt =>
    if pkt.packetid = PacketType.val .SendMessageRequest then
      some ((pkt.request SendMessageRequest).message.from_, (pkt.request SendMessageRequest).message.to_)
    else none

theorem sending_received {fd : Int32} {conn : Conn} {n : Nat} {pkt : Packet} {l : List Entry}
    (h : pkt.packetid = PacketType.val .SendMessageRequest) :
    sending (received fd conn n pkt ++ l) =
      some ((pkt.request SendMessageRequest).message.from_, (pkt.request SendMessageRequest).message.to_) := by
  simp [sending, h]

theorem sending_append {l : List Entry} {x : Entry} {p : Int32 × Int32} (h : sending (l ++ [x]) = some p) :
    sending l = some p ∨ ∃ y, l = [y] ∧ y.op = .popRecvSocket := by
  obtain ⟨pkt, hp, hs⟩ := Option.bind_eq_some_iff.mp h
  rcases handling_append hp with hp | ⟨y, hl, hy, -⟩
  · exact .inl (Option.bind_eq_some_iff.mpr ⟨pkt, hp, hs⟩)
  · exact .inr ⟨y, hl, hy⟩

/-- No two `SendMessageRequest`s with the same ordered pair are in progress. -/
def Exclusive (c : Config) : Prop :=
  ∀ i j p, i ≠ j → sending (c.threads (.worker i)).log = some p → sending (c.threads (.worker j)).log ≠ some p

/-- What a worker selected of its pair, and has not inserted after, is what the
pair has. -/
def SelectsCurrent (c : Config) : Prop :=
  ∀ i s r msgs, sending (c.threads (.worker i)).log = some (s, r) →
    ⟨.getAllMessages s r, .ok msgs⟩ ∈ (c.threads (.worker i)).log →
    (∀ x ∈ (c.threads (.worker i)).log, ∀ m, x.op ≠ .insertMessage m) → msgs = c.state.db.getAllMessages s r

theorem inserts_sending {p : Int32 × Int32} (hr : (server SHA256).ReachableWhen ok State.initial c)
    (h : (server SHA256).Step c e c') (hi : inserts p e) :
    ∃ i, e.tid = .worker i ∧ sending (c.threads (.worker i)).log = some p := by
  obtain ⟨m, hm, rfl⟩ := hi
  have hiss := h.issues hr
  rw [hm] at hiss
  obtain ⟨i, fd, conn, n, pkt, u, msgs, timestamp, ht, hp, hl, rfl⟩ := issues_insertMessage hiss
  refine ⟨i, ht, ?_⟩
  have hlog := h.log
  rw [ht] at hlog
  rw [hlog, hl, sending_received hp]
  rfl

theorem selectsCurrent_step (hr : (server SHA256).ReachableWhen ok State.initial c) (hx : Exclusive c)
    (hs : SelectsCurrent c) (h : (server SHA256).Step c e c') : SelectsCurrent c' := by
  intro i s r msgs hsend hmem hno
  have hkeep : ¬ inserts (s, r) e → c'.state.db.getAllMessages s r = c.state.db.getAllMessages s r := by
    intro hn
    rw [getAllMessages_eq, getAllMessages_eq, conversation_step_of_not h hn]
  by_cases ht : .worker i = e.tid
  · have hlog := h.log
    rw [← ht] at hlog
    rcases h.self with hl | hl
    · rw [← ht] at hl
      rw [hl] at hsend hmem hno
      have hn : ¬ inserts (s, r) e := by
        rintro ⟨m, hm, -⟩
        exact hno e.act (by simp) m hm
      rw [hkeep hn]
      rcases List.mem_append.mp hmem with hmem | hmem
      · rcases sending_append hsend with hsend | ⟨y, hpre, hy⟩
        · exact hs i s r msgs (hlog ▸ hsend) (hlog ▸ hmem) fun x hx =>
            hno x (List.mem_append_left _ (hlog ▸ hx))
        · rw [hpre, List.mem_singleton] at hmem
          rw [← hmem] at hy
          cases hy
      · have hstate := h.state
        rw [List.mem_singleton] at hmem
        rw [← hmem] at hstate
        exact (State.query_ok hstate).2
    · rw [← ht] at hl
      rw [hl] at hmem
      cases hmem
  · rw [h.other ht] at hsend hmem hno
    rw [hkeep fun hi => ?_]
    · exact hs i s r msgs hsend hmem hno
    · obtain ⟨j, hj, hsj⟩ := inserts_sending hr h hi
      exact hx i j (s, r) (fun hij => ht (by rw [hj, hij])) hsend hsj

theorem selectsCurrent_reachable (h : ReachableWhen SHA256 (fun c _ => Exclusive c) c) : SelectsCurrent c :=
  h.invariant SelectsCurrent (by intro i s r msgs hs; cases hs) fun _ _ _ hr hi hs hx =>
    selectsCurrent_step hr hx hi hs

/-! ## The views of a conversation -/

/-- What the contact list of `s` advertises for `r`. -/
def DataAccess.advertised (db : DataAccess) (s r : Int32) : Int32 := Int32.ofNat (db.getAllMessages s r).length

/-- The views of the conversation from `s` to `r`: the internal ids are 1..n in
insertion order, the number advertised is the largest of them, and reading an
internal id gives the row with that place. -/
structure ViewsAgree (db : DataAccess) (s r : Int32) : Prop where
  ids : (db.conversation (s, r)).map MessageRow.number =
    (List.range (db.conversation (s, r)).length).map fun i : Nat => (i : Int) + 1
  advertised : (db.advertised s r).toInt = maxNum MessageRow.number (db.conversation (s, r))
  getMessage : ∀ k, db.getMessage s r k =
    if 1 ≤ k.toInt then (db.conversation (s, r))[(k.toInt - 1).toNat]?.map MessageRow.toMessage else none

theorem DataAccess.GapFree.viewsAgree {db : DataAccess} (h : db.GapFree) (hlt : db.messages.length < 2 ^ 31 - 1)
    (s r : Int32) : ViewsAgree db s r where
  ids := by
    refine List.ext_getElem (by simp) fun i hi _ => ?_
    simp only [List.getElem_map, List.getElem_range]
    exact h.conversation (s, r) i (by simpa using hi)
  advertised := by
    have hle : (db.conversation (s, r)).length ≤ db.messages.length := List.length_filter_le _ _
    rw [(h.conversation (s, r)).maxNum_eq, DataAccess.advertised, getAllMessages_eq, List.length_map]
    exact Int32.toInt_ofNat_of_lt (by omega)
  getMessage := by
    intro k
    rw [getMessage_eq, (h.conversation (s, r)).find?_eq]
    split <;> rfl

/-- A message that can be read by its internal id stays so. -/
theorem DataAccess.getMessage_grow {db db' : DataAccess} {s r k : Int32} {m : Message}
    (hgrow : db.messages <+: db'.messages) (hm : db.getMessage s r k = some m) : db'.getMessage s r k = some m := by
  obtain ⟨later, hl⟩ := hgrow
  simp only [DataAccess.getMessage, Option.map_eq_some_iff] at hm ⊢
  obtain ⟨row, hrow, rfl⟩ := hm
  exact ⟨row, by rw [← hl, List.find?_append, hrow]; rfl, rfl⟩

theorem getMessage_steps (h : (server SHA256).Steps ok c c') {s r k : Int32} {m : Message}
    (hm : c.state.db.getMessage s r k = some m) : c'.state.db.getMessage s r k = some m :=
  DataAccess.getMessage_grow (steps_messages_grow h) hm

theorem exclusive_current (hr : ReachableWhen SHA256 (fun c _ => Exclusive c) c)
    (h : (server SHA256).Step c e c') (hlt : c.state.db.messages.length < 2 ^ 31 - 1) : Current c e := by
  intro m hm
  have hi := h.issues hr
  rw [hm] at hi
  obtain ⟨i, fd, conn, n, pkt, u, msgs, timestamp, ht, hp, hl, rfl⟩ := issues_insertMessage hi
  have hlog := h.log
  rw [ht, hl] at hlog
  refine ⟨?_, (List.length_filter_le _ _).trans_lt hlt⟩
  simp only [numbered]
  rw [← selectsCurrent_reachable hr i _ _ msgs]
  · rw [hlog, sending_received hp]
  · rw [hlog]
    simp [checked]
  · rw [hlog]
    intro x hx
    simp only [received, checked, List.cons_append, List.nil_append, List.mem_cons, List.not_mem_nil,
      or_false] at hx
    rcases hx with rfl | rfl | rfl | rfl | rfl | rfl <;> simp

theorem exclusive_gapFree (h : ReachableWhen SHA256 (fun c _ => Exclusive c) c)
    (hlt : c.state.db.messages.length < 2 ^ 31 - 1) : c.state.db.GapFree := by
  refine h.invariant (fun c => c.state.db.messages.length < 2 ^ 31 - 1 → c.state.db.GapFree)
    (fun _ => numberedBy_nil) (fun c e c' hr hi hs _ hlt => ?_) hlt
  have hle := (step_messages_grow hs.state).length_le
  exact gapFree_step (hi (by omega)) hs (exclusive_current hr hs (by omega))

/-- **The views of a conversation agree** while no two requests of one pair are
in progress at once. They go on answering what they answered, and only a
request of the same pair changes them. -/
theorem views_agree (h : ReachableWhen SHA256 (fun c _ => Exclusive c) c)
    (hlt : c.state.db.messages.length < 2 ^ 31 - 1) (s r : Int32) :
    ViewsAgree c.state.db s r ∧
    (∀ c' k m, (server SHA256).Steps (fun _ _ => True) c c' → c.state.db.getMessage s r k = some m →
      c'.state.db.getMessage s r k = some m) ∧
    ∀ e c', (server SHA256).Step c e c' → sending e.pre ≠ some (s, r) →
      c'.state.db.getAllMessages s r = c.state.db.getAllMessages s r ∧
        ∀ k, c'.state.db.getMessage s r k = c.state.db.getMessage s r k := by
  refine ⟨(exclusive_gapFree h hlt).viewsAgree hlt s r, fun c' k m hs hm => getMessage_steps hs hm,
    fun e c' hs hsend => ?_⟩
  have hconv : c'.state.db.conversation (s, r) = c.state.db.conversation (s, r) := by
    refine conversation_step_of_not hs fun hi => ?_
    obtain ⟨i, hi, hsi⟩ := inserts_sending h hs hi
    exact hsend (by rw [← hs.log, hi, hsi])
  exact ⟨by rw [getAllMessages_eq, getAllMessages_eq, hconv], fun k => by rw [getMessage_eq, getMessage_eq, hconv]⟩

/-- Whether no two of the workers 0, 1 and 2 handle requests with one ordered pair. -/
def checkExclusive (c : Config) (_ : Event) : Bool :=
  [0, 1, 2].all fun i => [0, 1, 2].all fun j => i == j || sending (c.threads (.worker i)).log == none ||
    sending (c.threads (.worker i)).log != sending (c.threads (.worker j)).log

theorem exclusive_of_check (hidle : ∀ i, i ∉ [0, 1, 2] → (c.threads (.worker i)).log = [])
    (h : checkExclusive c e = true) : Exclusive c := by
  have hmem : ∀ i p, sending (c.threads (.worker i)).log = some p → i ∈ [0, 1, 2] := by
    intro i p hi
    by_contra hno
    rw [hidle i hno] at hi
    cases hi
  intro i j p hij hi hj
  simp only [checkExclusive, List.all_eq_true] at h
  have hne := h i (hmem i p hi) j (hmem j p hj)
  rw [hi, hj] at hne
  simp [hij] at hne

theorem Example.threeNotes_workers : ∀ y ∈ Example.threeNotes, ∀ i, i ∉ [0, 1, 2] → y.1 ≠ .worker i := by
  have htids : ∀ y ∈ Example.threeNotes, y.1 = .acceptor ∨ y.1 = .worker 0 ∨ y.1 = .worker 1 ∨ y.1 = .worker 2 := by
    decide +kernel
  rintro y hy i hi ht
  rcases htids y hy with h | h | h | h <;> rw [ht] at h <;> cases h <;> simp at hi

theorem views_agree_notes : ∃ c, (c.state.db.conversation (1, 1)).length = 2 ∧
    (c.state.db.conversation (1, 2)).length = 1 ∧ ViewsAgree c.state.db 1 1 ∧
    (∀ c' k m, (server Example.SHA256).Steps (fun _ _ => True) c c' → c.state.db.getMessage 1 1 k = some m →
      c'.state.db.getMessage 1 1 k = some m) ∧
    ∀ e c', (server Example.SHA256).Step c e c' → sending e.pre ≠ some (1, 1) →
      c'.state.db.getAllMessages 1 1 = c.state.db.getAllMessages 1 1 ∧
        ∀ k, c'.state.db.getMessage 1 1 k = c.state.db.getMessage 1 1 k := by
  obtain ⟨c, hr, hself, halice, hlen⟩ := reachableWhen_of_run Example.SHA256 (fun c _ => Exclusive c) checkExclusive
    Example.threeNotes (fun c => (c.state.db.conversation (1, 1)).length = 2 ∧
      (c.state.db.conversation (1, 2)).length = 1 ∧ c.state.db.messages.length = 3)
    (fun c e _ hr hh _ hcheck => exclusive_of_check
      (fun i hi => by rw [hr.fresh fun g hg => Example.threeNotes_workers _ (hh g hg) i hi]) hcheck)
    (by decide +kernel)
  exact ⟨c, hself, halice, views_agree hr (by omega) 1 1⟩

end NetChat
