/-
Runs that handle one request at a time. While a worker is in a turn no other
worker moves, so what its turn did not write has stayed as it was, and the
rowid it reads after its INSERT is that INSERT's.
-/
import NetChat.InternalIds

namespace NetChat

open Interleave DataAccess

variable {SHA256 : Bytes → Bytes} {ok : Config → Event → Prop} {c c' : Config} {e : Event} {i : Nat}

/-- Since an entry of its turn, a worker has been the only one at work. -/
theorem alone_since (h : (server SHA256).ReachableWhen ok State.initial c) (hok : ∀ c e, ok c e → OneAtATime c e)
    {p q : List Entry} {x : Entry} (hl : (c.threads (.worker i)).log = p ++ x :: q) :
    ∃ mid past, c.history = mid ++ ⟨.worker i, p, x⟩ :: past ∧
      ∀ y ∈ mid, ∀ j, y.tid = .worker j → j = i ∧ y.act ∈ q := by
  induction h generalizing p q with
  | init => simp [Machine.init] at hl
  | @step c c' e hr hs hk ih =>
    rw [hs.history]
    by_cases ht : .worker i = e.tid
    · rcases hs.self with hl' | hl'
      · rw [← ht] at hl'
        rw [hl'] at hl
        rcases List.eq_nil_or_concat q with rfl | ⟨q, y, rfl⟩
        · obtain ⟨hp, hx⟩ := List.append_inj' hl rfl
          cases hx
          exact ⟨[], c.history, by simp [← hp, ht], by simp⟩
        · rw [List.concat_eq_append, ← List.cons_append, ← List.append_assoc] at hl
          obtain ⟨hp, hy⟩ := List.append_inj' hl rfl
          cases hy
          have hlog := hs.log
          rw [← ht] at hlog
          obtain ⟨mid, past, hh, hmid⟩ := ih (hlog.trans hp)
          refine ⟨e :: mid, past, by rw [hh, List.cons_append], fun y hy j hj => ?_⟩
          rcases List.mem_cons.mp hy with rfl | hy
          · rw [← ht] at hj
            cases hj
            exact ⟨rfl, by simp⟩
          · obtain ⟨rfl, hyq⟩ := hmid y hy j hj
            exact ⟨rfl, by simp [hyq]⟩
      · rw [← ht] at hl'
        simp [hl'] at hl
    · -- another worker would have had to start, or be, in a turn at the same time
      rw [hs.other ht] at hl
      obtain ⟨mid, past, hh, hmid⟩ := ih hl
      refine ⟨e :: mid, past, by rw [hh, List.cons_append], fun y hy j hj => ?_⟩
      rcases List.mem_cons.mp hy with rfl | hy
      · exfalso
        have hij : i ≠ j := fun hij => ht (by rw [hj, hij])
        by_cases hpre : y.pre = []
        · rw [hok _ _ hk j hj hpre i hij] at hl
          simp at hl
        · have hlog := hs.log
          rw [hj] at hlog
          rcases atMostOne_reachable hr hok i j hij with h' | h'
          · rw [h'] at hl
            simp at hl
          · exact hpre (hlog ▸ h')
      · exact hmid y hy j hj

/-- The same before an event of the turn. -/
theorem alone_pre (h : (server SHA256).ReachableWhen ok State.initial c) (hok : ∀ c e, ok c e → OneAtATime c e)
    {later earlier : List Event} (hh : c.history = later ++ e :: earlier) (ht : e.tid = .worker i) {p q : List Entry}
    {x : Entry} (hpre : e.pre = p ++ x :: q) :
    ∃ mid past, earlier = mid ++ ⟨.worker i, p, x⟩ :: past ∧
      ∀ y ∈ mid, ∀ j, y.tid = .worker j → j = i ∧ y.act ∈ q := by
  obtain ⟨c₁, c₂, h₁, rfl, hs, -, -⟩ := h.event hh
  have hlog := hs.log
  rw [ht, hpre] at hlog
  exact alone_since h₁ hok hlog

/-- What a worker did before, and not since an entry of this turn, it did before that entry. -/
theorem before_pre (h : (server SHA256).ReachableWhen ok State.initial c) (hok : ∀ c e, ok c e → OneAtATime c e)
    {later earlier : List Event} (hh : c.history = later ++ e :: earlier) (ht : e.tid = .worker i) {p q : List Entry}
    {x : Entry} (hpre : e.pre = p ++ x :: q) {g : Event} {j : Nat} (hg : g ∈ earlier) (hj : g.tid = .worker j)
    (hq : g.act ∉ x :: q) : ∃ mid past, earlier = mid ++ ⟨.worker i, p, x⟩ :: past ∧ g ∈ past := by
  obtain ⟨mid, past, rfl, hturn⟩ := alone_pre h hok hh ht hpre
  refine ⟨mid, past, rfl, ?_⟩
  rcases List.mem_append.mp hg with hg | hg
  · exact absurd (List.mem_cons_of_mem _ (hturn g hg j hj).2) hq
  · rcases List.mem_cons.mp hg with rfl | hg
    · exact absurd List.mem_cons_self hq
    · exact hg

/-- The step an entry of a worker's turn was, since which no worker did anything but
what the turn went on with. -/
theorem step_since (h : (server SHA256).ReachableWhen ok State.initial c) (hok : ∀ c e, ok c e → OneAtATime c e)
    {p q : List Entry} {x : Entry} (hl : (c.threads (.worker i)).log = p ++ x :: q) :
    ∃ c₁ c₂ later, (server SHA256).ReachableWhen ok State.initial c₁ ∧ (server SHA256).Step c₁ ⟨.worker i, p, x⟩ c₂ ∧
      ok c₁ ⟨.worker i, p, x⟩ ∧ (server SHA256).Steps ok c₂ c ∧ c.history = later ++ c₂.history ∧
      ∀ y ∈ later, ∀ j, y.tid = .worker j → y.act ∈ q := by
  obtain ⟨mid, past, hh, hmid⟩ := alone_since h hok hl
  obtain ⟨c₁, c₂, h₁, hpast, hs, hk, hsteps⟩ := h.event hh
  exact ⟨c₁, c₂, mid, h₁, hs, hk, hsteps, by rw [hs.history, hpast, hh], fun y hy j hj => (hmid y hy j hj).2⟩

/-- Threads that handle no request change no table and write no file. -/
theorem part_of_not_worker {tid : Tid} {l : List Entry} {o : Op} (h : ((server SHA256).body tid).Issues l o)
    (ht : ∀ j, tid ≠ .worker j) : o.keepsDb ∧ o.part ≠ some .disk := by
  cases tid with
  | acceptor =>
    have ho := sat_acceptor.issues h
    cases o <;> first | exact absurd ho Bool.false_ne_true | simp [Op.keepsDb, Op.part]
  | sender uid =>
    have ho := sat_sender.issues h
    cases o <;> first | exact absurd ho Bool.false_ne_true | simp [Op.keepsDb, Op.part]
  | worker j => exact absurd rfl (ht j)

/-- Since an entry of its turn, nothing but the worker's own operations changed
the tables. -/
theorem db_since (h : (server SHA256).ReachableWhen ok State.initial c) (hok : ∀ c e, ok c e → OneAtATime c e)
    {p q : List Entry} {x : Entry} (hl : (c.threads (.worker i)).log = p ++ x :: q) (hq : ∀ y ∈ q, y.op.keepsDb) :
    ∃ c₁ c₂, (server SHA256).ReachableWhen ok State.initial c₁ ∧ (server SHA256).Step c₁ ⟨.worker i, p, x⟩ c₂ ∧
      ok c₁ ⟨.worker i, p, x⟩ ∧ (server SHA256).Steps ok c₂ c ∧ c.state.db = c₂.state.db := by
  obtain ⟨c₁, c₂, later, h₁, hs, hk, hsteps, hl, hlater⟩ := step_since h hok hl
  refine ⟨c₁, c₂, h₁, hs, hk, hsteps, hsteps.keeps (fun s => s.db) (.step h₁ hs hk) hl fun c₃ e c₄ h₃ hs₃ he => ?_⟩
  refine step_db hs₃.state ?_
  by_cases ht : ∃ j, e.tid = .worker j
  · obtain ⟨j, hj⟩ := ht
    exact hq _ (hlater e he j hj)
  · exact (part_of_not_worker (hs₃.issues h₃) fun j hj => ht ⟨j, hj⟩).1

/-- The same for the files on disk. -/
theorem disk_since (h : (server SHA256).ReachableWhen ok State.initial c) (hok : ∀ c e, ok c e → OneAtATime c e)
    {p q : List Entry} {x : Entry} (hl : (c.threads (.worker i)).log = p ++ x :: q)
    (hq : ∀ y ∈ q, y.op.part ≠ some .disk) :
    ∃ c₁ c₂, (server SHA256).Step c₁ ⟨.worker i, p, x⟩ c₂ ∧ c.state.disk = c₂.state.disk := by
  obtain ⟨c₁, c₂, later, h₁, hs, hk, hsteps, hl, hlater⟩ := step_since h hok hl
  refine ⟨c₁, c₂, hs, hsteps.keeps (fun s => s.disk) (.step h₁ hs hk) hl fun c₃ e c₄ h₃ hs₃ he => ?_⟩
  refine (State.step_unchanged hs₃.state).disk ?_
  by_cases ht : ∃ j, e.tid = .worker j
  · obtain ⟨j, hj⟩ := ht
    exact hq _ (hlater e he j hj)
  · exact (part_of_not_worker (hs₃.issues h₃) fun j hj => ht ⟨j, hj⟩).2

/-! ## Storing a message -/

/-- The pair of a message about to be inserted has room for one more number. -/
def RoomFor (c : Config) (e : Event) : Prop :=
  ∀ m, e.act.op = .insertMessage m → (c.state.db.conversation m.pair).length < 2 ^ 31 - 1

theorem current_of_oneAtATime (hr : (server SHA256).ReachableWhen ok State.initial c)
    (hok : ∀ c e, ok c e → OneAtATime c e) (h : (server SHA256).Step c e c') (hroom : RoomFor c e) : Current c e := by
  intro m hm
  refine ⟨?_, hroom m hm⟩
  have hi := h.issues hr
  rw [hm] at hi
  obtain ⟨i, fd, conn, n, pkt, u, msgs, timestamp, ht, hp, hl, rfl⟩ := issues_insertMessage hi
  have hlog := h.log
  rw [ht, hl] at hlog
  obtain ⟨c₁, c₂, -, hs, -, -, hdb⟩ := db_since (p := received fd conn n pkt ++ (checked _ u msgs timestamp).take 2)
    (q := [⟨.getTimestamp, timestamp⟩]) hr hok hlog
    (by simp [Op.keepsDb, Op.part])
  have hsel := State.query_ok hs.state
  rw [hdb, hsel.1]
  simp only [numbered]
  rw [hsel.2]

theorem gapFree_of_oneAtATime (h : (server SHA256).ReachableWhen ok State.initial c)
    (hok : ∀ c e, ok c e → OneAtATime c e ∧ RoomFor c e) : c.state.db.GapFree :=
  gapFree_of_current h fun _ _ _ hr hs hk =>
    current_of_oneAtATime hr (fun _ _ hk => (hok _ _ hk).1) hs (hok _ _ hk).2

/-- A message inserted with its pair's next number is read back by it. -/
theorem DataAccess.GapFree.getMessage_insertMessage {db : DataAccess} (h : db.GapFree) {m : Message}
    (hm : m.internalid = g_db.maxInternalId (db.getAllMessages m.message.from_ m.message.to_) + 1)
    (hlt : (db.conversation m.pair).length < 2 ^ 31 - 1) :
    (db.insertMessage m).getMessage m.message.from_ m.message.to_ m.internalid =
      some { m with id := getInt (db.messages.length + 1) } := by
  have hnum : m.internalid.toInt = (db.conversation m.pair).length + 1 := by
    rw [hm]
    exact h.next hlt
  have hconv : (db.insertMessage m).conversation m.pair =
      db.conversation m.pair ++ [toRow m (db.messages.length + 1)] := Numbering.book_append_self
  rw [getMessage_eq, show (m.message.from_, m.message.to_) = m.pair from rfl,
    ((h.insertMessage hm hlt).conversation m.pair).find?_eq, hnum, if_pos (by omega), hconv,
    List.getElem?_append_right (by omega)]
  simp [toRow, MessageRow.toMessage]

/-- **What a `SendMessageRequest` stored** is read back by its internal id, with
the rowid the request was given. -/
theorem stored_getMessage (hr : (server SHA256).ReachableWhen ok State.initial c)
    (hok : ∀ c e, ok c e → OneAtATime c e ∧ RoomFor c e) {fd : Int32} {conn : Conn} {n : Nat} {pkt : Packet}
    {q : SendMessageRequest} {u : User} {msgs : List Message} {timestamp : Int32} {rowid : Nat} {rest : List Entry}
    (hl : (c.threads (.worker i)).log = received fd conn n pkt ++ (stored q u msgs timestamp rowid ++ rest)) :
    c.state.db.getMessage q.message.from_ q.message.to_ (g_db.maxInternalId msgs + 1) =
      some (numbered q.message msgs (Int32.ofNat rowid) timestamp) := by
  have hone : ∀ c e, ok c e → OneAtATime c e := fun _ _ hk => (hok _ _ hk).1
  -- the configuration the rowid was read in, and before it that of the INSERT
  obtain ⟨mid, past, hh, -⟩ := hr.log_since (p := received fd conn n pkt ++ (stored q u msgs timestamp rowid).take 5)
    (x := ⟨.getLastInsertRowid, rowid⟩) (q := rest) hl
  obtain ⟨c₃, c₄, h₃, -, hs₃, hk₃, hsteps⟩ := hr.event hh
  obtain ⟨c₁, c₂, h₁, hs₁, hk₁, hsteps₁, hdb⟩ := db_since (p := received fd conn n pkt ++ checked q u msgs timestamp)
    (x := ⟨.insertMessage (numbered q.message msgs 0 timestamp), .ok 1⟩) (q := []) h₃ hone hs₃.log (by simp)
  have hrow : rowid = c₃.state.db.lastInsertRowid := (Option.ite_none_right_eq_some.mp hs₃.state).1
  have hdb₂ : c₂.state.db = c₁.state.db.insertMessage (numbered q.message msgs 0 timestamp) := by
    rw [State.step_insertMessage_ok (x := ⟨.insertMessage _, .ok 1⟩) hs₁.state rfl]
  have hrowid : rowid = c₁.state.db.messages.length + 1 := by
    rw [hrow, hdb, hdb₂]
    rfl
  obtain ⟨hid, hlt⟩ := current_of_oneAtATime h₁ hone hs₁ (hok _ _ hk₁).2 _ rfl
  have hget := (gapFree_of_oneAtATime h₁ hok).getMessage_insertMessage hid hlt
  rw [← hdb₂] at hget
  rw [hrowid]
  exact getMessage_steps (hsteps₁.trans (Machine.Steps.trans (.tail .refl hs₃ hk₃) hsteps)) hget

end NetChat
