/-
The server as a machine of threads: the accepting thread, the worker threads
and the thread of each user's sender. The pool has ten workers
(`revc_socket_pool_thread_num`); nothing here depends on the number, so a
worker is any natural number. The sender of a user stands still until
`setFd` creates it.
-/
import NetChat.Lib.Threads
import NetChat.Server

namespace NetChat

open Interleave

inductive Tid
  | acceptor
  | worker (i : Nat)
  | sender (uid : Int32)
  deriving DecidableEq

abbrev Entry := Interleave.Entry Op Op.Res
abbrev Event := Interleave.Event Tid Op Op.Res
abbrev Config := Interleave.Config Tid Op Op.Res State

section
variable (SHA256 : Bytes → Bytes)

def server : Machine Tid Op Op.Res State where
  body
    | .acceptor => ServerVan.Accepting
    | .worker _ => Server.RevcSocketThreadFunc SHA256
    | .sender uid => Server.KeepAliveMsgSender.run uid
  step s x := s.step x.op x.res

/-- Reached from an empty database by any interleaving, any requests and any
outcomes, each step meeting `ok`. -/
abbrev ReachableWhen (ok : Config → Event → Prop) (c : Config) : Prop :=
  (server SHA256).ReachableWhen ok State.initial c

abbrev Reachable (c : Config) : Prop := (server SHA256).Reachable State.initial c

end

/-- The log of a worker that took `fd` off the queue and received `pkt`. -/
def received (fd : Int32) (conn : Conn) (n : Nat) (pkt : Packet) : List Entry :=
  [⟨.popRecvSocket, fd⟩, ⟨.Recv fd, .packet conn n pkt⟩]

/-- The packet an operation received, if it is a `Recv` that received one. -/
def received? : Entry → Option Packet
  | ⟨.Recv _, .packet _ _ pkt⟩ => some pkt
  | _ => none

/-- The packet the turn of a worker with this log is handling. -/
def handling : List Entry → Option Packet
  | x :: y :: _ => if x.op = .popRecvSocket then received? y else none
  | _ => none

@[simp] theorem handling_received {fd : Int32} {conn : Conn} {n : Nat} {pkt : Packet} {l : List Entry} :
    handling (received fd conn n pkt ++ l) = some pkt := rfl

theorem handling_mem {l : List Entry} {pkt : Packet} (h : handling l = some pkt) :
    ∃ x ∈ l, received? x = some pkt := by
  match l, h with
  | _ :: y :: _, h =>
    simp only [handling, Option.ite_none_right_eq_some] at h
    exact ⟨y, by simp, h.2⟩

/-- A turn goes on handling its packet, which it received second. -/
theorem handling_append {l : List Entry} {x : Entry} {pkt : Packet} (h : handling (l ++ [x]) = some pkt) :
    handling l = some pkt ∨ ∃ y, l = [y] ∧ y.op = .popRecvSocket ∧ received? x = some pkt := by
  match l, h with
  | [], h => cases h
  | [y], h =>
    simp only [List.cons_append, List.nil_append, handling, Option.ite_none_right_eq_some] at h
    exact .inr ⟨y, rfl, h⟩
  | _ :: _ :: _, h => exact .inl h

/-! ## One request at a time -/

section
variable {SHA256 : Bytes → Bytes} {ok : Config → Event → Prop} {c c' : Config} {e : Event}

/-- The condition of runs that handle requests one at a time: a worker starts a
turn only while every other is between turns. -/
def OneAtATime (c : Config) (e : Event) : Prop :=
  ∀ i, e.tid = .worker i → e.pre = [] → ∀ j, j ≠ i → (c.threads (.worker j)).log = []

/-- At most one worker is in a turn. -/
def AtMostOne (c : Config) : Prop :=
  ∀ i j, i ≠ j → (c.threads (.worker i)).log = [] ∨ (c.threads (.worker j)).log = []

theorem atMostOne_step (ha : AtMostOne c) (h : (server SHA256).Step c e c') (ho : OneAtATime c e) :
    AtMostOne c' := by
  have other : ∀ i j, i ≠ j → .worker i = e.tid → (c.threads (.worker j)).log = [] := by
    intro i j hij hi
    by_cases hpre : e.pre = []
    · exact ho i hi.symm hpre j hij.symm
    · rcases ha i j hij with h' | h'
      · rw [hi, h.log] at h'
        exact absurd h' hpre
      · exact h'
  intro i j hij
  by_cases hi : .worker i = e.tid
  · have hj : .worker j ≠ e.tid := fun hj => hij (by rw [← hi] at hj; cases hj; rfl)
    exact .inr (by rw [h.other hj]; exact other i j hij hi)
  · by_cases hj : .worker j = e.tid
    · exact .inl (by rw [h.other hi]; exact other j i hij.symm hj)
    · rw [h.other hi, h.other hj]
      exact ha i j hij

theorem atMostOne_reachable (h : (server SHA256).ReachableWhen ok State.initial c)
    (hok : ∀ c e, ok c e → OneAtATime c e) : AtMostOne c :=
  h.invariant AtMostOne (fun _ _ _ => .inl rfl) fun _ _ _ _ hi hs hk => atMostOne_step hi hs (hok _ _ hk)

end

/-! ## Schedules -/

abbrev Schedule := List (Tid × Entry)

/-- A run of the server as computed: a schedule leads to a configuration with
`P`, each of its operations, having passed `check`, meeting `ok`. -/
theorem reachableWhen_of_run (SHA256 : Bytes → Bytes) (ok : Config → Event → Prop) (check : Config → Event → Bool)
    (sched : Schedule) (P : Config → Prop) [DecidablePred P]
    (hok : ∀ c e, (e.tid, e.act) ∈ sched → ReachableWhen SHA256 ok c →
      (∀ e ∈ c.history, (e.tid, e.act) ∈ sched) → (c.threads e.tid).log = e.pre → check c e = true → ok c e)
    (h : ((server SHA256).execAll check ((server SHA256).init State.initial) sched).any fun c => decide (P c)) :
    ∃ c, ReachableWhen SHA256 ok c ∧ P c := by
  cases hc : (server SHA256).execAll check ((server SHA256).init State.initial) sched with
  | none => rw [hc] at h; cases h
  | some c =>
    rw [hc] at h
    exact ⟨c, .execAll hok hc, of_decide_eq_true h⟩

theorem reachable_of_run (SHA256 : Bytes → Bytes) (sched : Schedule) (P : Config → Prop) [DecidablePred P]
    (h : ((server SHA256).execAll (fun _ _ => true) ((server SHA256).init State.initial) sched).any fun c =>
      decide (P c)) : ∃ c, Reachable SHA256 c ∧ P c :=
  reachableWhen_of_run SHA256 _ (fun _ _ => true) sched P (fun _ _ _ _ _ _ _ => trivial) h

/-- What is computed of the last event is so of the event the history begins with. -/
theorem last_event {α : Type} {c : Config} {f : Event → α} {v : α} (h : c.history.head?.map f = some v) :
    ∃ e earlier, c.history = e :: earlier ∧ f e = v := by
  obtain ⟨e, he, hv⟩ := Option.map_eq_some_iff.mp h
  obtain ⟨earlier, hh⟩ := List.head?_eq_some_iff.mp he
  exact ⟨e, earlier, hh, hv⟩

/-- In a run of worker 0 the other workers have not moved. -/
theorem worker_idle {SHA256 : Bytes → Bytes} {ok : Config → Event → Prop} {c : Config} {sched : Schedule}
    (hr : ReachableWhen SHA256 ok c) (hh : ∀ e ∈ c.history, (e.tid, e.act) ∈ sched)
    (halone : ∀ y ∈ sched, y.1 = .acceptor ∨ y.1 = .worker 0) {j : Nat} (hj : j ≠ 0) :
    (c.threads (.worker j)).log = [] := by
  rw [hr.fresh fun e he ht => ?_]
  rcases halone _ (hh e he) with h | h
  · rw [ht] at h
    cases h
  · rw [ht] at h
    cases h
    exact hj rfl

/-- A run of worker 0 handles one request at a time. -/
theorem oneAtATime_alone {SHA256 : Bytes → Bytes} {ok : Config → Event → Prop} {c : Config} {e : Event}
    {sched : Schedule} (hr : ReachableWhen SHA256 ok c) (hh : ∀ e ∈ c.history, (e.tid, e.act) ∈ sched)
    (halone : ∀ y ∈ sched, y.1 = .acceptor ∨ y.1 = .worker 0) (he : (e.tid, e.act) ∈ sched) : OneAtATime c e := by
  intro i hi _ j hj
  refine worker_idle hr hh halone fun hj0 => hj ?_
  rcases halone _ he with h | h
  · rw [hi] at h
    cases h
  · rw [hi] at h
    cases h
    exact hj0

/-- In a run of a schedule every packet handled is one the schedule receives. -/
theorem handling_scheduled {SHA256 : Bytes → Bytes} {ok : Config → Event → Prop} {c : Config} {sched : Schedule}
    (hr : ReachableWhen SHA256 ok c) (hh : ∀ e ∈ c.history, (e.tid, e.act) ∈ sched) {t : Tid} {pkt : Packet}
    (h : handling (c.threads t).log = some pkt) : ∃ y ∈ sched, received? y.2 = some pkt := by
  obtain ⟨x, hx, hp⟩ := handling_mem h
  obtain ⟨e, he, -, rfl⟩ := hr.log_mem_history hx
  exact ⟨_, hh e he, hp⟩

/-- A client connects and gets the descriptor `fd`. -/
def connects (fd : Int32) : Schedule :=
  [(.acceptor, ⟨.epoll_wait, [.server]⟩), (.acceptor, ⟨.accept, some fd⟩), (.acceptor, ⟨.epollAdd fd, true⟩)]

/-- Bytes arrive on `fd`, which is queued for the workers. -/
def arrives (fd : Int32) : Schedule :=
  [(.acceptor, ⟨.epoll_wait, [.client fd true]⟩), (.acceptor, ⟨.pushRecvSocket fd, ()⟩)]

/-- Worker `i` takes `fd` and receives `pkt`, then does `rest`. -/
def handles (i : Nat) (fd : Int32) (conn : Conn) (pkt : Packet) (rest : List Entry) : Schedule :=
  arrives fd ++ (received fd conn 64 pkt ++ rest).map fun x => (.worker i, x)

/-- The reply of type `t` goes out on the connection. -/
def replies (fd : Int32) (conn : Conn) (t : PacketType) (b : Body) : Entry :=
  ⟨.Send fd (packToPacket t b), ⟨some conn, true⟩⟩

/-- Worker 0 handles a `RegisterRequest` that creates a user. -/
def registers (fd : Int32) (conn : Conn) (name password hash : Bytes) : Schedule :=
  handles 0 fd conn (packToPacket .RegisterRequest (.RegisterRequest ⟨name, password⟩))
    [⟨.insertUser name hash, .ok 1⟩, replies fd conn .RegisterResponse (.RegisterResponse true)]

/-- Worker 0 gives `user` a challenge. -/
def challenges (fd : Int32) (conn : Conn) (user : User) (challenge : Bytes) : Schedule :=
  handles 0 fd conn (packToPacket .LoginPreRequest (.LoginPreRequest ⟨user.username⟩))
    [⟨.getUser user.username, .ok (some user)⟩, ⟨.time, 0⟩, ⟨.genChallenge 0, challenge⟩,
      ⟨.setChallengeMp user.id challenge, ()⟩, replies fd conn .LoginPreResponse (.LoginPreResponse challenge)]

/-- Worker 0 logs `user` in, with the challenge it reads. -/
def logsIn (fd : Int32) (conn : Conn) (user : User) (challenge hash token : Bytes) : Schedule :=
  handles 0 fd conn (packToPacket .LoginRequest (.LoginRequest ⟨user.username, hash⟩))
    [⟨.getUser user.username, .ok (some user)⟩, ⟨.getChallengeMp user.id, challenge⟩, ⟨.getUUID, token⟩,
      ⟨.setUserIdByToken token user.id, ()⟩, ⟨.delChallengeMp user.id, ()⟩,
      replies fd conn .LoginResponse (.LoginResponse ⟨true, user.id, token⟩)]

namespace Example

/-- The SHA-256 digests of a password, and of its digest with and without a
challenge. -/
def digest : Bytes := bytes "8d969eef6ecad3c29a3a629280e686cf0c3f5d5a86aff3ca12020c923adc6c92"
def response : Bytes := bytes "a8f489449a19e6ed18e775655f4a4d04b7f065323f6ca76704c90fb35c216113"
def blankResponse : Bytes := bytes "49dc52e6bf2abe5ef6e2bb5b0f1ee2d765b922ae6cc8b95d39dc06c21c848f8c"

def password : Bytes := bytes "123456"
def challenge : Bytes := bytes "abcdefghijklmnopqrstuvwxyz012345"
def token : Bytes := bytes "5f0c7b1e-0d5a-4c1b-9a37-2b8f6f4f1d01"

/-- SHA-256 where the runs below use it. -/
def SHA256 (s : Bytes) : Bytes :=
  if s = password then digest else if s = digest ++ challenge then response
  else if s = digest then blankResponse else []

/-- The first user. -/
def bob : User := ⟨1, bytes "bob", digest⟩

/-- Bob connects on descriptor 5, registers and logs in. -/
def session : Schedule :=
  connects 5 ++ registers 5 0 bob.username password digest ++ challenges 5 0 bob challenge ++
    logsIn 5 0 bob challenge response token

end Example

end NetChat
