/-
The epoll set. Three places take a descriptor out of it: the accepting thread
when a client is gone, a worker whose reply failed, and the callback that
makes the connection a channel. Each readiness event queues the descriptor
once more, so several workers can act on one descriptor at once; the second
to take it out finds it gone, and `controlEpollDel` aborts the process.
-/
import NetChat.Frames
import NetChat.Turns

namespace NetChat

open Interleave Prog Server

variable {SHA256 : Bytes → Bytes} {ok : Config → Event → Prop} {c c' : Config} {e : Event} {l : List Entry} {fd : Int32}

/-! ## Registered descriptors -/

/-- The descriptor an operation takes out of the epoll set. -/
def Op.deregisters : Op → Option Int32
  | .epollDel fd | .close fd => some fd
  | _ => none

theorem step_epoll {s s' : State} {x : Entry} (h : s.step x.op x.res = some s') (hx : x.op.deregisters ≠ some fd)
    (hfd : s.epoll fd = true) : s'.epoll fd = true := by
  obtain ⟨o, r⟩ := x
  by_cases hp : o.part = some .descriptors
  · cases o <;> simp only [Op.part, Option.some.injEq, reduceCtorEq] at hp
    case accept =>
      cases r with
      | none => simp only [State.step, State.accept, Option.some.injEq] at h; rwa [← h]
      | some fd' =>
        simp only [State.step, State.accept, Option.ite_none_right_eq_some, Option.some.injEq] at h
        rwa [← h.2]
    case epollAdd fd' =>
      simp only [State.step, Option.ite_none_right_eq_some, Option.some.injEq] at h
      rw [← h.2]
      simp only
      split
      · by_cases hf : fd = fd'
        · rw [hf, Function.update_self]
        · rwa [Function.update_of_ne hf]
      · exact hfd
    case epollDel fd' =>
      simp only [State.step, Option.ite_none_right_eq_some, Option.some.injEq] at h
      have hne : fd ≠ fd' := by rintro rfl; exact hx rfl
      rw [← h.2]
      simpa [Function.update_of_ne hne] using hfd
    case close fd' =>
      simp only [State.step, Option.ite_none_right_eq_some, Option.some.injEq] at h
      have hne : fd ≠ fd' := by rintro rfl; exact hx rfl
      rw [← h.2]
      simpa [Function.update_of_ne hne] using hfd
  · rwa [(State.step_unchanged h).epoll hp]

/-- Every registered descriptor is open. -/
def EpollOpen (s : State) : Prop := ∀ fd, s.epoll fd = true → (s.fds fd).isSome = true

theorem epollOpen_step {s s' : State} {x : Entry} (hi : EpollOpen s) (h : s.step x.op x.res = some s') :
    EpollOpen s' := by
  obtain ⟨o, r⟩ := x
  by_cases hp : o.part = some .descriptors
  · intro fd hfd
    cases o <;> simp only [Op.part, Option.some.injEq, reduceCtorEq] at hp
    case accept =>
      cases r with
      | none => simp only [State.step, State.accept, Option.some.injEq] at h; subst h; exact hi fd hfd
      | some fd' =>
        simp only [State.step, State.accept, Option.ite_none_right_eq_some, Option.some.injEq] at h
        obtain ⟨-, rfl⟩ := h
        by_cases hf : fd = fd'
        · subst hf
          simp
        · simpa [Function.update_of_ne hf] using hi fd hfd
    case epollAdd fd' =>
      simp only [State.step, Option.ite_none_right_eq_some, Option.some.injEq] at h
      obtain ⟨rfl, rfl⟩ := h
      by_cases hf : fd = fd'
      · subst hf
        simp only at hfd ⊢
        split at hfd
        · rename_i hr
          simp only [Bool.and_eq_true] at hr
          exact hr.1
        · exact hi fd hfd
      · simp only at hfd ⊢
        split at hfd
        · exact hi fd (by simpa [Function.update_of_ne hf] using hfd)
        · exact hi fd hfd
    case epollDel fd' =>
      simp only [State.step, Option.ite_none_right_eq_some, Option.some.injEq] at h
      obtain ⟨-, rfl⟩ := h
      by_cases hf : fd = fd'
      · subst hf
        simp at hfd
      · exact hi fd (by simpa [Function.update_of_ne hf] using hfd)
    case close fd' =>
      simp only [State.step, Option.ite_none_right_eq_some, Option.some.injEq] at h
      obtain ⟨-, rfl⟩ := h
      by_cases hf : fd = fd'
      · subst hf
        simp at hfd
      · simpa [Function.update_of_ne hf] using hi fd (by simpa [Function.update_of_ne hf] using hfd)
  · intro fd hfd
    rw [(State.step_unchanged h).epoll hp] at hfd
    rw [(State.step_unchanged h).fds hp]
    exact hi fd hfd

theorem epollOpen (h : (server SHA256).ReachableWhen ok State.initial c) : EpollOpen c.state :=
  h.state_invariant EpollOpen (by intro fd hfd; cases hfd) fun _ _ _ hi hs => epollOpen_step hi hs

/-! ## Who takes a descriptor out -/

theorem Op.ofHandler.deregisters {t : PacketType} {o : Op} (h : o.ofHandler t) : o.deregisters = none := by
  rcases h with h | h <;> cases o <;>
    first | rfl | exact absurd h Bool.false_ne_true | exact absurd h (Option.some_ne_none _).symm

/-- The callback that makes a connection a channel takes it out last. -/
theorem setupChannel_epollDel {uid fd' : Int32} (h : (setupChannel uid fd').Issues l (.epollDel fd)) :
    ∀ x ∈ l, x.op.deregisters = none := by
  cases setupChannel_issues h with
  | @leave found users l l' list hrun hl' =>
    intro x hx
    simp only [List.mem_append, List.mem_cons] at hx
    rcases hx with hx | rfl | hx | hx
    · simp only [installed, List.mem_cons] at hx
      rcases hx with rfl | hx
      · rfl
      · split at hx
        · rw [List.mem_singleton.mp hx]
          rfl
        · cases hx
    · rfl
    · obtain ⟨r, ho⟩ := ((sat_contactList_getAllMessages users).runs hrun).1 x hx
      rw [ho]
      rfl
    · rcases hl' with rfl | rfl <;> simp only [List.mem_cons, List.not_mem_nil, or_false] at hx
      · rw [hx]
        rfl
      · rcases hx with rfl | rfl <;> rfl

theorem worker_epollDel (h : (RevcSocketThreadFunc SHA256).Issues l (.epollDel fd)) :
    ∀ x ∈ l, x.op.deregisters = none := by
  rcases worker_issues h with ⟨-, ho⟩ | ⟨fd', -, ho⟩ | ⟨fd', conn, n, pkt, hd, l', rfl, hh, hp⟩
  · cases ho
  · cases ho
  obtain ⟨t, ht, hs⟩ := handler_isHandler hh
  have hhandler : ∀ l₁ reply, hd.Runs l₁ reply → ∀ x ∈ l₁, x.op.deregisters = none :=
    fun _ _ hr x hx => ((hs.runs hr).1 x hx).deregisters
  have hl' : ∀ x ∈ l', x.op.deregisters = none := by
    cases hp with
    | handling h => rcases hs.issues h with h | h <;> cases h
    | replying _ ho => cases ho
    | @callback reply cb l₁ l₂ out hl _ hr hcb h =>
      obtain rfl := (((hs.runs hr).2.2 _ hcb).2.issues h).owner rfl
      rw [handler_setupChannel ht] at hh
      cases hh
      obtain ⟨uid, -, hreply⟩ := onSetupChannelRequest_runs hr
      rw [hreply] at hcb
      cases hcb
      intro x hx
      simp only [hl, List.mem_append, List.mem_cons] at hx
      rcases hx with hx | rfl | hx
      · exact hhandler _ _ hr x hx
      · rfl
      · exact setupChannel_epollDel h x hx
    | @dropping reply l₁ out hl _ hr _ =>
      intro x hx
      simp only [hl, List.mem_append, List.mem_cons, List.not_mem_nil, or_false] at hx
      rcases hx with hx | rfl
      · exact hhandler _ _ hr x hx
      · rfl
    | closing _ _ _ ho => cases ho
  intro x hx
  simp only [received, List.cons_append, List.nil_append, List.mem_cons] at hx
  rcases hx with rfl | rfl | hx
  · rfl
  · rfl
  · exact hl' x hx

theorem sat_onEvent (ev : EpollEvent) :
    (ServerVan.onEvent ev).Sat (fun o => ∀ fd, o.deregisters = some fd → ev = .client fd false) fun _ => True := by
  cases ev with
  | server =>
    refine ⟨by simp [Op.deregisters], fun fd => ?_⟩
    cases fd with
    | none => trivial
    | some fd =>
      refine ⟨by simp [Op.deregisters], fun ok => ?_⟩
      simp only
      split <;> trivial
  | client fd epollin =>
    cases epollin with
    | true => exact ⟨by simp [Op.deregisters], fun _ => trivial⟩
    | false =>
      refine ⟨by simp [Op.deregisters], fun ok => ?_⟩
      simp only
      split
      · exact ⟨by simp [Op.deregisters], fun _ => trivial⟩
      · trivial

/-- The accepting thread takes out the descriptor of a client that is gone, and
has not done so earlier in its turn when each descriptor has one event. -/
theorem onEvents_epollDel {evs : List EpollEvent} (hnodup : (evs.map EpollEvent.fd).Nodup)
    (h : (ServerVan.onEvents evs).Issues l (.epollDel fd)) :
    .client fd false ∈ evs ∧ ∀ x ∈ l, x.op.deregisters ≠ some fd := by
  induction evs generalizing l with
  | nil => simp [ServerVan.onEvents] at h
  | cons ev evs ih =>
    simp only [ServerVan.onEvents, bind_eq] at h
    rw [List.map_cons, List.nodup_cons] at hnodup
    rcases issues_bind.mp h with h | ⟨_, l₁, l₂, rfl, hr, h⟩
    · obtain rfl := (sat_onEvent ev).issues h fd rfl
      refine ⟨by simp, ?_⟩
      simp only [ServerVan.onEvent, Van.controlEpollDel, Van.closeFd, bind_eq, op_bind, issues_op] at h
      rcases h with ⟨rfl, -⟩ | ⟨ok, l, -, h⟩
      · simp
      · split at h <;> simp at h
    · obtain ⟨hmem, hl₂⟩ := ih hnodup.2 h
      refine ⟨List.mem_cons_of_mem _ hmem, fun x hx => ?_⟩
      rcases List.mem_append.mp hx with hx | hx
      · intro hd
        obtain rfl := ((sat_onEvent ev).runs hr).1 x hx fd hd
        exact hnodup.1 (List.mem_map_of_mem hmem)
      · exact hl₂ x hx

/-- **A turn takes a descriptor out once.** -/
theorem pre_epollDel (hr : (server SHA256).ReachableWhen ok State.initial c) (hs : (server SHA256).Step c e c')
    (ho : e.act.op = .epollDel fd) : ∀ x ∈ e.pre, x.op.deregisters ≠ some fd := by
  have hi := hs.issues hr
  rw [ho] at hi
  cases ht : e.tid with
  | acceptor =>
    rw [ht] at hi
    simp only [server, ServerVan.Accepting, bind_eq, op_bind, ret_bind, issues_op, reduceCtorEq, and_false,
      false_or] at hi
    obtain ⟨evs, l, hl, hi⟩ := hi
    have hwait : ⟨.epoll_wait, evs⟩ ∈ (c.threads e.tid).log := by rw [hs.log, hl]; simp
    obtain ⟨w, hw, -, hwact⟩ := hr.log_mem_history hwait
    obtain ⟨c₁, c₂, -, hs₁, -, -⟩ := hr.event_mem hw
    have hevs := hs₁.state
    rw [hwact] at hevs
    simp only [server, State.step, Option.ite_none_right_eq_some, Option.some.injEq] at hevs
    intro x hx
    rw [hl] at hx
    rcases List.mem_cons.mp hx with rfl | hx
    · simp [Op.deregisters]
    · exact (onEvents_epollDel hevs.1.2.1 hi).2 x hx
  | worker i =>
    rw [ht] at hi
    intro x hx
    rw [worker_epollDel hi x hx]
    simp
  | sender uid =>
    rw [ht] at hi
    have hstep := sender_issues hi
    generalize e.pre = l at hstep
    cases hstep

/-! ## Registered when taken out -/

/-- `epoll_wait` reports an event of the descriptor. -/
def Reports (fd : Int32) (e : Event) : Prop := ∃ evs ev, e.act = ⟨.epoll_wait, evs⟩ ∧ ev ∈ evs ∧ ev.fd = some fd

/-- The condition on the step that takes a descriptor out: since `epoll_wait`
last reported it, nothing took it out, other than in the same turn. -/
def SoleHolder (c : Config) (e : Event) : Prop :=
  ∀ fd, e.act.op = .epollDel fd → ∃ later report earlier, c.history = later ++ report :: earlier ∧ Reports fd report ∧
    ∀ e' ∈ later, e'.act.op.deregisters = some fd → e'.tid = e.tid ∧ e'.act ∈ e.pre

/-- What a step takes out of the epoll set is an open descriptor in it, so that
`controlEpollDel` does not abort. -/
def DelSafe (c : Config) (e : Event) : Prop :=
  ∀ fd, e.act.op = .epollDel fd →
    (c.state.fds fd).isSome = true ∧ c.state.epoll fd = true ∧ e.act = ⟨.epollDel fd, true⟩

/-- **The epoll bookkeeping never aborts the server** in a run in which no
descriptor is taken out by two turns that one report let at it. -/
theorem epollDel_safe (h : ReachableWhen SHA256 SoleHolder c) (hs : (server SHA256).Step c e c')
    (hk : SoleHolder c e) : DelSafe c e := by
  intro fd ho
  obtain ⟨later, report, earlier, hh, ⟨evs, ev, hact, hev, hfd⟩, hlater⟩ := hk fd ho
  obtain ⟨c₁, c₂, h₁, hh₁, hs₁, hk₁, hsteps⟩ := h.event hh
  have hwait := hs₁.state
  rw [hact] at hwait
  simp only [server, State.step, Option.ite_none_right_eq_some, Option.some.injEq, List.all_eq_true] at hwait
  have hreg : c₂.state.epoll fd = true := by
    have hrep := hwait.1.2.2 ev hev
    rw [← hwait.2]
    cases ev with
    | server => cases hfd
    | client fd' epollin => cases hfd; exact hrep
  have hnow : c.state.epoll fd = true := by
    refine hsteps.preserves (fun s => s.epoll fd = true) (.step h₁ hs₁ hk₁) (by rw [hs₁.history, hh₁, hh])
      (fun c₃ e' c₄ _ hs₃ he' => step_epoll hs₃.state fun hd => ?_) hreg
    exact pre_epollDel h hs ho _ (hlater e' he' hd).2 hd
  refine ⟨epollOpen h fd hnow, hnow, ?_⟩
  obtain ⟨r, hr⟩ := Entry.of_op ho
  have hdel := hs.state
  rw [hr] at hdel ⊢
  simp only [server, State.step, Option.ite_none_right_eq_some, Option.some.injEq] at hdel
  rw [hdel.1, hnow]

/-! ## Two workers on one descriptor -/

namespace Example

def statusRequest : Packet := packToPacket .ServerStatusRequest .ServerStatusRequest
def statusResponse : Packet := packToPacket .ServerStatusResponse (.ServerStatusResponse true true)

/-- Worker `i` receives a status request on descriptor 5. -/
def receives (i : Nat) : Schedule := (received 5 0 64 statusRequest).map fun x => (.worker i, x)

/-- The reply fails and worker `i` takes descriptor 5 out of the epoll set. -/
def drops (i : Nat) (registered : Bool) : Schedule :=
  [(.worker i, ⟨.Send 5 statusResponse, ⟨some 0, false⟩⟩), (.worker i, ⟨.epollDel 5, registered⟩)]

/-- A client sends two requests and goes away: both replies fail. -/
def twoRequests : Schedule :=
  connects 5 ++ arrives 5 ++ arrives 5 ++ receives 0 ++ receives 1 ++ drops 0 true ++ drops 1 false

/-- A client sends a request and goes away: the reply fails. -/
def oneRequest : Schedule := connects 5 ++ arrives 5 ++ receives 0 ++ (drops 0 true).take 1

theorem oneRequest_deregisters : ∀ y ∈ oneRequest, y.2.op.deregisters = none := by decide +kernel

end Example

/-- The second of two workers on a descriptor finds it gone. -/
theorem not_delSafe : ¬ ∀ SHA256 c e c', Reachable SHA256 c → (server SHA256).Step c e c' → DelSafe c e := by
  intro h
  obtain ⟨c, hr, hlast⟩ := reachable_of_run Example.SHA256 Example.twoRequests
    (fun c => c.history.head?.map (·.act) = some ⟨.epollDel 5, false⟩) (by decide +kernel)
  obtain ⟨e, earlier, hh, hlast⟩ := last_event hlast
  obtain ⟨c₁, c₂, h₁, -, hs, -, -⟩ := hr.event (show c.history = [] ++ e :: earlier from hh)
  have hdel := (h _ c₁ e c₂ h₁ hs 5 (by rw [hlast])).2.2
  rw [hlast] at hdel
  cases hdel

/-- One worker takes the descriptor out. -/
theorem epollDel_safe_drop : ∃ c e c', (server Example.SHA256).Step c e c' ∧ e.act.op = .epollDel 5 ∧ DelSafe c e := by
  obtain ⟨c, hr, hlater, hreport, hexec⟩ := reachableWhen_of_run Example.SHA256 SoleHolder (fun _ _ => true)
    Example.oneRequest
    (fun c => (∀ e ∈ c.history.take 4, e.act.op.deregisters = none) ∧
      (c.history.drop 4).head?.map (·.act) = some ⟨.epoll_wait, [.client 5 true]⟩ ∧
      ((server Example.SHA256).exec c (.worker 0) ⟨.epollDel 5, true⟩).isSome)
    (fun c e he _ _ _ _ fd ho => by
      have hnone := Example.oneRequest_deregisters _ he
      simp only [ho] at hnone
      cases hnone)
    (by decide +kernel)
  obtain ⟨c', hexec⟩ := Option.isSome_iff_exists.mp hexec
  have hs := Machine.exec_step hexec
  refine ⟨c, _, c', hs, rfl, epollDel_safe hr hs fun fd ho => ?_⟩
  cases ho
  obtain ⟨report, hhead, hact⟩ := Option.map_eq_some_iff.mp hreport
  obtain ⟨earlier, hdrop⟩ := List.head?_eq_some_iff.mp hhead
  refine ⟨c.history.take 4, report, earlier, ?_, ⟨_, _, hact, List.mem_singleton.mpr rfl, rfl⟩, fun e' he' hd => ?_⟩
  · rw [← hdrop, List.take_append_drop]
  · rw [hlater e' he'] at hd
    cases hd

end NetChat
