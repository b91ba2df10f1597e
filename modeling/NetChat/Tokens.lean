/-
What a token stands for. The pool is written by one step, that of a
`LoginRequest` whose hash matched, under a token it drew before in the same
turn. While no two logins draw one token, no such step finds its token taken,
so the pool only grows, and an entry is the login that put it there.
-/
import NetChat.Provenance

namespace NetChat

open Interleave Prog

variable {SHA256 : Bytes → Bytes} {ok : Config → Event → Prop} {c c' : Config} {e : Event} {token : Bytes} {uid : Int32}

/-- `e` is the step by which a `LoginRequest` generates `token`. -/
def DrawsToken (token : Bytes) (e : Event) : Prop :=
  e.act = ⟨.getUUID, token⟩ ∧ ∃ pkt, handling e.pre = some pkt ∧ pkt.packetid = PacketType.val .LoginRequest

/-- The assumption on the generator: no token is generated twice. -/
def FreshTokens (c : Config) (e : Event) : Prop := ∀ token, DrawsToken token e → ∀ e' ∈ c.history, ¬ DrawsToken token e'

theorem DrawsToken.ne_nil (hd : DrawsToken token e) (h : (server SHA256).ReachableWhen ok State.initial c)
    (he : e ∈ c.history) : token ≠ [] := by
  rintro rfl
  obtain ⟨c₁, c₂, -, hs, -, -⟩ := h.event_mem he
  have hdraw := hs.state
  rw [hd.1] at hdraw
  simp [server, State.step, isUUID] at hdraw

/-- What a login issues it generated before in its turn. -/
theorem IssuesToken.draws (hi : IssuesToken SHA256 token uid e) (h : (server SHA256).ReachableWhen ok State.initial c)
    {later earlier : List Event} (hh : c.history = later ++ e :: earlier) :
    ∃ mid past draw, earlier = mid ++ draw :: past ∧ Machine.SameTurn e.tid mid ∧ draw.tid = e.tid ∧
      DrawsToken token draw := by
  obtain ⟨i, fd, conn, n, pkt, user, challenge, -, hp, hl, -, -, -⟩ := hi
  obtain ⟨mid, past, hmid, hturn⟩ := h.pre_since hh (x := ⟨.getUUID, token⟩) (q := [])
    (p := received fd conn n pkt ++ [⟨.getUser (pkt.request LoginRequest).username, .ok (some user)⟩,
      ⟨.getChallengeMp user.id, challenge⟩]) (by rw [hl]; rfl)
  exact ⟨mid, past, _, hmid, hturn, rfl, rfl, pkt, rfl, hp⟩

/-- **A token is stored once**: the step that issues it finds no entry for it. -/
theorem token_absent (h : ReachableWhen SHA256 FreshTokens c) (hs : (server SHA256).Step c e c')
    (hi : IssuesToken SHA256 token uid e) : c.state.token_pool token = none := by
  cases hp : c.state.token_pool token with
  | none => rfl
  | some u =>
    exfalso
    -- an earlier login generated the token, and this one did; that is one step, so they are one turn
    obtain ⟨later, login, earlier, hh, hlogin, -⟩ := token_pool_issuedTo h hp
    obtain ⟨mid', past', draw', rfl, hturn', ht', hd'⟩ := hlogin.draws h hh
    have hnow : c'.history = [] ++ e :: c.history := hs.history
    obtain ⟨mid, past, draw, hmid, hturn, ht, hd⟩ := hi.draws (.step h.reachable hs trivial) hnow
    have hh' : c.history = (later ++ login :: mid') ++ draw' :: past' := by rw [hh]; simp
    obtain ⟨rfl, rfl, rfl⟩ := split_unique hmid hh' hd hd' fun a y b hab hy z hz => by
      obtain ⟨c₁, c₂, -, rfl, -, hk, -⟩ := h.event hab
      exact hk token hy z hz
    -- but its log has no store of the token
    have hlog := h.log_of_sameTurn hh (by rw [← ht', ht]; exact fun y hy => hturn y (by simp [hy]))
    obtain ⟨i, fd, conn, n, pkt, user, challenge, -, -, hl, -, -, -⟩ := hi
    obtain ⟨-, -, -, -, -, -, -, -, -, -, -, -, hact⟩ := hlogin
    rw [← ht', ht, hs.log, hl, hact] at hlog
    rcases hlog with hlog | ⟨q, hlog⟩
    · simp [received] at hlog
    · have hmem : (⟨.setUserIdByToken token u, ()⟩ : Entry) ∈ login.pre ++ ⟨.setUserIdByToken token u, ()⟩ :: q := by
        simp
      rw [← hlog] at hmem
      simp [received] at hmem

/-! ## Token authority -/

/-- A token resolves to a user exactly when a login, its hash matched, stored it
for that user; that user is registered; it resolves to the user from then on; and
no other step changes the pool. -/
structure TokenAuthority (SHA256 : Bytes → Bytes) (c : Config) : Prop where
  resolves : ∀ token uid, uid ≠ 0 →
    (c.state.getUserIdByToken token = uid ↔ ∃ e ∈ c.history, IssuesToken SHA256 token uid e)
  registered : ∀ token uid, c.state.token_pool token = some uid → ∃ u ∈ c.state.db.getAllUsers, u.id = uid
  stays : ∀ c' token uid, (server SHA256).Steps FreshTokens c c' → uid ≠ 0 → c.state.getUserIdByToken token = uid →
    c'.state.getUserIdByToken token = uid
  changes : ∀ e c', (server SHA256).Step c e c' → c'.state.token_pool = c.state.token_pool ∨
    ∃ token uid, IssuesToken SHA256 token uid e ∧ c.state.token_pool token = none ∧
      c'.state.token_pool = Function.update c.state.token_pool token (some uid)

theorem getUserIdByToken_eq {s : State} (hu : uid ≠ 0) :
    s.getUserIdByToken token = uid ↔ token ≠ [] ∧ s.token_pool token = some uid := by
  unfold State.getUserIdByToken
  by_cases ht : token = []
  · simp [ht, hu.symm]
  · rw [if_neg ht]
    cases hp : s.token_pool token with
    | none => simp [hu.symm]
    | some u => simp [ht]

theorem token_pool_changes (h : ReachableWhen SHA256 FreshTokens c) (hs : (server SHA256).Step c e c') :
    c'.state.token_pool = c.state.token_pool ∨
      ∃ token uid, IssuesToken SHA256 token uid e ∧ c.state.token_pool token = none ∧
        c'.state.token_pool = Function.update c.state.token_pool token (some uid) := by
  by_cases hp : e.act.op.part = some .token_pool
  · obtain ⟨token, uid, ho⟩ : ∃ token uid, e.act.op = .setUserIdByToken token uid := by
      cases ho : e.act.op <;> rw [ho] at hp <;> simp only [Op.part, Option.some.injEq, reduceCtorEq] at hp
      exact ⟨_, _, rfl⟩
    have hi := setUserIdByToken_issuesToken h hs ho
    refine .inr ⟨token, uid, hi, token_absent h hs hi, ?_⟩
    obtain ⟨_, hx⟩ := Entry.of_op ho
    have hset := hs.state
    rw [hx] at hset
    simp only [server, State.step, Option.some.injEq] at hset
    rw [← hset]
  · exact .inl ((State.step_unchanged hs.state).token_pool hp)

/-- A stored token stays. -/
theorem token_stays (h : ReachableWhen SHA256 FreshTokens c) (hs : (server SHA256).Steps FreshTokens c c')
    (hp : c.state.token_pool token = some uid) : c'.state.token_pool token = some uid := by
  induction hs with
  | refl => exact hp
  | @tail c₁ c₂ e hs h₁ _ ih =>
    rcases token_pool_changes (h.steps hs) h₁ with heq | ⟨token', uid', -, hnone, heq⟩
    · rw [heq]
      exact ih
    · have hne : token ≠ token' := by
        rintro rfl
        rw [ih] at hnone
        cases hnone
      rw [heq, Function.update_of_ne hne]
      exact ih

/-- What a login issued stays. -/
theorem issued_stays (h : ReachableWhen SHA256 FreshTokens c) (he : e ∈ c.history)
    (hi : IssuesToken SHA256 token uid e) :
    token ≠ [] ∧ c.state.token_pool token = some uid := by
  obtain ⟨later, earlier, hh⟩ := List.append_of_mem he
  obtain ⟨c₁, c₂, h₁, -, hs, hk, hsteps⟩ := h.event hh
  refine ⟨?_, token_stays (.step h₁ hs hk) hsteps ?_⟩
  · obtain ⟨mid, past, draw, rfl, -, -, hd⟩ := hi.draws h hh
    exact hd.ne_nil h (by rw [hh]; simp)
  · obtain ⟨-, -, -, -, -, -, -, -, -, -, -, -, hact⟩ := hi
    have hset := hs.state
    rw [hact] at hset
    simp only [server, State.step, Option.some.injEq] at hset
    rw [← hset]
    exact Function.update_self ..

/-- **Tokens have their authority from logins**, in every state reached while no
token is generated twice. -/
theorem token_authority (h : ReachableWhen SHA256 FreshTokens c) : TokenAuthority SHA256 c where
  resolves := by
    intro token uid hu
    rw [getUserIdByToken_eq hu]
    constructor
    · rintro ⟨-, hp⟩
      obtain ⟨later, e, earlier, hh, hi, -⟩ := token_pool_issuedTo h hp
      exact ⟨e, by rw [hh]; simp, hi⟩
    · rintro ⟨e, he, hi⟩
      exact issued_stays h he hi
  registered := by
    intro token uid hp
    obtain ⟨later, e, earlier, hh, hi, -⟩ := token_pool_issuedTo h hp
    exact issuesToken_registered h (by rw [hh]; simp) hi
  stays := by
    intro c' token uid hs hu hp
    rw [getUserIdByToken_eq hu] at hp ⊢
    exact ⟨hp.1, token_stays h hs hp.2⟩
  changes := fun _ _ hs => token_pool_changes h hs

/-- Whether a step generates nothing, or the first value generated. -/
def checkFirstUUID (c : Config) (e : Event) : Bool :=
  e.act.op != .getUUID || c.history.all fun e' => e'.act.op != .getUUID

theorem freshTokens_of_check (h : checkFirstUUID c e = true) : FreshTokens c e := by
  intro token hd e' he' hd'
  simp only [checkFirstUUID, Bool.or_eq_true, bne_iff_ne, ne_eq, List.all_eq_true] at h
  rcases h with h | h
  · exact h (by rw [hd.1])
  · exact h e' he' (by rw [hd'.1])

theorem token_authority_session : ∃ c, c.state.getUserIdByToken Example.token = 1 ∧
    TokenAuthority Example.SHA256 c := by
  obtain ⟨c, hr, htoken⟩ := reachableWhen_of_run Example.SHA256 FreshTokens checkFirstUUID Example.session
    (fun c => c.state.getUserIdByToken Example.token = 1)
    (fun _ _ _ _ _ _ hcheck => freshTokens_of_check hcheck) (by decide +kernel)
  exact ⟨c, htoken, token_authority hr⟩

end NetChat
